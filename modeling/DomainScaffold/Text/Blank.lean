import DomainScaffold.Text.CodeRange

/-!
# Blanks

The characters with the Unicode property White_Space, and what is cut off or split at them.

Results:
* `isBlank_of_isWhitespace`: the whitespace of core is blank.
* `not_isBlank_of_mem_words`: the words of a text hold no blank.
-/

namespace DomainScaffold.Text

/-- The code points of the property White_Space. -/
def blankRanges : List (Nat × Nat) :=
  [(9, 13), (32, 32), (133, 133), (160, 160), (5760, 5760), (8192, 8202), (8232, 8233),
   (8239, 8239), (8287, 8287), (12288, 12288)]

/-- Whether a character is white space. -/
def isBlank (c : Char) : Bool := inRanges blankRanges c.toNat

theorem isBlank_of_isWhitespace {c : Char} (h : c.isWhitespace = true) : isBlank c = true := by
  simp only [Char.isWhitespace, Bool.or_eq_true, decide_eq_true_eq] at h
  rcases h with ((h | h) | h) | h <;> subst h <;> decide

/-! ## Cutting and splitting -/

/-- The characters without the blanks at both ends. -/
def trimBlank (cs : List Char) : List Char :=
  ((cs.dropWhile isBlank).reverse.dropWhile isBlank).reverse

theorem length_trimBlank_le (cs : List Char) : (trimBlank cs).length ≤ cs.length := by
  have h := (List.dropWhile_suffix isBlank (l := cs)).length_le
  have h' := (List.dropWhile_suffix isBlank (l := (cs.dropWhile isBlank).reverse)).length_le
  simp only [trimBlank, List.length_reverse] at h' ⊢
  omega

/-- The maximal runs of characters that are not blank; `word` is the run read so far, backwards. -/
def blankWords (word : List Char) : List Char → List (List Char)
  | [] => if word.isEmpty then [] else [word.reverse]
  | c :: cs =>
    if isBlank c then
      if word.isEmpty then blankWords [] cs else word.reverse :: blankWords [] cs
    else blankWords (c :: word) cs

/-- The text without the blanks at both ends. -/
def trim (s : String) : String := String.ofList (trimBlank s.toList)

/-- The maximal runs of characters of a text that are not blank. -/
def words (s : String) : List String := (blankWords [] s.toList).map String.ofList

theorem not_isBlank_of_mem_blankWords (cs : List Char) :
    ∀ (word : List Char), (∀ c ∈ word, isBlank c = false) →
      ∀ w ∈ blankWords word cs, ∀ c ∈ w, isBlank c = false := by
  induction cs with
  | nil =>
    intro word hword w hw c hc
    by_cases he : word.isEmpty <;> simp [blankWords, he] at hw
    subst hw
    exact hword c (by simpa using hc)
  | cons d cs ih =>
    intro word hword w hw c hc
    by_cases hd : isBlank d
    · by_cases he : word.isEmpty <;> simp [blankWords, hd, he] at hw
      · exact ih [] (by simp) w hw c hc
      · rcases hw with hw | hw
        · subst hw
          exact hword c (by simpa using hc)
        · exact ih [] (by simp) w hw c hc
    · simp only [blankWords, hd] at hw
      exact ih (d :: word) (by simpa [hd] using hword) w hw c hc

theorem not_isBlank_of_mem_words {s w : String} (hw : w ∈ words s) {c : Char}
    (hc : c ∈ w.toList) : isBlank c = false := by
  obtain ⟨v, hv, rfl⟩ := List.mem_map.1 hw
  exact not_isBlank_of_mem_blankWords _ [] (by simp) v hv c (by simpa using hc)

end DomainScaffold.Text
