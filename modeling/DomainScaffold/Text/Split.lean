/-!
# Splitting, joining and replacing

The pieces of a text between separators, and the inverse operations. Every function works on the
list of characters; the versions on texts only convert.

Results:
* `splitAt_ne_nil`: a text has at least one piece.
* `not_mem_of_mem_splitAt`: no piece holds a separator.
* `dropLead_eq_some_iff`: what is left behind a leading text.
-/

namespace DomainScaffold.Text

/-! ## Pieces -/

/-- The pieces of `cs` between the characters that satisfy `p`. -/
def splitAt (p : Char → Bool) : List Char → List (List Char)
  | [] => [[]]
  | c :: cs =>
    if p c then [] :: splitAt p cs
    else
      match splitAt p cs with
      | [] => [[c]]
      | piece :: pieces => (c :: piece) :: pieces

theorem splitAt_ne_nil (p : Char → Bool) (cs : List Char) : splitAt p cs ≠ [] := by
  cases cs with
  | nil => simp [splitAt]
  | cons c cs =>
    by_cases h : p c
    · simp [splitAt, h]
    · simp only [splitAt, h, Bool.false_eq_true, if_false]
      split <;> simp

theorem not_mem_of_mem_splitAt {p : Char → Bool} {cs piece : List Char}
    (h : piece ∈ splitAt p cs) : ∀ c ∈ piece, p c = false := by
  induction cs generalizing piece with
  | nil => simp [splitAt] at h; simp [h]
  | cons d cs ih =>
    by_cases hd : p d
    · simp only [splitAt, hd, if_true, List.mem_cons] at h
      rcases h with rfl | h
      · simp
      · exact ih h
    · simp only [splitAt, hd] at h
      cases hs : splitAt p cs with
      | nil => exact absurd hs (splitAt_ne_nil p cs)
      | cons q qs =>
        simp only [hs, Bool.false_eq_true, if_false, List.mem_cons] at h
        rcases h with rfl | h
        · intro c hc
          rcases List.mem_cons.1 hc with rfl | hc
          · simpa using hd
          · exact ih (by simp [hs]) c hc
        · exact ih (by simp [hs, h])

/-- The pieces of a text between the separators `sep`. -/
def splitOn (sep : Char) (s : String) : List String :=
  (splitAt (· == sep) s.toList).map String.ofList

/-- The lines of a text; a line break at the end is followed by an empty line. -/
def lines (s : String) : List String := splitOn '\n' s

/-- The lines joined by line breaks. -/
def unlines (ls : List String) : String := String.intercalate "\n" ls

/-! ## Ends of a text -/

/-- What follows `lead` in `cs`, if `cs` starts with it. -/
def dropLead : (lead cs : List Char) → Option (List Char)
  | [], cs => some cs
  | _ :: _, [] => none
  | d :: lead, c :: cs => if d = c then dropLead lead cs else none

theorem dropLead_eq_some_iff {lead cs rest : List Char} :
    dropLead lead cs = some rest ↔ cs = lead ++ rest := by
  induction lead generalizing cs with
  | nil => simp [dropLead]
  | cons d lead ih =>
    cases cs with
    | nil => simp [dropLead]
    | cons c cs =>
      by_cases h : d = c
      · subst h; simp [dropLead, ih]
      · have h' : ¬ c = d := fun e => h e.symm
        simp [dropLead, h, h']

/-- Whether a text starts with `lead`. -/
def startsWith (lead s : String) : Bool := (dropLead lead.toList s.toList).isSome

/-- What follows `lead` in a text, if the text starts with it. -/
def afterLead? (lead s : String) : Option String :=
  (dropLead lead.toList s.toList).map String.ofList

/-- What stands before `tail` in a text, if the text ends with it. -/
def beforeTail? (tail s : String) : Option String :=
  (dropLead tail.toList.reverse s.toList.reverse).map fun cs => String.ofList cs.reverse

/-- Whether a text ends with `tail`. -/
def endsWith (tail s : String) : Bool := (dropLead tail.toList.reverse s.toList.reverse).isSome

/-- The text without the characters `c` at its start. -/
def trimLeft (c : Char) (s : String) : String := String.ofList (s.toList.dropWhile (· == c))

/-- The text without the characters `c` at its end. -/
def trimRight (c : Char) (s : String) : String :=
  String.ofList (s.toList.reverse.dropWhile (· == c)).reverse

/-- The text without the characters `c` at both ends. -/
def trimBoth (c : Char) (s : String) : String := trimRight c (trimLeft c s)

/-- The parts of a text before and after the first `sep`. -/
def cutFirst? (sep : Char) (s : String) : Option (String × String) :=
  match s.toList.dropWhile (· != sep) with
  | [] => none
  | _ :: rest => some (String.ofList (s.toList.takeWhile (· != sep)), String.ofList rest)

/-- The parts of a text before and after the last `sep`. -/
def cutLast? (sep : Char) (s : String) : Option (String × String) :=
  let back := s.toList.reverse
  match back.dropWhile (· != sep) with
  | [] => none
  | _ :: rest =>
    some (String.ofList rest.reverse, String.ofList (back.takeWhile (· != sep)).reverse)

/-! ## Replacement -/

/-- Every occurrence of `old` from the left replaced by `new`, after `skip` characters that belong
    to an occurrence already replaced. An empty `old` occurs before every character and at the
    end. -/
def replaceFrom (old new : List Char) : (skip : Nat) → List Char → List Char
  | _, [] => if old.isEmpty then new else []
  | skip + 1, _ :: cs => replaceFrom old new skip cs
  | 0, c :: cs =>
    if old.isEmpty then new ++ c :: replaceFrom old new 0 cs
    else if old.isPrefixOf (c :: cs) then new ++ replaceFrom old new (old.length - 1) cs
    else c :: replaceFrom old new 0 cs

/-- The text with every occurrence of `old` replaced by `new`. -/
def replaceAll (old new s : String) : String :=
  String.ofList (replaceFrom old.toList new.toList 0 s.toList)

/-- Whether `part` is a run of neighbouring characters of `cs`. -/
def occursIn (part : List Char) : List Char → Bool
  | [] => part.isEmpty
  | c :: cs => part.isPrefixOf (c :: cs) || occursIn part cs

/-- Whether `part` occurs in a text. -/
def occurs (part s : String) : Bool := occursIn part.toList s.toList

/-- A text of `n` copies of `c`. -/
def repeated (n : Nat) (c : Char) : String := String.ofList (List.replicate n c)

end DomainScaffold.Text
