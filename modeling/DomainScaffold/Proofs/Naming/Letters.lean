import DomainScaffold.Naming.Words

/-!
# Characters of names

A name that is made of the words of a label holds letters and digits and their upper-case forms. None
of these is a slash or a dot, so that a name is one step of a path.

Results:
* `upperForm_plain`: the upper-case forms of letters and digits.
* `pascal_plain`: the characters of a name.
-/

namespace DomainScaffold.Naming

open Text

/-- Whether a character means nothing in a path. -/
def isPathPlain (c : Char) : Bool := c != '/' && c != '.'

theorem isPathPlain_of_isAlphanumeric {c : Char} (h : isAlphanumeric c = true) :
    isPathPlain c = true := by
  rw [isPathPlain, Bool.and_eq_true, bne_iff_ne, bne_iff_ne]
  constructor <;> rintro rfl <;> exact absurd h (by decide)

/-! ## Upper-case forms -/

theorem toNat_ofNat (n : Nat) : (Char.ofNat n).toNat = n ∨ (Char.ofNat n).toNat = 0 := by
  by_cases h : n.isValidChar
  · rw [Char.ofNat, dif_pos h]
    exact .inl rfl
  · rw [Char.ofNat, dif_neg h]
    exact .inr rfl

theorem isPathPlain_ofNat {n : Nat} (h : 47 < n) : isPathPlain (Char.ofNat n) = true := by
  have hslash : Char.toNat '/' = 47 := rfl
  have hdot : Char.toNat '.' = 46 := rfl
  rw [isPathPlain, Bool.and_eq_true, bne_iff_ne, bne_iff_ne]
  constructor <;> intro hc <;> rcases toNat_ofNat n with hn | hn <;> rw [hc] at hn <;> omega

theorem isPathPlain_toUpper :
    ∀ n : Fin 128, (Char.ofNat n).isAlphanum = true → isPathPlain (Char.ofNat n).toUpper = true := by
  decide

theorem lt_of_mem_upperExpansions : ∀ e ∈ upperExpansions, ∀ n ∈ e.2, 47 < n := by
  decide +kernel

theorem lt_of_mem_upperRows : ∀ r ∈ upperRows, (47 : Int) < r.1 + r.2.2.2 := by
  decide +kernel

theorem lt_shiftBy {n : Nat} (h : 47 < n) : 47 < shiftBy upperRows n := by
  rw [shiftBy]
  split
  · rename_i r hr
    have hrow := lt_of_mem_upperRows r (List.mem_of_find?_eq_some hr)
    have hin := List.find?_some hr
    simp only [inStride, Bool.and_eq_true, decide_eq_true_eq] at hin
    omega
  · exact h

theorem mem_of_lookup_eq_some {α β : Type} [BEq α] [LawfulBEq α] {a : α} {b : β}
    {entries : List (α × β)} (h : entries.lookup a = some b) : (a, b) ∈ entries := by
  induction entries with
  | nil => cases h
  | cons e entries ih =>
    obtain ⟨k, v⟩ := e
    rw [List.lookup_cons] at h
    split at h
    · rename_i hk
      cases h
      rw [eq_of_beq hk]
      exact List.mem_cons_self
    · exact List.mem_cons_of_mem _ (ih h)

/-- The upper-case form of a letter or digit means nothing in a path. -/
theorem upperForm_plain {c : Char} (h : isAlphanumeric c = true) :
    (upperForm c).all isPathPlain = true := by
  rw [upperForm]
  split
  · rename_i hlt
    rw [isAlphanumeric_of_lt hlt, ← Char.ofNat_toNat c] at h
    rw [List.all_cons, List.all_nil, Bool.and_true, ← Char.ofNat_toNat c]
    exact isPathPlain_toUpper ⟨c.toNat, hlt⟩ h
  · rename_i hge
    rw [mapCode]
    split
    · rename_i form hform
      rw [List.all_map, List.all_eq_true]
      exact fun n hn => isPathPlain_ofNat
        (lt_of_mem_upperExpansions _ (mem_of_lookup_eq_some hform) n hn)
    · rw [List.all_cons, List.all_nil, Bool.and_true]
      exact isPathPlain_ofNat (lt_shiftBy (by omega))

/-! ## Names -/

theorem mem_words_alphanumeric {s word : String} (h : word ∈ splitWords s) :
    word.toList.all isAlphanumeric = true := by
  obtain ⟨w, hw, rfl⟩ := List.mem_map.1 h
  rw [String.toList_ofList, List.all_eq_true]
  intro c hc
  have hmem : c ∈ (collectWords [] s.toList).flatten := List.mem_flatten.2 ⟨w, hw, hc⟩
  rw [flatten_collectWords, List.reverse_nil, List.nil_append, List.mem_filter] at hmem
  exact hmem.2

theorem capitalize_plain {word : String} (h : word.toList.all isAlphanumeric = true) :
    (capitalize word).toList.all isPathPlain = true := by
  rw [capitalize]
  split
  · rfl
  · rename_i c cs hword
    rw [hword, List.all_cons, Bool.and_eq_true, List.all_eq_true] at h
    rw [String.toList_ofList, List.all_append, upperForm_plain h.1, Bool.true_and,
      List.all_eq_true]
    exact fun d hd => isPathPlain_of_isAlphanumeric (h.2 d hd)

/-- The characters of a name mean nothing in a path. -/
theorem pascal_plain (s : String) : (pascal s).toList.all isPathPlain = true := by
  rw [pascal, String.toList_join, List.all_flatMap, List.all_map, List.all_eq_true]
  exact fun word hword => capitalize_plain (mem_words_alphanumeric hword)

end DomainScaffold.Naming
