import DomainScaffold.Proofs.Naming.WordBounds
import DomainScaffold.Proofs.Text.Pieces

/-!
# Spellings of spelled labels

A label that is spelled once more is split anew, and not always into the words it was made of: the
capitals of two words may form one, and a digit no longer starts a word. But a new word only starts
at an upper-case letter or behind a separator, and these are where the spelling put them.

Results:
* `uppercase_of_mem_tail`: in letters and digits, each word but the first starts in upper case.
* `LowerWord.collectWords_append`, `collectWords_intercalate`: words without upper case are not split.
* `PascalCase.pascal_eq`, `CamelCase.camel_eq`, `splitWords_intercalate`: the texts that a spelling
  leaves as they are.
* `spellings_idempotent`: spelling an ASCII label twice is spelling it once.
-/

namespace DomainScaffold.Naming

open Text

/-! ## ASCII letters and digits -/

/-- Whether a character is an ASCII letter or digit. -/
def IsAsciiLetter (c : Char) : Prop := c.toNat < 128 ∧ isAlphanumeric c = true

namespace IsAsciiLetter

variable {c : Char}

/-- What holds of the 128 characters with the lowest numbers holds of ASCII. -/
theorem forall_ascii {p : Char → Prop} (h : ∀ n : Fin 128, p (Char.ofNat n)) (hc : c.toNat < 128) :
    p c :=
  Char.ofNat_toNat c ▸ h ⟨c.toNat, hc⟩

theorem toUpper (h : IsAsciiLetter c) : IsAsciiLetter c.toUpper ∧ isLowercase c.toUpper = false :=
  forall_ascii (p := fun c => isAlphanumeric c = true →
      (c.toUpper.toNat < 128 ∧ isAlphanumeric c.toUpper = true) ∧ isLowercase c.toUpper = false)
    (by decide) h.1 h.2

theorem toLower (h : IsAsciiLetter c) : IsAsciiLetter c.toLower ∧ isUppercase c.toLower = false :=
  forall_ascii (p := fun c => isAlphanumeric c = true →
      (c.toLower.toNat < 128 ∧ isAlphanumeric c.toLower = true) ∧ isUppercase c.toLower = false)
    (by decide) h.1 h.2

theorem toUpper_eq (h : IsAsciiLetter c) (hc : isLowercase c = false) : c.toUpper = c :=
  forall_ascii (p := fun c => isLowercase c = false → c.toUpper = c) (by decide) h.1 hc

theorem toLower_eq (h : IsAsciiLetter c) (hc : isUppercase c = false) : c.toLower = c :=
  forall_ascii (p := fun c => isUppercase c = false → c.toLower = c) (by decide) h.1 hc

theorem not_isLowercase (h : IsAsciiLetter c) (hc : isUppercase c = true) : isLowercase c = false :=
  forall_ascii (p := fun c => isUppercase c = true → isLowercase c = false) (by decide) h.1 hc

theorem isLowercase_or_isDigit (h : IsAsciiLetter c) (hc : isUppercase c = false) :
    isLowercase c = true ∨ c.isDigit = true :=
  forall_ascii (p := fun c => isAlphanumeric c = true → isUppercase c = false →
      isLowercase c = true ∨ c.isDigit = true) (by decide) h.1 h.2 hc

end IsAsciiLetter

/-- The words of an ASCII label hold ASCII letters and digits. -/
theorem isAsciiLetter_of_mem {s word : String} (hs : ∀ c ∈ s.toList, c.toNat < 128)
    (hword : word ∈ splitWords s) : ∀ c ∈ word.toList, IsAsciiLetter c := by
  intro c hc
  obtain ⟨w, hw, rfl⟩ := List.mem_map.1 hword
  rw [String.toList_ofList] at hc
  have hmem : c ∈ (collectWords [] s.toList).flatten := List.mem_flatten_of_mem hw hc
  rw [flatten_collectWords, List.reverse_nil, List.nil_append, List.mem_filter] at hmem
  exact ⟨hs c hmem.1, hmem.2⟩

theorem ne_nil_of_mem_splitWords {s word : String} (h : word ∈ splitWords s) :
    word.toList ≠ [] := by
  obtain ⟨w, hw, rfl⟩ := List.mem_map.1 h
  rw [String.toList_ofList]
  exact ne_nil_of_mem_collectWords s.toList [] w hw

/-! ## Splitting letters and digits -/

variable {u v w cs : List Char} {ws : List (List Char)} {b c sep : Char}

/-- Letters without upper case go on with the word that is read. -/
theorem collectWords_append (hu : ∀ c ∈ u, isAlphanumeric c = true ∧ isUppercase c = false)
    (word v : List Char) : collectWords word (u ++ v) = collectWords (u.reverse ++ word) v := by
  induction u generalizing word with
  | nil => rfl
  | cons c u ih =>
    obtain ⟨⟨hc, hupper⟩, hu⟩ := List.forall_mem_cons.1 hu
    have hstep : collectWords word (c :: (u ++ v)) = collectWords (c :: word) (u ++ v) := by
      cases word with
      | nil => exact collectWords_of_first hc (u ++ v)
      | cons b word =>
        refine collectWords_of_not_starts hc ?_
        rw [startsWord, hupper, Bool.false_and]
    rw [List.cons_append, hstep, ih hu, List.reverse_cons, List.append_assoc, List.singleton_append]

/-- A word of ASCII letters and digits without upper case. -/
structure LowerWord (w : List Char) : Prop where
  ne_nil : w ≠ []
  letters : ∀ c ∈ w, IsAsciiLetter c
  lower : ∀ c ∈ w, isUppercase c = false

theorem LowerWord.collectWords_append (h : LowerWord u) (v : List Char) :
    collectWords [] (u ++ v) = collectWords u.reverse v := by
  rw [Naming.collectWords_append fun c hc => ⟨(h.letters c hc).2, h.lower c hc⟩, List.append_nil]

theorem LowerWord.collectWords_eq (h : LowerWord u) : collectWords [] u = [u] := by
  have hwhole := h.collectWords_append []
  rw [List.append_nil] at hwhole
  rw [hwhole, collectWords, List.isEmpty_reverse, List.isEmpty_eq_false_iff.2 h.ne_nil,
    if_neg Bool.false_ne_true, List.reverse_reverse]

theorem LowerWord.collectWords_separator (h : LowerWord u) (hsep : isAlphanumeric sep = false)
    (cs : List Char) : collectWords [] (u ++ sep :: cs) = u :: collectWords [] cs := by
  obtain ⟨b, w, hw⟩ := List.exists_cons_of_ne_nil (List.reverse_ne_nil_iff.2 h.ne_nil)
  rw [h.collectWords_append, ← List.reverse_reverse u, hw, List.reverse_reverse]
  simp [collectWords, hsep]

/-- A word without upper case ends in front of an upper-case letter. -/
theorem LowerWord.collectWords_uppercase (h : LowerWord u)
    (hv : ∀ c ∈ v.head?, isAlphanumeric c = true ∧ isUppercase c = true) :
    collectWords [] (u ++ v) = u :: collectWords [] v := by
  cases v with
  | nil =>
    rw [List.append_nil]
    exact h.collectWords_eq
  | cons c v =>
    obtain ⟨hc, hupper⟩ := hv c rfl
    obtain ⟨b, w, hw⟩ := List.exists_cons_of_ne_nil (List.reverse_ne_nil_iff.2 h.ne_nil)
    have hb : b ∈ u := List.mem_reverse.1 (hw ▸ List.mem_cons_self)
    have hstarts : startsWord b c v.head? = true := startsWord_iff.2
      ⟨hupper, ((h.letters b hb).isLowercase_or_isDigit (h.lower b hb)).imp_right .inl⟩
    rw [h.collectWords_append, hw, collectWords_of_starts hc hstarts, ← hw, List.reverse_reverse,
      collectWords_of_first hc]

/-- Words without upper case between separators are found again. -/
theorem collectWords_intercalate (hsep : isAlphanumeric sep = false)
    (hws : ∀ w ∈ ws, LowerWord w) : collectWords [] (List.intercalate [sep] ws) = ws := by
  induction ws with
  | nil => rfl
  | cons w ws ih =>
    obtain ⟨hw, hws⟩ := List.forall_mem_cons.1 hws
    cases ws with
    | nil =>
      rw [List.intercalate_singleton]
      exact hw.collectWords_eq
    | cons next ws =>
      rw [List.intercalate_cons_cons, List.append_assoc, List.singleton_append,
        hw.collectWords_separator hsep, ih hws]

/-- In letters and digits, each word but the first starts in upper case. -/
theorem uppercase_of_mem_tail (hcs : ∀ c ∈ cs, isAlphanumeric c = true) (b : Char) (w : List Char)
    (h : v ∈ (collectWords (b :: w) cs).tail) : ∃ c u, v = c :: u ∧ isUppercase c = true := by
  induction cs generalizing b w with
  | nil => cases h
  | cons c cs ih =>
    obtain ⟨hc, hcs⟩ := List.forall_mem_cons.1 hcs
    cases hstarts : startsWord b c cs.head? with
    | true =>
      obtain ⟨more, others, hwords⟩ := exists_collectWords_cons (List.cons_ne_nil c []) cs
      rw [collectWords_of_starts hc hstarts, List.tail_cons, hwords, List.mem_cons] at h
      obtain rfl | hv := h
      · exact ⟨c, more, rfl, (startsWord_iff.1 hstarts).1⟩
      · exact ih hcs c [] (by rwa [hwords])
    | false =>
      rw [collectWords_of_not_starts hc hstarts] at h
      exact ih hcs c (b :: w) h

/-! ## Capitalised words -/

/-- ASCII letters and digits that do not start in lower case. -/
structure PascalCase (cs : List Char) : Prop where
  letters : ∀ c ∈ cs, IsAsciiLetter c
  first : ∀ c ∈ cs.head?, isLowercase c = false

theorem PascalCase.flatten {pieces : List (List Char)} (h : ∀ cs ∈ pieces, PascalCase cs) :
    PascalCase pieces.flatten := by
  induction pieces with
  | nil => exact ⟨by simp, by simp⟩
  | cons cs pieces ih =>
    obtain ⟨hcs, hpieces⟩ := List.forall_mem_cons.1 h
    refine ⟨List.forall_mem_append.2 ⟨hcs.letters, (ih hpieces).letters⟩, fun c hc => ?_⟩
    rw [List.flatten_cons, List.head?_append] at hc
    cases cs with
    | nil => exact (ih hpieces).first c hc
    | cons d cs => exact hcs.first c hc

theorem pascalCase_capitalize {word : String} (h : ∀ c ∈ word.toList, IsAsciiLetter c) :
    PascalCase (capitalize word).toList := by
  rw [capitalize]
  split
  · exact ⟨by simp, by simp⟩
  · rename_i c cs hword
    rw [hword, List.forall_mem_cons] at h
    obtain ⟨hletter, hlower⟩ := h.1.toUpper
    rw [String.toList_ofList, upperForm_of_lt h.1.1, List.singleton_append]
    exact ⟨List.forall_mem_cons.2 ⟨hletter, h.2⟩, by simpa using hlower⟩

theorem PascalCase.capitalize_eq {word : String} (h : PascalCase word.toList) :
    capitalize word = word := by
  rw [capitalize]
  split
  · rename_i hnil
    exact (String.toList_eq_nil_iff.1 hnil).symm
  · rename_i c cs hword
    rw [hword] at h
    have hc := h.letters c List.mem_cons_self
    rw [upperForm_of_lt hc.1, hc.toUpper_eq (h.first c rfl), List.singleton_append, ← hword,
      String.ofList_toList]

/-- Only the first word of letters and digits can start in lower case. -/
theorem PascalCase.of_mem_collectWords (h : PascalCase cs) (hv : v ∈ collectWords [] cs) :
    PascalCase v := by
  have hletters : ∀ c ∈ v, IsAsciiLetter c := fun c hc => by
    have hmem := List.mem_flatten_of_mem hv hc
    rw [flatten_collectWords, List.reverse_nil, List.nil_append, List.mem_filter] at hmem
    exact h.letters c hmem.1
  refine ⟨hletters, ?_⟩
  cases cs with
  | nil => cases hv
  | cons c cs =>
    obtain ⟨hc, hcs⟩ := List.forall_mem_cons.1 h.letters
    obtain ⟨more, others, hwords⟩ := exists_collectWords_cons (List.cons_ne_nil c []) cs
    rw [collectWords_of_first hc.2] at hv
    obtain rfl | hothers := List.mem_cons.1 (hwords ▸ hv)
    · exact h.first
    · obtain ⟨d, u, rfl, hd⟩ := uppercase_of_mem_tail (fun c hc => (hcs c hc).2) c []
        (show v ∈ (collectWords [c] cs).tail by rwa [hwords])
      rintro _ ⟨⟩
      exact (hletters d List.mem_cons_self).not_isLowercase hd

theorem pascalCase_join {words : List String}
    (h : ∀ word ∈ words, ∀ c ∈ word.toList, IsAsciiLetter c) :
    PascalCase (String.join (words.map capitalize)).toList := by
  rw [String.toList_join, List.flatMap_map, List.flatMap_def]
  refine PascalCase.flatten fun cs hcs => ?_
  obtain ⟨word, hword, rfl⟩ := List.mem_map.1 hcs
  exact pascalCase_capitalize (h word hword)

theorem pascalCase_pascal {s : String} (h : ∀ c ∈ s.toList, c.toNat < 128) :
    PascalCase (pascal s).toList :=
  pascalCase_join fun _ hword => isAsciiLetter_of_mem h hword

theorem PascalCase.pascal_eq {s : String} (h : PascalCase s.toList) : pascal s = s := by
  have hwords : (splitWords s).map capitalize = splitWords s := by
    refine (List.map_congr_left fun word hword => ?_).trans (List.map_id _)
    obtain ⟨v, hv, rfl⟩ := List.mem_map.1 hword
    refine PascalCase.capitalize_eq ?_
    rw [String.toList_ofList]
    exact h.of_mem_collectWords hv
  rw [← String.toList_inj, pascal, hwords, String.toList_join, List.flatMap_def, splitWords,
    map_toList_ofList, flatten_collectWords, List.reverse_nil, List.nil_append,
    List.filter_eq_self]
  exact fun c hc => (h.letters c hc).2

/-! ## Words in lower case -/

theorem lowerWord_lower {word : String} (hne : word.toList ≠ [])
    (h : ∀ c ∈ word.toList, IsAsciiLetter c) : LowerWord (lower word).toList := by
  have hlower : ∀ c ∈ word.toList.map Char.toLower, IsAsciiLetter c ∧ isUppercase c = false := by
    rintro _ hmem
    obtain ⟨c, hc, rfl⟩ := List.mem_map.1 hmem
    exact (h c hc).toLower
  rw [lower_of_lt fun c hc => (h c hc).1, String.toList_ofList]
  exact ⟨fun hnil => hne (List.map_eq_nil_iff.1 hnil), fun c hc => (hlower c hc).1,
    fun c hc => (hlower c hc).2⟩

theorem LowerWord.lower_eq {word : String} (h : LowerWord word.toList) :
    Text.lower word = word := by
  have hmap : word.toList.map Char.toLower = word.toList :=
    (List.map_congr_left fun c hc => (h.letters c hc).toLower_eq (h.lower c hc)).trans
      (List.map_id _)
  rw [lower_of_lt fun c hc => (h.letters c hc).1, hmap, String.ofList_toList]

/-- ASCII letters and digits that do not start in upper case. -/
structure CamelCase (cs : List Char) : Prop where
  letters : ∀ c ∈ cs, IsAsciiLetter c
  first : ∀ c ∈ cs.head?, isUppercase c = false

theorem camelCase_camel {s : String} (h : ∀ c ∈ s.toList, c.toNat < 128) :
    CamelCase (camel s).toList := by
  have hletters : ∀ word ∈ splitWords s, ∀ c ∈ word.toList, IsAsciiLetter c :=
    fun _ hword => isAsciiLetter_of_mem h hword
  cases hwords : splitWords s with
  | nil =>
    rw [camel, hwords]
    exact ⟨by simp, by simp⟩
  | cons first rest =>
    rw [hwords, List.forall_mem_cons] at hletters
    have hfirst := lowerWord_lower (ne_nil_of_mem_splitWords (hwords ▸ List.mem_cons_self))
      hletters.1
    obtain ⟨d, ds, hcons⟩ := List.exists_cons_of_ne_nil hfirst.ne_nil
    rw [camel, hwords, String.toList_append]
    refine ⟨List.forall_mem_append.2 ⟨hfirst.letters, (pascalCase_join hletters.2).letters⟩, ?_⟩
    rw [hcons]
    rintro _ ⟨⟩
    exact hfirst.lower d (hcons ▸ List.mem_cons_self)

theorem exists_upTo_uppercase (cs : List Char) : ∃ u v, cs = u ++ v ∧
    (∀ c ∈ u, isUppercase c = false) ∧ ∀ c ∈ v.head?, isUppercase c = true := by
  refine ⟨cs.takeWhile fun c => !isUppercase c, cs.dropWhile fun c => !isUppercase c,
    List.takeWhile_append_dropWhile.symm, fun c hc => ?_, fun c hc => ?_⟩
  · simpa using List.all_eq_true.1 List.all_takeWhile c hc
  · have hfirst := List.head?_dropWhile_not (fun c => !isUppercase c) cs
    rw [hc] at hfirst
    simpa using hfirst

theorem CamelCase.camel_eq {s : String} (h : CamelCase s.toList) : camel s = s := by
  obtain ⟨u, v, hs, hu, hv⟩ := exists_upTo_uppercase s.toList
  obtain ⟨hletters, hfirst⟩ := h
  rw [hs, List.forall_mem_append] at hletters
  by_cases hne : u = []
  · subst hne
    cases v with
    | nil =>
      obtain rfl := String.toList_eq_nil_iff.1 hs
      rfl
    | cons c v =>
      rw [hs] at hfirst
      exact absurd (hv c rfl) (Bool.eq_false_iff.1 (hfirst c rfl))
  · -- The first word is what stands in front of the first upper-case letter.
    have hword : LowerWord (String.ofList u).toList := by
      rw [String.toList_ofList]
      exact ⟨hne, hletters.1, hu⟩
    have hrest : PascalCase (String.ofList v).toList := by
      rw [String.toList_ofList]
      exact ⟨hletters.2, fun c hc =>
        (hletters.2 c (List.mem_of_mem_head? hc)).not_isLowercase (hv c hc)⟩
    have hwords : splitWords s = String.ofList u :: splitWords (String.ofList v) := by
      rw [String.toList_ofList] at hword
      rw [splitWords, hs, hword.collectWords_uppercase fun c hc =>
        ⟨(hletters.2 c (List.mem_of_mem_head? hc)).2, hv c hc⟩, splitWords, String.toList_ofList,
        List.map_cons]
    rw [camel, hwords]
    dsimp only
    rw [← pascal, hword.lower_eq, hrest.pascal_eq, ← String.ofList_append, ← hs,
      String.ofList_toList]

/-! ## Separated words -/

variable {s separator : String} {words : List String}

/-- Words in lower case between separators are the words of their text. -/
theorem splitWords_intercalate (hseparator : separator.toList = [sep])
    (hsep : isAlphanumeric sep = false) (hwords : ∀ word ∈ words, LowerWord word.toList) :
    splitWords (String.intercalate separator words) = words := by
  rw [splitWords, String.toList_intercalate, hseparator, collectWords_intercalate hsep,
    map_ofList_toList]
  rintro _ hmem
  obtain ⟨word, hword, rfl⟩ := List.mem_map.1 hmem
  exact hwords word hword

theorem intercalate_lower_idem (hs : ∀ c ∈ s.toList, c.toNat < 128)
    (hseparator : separator.toList = [sep]) (hsep : isAlphanumeric sep = false)
    (hwords : words = (splitWords s).map lower) :
    String.intercalate separator ((splitWords (String.intercalate separator words)).map lower) =
      String.intercalate separator words := by
  have hlower : ∀ word ∈ words, LowerWord word.toList := by
    subst hwords
    rintro _ hmem
    obtain ⟨word, hword, rfl⟩ := List.mem_map.1 hmem
    exact lowerWord_lower (ne_nil_of_mem_splitWords hword) (isAsciiLetter_of_mem hs hword)
  have hagain : words.map lower = words :=
    (List.map_congr_left fun word hword => (hlower word hword).lower_eq).trans (List.map_id _)
  rw [splitWords_intercalate hseparator hsep hlower, hagain]

/-! ## Spelling twice -/

/-- Spelling an ASCII label twice is spelling it once. -/
theorem spellings_idempotent (s : String) (h : ∀ c ∈ s.toList, c.toNat < 128) :
    pascal (pascal s) = pascal s ∧ camel (camel s) = camel s ∧ snake (snake s) = snake s ∧
      kebab (kebab s) = kebab s :=
  ⟨(pascalCase_pascal h).pascal_eq, (camelCase_camel h).camel_eq,
    intercalate_lower_idem h rfl (by decide) rfl, intercalate_lower_idem h rfl (by decide) rfl⟩

/-- The camel form `http2BC` has other words than the label. -/
theorem spellings_idempotent_regrouped :
    (∀ c ∈ "HTTP 2 B c".toList, c.toNat < 128) ∧
      splitWords (camel "HTTP 2 B c") = ["http2", "BC"] ∧
      pascal (pascal "HTTP 2 B c") = pascal "HTTP 2 B c" ∧
      camel (camel "HTTP 2 B c") = camel "HTTP 2 B c" ∧
      snake (snake "HTTP 2 B c") = snake "HTTP 2 B c" ∧
      kebab (kebab "HTTP 2 B c") = kebab "HTTP 2 B c" :=
  ⟨by simp, by decide +kernel, spellings_idempotent "HTTP 2 B c" (by simp)⟩

end DomainScaffold.Naming
