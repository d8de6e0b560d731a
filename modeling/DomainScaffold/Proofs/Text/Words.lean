import Mathlib.Data.List.DropRight
import DomainScaffold.Proofs.Text.Pieces
import DomainScaffold.Text.Blank

/-!
# Words between blanks

A text is cut at blanks into words, and blanks at its ends are trimmed. Neither sees how many blanks
there are.

Results:
* `blankWords_append`: the words on the two sides of a blank.
* `words_word_gap`: a word in front of blanks.
* `trim_gap_append`, `trim_append_gap`: blanks at the ends are trimmed.
* `trim_word_append`: what starts with a word is only trimmed at its end.
* `pieceWords_trim`: trimming leaves the words between separators as they are.
-/

namespace DomainScaffold.Text

variable {c : Char} {cs ds : List Char} {s t g w : String}

/-- A text of blanks. -/
def IsGap (s : String) : Prop := ∀ c ∈ s.toList, isBlank c = true

instance : DecidablePred IsGap := fun s =>
  decidable_of_iff (s.toList.all isBlank = true) List.all_eq_true

/-- A text without blanks that is not empty. -/
structure IsWord (s : String) : Prop where
  ne_nil : s.toList ≠ []
  chars : ∀ c ∈ s.toList, isBlank c = false

instance : DecidablePred IsWord := fun s =>
  decidable_of_iff (s.toList ≠ [] ∧ s.toList.all (fun c => !isBlank c) = true)
    ⟨fun h => ⟨h.1, by simpa using h.2⟩, fun h => ⟨h.ne_nil, by simpa using h.chars⟩⟩

theorem IsGap.append (hs : IsGap s) (ht : IsGap t) : IsGap (s ++ t) := fun c hc => by
  rw [String.toList_append, List.mem_append] at hc
  exact hc.elim (hs c) (ht c)

theorem IsWord.append (hs : IsWord s) (ht : ∀ c ∈ t.toList, isBlank c = false) :
    IsWord (s ++ t) where
  ne_nil h := hs.ne_nil (List.append_eq_nil_iff.1 (String.toList_append.symm.trans h)).1
  chars c hc := by
    rw [String.toList_append, List.mem_append] at hc
    exact hc.elim (hs.chars c) (ht c)

/-! ## Words -/

/-- The words on the two sides of a blank. -/
theorem blankWords_append (hc : isBlank c = true) (word cs ds : List Char) :
    blankWords word (cs ++ c :: ds) = blankWords word cs ++ blankWords [] ds := by
  induction cs generalizing word with
  | nil => cases word <;> simp [blankWords, hc]
  | cons d cs ih =>
    rw [List.cons_append, blankWords, blankWords, ih, ih]
    split
    · split <;> rfl
    · rfl

theorem blankWords_of_blank (h : ∀ c ∈ cs, isBlank c = true) : blankWords [] cs = [] := by
  induction cs with
  | nil => rfl
  | cons c cs ih =>
    rw [List.forall_mem_cons] at h
    simp [blankWords, h.1, ih h.2]

theorem blankWords_of_not_blank {word : List Char} (hne : word ++ cs ≠ [])
    (h : ∀ c ∈ cs, isBlank c = false) : blankWords word cs = [word.reverse ++ cs] := by
  induction cs generalizing word with
  | nil => cases word <;> simp_all [blankWords]
  | cons c cs ih =>
    rw [List.forall_mem_cons] at h
    rw [blankWords, if_neg (by simp [h.1]), ih (by simp) h.2]
    simp

theorem words_gap (hg : IsGap g) : words g = [] := by
  rw [words, blankWords_of_blank hg, List.map_nil]

theorem words_word (hw : IsWord w) : words w = [w] := by
  rw [words, blankWords_of_not_blank (by simpa using hw.ne_nil) hw.chars]
  simp

theorem words_gap_append (hg : IsGap g) (s : String) : words (g ++ s) = words s := by
  rw [words, String.toList_append]
  rcases List.eq_nil_or_concat g.toList with hnil | ⟨cs, c, hcs⟩
  · rw [hnil, List.nil_append, words]
  · rw [IsGap, hcs, List.concat_eq_append, List.forall_mem_append] at hg
    rw [hcs, List.concat_eq_append, List.append_assoc, List.singleton_append,
      blankWords_append (hg.2 c (by simp)), blankWords_of_blank hg.1, List.nil_append, words]

theorem words_append_gap (hg : IsGap g) (s : String) : words (s ++ g) = words s := by
  rw [words, String.toList_append]
  cases hcs : g.toList with
  | nil => rw [List.append_nil, words]
  | cons c cs =>
    rw [IsGap, hcs, List.forall_mem_cons] at hg
    rw [blankWords_append hg.1, blankWords_of_blank hg.2, List.append_nil, words]

/-- A word in front of blanks. -/
theorem words_word_gap (hw : IsWord w) (hg : IsGap g) (hne : g ≠ "") (s : String) :
    words (w ++ (g ++ s)) = w :: words s := by
  have hsplit := words_gap_append hg s
  rw [words, String.toList_append] at hsplit
  rw [words, String.toList_append, String.toList_append]
  cases hcs : g.toList with
  | nil => exact absurd (String.toList_eq_nil_iff.1 hcs) hne
  | cons c cs =>
    rw [IsGap, hcs, List.forall_mem_cons] at hg
    rw [hcs, List.cons_append] at hsplit
    simp only [blankWords, hg.1, List.isEmpty_nil, if_true] at hsplit
    rw [List.cons_append, blankWords_append hg.1, List.map_append, hsplit]
    exact congrArg (· ++ words s) (words_word hw)

/-! ## Trimmed texts -/

/-- The text without the blanks at its end. -/
def trimEnd (s : String) : String := String.ofList (s.toList.rdropWhile isBlank)

theorem exists_trimEnd (s : String) : ∃ g, IsGap g ∧ s = trimEnd s ++ g := by
  refine ⟨String.ofList (s.toList.rtakeWhile isBlank), fun c hc => ?_, ?_⟩
  · rw [String.toList_ofList] at hc
    exact List.mem_rtakeWhile_imp hc
  · rw [← String.toList_inj]
    simp [trimEnd]

theorem rdropWhile_append_of_forall {p : Char → Bool} (h : ∀ d ∈ ds, p d = true) (cs : List Char) :
    (cs ++ ds).rdropWhile p = cs.rdropWhile p := by
  rw [List.rdropWhile, List.reverse_append,
    List.dropWhile_append_of_pos fun d hd => h d (List.mem_reverse.1 hd), List.rdropWhile]

theorem rdropWhile_append_of_exists {p : Char → Bool} (h : ∃ d ∈ ds, p d = false)
    (cs : List Char) : (cs ++ ds).rdropWhile p = cs ++ ds.rdropWhile p := by
  have hne : (ds.reverse.dropWhile p).isEmpty = false := by
    obtain ⟨d, hd, hp⟩ := h
    rw [Bool.eq_false_iff, ne_eq, List.isEmpty_iff, List.dropWhile_eq_nil_iff]
    exact fun hall => by simp [hall d (List.mem_reverse.2 hd)] at hp
  rw [List.rdropWhile, List.reverse_append, List.dropWhile_append, hne, List.rdropWhile]
  simp

/-- A text that is not all blank. -/
def HasWord (s : String) : Prop := ∃ c ∈ s.toList, isBlank c = false

theorem IsWord.hasWord (hw : IsWord w) : HasWord w := by
  obtain ⟨c, cs, hcs⟩ := List.exists_cons_of_ne_nil hw.ne_nil
  have hc : c ∈ w.toList := hcs ▸ List.mem_cons_self
  exact ⟨c, hc, hw.chars c hc⟩

theorem HasWord.append_left (ht : HasWord t) (s : String) : HasWord (s ++ t) := by
  obtain ⟨c, hc, hblank⟩ := ht
  exact ⟨c, by simp [hc], hblank⟩

theorem HasWord.append_right (hs : HasWord s) (t : String) : HasWord (s ++ t) := by
  obtain ⟨c, hc, hblank⟩ := hs
  exact ⟨c, by simp [hc], hblank⟩

theorem trimEnd_gap (hg : IsGap g) : trimEnd g = "" := by
  rw [trimEnd, List.rdropWhile_eq_nil_iff.2 hg]

theorem trimEnd_word (hw : IsWord w) : trimEnd w = w := by
  have hlast : w.toList.rdropWhile isBlank = w.toList := List.rdropWhile_eq_self_iff.2 fun hne =>
    by simp [hw.chars _ (List.getLast_mem hne)]
  rw [trimEnd, hlast, String.ofList_toList]

theorem trimEnd_append_gap (hg : IsGap g) (s : String) : trimEnd (s ++ g) = trimEnd s := by
  rw [trimEnd, String.toList_append, rdropWhile_append_of_forall hg, trimEnd]

theorem trimEnd_append (ht : HasWord t) (s : String) : trimEnd (s ++ t) = s ++ trimEnd t := by
  rw [trimEnd, String.toList_append, rdropWhile_append_of_exists ht, String.ofList_append,
    String.ofList_toList, trimEnd]

theorem trimEnd_append_word (hw : IsWord w) (s : String) : trimEnd (s ++ w) = s ++ w := by
  rw [trimEnd_append hw.hasWord, trimEnd_word hw]

theorem trim_gap_append (hg : IsGap g) (s : String) : trim (g ++ s) = trim s := by
  rw [trim, String.toList_append, trimBlank, List.dropWhile_append_of_pos hg, ← trimBlank, trim]

theorem trim_eq_trimEnd (s : String) :
    trim s = trimEnd (String.ofList (s.toList.dropWhile isBlank)) := by
  rw [trimEnd, String.toList_ofList]
  rfl

theorem isGap_or_hasWord (s : String) : IsGap s ∨ HasWord s := by
  by_cases hs : HasWord s
  · exact .inr hs
  · refine .inl fun c hc => ?_
    by_contra hblank
    exact hs ⟨c, hc, by simpa using hblank⟩

theorem trim_append_gap (hg : IsGap g) (s : String) : trim (s ++ g) = trim s := by
  rcases isGap_or_hasWord s with hs | ⟨c, hc, hblank⟩
  · have hempty {h : String} (hh : IsGap h) : trim h = trim "" := by
      rw [← trim_gap_append hh "", String.append_empty]
    rw [hempty (hs.append hg), hempty hs]
  · have hne : (s.toList.dropWhile isBlank).isEmpty = false := by
      rw [Bool.eq_false_iff, ne_eq, List.isEmpty_iff, List.dropWhile_eq_nil_iff]
      exact fun hall => by simp [hall c hc] at hblank
    rw [trim_eq_trimEnd, trim_eq_trimEnd, String.toList_append, List.dropWhile_append, hne,
      if_neg Bool.false_ne_true, String.ofList_append, String.ofList_toList,
      trimEnd_append_gap hg]

/-- What starts with a word is only trimmed at its end. -/
theorem trim_word_append (hw : IsWord w) (s : String) : trim (w ++ s) = w ++ trimEnd s := by
  have hstart : (w ++ s).toList.dropWhile isBlank = (w ++ s).toList := by
    obtain ⟨c, cs, hcs⟩ := List.exists_cons_of_ne_nil hw.ne_nil
    have hc := hw.chars c (hcs ▸ List.mem_cons_self)
    rw [String.toList_append, hcs, List.cons_append, List.dropWhile_cons_of_neg (by simp [hc])]
  rw [trim_eq_trimEnd, hstart, String.ofList_toList]
  rcases isGap_or_hasWord s with hs | hs
  · rw [trimEnd_append_gap hs, trimEnd_gap hs, trimEnd_word hw, String.append_empty]
  · exact trimEnd_append hs w

/-- A text is what is left when it is trimmed, between blanks. -/
theorem exists_trim (s : String) : ∃ g h, IsGap g ∧ IsGap h ∧ s = g ++ (trim s ++ h) := by
  obtain ⟨h, hh, hs⟩ := exists_trimEnd (String.ofList (s.toList.dropWhile isBlank))
  refine ⟨String.ofList (s.toList.takeWhile isBlank), h, fun c hc => ?_, hh, ?_⟩
  · rw [String.toList_ofList] at hc
    exact List.mem_takeWhile_imp hc
  · rw [trim_eq_trimEnd, ← hs, ← String.ofList_append, List.takeWhile_append_dropWhile,
      String.ofList_toList]

theorem trim_trimEnd (s : String) : trim (trimEnd s) = trim s := by
  obtain ⟨g, hg, hs⟩ := exists_trimEnd s
  conv_rhs => rw [hs, trim_append_gap hg]

/-! ## Words between separators -/

/-- The words of each piece of a text between commas. -/
def pieceWords (s : String) : List (List String) := (splitOn ',' s).map words

theorem not_comma_of_blank (hc : isBlank c = true) : (c == ',') = false := by
  rw [beq_eq_false_iff_ne]
  rintro rfl
  exact absurd hc (by decide)

theorem splitAt_append_left {p : Char → Bool} {piece : List Char} {pieces : List (List Char)}
    (hcs : ∀ c ∈ cs, p c = false) (hds : splitAt p ds = piece :: pieces) :
    splitAt p (cs ++ ds) = (cs ++ piece) :: pieces := by
  induction cs with
  | nil => exact hds
  | cons c cs ih =>
    rw [List.forall_mem_cons] at hcs
    rw [List.cons_append, splitAt, if_neg (by simp [hcs.1]), ih hcs.2]
    rfl

theorem pieceWords_gap_append (hg : IsGap g) (s : String) : pieceWords (g ++ s) = pieceWords s := by
  obtain ⟨p, ps, hps⟩ := List.exists_cons_of_ne_nil (splitAt_ne_nil (· == ',') s.toList)
  have hsplit := splitAt_append_left (fun c hc => not_comma_of_blank (hg c hc)) hps
  have hwords := words_gap_append hg (String.ofList p)
  rw [pieceWords, splitOn, String.toList_append, hsplit, pieceWords, splitOn, hps]
  rw [← String.ofList_toList (s := g), ← String.ofList_append] at hwords
  simp only [List.map_cons, hwords]

theorem pieceWords_append_gap (hg : IsGap g) (s : String) : pieceWords (s ++ g) = pieceWords s := by
  obtain ⟨init, last, hps⟩ : ∃ init last, splitAt (· == ',') s.toList = init ++ [last] := by
    rcases List.eq_nil_or_concat (splitAt (· == ',') s.toList) with hnil | ⟨init, last, h⟩
    · exact absurd hnil (splitAt_ne_nil _ _)
    · exact ⟨init, last, by rw [h, List.concat_eq_append]⟩
  have hsplit := splitAt_append hps fun d hd => not_comma_of_blank (hg d hd)
  have hwords := words_append_gap hg (String.ofList last)
  rw [pieceWords, splitOn, String.toList_append, hsplit, pieceWords, splitOn, hps]
  rw [← String.ofList_toList (s := g), ← String.ofList_append] at hwords
  simp only [List.map_append, List.map_cons, List.map_nil, hwords]

/-- Trimming leaves the words between separators as they are. -/
theorem pieceWords_trim (s : String) : pieceWords (trim s) = pieceWords s := by
  obtain ⟨g, h, hg, hh, hs⟩ := exists_trim s
  conv_rhs => rw [hs, pieceWords_gap_append hg, pieceWords_append_gap hh]

end DomainScaffold.Text
