import Mathlib.Data.List.Basic
import DomainScaffold.Naming.Words

/-!
# Where words end

The letters and digits of a label are the letters of its words, in order. A word ends at every
character that is neither, and between two adjacent letters exactly where the second one starts a
word. These conditions leave one way of splitting a label.

Results:
* `exists_run`: what splitting has done behind the first part of a label.
* `not_together_of_separator`, `together_adjacent_iff`: where words end.
* `eq_of_together`: words are determined by their letters and by which neighbours stand together.
* `splitWords_eq_iff`: the words of a label are its only splitting.
-/

namespace DomainScaffold.Naming

open Text

/-! ## Letters of one word -/

/-- Whether one word holds the letters with the numbers `m` and `n`, counted through all words. -/
def Together (words : List (List Char)) (m n : Nat) : Prop :=
  ∃ before word after, words = before ++ word :: after ∧
    before.flatten.length ≤ m ∧ m ≤ n ∧ n < before.flatten.length + word.length

variable {word w : List Char} {words ws vs : List (List Char)} {m n : Nat}

theorem together_cons_iff : Together (word :: words) m n ↔
    m ≤ n ∧ (n < word.length ∨
      word.length ≤ m ∧ Together words (m - word.length) (n - word.length)) := by
  constructor
  · rintro ⟨before, w, after, hwords, hm, hmn, hn⟩
    cases before with
    | nil =>
      obtain ⟨rfl, -⟩ := List.cons.inj hwords
      simp only [List.flatten_nil, List.length_nil] at hn
      exact ⟨hmn, .inl (by omega)⟩
    | cons v before =>
      obtain ⟨rfl, hrest⟩ := List.cons.inj hwords
      simp only [List.flatten_cons, List.length_append] at hm hn
      exact ⟨hmn, .inr ⟨by omega, before, w, after, hrest, by omega, by omega, by omega⟩⟩
  · rintro ⟨hmn, hn | ⟨hm, before, w, after, rfl, hbefore, -, hn⟩⟩
    · exact ⟨[], word, words, rfl, by simp, hmn, by simpa using hn⟩
    · refine ⟨word :: before, w, after, rfl, ?_, hmn, ?_⟩ <;>
        (simp only [List.flatten_cons, List.length_append]; omega)

/-- No word reaches over the end of another one. -/
theorem not_together_append (hm : m < ws.flatten.length) (hn : ws.flatten.length ≤ n) :
    ¬ Together (ws ++ vs) m n := by
  induction ws generalizing m n with
  | nil => simp at hm
  | cons w ws ih =>
    simp only [List.flatten_cons, List.length_append] at hm hn
    rw [List.cons_append, together_cons_iff]
    rintro ⟨-, hlt | ⟨hle, hrest⟩⟩
    · omega
    · exact ih (by omega) (by omega) hrest

theorem together_append_cons (hmn : m ≤ n) (hn : n < word.length) :
    Together (ws ++ word :: vs) (ws.flatten.length + m) (ws.flatten.length + n) :=
  ⟨ws, word, vs, rfl, by omega, by omega, by omega⟩

/-- Words are determined by their letters and by which neighbours stand together. -/
theorem eq_of_together (hws : ∀ w ∈ ws, w ≠ []) (hvs : ∀ v ∈ vs, v ≠ [])
    (hletters : ws.flatten = vs.flatten)
    (h : ∀ m, m + 1 < ws.flatten.length → (Together ws m (m + 1) ↔ Together vs m (m + 1))) :
    ws = vs := by
  induction ws generalizing vs with
  | nil =>
    cases vs with
    | nil => rfl
    | cons v vs =>
      have hnil := (List.append_eq_nil_iff.1 hletters.symm).1
      exact absurd hnil (hvs v List.mem_cons_self)
  | cons w ws ih =>
    cases vs with
    | nil =>
      have hnil := (List.append_eq_nil_iff.1 hletters).1
      exact absurd hnil (hws w List.mem_cons_self)
    | cons v vs =>
      rw [List.forall_mem_cons] at hws hvs
      have hw := List.length_pos_of_ne_nil hws.1
      have hv := List.length_pos_of_ne_nil hvs.1
      have hlengths : w.length + ws.flatten.length = v.length + vs.flatten.length := by
        simpa using congrArg List.length hletters
      simp only [List.flatten_cons, List.length_append] at h
      -- A longer first word would hold a letter together with one behind the shorter word.
      have hsame : w.length = v.length := by
        by_contra hne
        obtain hlt | hlt := Nat.lt_or_gt_of_ne hne
        · have htogether := (h (w.length - 1) (by omega)).2
            (together_cons_iff.2 ⟨by omega, .inl (by omega)⟩)
          obtain ⟨-, hover | ⟨hover, -⟩⟩ := together_cons_iff.1 htogether <;> omega
        · have htogether := (h (v.length - 1) (by omega)).1
            (together_cons_iff.2 ⟨by omega, .inl (by omega)⟩)
          obtain ⟨-, hover | ⟨hover, -⟩⟩ := together_cons_iff.1 htogether <;> omega
      obtain ⟨rfl, hrest⟩ := List.append_inj hletters hsame
      rw [ih hws.2 hvs.2 hrest fun m hm => ?_]
      have hshift := h (w.length + m) (by omega)
      rw [together_cons_iff, together_cons_iff, Nat.add_sub_cancel_left,
        show w.length + m + 1 - w.length = m + 1 by omega] at hshift
      have hbehind : ¬ w.length + m + 1 < w.length := by omega
      simpa [hbehind] using hshift

/-! ## Splitting -/

variable {c d : Char} {cs rest : List Char}

theorem collectWords_of_separator (hd : isAlphanumeric d = false) (word cs : List Char) :
    ∃ done, collectWords word (d :: cs) = done ++ collectWords [] cs ∧
      done.flatten = word.reverse := by
  cases word with
  | nil => exact ⟨[], by simp [collectWords, hd], rfl⟩
  | cons b w => exact ⟨[(b :: w).reverse], by simp [collectWords, hd], by simp⟩

theorem collectWords_of_first (hc : isAlphanumeric c = true) (cs : List Char) :
    collectWords [] (c :: cs) = collectWords [c] cs := by
  simp [collectWords, hc]

theorem collectWords_of_starts {b : Char} (hc : isAlphanumeric c = true)
    (h : startsWord b c cs.head? = true) :
    collectWords (b :: w) (c :: cs) = (b :: w).reverse :: collectWords [c] cs := by
  rw [collectWords, if_pos hc]
  exact if_pos h

theorem collectWords_of_not_starts {b : Char} (hc : isAlphanumeric c = true)
    (h : startsWord b c cs.head? = false) :
    collectWords (b :: w) (c :: cs) = collectWords (c :: b :: w) cs := by
  rw [collectWords, if_pos hc]
  exact if_neg (Bool.eq_false_iff.1 h)

/-- A letter ends up at the end of the word that is read. -/
theorem exists_step (hc : isAlphanumeric c = true) (word cs : List Char) :
    ∃ done w, collectWords word (c :: cs) = done ++ collectWords (c :: w) cs ∧
      done.flatten ++ w.reverse = word.reverse := by
  cases word with
  | nil => exact ⟨[], [], collectWords_of_first hc cs, rfl⟩
  | cons b w =>
    cases h : startsWord b c cs.head? with
    | true => exact ⟨[(b :: w).reverse], [], collectWords_of_starts hc h, by simp⟩
    | false => exact ⟨[], b :: w, collectWords_of_not_starts hc h, rfl⟩

/-- What splitting has done behind the first part of a label: some words, and the start of one. -/
theorem exists_run (word cs rest : List Char) :
    ∃ done w, collectWords word (cs ++ rest) = done ++ collectWords w rest ∧
      done.flatten ++ w.reverse = word.reverse ++ cs.filter isAlphanumeric := by
  induction cs generalizing word with
  | nil => exact ⟨[], word, rfl, by simp⟩
  | cons c cs ih =>
    rw [List.cons_append]
    cases hc : isAlphanumeric c with
    | true =>
      obtain ⟨done, w, hstep, hletters⟩ := exists_step hc word (cs ++ rest)
      obtain ⟨done', w', hrun, hletters'⟩ := ih (c :: w)
      refine ⟨done ++ done', w', by rw [hstep, hrun, List.append_assoc], ?_⟩
      rw [List.flatten_append, List.append_assoc, hletters', List.filter_cons_of_pos hc,
        List.reverse_cons, List.append_assoc, List.singleton_append, ← List.append_assoc, hletters]
    | false =>
      obtain ⟨done, hstep, hletters⟩ := collectWords_of_separator hc word (cs ++ rest)
      obtain ⟨done', w', hrun, hletters'⟩ := ih []
      refine ⟨done ++ done', w', by rw [hstep, hrun, List.append_assoc], ?_⟩
      rw [List.flatten_append, List.append_assoc, hletters',
        List.filter_cons_of_neg (Bool.eq_false_iff.1 hc), List.reverse_nil, List.nil_append,
        hletters]

/-- The word that is read only grows at its end. -/
theorem exists_collectWords_cons (hword : word ≠ []) (cs : List Char) :
    ∃ more others, collectWords word cs = (word.reverse ++ more) :: others := by
  induction cs generalizing word with
  | nil =>
    cases word with
    | nil => exact absurd rfl hword
    | cons b w => exact ⟨[], [], by simp [collectWords]⟩
  | cons c cs ih =>
    cases word with
    | nil => exact absurd rfl hword
    | cons b w =>
      cases hc : isAlphanumeric c with
      | true =>
        cases h : startsWord b c cs.head? with
        | true => exact ⟨[], collectWords [c] cs, by simp [collectWords_of_starts hc h]⟩
        | false =>
          obtain ⟨more, others, hwords⟩ := ih (List.cons_ne_nil c (b :: w))
          refine ⟨c :: more, others, ?_⟩
          rw [collectWords_of_not_starts hc h, hwords, List.reverse_cons, List.append_assoc,
            List.singleton_append]
      | false => exact ⟨[], collectWords [] cs, by simp [collectWords, hc]⟩

/-- A character that is no letter stands between two words. -/
theorem not_together_of_separator (rest : List Char) (hd : isAlphanumeric d = false)
    (hm : m < (cs.filter isAlphanumeric).length) (hn : (cs.filter isAlphanumeric).length ≤ n) :
    ¬ Together (collectWords [] (cs ++ d :: rest)) m n := by
  obtain ⟨done, w, hrun, hletters⟩ := exists_run [] cs (d :: rest)
  obtain ⟨last, hstep, hlast⟩ := collectWords_of_separator hd w rest
  have hlength : (done ++ last).flatten.length = (cs.filter isAlphanumeric).length := by
    rw [List.flatten_append, hlast, hletters, List.reverse_nil, List.nil_append]
  rw [hrun, hstep, ← List.append_assoc]
  exact not_together_append (by omega) (by omega)

/-- Adjacent letters stand together exactly if the second one starts no word. -/
theorem together_adjacent_iff {b : Char} (cs rest : List Char) (hb : isAlphanumeric b = true)
    (hc : isAlphanumeric c = true) :
    Together (collectWords [] (cs ++ b :: c :: rest)) (cs.filter isAlphanumeric).length
        ((cs.filter isAlphanumeric).length + 1) ↔
      startsWord b c rest.head? = false := by
  obtain ⟨done, w, hrun, hletters⟩ := exists_run [] cs (b :: c :: rest)
  obtain ⟨last, v, hstep, hlast⟩ := exists_step hb w (c :: rest)
  have hlength : (done ++ last).flatten.length + v.length = (cs.filter isAlphanumeric).length := by
    have h := congrArg List.length hletters
    have h' := congrArg List.length hlast
    simp only [List.length_append, List.length_reverse, List.length_nil, List.flatten_append] at *
    omega
  rw [hrun, hstep, ← List.append_assoc]
  cases h : startsWord b c rest.head? with
  | true =>
    rw [collectWords_of_starts hc h, List.append_cons]
    refine iff_of_false (not_together_append ?_ ?_) Bool.noConfusion <;>
      (simp only [List.flatten_append, List.flatten_singleton, List.length_append,
        List.length_reverse, List.length_cons] at hlength ⊢; omega)
  | false =>
    obtain ⟨more, others, hwords⟩ := exists_collectWords_cons (List.cons_ne_nil c (b :: v)) rest
    rw [collectWords_of_not_starts hc h, hwords, ← hlength, Nat.add_assoc]
    refine iff_of_true (together_append_cons (by omega) ?_) rfl
    simp only [List.length_append, List.length_reverse, List.length_cons]
    omega

/-! ## Places of a label -/

/-- The number of letters and digits in front of a place of a label. -/
def lettersBefore (s : List Char) (i : Nat) : Nat := ((s.take i).filter isAlphanumeric).length

variable {s : List Char} {i j k : Nat}

theorem lettersBefore_le (h : i ≤ j) : lettersBefore s i ≤ lettersBefore s j :=
  ((List.take_sublist_take_left h).filter isAlphanumeric).length_le

theorem lettersBefore_succ (hi : s[i]? = some c) (hc : isAlphanumeric c = true) :
    lettersBefore s (i + 1) = lettersBefore s i + 1 := by
  rw [lettersBefore, List.take_add_one, hi, Option.toList_some, List.filter_append,
    List.filter_cons_of_pos hc, List.length_append]
  rfl

theorem eq_take_append (hi : s[i]? = some c) : s = s.take i ++ c :: s.drop (i + 1) := by
  obtain ⟨hlt, rfl⟩ := List.getElem?_eq_some_iff.1 hi
  rw [← List.drop_eq_getElem_cons hlt, List.take_append_drop]

/-- Every letter of a label has a place. -/
theorem exists_place (hm : m < (s.filter isAlphanumeric).length) :
    ∃ i c, s[i]? = some c ∧ isAlphanumeric c = true ∧ lettersBefore s i = m := by
  induction s generalizing m with
  | nil => simp at hm
  | cons c s ih =>
    cases hc : isAlphanumeric c with
    | true =>
      rw [List.filter_cons_of_pos hc, List.length_cons] at hm
      cases m with
      | zero => exact ⟨0, c, rfl, hc, rfl⟩
      | succ m =>
        obtain ⟨i, b, hi, hb, hplace⟩ := ih (Nat.lt_of_succ_lt_succ hm)
        refine ⟨i + 1, b, hi, hb, ?_⟩
        rw [lettersBefore, List.take_succ_cons, List.filter_cons_of_pos hc, List.length_cons,
          ← lettersBefore, hplace]
    | false =>
      have hc' : ¬ isAlphanumeric c = true := Bool.eq_false_iff.1 hc
      rw [List.filter_cons_of_neg hc'] at hm
      obtain ⟨i, b, hi, hb, hplace⟩ := ih hm
      refine ⟨i + 1, b, hi, hb, ?_⟩
      rw [lettersBefore, List.take_succ_cons, List.filter_cons_of_neg hc', ← lettersBefore, hplace]

/-! ## Splittings -/

/-- Whether a list of words is a label split at characters that are neither letter nor digit, and
    between adjacent ones where an upper-case one follows a lower-case one or a digit, or is the
    last of a run of them in front of a lower-case one. -/
structure IsSplitting (s : List Char) (words : List (List Char)) : Prop where
  ne_nil : ∀ w ∈ words, w ≠ []
  letters : words.flatten = s.filter isAlphanumeric
  separated : ∀ {i j k b d c}, i < j → j < k →
    s[i]? = some b → isAlphanumeric b = true → s[j]? = some d → isAlphanumeric d = false →
    s[k]? = some c → isAlphanumeric c = true →
    ¬ Together words (lettersBefore s i) (lettersBefore s k)
  adjacent : ∀ {i b c}, s[i]? = some b → isAlphanumeric b = true →
    s[i + 1]? = some c → isAlphanumeric c = true →
    (¬ Together words (lettersBefore s i) (lettersBefore s (i + 1)) ↔
      isUppercase c = true ∧ (isLowercase b = true ∨ b.isDigit = true ∨
        isUppercase b = true ∧ ∃ next, s[i + 2]? = some next ∧ isLowercase next = true))

theorem startsWord_iff {b : Char} {next : Option Char} :
    startsWord b c next = true ↔
      isUppercase c = true ∧ (isLowercase b = true ∨ b.isDigit = true ∨
        isUppercase b = true ∧ ∃ n, next = some n ∧ isLowercase n = true) := by
  simp [startsWord, Option.any_eq_true, or_assoc]

theorem isSplitting_collectWords (s : List Char) : IsSplitting s (collectWords [] s) where
  ne_nil := ne_nil_of_mem_collectWords s []
  letters := flatten_collectWords s []
  separated {i j k b d c} hij hjk hi hb hj hd hk hc := by
    have hbefore : lettersBefore s i < lettersBefore s j := by
      have hle := lettersBefore_le (s := s) (show i + 1 ≤ j from hij)
      rw [lettersBefore_succ hi hb] at hle
      omega
    have hbehind : lettersBefore s j ≤ lettersBefore s k := lettersBefore_le (Nat.le_of_lt hjk)
    have hnot := not_together_of_separator (s.drop (j + 1)) hd hbefore hbehind
    rwa [← eq_take_append hj] at hnot
  adjacent {i b c} hi hb hnext hc := by
    have hsplit : s = s.take i ++ b :: c :: s.drop (i + 2) := by
      obtain ⟨hlt, hget⟩ := List.getElem?_eq_some_iff.1 hnext
      have hrest : s.drop (i + 1) = c :: s.drop (i + 2) := by
        rw [List.drop_eq_getElem_cons hlt, hget]
      rw [← hrest]
      exact eq_take_append hi
    have hadjacent := together_adjacent_iff (s.take i) (s.drop (i + 2)) hb hc
    rw [← hsplit, List.head?_drop, ← lettersBefore] at hadjacent
    rw [lettersBefore_succ hi hb, hadjacent, Bool.not_eq_false, startsWord_iff]

theorem IsSplitting.unique (hws : IsSplitting s ws) (hvs : IsSplitting s vs) : ws = vs := by
  refine eq_of_together hws.ne_nil hvs.ne_nil (hws.letters.trans hvs.letters.symm) fun m hm => ?_
  rw [hws.letters] at hm
  obtain ⟨i, b, hi, hb, rfl⟩ := exists_place (Nat.lt_of_succ_lt hm)
  obtain ⟨k, c, hk, hc, hplace⟩ := exists_place hm
  rw [← hplace]
  have hik : i < k := by
    by_contra hle
    have := lettersBefore_le (s := s) (Nat.le_of_not_lt hle)
    omega
  obtain rfl | hgap := Nat.eq_or_lt_of_le (Nat.succ_le_of_lt hik)
  · exact not_iff_not.1 ((hws.adjacent hi hb hk hc).trans (hvs.adjacent hi hb hk hc).symm)
  · -- What stands between two letters with consecutive numbers is no letter.
    have hlt : i + 1 < s.length := Nat.lt_trans hgap (List.getElem?_eq_some_iff.1 hk).1
    have hd : isAlphanumeric s[i + 1] = false := by
      by_contra halpha
      have hafter := lettersBefore_succ (List.getElem?_eq_getElem hlt)
        ((Bool.not_eq_false _).mp halpha)
      have hle := lettersBefore_le (s := s) (show i + 1 + 1 ≤ k from hgap)
      rw [lettersBefore_succ hi hb] at hafter
      omega
    exact iff_of_false
      (hws.separated (Nat.lt_succ_self i) hgap hi hb (List.getElem?_eq_getElem hlt) hd hk hc)
      (hvs.separated (Nat.lt_succ_self i) hgap hi hb (List.getElem?_eq_getElem hlt) hd hk hc)

/-- The words of a label are its only splitting. -/
theorem splitWords_eq_iff (s : String) (words : List String) :
    words = splitWords s ↔ IsSplitting s.toList (words.map String.toList) := by
  have hwords : (splitWords s).map String.toList = collectWords [] s.toList := by
    simp [splitWords]
  constructor
  · rintro rfl
    rw [hwords]
    exact isSplitting_collectWords s.toList
  · intro h
    have heq := h.unique (isSplitting_collectWords s.toList)
    rw [← hwords] at heq
    exact List.map_injective_iff.2 (fun _ _ => String.toList_inj.1) heq

example : splitWords "HTTPRequest to Floor2Plan" = ["HTTP", "Request", "to", "Floor2", "Plan"] := by
  decide +kernel

end DomainScaffold.Naming
