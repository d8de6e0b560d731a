import DomainScaffold.Text.Split
import Mathlib.Data.List.DropRight

/-!
# Pieces of a text

Splitting a text at a separator undoes joining pieces that do not have it, and joining undoes
splitting.

Results:
* `splitAt_intercalate`, `intercalate_splitAt`: splitting and joining are inverse.
* `replaceAll_intercalate`: another separator between the same pieces.
* `trimBoth_eq_self`, `trimRight_flatMap`: the ends of a text of pieces.
* `afterLead?_eq_some_iff`, `beforeTail?_eq_some_iff`: what a given end leaves of a text.
* `exists_of_flatMap_eq`: what stands behind a separator is made of the last pieces.
* `lines_append`, `lines_append_break`: the lines of a text that is put together.
* `unlines_lines`, `lines_unlines`: lines and their text.
-/

namespace DomainScaffold.Text

variable {c d : Char} {cs ds : List Char} {ps qs : List (List Char)} {s : String}

/-! ## Texts and their characters -/

theorem map_toList_ofList (pieces : List (List Char)) :
    (pieces.map String.ofList).map String.toList = pieces := by
  have hid : String.toList ∘ String.ofList = id := funext fun cs => String.toList_ofList
  rw [List.map_map, hid, List.map_id]

theorem map_ofList_toList (texts : List String) :
    (texts.map String.toList).map String.ofList = texts := by
  have hid : String.ofList ∘ String.toList = id := funext fun s => String.ofList_toList
  rw [List.map_map, hid, List.map_id]

/-! ## Pieces between separators -/

theorem splitAt_eq_singleton {p : Char → Bool} {cs : List Char} (h : ∀ c ∈ cs, p c = false) :
    splitAt p cs = [cs] := by
  induction cs with
  | nil => rfl
  | cons c cs ih =>
    rw [List.forall_mem_cons] at h
    rw [splitAt, h.1, ih h.2]
    rfl

theorem splitAt_of_not_mem (h : c ∉ cs) : splitAt (· == c) cs = [cs] :=
  splitAt_eq_singleton fun _ hd => beq_eq_false_iff_ne.2 fun heq => h (heq ▸ hd)

theorem splitAt_append_cons {f : Char → Bool} {c : Char} (hc : f c = true) (xs ys : List Char) :
    splitAt f (xs ++ c :: ys) = splitAt f xs ++ splitAt f ys := by
  induction xs with
  | nil =>
    rw [List.nil_append, splitAt.eq_2, if_pos hc]
    rfl
  | cons x xs ih =>
    rw [List.cons_append, splitAt, splitAt, ih]
    split
    · rfl
    · cases hxs : splitAt f xs with
      | nil => exact absurd hxs (splitAt_ne_nil f xs)
      | cons piece pieces => rfl

theorem intercalate_splitAt (sep : Char) (cs : List Char) :
    List.intercalate [sep] (splitAt (· == sep) cs) = cs := by
  induction cs with
  | nil => rfl
  | cons c cs ih =>
    have hne := splitAt_ne_nil (· == sep) cs
    rw [splitAt]
    cases hpieces : splitAt (· == sep) cs with
    | nil => exact absurd hpieces hne
    | cons piece pieces =>
      rw [hpieces] at ih
      by_cases hc : (c == sep) = true
      · rw [if_pos hc, List.intercalate_cons_cons, ih, eq_of_beq hc]
        rfl
      · rw [if_neg hc]
        cases pieces with
        | nil => simpa using congrArg (c :: ·) ih
        | cons next pieces =>
          simp only [List.intercalate_cons_cons] at ih ⊢
          rw [← ih]
          rfl

theorem splitAt_intercalate {c : Char} {ps : List (List Char)} (hne : ps ≠ [])
    (h : ∀ piece ∈ ps, c ∉ piece) :
    splitAt (· == c) (List.intercalate [c] ps) = ps := by
  induction ps with
  | nil => exact absurd rfl hne
  | cons piece ps ih =>
    obtain ⟨hpiece, hps⟩ := List.forall_mem_cons.1 h
    have hsingle : splitAt (· == c) piece = [piece] := splitAt_of_not_mem hpiece
    cases ps with
    | nil => simpa using hsingle
    | cons next ps =>
      rw [List.intercalate_cons_cons, List.append_assoc, List.singleton_append,
        splitAt_append_cons (f := (· == c)) (beq_self_eq_true c), hsingle, ih (by simp) hps]
      rfl

theorem intercalate_append (hps : ps ≠ []) (hqs : qs ≠ []) :
    List.intercalate [c] (ps ++ qs) = List.intercalate [c] ps ++ c :: List.intercalate [c] qs := by
  induction ps with
  | nil => exact absurd rfl hps
  | cons p ps ih =>
    cases ps with
    | nil =>
      obtain ⟨q, qs, rfl⟩ := List.exists_cons_of_ne_nil hqs
      simp [List.intercalate_cons_cons]
    | cons next ps =>
      rw [List.cons_append, List.cons_append, List.intercalate_cons_cons, ← List.cons_append,
        ih (by simp), List.intercalate_cons_cons, List.append_assoc, List.append_assoc,
        List.append_assoc]

/-- The characters of joined texts are those of the texts and of what they are joined by. -/
theorem mem_intercalate {sep : String} {ts : List String}
    (h : c ∈ (String.intercalate sep ts).toList) : c ∈ sep.toList ∨ ∃ t ∈ ts, c ∈ t.toList := by
  induction ts with
  | nil => cases h
  | cons t ts ih =>
    cases ts with
    | nil => exact .inr ⟨t, List.mem_cons_self, by rwa [String.intercalate_singleton] at h⟩
    | cons u ts =>
      rw [String.intercalate_cons_cons, String.toList_append, String.toList_append,
        List.mem_append, List.mem_append] at h
      rcases h with (h | h) | h
      · exact .inr ⟨t, List.mem_cons_self, h⟩
      · exact .inl h
      · exact (ih h).imp_right fun ⟨u, hu, hc⟩ => ⟨u, List.mem_cons_of_mem _ hu, hc⟩

/-! ## Replaced separators -/

/-- Replacing a single character works character by character. -/
theorem replaceFrom_char (c : Char) (new cs : List Char) :
    replaceFrom [c] new 0 cs = cs.flatMap fun x => if x = c then new else [x] := by
  induction cs with
  | nil => rfl
  | cons x cs ih =>
    by_cases hx : x = c
    · subst hx
      simp [replaceFrom, ih]
    · have hx' : ¬ c = x := fun h => hx h.symm
      simp [replaceFrom, ih, hx, hx']

theorem toList_replaceAll_char {old : String} (hold : old.toList = [c]) (new s : String) :
    (replaceAll old new s).toList = s.toList.flatMap fun x => if x = c then new.toList else [x] := by
  rw [replaceAll, String.toList_ofList, hold, replaceFrom_char]

theorem replaceFrom_singleton (c d : Char) (cs : List Char) :
    replaceFrom [c] [d] 0 cs = cs.map fun x => if x = c then d else x := by
  have hchar : ∀ x, (if x = c then [d] else [x]) = [if x = c then d else x] := fun x => by
    split <;> rfl
  simp only [replaceFrom_char, hchar, List.map_eq_flatMap]

theorem map_replace_intercalate (h : ∀ p ∈ ps, c ∉ p) :
    (List.intercalate [c] ps).map (fun x => if x = c then d else x) = List.intercalate [d] ps := by
  have hpiece : ∀ p ∈ ps, p.map (fun x => if x = c then d else x) = p := fun p hp => by
    refine (List.map_congr_left fun x hx => if_neg ?_).trans (List.map_id p)
    rintro rfl
    exact h p hp hx
  induction ps with
  | nil => rfl
  | cons p ps ih =>
    obtain ⟨hp, hps⟩ := List.forall_mem_cons.1 hpiece
    cases ps with
    | nil => simpa using hp
    | cons q ps =>
      rw [List.intercalate_cons_cons, List.intercalate_cons_cons, List.map_append, List.map_append,
        hp, ih (fun p hp => h p (List.mem_cons_of_mem _ hp)) hps]
      simp

/-- Replacing the separator of pieces that do not have it. -/
theorem replaceAll_intercalate {old new : String} (hold : old.toList = [c])
    (hnew : new.toList = [d]) (h : ∀ p ∈ ps, c ∉ p) :
    replaceAll old new (String.ofList (List.intercalate [c] ps)) =
      String.ofList (List.intercalate [d] ps) := by
  rw [replaceAll, String.toList_ofList, hold, hnew, replaceFrom_singleton,
    map_replace_intercalate h]

/-! ## Ends -/

theorem trimRight_eq (c : Char) (cs : List Char) :
    trimRight c (String.ofList cs) = String.ofList (cs.rdropWhile (· == c)) := by
  rw [trimRight, String.toList_ofList, List.rdropWhile]

theorem rdropWhile_eq (h : cs.getLast? ≠ some c) : cs.rdropWhile (· == c) = cs := by
  refine List.rdropWhile_eq_self_iff.2 fun hne heq => h ?_
  rw [List.getLast?_eq_some_getLast hne, eq_of_beq heq]

theorem trimRight_of_getLast? (h : s.toList.getLast? ≠ some c) : trimRight c s = s := by
  conv_lhs => rw [← String.ofList_toList (s := s)]
  rw [trimRight_eq, rdropWhile_eq h, String.ofList_toList]

theorem trimRight_concat (h : cs.getLast? ≠ some c) :
    trimRight c (String.ofList (cs ++ [c])) = String.ofList cs := by
  rw [trimRight_eq, List.rdropWhile_concat_pos (fun x => x == c) _ _ (beq_self_eq_true c),
    rdropWhile_eq h]

theorem trimLeft_of_head? (h : s.toList.head? ≠ some c) : trimLeft c s = s := by
  rw [trimLeft]
  cases hs : s.toList with
  | nil => rw [List.dropWhile_nil, ← hs, String.ofList_toList]
  | cons d ds =>
    have hd : (d == c) = false := beq_eq_false_iff_ne.2 fun heq => h (by rw [hs, heq]; rfl)
    rw [List.dropWhile_cons, hd, if_neg Bool.false_ne_true, ← hs, String.ofList_toList]

theorem trimBoth_eq_self (hhead : s.toList.head? ≠ some c) (hlast : s.toList.getLast? ≠ some c) :
    trimBoth c s = s := by
  rw [trimBoth, trimLeft_of_head? hhead, trimRight_of_getLast? hlast]

theorem cutFirst?_append (h : c ∉ cs) :
    cutFirst? c (String.ofList (cs ++ c :: ds)) = some (String.ofList cs, String.ofList ds) := by
  have hcs : ∀ d ∈ cs, (d != c) = true := fun d hd => bne_iff_ne.2 fun heq => h (heq ▸ hd)
  rw [cutFirst?, String.toList_ofList, List.dropWhile_append_of_pos hcs,
    List.takeWhile_append_of_pos hcs]
  simp

theorem cutLast?_eq_none (h : c ∉ s.toList) : cutLast? c s = none := by
  have hnone : s.toList.reverse.dropWhile (· != c) = [] := List.dropWhile_eq_nil_iff.2 fun d hd =>
    bne_iff_ne.2 fun heq => h (heq ▸ List.mem_reverse.1 hd)
  rw [cutLast?, hnone]

theorem cutLast?_append (h : c ∉ ds) :
    cutLast? c (String.ofList (cs ++ c :: ds)) = some (String.ofList cs, String.ofList ds) := by
  have hds : ∀ d ∈ ds.reverse, (d != c) = true := fun d hd =>
    bne_iff_ne.2 fun heq => h (heq ▸ List.mem_reverse.1 hd)
  have hback : (cs ++ c :: ds).reverse = ds.reverse ++ c :: cs.reverse := by simp
  have hdrop : (ds.reverse ++ c :: cs.reverse).dropWhile (· != c) = c :: cs.reverse := by
    rw [List.dropWhile_append_of_pos hds, List.dropWhile_cons]
    simp
  have htake : (ds.reverse ++ c :: cs.reverse).takeWhile (· != c) = ds.reverse := by
    rw [List.takeWhile_append_of_pos hds, List.takeWhile_cons]
    simp
  rw [cutLast?, String.toList_ofList, hback, hdrop, htake]
  simp

theorem afterLead?_eq_some_iff {lead s rest : String} :
    afterLead? lead s = some rest ↔ s = lead ++ rest := by
  rw [afterLead?, Option.map_eq_some_iff]
  constructor
  · rintro ⟨cs, hcs, rfl⟩
    rw [dropLead_eq_some_iff] at hcs
    rw [← String.toList_inj, hcs, String.toList_append, String.toList_ofList]
  · rintro rfl
    exact ⟨rest.toList, dropLead_eq_some_iff.2 String.toList_append, String.ofList_toList⟩

theorem beforeTail?_eq_some_iff {tail s rest : String} :
    beforeTail? tail s = some rest ↔ s = rest ++ tail := by
  rw [beforeTail?, Option.map_eq_some_iff]
  constructor
  · rintro ⟨cs, hcs, rfl⟩
    rw [dropLead_eq_some_iff] at hcs
    rw [← String.toList_inj, ← List.reverse_inj, hcs, String.toList_append, String.toList_ofList,
      List.reverse_append, List.reverse_reverse]
  · rintro rfl
    refine ⟨rest.toList.reverse, dropLead_eq_some_iff.2 ?_, ?_⟩
    · rw [String.toList_append, List.reverse_append]
    · rw [List.reverse_reverse, String.ofList_toList]

/-! ## A separator behind every piece -/

theorem intercalate_concat {c : Char} (h : ps ≠ []) :
    List.intercalate [c] ps ++ [c] = ps.flatMap (· ++ [c]) := by
  induction ps with
  | nil => exact absurd rfl h
  | cons p ps ih =>
    cases ps with
    | nil => simp
    | cons q ps =>
      rw [List.intercalate_cons_cons, List.append_assoc, ih (by simp)]
      rfl

/-- Pieces with separators between them start and end with none. -/
theorem ends_intercalate (hne : ps ≠ []) (h : ∀ p ∈ ps, p ≠ [] ∧ c ∉ p) :
    List.intercalate [c] ps ≠ [] ∧ (List.intercalate [c] ps).head? ≠ some c ∧
      (List.intercalate [c] ps).getLast? ≠ some c := by
  have hsplit := splitAt_intercalate hne fun p hp => (h p hp).2
  refine ⟨fun heq => ?_, fun hhead => ?_, fun hlast => ?_⟩
  · rw [heq] at hsplit
    exact (h [] (hsplit ▸ List.mem_singleton_self _)).1 rfl
  · obtain ⟨rest, hrest⟩ := List.head?_eq_some_iff.1 hhead
    rw [hrest, splitAt, if_pos (beq_self_eq_true c)] at hsplit
    exact (h [] (hsplit ▸ List.mem_cons_self)).1 rfl
  · obtain ⟨front, hfront⟩ := List.getLast?_eq_some_iff.1 hlast
    rw [hfront, splitAt_append_cons (f := (· == c)) (beq_self_eq_true c)] at hsplit
    exact (h [] (hsplit ▸ List.mem_append_right _ List.mem_cons_self)).1 rfl

/-- Without the separators at its end a text of pieces that each end with one has them between. -/
theorem trimRight_flatMap (h : ∀ p ∈ ps, p ≠ [] ∧ c ∉ p) :
    trimRight c (String.ofList (ps.flatMap (· ++ [c]))) =
      String.ofList (List.intercalate [c] ps) := by
  by_cases hne : ps = []
  · subst hne
    exact trimRight_of_getLast? (by simp)
  · rw [← intercalate_concat hne, trimRight_concat (ends_intercalate hne h).2.2]

/-- What stands behind a separator in pieces that each end with one. -/
theorem exists_of_flatMap_eq (h : ∀ p ∈ ps, c ∉ p)
    (heq : ps.flatMap (· ++ [c]) = cs ++ c :: ds) :
    ∃ front rest, front ≠ [] ∧ ps = front ++ rest ∧ ds = rest.flatMap (· ++ [c]) := by
  induction ps generalizing cs with
  | nil => simp at heq
  | cons p ps ih =>
    obtain ⟨hp, hps⟩ := List.forall_mem_cons.1 h
    rw [List.flatMap_cons, List.append_assoc, List.singleton_append] at heq
    rcases List.append_eq_append_iff.1 heq with ⟨as, hcs, has⟩ | ⟨as, hcs, has⟩
    · cases as with
      | nil =>
        refine ⟨[p], ps, by simp, rfl, ?_⟩
        simpa using has.symm
      | cons a as =>
        rw [List.cons_append] at has
        obtain ⟨front, rest, -, rfl, hds⟩ := ih hps (List.cons.inj has).2
        exact ⟨p :: front, rest, by simp, rfl, hds⟩
    · cases as with
      | nil =>
        refine ⟨[p], ps, by simp, rfl, ?_⟩
        simpa using has
      | cons a as =>
        rw [List.cons_append] at has
        obtain rfl := (List.cons.inj has).1
        exact absurd (hcs ▸ List.mem_append_right _ List.mem_cons_self) hp

/-! ## Lines -/

theorem splitAt_append {p : Char → Bool} {init : List (List Char)} {last : List Char}
    (hcs : splitAt p cs = init ++ [last]) (hds : ∀ d ∈ ds, p d = false) :
    splitAt p (cs ++ ds) = init ++ [last ++ ds] := by
  induction cs generalizing init last with
  | nil =>
    obtain ⟨rfl, rfl⟩ : init = [] ∧ last = [] := by
      simpa [splitAt, List.singleton_eq_append_iff] using hcs
    simpa using splitAt_eq_singleton hds
  | cons c cs ih =>
    rw [splitAt] at hcs
    rw [List.cons_append, splitAt]
    by_cases hc : p c = true
    · rw [if_pos hc] at hcs
      cases init with
      | nil =>
        rw [List.nil_append, List.cons.injEq] at hcs
        exact absurd hcs.2 (splitAt_ne_nil p cs)
      | cons i init =>
        obtain ⟨rfl, hrest⟩ := List.cons.inj hcs
        rw [if_pos hc, ih hrest]
        rfl
    · rw [if_neg hc] at hcs
      rw [if_neg hc]
      cases hpieces : splitAt p cs with
      | nil => exact absurd hpieces (splitAt_ne_nil p cs)
      | cons piece pieces =>
        rw [hpieces] at hcs
        dsimp only at hcs
        cases init with
        | nil =>
          obtain ⟨rfl, rfl⟩ := List.cons.inj hcs
          rw [ih (show splitAt p cs = [] ++ [piece] from hpieces)]
          rfl
        | cons i init =>
          obtain ⟨rfl, rfl⟩ := List.cons.inj hcs
          rw [ih (show splitAt p cs = (piece :: init) ++ [last] from hpieces)]
          rfl

variable {t : String}

theorem lines_ne_nil (s : String) : lines s ≠ [] :=
  mt List.map_eq_nil_iff.1 (splitAt_ne_nil _ s.toList)

theorem lines_eq_singleton (h : '\n' ∉ s.toList) : lines s = [s] := by
  rw [lines, splitOn, splitAt_of_not_mem h, List.map_singleton, String.ofList_toList]

/-- Behind a line break the lines start anew. -/
theorem lines_append_break (s t : String) : lines (s ++ "\n" ++ t) = lines s ++ lines t := by
  have hchars : (s ++ "\n" ++ t).toList = s.toList ++ '\n' :: t.toList := by
    rw [String.toList_append, String.toList_append, List.append_assoc]
    rfl
  rw [lines, splitOn, hchars, splitAt_append_cons (f := (· == '\n')) (beq_self_eq_true '\n'),
    List.map_append]
  rfl

/-- A text without line break continues the last line. -/
theorem lines_append {init : List String} {last : String} (hs : lines s = init ++ [last])
    (ht : '\n' ∉ t.toList) : lines (s ++ t) = init ++ [last ++ t] := by
  obtain ⟨pieces, tail, hpieces, rfl, htail⟩ := List.map_eq_append_iff.1 hs
  obtain ⟨piece, rfl, rfl⟩ := List.map_eq_singleton_iff.1 htail
  rw [lines, splitOn, String.toList_append, splitAt_append hpieces
    fun c hc => beq_eq_false_iff_ne.2 fun heq => ht (heq ▸ hc)]
  simp [String.ofList_append]

theorem not_break_mem_of_mem_lines (h : t ∈ lines s) : '\n' ∉ t.toList := by
  obtain ⟨piece, hpiece, rfl⟩ := List.mem_map.1 h
  rw [String.toList_ofList]
  exact fun hmem => by simpa using not_mem_of_mem_splitAt hpiece '\n' hmem

theorem unlines_lines (s : String) : unlines (lines s) = s := by
  rw [← String.toList_inj, unlines, String.toList_intercalate, lines, splitOn, map_toList_ofList]
  exact intercalate_splitAt '\n' s.toList

theorem toList_unlines (ls : List String) :
    (unlines ls).toList = List.intercalate ['\n'] (ls.map String.toList) :=
  String.toList_intercalate

theorem unlines_concat {ls : List String} (hne : ls ≠ []) (l : String) :
    unlines (ls ++ [l]) = unlines ls ++ "\n" ++ l := by
  rw [← String.toList_inj, toList_unlines, List.map_append, List.map_singleton,
    intercalate_append (by simpa using hne) (by simp), String.toList_append, String.toList_append,
    toList_unlines, List.intercalate_singleton, List.append_assoc]
  rfl

theorem append_unlines (s l : String) (ls : List String) :
    s ++ unlines (l :: ls) = unlines ((s ++ l) :: ls) := by
  cases ls with
  | nil => rw [unlines, unlines, String.intercalate_singleton, String.intercalate_singleton]
  | cons next ls =>
    rw [unlines, unlines, String.intercalate_cons_cons, String.intercalate_cons_cons,
      String.append_assoc, String.append_assoc, String.append_assoc]

theorem lines_unlines {ls : List String} (hne : ls ≠ []) (h : ∀ l ∈ ls, '\n' ∉ l.toList) :
    lines (unlines ls) = ls := by
  rw [lines, splitOn, toList_unlines, splitAt_intercalate (by simpa using hne), map_ofList_toList]
  simpa using h

end DomainScaffold.Text

