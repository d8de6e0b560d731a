import Mathlib.Data.List.Induction
import Mathlib.Data.List.Sort

/-!
# First occurrences

The members of a list that have a property, each once and in the order in which they first occur,
are one list. Leaving out repetitions and filtering lead to it, in any order.

Results:
* `FirstOccurrences.unique`: there is only one list of first occurrences.
* `firstOccurrences_filter_eraseDups`: leaving out repetitions and filtering gives it.
* `find?_eq_some_iff_isFirst`: what a search finds is the first one.
* `eraseDups_filter`, `eraseDups_append_eraseDups`, `find?_eraseDups`: repetitions may be left out
  early or late.
-/

namespace DomainScaffold

variable {l m firsts firsts' : List String} {P Q : String → Prop}

/-! ## Repetitions -/

theorem eraseDups_filter (p : String → Bool) (as : List String) :
    (as.filter p).eraseDups = as.eraseDups.filter p := by
  match as with
  | [] => rfl
  | a :: as =>
    have hrest := eraseDups_filter p (as.filter fun x => !x == a)
    rw [List.eraseDups_cons]
    cases hp : p a with
    | true =>
      rw [List.filter_cons_of_pos hp, List.filter_cons_of_pos hp, List.eraseDups_cons, ← hrest,
        List.filter_filter, List.filter_filter]
      simp only [Bool.and_comm]
    | false =>
      have hsame : as.filter p = (as.filter fun x => !x == a).filter p := by
        rw [List.filter_filter]
        refine List.filter_congr fun x _ => ?_
        by_cases hx : x = a
        · simp [hx, hp]
        · simp [hx]
      rw [List.filter_cons_of_neg (by simp [hp]), List.filter_cons_of_neg (by simp [hp]), hsame,
        hrest]
termination_by as.length
decreasing_by exact Nat.lt_succ_of_le (List.length_filter_le _ _)

theorem eraseDups_concat {α : Type} [BEq α] [LawfulBEq α] (l : List α) (a : α) :
    (l ++ [a]).eraseDups = if a ∈ l then l.eraseDups else l.eraseDups ++ [a] := by
  rw [List.eraseDups_append]
  split
  · rename_i ha
    simp [List.removeAll, ha]
  · rename_i ha
    simp [List.removeAll, ha, List.eraseDups_cons]

theorem nodup_eraseDups {α : Type} [BEq α] [LawfulBEq α] (l : List α) : l.eraseDups.Nodup := by
  induction l using List.reverseRecOn with
  | nil => exact .nil
  | append_singleton l a ih =>
    rw [eraseDups_concat]
    split
    · exact ih
    · rename_i ha
      refine List.nodup_append.2 ⟨ih, List.nodup_singleton a, fun x hx y hy => ?_⟩
      rw [List.mem_singleton] at hy
      exact hy ▸ ne_of_mem_of_not_mem (List.mem_eraseDups.1 hx) ha

theorem eraseDups_eraseDups (l : List String) : l.eraseDups.eraseDups = l.eraseDups := by
  induction l using List.reverseRecOn with
  | nil => rfl
  | append_singleton l a ih =>
    rw [eraseDups_concat]
    split
    · exact ih
    · rename_i ha
      rw [eraseDups_concat, if_neg (mt List.mem_eraseDups.1 ha), ih]

theorem eraseDups_append_eraseDups (l m : List String) :
    (l.eraseDups ++ m.eraseDups).eraseDups = (l ++ m).eraseDups := by
  rw [List.eraseDups_append, List.eraseDups_append, eraseDups_eraseDups, List.removeAll,
    List.removeAll, eraseDups_filter, eraseDups_filter, eraseDups_eraseDups]
  congr 1
  refine List.filter_congr fun x _ => ?_
  simp

theorem find?_eraseDups (p : String → Bool) (l : List String) :
    l.eraseDups.find? p = l.find? p := by
  rw [← List.head?_filter, ← List.head?_filter, ← eraseDups_filter]
  cases l.filter p with
  | nil => rfl
  | cons a as => rw [List.eraseDups_cons, List.head?_cons, List.head?_cons]

/-! ## Order -/

/-- The members of `l` with the property, each once, in the order in which they first occur. -/
def FirstOccurrences (l : List String) (P : String → Prop) (firsts : List String) : Prop :=
  (∀ x, x ∈ firsts ↔ x ∈ l ∧ P x) ∧ firsts.Pairwise fun x y => l.idxOf x < l.idxOf y

theorem FirstOccurrences.nodup (h : FirstOccurrences l P firsts) : firsts.Nodup := by
  refine h.2.imp ?_
  rintro x _ hlt rfl
  exact Nat.lt_irrefl _ hlt

theorem FirstOccurrences.unique (h : FirstOccurrences l P firsts)
    (h' : FirstOccurrences l P firsts') : firsts = firsts' := by
  have hirrefl : Std.Irrefl fun x y => l.idxOf x < l.idxOf y := ⟨fun x => Nat.lt_irrefl _⟩
  have hantisymm : Std.Antisymm fun x y => l.idxOf x < l.idxOf y :=
    ⟨fun x y hxy hyx => absurd hxy (Nat.lt_asymm hyx)⟩
  exact h.2.eq_of_mem_iff h'.2 fun x => (h.1 x).trans (h'.1 x).symm

theorem firstOccurrences_eraseDups (l : List String) :
    FirstOccurrences l (fun _ => True) l.eraseDups := by
  refine ⟨fun x => by rw [List.mem_eraseDups, and_true], ?_⟩
  induction l using List.reverseRecOn with
  | nil => exact .nil
  | append_singleton l a ih =>
    have hold : l.eraseDups.Pairwise fun x y => (l ++ [a]).idxOf x < (l ++ [a]).idxOf y := by
      refine ih.imp_of_mem fun hx hy hlt => ?_
      rwa [List.idxOf_append_of_mem (List.mem_eraseDups.1 hx),
        List.idxOf_append_of_mem (List.mem_eraseDups.1 hy)]
    rw [eraseDups_concat]
    split
    · exact hold
    · rename_i ha
      refine List.pairwise_append.2 ⟨hold, List.pairwise_singleton _ _, fun x hx y hy => ?_⟩
      rw [List.mem_singleton] at hy
      rw [hy, List.idxOf_append_of_mem (List.mem_eraseDups.1 hx), List.idxOf_append_of_notMem ha]
      exact Nat.lt_of_lt_of_le (List.idxOf_lt_length_iff.2 (List.mem_eraseDups.1 hx))
        (Nat.le_add_right _ _)

theorem FirstOccurrences.filter (h : FirstOccurrences l P firsts) {q : String → Bool}
    (hq : ∀ x, q x = true ↔ Q x) : FirstOccurrences l (fun x => P x ∧ Q x) (firsts.filter q) :=
  ⟨fun x => by rw [List.mem_filter, h.1, hq, and_assoc], h.2.filter q⟩

/-- Leaving out repetitions and filtering leads to the first occurrences. -/
theorem firstOccurrences_filter_eraseDups {q : String → Bool} (hq : ∀ x, q x = true ↔ Q x) :
    FirstOccurrences l Q (l.eraseDups.filter q) := by
  have h := (firstOccurrences_eraseDups l).filter hq
  simp only [true_and] at h
  exact h

/-! ## The first one -/

/-- The first member of `l` with the property. -/
def IsFirst (l : List String) (P : String → Prop) (x : String) : Prop :=
  ∃ before after, l = before ++ x :: after ∧ P x ∧ ∀ b ∈ before, ¬ P b

theorem IsFirst.holds {x : String} : IsFirst l P x → P x := fun ⟨_, _, _, h, _⟩ => h

theorem find?_eq_some_iff_isFirst {q : String → Bool} (hq : ∀ x, q x = true ↔ P x) {x : String} :
    l.find? q = some x ↔ IsFirst l P x := by
  rw [List.find?_eq_some_iff_append]
  constructor
  · rintro ⟨hx, before, after, hl, hbefore⟩
    refine ⟨before, after, hl, (hq x).1 hx, fun b hb hP => ?_⟩
    simpa [(hq b).2 hP] using hbefore b hb
  · rintro ⟨before, after, hl, hx, hbefore⟩
    refine ⟨(hq x).2 hx, before, after, hl, fun b hb => ?_⟩
    simpa using fun h => hbefore b hb ((hq b).1 h)

theorem exists_isFirst_iff : (∃ x, IsFirst l P x) ↔ ∃ x ∈ l, P x := by
  classical
  have hP : ∀ x, decide (P x) = true ↔ P x := fun _ => decide_eq_true_iff
  calc (∃ x, IsFirst l P x) ↔ ∃ x, l.find? (fun x => decide (P x)) = some x :=
        exists_congr fun _ => (find?_eq_some_iff_isFirst hP).symm
    _ ↔ ∃ x ∈ l, P x := by
        rw [← Option.isSome_iff_exists, List.find?_isSome]
        simp only [hP]

end DomainScaffold
