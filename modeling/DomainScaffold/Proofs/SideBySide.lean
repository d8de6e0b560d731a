import Mathlib.Data.List.Forall2
import Mathlib.Logic.Relation

/-!
# Lists side by side

Two lists of one length whose members are related in pairs.

Results:
* `exists_mem_zip_of_mem`, `find?_zip_eq_some`: the partner of a member, and of the first one found.
* `map_eq_of_forall₂`: what partners agree on is the same list.
* `forall₂_comp`: three lists side by side.
-/

namespace DomainScaffold

variable {α β γ : Type} {R : α → β → Prop} {S : β → γ → Prop} {as : List α} {bs : List β}
  {cs : List γ}

theorem exists_mem_zip_of_mem (h : List.Forall₂ R as bs) {a : α} (ha : a ∈ as) :
    ∃ x, (a, x) ∈ as.zip bs ∧ R a x := by
  induction h with
  | nil => cases ha
  | @cons a' x as bs hR _ ih =>
    rcases List.mem_cons.1 ha with rfl | ha
    · exact ⟨x, List.mem_cons_self, hR⟩
    · obtain ⟨y, hy, hRy⟩ := ih ha
      exact ⟨y, List.mem_cons_of_mem _ hy, hRy⟩

theorem find?_zip_eq_some (h : List.Forall₂ R as bs) {f : α → Bool} {a : α}
    (ha : as.find? f = some a) :
    ∃ x, (as.zip bs).find? (fun y => f y.1) = some (a, x) ∧ R a x := by
  induction h with
  | nil => cases ha
  | @cons a' x as bs hR _ ih =>
    cases hf : f a' with
    | true =>
      rw [List.find?_cons_of_pos hf, Option.some.injEq] at ha
      exact ⟨x, by rw [List.zip_cons_cons, List.find?_cons_of_pos (by exact hf), ha], ha ▸ hR⟩
    | false =>
      rw [List.find?_cons_of_neg (by simp [hf])] at ha
      obtain ⟨y, hy, hRy⟩ := ih ha
      exact ⟨y, by rw [List.zip_cons_cons, List.find?_cons_of_neg (by simp [hf]), hy], hRy⟩

theorem map_eq_of_forall₂ {f : α → γ} {g : β → γ} (h : List.Forall₂ R as bs)
    (hR : ∀ a b, R a b → g b = f a) : bs.map g = as.map f := by
  induction h with
  | nil => rfl
  | cons hab _ ih => rw [List.map_cons, List.map_cons, hR _ _ hab, ih]

theorem forall₂_comp (hab : List.Forall₂ R as bs) (hbc : List.Forall₂ S bs cs) :
    List.Forall₂ (Relation.Comp R S) as cs := by
  induction hab generalizing cs with
  | nil =>
    cases hbc
    exact .nil
  | cons hR _ ih =>
    cases hbc with
    | cons hS hrest => exact .cons ⟨_, hR, hS⟩ (ih hrest)

end DomainScaffold
