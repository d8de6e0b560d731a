import Mathlib.Data.List.InsertIdx

/-!
# Editing the first element that fits

Edits of a class, of a declaration with several entries and of a method look for the first element
with a name and rewrite that one. This module has the laws of such edits.

Results:
* `editFirst_comm`: edits of different elements can change places.
* `editFirst_absorb`: an edit that is made again later need not be made before.
* `editFirst_insertIdx`: an edit does not see a new element that does not fit.
-/

namespace DomainScaffold.Merge

section EditFirst

variable {α : Type} {p q : α → Bool} {f g : α → α}

/-- The list with the first element that satisfies `p` replaced by its image. -/
def editFirst (p : α → Bool) (f : α → α) : List α → List α
  | [] => []
  | a :: as => if p a then f a :: as else a :: editFirst p f as

@[simp] theorem editFirst_nil : editFirst p f [] = [] := rfl

theorem editFirst_cons_of_pos {a : α} (h : p a = true) (l : List α) :
    editFirst p f (a :: l) = f a :: l := by
  simp [editFirst, h]

theorem editFirst_cons_of_neg {a : α} (h : p a = false) (l : List α) :
    editFirst p f (a :: l) = a :: editFirst p f l := by
  simp [editFirst, h]

theorem modify_eq_editFirst {l : List α} {i : Nat} (h : l.findIdx? p = some i) :
    l.modify i f = editFirst p f l := by
  induction l generalizing i with
  | nil => simp at h
  | cons a l ih =>
    rw [List.findIdx?_cons] at h
    by_cases hp : p a = true
    · rw [if_pos hp] at h
      cases h
      simp [editFirst, hp]
    · rw [if_neg hp] at h
      obtain ⟨j, hj, rfl⟩ := Option.map_eq_some_iff.1 h
      simp [editFirst, hp, ih hj]

theorem set_eq_editFirst {l : List α} {i : Nat} (h : l.findIdx? p = some i) (b : α) :
    l.set i b = editFirst p (fun _ => b) l := by
  rw [← modify_eq_editFirst h]
  exact List.ext_getElem (by simp) fun j hj _ => by
    simp [List.getElem_set, List.getElem_modify]

/-- A list around one of its elements. -/
theorem eq_take_append_cons_drop {l : List α} {i : Nat} {a : α} (h : l[i]? = some a) :
    l = l.take i ++ a :: l.drop (i + 1) := by
  obtain ⟨hlt, rfl⟩ := List.getElem?_eq_some_iff.1 h
  rw [← List.drop_eq_getElem_cons hlt, List.take_append_drop]

theorem any_of_findIdx? {l : List α} {i : Nat} (h : l.findIdx? p = some i) : l.any p = true := by
  rw [← List.findIdx?_isSome, h]
  rfl

theorem find?_of_any {l : List α} (h : l.any p = true) : ∃ a, l.find? p = some a := by
  obtain ⟨a, ha, hp⟩ := List.any_eq_true.1 h
  exact Option.isSome_iff_exists.1 (List.find?_isSome.2 ⟨a, ha, hp⟩)

theorem find?_eq_none_iff_any {l : List α} : l.find? p = none ↔ l.any p = false := by
  rw [List.find?_eq_none, List.any_eq_false]

theorem findIdx?_of_find? {l : List α} {a : α} (h : l.find? p = some a) :
    ∃ i, l.findIdx? p = some i ∧ l[i]? = some a := by
  obtain ⟨hp, i, hi, rfl, hlt⟩ := List.find?_eq_some_iff_getElem.1 h
  exact ⟨i, List.findIdx?_eq_some_iff_getElem.2 ⟨hi, hp, fun j hj => by simpa using hlt j hj⟩,
    List.getElem?_eq_getElem hi⟩

theorem find?_of_findIdx? {l : List α} {i : Nat} {a : α} (h : l.findIdx? p = some i)
    (ha : l[i]? = some a) : l.find? p = some a := by
  obtain ⟨hi, hp, hlt⟩ := List.findIdx?_eq_some_iff_getElem.1 h
  obtain ⟨_, rfl⟩ := List.getElem?_eq_some_iff.1 ha
  exact List.find?_eq_some_iff_getElem.2 ⟨hp, i, hi, rfl, fun j hj => by simpa using hlt j hj⟩

/-! ## When nothing happens -/

/-- Only the image of the element that is found matters. -/
theorem editFirst_congr {l : List α} (h : ∀ a, l.find? p = some a → f a = g a) :
    editFirst p f l = editFirst p g l := by
  induction l with
  | nil => rfl
  | cons a l ih =>
    by_cases hp : p a = true
    · simp only [editFirst_cons_of_pos hp]
      rw [h a (List.find?_cons_of_pos hp)]
    · rw [Bool.not_eq_true] at hp
      simp only [editFirst_cons_of_neg hp]
      rw [ih fun b hb => h b (by rw [List.find?_cons_of_neg (by simp [hp]), hb])]

theorem editFirst_id (l : List α) : editFirst p id l = l := by
  induction l with
  | nil => rfl
  | cons a l ih => by_cases hp : p a = true <;> simp [editFirst, hp, ih]

theorem editFirst_eq_self {l : List α} (h : ∀ a, l.find? p = some a → f a = a) :
    editFirst p f l = l := by
  rw [editFirst_congr (g := id) h, editFirst_id]

theorem editFirst_eq_self_iff {l : List α} {a : α} (h : l.find? p = some a) :
    editFirst p f l = l ↔ f a = a := by
  induction l with
  | nil => simp at h
  | cons b l ih =>
    by_cases hp : p b = true
    · rw [List.find?_cons_of_pos hp, Option.some.injEq] at h
      subst h
      simp [editFirst, hp]
    · rw [List.find?_cons_of_neg hp] at h
      simp [editFirst, hp, ih h]

theorem editFirst_of_any_eq_false {l : List α} (h : l.any p = false) : editFirst p f l = l :=
  editFirst_eq_self fun a ha => by
    rw [find?_eq_none_iff_any.2 h] at ha
    cases ha

/-! ## What an edit keeps -/

@[simp] theorem length_editFirst (l : List α) : (editFirst p f l).length = l.length := by
  induction l with
  | nil => rfl
  | cons a l ih => by_cases hp : p a = true <;> simp [editFirst, hp, ih]

theorem map_editFirst {β : Type} {k : α → β} (h : ∀ a, p a = true → k (f a) = k a) (l : List α) :
    (editFirst p f l).map k = l.map k := by
  induction l with
  | nil => rfl
  | cons a l ih =>
    by_cases hp : p a = true
    · simp [editFirst, hp, h a hp]
    · simp [editFirst, hp, ih]

theorem mem_editFirst {b : α} {l : List α} (h : b ∈ editFirst p f l) :
    b ∈ l ∨ ∃ a ∈ l, p a = true ∧ b = f a := by
  induction l with
  | nil => cases h
  | cons a l ih =>
    by_cases hp : p a = true
    · rw [editFirst_cons_of_pos hp] at h
      rcases List.mem_cons.1 h with rfl | h
      · exact .inr ⟨a, by simp, hp, rfl⟩
      · exact .inl (List.mem_cons_of_mem _ h)
    · rw [editFirst_cons_of_neg (by simpa using hp)] at h
      rcases List.mem_cons.1 h with rfl | h
      · exact .inl (by simp)
      · exact (ih h).imp (List.mem_cons_of_mem _)
          fun ⟨c, hc, hpc⟩ => ⟨c, List.mem_cons_of_mem _ hc, hpc⟩

theorem find?_editFirst_self (h : ∀ a, p a = true → p (f a) = true) (l : List α) :
    (editFirst p f l).find? p = (l.find? p).map f := by
  induction l with
  | nil => rfl
  | cons a l ih =>
    by_cases hp : p a = true
    · simp [editFirst, hp, h a hp]
    · simp [editFirst, hp, ih]

/-! ## Edits in a row -/

theorem editFirst_editFirst (h : ∀ a, p a = true → p (g a) = true) (l : List α) :
    editFirst p f (editFirst p g l) = editFirst p (fun a => f (g a)) l := by
  induction l with
  | nil => rfl
  | cons a l ih =>
    by_cases hp : p a = true
    · simp [editFirst, hp, h a hp]
    · simp [editFirst, hp, ih]

/-- Edits of different elements can change places. -/
theorem editFirst_comm (hf : ∀ a, p a = true → q (f a) = q a) (hg : ∀ a, q a = true → p (g a) = p a)
    (hpq : ∀ a, p a = true → q a = false) (l : List α) :
    editFirst p f (editFirst q g l) = editFirst q g (editFirst p f l) := by
  induction l with
  | nil => rfl
  | cons a l ih =>
    by_cases hp : p a = true
    · simp [editFirst, hp, hpq a hp, hf a hp]
    · by_cases hq : q a = true
      · simp [editFirst, hp, hq, hg a hq]
      · simp [editFirst, hp, hq, ih]

/-- An edit that is made again later need not be made before. -/
theorem editFirst_absorb (hf : ∀ a, p a = true → p (f a) = true ∧ q (f a) = q a)
    (hg : ∀ a, q a = true → p (g a) = p a ∧ q (g a) = true)
    (hff : ∀ a, p a = true → f (f a) = f a)
    (hfg : ∀ a, p a = true → q a = true → f (g (f a)) = f (g a)) (l : List α) :
    editFirst p f (editFirst q g (editFirst p f l)) = editFirst p f (editFirst q g l) := by
  induction l with
  | nil => rfl
  | cons a l ih =>
    by_cases hp : p a = true
    · by_cases hq : q a = true
      · simp [editFirst, hp, hq, (hf a hp).2, (hg a hq).1, hg (f a) (by rw [(hf a hp).2, hq]),
          (hf a hp).1, hfg a hp hq]
      · simp [editFirst, hp, hq, hf a hp, hff a hp]
    · by_cases hq : q a = true
      · have hp' : p (g a) = false := by rw [(hg a hq).1]; simpa using hp
        simp only [editFirst, hp, hq, hp', Bool.false_eq_true, if_false, if_true]
        rw [editFirst_editFirst fun b hb => (hf b hb).1]
        rw [editFirst_congr fun b hb => hff b (List.find?_some hb)]
      · simp [editFirst, hp, hq, ih]

/-! ## New elements -/

theorem editFirst_insertIdx {a : α} (ha : p a = false) (k : Nat) (l : List α) :
    editFirst p f (l.insertIdx k a) = (editFirst p f l).insertIdx k a := by
  induction l generalizing k with
  | nil => cases k <;> simp [editFirst, ha]
  | cons b l ih =>
    cases k with
    | zero => simp [editFirst, ha]
    | succ k => by_cases hp : p b = true <;> simp [editFirst, hp, ih]

theorem editFirst_append {l : List α} (h : l.any p = true) (m : List α) :
    editFirst p f (l ++ m) = editFirst p f l ++ m := by
  induction l with
  | nil => simp at h
  | cons a l ih =>
    by_cases hp : p a = true
    · simp [editFirst, hp]
    · simp only [List.any_cons, hp, Bool.false_or] at h
      simp [editFirst, hp, ih h]

theorem find?_insertIdx_of_false {a : α} (ha : p a = false) (k : Nat) (l : List α) :
    (l.insertIdx k a).find? p = l.find? p := by
  induction l generalizing k with
  | nil => cases k <;> simp [ha]
  | cons b l ih => cases k <;> simp [ha, List.find?_cons, ih]

theorem any_insertIdx_of_any {l : List α} (h : l.any p = true) (k : Nat) (a : α) :
    (l.insertIdx k a).any p = true := by
  obtain ⟨b, hb, hp⟩ := List.any_eq_true.1 h
  exact List.any_eq_true.2 ⟨b, List.subset_insertIdx l k a hb, hp⟩

end EditFirst

end DomainScaffold.Merge
