/-!
# Fields in insertion order

A list of keys and values that keeps the order in which keys were first written. Writing a key
again changes its value and keeps its place; removing a key moves the last entry into the gap.

Results:
* `find?_insert_self`, `find?_insert_of_ne`: what is found after a write.
* `keys_insert`: a write appends a new key and moves no other.
* `DistinctKeys.insert`, `DistinctKeys.ofPairs`: written lists repeat no key.
-/

namespace DomainScaffold

/-- Keys with values, in the order of their first insertion. -/
abbrev Fields (α : Type) := List (String × α)

namespace Fields

variable {α β : Type}

/-- The value of the first entry with the key. -/
def find? (key : String) : Fields α → Option α
  | [] => none
  | (k, v) :: rest => if k = key then some v else find? key rest

/-- Whether some entry has the key. -/
def has (key : String) (fs : Fields α) : Bool := (find? key fs).isSome

/-- Sets the value of a key in place, or appends the key. -/
def insert (key : String) (value : α) : Fields α → Fields α
  | [] => [(key, value)]
  | (k, v) :: rest => if k = key then (key, value) :: rest else (k, v) :: insert key value rest

/-- The entries written one after the other. -/
def ofPairs (pairs : List (String × α)) : Fields α :=
  pairs.foldl (fun fs p => insert p.1 p.2 fs) []

/-- The keys in order. -/
def keys (fs : Fields α) : List String := fs.map Prod.fst

/-- Puts `entry` in the place of the first entry with the key. -/
def overwrite (key : String) (entry : String × α) : Fields α → Fields α
  | [] => []
  | (k, v) :: rest => if k = key then entry :: rest else (k, v) :: overwrite key entry rest

/-- Removes a key; the last entry takes its place. -/
def remove (key : String) (fs : Fields α) : Fields α :=
  match fs.getLast? with
  | none => []
  | some last => if last.1 = key then fs.dropLast
    else if has key fs then overwrite key last fs.dropLast else fs

/-- The same keys with each value replaced. -/
def mapValues (f : α → β) (fs : Fields α) : Fields β := fs.map fun p => (p.1, f p.2)

/-! ## Laws -/

/-- No key occurs twice. -/
def DistinctKeys (fs : Fields α) : Prop := fs.keys.Nodup

theorem find?_insert_self (key : String) (value : α) (fs : Fields α) :
    find? key (insert key value fs) = some value := by
  induction fs with
  | nil => simp [insert, find?]
  | cons p rest ih =>
    obtain ⟨k, v⟩ := p
    by_cases h : k = key <;> simp [insert, find?, h, ih]

theorem find?_insert_of_ne {key other : String} (h : other ≠ key) (value : α) (fs : Fields α) :
    find? other (insert key value fs) = find? other fs := by
  induction fs with
  | nil => simp [insert, find?, h.symm]
  | cons p rest ih =>
    obtain ⟨k, v⟩ := p
    by_cases hk : k = key
    · subst hk; simp [insert, find?, h.symm]
    · by_cases ho : k = other
      · subst ho; simp [insert, find?, hk]
      · simp [insert, find?, hk, ho, ih]

theorem mem_of_find? {key : String} {value : α} {fs : Fields α} (h : find? key fs = some value) :
    (key, value) ∈ fs := by
  induction fs with
  | nil => cases h
  | cons p rest ih =>
    obtain ⟨k, v⟩ := p
    rw [find?] at h
    split at h
    · rename_i hk
      cases h
      rw [hk]
      exact List.mem_cons_self
    · exact List.mem_cons_of_mem _ (ih h)

theorem mem_of_mem_insert {key : String} {value : α} {p : String × α} {fs : Fields α}
    (h : p ∈ insert key value fs) : p = (key, value) ∨ p ∈ fs := by
  induction fs with
  | nil => exact .inl (List.mem_singleton.1 h)
  | cons q fs ih =>
    rw [insert] at h
    split at h
    · exact (List.mem_cons.1 h).imp_right (List.mem_cons_of_mem _)
    · rcases List.mem_cons.1 h with rfl | h
      · exact .inr List.mem_cons_self
      · exact (ih h).imp_right (List.mem_cons_of_mem _)

theorem find?_eq_none_iff {key : String} {fs : Fields α} :
    find? key fs = none ↔ key ∉ fs.keys := by
  induction fs with
  | nil => simp [find?, keys]
  | cons p rest ih =>
    obtain ⟨k, v⟩ := p
    by_cases h : k = key
    · simp [find?, keys, h]
    · have h' : ¬ key = k := fun e => h e.symm
      simp only [keys] at ih
      simp [find?, keys, h, h', ih]

theorem keys_insert (key : String) (value : α) (fs : Fields α) :
    (insert key value fs).keys = if key ∈ fs.keys then fs.keys else fs.keys ++ [key] := by
  induction fs with
  | nil => simp [insert, keys]
  | cons p rest ih =>
    obtain ⟨k, v⟩ := p
    simp only [keys] at ih
    by_cases h : k = key
    · simp [insert, keys, h]
    · have h' : ¬ key = k := fun e => h e.symm
      simp only [insert, h, if_false, keys, List.map_cons, ih, List.mem_cons, h', false_or]
      split <;> simp_all

theorem DistinctKeys.insert {fs : Fields α} (h : DistinctKeys fs) (key : String) (value : α) :
    DistinctKeys (Fields.insert key value fs) := by
  unfold DistinctKeys at h ⊢
  rw [keys_insert]
  split
  · exact h
  · rename_i hk
    rw [List.nodup_append]
    exact ⟨h, by simp, by intro a ha b hb; simp at hb; subst hb; rintro rfl; exact hk ha⟩

theorem DistinctKeys.ofPairs (pairs : List (String × α)) : DistinctKeys (ofPairs pairs) := by
  suffices h : ∀ fs : Fields α, DistinctKeys fs →
      DistinctKeys (pairs.foldl (fun fs p => Fields.insert p.1 p.2 fs) fs) from
    h [] (by simp [DistinctKeys, keys])
  induction pairs with
  | nil => intro fs h; exact h
  | cons p pairs ih => intro fs h; exact ih _ (h.insert p.1 p.2)

end Fields

end DomainScaffold
