import DomainScaffold.Fields
import DomainScaffold.Proofs.Occurrences

/-!
# Written and removed fields

What a list of fields holds after its entries were written one after the other, and after one was
removed.

Results:
* `mem_of_mem_ofPairs`, `keys_ofPairs`: entries and keys of what was written.
* `find?_ofPairs`, `ofPairs_of_distinct`: the last pair with a key is kept, and distinct keys are
  written as they stand.
* `find?_remove_self`, `find?_remove_of_ne`: what is found after a removal.
-/

namespace DomainScaffold.Fields

variable {α : Type} {key other : String} {value : α} {p : String × α} {fs gs : Fields α}
  {pairs : List (String × α)}

/-! ## Writing -/

theorem ofPairs_concat (pairs : List (String × α)) (p : String × α) :
    ofPairs (pairs ++ [p]) = insert p.1 p.2 (ofPairs pairs) := by
  rw [ofPairs, List.foldl_append]
  rfl

theorem mem_of_mem_ofPairs (h : p ∈ ofPairs pairs) : p ∈ pairs := by
  induction pairs using List.reverseRecOn with
  | nil => cases h
  | append_singleton pairs q ih =>
    rw [ofPairs_concat] at h
    rcases mem_of_mem_insert h with rfl | h
    · exact List.mem_append_right _ List.mem_cons_self
    · exact List.mem_append_left _ (ih h)

/-- The keys of written pairs, each once. -/
theorem keys_ofPairs (pairs : List (String × α)) :
    (ofPairs pairs).keys = (pairs.map Prod.fst).eraseDups := by
  induction pairs using List.reverseRecOn with
  | nil => rfl
  | append_singleton pairs p ih =>
    rw [ofPairs_concat, keys_insert, ih, List.map_append, List.map_singleton, eraseDups_concat]
    simp only [List.mem_eraseDups]

theorem insert_of_not_mem (h : key ∉ fs.keys) (value : α) :
    insert key value fs = fs ++ [(key, value)] := by
  induction fs with
  | nil => rfl
  | cons q fs ih =>
    rw [keys, List.map_cons, List.mem_cons, not_or] at h
    rw [insert, if_neg (Ne.symm h.1), ih h.2, List.cons_append]

/-- Pairs with distinct keys are written as they stand. -/
theorem ofPairs_of_distinct (h : DistinctKeys pairs) : ofPairs pairs = pairs := by
  induction pairs using List.reverseRecOn with
  | nil => rfl
  | append_singleton pairs p ih =>
    rw [DistinctKeys, keys, List.map_append, List.nodup_append] at h
    obtain ⟨hpairs, -, hp⟩ := h
    rw [ofPairs_concat, ih hpairs, insert_of_not_mem]
    exact fun hmem => hp _ hmem _ List.mem_cons_self rfl

theorem find?_append (key : String) (fs gs : Fields α) :
    find? key (fs ++ gs) = (find? key fs).or (find? key gs) := by
  induction fs with
  | nil => rfl
  | cons p fs ih =>
    rw [List.cons_append, find?, find?, ih]
    split <;> rfl

/-- Of the pairs with one key, the last one is kept. -/
theorem find?_ofPairs (key : String) (pairs : List (String × α)) :
    find? key (ofPairs pairs) = find? key pairs.reverse := by
  induction pairs using List.reverseRecOn with
  | nil => rfl
  | append_singleton pairs p ih =>
    rw [ofPairs_concat, List.reverse_append, List.reverse_singleton, List.singleton_append, find?]
    split
    · rename_i h
      rw [← h, find?_insert_self]
    · rename_i h
      rw [find?_insert_of_ne (Ne.symm h), ih]

theorem find?_of_mem (h : DistinctKeys fs) (hp : (key, value) ∈ fs) :
    find? key fs = some value := by
  induction fs with
  | nil => cases hp
  | cons q fs ih =>
    obtain ⟨hq, hfs⟩ := List.nodup_cons.1 h
    rw [find?]
    rcases List.mem_cons.1 hp with rfl | hp
    · rw [if_pos rfl]
    · have hkey : key ∈ keys fs := List.mem_map_of_mem (f := Prod.fst) hp
      rw [if_neg (ne_of_mem_of_not_mem hkey hq).symm]
      exact ih hfs hp

theorem find?_eq_some_iff (h : DistinctKeys fs) :
    find? key fs = some value ↔ (key, value) ∈ fs :=
  ⟨mem_of_find?, find?_of_mem h⟩

/-- A pair is kept if its key is not written again with another value. -/
theorem mem_ofPairs_iff (first : List (String × α)) {last : List (String × α)} (h : (key, value) ∉ last) :
    (key, value) ∈ ofPairs (first ++ (key, value) :: last) ↔ key ∉ last.map Prod.fst := by
  rw [← find?_eq_some_iff (DistinctKeys.ofPairs _), find?_ofPairs, List.reverse_append,
    List.reverse_cons, List.append_assoc, find?_append]
  cases hlast : find? key last.reverse with
  | none =>
    rw [find?_eq_none_iff, keys, List.map_reverse, List.mem_reverse] at hlast
    simp [hlast, find?]
  | some other =>
    have hother : (key, other) ∈ last := List.mem_reverse.1 (mem_of_find? hlast)
    have hne : other ≠ value := by
      rintro rfl
      exact h hother
    have hkey : key ∈ last.map Prod.fst := List.mem_map_of_mem (f := Prod.fst) hother
    simp [hne, hkey]

/-! ## Removing -/

theorem DistinctKeys.perm (h : DistinctKeys fs) (hperm : fs.Perm gs) : DistinctKeys gs :=
  (hperm.map Prod.fst).nodup_iff.1 h

/-- The order of distinct keys does not count. -/
theorem find?_perm (h : DistinctKeys fs) (hperm : fs.Perm gs) : find? key fs = find? key gs := by
  refine Option.ext fun value => ?_
  rw [find?_eq_some_iff h, find?_eq_some_iff (h.perm hperm), hperm.mem_iff]

/-- The entries with other keys. -/
def without (key : String) (fs : Fields α) : Fields α := fs.filter fun p => p.1 != key

theorem DistinctKeys.without (h : DistinctKeys fs) (key : String) :
    DistinctKeys (without key fs) :=
  List.Nodup.sublist (List.filter_sublist.map Prod.fst) h

theorem without_cons (key : String) (p : String × α) (fs : Fields α) :
    without key (p :: fs) = if p.1 = key then without key fs else p :: without key fs := by
  rw [without, List.filter_cons]
  by_cases h : p.1 = key <;> simp [h, without]

theorem find?_without_self (key : String) (fs : Fields α) : find? key (without key fs) = none := by
  induction fs with
  | nil => rfl
  | cons p fs ih =>
    rw [without_cons]
    split
    · exact ih
    · rename_i hp
      rw [find?, if_neg hp, ih]

theorem find?_without_of_ne (h : other ≠ key) (fs : Fields α) :
    find? other (without key fs) = find? other fs := by
  induction fs with
  | nil => rfl
  | cons p fs ih =>
    rw [without_cons, find?]
    split
    · rename_i hp
      rw [if_neg (hp ▸ h.symm), ih]
    · rw [find?, ih]

theorem without_of_not_mem (h : key ∉ keys fs) : without key fs = fs := by
  rw [without, List.filter_eq_self]
  rintro p hp
  have hne : p.1 ≠ key := by
    rintro rfl
    exact h (List.mem_map_of_mem (f := Prod.fst) hp)
  simpa using hne

theorem overwrite_perm (h : DistinctKeys fs) (hkey : key ∈ keys fs) (entry : String × α) :
    (overwrite key entry fs).Perm (entry :: without key fs) := by
  induction fs with
  | nil => cases hkey
  | cons p fs ih =>
    obtain ⟨hp, hfs⟩ := List.nodup_cons.1 h
    rw [overwrite, without_cons]
    by_cases heq : p.1 = key
    · subst heq
      rw [if_pos rfl, if_pos rfl, without_of_not_mem hp]
    · have hmem : key ∈ keys fs := (List.mem_cons.1 hkey).resolve_left fun h => heq h.symm
      rw [if_neg heq, if_neg heq]
      exact ((ih hfs hmem).cons p).trans (List.Perm.swap _ _ _)

theorem has_iff : has key fs = true ↔ key ∈ keys fs := by
  rw [has, ← Bool.not_eq_false, Option.isSome_eq_false_iff, Option.isNone_iff_eq_none,
    find?_eq_none_iff, not_not]

/-- What is left after a removal are the entries with other keys. -/
theorem remove_perm (h : DistinctKeys fs) (key : String) :
    (remove key fs).Perm (without key fs) := by
  cases fs using List.reverseRecOn with
  | nil => exact .nil
  | append_singleton fs last =>
    rw [DistinctKeys, keys, List.map_append, List.nodup_append] at h
    obtain ⟨hfs, -, hlast⟩ := h
    have hother : last.1 ∉ keys fs := fun hmem => hlast _ hmem _ List.mem_cons_self rfl
    rw [remove, List.getLast?_concat, List.dropLast_concat, without, List.filter_append]
    dsimp only
    by_cases heq : last.1 = key
    · subst heq
      rw [if_pos rfl, ← without, without_of_not_mem hother]
      simp
    · have hhas : has key (fs ++ [last]) = true ↔ key ∈ keys fs := by
        rw [has_iff, keys, List.map_append, List.mem_append, List.map_singleton,
          List.mem_singleton, or_iff_left (Ne.symm heq), keys]
      rw [if_neg heq, ← without, List.filter_cons_of_pos (by simpa using heq)]
      split
      · rename_i hkey
        exact (overwrite_perm hfs (hhas.1 hkey) last).trans (List.perm_append_singleton _ _).symm
      · rename_i hkey
        rw [without_of_not_mem (mt hhas.2 hkey)]
        rfl

theorem DistinctKeys.remove (h : DistinctKeys fs) (key : String) :
    DistinctKeys (Fields.remove key fs) :=
  (h.without key).perm (remove_perm h key).symm

theorem find?_remove_self (h : DistinctKeys fs) (key : String) :
    find? key (remove key fs) = none := by
  rw [find?_perm (h.remove key) (remove_perm h key), find?_without_self]

theorem find?_remove_of_ne (h : DistinctKeys fs) (hne : other ≠ key) :
    find? other (remove key fs) = find? other fs := by
  rw [find?_perm (h.remove key) (remove_perm h key), find?_without_of_ne hne]

end DomainScaffold.Fields
