import DomainScaffold.Files.Generate
import DomainScaffold.Files.Tree
import DomainScaffold.Proofs.Naming.Paths

/-!
# Writing below a directory

Files whose paths stay inside are written to places below the directory that a run is for; every
other file keeps its text.

Results:
* `prefix_placeOf`: where a path inside leads to from a directory.
* `textAt?_write`: what one write keeps.
* `textAt?_writeAll`: what writing all files of a report keeps.
-/

namespace DomainScaffold.FileTree

/-- The place that a path leads to if everything on the way exists. -/
def placeOf (t : FileTree) (path : Path) : Except Failure Place :=
  (Text.splitOn '/' path.text).foldlM follow (t.start path)

/-- The text of the file at a place. -/
def textAt? (t : FileTree) (place : Place) : Option String :=
  match t.found? place with
  | some (.file text) => some text
  | _ => none

section Follow

variable {t made : FileTree} {place next : Place} {pieces rest : List String} {path root p : Path}

theorem placeOf_of_walk (h : t.walk place pieces = .ok next) :
    pieces.foldlM follow place = .ok next := by
  induction pieces generalizing place with
  | nil => exact h
  | cons piece pieces ih =>
    rw [walk] at h
    split at h
    · cases h
    · cases h
    · rw [List.foldlM_cons]
      split at h
      · cases h
      · rename_i middle hmiddle
        rw [hmiddle]
        exact ih h

theorem placeOf_of_locate (h : t.locate path = .ok place) : t.placeOf path = .ok place := by
  unfold locate at h
  split at h
  · cases h
  · split at h
    · cases h
    · exact placeOf_of_walk h

theorem prefix_of_follow {piece : String} (h : follow place piece = .ok next)
    (hpiece : piece ≠ "..") : place <+: next := by
  unfold follow at h
  rw [if_neg hpiece] at h
  split at h
  · cases h
    exact List.prefix_refl _
  · split at h
    · cases h
    · cases h
      exact List.prefix_append _ _

/-- Without parent steps a path leads downwards. -/
theorem prefix_of_foldlM_follow (h : pieces.foldlM follow place = .ok next)
    (hpieces : ".." ∉ pieces) : place <+: next := by
  induction pieces generalizing place with
  | nil =>
    cases h
    exact List.prefix_refl _
  | cons piece pieces ih =>
    rw [List.mem_cons, not_or] at hpieces
    rw [List.foldlM_cons] at h
    cases hmiddle : follow place piece with
    | error e =>
      rw [hmiddle] at h
      cases h
    | ok middle =>
      rw [hmiddle] at h
      exact (prefix_of_follow hmiddle (Ne.symm hpieces.1)).trans (ih h hpieces.2)

/-- A path inside leads below the directory that it is seen from. -/
theorem prefix_placeOf (hp : p.isInside = true) (h : t.placeOf (root.join p) = .ok place) :
    ∃ base, t.placeOf root = .ok base ∧ base <+: place := by
  obtain ⟨hrelative, hpieces⟩ := Path.isInside_iff.1 hp
  have hdown : ".." ∉ Text.splitOn '/' p.text := fun hmem => by
    obtain ⟨piece, hpiece, heq⟩ := List.mem_map.1 hmem
    have hdots : piece = ['.', '.'] := by rw [← String.toList_ofList (l := piece), heq]; rfl
    exact hpieces (hdots ▸ hpiece)
  have hstart : t.start (root.join p) = t.start root := by
    rw [start, start, Path.isAbsolute_join hrelative]
  rw [placeOf, hstart] at h
  rw [placeOf]
  generalize t.start root = place' at h
  rw [Text.splitOn] at h hdown ⊢
  rcases Path.toList_join (p := root) hrelative with ⟨hjoin, hroot⟩ | ⟨base, hjoin, hroot⟩
  · rw [hjoin] at h
    rw [hroot]
    exact ⟨place', rfl, prefix_of_foldlM_follow h hdown⟩
  · rw [hjoin, Text.splitAt_append_cons (by rfl), List.map_append, List.foldlM_append] at h
    cases hmiddle : ((Text.splitAt (· == '/') base).map String.ofList).foldlM follow place' with
    | error e =>
      rw [hmiddle] at h
      cases h
    | ok middle =>
      rw [hmiddle] at h
      refine ⟨middle, ?_, prefix_of_foldlM_follow h hdown⟩
      rcases hroot with ⟨hroot, -⟩ | hroot
      · rw [hroot, hmiddle]
      · rw [hroot, Text.splitAt_append_cons (by rfl), List.map_append, List.foldlM_append, hmiddle]
        rfl

/-! ## Writes -/

theorem files_makeDirs : (t.makeDirs place pieces).1.files = t.files ∧
    (t.makeDirs place pieces).1.work = t.work := by
  induction pieces generalizing t place with
  | nil => exact ⟨rfl, rfl⟩
  | cons piece pieces ih =>
    rw [makeDirs]
    split
    · exact ⟨rfl, rfl⟩
    · split
      · exact ih
      · exact ⟨rfl, rfl⟩
      · exact ih

theorem files_withDirs (t : FileTree) (path : Path) :
    (t.withDirs path).1.files = t.files ∧ (t.withDirs path).1.work = t.work := by
  unfold withDirs
  split
  · exact ⟨rfl, rfl⟩
  · split
    · exact ⟨rfl, rfl⟩
    · exact files_makeDirs

/-- What is in the files does not depend on the directories. -/
theorem textAt?_congr (h : made.files = t.files) : made.textAt? place = t.textAt? place := by
  have htext : ∀ t : FileTree, t.textAt? place = (t.files.find? (·.1 == place)).map Prod.snd := by
    intro t
    unfold textAt? found?
    cases t.files.find? (·.1 == place) with
    | some f => rfl
    | none => dsimp only; split <;> simp_all
  rw [htext, htext, h]

theorem textAt?_withText {text : String} {other : Place} {done : FileTree}
    (h : t.withText path text = .ok done)
    (hother : ∀ place, t.placeOf path = .ok place → other ≠ place) :
    done.textAt? other = t.textAt? other ∧ done.work = t.work := by
  unfold withText at h
  split at h
  · cases h
  · rename_i place hplace
    split at h
    · cases h
    · cases h
      have hne : other ≠ place := hother place (placeOf_of_locate hplace)
      exact ⟨by rw [textAt?, textAt?, found?_putFile_of_ne t hne], rfl⟩

/-- A write keeps the texts of all files but the one that its path leads to. -/
theorem textAt?_write {text : String} {other : Place}
    (h : ∀ place, t.placeOf path = .ok place → other ≠ place) :
    (t.write path text).2.textAt? other = t.textAt? other ∧
      (t.write path text).2.work = t.work := by
  obtain ⟨hfiles, hwork⟩ := files_withDirs t path.parent
  have htext : (t.withDirs path.parent).1.textAt? other = t.textAt? other := textAt?_congr hfiles
  have hplace : (t.withDirs path.parent).1.placeOf path = t.placeOf path := by
    rw [placeOf, placeOf, start, start, hwork]
  unfold write
  generalize t.withDirs path.parent = result at *
  obtain ⟨made, dirs⟩ := result
  dsimp only at *
  split
  · exact ⟨htext, hwork⟩
  · split
    · exact ⟨htext, hwork⟩
    · rename_i done hdone
      obtain ⟨hdoneText, hdoneWork⟩ := textAt?_withText hdone (hplace ▸ h)
      exact ⟨hdoneText.trans htext, hdoneWork.trans hwork⟩

/-- After the first file the others are written, unless it failed. -/
theorem writeAll_cons (f : GeneratedFile) (files : List GeneratedFile) :
    ((writeAll access root (f :: files)).run t).2 =
      match t.write (root.join f.path) f.text with
      | (.error _, t') => t'
      | (.ok _, t') => ((writeAll access root files).run t').2 := by
  rw [writeAll]
  generalize writeAll access root files = others
  simp only [ExceptT.run, bind, ExceptT.bind, ExceptT.mk, StateT.bind, access]
  obtain ⟨outcome, t'⟩ := t.write (root.join f.path) f.text
  cases outcome with
  | error e => rfl
  | ok done =>
    simp only [ExceptT.bindCont, StateT.bind, bind]
    obtain ⟨count, t''⟩ := others t'
    cases count <;> rfl

/-- Writing files whose paths are inside keeps the texts of all files that are not below the
    directory. -/
theorem textAt?_writeAll {files : List GeneratedFile} {other : Place}
    (hfiles : ∀ f ∈ files, f.path.isInside = true)
    (hother : ∀ base, t.placeOf root = .ok base → ¬ base <+: other) :
    ((writeAll access root files).run t).2.textAt? other = t.textAt? other := by
  induction files generalizing t with
  | nil => rfl
  | cons f files ih =>
    rw [List.forall_mem_cons] at hfiles
    have hne : ∀ place, t.placeOf (root.join f.path) = .ok place → other ≠ place := by
      rintro place hplace rfl
      obtain ⟨base, hbase, hbelow⟩ := prefix_placeOf hfiles.1 hplace
      exact hother base hbase hbelow
    obtain ⟨htext, hwork⟩ := @textAt?_write t (root.join f.path) f.text other hne
    rw [writeAll_cons]
    generalize t.write (root.join f.path) f.text = result at *
    obtain ⟨outcome, t'⟩ := result
    cases outcome with
    | error e => exact htext
    | ok done =>
      have hroot : t'.placeOf root = t.placeOf root := by
        rw [placeOf, placeOf, start, start, hwork]
      exact (ih hfiles.2 (hroot ▸ hother)).trans htext

end Follow

end DomainScaffold.FileTree
