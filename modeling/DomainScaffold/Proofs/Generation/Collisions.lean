import DomainScaffold.Proofs.Generation.HandWritten

/-!
# Artifacts for one file

The first artifact for a file decides what else goes into it: parts of a class of the same report
name, or the same text. What is refused is reported, and the plan is the one without it.

Results:
* `firsts_add`, `firstFor_addAll`: what is taken depends on the first artifacts of the files only.
* `refuses_iff`: an artifact is reported and left out when the first one for its file cannot share.
* `refuses_sharedFile_iff`: when elements share nothing but description classes and finders.
* `sameNamed_shares`: two events in one class, of which nothing is reported.
-/

namespace DomainScaffold

open Merge

/-! ## First artifacts -/

/-- Whether an artifact may go into the file that another one was the first for. -/
def Artifact.shares (first a : Artifact) : Bool :=
  match first.content, a.content with
  | .code set, .code set' => first.name == a.name && set.sameClass set'
  | .verbatim text, .verbatim text' => text == text'
  | _, _ => false

namespace PlannedFile

/-- The artifact that a file was planned for first. -/
def first (f : PlannedFile) : Artifact :=
  ⟨f.name, f.path, match f.content with
    | .code set _ => .code set
    | .verbatim text => .verbatim text⟩

variable {f g : PlannedFile} {a : Artifact}

theorem first_ofArtifact (a : Artifact) : (ofArtifact a).first = a := by
  obtain ⟨name, path, content⟩ := a
  cases content <;> rfl

theorem first_with? (h : f.with? a = some g) : g.first = f.first := by
  unfold with? at h
  split at h
  · rename_i hcode _
    split at h
    · cases h
      simp only [first, hcode]
    · cases h
  · split at h
    · cases h
      rfl
    · cases h
  · cases h

theorem with?_eq_none_iff : f.with? a = none ↔ f.first.shares a = false := by
  obtain ⟨path, name, content⟩ := f
  obtain ⟨name', path', content'⟩ := a
  cases content <;> cases content' <;> simp [with?, first, Artifact.shares]

end PlannedFile

namespace FilePlan

/-- The first artifacts of the files. -/
def firsts (plan : FilePlan) : List Artifact := plan.map PlannedFile.first

/-- The first artifact for a path. -/
def firstFor (artifacts : List Artifact) (path : Path) : Option Artifact :=
  artifacts.find? fun f => f.path.same path

/-- The first artifacts with another artifact, if its file can take it. -/
def addFirst (a : Artifact) (heads : List Artifact) : Option (List Artifact) :=
  match firstFor heads a.path with
  | none => some (heads ++ [a])
  | some f => if f.shares a then some heads else none

section Add

variable {plan plan' : FilePlan} {a : Artifact} {artifacts before rest : List Artifact}
  {path other : Path}

theorem firstFor_append (artifacts rest : List Artifact) (path : Path) :
    firstFor (artifacts ++ rest) path = (firstFor artifacts path).or (firstFor rest path) :=
  List.find?_append

theorem firstFor_cons_of_same (h : a.path.same path = true) :
    firstFor (a :: artifacts) path = some a :=
  List.find?_cons_of_pos h

theorem firstFor_cons_of_not_same (h : a.path.same path = false) :
    firstFor (a :: artifacts) path = firstFor artifacts path :=
  List.find?_cons_of_neg (Bool.eq_false_iff.1 h)

theorem firstFor_congr (h : path.same other = true) (artifacts : List Artifact) :
    firstFor artifacts path = firstFor artifacts other := by
  have hpaths : ∀ f : Artifact, f.path.same path = f.path.same other := fun f => by
    rw [Bool.eq_iff_iff, Path.same_iff, Path.same_iff, Path.same_iff.1 h]
  simp only [firstFor, hpaths]

/-- An artifact whose file is taken is the first for none. -/
theorem firstFor_append_cons (h : firstFor artifacts a.path ≠ none) (path : Path) :
    firstFor (artifacts ++ a :: rest) path = firstFor (artifacts ++ rest) path := by
  rw [firstFor_append, firstFor_append]
  cases hsame : a.path.same path with
  | true =>
    obtain ⟨f, hf⟩ := Option.ne_none_iff_exists'.1 h
    rw [← firstFor_congr hsame, hf, Option.some_or, Option.some_or]
  | false => rw [firstFor_cons_of_not_same hsame]

theorem firsts_add (a : Artifact) (plan : FilePlan) :
    (add a plan).toOption.map firsts = addFirst a (firsts plan) := by
  induction plan with
  | nil => exact congrArg (fun f => some [f]) (PlannedFile.first_ofArtifact a)
  | cons f plan ih =>
    rw [addFirst] at ih ⊢
    rw [add, firsts, List.map_cons, ← firsts]
    cases hpath : f.path.same a.path with
    | true =>
      rw [if_pos rfl, firstFor_cons_of_same (show f.first.path.same a.path = true from hpath)]
      cases hwith : f.with? a with
      | none => simp [PlannedFile.with?_eq_none_iff.1 hwith, Except.toOption]
      | some g =>
        have hshares : f.first.shares a = true := by
          rw [← Bool.not_eq_false, ← PlannedFile.with?_eq_none_iff, hwith]
          exact Option.some_ne_none g
        simp [Except.toOption, firsts, PlannedFile.first_with? hwith, hshares]
    | false =>
      have hcons : ((add a plan).map (f :: ·)).toOption.map firsts =
          ((add a plan).toOption.map firsts).map (f.first :: ·) := by
        cases add a plan <;> rfl
      rw [if_neg Bool.false_ne_true, hcons, ih,
        firstFor_cons_of_not_same (show f.first.path.same a.path = false from hpath)]
      cases firstFor (firsts plan) a.path with
      | none => rfl
      | some g => cases hshares : g.shares a <;> simp [hshares]

theorem addAll_of_ok (h : add a plan = .ok plan') :
    addAll plan (a :: artifacts) = addAll plan' artifacts := by
  rw [addAll, h]

theorem addAll_of_error {e : GenerationError} (h : add a plan = .error e) :
    addAll plan (a :: artifacts) = ((addAll plan artifacts).1, e :: (addAll plan artifacts).2) := by
  rw [addAll, h]

theorem firstFor_firsts (plan : FilePlan) (path : Path) :
    firstFor plan.firsts path = (plan.file? path).map PlannedFile.first := by
  rw [firstFor, firsts, List.find?_map]
  rfl

theorem add_eq_error_iff_shares {e : GenerationError} :
    add a plan = .error e ↔ ∃ f, firstFor plan.firsts a.path = some f ∧ f.shares a = false ∧
      e = .fileCollision a.path.text f.name a.name := by
  rw [add_eq_error_iff, firstFor_firsts]
  constructor
  · rintro ⟨f, hf, hwith, rfl⟩
    exact ⟨f.first, by rw [hf]; rfl, PlannedFile.with?_eq_none_iff.1 hwith, rfl⟩
  · rintro ⟨first, hfirst, hshares, rfl⟩
    obtain ⟨f, hf, rfl⟩ := Option.map_eq_some_iff.1 hfirst
    exact ⟨f, hf, PlannedFile.with?_eq_none_iff.2 hshares, rfl⟩

theorem firstFor_addAll (plan : FilePlan) (artifacts : List Artifact) (path : Path) :
    firstFor (addAll plan artifacts).1.firsts path = firstFor (plan.firsts ++ artifacts) path := by
  induction artifacts generalizing plan with
  | nil => rw [List.append_nil]; rfl
  | cons a artifacts ih =>
    have hadd := firsts_add a plan
    cases hplan : add a plan with
    | error e =>
      obtain ⟨f, hf, -⟩ := add_eq_error_iff_shares.1 hplan
      have htaken : firstFor plan.firsts a.path ≠ none := by rw [hf]; exact Option.some_ne_none f
      rw [addAll_of_error hplan, ih, firstFor_append_cons htaken]
    | ok next =>
      rw [addAll_of_ok hplan, ih]
      rw [hplan, addFirst] at hadd
      split at hadd
      · rw [Option.some.inj hadd, List.append_assoc]
        rfl
      · rename_i f hf
        split at hadd
        · have htaken : firstFor plan.firsts a.path ≠ none := by
            rw [hf]
            exact Option.some_ne_none f
          rw [Option.some.inj hadd, firstFor_append_cons htaken]
        · cases hadd

/-- What a file was planned for first is one of the artifacts. -/
theorem firsts_addAll_subset (plan : FilePlan) (artifacts : List Artifact) :
    (addAll plan artifacts).1.firsts ⊆ plan.firsts ++ artifacts := by
  induction artifacts generalizing plan with
  | nil => exact List.subset_append_left _ _
  | cons a artifacts ih =>
    have hrest : artifacts ⊆ plan.firsts ++ a :: artifacts :=
      List.Subset.trans (List.subset_cons_self a artifacts) (List.subset_append_right _ _)
    cases hplan : add a plan with
    | error e =>
      rw [addAll_of_error hplan]
      exact List.Subset.trans (ih plan)
        (List.append_subset.2 ⟨List.subset_append_left _ _, hrest⟩)
    | ok next =>
      have hadd := firsts_add a plan
      rw [hplan, addFirst] at hadd
      have hnext : next.firsts ⊆ plan.firsts ++ a :: artifacts := by
        split at hadd
        · rw [Option.some.inj hadd, List.append_cons plan.firsts a artifacts]
          exact List.subset_append_left _ _
        · split at hadd
          · rw [Option.some.inj hadd]
            exact List.subset_append_left _ _
          · cases hadd
      rw [addAll_of_ok hplan]
      exact List.Subset.trans (ih next) (List.append_subset.2 ⟨hnext, hrest⟩)

theorem addAll_append (plan : FilePlan) (before rest : List Artifact) :
    addAll plan (before ++ rest) = ((addAll (addAll plan before).1 rest).1,
      (addAll plan before).2 ++ (addAll (addAll plan before).1 rest).2) := by
  induction before generalizing plan with
  | nil => rfl
  | cons a before ih =>
    rw [List.cons_append]
    cases hplan : add a plan with
    | error e => rw [addAll_of_error hplan, addAll_of_error hplan, ih, List.cons_append]
    | ok next => rw [addAll_of_ok hplan, addAll_of_ok hplan, ih]

/-- What is refused depends on the first artifacts only. -/
theorem errors_addAll_congr (h : plan.firsts = plan'.firsts) (artifacts : List Artifact) :
    (addAll plan artifacts).2 = (addAll plan' artifacts).2 := by
  induction artifacts generalizing plan plan' with
  | nil => rfl
  | cons a artifacts ih =>
    have hadd : (add a plan).toOption.map firsts = (add a plan').toOption.map firsts := by
      rw [firsts_add, firsts_add, h]
    cases hplan : add a plan with
    | error e =>
      have hplan' : add a plan' = .error e := by
        rwa [add_eq_error_iff_shares, ← h, ← add_eq_error_iff_shares]
      rw [addAll_of_error hplan, addAll_of_error hplan', ih h]
    | ok next =>
      cases hplan' : add a plan' with
      | error e => rw [hplan, hplan'] at hadd; cases hadd
      | ok next' =>
        rw [hplan, hplan'] at hadd
        rw [addAll_of_ok hplan, addAll_of_ok hplan', ih (Option.some.inj hadd)]

variable {first : Artifact}

/-- An artifact that cannot share the file of an earlier one is reported and left out. -/
theorem ofArtifacts_of_not_shares (rest : List Artifact)
    (hfirst : firstFor before a.path = some first) (hshares : first.shares a = false) :
    ∃ collisions collisions',
      (ofArtifacts (before ++ rest)).2 = collisions ++ collisions' ∧
      ofArtifacts (before ++ a :: rest) = ((ofArtifacts (before ++ rest)).1,
        collisions ++ .fileCollision a.path.text first.name a.name :: collisions') := by
  have hadd : add a (ofArtifacts before).1 =
      .error (.fileCollision a.path.text first.name a.name) :=
    add_eq_error_iff_shares.2
      ⟨first, (firstFor_addAll [] before a.path).trans hfirst, hshares, rfl⟩
  refine ⟨(ofArtifacts before).2, (addAll (ofArtifacts before).1 rest).2, ?_, ?_⟩
  · rw [ofArtifacts, addAll_append, ← ofArtifacts]
  · rw [ofArtifacts, ofArtifacts, addAll_append, addAll_append, ← ofArtifacts, addAll_of_error hadd]

/-- An artifact that shares the file of an earlier one is not reported. -/
theorem errors_ofArtifacts_of_shares (hfirst : firstFor before a.path = some first)
    (hshares : first.shares a = true) :
    (ofArtifacts (before ++ a :: rest)).2 = (ofArtifacts (before ++ rest)).2 := by
  have hhead : firstFor (firsts (ofArtifacts before).1) a.path = some first :=
    (firstFor_addAll [] before a.path).trans hfirst
  rw [ofArtifacts, ofArtifacts, addAll_append, addAll_append, ← ofArtifacts]
  cases hadd : add a (ofArtifacts before).1 with
  | error e =>
    obtain ⟨first', hfirst', hnot, -⟩ := add_eq_error_iff_shares.1 hadd
    obtain rfl := Option.some.inj (hhead.symm.trans hfirst')
    rw [hshares] at hnot
    cases hnot
  | ok next =>
    have hnext := firsts_add a (ofArtifacts before).1
    rw [hadd, addFirst, hhead] at hnext
    simp only [hshares, if_true] at hnext
    rw [addAll_of_ok hadd, errors_addAll_congr (Option.some.inj hnext)]

end Add

end FilePlan

theorem Report.prefix_errors_ofSources (rules : MergeRules) (errors : List GenerationError)
    (sources : List (PlannedFile × Outcome (Option String))) :
    errors <+: (Report.ofSources rules errors sources).errors := by
  refine List.foldlRecOn (motive := fun r : Report => errors <+: r.errors) sources _
    (List.prefix_refl errors) fun r hr s _ => List.IsPrefix.trans hr ?_
  dsimp only [Report.add]
  split <;> exact List.prefix_append _ _

/-! ## Artifacts of elements -/

namespace Blueprint

variable (b : Blueprint)

/-- The artifacts that attempts for an element gave, each with the element. -/
def owned (e : Element) (attempts : List Attempt) : List (Element × Artifact) :=
  (attempts.flatMap Attempt.artifacts).map fun a => (e, a)

/-- The artifacts of a model, each with the element that it was made of. -/
def ownedArtifacts : List (Element × Artifact) :=
  (b.graph.ofKind .aggregate).flatMap (fun e => owned e (b.aggregateAttempts e)) ++
    (b.graph.ofKind .command ++ b.graph.ofKind .event).flatMap
      (fun e => owned e (b.messageAttempts e)) ++
    (b.graph.ofKind .document).flatMap fun e => owned e (b.documentAttempts e)

theorem map_snd_ownedArtifacts : b.ownedArtifacts.map Prod.snd = b.artifacts := by
  have howned : ∀ attempts : Element → List Attempt, ∀ es : List Element,
      (es.flatMap fun e => owned e (attempts e)).map Prod.snd =
        (es.flatMap attempts).flatMap Attempt.artifacts := fun attempts es => by
    rw [List.map_flatMap, List.flatMap_assoc]
    simp [owned, Function.comp_def, List.map_flatMap]
  rw [ownedArtifacts, artifacts, attempts, List.map_append, List.map_append, howned, howned, howned,
    List.flatMap_append (f := Attempt.artifacts), List.flatMap_append (f := Attempt.artifacts)]

/-- The files that several elements contribute to by design: the description classes, and the
    finders that resolvers share. -/
def IsCommon (path : Path) : Prop :=
  (∃ (api : Framework.ApiClass) (l : ClassLocation),
    b.apiClass api.name = .ok l ∧ l.path.same path = true) ∨
  ∃ aggregate ∈ b.graph.ofKind .aggregate, ∃ l : ClassLocation,
    b.locateIn b.layout.finderDir (b.className aggregate ++ "Finder") = .ok l ∧
      l.path.same path = true

/-- Whether an artifact between others is left out of what is planned, with one more collision in
    the errors, which every run reports. -/
structure Refuses (before : List Artifact) (a : Artifact) (rest : List Artifact) : Prop where
  leftOut : b.plan.1 = (FilePlan.ofArtifacts (before ++ rest)).1
  collides : ∃ first collisions collisions',
    (FilePlan.ofArtifacts (before ++ rest)).2 = collisions ++ collisions' ∧
    b.plan.2 = b.errors ++ (collisions ++ .fileCollision a.path.text first a.name :: collisions')
  reported : ∀ read, b.plan.2 <+: (b.generate read).errors

variable {b} {before rest : List Artifact} {a first : Artifact}

/-- Every run reports what is wrong with the plan. -/
theorem prefix_errors_generate (b : Blueprint) (read : Path → Outcome (Option String)) :
    b.plan.2 <+: (b.generate read).errors :=
  Report.prefix_errors_ofSources b.settings.merging b.plan.2 _

/-- An artifact behind the first one for its file is refused exactly if the two cannot share it. -/
theorem refuses_iff (hsplit : b.artifacts = before ++ a :: rest)
    (hfirst : FilePlan.firstFor before a.path = some first) :
    b.Refuses before a rest ↔ first.shares a = false := by
  have hplan : b.plan = ((FilePlan.ofArtifacts (before ++ a :: rest)).1,
      b.errors ++ (FilePlan.ofArtifacts (before ++ a :: rest)).2) := by
    rw [plan, hsplit]
  constructor
  · rintro ⟨-, ⟨first', collisions, collisions', hwithout, hwith⟩, -⟩
    by_contra hshares
    rw [hplan, List.append_cancel_left_eq, FilePlan.errors_ofArtifacts_of_shares hfirst
      (Bool.not_eq_false _ ▸ hshares), hwithout] at hwith
    have hlength := congrArg List.length hwith
    simp at hlength
  · intro hshares
    obtain ⟨collisions, collisions', hwithout, hwith⟩ :=
      FilePlan.ofArtifacts_of_not_shares rest hfirst hshares
    exact ⟨by rw [hplan, hwith], ⟨first.name, collisions, collisions', hwithout,
      by rw [hplan, hwith]⟩, prefix_errors_generate b⟩

/-- An artifact for a file that an earlier artifact of another element is for. Description classes,
    finders and equal texts are left aside. -/
structure SharedFile (b : Blueprint) (before : List (Element × Artifact)) (owner : Element)
    (a : Artifact) (rest : List (Element × Artifact)) : Prop where
  split : b.ownedArtifacts = before ++ (owner, a) :: rest
  notCommon : ¬ b.IsCommon a.path
  earlier : ∃ e ∈ before, e.1.id ≠ owner.id ∧ e.2.path.same a.path = true ∧
    ∀ text, e.2.content = .verbatim text → a.content ≠ .verbatim text

/-- Of the artifacts of two elements for one file the later one is always reported and left out,
    exactly if it always differs, in report name or class, from the first one for the file. -/
theorem refuses_sharedFile_iff (b : Blueprint) :
    (∀ before owner a rest, b.SharedFile before owner a rest →
        b.Refuses (before.map Prod.snd) a (rest.map Prod.snd)) ↔
      ∀ before owner a rest, b.SharedFile before owner a rest →
        ∀ first, FilePlan.firstFor (before.map Prod.snd) a.path = some first →
          first.shares a = false := by
  have hsplit : ∀ before owner a rest, b.SharedFile before owner a rest →
      b.artifacts = before.map Prod.snd ++ a :: rest.map Prod.snd := fun before owner a rest h => by
    rw [← map_snd_ownedArtifacts, h.split, List.map_append, List.map_cons]
  constructor
  · intro hall before owner a rest h first hfirst
    exact (refuses_iff (hsplit _ _ _ _ h) hfirst).1 (hall before owner a rest h)
  · intro hall before owner a rest h
    obtain ⟨e, he, -, hpath, -⟩ := h.earlier
    obtain ⟨first, hfirst⟩ : ∃ first,
        FilePlan.firstFor (before.map Prod.snd) a.path = some first :=
      Option.isSome_iff_exists.1
        (List.find?_isSome.2 ⟨e.2, List.mem_map_of_mem he, hpath⟩)
    exact (refuses_iff (hsplit _ _ _ _ h) hfirst).2 (hall before owner a rest h first hfirst)

/-- A project with two events whose labels differ in spelling only. -/
def sameNamed : Blueprint :=
  ⟨.standard (Naming.Autoload.empty.insert "Acme" ⟨"src"⟩),
    ⟨[⟨"1", "Building Added", .event, none, none⟩, ⟨"2", "building-added", .event, none, none⟩], [],
      .empty⟩⟩

/-- What each of the events contributes to its class. -/
def buildingAdded : Artifact :=
  .ofClass "BUILDING_ADDED"
    ⟨"Acme\\Domain\\Model\\Event", "BuildingAdded", ⟨"src/Domain/Model/Event/BuildingAdded.php"⟩⟩
    recordBase

theorem not_isCommon_buildingAdded : ¬ sameNamed.IsCommon buildingAdded.path := by
  rintro (⟨api, l, hl, hsame⟩ | ⟨aggregate, haggregate, -⟩)
  · have hapi : (sameNamed.apiClass api.name).map (fun l => l.path.same buildingAdded.path) =
        .ok false := by
      cases api <;> decide +kernel
    rw [hl, Except.map, hsame] at hapi
    cases hapi
  · have hnone : sameNamed.graph.ofKind .aggregate = [] := rfl
    rw [hnone] at haggregate
    cases haggregate

/-- The classes of both events go into one file, and no collision is reported. -/
theorem sameNamed_shares :
    ¬ ∀ before owner a rest, sameNamed.SharedFile before owner a rest →
      sameNamed.Refuses (before.map Prod.snd) a (rest.map Prod.snd) := by
  intro hall
  have hfirst : sameNamed.ownedArtifacts[0]?.map (fun p => (p.1.id, p.2)) =
      some ("1", buildingAdded) := by decide +kernel
  have hsecond : sameNamed.ownedArtifacts[2]?.map (fun p => (p.1.id, p.2)) =
      some ("2", buildingAdded) := by decide +kernel
  have hshares : buildingAdded.shares buildingAdded = true := by decide +kernel
  obtain ⟨⟨e, a⟩, he, hea⟩ := Option.map_eq_some_iff.1 hfirst
  obtain ⟨hid, rfl⟩ := Prod.mk.inj hea
  obtain ⟨⟨owner, a⟩, ho, hoa⟩ := Option.map_eq_some_iff.1 hsecond
  obtain ⟨hid', rfl⟩ := Prod.mk.inj hoa
  obtain ⟨hlength, ho⟩ := List.getElem?_eq_some_iff.1 ho
  have hsplit : sameNamed.ownedArtifacts = sameNamed.ownedArtifacts.take 2 ++
      (owner, buildingAdded) :: sameNamed.ownedArtifacts.drop 3 := by
    rw [← ho, ← List.drop_eq_getElem_cons hlength, List.take_append_drop]
  have hmem : (e, buildingAdded) ∈ sameNamed.ownedArtifacts.take 2 := by
    rw [List.mem_iff_getElem?]
    exact ⟨0, by rw [List.getElem?_take_of_lt (by omega), he]⟩
  have hshared : sameNamed.SharedFile (sameNamed.ownedArtifacts.take 2) owner buildingAdded
      (sameNamed.ownedArtifacts.drop 3) :=
    ⟨hsplit, not_isCommon_buildingAdded, _, hmem, by rw [hid, hid']; decide, Path.same_refl _,
      nofun⟩
  have hartifacts := sameNamed.map_snd_ownedArtifacts
  rw [hsplit, List.map_append, List.map_cons] at hartifacts
  have hhead : FilePlan.firstFor ((sameNamed.ownedArtifacts.take 2).map Prod.snd)
      buildingAdded.path = some buildingAdded := by decide +kernel
  have hrefused := (refuses_iff hartifacts.symm hhead).1 (hall _ _ _ _ hshared)
  rw [hshares] at hrefused
  cases hrefused

end Blueprint

end DomainScaffold
