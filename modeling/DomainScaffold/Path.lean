import DomainScaffold.Text.Split

/-!
# Project paths

A path keeps its text as it was put together; two paths are the same when their components are.
Joining does not normalise: it only sets the separator, and an absolute path replaces what stands
before it.

Results:
* `join_absolute`: an absolute path replaces the base.
* `same_refl`, `same_comm`, `same_trans`: sameness is an equivalence.
-/

namespace DomainScaffold

/-- A path as written. -/
structure Path where
  text : String
  deriving DecidableEq, Repr, Inhabited

namespace Path

/-! ## Components -/

/-- One step of a path. -/
inductive Component where
  | root
  | current
  | parent
  | name (s : String)
  deriving DecidableEq, Repr

/-- The step written by a piece between slashes; empty pieces and inner dots are no step. -/
def Component.ofPiece? (piece : List Char) : Option Component :=
  match piece with
  | [] => none
  | ['.'] => none
  | ['.', '.'] => some .parent
  | cs => some (.name (String.ofList cs))

/-- The steps of the characters of a path. -/
def componentsOf (cs : List Char) : List Component :=
  let steps := (Text.splitAt (· == '/') cs).filterMap Component.ofPiece?
  match cs with
  | '/' :: _ => .root :: steps
  | ['.'] => [.current]
  | '.' :: '/' :: _ => .current :: steps
  | _ => steps

/-- The steps of a path: repeated slashes count once, and a dot only at the start. -/
def components (p : Path) : List Component := componentsOf p.text.toList

/-- Whether a path starts at the root. -/
def isAbsolute (p : Path) : Bool :=
  match p.text.toList with
  | '/' :: _ => true
  | _ => false

/-- Whether two paths have the same components. -/
def same (p q : Path) : Bool := p.components == q.components

theorem same_iff {p q : Path} : p.same q = true ↔ p.components = q.components := by
  simp [same]

theorem same_refl (p : Path) : p.same p = true := by simp [same_iff]

theorem same_comm (p q : Path) : p.same q = q.same p := by
  rw [Bool.eq_iff_iff, same_iff, same_iff]
  exact eq_comm

theorem same_trans {p q r : Path} (h : p.same q = true) (h' : q.same r = true) :
    p.same r = true := by
  rw [same_iff] at *
  exact h.trans h'

/-! ## Joining -/

/-- The path `q` seen from `p`. -/
def join (p q : Path) : Path :=
  if q.isAbsolute then q
  else if p.text.isEmpty || p.text.toList.getLast? == some '/' then ⟨p.text ++ q.text⟩
  else ⟨p.text ++ "/" ++ q.text⟩

theorem join_absolute {p q : Path} (h : q.isAbsolute = true) : p.join q = q := by
  simp [join, h]

/-- The text of one step. -/
def Component.text : Component → String
  | .root => "/"
  | .current => "."
  | .parent => ".."
  | .name s => s

/-- The steps joined one after the other. -/
def ofComponents (cs : List Component) : Path :=
  cs.foldl (fun p c => p.join ⟨c.text⟩) ⟨""⟩

/-- The path put together anew from its steps, without a dot at the start. -/
def normalized (p : Path) : Path := ofComponents (p.components.filter (· != .current))

/-- The names and parent steps between slashes. -/
def slashed (p : Path) : String :=
  String.intercalate "/" (p.components.filterMap fun
    | .name s => some s
    | .parent => some ".."
    | _ => none)

/-! ## Directories -/

/-- Whether a piece between slashes is no step behind the start of a path. -/
def isIdlePiece (piece : List Char) : Bool := piece == [] || piece == ['.']

/-- The pieces up to the last step. -/
def dropIdle (pieces : List (List Char)) : List (List Char) :=
  (pieces.reverse.dropWhile isIdlePiece).reverse

/-- The pieces in front of the last step. -/
def dropStep (pieces : List (List Char)) : List (List Char) :=
  dropIdle (dropIdle pieces).dropLast

/-- The path without its last step; the steps in front keep their text. -/
def parent (p : Path) : Path :=
  let joined (pieces : List (List Char)) := String.ofList (List.intercalate ['/'] pieces)
  match Text.splitAt (· == '/') p.text.toList with
  | [] | [[]] => ⟨""⟩
  | [] :: pieces => ⟨"/" ++ joined (dropStep pieces)⟩
  | first :: pieces =>
    if (dropIdle pieces).isEmpty then ⟨""⟩ else ⟨joined (first :: dropStep pieces)⟩

/-! ## Relative paths -/

/-- The steps from `base` to `target`, after equal steps if `start` is set; `none` if a parent step
    of the base would have to be undone. -/
def stepsFrom (start : Bool) : (target base : List Component) → Option (List Component)
  | [], [] => some []
  | ts, [] => some ts
  | [], _ :: bs => (stepsFrom false [] bs).map (.parent :: ·)
  | t :: ts, b :: bs =>
    if start && t = b then stepsFrom true ts bs
    else if b = .current then (stepsFrom false ts bs).map (t :: ·)
    else if b = .parent then none
    else some (.parent :: bs.map (fun _ => .parent) ++ t :: ts)

/-- The path of `target` as seen from `base`. -/
def relativeTo? (target base : Path) : Option Path :=
  if target.isAbsolute != base.isAbsolute then
    if target.isAbsolute then some target else none
  else (stepsFrom true target.components base.components).map ofComponents

end Path

end DomainScaffold
