import DomainScaffold.Path

/-!
# Command lines

What the arguments of the command ask for. An option has a long name and most have a letter; its
value follows it, or is attached to it. No option is given twice, and a value that looks like an
option is none.

Results:
* `giveFlag_twice`, `giveValue_twice`: an option that is given again is refused.
-/

namespace DomainScaffold.Command

/-! ## Options -/

/-- Options with a value. -/
inductive Setting where
  | graph
  | config
  | root
  | composer
  deriving DecidableEq, Repr

/-- Options without a value. -/
inductive Flag where
  | verbose
  | dryRun
  | help
  | version
  deriving DecidableEq, Repr

/-- An option of either kind. -/
inductive Switch where
  | setting (s : Setting)
  | flag (f : Flag)
  deriving DecidableEq, Repr

/-- The long name, the letter and the meaning of an option. -/
structure Switch.Form where
  name : String
  letter : Option Char
  switch : Switch
  deriving Repr

/-- The options that every command has. -/
def sharedForms : List Switch.Form :=
  [⟨"verbose", some 'v', .flag .verbose⟩, ⟨"help", some 'h', .flag .help⟩]

/-- The options in front of a command. -/
def leadingForms : List Switch.Form := ⟨"version", some 'V', .flag .version⟩ :: sharedForms

/-- The options of the check of a graph. -/
def checkForms : List Switch.Form := ⟨"graph", some 'g', .setting .graph⟩ :: sharedForms

/-- The options of a run. -/
def generateForms : List Switch.Form :=
  [⟨"config", some 'c', .setting .config⟩, ⟨"root", some 'r', .setting .root⟩,
    ⟨"composer", none, .setting .composer⟩, ⟨"dry-run", none, .flag .dryRun⟩] ++ checkForms

/-! ## What is given -/

/-- Why there is nothing to run. -/
inductive Refusal where
  | usage
  | help
  | version
  deriving DecidableEq, Repr

/-- The options given so far. -/
structure Given where
  flags : List Flag
  settings : List (Setting × String)
  deriving DecidableEq, Repr

/-- No options. -/
def Given.nothing : Given := ⟨[], []⟩

/-- The value of a setting. -/
def Given.value? (g : Given) (s : Setting) : Option String :=
  (g.settings.find? fun p => p.1 == s).map Prod.snd

/-- One more flag. -/
def giveFlag (g : Given) (f : Flag) : Except Refusal Given :=
  match f with
  | .help => .error .help
  | .version => .error .version
  | f => if g.flags.contains f then .error .usage else .ok { g with flags := f :: g.flags }

/-- One more setting; its value is not empty. -/
def giveValue (g : Given) (s : Setting) (value : String) : Except Refusal Given :=
  if value.isEmpty || (g.value? s).isSome then .error .usage
  else .ok { g with settings := (s, value) :: g.settings }

theorem giveFlag_twice {g h : Given} {f : Flag} (hg : giveFlag g f = .ok h) :
    giveFlag h f = .error .usage := by
  cases f <;> simp only [giveFlag] at hg ⊢ <;> first
    | (split at hg <;> cases hg; simp)
    | cases hg

theorem giveValue_twice {g h : Given} {s : Setting} {v : String} (hg : giveValue g s v = .ok h)
    (w : String) : giveValue h s w = .error .usage := by
  unfold giveValue at hg
  split at hg
  · cases hg
  · cases hg
    simp [giveValue, Given.value?]

/-! ## Arguments -/

/-- Whether an argument stands for itself: it is a dash, or does not start with one. -/
def isWord (arg : String) : Bool := arg == "-" || !Text.startsWith "-" arg

/-- Takes the next argument as the value of a setting. -/
def takeValue (g : Given) (s : Setting) : List String → Except Refusal (Given × List String)
  | value :: rest =>
    if isWord value then (giveValue g s value).map fun g => (g, rest) else .error .usage
  | [] => .error .usage

/-- The meaning of a long name. -/
def named? (forms : List Switch.Form) (name : String) : Option Switch :=
  (forms.find? fun f => f.name == name).map Switch.Form.switch

/-- The meaning of a letter. -/
def lettered? (forms : List Switch.Form) (letter : Char) : Option Switch :=
  (forms.find? fun f => f.letter == some letter).map Switch.Form.switch

/-- An option by its long name, with the value that is attached to it. -/
def giveNamed (forms : List Switch.Form) (g : Given) (name : String) (attached : Option String)
    (rest : List String) : Except Refusal (Given × List String) :=
  match named? forms name, attached with
  | none, _ => .error .usage
  | some (.flag f), none => (giveFlag g f).map fun g => (g, rest)
  | some (.flag _), some _ => .error .usage
  | some (.setting s), some value => (giveValue g s value).map fun g => (g, rest)
  | some (.setting s), none => takeValue g s rest

/-- Options by their letters; what follows the letter of a setting is its value. -/
def giveLetters (forms : List Switch.Form) (rest : List String) :
    List Char → Given → Except Refusal (Given × List String)
  | [], g => .ok (g, rest)
  | c :: cs, g =>
    match lettered? forms c with
    | none => .error .usage
    | some (.flag f) => (giveFlag g f).bind (giveLetters forms rest cs)
    | some (.setting s) =>
      match cs with
      | [] => takeValue g s rest
      | '=' :: value => (giveValue g s (String.ofList value)).map fun g => (g, rest)
      | value => (giveValue g s (String.ofList value)).map fun g => (g, rest)

/-- An option as written, with the arguments behind it. -/
def giveOption (forms : List Switch.Form) (g : Given) (arg : String) (rest : List String) :
    Except Refusal (Given × List String) :=
  match Text.afterLead? "--" arg with
  | some long =>
    match Text.cutFirst? '=' long with
    | some (name, value) => giveNamed forms g name (some value) rest
    | none => giveNamed forms g long none rest
  | none => giveLetters forms rest (arg.toList.drop 1) g

/-- The options up to the first word, and the arguments from there on. Two dashes end the options,
    and no command takes what may follow them. -/
def giveAll (forms : List Switch.Form) :
    (fuel : Nat) → Given → List String → Except Refusal (Given × List String)
  | _, g, [] => .ok (g, [])
  | 0, _, _ :: _ => .error .usage
  | fuel + 1, g, arg :: rest =>
    if arg = "--" then if rest.isEmpty then .ok (g, []) else .error .usage
    else if isWord arg then .ok (g, arg :: rest)
    else (giveOption forms g arg rest).bind fun (g, rest) => giveAll forms fuel g rest

/-! ## Invocations -/

/-- What a run is given. -/
structure RunOptions where
  graph : Path
  config : Option Path
  root : Path
  composer : Option Path
  dryRun : Bool
  deriving DecidableEq, Repr

/-- What a command line asks for. -/
inductive Invocation where
  | generate (o : RunOptions)
  | check (graph : Path)
  deriving DecidableEq, Repr

/-- The options of a command; nothing may follow them. -/
def optionsOf (forms : List Switch.Form) (args : List String) : Except Refusal Given :=
  match giveAll forms args.length .nothing args with
  | .error r => .error r
  | .ok (g, []) => .ok g
  | .ok (_, _ :: _) => .error .usage

/-- The path of a setting. -/
def Given.path? (g : Given) (s : Setting) : Option Path := (g.value? s).map Path.mk

/-- The path of the graph, which has to be given. -/
def Given.graph (g : Given) : Except Refusal Path :=
  match g.path? .graph with
  | some path => .ok path
  | none => .error .usage

/-- What the arguments behind the name of a command ask for. -/
def invocationOf (name : String) (args : List String) : Except Refusal Invocation :=
  match name with
  | "generate" => do
    let g ← optionsOf generateForms args
    return .generate
      { graph := ← g.graph, config := g.path? .config, root := (g.path? .root).getD ⟨"."⟩
        composer := g.path? .composer, dryRun := g.flags.contains .dryRun }
  | "check" => do
    let g ← optionsOf checkForms args
    return .check (← g.graph)
  | "help" => .error .help
  | _ => .error .usage

/-- What a command line asks for. -/
def Invocation.ofArgs (args : List String) : Except Refusal Invocation :=
  match giveAll leadingForms args.length .nothing args with
  | .error r => .error r
  | .ok (_, []) => .error .usage
  | .ok (_, name :: args) => invocationOf name args

end DomainScaffold.Command
