import DomainScaffold.Command.Line
import DomainScaffold.Config
import DomainScaffold.Files.Generate
import DomainScaffold.Graph.Reader

/-!
# Running commands

A command reads the graph and the configuration, generates, and tells what became of every file. It
fails when anything could not be read, made or written.

Results:
* `code_refused`: an invocation that is refused for its form has a code of its own.
* `lines_ofReport`: a run tells every file in the order of its report.
-/

namespace DomainScaffold.Command

/-! ## Responses -/

/-- What a command prints and ends with. -/
structure Response where
  output : List String
  errors : List String
  code : Nat
  deriving DecidableEq, Repr

/-- The version of the command. -/
def version : String := "0.1.0"

/-- The lines above all output. -/
def header : List String := ["  ◆ esgen " ++ version, ""]

/-- The line that reports success. -/
def successLine (text : String) : String := "  ◉ " ++ text

/-- The line that tells something. -/
def noteLine (text : String) : String := "  ◇ " ++ text

/-- The mark of a file with a status. -/
def statusMark : FileStatus → String
  | .created => "+"
  | .updated => "~"
  | .unchanged => "·"

/-- The line of a file. -/
def fileLine (f : GeneratedFile) : String := "    " ++ statusMark f.status ++ " " ++ f.path.text

/-- How the command is used. -/
def usage : List String :=
  ["Usage: esgen generate --graph <GRAPH> [--config <CONFIG>] [--root <ROOT>]" ++
      " [--composer <COMPOSER>] [--dry-run]",
    "       esgen check --graph <GRAPH>"]

/-- The response to arguments that ask for nothing to be run. -/
def refused : Refusal → Response
  | .usage => ⟨[], usage, 2⟩
  | .help => ⟨usage, [], 0⟩
  | .version => ⟨["esgen " ++ version], [], 0⟩

theorem code_refused (r : Refusal) : (refused r).code = 2 ↔ r = .usage := by
  cases r <;> decide

/-- The response with the header above its output. -/
def Response.headed (r : Response) : Response := { r with output := header ++ r.output }

/-- The response to an error behind some output. -/
def failed (output : List String) (e : GenerationError) : Response := ⟨output, [e.message], 1⟩

/-! ## Reports -/

/-- The lines of the files in a report. -/
def fileLines (r : Report) : List String := (r.files.map fun f => fileLine f.2) ++ [""]

/-- The number of files that stay as they are. -/
def unchangedCount (r : Report) : Nat := r.files.length - r.changed.length

/-- The line on files that stay as they are, if there are any. -/
def unchangedLines (r : Report) : List String :=
  if unchangedCount r = 0 then [] else ["  " ++ toString (unchangedCount r) ++ " files unchanged"]

/-- The line on the files that were written, or would be. -/
def changedLine (written : Option Nat) (r : Report) : String :=
  match written with
  | some n => successLine (toString n ++ " files written")
  | none => noteLine (toString r.changed.length ++ " files would change (dry run, nothing written)")

/-- The response to a run that `written` files came of, or none in a dry run. -/
def ofReport (written : Option Nat) (r : Report) : Response :=
  let lines := fileLines r ++ [changedLine written r] ++ unchangedLines r
  if r.isClean then ⟨lines, [], 0⟩
  else
    ⟨lines ++ [""],
      r.errors.map GenerationError.message ++
        [toString r.errors.length ++ " problems, see above"], 1⟩

theorem lines_ofReport (written : Option Nat) (r : Report) :
    (r.files.map fun f => fileLine f.2) <+: (ofReport written r).output := by
  unfold ofReport fileLines
  dsimp only
  split <;> simp only [List.append_assoc] <;> exact List.prefix_append _ _

/-! ## Commands -/

variable {m : Type → Type} [Monad m]

/-- The graph in a file. -/
def loadGraph (files : FileAccess m) (path : Path) : FileAction m DomainGraph := do
  DomainGraph.ofText (← files.readRequired path)

/-- The configuration that a run is given, or else that of the project if there is one, and the
    directory that its paths are seen from. -/
def loadConfig (files : FileAccess m) (o : RunOptions) : FileAction m (ConfigFile × Path) := do
  let path := o.config.getD (o.root.join ConfigFile.fileName)
  if ← files.isFile path then
    return (← ConfigFile.load files path, path.parent)
  else if o.config.isSome then
    throw (.fileAccess path.text "config file not found")
  else return (.empty, o.root)

/-- The blueprint of a run. -/
def loadBlueprint (files : FileAccess m) (o : RunOptions) : FileAction m Blueprint := do
  let graph ← loadGraph files o.graph
  let (config, base) ← loadConfig files o
  let settings ← config.resolve files base o.composer
  return ⟨settings, graph⟩

/-- The response to a report, after its changed files were written unless in a dry run. -/
def finish (files : FileAccess m) (o : RunOptions) (r : Report) : m Response := do
  if o.dryRun then return ofReport none r
  else
    match ← (writeAll files o.root r.changed).run with
    | .error e => return failed (fileLines r) e
    | .ok n => return ofReport (some n) r

/-- Generates into a project. -/
def generate (files : FileAccess m) (o : RunOptions) : m Response := do
  match ← (loadBlueprint files o).run with
  | .error e => return failed [] e
  | .ok b => finish files o (← b.generateBelow files o.root)

/-- The number of elements of a kind. -/
def countOf (g : DomainGraph) (kind : ElementKind) : String := toString (g.ofKind kind).length

/-- The lines on a graph that can be generated from. -/
def graphLines (g : DomainGraph) : List String :=
  [successLine "Graph is consistent",
    "    " ++ countOf g .aggregate ++ " aggregates · " ++ countOf g .command ++ " commands · " ++
      countOf g .event ++ " events · " ++ countOf g .document ++ " documents"]

/-- Checks a graph. -/
def check (files : FileAccess m) (path : Path) : m Response := do
  let checked : Outcome DomainGraph ← (do
    let g ← loadGraph files path
    let _ ← g.aggregateConnections
    return g : FileAction m DomainGraph).run
  match checked with
  | .error e => return failed [] e
  | .ok g => return ⟨graphLines g, [], 0⟩

/-- Runs the command with arguments. -/
def run (files : FileAccess m) (args : List String) : m Response :=
  match Invocation.ofArgs args with
  | .error r => return refused r
  | .ok (.generate o) => Response.headed <$> generate files o
  | .ok (.check path) => Response.headed <$> check files path

/-- The text of printed lines. -/
def printed (lines : List String) : String := String.join (lines.map (· ++ "\n"))

end DomainScaffold.Command
