import DomainScaffold.Artifact.Basic
import DomainScaffold.Json.Printer

/-!
# Schema files

Every schema of an element is written to a file of its own, which the description classes read.

Results:
* `content_schemaArtifact`: a schema file holds the schema, written over several lines.
-/

namespace DomainScaffold.Blueprint

open Naming

variable (b : Blueprint)

/-- The name of the query for a document: the one it gives, else the conventional one. -/
def queryNameOf (document : Element) : String :=
  document.queryName.getD (b.naming.name .queryName document.name)

/-- The file with a schema. -/
def schemaArtifact (name : String) (schema : Json) : Artifact :=
  ⟨"Schema\\" ++ name, b.schemaFile name, .verbatim (schema.pretty ++ "\n")⟩

theorem content_schemaArtifact (name : String) (schema : Json) :
    (b.schemaArtifact name schema).content = .verbatim (schema.pretty ++ "\n") := rfl

/-- The files with the schemas of an element: messages go by their registered name, documents by
    their class and queries by their name. -/
def schemaArtifacts (e : Element) : List Artifact :=
  match e.kind with
  | .command | .event => (e.schema.map (b.schemaArtifact (b.constantValue e))).toList
  | .document =>
    (e.schema.map (b.schemaArtifact (b.className e))).toList ++
      (e.querySchema.map (b.schemaArtifact (b.queryNameOf e))).toList
  | _ => []

end DomainScaffold.Blueprint
