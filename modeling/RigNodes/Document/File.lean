import RigNodes.Document.Encode
import RigNodes.Json.Decode
import RigNodes.Json.Printer
import RigNodes.Json.Reader
import RigNodes.Path
import RigNodes.Yaml.Decode
import RigNodes.Yaml.Printer

/-! Documents in files: the formats, how they are chosen, and reading and writing in each. -/
namespace RigNodes

inductive FileFormat
  | json | yaml
  deriving DecidableEq, Repr

namespace FileFormat

def name : FileFormat → String
  | json => "json"
  | yaml => "yaml"

/-- Case matters. -/
def ofName? : String → Option FileFormat
  | "json" => some json
  | "yaml" | "yml" => some yaml
  | _ => none

/-- Paths that do not look like YAML are taken for JSON. -/
def ofPath (path : String) : FileFormat :=
  match Path.extension? path with
  | some "yaml" | some "yml" => yaml
  | _ => json

end FileFormat

/-- Why a document could not be had. -/
inductive LoadError
  | unreadable (f : FileFault)
  | json (f : Json.Fault)
  | yaml
  | unknownFormat (name : String)
  deriving DecidableEq, Repr

namespace LoadError

def message : LoadError → String
  | unreadable f => s!"IO error: {f.message}"
  | json .malformed => "JSON error: the text is not well-formed"
  | json .cut => "JSON error: the text ends too early"
  | json (.data m) => s!"JSON error: {m.message}"
  | yaml => "YAML error: the text is not a document"
  | unknownFormat name => s!"Unknown document format '{name}' (expected json or yaml)"

end LoadError

/-- The format with a name. -/
def FileFormat.ofName (name : String) : Except LoadError FileFormat :=
  match ofName? name with
  | some f => .ok f
  | none => .error (.unknownFormat name)

/-- The document of a JSON text. Nothing but white space may follow it. -/
def Json.document (text : String) : Except Json.Fault Document := do
  let (tree, ended) := Json.ofText text
  let d ← decode .streamed Shape.document tree
  if ended then return d else .error .malformed

namespace Document

/-- Reads a document from its text. -/
def ofText (f : FileFormat) (text : String) : Except LoadError Document :=
  match f with
  | .json => (Json.document text).mapError LoadError.json
  | .yaml =>
    match Yaml.document? text with
    | some d => .ok d
    | none => .error .yaml

/-- Writes a document as text. -/
def toText (f : FileFormat) (d : Document) : String :=
  match f with
  | .json => Json.text d.datum
  | .yaml => Yaml.text d.datum

/-- Reads a document from a file, in the format that its path tells. -/
def ofFile (path : String) (content : Except FileFault String) : Except LoadError Document := do
  ofText (.ofPath path) (← content.mapError .unreadable)

end Document

end RigNodes
