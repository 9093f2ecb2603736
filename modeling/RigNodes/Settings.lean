import RigNodes.Number.Decimal
import RigNodes.Path
import RigNodes.Resolver
import RigNodes.Text.Quoted
import RigNodes.Toml.Reader

/-! Settings in layers: built-in values, then those of a file, then those of the command line. Each
layer overrides single values of the one below. -/
namespace RigNodes

structure Settings where
  enabled : Bool
  legacy : Bool
  /-- Whether the node tables are dumped after a document is resolved. -/
  dumpTable : Bool
  /-- The name of the dump format. -/
  format : String
  deriving DecidableEq, Repr

namespace Settings

def builtin : Settings := ⟨true, false, false, "text"⟩

def options (s : Settings) : Options := ⟨s.enabled, s.legacy⟩

end Settings

/-- A tree of values in which layers are put together. -/
inductive Setting
  /-- A place in a list that nobody has filled. -/
  | nothing
  | flag (b : Bool)
  | integer (i : Int)
  | float (x : Double)
  | text (s : String)
  | list (items : List Setting)
  | table (entries : List (String × Setting))

namespace Setting

mutual

def ofToml : Toml.Value → Setting
  | .text s => text s
  | .integer i => integer i
  | .float x => float x
  | .flag b => flag b
  | .moment s => text s
  | .list items => list (listOfToml items)
  | .table es => table (entriesOfToml es)

def listOfToml : List Toml.Value → List Setting
  | [] => []
  | v :: vs => ofToml v :: listOfToml vs

def entriesOfToml : List (String × Toml.Value) → List (String × Setting)
  | [] => []
  | (key, v) :: es => (key, ofToml v) :: entriesOfToml es

end

/-- The entries of a table. Anything else has none. -/
def entries : Setting → List (String × Setting)
  | table es => es
  | _ => []

def items : Setting → List Setting
  | list xs => xs
  | _ => []

def get? (s : Setting) (key : String) : Option Setting := s.entries.lookup key

/-- Changes the entry of a key, of which there may be none yet. -/
def alter (key : String) (f : Option Setting → Setting) : List (String × Setting) → List (String × Setting)
  | [] => [(key, f none)]
  | e :: es => if e.1 == key then (key, f (some e.2)) :: es else e :: alter key f es

mutual

/-- Puts a value under a key. Keys have no case. A table is merged into what is there entry by entry;
so an empty one changes nothing, and any other takes the place of a plain value. -/
def put (key : String) : Setting → Setting → Setting
  | table es, root =>
    table (alter key.toLower (fun old => putAll es (old.getD (table []))) root.entries)
  | v, root => table (alter key.toLower (fun _ => v) root.entries)

def putAll : List (String × Setting) → Setting → Setting
  | [], root => root
  | (key, v) :: es, root => putAll es (put key v root)

end

/-- A step on a path of settings. -/
inductive Step
  | child (key : String)
  | index (i : Int)
  deriving DecidableEq, Repr

/-- Negative indexes count from the end. -/
def indexIn (i : Int) (length : Nat) : Nat := if 0 ≤ i then i.toNat else length - i.natAbs

/-- Changes an item of a list that is filled up as far as needed. -/
def alterItem (i : Int) (f : Setting → Setting) (xs : List Setting) : List Setting :=
  let n := indexIn i xs.length
  let xs := xs ++ List.replicate (n + 1 - xs.length) nothing
  xs.set n (f (xs.getD n nothing))

/-- Puts a value at the end of a path and makes tables and lists on the way. -/
def putAt (v : Setting) (key : String) : List Step → Setting → Setting
  | [], root => put key v root
  | .child next :: steps, root =>
    table (alter key.toLower (fun old => putAt v next steps (old.getD nothing)) root.entries)
  | .index i :: steps, root =>
    table (alter key.toLower
      (fun old => list (alterItem i (putIn v steps) (old.getD nothing).items)) root.entries)
where
  /-- The same from inside a list. -/
  putIn (v : Setting) : List Step → Setting → Setting
    | [], _ => v
    | .child next :: steps, s => putAt v next steps s
    | .index i :: steps, s => list (alterItem i (putIn v steps) s.items)

/-- Characters of the parts of a path. -/
def isPathChar (c : Char) : Bool := c.isAlphanum || c == ' ' || c == '_' || c == '-'

/-- The index between brackets, and what follows them. -/
def index? (cs : List Char) : Option (Int × List Char) :=
  let isSpace (c : Char) : Bool := c == ' ' || c == '\t' || c == '\n' || c == '\r'
  let cs := cs.dropWhile isSpace
  let (negative, cs) := Toml.signOf (if cs.head? = some '+' then [] else cs)
  let ds := cs.takeWhile Char.isDigit
  match (cs.drop ds.length).dropWhile isSpace, Yaml.natural? 10 ds with
  | ']' :: r, some n => some (if negative then -(n : Int) else n, r)
  | _, _ => none

/-- The steps of a path after its first key. -/
def steps? : Nat → List Char → Option (List Step)
  | _, [] => some []
  | fuel + 1, '.' :: r =>
    let word := r.takeWhile isPathChar
    if word.isEmpty then none
    else (steps? fuel (r.drop word.length)).map (.child (String.ofList word) :: ·)
  | fuel + 1, '[' :: r => do
    let (i, r) ← index? r
    return .index i :: (← steps? fuel r)
  | _, _ => none

/-- A top-level key may be a path. A key that is none is taken as it is. -/
def path (key : String) : String × List Step :=
  let cs := key.toList
  let word := cs.takeWhile isPathChar
  match word.isEmpty, steps? cs.length (cs.drop word.length) with
  | false, some steps => (String.ofList word, steps)
  | _, _ => (key, [])

/-- Puts a layer over what is there. -/
def overlay (layer : List (String × Setting)) (root : Setting) : Setting :=
  layer.foldl (fun root (key, v) => let (first, steps) := path key; putAt v first steps root) root

end Setting

/-- Why there are no settings. -/
inductive SettingsError
  | unreadable (path : String) (f : FileFault)
  | malformed (path : String)
  /-- A value of the wrong type stands under a key. -/
  | wrongType (key : String) (found expected : String) (fromFile : Bool)
  | missing (key : String)
  /-- What stands in place of a table does not fit it. -/
  | unfit (found expected : String)
  deriving DecidableEq, Repr

namespace SettingsError

/-- The text of an error, for settings from the given file. -/
def message (file : String) : SettingsError → String
  | unreadable path .notFound => s!"configuration file \"{path}\" not found"
  | unreadable _ f => f.message
  | malformed path => s!"the text is not TOML in {path}"
  | wrongType key found expected fromFile =>
    let source := if fromFile then " in " ++ file else ""
    s!"invalid type: {found}, expected {expected} for key \x60{key}\x60{source}"
  | missing key => s!"configuration property \"{key}\" not found"
  | unfit found expected => s!"invalid {found}, expected {expected}"

/-- The same error seen from a table around it. -/
def under (outer : String) : SettingsError → SettingsError
  | wrongType key found expected fromFile =>
    let dot := if key.isEmpty || key.startsWith "[" then "" else "."
    wrongType (outer ++ dot ++ key) found expected fromFile
  | missing key => missing (outer ++ "." ++ key)
  | e => e

end SettingsError

namespace Setting

def found : Setting → String
  | nothing => "unit value"
  | flag b => "boolean \x60" ++ (if b then "true" else "false") ++ "\x60"
  | integer i => s!"integer \x60{i}\x60"
  | float x => s!"floating point \x60{x.shown}\x60"
  | text s => "string " ++ Text.quoted s
  | list _ => "sequence"
  | table _ => "map"

/-- Whether a value of this form can only stand in a file. -/
def isWritten : Setting → Bool
  | text _ | list _ => true
  | _ => false

def wrongType {α : Type} (s : Setting) (expected : String) : Except SettingsError α :=
  .error (.wrongType "" s.found expected s.isWritten)

/-- Numbers other than zero count as true, and some words stand for truth values. -/
def asFlag : Setting → Except SettingsError Bool
  | flag b => .ok b
  | integer i => .ok (i != 0)
  | float x => .ok !x.magnitude.isZero
  | text s =>
    let word := s.toLower
    if word == "1" || word == "true" || word == "on" || word == "yes" then .ok true
    else if word == "0" || word == "false" || word == "off" || word == "no" then .ok false
    else (text word).wrongType "a boolean"
  | s => s.wrongType "a boolean"

/-- Plain values stand for their texts. -/
def asText : Setting → Except SettingsError String
  | text s => .ok s
  | flag b => .ok (if b then "true" else "false")
  | integer i => .ok (toString i)
  | float x => .ok x.plain
  | s => s.wrongType "a string"

variable {α β : Type}

/-- A field of a table, read if it is there. -/
def field? (s : Setting) (read : Setting → Except SettingsError α) (key : String) :
    Except SettingsError (Option α) :=
  match s.get? key with
  | some v => ((read v).mapError (·.under key)).map some
  | none => .ok none

def required (key : String) : Option α → Except SettingsError α
  | some a => .ok a
  | none => .error (.missing key)

/-- A record of two fields: a table with these keys, or a list of the values in order. Missing
fields are noticed after wrong ones. -/
def pair (s : Setting) (name first second : String) (read₁ : Setting → Except SettingsError α)
    (read₂ : Setting → Except SettingsError β) : Except SettingsError (α × β) := do
  let expected := "struct " ++ name
  match s with
  | table _ =>
    let a? ← s.field? read₁ first
    let b? ← s.field? read₂ second
    return (← required first a?, ← required second b?)
  | list [] => .error (.unfit "length 0" (expected ++ " with 2 elements"))
  | list [x] =>
    let _ ← (read₁ x).mapError (·.under "[0]")
    .error (.unfit "length 1" (expected ++ " with 2 elements"))
  | list (x :: y :: _) =>
    let a ← (read₁ x).mapError (·.under "[0]")
    let b ← (read₂ y).mapError (·.under "[1]")
    return (a, b)
  | s => .error (.unfit ("type: " ++ s.found) expected)

end Setting

namespace Settings

open Setting in
/-- The built-in layer as a tree. -/
def defaults : Setting :=
  table
    [("resolver", table
        [("enabled", flag builtin.enabled), ("legacy_positional_numbers", flag builtin.legacy)]),
      ("report", table
        [("dump_table", flag builtin.dumpTable), ("format", text builtin.format)])]

open Setting in
def ofSetting (s : Setting) : Except SettingsError Settings := do
  let ((enabled, legacy), (dumpTable, format)) ←
    s.pair "RigrefConfig" "resolver" "report"
      (fun s => s.pair "ResolverConfig" "enabled" "legacy_positional_numbers" asFlag asFlag)
      (fun s => s.pair "ReportConfig" "dump_table" "format" asFlag asText)
  return ⟨enabled, legacy, dumpTable, format⟩

/-- Settings from a file's text, if there is one, and from the command line, which may decide whether
the resolver is enabled. -/
def ofLayers (file : Option (String × String)) (enabled : Option Bool) :
    Except SettingsError Settings := do
  let tree ← match file with
    | none => pure defaults
    | some (path, text) =>
      match Toml.ofText? text with
      | some es => pure (Setting.overlay (Setting.entriesOfToml es) defaults)
      | none => .error (.malformed path)
  ofSetting <| match enabled with
    | some b => Setting.putAt (.flag b) "resolver" [.child "enabled"] tree
    | none => tree

end Settings

end RigNodes
