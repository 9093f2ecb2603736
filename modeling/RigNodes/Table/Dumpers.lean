import RigNodes.Table.Dump

/-! The dump formats that can be chosen by name. -/
namespace RigNodes

inductive DumpError
  | unknownFormat (name : String)
  /-- The text could not be written. -/
  | unwritable
  | json (reason : String)
  deriving DecidableEq, Repr

def DumpError.message : DumpError → String
  | unknownFormat name => s!"unknown table format '{name}'"
  | unwritable => "could not write table: an error occurred when formatting an argument"
  | json reason => s!"could not encode table as JSON: {reason}"

/-- A way to dump tables. -/
structure Dumper where
  name : String
  description : String
  render : List ModuleTable → Except DumpError String

namespace Dumper

def text : Dumper where
  name := "text"
  description := "One line per slot: slot, origin, user id, sub-role and ray"
  render ms := .ok (ModuleTable.dumpText ms)

def json : Dumper where
  name := "json"
  description := "Module tables as a JSON array, entries indexed by slot"
  render ms := .ok (ModuleTable.dumpJson ms)

end Dumper

/-- Dumpers in the order of their names, each name once. -/
structure Dumpers where
  dumpers : List Dumper

namespace Dumpers

/-- Puts a dumper in its place, instead of one that has its name. -/
def place (d : Dumper) : List Dumper → List Dumper
  | [] => [d]
  | x :: xs =>
    if d.name < x.name then d :: x :: xs
    else if d.name = x.name then d :: xs
    else x :: place d xs

def insert (r : Dumpers) (d : Dumper) : Dumpers := ⟨place d r.dumpers⟩

def empty : Dumpers := ⟨[]⟩

/-- The formats that are always there. -/
def builtin : Dumpers := (empty.insert .text).insert .json

def find? (r : Dumpers) (name : String) : Option Dumper := r.dumpers.find? fun d => d.name == name

def render (r : Dumpers) (name : String) (ms : List ModuleTable) : Except DumpError String :=
  match r.find? name with
  | some d => d.render ms
  | none => .error (.unknownFormat name)

/-- Names and descriptions, for listings. -/
def listing (r : Dumpers) : List (String × String) := r.dumpers.map fun d => (d.name, d.description)

end Dumpers

end RigNodes
