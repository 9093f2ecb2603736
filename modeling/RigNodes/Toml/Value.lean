import RigNodes.Number.Binary

/-! TOML documents: tables of values, and the tables that are built while a document is read. -/
namespace RigNodes.Toml

/-- A moment in time is kept as its text. -/
inductive Value
  | text (s : String)
  | integer (i : Int)
  | float (x : Double)
  | flag (b : Bool)
  | moment (s : String)
  | list (items : List Value)
  | table (entries : List (String × Value))

/-- Where a table comes from: a header or braces of its own, a header of a table inside it, or a
dotted key. -/
inductive Origin
  | own | header | dotted
  deriving DecidableEq, Repr

mutual

/-- An entry of a table that is being built. Tables of a list are held latest first. -/
inductive Item
  | value (v : Value)
  | table (t : Table)
  | tables (latest : Table) (others : List Table)

inductive Table
  | mk (origin : Origin) (entries : List (String × Item))

end

namespace Table

def empty (o : Origin) : Table := mk o []

def origin : Table → Origin
  | mk o _ => o

def entries : Table → List (String × Item)
  | mk _ es => es

def find? (t : Table) (key : String) : Option Item := t.entries.lookup key

/-- Replaces the entry of a key, or adds it at the end. -/
def put (t : Table) (key : String) (i : Item) : Table :=
  let rec place : List (String × Item) → List (String × Item)
    | [] => [(key, i)]
    | e :: es => if e.1 == key then (key, i) :: es else e :: place es
  mk t.origin (place t.entries)

/-- Changes the table at the end of a path, and creates what is missing on the way. Of a list of
tables the latest is meant. Values bar the way, and dotted keys do not lead into tables that have a
definition of their own. -/
def change (dotted : Bool) (f : Table → Option Table) : List String → Table → Option Table
  | [], t => f t
  | key :: path, t =>
    match t.find? key with
    | none => do
      let inner ← change dotted f path (empty (if dotted then .dotted else .header))
      return t.put key (.table inner)
    | some (.value _) => none
    | some (.table inner) =>
      if dotted ∧ inner.origin = .own then none
      else do return t.put key (.table (← change dotted f path inner))
    | some (.tables latest others) => do
      return t.put key (.tables (← change dotted f path latest) others)

/-- Adds a value under a dotted key. No key is used twice, and all but the last part of the key name
tables that dotted keys have made. -/
def insert (path : List String) (key : String) (v : Value) (t : Table) : Option Table :=
  t.change true (fun inner =>
    if (!path.isEmpty && inner.origin != .dotted) || (inner.find? key).isSome then none
    else some (inner.put key (.value v))) path

/-- Opens a table under its header. It may have been created by headers of tables inside it, but not
in any other way. -/
def openTable (path : List String) (key : String) (t : Table) : Option Table :=
  t.change false (fun parent =>
    match parent.find? key with
    | none => some (parent.put key (.table (empty .own)))
    | some (.table inner) =>
      if inner.origin = .header then some (parent.put key (.table (mk .own inner.entries))) else none
    | some _ => none) path

/-- Adds a table to a list of tables. -/
def openListed (path : List String) (key : String) (t : Table) : Option Table :=
  t.change false (fun parent =>
    match parent.find? key with
    | none => some (parent.put key (.tables (empty .own) []))
    | some (.tables latest others) => some (parent.put key (.tables (empty .own) (latest :: others)))
    | some _ => none) path

end Table

mutual

def Item.finished : Item → Value
  | .value v => v
  | .table t => .table t.values
  | .tables latest others => .list ((Value.table latest.values :: tablesValues others).reverse)

def Table.values : Table → List (String × Value)
  | .mk _ es => entriesValues es

def entriesValues : List (String × Item) → List (String × Value)
  | [] => []
  | (key, i) :: es => (key, i.finished) :: entriesValues es

def tablesValues : List Table → List Value
  | [] => []
  | t :: ts => Value.table t.values :: tablesValues ts

end

end RigNodes.Toml
