import RigNodes.Document.Shape
import RigNodes.Json.Tree

/-! Reading documents from JSON trees, by their shape. Reading goes through the tree in source
order and stops at the first problem, be it one of the text or one of the data. Only fields that
are missing are noticed late, at the end of their record. -/
namespace RigNodes.Json

/-- Most data is read as it streams in. Data that has to wait for a keyword further on is held
first, and read by somewhat different rules. -/
inductive Source
  | streamed
  | held
  deriving DecidableEq

/-- The key of a field: its name, or its place in held data. -/
inductive FieldKey
  | name (s : String)
  | place (i : Nat)

namespace FieldKey

def isFirst (k : FieldKey) (name : String) : Bool :=
  match k with
  | .name s => s == name
  | .place i => i == 0

/-- The same key, seen from the next field. -/
def next : FieldKey → FieldKey
  | name s => .name s
  | place i => .place (i - 1)

/-- In streamed data only text can be a key. -/
def ofTree (src : Source) (expected : String) (t : Tree) : Except Fault FieldKey :=
  match t with
  | .text decoded _ => decoded.map .name
  | .absent f => .error f
  | .atom (.ok (.integer (.ofNat i))) _ =>
    match src with
    | .streamed => .error .malformed
    | .held => .ok (.place i)
  | t =>
    match src with
    | .streamed => .error .malformed
    | .held => t.wrongType expected

end FieldKey

variable {α β : Type}

/-- The items of a list of any length. -/
def readList (item : Tree → Except Fault α) : Items → Except Fault (List α)
  | .closed => .ok []
  | .broken f | .afterComma f => .error f
  | .cons t rest => do
    let a ← item t
    let as ← readList item rest
    return a :: as

/-- The item at a place that must not be the end of the list. -/
def readItem (item : Tree → Except Fault α) (place : Nat) (expected : String) :
    Items → Except Fault (α × Items)
  | .closed => .error (.data (.wrongLength place expected))
  | .broken f | .afterComma f => .error f
  | .cons t rest => do
    let a ← item t
    return (a, rest)

/-- The next `n` items, of which the first stands at the given place. -/
def readArray (item : Tree → Except Fault α) (expected : String) :
    (n place : Nat) → Items → Except Fault (Vector α n × Items)
  | 0, _, items => .ok (#v[], items)
  | n + 1, place, items => do
    let (a, rest) ← readItem item place expected items
    let (v, rest) ← readArray item expected n (place + 1) rest
    return (Shape.cons a v, rest)

def Items.length : Items → Nat
  | .cons _ rest => rest.length + 1
  | _ => 0

def elements (n : Nat) : String :=
  if n = 1 then "1 element" else s!"{n} elements"

/-- The end of a list of which `n` items are read. What stands there too much is a fault of the
text in streamed data, and of the data in held data. -/
def readEnd (src : Source) (n : Nat) : Items → Except Fault Unit
  | .closed => .ok ()
  | .broken f => .error f
  | .afterComma _ => .error .malformed
  | .cons _ rest =>
    match src with
    | .streamed => .error .malformed
    | .held => .error (.data (.wrongLength (n + rest.length + 1) (elements n ++ " in sequence")))

/-- The members of a record. `take` reads the value of a field it knows. -/
def readMembers (src : Source) (take : FieldKey → Tree → β → Except Fault (Option β)) :
    β → Members → Except Fault β
  | found, .closed => .ok found
  | _, .broken f | _, .afterComma f => .error f
  | found, .cons key value rest => do
    let k ← FieldKey.ofTree src "field identifier" key
    match ← take k value found with
    | some found => readMembers src take found rest
    | none => do
      value.skip
      readMembers src take found rest

/-- A whole number between bounds. -/
def readWhole (least greatest : Int) (expected : String) (t : Tree) : Except Fault Int := do
  match ← t.found with
  | .integer i =>
    if least ≤ i ∧ i ≤ greatest then return i
    else .error (.data (.wrongValue (.integer i) expected))
  | f => .error (.data (.wrongType f expected))

def readWord (t : Tree) : Except Fault UInt32 := do
  return UInt32.ofNat (← readWhole 0 (Int.pow 2 32 - 1) "u32" t).toNat

def readSingle (t : Tree) : Except Fault Single := do
  match ← t.found with
  | .integer i => return .ofInt i
  | .float x => return .ofDouble x
  | f => .error (.data (.wrongType f "f32"))

def readFlag (t : Tree) : Except Fault Bool := do
  match ← t.found with
  | .flag b => return b
  | f => .error (.data (.wrongType f "a boolean"))

def readText (t : Tree) : Except Fault String := do
  match ← t.found with
  | .text s => return s
  | f => .error (.data (.wrongType f "a string"))

/-- What stands for a variant without content. In held data an empty map does, too. -/
def readNothing (src : Source) (t : Tree) : Except Fault Unit := do
  match src, t with
  | .held, .map .closed => return ()
  | _, t =>
    match ← t.found with
    | .null => return ()
    | f => .error (.data (.wrongType f "unit"))

/-- A variant: its name and its content. -/
abbrev Variant := String × Option Tree

/-- A variant written with content is a map with one member. In streamed data anything but text
and such a map is a fault of the text. The name is checked by `known` before the rest is read. -/
def readVariant (src : Source) (known : String → Except Fault Unit)
    (content : Variant → Except Fault α) (t : Tree) : Except Fault α := do
  match src, t with
  | _, .text decoded _ =>
    let name ← decoded
    known name
    content (name, none)
  | .streamed, .map members =>
    match members with
    | .closed => .error .malformed
    | .broken f | .afterComma f => .error f
    | .cons (.text decoded _) value rest =>
      let name ← decoded
      known name
      let a ← content (name, some value)
      match rest with
      | .closed => return a
      | .broken f => .error f
      | _ => .error .malformed
    | .cons key _ _ => key.wrongType "variant identifier"
  | .streamed, .absent f => .error f
  | .streamed, _ => .error .malformed
  | .held, .map (.cons key value .closed) =>
    match key with
    | .text decoded _ =>
      let name ← decoded
      known name
      content (name, some value)
    | t => t.wrongType "variant identifier"
  | .held, .map _ => .error (.data (.wrongValue .map "map with a single key"))
  | .held, t => t.wrongType "string or map"

def refVariants : List String := ["number", "name", "slot", "unresolved"]

def checkVariant (known : List String) (name : String) : Except Fault Unit :=
  if known.contains name then .ok () else .error (.data (.unknownVariant name known))

def readRef (src : Source) (t : Tree) : Except Fault NodeRef :=
  readVariant src (checkVariant refVariants)
    (fun
      | ("unresolved", none) => .ok .unresolved
      | ("unresolved", some t) => do
        readNothing src t
        return .unresolved
      | ("number", some t) => do return .number (← readWord t)
      | ("name", some t) => do return .name (← readText t)
      | ("slot", some t) => do return .slot ⟨← readWord t⟩
      | _ => .error (.data (.wrongType .bareVariant "newtype variant")))
    t

def keywordNames : List String := Keyword.all.map Keyword.text

def unknownKeyword (name : String) : Mismatch := .unknownVariant name keywordNames

def readKeyword (t : Tree) : Except Fault Keyword :=
  readVariant .streamed (checkVariant keywordNames)
    (fun (name, content) => do
      match content with
      | some t => readNothing .streamed t
      | none => pure ()
      match Keyword.ofText? name with
      | some k => return k
      | none => .error (.data (unknownKeyword name)))
    t

mutual

/-- Values are held in full, so every fault in them counts. Nesting is limited to the given
depth. -/
def Tree.hold (depth : Nat) : Tree → Except Fault Unit
  | .list items => if depth ≤ 1 then .error .malformed else items.hold (depth - 1)
  | .map members => if depth ≤ 1 then .error .malformed else members.hold (depth - 1)
  | t => discard t.found

def Items.hold (depth : Nat) : Items → Except Fault Unit
  | .closed => .ok ()
  | .broken f | .afterComma f => .error f
  | .cons t rest => do
    t.hold depth
    rest.hold depth

def Members.hold (depth : Nat) : Members → Except Fault Unit
  | .closed => .ok ()
  | .broken f | .afterComma f => .error f
  | .cons key value rest => do
    match key with
    | .text decoded _ => discard decoded
    | .absent f => .error f
    | _ => .error .malformed
    value.hold depth
    rest.hold depth

end

/-- The nesting that is left for values inside a section. -/
def heldDepth : Nat := 123

/-- The next member of a section that matters; others are passed over. -/
def nextMember : Members → Except Fault (Option (Bool × Tree × Members))
  | .closed => .ok none
  | .broken f | .afterComma f => .error f
  | .cons key value rest => do
    match ← FieldKey.ofTree .streamed "" key with
    | .name "keyword" => return some (true, value, rest)
    | .name "entries" => return some (false, value, rest)
    | _ => do
      value.skip
      nextMember rest

def sectionShape : String := "adjacently tagged enum Section"

def memberName (isKeyword : Bool) : String := if isKeyword then "keyword" else "entries"

/-- After both members of a section neither may come again. -/
def readSectionEnd (m : Members) : Except Fault Unit := do
  match ← nextMember m with
  | none => return ()
  | some (isKeyword, _, _) => .error (.data (.duplicateField (memberName isKeyword)))

/-- A section is a keyword with its entries, in either order. Entries that come first are held. -/
def readSection (entries : (k : Keyword) → Source → Tree → Except Fault (List (Entry k)))
    (t : Tree) : Except Fault Section := do
  match t with
  | .map members =>
    match ← nextMember members with
    | none => .error (.data (.missingField "keyword"))
    | some (true, first, rest) =>
      let k ← readKeyword first
      match ← nextMember rest with
      | none => .error (.data (.missingField "entries"))
      | some (true, _, _) => .error (.data (.duplicateField "keyword"))
      | some (false, second, rest) =>
        let es ← entries k .streamed second
        readSectionEnd rest
        return ⟨k, es⟩
    | some (false, first, rest) =>
      first.hold heldDepth
      match ← nextMember rest with
      | none => .error (.data (.missingField "keyword"))
      | some (false, _, _) => .error (.data (.duplicateField "entries"))
      | some (true, second, rest) =>
        let k ← readKeyword second
        let es ← entries k .held first
        readSectionEnd rest
        return ⟨k, es⟩
  | .list items =>
    let (k, rest) ← readItem readKeyword 0 sectionShape items
    let (es, rest) ← readItem (entries k .streamed) 1 sectionShape rest
    readEnd .streamed 2 rest
    return ⟨k, es⟩
  | t => t.wrongType sectionShape

def readOptional (item : Tree → Except Fault α) : Tree → Except Fault (Option α)
  | .atom (.ok .null) _ => .ok none
  | t => do return some (← item t)

def readSequence (item : Tree → Except Fault α) : Tree → Except Fault (List α)
  | .list items => readList item items
  | t => t.wrongType "a sequence"

def readTuple (src : Source) (item : Tree → Except Fault α) (n : Nat) :
    Tree → Except Fault (Vector α n)
  | .list items => do
    let (v, rest) ← readArray item s!"an array of length {n}" n 0 items
    readEnd src n rest
    return v
  | t => t.wrongType s!"an array of length {n}"

/-- The fields of a record that is read member by member. -/
def finish (fs : Fields α) (found : fs.Found) : Except Fault α :=
  (fs.complete found).mapError fun name => .data (.missingField name)

mutual

def decode (src : Source) : {α : Type} → Shape α → Tree → Except Fault α
  | _, .word, t => readWord t
  | _, .integer, t => do return Int32.ofInt (← readWhole (-Int.pow 2 31) (Int.pow 2 31 - 1) "i32" t)
  | _, .single, t => readSingle t
  | _, .flag, t => readFlag t
  | _, .text, t => readText t
  | _, .reference, t => readRef src t
  | _, .optional s, t => readOptional (decode src s) t
  | _, .list s, t => readSequence (decode src s) t
  | _, .array n s, t => readTuple src (decode src s) n t
  | _, .record name fields build _ _, t =>
    match t with
    | .map members => do
      let found ← readMembers src (decodeField src fields) fields.noneFound members
      return build (← finish fields found)
    | .list items => do
      let expected := "struct " ++ name ++ " with " ++ elements fields.size
      let (a, rest) ← decodeItems src expected fields 0 items
      readEnd src fields.size rest
      return build a
    | t => t.wrongType ("struct " ++ name)
  | _, .block entry, t =>
    readSection (fun k src t => readSequence (decode src (entry k)) t) t

/-- Reads the value of one field, if the record has it. A field must not come twice. -/
def decodeField (src : Source) : {α : Type} → (fs : Fields α) → FieldKey → Tree → fs.Found →
    Except Fault (Option fs.Found)
  | _, .done, _, _, _ => .ok none
  | _, .cons (α := α) name s _ rest, k, t, found =>
    let (a?, others) : Option α × rest.Found := found
    if k.isFirst name then
      match a? with
      | some _ => .error (.data (.duplicateField name))
      | none => do return some (some (← decode src s t), others)
    else do
      return (← decodeField src rest k.next t others).map fun others => (a?, others)

/-- Reads a record that is written as the list of its fields. The last ones may be missing if
there are values that stand for them. -/
def decodeItems (src : Source) (expected : String) : {α : Type} → Fields α → Nat → Items →
    Except Fault (α × Items)
  | _, .done, _, items => .ok ((), items)
  | _, .cons _ s presence rest, place, items => do
    let (a, items) ← match items, presence.default? with
      | .closed, some a => pure (a, .closed)
      | items, _ => readItem (decode src s) place expected items
    let (b, items) ← decodeItems src expected rest (place + 1) items
    return ((a, b), items)

end

end RigNodes.Json
