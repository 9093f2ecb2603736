import RigNodes.Yaml.Token

/-! YAML documents as trees of nodes. A recall stays in the tree as it is, since a node may recall
itself. -/
namespace RigNodes.Yaml

/-- Recalls hold the number of an anchor. -/
inductive Node
  | scalar (tag : Option String) (form : Form) (text : String)
  | list (tag : Option String) (items : List Node)
  | map (tag : Option String) (members : List (Node × Node))
  | recall (anchor : Nat)

namespace Node

/-- What stands where a node was left out. -/
def empty : Node := scalar none .plain ""

end Node

/-- What is known while a document is read, and the tokens that are left. -/
structure Composer where
  rest : List Token
  /-- The nodes and closing brackets met so far, as a measure of the document's size. -/
  size : Nat
  /-- Names of anchors with their numbers, each name once. -/
  anchors : List (String × Nat)
  /-- Numbers with the place where their node started, latest first. -/
  starts : List (Nat × Nat)
  /-- Nodes that have an anchor, by the place where they started. -/
  nodes : List (Nat × Node)
  /-- Handles of tags with their meanings. -/
  handles : List (String × String)

namespace Composer

def start (handles : List (String × String)) (ts : List Token) : Composer :=
  ⟨ts, 0, [], [], [], handles⟩

/-- Gives an anchor the number of names in use. A name that is used again takes a number that a
later name may take as well; then the later node counts. -/
def declare (s : Composer) (name : String) : Composer :=
  let n := s.anchors.length
  { s with
    anchors := (name, n) :: s.anchors.filter (fun a => a.1 != name)
    starts := (n, s.size) :: s.starts }

/-- The node that a number stands for in the end. -/
def target? (s : Composer) (n : Nat) : Option Node := do s.nodes.lookup (← s.starts.lookup n)

end Composer

/-- A step of reading. It fails if the tokens do not fit. -/
abbrev Compose (α : Type) := StateT Composer Option α

namespace Compose

def rest : Compose (List Token) := do return (← get).rest

/-- Goes on by a token. -/
def skip : Compose Unit := modify fun s => { s with rest := s.rest.drop 1 }

/-- Counts a node or a closing bracket. -/
def count : Compose Unit := modify fun s => { s with size := s.size + 1 }

/-- The full name of a tag. -/
def tagName (handle suffix : String) : Compose String := do
  if handle.isEmpty then return suffix
  match (← get).handles.lookup handle with
  | some meaning => return meaning ++ suffix
  | none => failure

/-- A node that was left out. -/
def leftOut : Compose Node := do
  count
  return .empty

/-- Keeps a finished node that has an anchor. -/
def keep (place : Nat) (n : Node) : Compose Unit :=
  modify fun s => { s with nodes := (place, n) :: s.nodes }

end Compose

/-- Anchor and tag in front of a node, in either order, each at most once. -/
structure Marks where
  anchor : Option String
  tag : Option (String × String)

namespace Marks

def take : List Token → Marks × List Token
  | .anchor a :: .tag h x :: r => (⟨some a, some (h, x)⟩, r)
  | .anchor a :: r => (⟨some a, none⟩, r)
  | .tag h x :: .anchor a :: r => (⟨some a, some (h, x)⟩, r)
  | .tag h x :: r => (⟨none, some (h, x)⟩, r)
  | r => (⟨none, none⟩, r)

def isNone (m : Marks) : Bool := m.anchor.isNone && m.tag.isNone

end Marks

/-- Where a node stands. Blocks cannot stand between brackets, and a list may stand below its key
without indentation. -/
inductive Context
  | flow | block | belowKey
  deriving DecidableEq, Repr

/-- The places where a node may be left out. -/
inductive Opening
  | blockItem | belowKeyItem | blockMember | flowItem | flowMember
  deriving DecidableEq, Repr

/-- Whether the next token shows that a node was left out. -/
def Opening.isOpen (p : Opening) (ts : List Token) : Bool :=
  match p, ts with
  | .blockItem, .dash :: _ | .blockItem, .blockEnd :: _ => true
  | .belowKeyItem, .dash :: _ | .belowKeyItem, .key :: _ | .belowKeyItem, .value :: _
  | .belowKeyItem, .blockEnd :: _ => true
  | .blockMember, .key :: _ | .blockMember, .value :: _ | .blockMember, .blockEnd :: _ => true
  | .flowItem, .value :: _ | .flowItem, .comma :: _ | .flowItem, .flowListEnd :: _ => true
  | .flowMember, .value :: _ | .flowMember, .comma :: _ | .flowMember, .flowMapEnd :: _ => true
  | _, _ => false

namespace Compose

mutual

/-- Reads a node. The fuel bounds the depth of the recursion; four times the number of tokens is
enough. -/
def readNode : Nat → Context → Compose Node
  | 0, _ => failure
  | fuel + 1, context => do
    match ← rest with
    | .recall x :: _ =>
      skip
      count
      match (← get).anchors.lookup x with
      | some n => return .recall n
      | none => failure
    | ts =>
      let (marks, ts) := Marks.take ts
      modify fun s => { s with rest := ts }
      let tag ← marks.tag.mapM fun (h, x) => tagName h x
      let place := (← get).size
      if let some x := marks.anchor then modify (·.declare x)
      count
      let n ← readContent fuel context tag (!marks.isNone)
      if marks.anchor.isSome then keep place n
      return n

/-- Reads what stands after the marks of a node. Only a node with marks may be left out. -/
def readContent : Nat → Context → Option String → Bool → Compose Node
  | 0, _, _, _ => failure
  | fuel + 1, context, tag, marked => do
    match context, ← rest with
    | .belowKey, .dash :: _ =>
      let items ← readItems fuel .belowKeyItem
      count
      return .list tag items
    | _, .scalar form x :: _ =>
      skip
      return .scalar (if tag = some "!" then none else tag) form x
    | _, .flowListStart :: _ =>
      skip
      let items ← readFlowItems fuel true
      count
      return .list tag items
    | _, .flowMapStart :: _ =>
      skip
      let members ← readFlowMembers fuel true
      count
      return .map tag members
    | _, ts =>
      match context == .flow, ts with
      | false, .blockListStart :: _ =>
        skip
        let items ← readItems fuel .blockItem
        count
        return .list tag items
      | false, .blockMapStart :: _ =>
        skip
        let members ← readMembers fuel
        count
        return .map tag members
      | _, _ => if marked then return .scalar tag .plain "" else failure

/-- Reads a node or sees that it was left out. -/
def readOr : Nat → Opening → Context → Compose Node
  | 0, _, _ => failure
  | fuel + 1, place, context => do
    if place.isOpen (← rest) then leftOut else readNode fuel context

/-- The items of a block list. One below its key ends without a token of its own. -/
def readItems : Nat → Opening → Compose (List Node)
  | 0, _ => failure
  | fuel + 1, place => do
    match place, ← rest with
    | _, .dash :: _ =>
      skip
      let n ← readOr fuel place .block
      return n :: (← readItems fuel place)
    | .blockItem, .blockEnd :: _ =>
      skip
      return []
    | .blockItem, _ => failure
    | _, _ => return []

/-- The value of a member of a block map, if there is one. -/
def readValue : Nat → Compose Node
  | 0 => failure
  | fuel + 1 => do
    match ← rest with
    | .value :: _ =>
      skip
      readOr fuel .blockMember .belowKey
    | _ => leftOut

def readMembers : Nat → Compose (List (Node × Node))
  | 0 => failure
  | fuel + 1 => do
    match ← rest with
    | .key :: _ =>
      skip
      let k ← readOr fuel .blockMember .belowKey
      let v ← readValue fuel
      return (k, v) :: (← readMembers fuel)
    | .blockEnd :: _ =>
      skip
      return []
    | _ => failure

/-- The value of a member between brackets. -/
def readFlowValue : Nat → Opening → Compose Node
  | 0, _ => failure
  | fuel + 1, place => do
    match ← rest with
    | .value :: .value :: _ => failure
    | .value :: _ =>
      skip
      readOr fuel place .flow
    | _ => leftOut

/-- The items between square brackets, with commas between them and perhaps one after the last. -/
def readFlowItems : Nat → Bool → Compose (List Node)
  | 0, _ => failure
  | fuel + 1, first => do
    match first, ← rest with
    | _, .flowListEnd :: _ =>
      skip
      return []
    | false, .comma :: .flowListEnd :: _ =>
      skip
      skip
      return []
    | false, .comma :: _ =>
      skip
      let n ← readFlowItem fuel
      return n :: (← readFlowItems fuel false)
    | false, _ => failure
    | true, _ =>
      let n ← readFlowItem fuel
      return n :: (← readFlowItems fuel false)

/-- An item between square brackets. A member on its own is a map with this one member. -/
def readFlowItem : Nat → Compose Node
  | 0 => failure
  | fuel + 1 => do
    match ← rest with
    | .key :: ts =>
      skip
      count
      let k ← if Opening.flowItem.isOpen ts then skip *> leftOut else readNode fuel .flow
      let v ← readFlowValue fuel .flowItem
      count
      return .map none [(k, v)]
    | _ => readNode fuel .flow

/-- The members between braces, with commas as in lists. -/
def readFlowMembers : Nat → Bool → Compose (List (Node × Node))
  | 0, _ => failure
  | fuel + 1, first => do
    match first, ← rest with
    | _, .flowMapEnd :: _ =>
      skip
      return []
    | false, .comma :: .flowMapEnd :: _ =>
      skip
      skip
      return []
    | false, .comma :: _ =>
      skip
      let m ← readFlowMember fuel
      return m :: (← readFlowMembers fuel false)
    | false, _ => failure
    | true, _ =>
      let m ← readFlowMember fuel
      return m :: (← readFlowMembers fuel false)

/-- A member between braces. A node without a colon is a key without a value. -/
def readFlowMember : Nat → Compose (Node × Node)
  | 0 => failure
  | fuel + 1 => do
    match ← rest with
    | .key :: _ =>
      skip
      let k ← readOr fuel .flowMember .flow
      return (k, ← readFlowValue fuel .flowMember)
    | _ =>
      let k ← readNode fuel .flow
      return (k, ← leftOut)

end

end Compose

/-- Handles that need no directive. -/
def usualHandles : List (String × String) := [("!", "!"), ("!!", "tag:yaml.org,2002:")]

/-- The directives of a document: at most one version, and each handle at most once. -/
def readDirectives (version : Bool) (handles : List (String × String)) :
    List Token → Option (List (String × String) × List Token)
  | .versionDirective major minor :: ts =>
    if version ∨ major ≠ 1 ∨ (minor ≠ 1 ∧ minor ≠ 2) then none
    else readDirectives true handles ts
  | .tagDirective h x :: ts =>
    if (handles.lookup h).isSome then none else readDirectives version (handles ++ [(h, x)]) ts
  | ts => some (handles, ts)

/-- Whether a document ends here that has a start mark and no content. -/
def isContentEnd : List Token → Bool
  | [] => true
  | .versionDirective .. :: _ | .tagDirective .. :: _ | .documentStart :: _ | .documentEnd :: _ =>
    true
  | _ => false

/-- A document as it is read: its tree, if it has one, with the nodes that it recalls. -/
structure Composition where
  root : Option Node
  composer : Composer

namespace Composition

/-- Reads a document, without what follows it. Directives need a start mark after them. -/
def ofDocument? (ts : List Token) : Option (Node × Composer) :=
  let fuel := 4 * ts.length + 4
  match ts with
  | .versionDirective .. :: _ | .tagDirective .. :: _ | .documentStart :: _ => do
    let (handles, ts) ← readDirectives false [] ts
    match ts with
    | .documentStart :: ts =>
      let s := Composer.start (handles ++ usualHandles) ts
      if isContentEnd ts then Compose.leftOut.run s
      else (Compose.readNode fuel .block).run s
    | _ => none
  | ts => (Compose.readNode fuel .block).run (.start usualHandles ts)

/-- The only document of a text. A text without tokens has no root; a second document is refused. -/
def ofTokens? (ts : List Token) : Option Composition :=
  match ts with
  | [] => some ⟨none, .start usualHandles []⟩
  | ts => do
    let (root, s) ← ofDocument? ts
    guard (s.rest.all (· == .documentEnd))
    return ⟨some root, s⟩

end Composition

end RigNodes.Yaml
