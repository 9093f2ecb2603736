import RigNodes.Toml.Number
import RigNodes.Toml.Text

/-! Reading TOML documents. Nothing is said about what is wrong with a text that is none. -/
namespace RigNodes.Toml

/-- Goes over a comment, which must not hold controls. -/
def skipComment (cs : List Char) : List Char :=
  match cs with
  | '#' :: r => r.dropWhile isTextChar
  | cs => cs

/-- Goes to the next line. Only blanks and a comment may be left in this one. -/
def nextLine? (cs : List Char) : Option (List Char) :=
  match skipComment (skipBlanks cs) with
  | [] => some []
  | '\n' :: r => some r
  | '\r' :: '\n' :: r => some r
  | _ => none

/-- Goes over blanks, comments and line ends between the items of a list. The fuel bounds the number
of lines. -/
def skipLines : Nat → List Char → List Char
  | 0, cs => cs
  | fuel + 1, cs =>
    match skipComment (skipBlanks cs) with
    | '\n' :: r => skipLines fuel r
    | '\r' :: '\n' :: r => skipLines fuel r
    | r => r

/-- How deep keys and values may nest. -/
def depthLimit : Nat := 79

mutual

/-- Reads a value. The first fuel bounds the nesting, the second the length of lists. -/
def readValue : Nat → Nat → List Char → Option (Value × List Char)
  | _, 0, _ => none
  | depth, fuel + 1, cs =>
    match cs with
    | '"' :: _ | '\'' :: _ => (readText cs).map fun (s, r) => (.text s, r)
    | '[' :: r =>
      match depth with
      | 0 => none
      | depth + 1 => (readItems depth fuel r).map fun (vs, r) => (.list vs, r)
    | '{' :: r =>
      match depth with
      | 0 => none
      | depth + 1 =>
        match skipBlanks r with
        | '}' :: r => some (.table [], r)
        | r => (readMembers depth fuel (.empty .own) r).map fun (t, r) => (.table t.values, r)
    | cs =>
      let word := wordOf cs
      (wordValue? word).map fun v => (v, cs.drop word.length)

/-- Reads the items of a list. A comma may stand after the last one. -/
def readItems : Nat → Nat → List Char → Option (List Value × List Char)
  | _, 0, _ => none
  | depth, fuel + 1, cs =>
    match skipLines (cs.length + 1) cs with
    | ']' :: r => some ([], r)
    | r => do
      let (v, r) ← readValue depth fuel r
      match skipLines (r.length + 1) r with
      | ',' :: r => do
        let (vs, r) ← readItems depth fuel r
        return (v :: vs, r)
      | ']' :: r => return ([v], r)
      | _ => none

/-- Reads the members of a table in braces, all in one line. -/
def readMembers : Nat → Nat → Table → List Char → Option (Table × List Char)
  | _, 0, _, _ => none
  | depth, fuel + 1, t, cs => do
    let (path, r) ← readKey depthLimit cs
    match r with
    | '=' :: r => do
      let (v, r) ← readValue depth fuel (skipBlanks r)
      let t ← t.insert path.dropLast (path.getLastD "") v
      match skipBlanks r with
      | ',' :: r => readMembers depth fuel t r
      | '}' :: r => return (t, r)
      | _ => none
    | _ => none

end

/-- A document as far as it is read, with the header that its lines stand under. -/
structure Draft where
  root : Table
  header : List String

namespace Draft

def start : Draft := ⟨.empty .own, []⟩

/-- Reads a header, after its opening bracket. -/
def readHeader? (d : Draft) (cs : List Char) : Option (Draft × List Char) := do
  let (listed, cs) := match cs with
    | '[' :: r => (true, r)
    | r => (false, r)
  let (path, r) ← readKey depthLimit cs
  let r ← match listed, r with
    | true, ']' :: ']' :: r => some r
    | false, ']' :: r => some r
    | _, _ => none
  let parents := path.dropLast
  let key := path.getLastD ""
  let root ← if listed then d.root.openListed parents key else d.root.openTable parents key
  return (⟨root, path⟩, r)

/-- Reads a key with its value. -/
def readMember? (d : Draft) (cs : List Char) : Option (Draft × List Char) := do
  let (path, r) ← readKey depthLimit cs
  match r with
  | '=' :: r => do
    let r := skipBlanks r
    let (v, r) ← readValue depthLimit (r.length + 1) r
    let root ← d.root.change false (Table.insert path.dropLast (path.getLastD "") v) d.header
    return ({ d with root }, r)
  | _ => none

/-- Reads line by line. A value may take several lines, but none is shorter than a character, so the
length of the text is fuel enough. -/
def readLines : Nat → Draft → List Char → Option Draft
  | 0, d, _ => some d
  | fuel + 1, d, cs =>
    match skipBlanks cs with
    | [] => some d
    | '[' :: r => do
      let (d, r) ← d.readHeader? r
      readLines fuel d (← nextLine? r)
    | c :: r => do
      let (d, r) ←
        if c = '#' ∨ c = '\n' ∨ c = '\r' then some (d, c :: r) else d.readMember? (c :: r)
      readLines fuel d (← nextLine? r)

end Draft

/-- The entries of a document. A byte order mark at its start does not count. -/
def ofText? (s : String) : Option (List (String × Value)) :=
  let cs := match s.toList with
    | '\uFEFF' :: r => r
    | r => r
  (Draft.start.readLines (cs.length + 1) cs).map fun d => d.root.values

end RigNodes.Toml
