import RigNodes.Yaml.Cursor
import RigNodes.Yaml.Token

/-! Tokens that mark a node or a document: anchors, tags and directives. -/
namespace RigNodes.Yaml

/-- Characters of tags besides letters, digits, dashes and underscores. Those that also have a
meaning between brackets belong to a tag only if it stands between angle brackets. -/
def isTagChar (verbatim : Bool) (c : Char) : Bool :=
  isWordChar c || ";/?:@&=+$.!~*'()".toList.contains c || (verbatim && ",[]".toList.contains c)

/-- A character whose bytes are written one by one: how many bytes are still to come, and the bits
read so far. -/
structure Bytes where
  missing : Nat
  bits : Nat

namespace Bytes

def none : Bytes := ⟨0, 0⟩

/-- Takes one byte. Its leading bits say what it is. -/
def add? (b : Bytes) (n : Nat) : Option Bytes :=
  if b.missing = 0 then
    if n < 0x80 then some ⟨0, n⟩
    else if 0xC0 ≤ n ∧ n < 0xE0 then some ⟨1, n % 0x20⟩
    else if 0xE0 ≤ n ∧ n < 0xF0 then some ⟨2, n % 0x10⟩
    else if 0xF0 ≤ n ∧ n < 0xF8 then some ⟨3, n % 0x08⟩
    else .none
  else if 0x80 ≤ n ∧ n < 0xC0 then some ⟨b.missing - 1, b.bits * 0x40 + n % 0x40⟩
  else .none

end Bytes

/-- The characters of a tag, with how many were used for them. A percent sign is followed by the
two digits of a byte. -/
def readTagChars (verbatim : Bool) (acc : List Char) (used : Nat) (bytes : Bytes) :
    List Char → Option (List Char × Nat)
  | '%' :: a :: b :: r =>
    ((natural? 16 [a, b]).bind bytes.add?).bind fun bytes =>
      let acc := if bytes.missing = 0 then Char.ofNat bytes.bits :: acc else acc
      readTagChars verbatim acc (used + 3) bytes r
  | c :: r =>
    if bytes.missing ≠ 0 ∨ c = '%' then none
    else if isTagChar verbatim c then readTagChars verbatim (c :: acc) (used + 1) .none r
    else some (acc.reverse, used)
  | [] => if bytes.missing ≠ 0 then none else some (acc.reverse, used)

/-- The characters of a tag at a cursor, at least as many as told. -/
def tagChars? (verbatim : Bool) (least : Nat) (c : Cursor) : Option (String × Cursor) :=
  (readTagChars verbatim [] 0 .none c.rest).bind fun (cs, used) =>
    if used < least then none else some (String.ofList cs, c.advance used)

/-- A handle is a word between exclamation marks, of which the closing one may be missing. -/
def handle? (c : Cursor) : Option (List Char × Bool × Cursor) :=
  match c.rest with
  | '!' :: _ =>
    let (word, c) := (c.advance 1).span isWordChar
    match c.rest with
    | '!' :: _ => some (word, true, c.advance 1)
    | _ => some (word, false, c)
  | _ => none

/-- A tag: verbatim, with a handle of its own, or with the primary handle. A mark on its own is the
tag of no type in particular. -/
def readTag (c : Cursor) : Option (Token × Cursor) :=
  match c.rest with
  | '!' :: '<' :: _ => do
    let (name, c) ← tagChars? true 1 (c.advance 2)
    match c.rest with
    | '>' :: _ => return (.tag "" name, c.advance 1)
    | _ => none
  | _ => do
    let (word, closed, c) ← handle? c
    if closed then
      let (name, c) ← tagChars? false 1 c
      return (.tag (String.ofList ('!' :: (word ++ ['!']))) name, c)
    else
      let (name, c) ← tagChars? false 0 c
      let name := String.ofList word ++ name
      return (if name.isEmpty then .tag "" "!" else .tag "!" name, c)

/-- What may follow a tag. -/
def endsTag (flow : Bool) (cs : List Char) : Bool := endsWord cs || (flow && cs.head? == some ',')

/-- What may follow an anchor. -/
def endsAnchor (cs : List Char) : Bool :=
  endsWord cs || cs.head?.any fun c => "?:,]\x7d%@`".toList.contains c

/-- The name after the mark of an anchor or of a recall. -/
def readName (c : Cursor) : Option (String × Cursor) :=
  let (word, c) := (c.advance 1).span isWordChar
  if word.isEmpty || !endsAnchor c.rest then none else some (String.ofList word, c)

/-- A number of at most nine digits. -/
def versionNumber? (c : Cursor) : Option (Nat × Cursor) :=
  let (ds, c) := c.span Char.isDigit
  if 9 < ds.length then none else (natural? 10 ds).map fun n => (n, c)

def versionDirective? (c : Cursor) : Option (Token × Cursor) := do
  let (major, c) ← versionNumber? (c.skipWhile isSpaceOrTab)
  match c.rest with
  | '.' :: _ =>
    let (minor, c) ← versionNumber? (c.advance 1)
    return (.versionDirective major minor, c)
  | _ => none

/-- Only the primary handle may do without its closing mark. -/
def tagDirective? (c : Cursor) : Option (Token × Cursor) := do
  let (word, closed, c) ← handle? (c.skipWhile isSpaceOrTab)
  guard (closed || word.isEmpty)
  guard (c.rest.head?.any isSpaceOrTab)
  let (meaning, c) ← tagChars? true 1 (c.skipWhile isSpaceOrTab)
  guard (endsWord c.rest)
  return (.tagDirective (String.ofList ('!' :: (word ++ if closed then ['!'] else []))) meaning, c)

/-- A directive takes a line. -/
def readDirective (c : Cursor) : Option (Token × Cursor) := do
  let (name, c) := (c.advance 1).span isWordChar
  guard (endsWord c.rest)
  let (token, c) ←
    if name = "YAML".toList then versionDirective? c
    else if name = "TAG".toList then tagDirective? c
    else none
  return (token, ← c.restOfLine?)

end RigNodes.Yaml
