import RigNodes.Yaml.Style

/-! A place in YAML text: what is left to read, and the line and column of it. -/
namespace RigNodes.Yaml

/-- Characters that may stand in a document at all. -/
def isAllowed (c : Char) : Bool :=
  isPrintable c || c == '\t' || c == '\r' || c == '\x85' || c == '\uFEFF'

/-- Writes every kind of line end as one line feed. Separators of lines and paragraphs end lines as
well, and stay what they are. -/
def unifyBreaks : List Char → List Char
  | '\r' :: '\n' :: r => '\n' :: unifyBreaks r
  | '\r' :: r => '\n' :: unifyBreaks r
  | '\x85' :: r => '\n' :: unifyBreaks r
  | c :: r => c :: unifyBreaks r
  | [] => []

structure Cursor where
  rest : List Char
  line : Nat
  column : Nat
  deriving Repr

namespace Cursor

/-- The start of a text. A byte order mark does not count; a second one takes a column. -/
def start (s : String) : Cursor :=
  match unifyBreaks s.toList with
  | '\uFEFF' :: '\uFEFF' :: r => ⟨r, 0, 1⟩
  | '\uFEFF' :: r => ⟨r, 0, 0⟩
  | r => ⟨r, 0, 0⟩

/-- Goes on by `n` characters of a line. -/
def advance (c : Cursor) (n : Nat) : Cursor := { c with rest := c.rest.drop n, column := c.column + n }

/-- Goes on to the next line, if the line ends here. -/
def endLine (c : Cursor) : Cursor :=
  match c.rest with
  | x :: r => if isBreak x then ⟨r, c.line + 1, 0⟩ else c
  | [] => c

/-- The characters of a line up to the first one without the property. -/
def span (p : Char → Bool) (c : Cursor) : List Char × Cursor :=
  let cs := c.rest.takeWhile p
  (cs, c.advance cs.length)

def skipWhile (p : Char → Bool) (c : Cursor) : Cursor := (c.span p).2

/-- Goes to the end of the line if a comment starts here. -/
def skipComment (c : Cursor) : Cursor :=
  match c.rest with
  | '#' :: _ => c.skipWhile fun x => !isBreak x
  | _ => c

/-- Whether the line ends here. -/
def atLineEnd (c : Cursor) : Bool :=
  match c.rest with
  | x :: _ => isBreak x
  | [] => true

/-- Goes over the rest of a line that holds blanks and a comment only. -/
def restOfLine? (c : Cursor) : Option Cursor :=
  let c := (c.skipWhile isSpaceOrTab).skipComment
  if c.atLineEnd then some c.endLine else none

end Cursor

/-- Three dashes or dots that mark where a document starts or ends, seen in the first column. -/
def isDocumentMark : List Char → Bool
  | '-' :: '-' :: '-' :: r => endsWord r
  | '.' :: '.' :: '.' :: r => endsWord r
  | _ => false

/-- Characters of names and of tag handles. -/
def isWordChar (c : Char) : Bool := c.isAlphanum || c == '-' || c == '_'

end RigNodes.Yaml
