import RigNodes.Text.Blank
import RigNodes.Yaml.Scalar

/-! Styles of YAML scalars: plain, in single or double quotes, or as a literal block. What a text
consists of decides which styles can hold it. -/
namespace RigNodes.Yaml

/-- Characters that end a line. -/
def isBreak (c : Char) : Bool :=
  c == '\n' || c == '\r' || c == '\x85' || c == '\u2028' || c == '\u2029'

def isSpaceOrTab (c : Char) : Bool := c == ' ' || c == '\t'

/-- Characters that may stand in a text without an escape. -/
def isPrintable (c : Char) : Bool :=
  let n := c.toNat
  n == 0x0A || (0x20 ≤ n && n ≤ 0x7E) || (0xA0 ≤ n && n ≤ 0xFFFD && n != 0xFEFF) || 0x10000 ≤ n

inductive Style
  | plain | single | double | literal
  deriving DecidableEq, Repr

/-- Whether a word ends before this text: at its end, at a space, or at a break. -/
def endsWord : List Char → Bool
  | [] => true
  | c :: _ => isSpaceOrTab c || isBreak c || c == '\x00'

/-- Characters that mean something at the start of a node. -/
def isIndicator (c : Char) : Bool := "#,[]\x7b\x7d&*!|>'\"%@`".toList.contains c

/-- Whether a text starts with something other than plain text. -/
def startsMarked : List Char → Bool
  | '-' :: '-' :: '-' :: _ | '.' :: '.' :: '.' :: _ => true
  | c :: r => isIndicator c || ((c == '?' || c == ':' || c == '-') && endsWord r)
  | [] => false

/-- Whether a key or a comment would be seen after the given character. -/
def hasMark (previous : Char) : List Char → Bool
  | [] => false
  | c :: r => (c == ':' && endsWord r) || (c == '#' && endsWord [previous]) || hasMark c r

/-- Whether one of these characters stands right before one of those. -/
def hasPair (first second : Char → Bool) : List Char → Bool
  | a :: b :: r => (first a && second b) || hasPair first second (b :: r)
  | _ => false

namespace Style

def isSpace (c : Char) : Bool := c == ' '

/-- Quotes hold everything that can be printed, but no spaces around breaks. -/
def singleHolds (cs : List Char) : Bool :=
  cs.all isPrintable && !hasPair isSpace isBreak cs && !hasPair isBreak isSpace cs

/-- Blocks hold everything that can be printed, but no spaces at the ends of lines. -/
def literalHolds (cs : List Char) : Bool :=
  cs.all isPrintable && !hasPair isSpace isBreak cs && !cs.getLast?.any isSpace

/-- Plain text has one line, does not start or end with a space, and has no marks. -/
def plainHolds (cs : List Char) : Bool :=
  cs.all isPrintable && !cs.any isBreak && !cs.head?.any isSpace && !cs.getLast?.any isSpace
    && !startsMarked cs && !hasMark (cs.headD ' ') (cs.drop 1)

/-- The style of a text. Text of several lines becomes a block if it can, and text that would read
as something else is quoted. -/
def ofText (s : String) : Style :=
  let cs := s.toList
  if cs.contains '\n' then if literalHolds cs then .literal else .double
  else if !isAmbiguous s && plainHolds cs then .plain
  else if singleHolds cs then .single
  else .double

end Style

def hexDigits (width n : Nat) : List Char :=
  let ds := (Nat.toDigits 16 n).map Char.toUpper
  List.replicate (width - ds.length) '0' ++ ds

/-- A character inside double quotes. -/
def escape (c : Char) : List Char :=
  let letter? : Option Char :=
    match c with
    | '\x00' => some '0'
    | '\x07' => some 'a'
    | '\x08' => some 'b'
    | '\t' => some 't'
    | '\n' => some 'n'
    | '\x0b' => some 'v'
    | '\x0c' => some 'f'
    | '\r' => some 'r'
    | '\x1b' => some 'e'
    | '"' => some '"'
    | '\\' => some '\\'
    | '\x85' => some 'N'
    | '\u2028' => some 'L'
    | '\u2029' => some 'P'
    | _ => none
  match letter? with
  | some x => ['\\', x]
  | none =>
    if isPrintable c then [c]
    else if c.toNat ≤ 0xFF then '\\' :: 'x' :: hexDigits 2 c.toNat
    else if c.toNat ≤ 0xFFFF then '\\' :: 'u' :: hexDigits 4 c.toNat
    else '\\' :: 'U' :: hexDigits 8 c.toNat

def spaces (n : Nat) : List Char := List.replicate n ' '

/-- Text in single quotes. What follows a break is indented. -/
def singleQuoted (indent : Nat) (afterBreak : Bool) : List Char → List Char
  | [] => if afterBreak then spaces indent else []
  | c :: r =>
    if isBreak c then c :: singleQuoted indent true r
    else
      (if afterBreak then spaces indent else []) ++ (if c = '\'' then ['\'', '\''] else [c])
        ++ singleQuoted indent false r

/-- The lines of a block, indented unless they are empty. -/
def indented (indent : Nat) (afterBreak : Bool) : List Char → List Char
  | [] => []
  | c :: r =>
    if isBreak c then c :: indented indent true r
    else (if afterBreak then spaces indent else []) ++ c :: indented indent false r

/-- The head of a block: a hint at its indentation if its first line would mislead, and what
becomes of the breaks at its end. -/
def blockHead (cs : List Char) : List Char :=
  let hint := if cs.head?.any fun c => c == ' ' || isBreak c then ['2'] else []
  let keep := match cs.reverse with
    | a :: b :: _ => if !isBreak a then ['-'] else if isBreak b then ['+'] else []
    | [a] => if isBreak a then ['+'] else ['-']
    | [] => ['-']
  '|' :: (hint ++ keep)

/-- A text as a scalar. Lines after the first are indented as told. -/
def scalarText (indent : Nat) (s : String) : List Char :=
  let cs := s.toList
  match Style.ofText s with
  | .plain => cs
  | .single => '\'' :: (singleQuoted indent false cs ++ ['\''])
  | .double => '"' :: (cs.flatMap escape ++ ['"'])
  | .literal => blockHead cs ++ '\n' :: indented indent true cs

end RigNodes.Yaml
