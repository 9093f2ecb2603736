import RigNodes.Yaml.Cursor

/-! The texts of scalars. Lines of plain and quoted scalars are folded: a single line end counts as
a space, and of several the first does not count. Blocks keep their line ends, or fold them by
rules of their own. -/
namespace RigNodes.Yaml

/-- White space between two words of a scalar: blanks in one line, or line ends, of which the first
is kept apart. Blanks around line ends do not count, and an escaped line end is no line end. All
texts here are held latest first. -/
inductive Gap
  | blanks (cs : List Char)
  | breaks (first : Option Char) (others : List Char)
  deriving Repr

namespace Gap

def none : Gap := blanks []

def isNone : Gap → Bool
  | blanks [] => true
  | _ => false

def hasBreak : Gap → Bool
  | blanks _ => false
  | breaks .. => true

def blank (g : Gap) (c : Char) : Gap :=
  match g with
  | blanks cs => blanks (c :: cs)
  | g => g

def lineEnd (g : Gap) (c : Char) : Gap :=
  match g with
  | blanks _ => breaks (some c) []
  | breaks first others => breaks first (c :: others)

/-- What is left of the white space. -/
def folded : Gap → List Char
  | blanks cs => cs
  | breaks (some '\n') [] => [' ']
  | breaks (some '\n') others => others
  | breaks first others => others ++ first.toList

end Gap

/-- A text that is held latest first. -/
def textOf (latestFirst : List Char) : String := String.ofList latestFirst.reverse

/-- Reads on after a single quote. Two of them stand for one. -/
def readSingleQuoted (acc : List Char) (gap : Gap) (line column : Nat) :
    List Char → Option (String × Cursor)
  | [] => none
  | c :: r =>
    if isBreak c then readSingleQuoted acc (gap.lineEnd c) (line + 1) 0 r
    else if isSpaceOrTab c then readSingleQuoted acc (gap.blank c) line (column + 1) r
    else if column = 0 && isDocumentMark (c :: r) then none
    else if c = '\'' then
      match r with
      | '\'' :: r => readSingleQuoted ('\'' :: (gap.folded ++ acc)) .none line (column + 2) r
      | r => some (textOf (gap.folded ++ acc), ⟨r, line, column + 1⟩)
    else readSingleQuoted (c :: (gap.folded ++ acc)) .none line (column + 1) r

/-- The character that a letter after a backslash stands for. -/
def unescape? : Char → Option Char
  | '0' => some '\x00'
  | 'a' => some '\x07'
  | 'b' => some '\x08'
  | 't' | '\t' => some '\t'
  | 'n' => some '\n'
  | 'v' => some '\x0b'
  | 'f' => some '\x0c'
  | 'r' => some '\r'
  | 'e' => some '\x1b'
  | ' ' => some ' '
  | '"' => some '"'
  | '/' => some '/'
  | '\\' => some '\\'
  | 'N' => some '\x85'
  | '_' => some '\xa0'
  | 'L' => some '\u2028'
  | 'P' => some '\u2029'
  | _ => none

/-- The character with a number in hexadecimal digits. Halves of surrogate pairs are none. -/
def charOfHex? (ds : List Char) : Option Char :=
  (natural? 16 ds).bind fun n => if n.isValidChar then some (Char.ofNat n) else none

/-- Reads on after a double quote. -/
def readDoubleQuoted (acc : List Char) (gap : Gap) (line column : Nat) :
    List Char → Option (String × Cursor)
  | [] => none
  | c :: r =>
    if isBreak c then readDoubleQuoted acc (gap.lineEnd c) (line + 1) 0 r
    else if isSpaceOrTab c then readDoubleQuoted acc (gap.blank c) line (column + 1) r
    else if column = 0 && isDocumentMark (c :: r) then none
    else if c = '"' then some (textOf (gap.folded ++ acc), ⟨r, line, column + 1⟩)
    else
      let acc := gap.folded ++ acc
      if c = '\\' then
        match r with
        | 'x' :: a :: b :: r =>
          (charOfHex? [a, b]).bind fun x =>
            readDoubleQuoted (x :: acc) .none line (column + 4) r
        | 'u' :: a :: b :: c :: d :: r =>
          (charOfHex? [a, b, c, d]).bind fun x =>
            readDoubleQuoted (x :: acc) .none line (column + 6) r
        | 'U' :: a :: b :: c :: d :: e :: f :: g :: h :: r =>
          (charOfHex? [a, b, c, d, e, f, g, h]).bind fun x =>
            readDoubleQuoted (x :: acc) .none line (column + 10) r
        | e :: r =>
          if isBreak e then readDoubleQuoted acc (.breaks none []) (line + 1) 0 r
          else (unescape? e).bind fun x =>
            readDoubleQuoted (x :: acc) .none line (column + 2) r
        | [] => none
      else readDoubleQuoted (c :: acc) .none line (column + 1) r

/-- The context of a plain scalar: whether it stands between brackets, and the least column of its
further lines. -/
structure PlainContext where
  flow : Bool
  margin : Nat

/-- Brackets and commas end a plain scalar between brackets. -/
def isFlowMark (c : Char) : Bool := c == ',' || c == '[' || c == ']' || c == '{' || c == '}'

/-- Whether a plain scalar ends before a character that is no white space. -/
def PlainContext.endsBefore (x : PlainContext) (gap : Gap) (column : Nat) (c : Char)
    (r : List Char) : Bool :=
  (column = 0 && isDocumentMark (c :: r))
    || (!gap.isNone && (c == '#' || (!x.flow && column < x.margin)))
    || (c == ':' && endsWord r) || (x.flow && isFlowMark c)

/-- Reads a plain scalar, and whether line ends follow it. White space at its end does not belong to
it. Tabs may not take the place of indentation. -/
def readPlain (x : PlainContext) (acc : List Char) (gap : Gap) (line column : Nat) :
    List Char → Option (String × Bool × Cursor)
  | [] => some (textOf acc, gap.hasBreak, ⟨[], line, column⟩)
  | c :: r =>
    if isBreak c then readPlain x acc (gap.lineEnd c) (line + 1) 0 r
    else if isSpaceOrTab c then
      if gap.hasBreak && column < x.margin && c == '\t' then none
      else readPlain x acc (gap.blank c) line (column + 1) r
    else if x.endsBefore gap column c r then
      some (textOf acc, gap.hasBreak, ⟨c :: r, line, column⟩)
    else if x.flow && c == ':' && r.head?.any (fun d => d == '?' || isFlowMark d) then none
    else readPlain x (c :: (gap.folded ++ acc)) .none line (column + 1) r

/-- What becomes of the line ends at the end of a block. -/
inductive Chomp
  | strip | clip | keep
  deriving DecidableEq, Repr

/-- The head of a block, after its indicator: chomping and indentation, in either order. -/
def blockHead? (c : Cursor) : Option (Chomp × Option Nat × Cursor) :=
  let chomp? : Char → Option Chomp
    | '+' => some .keep
    | '-' => some .strip
    | _ => none
  let width? (x : Char) : Option Nat := if x.isDigit then some (x.toNat - '0'.toNat) else none
  let head : Chomp × Option Nat × Nat :=
    match c.rest with
    | a :: b :: _ =>
      match chomp? a, width? a with
      | some m, _ => match width? b with
        | some n => (m, some n, 2)
        | none => (m, none, 1)
      | none, some n => match chomp? b with
        | some m => (m, some n, 2)
        | none => (.clip, some n, 1)
      | none, none => (.clip, none, 0)
    | [a] => match chomp? a, width? a with
      | some m, _ => (m, none, 1)
      | none, some n => (.clip, some n, 1)
      | none, none => (.clip, none, 0)
    | [] => (.clip, none, 0)
  let (m, n?, used) := head
  if n? = some 0 then none else some (m, n?, c.advance used)

/-- Goes over indentation and empty lines. While the indentation is not known yet, it is the widest
one met here. Returns it with the line ends, latest first. -/
def readBlockGap (indent : Option Nat) (widest : Nat) (breaks : List Char) (line column : Nat) :
    List Char → Option (Nat × List Char × Cursor)
  | [] => some (indent.getD (max widest column), breaks, ⟨[], line, column⟩)
  | c :: r =>
    let before := indent.all (column < ·)
    if c = ' ' ∧ before then readBlockGap indent widest breaks line (column + 1) r
    else if c = '\t' ∧ before then none
    else if isBreak c then
      readBlockGap indent (max widest column) (c :: breaks) (line + 1) 0 r
    else some (indent.getD (max widest column), breaks, ⟨c :: r, line, column⟩)

/-- A line end in front of a line of text, seen from a folded block: single ones between lines that
start with a word become spaces. -/
def foldBlock (folded : Bool) (lead breaks : List Char) (blankBefore blankHere : Bool) : List Char :=
  if folded && lead == ['\n'] && !blankBefore && !blankHere then
    if breaks.isEmpty then [' '] else breaks
  else breaks ++ lead

/-- Reads the lines of a block. `lead` is the end of the line before, `breaks` are those of the empty
lines after it. The fuel bounds the number of lines. -/
def readBlockLines (folded : Bool) (chomp : Chomp) (indent : Nat) :
    Nat → (acc lead breaks : List Char) → (blankBefore : Bool) → Cursor → Option (String × Cursor)
  | 0, _, _, _, _, _ => none
  | fuel + 1, acc, lead, breaks, blankBefore, c =>
    if c.column = indent ∧ !c.rest.isEmpty then
      let blankHere := c.rest.head?.any isSpaceOrTab
      let acc := foldBlock folded lead breaks blankBefore blankHere ++ acc
      let (text, c) := c.span fun x => !isBreak x
      let acc := text.reverse ++ acc
      let lead := c.rest.take 1
      let c := c.endLine
      (readBlockGap (some indent) 0 [] c.line c.column c.rest).bind fun (_, breaks, c) =>
        readBlockLines folded chomp indent fuel acc lead breaks blankHere c
    else
      let lead := if chomp = .strip then [] else lead
      let breaks := if chomp = .keep then breaks else []
      some (textOf (breaks ++ lead ++ acc), c)

/-- Reads a block after its indicator. `margin` is the least indentation of its lines. -/
def readBlock (folded : Bool) (margin : Nat) (c : Cursor) : Option (String × Cursor) := do
  let (chomp, width, c) ← blockHead? c
  let c ← c.restOfLine?
  let given := width.map fun n => margin - 1 + n
  let (found, breaks, c) ← readBlockGap given 0 [] c.line c.column c.rest
  let indent := if given.isSome then found else max (max found margin) 1
  readBlockLines folded chomp indent (c.rest.length + 1) [] [] breaks false c

end RigNodes.Yaml
