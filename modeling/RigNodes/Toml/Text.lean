import RigNodes.Yaml.Scalar

/-! Texts and keys of TOML: in double quotes with escapes, in single quotes without, and either in
one line or in several. -/
namespace RigNodes.Toml

/-- Characters of texts and comments. Tabs are the only controls among them. -/
def isTextChar (c : Char) : Bool := c == '\t' || (' ' ≤ c && c != '\x7f')

def isBlank (c : Char) : Bool := c == ' ' || c == '\t'

def unescape? : Char → Option Char
  | 'b' => some '\x08'
  | 't' => some '\t'
  | 'n' => some '\n'
  | 'f' => some '\x0c'
  | 'r' => some '\r'
  | '"' => some '"'
  | '\\' => some '\\'
  | _ => none

def charOfHex? (ds : List Char) : Option Char :=
  (Yaml.natural? 16 ds).bind fun n => if n.isValidChar then some (Char.ofNat n) else none

/-- A text that is held latest first. -/
def textOf (latestFirst : List Char) : String := String.ofList latestFirst.reverse

/-- Where reading stands in a text of several lines: in the text, between a backslash and the end of
its line, or in the white space after that. -/
inductive Trimming
  | off | started | on
  deriving DecidableEq

/-- Reads on after the opening double quote of one line. -/
def readQuoted (acc : List Char) : List Char → Option (String × List Char)
  | [] => none
  | '"' :: r => some (textOf acc, r)
  | '\\' :: 'u' :: a :: b :: c :: d :: r =>
    (charOfHex? [a, b, c, d]).bind fun x => readQuoted (x :: acc) r
  | '\\' :: 'U' :: a :: b :: c :: d :: e :: f :: g :: h :: r =>
    (charOfHex? [a, b, c, d, e, f, g, h]).bind fun x => readQuoted (x :: acc) r
  | '\\' :: c :: r => (unescape? c).bind fun x => readQuoted (x :: acc) r
  | c :: r => if isTextChar c then readQuoted (c :: acc) r else none

/-- Reads on after three opening double quotes. Up to two more quotes may stand before the closing
ones. A backslash at the end of a line takes the white space after it away. -/
def readQuotedLines (trimming : Trimming) (acc : List Char) : List Char → Option (String × List Char)
  | [] => none
  | '\r' :: '\n' :: r =>
    if trimming = .off then readQuotedLines .off ('\n' :: acc) r else readQuotedLines .on acc r
  | '\n' :: r =>
    if trimming = .off then readQuotedLines .off ('\n' :: acc) r else readQuotedLines .on acc r
  | '\\' :: 'u' :: a :: b :: c :: d :: r =>
    if trimming = .started then none
    else (charOfHex? [a, b, c, d]).bind fun x => readQuotedLines .off (x :: acc) r
  | '\\' :: 'U' :: a :: b :: c :: d :: e :: f :: g :: h :: r =>
    if trimming = .started then none
    else (charOfHex? [a, b, c, d, e, f, g, h]).bind fun x => readQuotedLines .off (x :: acc) r
  | '"' :: '"' :: '"' :: '"' :: '"' :: r =>
    if trimming = .started then none else some (textOf ('"' :: '"' :: acc), r)
  | '"' :: '"' :: '"' :: '"' :: r =>
    if trimming = .started then none else some (textOf ('"' :: acc), r)
  | '"' :: '"' :: '"' :: r => if trimming = .started then none else some (textOf acc, r)
  | '\\' :: '\n' :: r => if trimming = .started then none else readQuotedLines .on acc r
  | '\\' :: '\r' :: '\n' :: r => if trimming = .started then none else readQuotedLines .on acc r
  | '\\' :: c :: r =>
    if trimming = .started then none
    else if isBlank c then readQuotedLines .started acc r
    else (unescape? c).bind fun x => readQuotedLines .off (x :: acc) r
  | c :: r =>
    if trimming ≠ .off ∧ isBlank c then readQuotedLines trimming acc r
    else if trimming = .started then none
    else if isTextChar c then readQuotedLines .off (c :: acc) r
    else none

/-- Reads on after the opening single quote of one line. -/
def readLiteral (acc : List Char) : List Char → Option (String × List Char)
  | [] => none
  | '\'' :: r => some (textOf acc, r)
  | c :: r => if isTextChar c then readLiteral (c :: acc) r else none

/-- Reads on after three opening single quotes. -/
def readLiteralLines (acc : List Char) : List Char → Option (String × List Char)
  | [] => none
  | '\r' :: '\n' :: r => readLiteralLines ('\n' :: acc) r
  | '\n' :: r => readLiteralLines ('\n' :: acc) r
  | '\'' :: '\'' :: '\'' :: '\'' :: '\'' :: r => some (textOf ('\'' :: '\'' :: acc), r)
  | '\'' :: '\'' :: '\'' :: '\'' :: r => some (textOf ('\'' :: acc), r)
  | '\'' :: '\'' :: '\'' :: r => some (textOf acc, r)
  | c :: r => if isTextChar c then readLiteralLines (c :: acc) r else none

/-- A line end right after the opening quotes does not belong to the text. -/
def dropFirstBreak : List Char → List Char
  | '\r' :: '\n' :: r => r
  | '\n' :: r => r
  | r => r

/-- Reads a text with its quotes. -/
def readText : List Char → Option (String × List Char)
  | '"' :: '"' :: '"' :: r => readQuotedLines .off [] (dropFirstBreak r)
  | '"' :: r => readQuoted [] r
  | '\'' :: '\'' :: '\'' :: r => readLiteralLines [] (dropFirstBreak r)
  | '\'' :: r => readLiteral [] r
  | _ => none

/-- Characters of keys without quotes. -/
def isKeyChar (c : Char) : Bool := c.isAlphanum || c == '-' || c == '_'

/-- Reads one part of a key. Keys have no text of several lines. -/
def readKeyPart : List Char → Option (String × List Char)
  | '"' :: r => readQuoted [] r
  | '\'' :: r => readLiteral [] r
  | cs =>
    let word := cs.takeWhile isKeyChar
    if word.isEmpty then none else some (String.ofList word, cs.drop word.length)

def skipBlanks (cs : List Char) : List Char := cs.dropWhile isBlank

/-- Reads a key with its dots, of which there are fewer than the fuel, and the blanks after it. -/
def readKey : Nat → List Char → Option (List String × List Char)
  | 0, _ => none
  | fuel + 1, cs => do
    let (part, cs) ← readKeyPart (skipBlanks cs)
    match skipBlanks cs with
    | '.' :: r => do
      let (parts, r) ← readKey fuel r
      return (part :: parts, r)
    | r => return ([part], r)

end RigNodes.Toml
