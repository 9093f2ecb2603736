import RigNodes.Yaml.Token.Mark
import RigNodes.Yaml.Token.Text

/-! The tokens of a YAML text. A node turns out to be a key only when the colon after it is met, so
each place where a key may start is remembered, and the token that announces the key is put in
front of it later. -/
namespace RigNodes.Yaml

/-- A place where a key may start: the number of its first token and its position in the text. A
required one stands where nothing but a key can stand. -/
structure Candidate where
  token : Nat
  line : Nat
  column : Nat
  required : Bool
  deriving Repr

structure Lexer where
  cursor : Cursor
  /-- Tokens in order, each with those that were put in front of it later. -/
  tokens : Array (List Token × Token)
  /-- The least column of what stands inside the innermost block, and the same for the blocks
  around it. -/
  margin : Nat
  margins : List Nat
  /-- The candidate at hand, and one for each bracket around it. -/
  candidate : Option Candidate
  candidates : List (Option Candidate)
  keyAllowed : Bool

namespace Lexer

def start (c : Cursor) : Lexer := ⟨c, #[], 0, [], none, [], true⟩

/-- Whether the cursor stands between brackets. -/
def inFlow (s : Lexer) : Bool := !s.candidates.isEmpty

def push (s : Lexer) (t : Token) : Lexer := { s with tokens := s.tokens.push ([], t) }

/-- Goes on by some characters that are one token. -/
def take (s : Lexer) (t : Token) (width : Nat) : Lexer :=
  { s.push t with cursor := s.cursor.advance width }

/-- Closes the blocks whose content would have to stand further right. -/
def closeBlocks (s : Lexer) (margin : Nat) : List Nat → Lexer
  | [] => s
  | outer :: margins =>
    if margin < s.margin then
      closeBlocks { s.push .blockEnd with margin := outer, margins } margin margins
    else s

/-- Indentation means nothing between brackets. -/
def unindent (s : Lexer) (margin : Nat) : Lexer :=
  if s.inFlow then s else s.closeBlocks margin s.margins

/-- Opens a block at a column, unless it is open already. Its first token stands at the end, or in
front of the token with a number. -/
def openBlock (s : Lexer) (t : Token) (column : Nat) (place : Option Nat) : Lexer :=
  if s.inFlow || column < s.margin then s
  else
    let s := { s with margin := column + 1, margins := s.margin :: s.margins }
    match place with
    | none => s.push t
    | some i => { s with tokens := s.tokens.modify i fun (before, x) => (t :: before, x) }

/-- Gives up the candidate at hand. -/
def dropCandidate (s : Lexer) : Option Lexer :=
  match s.candidate with
  | some k => if k.required then none else some { s with candidate := none }
  | none => some s

/-- Remembers that a key may start here. -/
def noteCandidate (s : Lexer) : Option Lexer :=
  if s.keyAllowed then do
    let s ← s.dropCandidate
    let c := s.cursor
    let required := !s.inFlow && s.margin == c.column + 1
    return { s with candidate := some ⟨s.tokens.size, c.line, c.column, required⟩ }
  else some s

/-- Keys take one line and at most 1024 characters. -/
def Candidate.isStale (c : Cursor) (k : Candidate) : Bool :=
  k.line < c.line || k.column + 1024 < c.column

/-- Gives up the candidates that are too far back. -/
def dropStale (s : Lexer) : Option Lexer :=
  let stale (k? : Option Candidate) : Bool := k?.any (Candidate.isStale s.cursor)
  let fresh (k? : Option Candidate) : Option Candidate := if stale k? then none else k?
  if (s.candidate :: s.candidates).any fun k? => stale k? && k?.any Candidate.required then none
  else some { s with candidate := fresh s.candidate, candidates := s.candidates.map fresh }

/-- Goes over blanks, comments and line ends. Tabs are no blanks where a key may start. -/
def skipToToken : Nat → Lexer → Lexer
  | 0, s => s
  | fuel + 1, s =>
    let tabs := s.inFlow || !s.keyAllowed
    let c := (s.cursor.skipWhile fun x => x == ' ' || (tabs && x == '\t')).skipComment
    if c.rest.isEmpty || !c.atLineEnd then { s with cursor := c }
    else skipToToken fuel { s with cursor := c.endLine, keyAllowed := s.keyAllowed || !s.inFlow }

/-- Tokens that take whole lines close all blocks. -/
def atMargin (s : Lexer) : Option Lexer := do
  let s ← (s.unindent 0).dropCandidate
  return { s with keyAllowed := false }

def directive (s : Lexer) : Option Lexer := do
  let s ← s.atMargin
  let (t, c) ← readDirective s.cursor
  return { s.push t with cursor := c }

def documentMark (s : Lexer) (t : Token) : Option Lexer := do
  let s ← s.atMargin
  return s.take t 3

def openFlow (s : Lexer) (t : Token) : Option Lexer := do
  let s ← s.noteCandidate
  let s := { s with candidates := s.candidate :: s.candidates, candidate := none, keyAllowed := true }
  return s.take t 1

def closeFlow (s : Lexer) (t : Token) : Option Lexer := do
  let s ← s.dropCandidate
  let s := match s.candidates with
    | k? :: outer => { s with candidate := k?, candidates := outer }
    | [] => s
  return { s with keyAllowed := false }.take t 1

def comma (s : Lexer) : Option Lexer := do
  let s ← s.dropCandidate
  return { s with keyAllowed := true }.take .comma 1

/-- Dashes, question marks and colons open blocks where a key may start, and are out of place
elsewhere outside of brackets. -/
def openHere (s : Lexer) (t : Token) : Option Lexer :=
  if s.inFlow then some s
  else if s.keyAllowed then some (s.openBlock t s.cursor.column none)
  else none

def dash (s : Lexer) : Option Lexer := do
  let s ← s.openHere .blockListStart
  let s ← s.dropCandidate
  return { s with keyAllowed := true }.take .dash 1

def key (s : Lexer) : Option Lexer := do
  let s ← s.openHere .blockMapStart
  let s ← s.dropCandidate
  return { s with keyAllowed := !s.inFlow }.take .key 1

/-- A colon makes the candidate a key. -/
def value (s : Lexer) : Option Lexer := do
  match s.candidate with
  | some k =>
    let tokens := s.tokens.modify k.token fun (before, x) => (.key :: before, x)
    let s := { s with tokens }.openBlock .blockMapStart k.column (some k.token)
    return { s with candidate := none, keyAllowed := false }.take .value 1
  | none =>
    let s ← s.openHere .blockMapStart
    return { s with keyAllowed := !s.inFlow }.take .value 1

/-- Tokens that may be the first of a key. -/
def mark (s : Lexer) (read : Cursor → Option (Token × Cursor)) : Option Lexer := do
  let s ← s.noteCandidate
  let (t, c) ← read s.cursor
  return { s.push t with cursor := c, keyAllowed := false }

def tag (s : Lexer) : Option Lexer :=
  s.mark fun c => do
    let (t, c) ← readTag c
    guard (endsTag s.inFlow c.rest)
    return (t, c)

def name (s : Lexer) (token : String → Token) : Option Lexer :=
  s.mark fun c => (readName c).map fun (x, c) => (token x, c)

def quoted (s : Lexer) (read : Nat → Nat → List Char → Option (String × Cursor)) : Option Lexer :=
  s.mark fun c =>
    let c := c.advance 1
    (read c.line c.column c.rest).map fun (x, c) => (.scalar .quoted x, c)

def block (s : Lexer) (form : Form) : Option Lexer := do
  let s ← s.dropCandidate
  let (x, c) ← readBlock (form == .folded) s.margin (s.cursor.advance 1)
  return { s.push (.scalar form x) with cursor := c, keyAllowed := true }

/-- A plain scalar that line ends follow leaves the cursor where a key may start. -/
def plain (s : Lexer) : Option Lexer := do
  let s ← s.noteCandidate
  let c := s.cursor
  let (x, ended, c) ← readPlain ⟨s.inFlow, s.margin⟩ [] .none c.line c.column c.rest
  return { s.push (.scalar .plain x) with cursor := c, keyAllowed := ended }

/-- Whether a plain scalar may start with this character. Dashes, question marks and colons may if
they are followed by a word. -/
def startsPlain (flow : Bool) (c : Char) (r : List Char) : Bool :=
  if c == '-' then !(r.head?.any isSpaceOrTab)
  else if c == '?' || c == ':' then !flow && !endsWord r
  else !isIndicator c && !endsWord [c]

/-- Reads the token that starts with a character. -/
def token (s : Lexer) (c : Char) (r : List Char) : Option Lexer :=
  let first := s.cursor.column = 0
  let wordEnds := s.inFlow || endsWord r
  if first ∧ c = '%' then s.directive
  else if first ∧ c = '-' ∧ isDocumentMark (c :: r) then s.documentMark .documentStart
  else if first ∧ c = '.' ∧ isDocumentMark (c :: r) then s.documentMark .documentEnd
  else if c = '[' then s.openFlow .flowListStart
  else if c = '{' then s.openFlow .flowMapStart
  else if c = ']' then s.closeFlow .flowListEnd
  else if c = '}' then s.closeFlow .flowMapEnd
  else if c = ',' then s.comma
  else if c = '-' ∧ endsWord r then s.dash
  else if c = '?' ∧ wordEnds then s.key
  else if c = ':' ∧ wordEnds then s.value
  else if c = '*' then s.name .recall
  else if c = '&' then s.name .anchor
  else if c = '!' then s.tag
  else if c = '|' ∧ !s.inFlow then s.block .literal
  else if c = '>' ∧ !s.inFlow then s.block .folded
  else if c = '\'' then s.quoted (readSingleQuoted [] .none)
  else if c = '"' then s.quoted (readDoubleQuoted [] .none)
  else if startsPlain s.inFlow c r then s.plain
  else none

/-- Reads tokens to the end of the text. Each takes a character at least, so the length of the text
is fuel enough. -/
def run : Nat → Lexer → Option Lexer
  | 0, _ => none
  | fuel + 1, s => do
    let s ← (s.skipToToken (s.cursor.rest.length + 1)).dropStale
    let s := s.unindent (s.cursor.column + 1)
    match s.cursor.rest with
    | [] => s.atMargin
    | c :: r => run fuel (← s.token c r)

end Lexer

/-- The tokens of a text, if it has a token structure and no characters that are out of place. -/
def Token.ofText? (s : String) : Option (List Token) :=
  if s.toList.all isAllowed then
    let c := Cursor.start s
    (Lexer.run (c.rest.length + 1) (.start c)).map fun x =>
      x.tokens.toList.flatMap fun (before, t) => before ++ [t]
  else none

end RigNodes.Yaml
