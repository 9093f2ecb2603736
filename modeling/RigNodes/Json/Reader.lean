import RigNodes.Json.Numeral
import RigNodes.Json.Text

/-! Reading JSON text. Every text has a tree; what is wrong with the text is in the tree. -/
namespace RigNodes.Json

def isSpace (c : Char) : Bool := c == ' ' || c == '\n' || c == '\t' || c == '\r'

def skipSpace (cs : List Char) : List Char := cs.dropWhile isSpace

/-- One of the three words, of which the first letter is read. -/
def word (a : Atom) : List Char → List Char → Tree × List Char
  | [], cs => (.atom (.ok a) (.ok ()), cs)
  | w :: ws, c :: cs =>
    if c = w then word a ws cs else (.atom (.error .malformed) (.error .malformed), [])
  | _ :: _, [] => (.atom (.error .cut) (.error .cut), [])

/-- Values that hold no others. -/
def scalar (c : Char) (cs : List Char) : Tree × List Char :=
  match c with
  | '"' => Text.read .start cs
  | 'n' => word .null ['u', 'l', 'l'] cs
  | 't' => word (.flag true) ['r', 'u', 'e'] cs
  | 'f' => word (.flag false) ['a', 'l', 's', 'e'] cs
  | c => if c = '-' ∨ c.isDigit then Numeral.read (c :: cs) else (.absent .malformed, [])

/-- A key. One that is not text is not looked into. -/
def key (c : Char) (cs : List Char) : Tree × List Char :=
  match c with
  | '[' => (.list .closed, [])
  | '{' => (.map .closed, [])
  | c => scalar c cs

def Tree.isText : Tree → Bool
  | .text _ _ => true
  | _ => false

mutual

/-- Reads a value and returns the text after it. After a fault that cannot be passed over nothing
is left. The fuel bounds the depth of the recursion; twice the length of the text is enough. -/
def value : Nat → List Char → Tree × List Char
  | 0, _ => (.absent .malformed, [])
  | fuel + 1, cs =>
    match skipSpace cs with
    | [] => (.absent .cut, [])
    | '[' :: r =>
      let (items, rest) := items fuel true r
      (.list items, rest)
    | '{' :: r =>
      let (members, rest) := members fuel true r
      (.map members, rest)
    | c :: r => scalar c r

def items : Nat → Bool → List Char → Items × List Char
  | 0, _, _ => (.broken .malformed, [])
  | fuel + 1, first, cs =>
    match skipSpace cs with
    | [] => (.broken .cut, [])
    | ']' :: r => (.closed, r)
    | c :: r =>
      if first then
        let (t, rest) := value fuel (c :: r)
        let (ts, rest) := items fuel false rest
        (.cons t ts, rest)
      else if c = ',' then
        match skipSpace r with
        | [] => (.afterComma .cut, [])
        | ']' :: _ => (.afterComma .malformed, [])
        | r =>
          let (t, rest) := value fuel r
          let (ts, rest) := items fuel false rest
          (.cons t ts, rest)
      else (.broken .malformed, [])

def members : Nat → Bool → List Char → Members × List Char
  | 0, _, _ => (.broken .malformed, [])
  | fuel + 1, first, cs =>
    match skipSpace cs with
    | [] => (.broken .cut, [])
    | '}' :: r => (.closed, r)
    | c :: r =>
      if first then member fuel c r
      else if c = ',' then
        match skipSpace r with
        | [] => (.afterComma .cut, [])
        | '}' :: _ => (.afterComma .malformed, [])
        | c :: r => member fuel c r
      else (.broken .malformed, [])

def member : Nat → Char → List Char → Members × List Char
  | 0, _, _ => (.broken .malformed, [])
  | fuel + 1, c, cs =>
    let (k, rest) := key c cs
    if k.isText then
      match skipSpace rest with
      | ':' :: r =>
        let (t, rest) := value fuel r
        let (ts, rest) := members fuel false rest
        (.cons k t ts, rest)
      | [] => (.cons k (.absent .cut) .closed, [])
      | _ => (.cons k (.absent .malformed) .closed, [])
    else (.cons k (.absent .malformed) .closed, [])

end

/-- The tree of a whole text, and whether only white space follows it. -/
def ofText (s : String) : Tree × Bool :=
  let cs := s.toList
  let (t, rest) := value (2 * cs.length + 2) cs
  (t, (skipSpace rest).isEmpty)

end RigNodes.Json
