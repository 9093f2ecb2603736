import RigNodes.Json.Tree

/-! Text of JSON documents: escapes, and how they are undone. Characters beyond the basic plane are
escaped as two halves. A half on its own is no character, which matters only to those who want the
text. -/
namespace RigNodes.Json.Text

/-- Text read so far, in reverse, and the first half of a pair that waits for its second. -/
structure Scan where
  text : Except Fault (List Char)
  high : Option Nat

namespace Scan

def start : Scan := ⟨.ok [], none⟩

/-- The first fault of the text stays. -/
def fail (s : Scan) (f : Fault) : Scan := ⟨s.text.bind fun _ => .error f, none⟩

def add (s : Scan) (c : Char) : Scan := { s with text := s.text.map (c :: ·) }

def char (s : Scan) (c : Char) : Scan :=
  match s.high with
  | none => s.add c
  | some _ => s.fail .malformed

def isHigh (n : Nat) : Bool := 0xD800 ≤ n && n < 0xDC00

def isLow (n : Nat) : Bool := 0xDC00 ≤ n && n < 0xE000

def joined (high low : Nat) : Char :=
  Char.ofNat (0x10000 + (high - 0xD800) * 0x400 + (low - 0xDC00))

/-- An escape by number. -/
def unit (s : Scan) (n : Nat) : Scan :=
  match s.high with
  | some h => if isLow n then { s with high := none }.add (joined h n) else s.fail .malformed
  | none =>
    if isHigh n then { s with high := some n }
    else if isLow n then s.fail .malformed
    else s.add (Char.ofNat n)

/-- The end of the quotes. -/
def close (s : Scan) : Except Fault String :=
  match s.high with
  | none => s.text.map fun cs => String.ofList cs.reverse
  | some _ => s.text.bind fun _ => .error .malformed

end Scan

def hexValue? (c : Char) : Option Nat :=
  if '0' ≤ c ∧ c ≤ '9' then some (c.toNat - '0'.toNat)
  else if 'a' ≤ c ∧ c ≤ 'f' then some (c.toNat - 'a'.toNat + 10)
  else if 'A' ≤ c ∧ c ≤ 'F' then some (c.toNat - 'A'.toNat + 10)
  else none

def unit? (a b c d : Char) : Option Nat := do
  return (← hexValue? a) * 4096 + (← hexValue? b) * 256 + (← hexValue? c) * 16 + (← hexValue? d)

/-- The character that a letter after a backslash stands for. -/
def unescape? : Char → Option Char
  | '"' => some '"'
  | '\\' => some '\\'
  | '/' => some '/'
  | 'b' => some '\x08'
  | 'f' => some '\x0c'
  | 'n' => some '\n'
  | 'r' => some '\r'
  | 't' => some '\t'
  | _ => none

/-- Text whose end is never found. -/
def unended (s : Scan) (f : Fault) : Tree × List Char :=
  (.text (s.text.bind fun _ => .error f) (.error f), [])

/-- Reads on after the opening quote. An escape by number that has fewer than four bytes left is
cut short by the end of the text, whatever these bytes are. -/
def read (s : Scan) : List Char → Tree × List Char
  | [] => unended s .cut
  | '"' :: r => (.text s.close (.ok ()), r)
  | '\\' :: 'u' :: a :: b :: c :: d :: r =>
    match unit? a b c d with
    | some n => read (s.unit n) r
    | none => unended s .malformed
  | '\\' :: 'u' :: r =>
    unended s (if (String.ofList r).utf8ByteSize < 4 then .cut else .malformed)
  | '\\' :: c :: r =>
    match unescape? c with
    | some x => read (s.char x) r
    | none => unended (if s.high.isSome then s.fail .malformed else s) .malformed
  | ['\\'] => unended s .cut
  | c :: r =>
    if c < ' ' then unended s .malformed
    else read (s.char c) r

end RigNodes.Json.Text
