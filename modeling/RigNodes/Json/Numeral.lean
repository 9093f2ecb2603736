import RigNodes.Json.Tree

/-! Numbers of JSON text. Whole numbers of 64 bits are kept exactly. All others become floating
values: of their digits only those are used that fit 64 bits, and the power of ten is applied in
floating arithmetic, so the last bit may be off. -/
namespace RigNodes.Json.Numeral

def digitValue (c : Char) : Nat := c.toNat - '0'.toNat

def greatestSignificand : Nat := Nat.pow 2 64 - 1

/-- Adds digits to a significand while it fits. Returns the digits that are left over. -/
def absorb (significand : Nat) : List Char → Nat × List Char
  | [] => (significand, [])
  | c :: cs =>
    let next := significand * 10 + digitValue c
    if next ≤ greatestSignificand then absorb next cs else (significand, c :: cs)

/-- Applies a power of ten. The wide format holds powers up to 10^308; smaller values are reached
by dividing more than once, and after three divisions nothing is left. -/
def scale (x : Magnitude) (exponent : Int) : Nat → Option Magnitude
  | 0 => some x
  | steps + 1 =>
    let power (e : Nat) := ((BinaryFormat.double.nearest (Nat.pow 10 e) 1).ratio?).getD (1, 1)
    if exponent.natAbs ≤ 308 then
      let (n, d) := power exponent.natAbs
      if 0 ≤ exponent then
        match x.scale .double n d with
        | .infinite => none
        | y => some y
      else some (x.scale .double d n)
    else if x.isZero then some x
    else if 0 ≤ exponent then none
    else
      let (n, d) := power 308
      scale (x.scale .double d n) (exponent + 308) steps

/-- `significand · 10 ^ exponent` with a sign. Too large values are refused. -/
def float (negative : Bool) (significand : Nat) (exponent : Int) : Except Fault Atom :=
  match scale (BinaryFormat.double.nearest significand 1) exponent 4 with
  | some x => .ok (.float ⟨negative, x⟩)
  | none => .error .malformed

/-- A number without point and exponent. Negative zero is a floating value. -/
def whole (negative : Bool) (digits : List Char) : Except Fault Atom :=
  match absorb 0 digits with
  | (n, []) =>
    if !negative then .ok (.integer n)
    else if 0 < n ∧ n ≤ Nat.pow 2 63 then .ok (.integer (-n))
    else .ok (.float (Double.ofNat n).neg)
  | (n, left) => float negative n left.length

/-- A number with a point or an exponent. Digits of the fraction that do not fit are dropped. -/
def fractional (negative : Bool) (digits fraction : List Char) (exponent : Int) :
    Except Fault Atom :=
  let (n, left) := absorb 0 digits
  let (m, dropped) := absorb n fraction
  float negative m (left.length - (fraction.length - dropped.length : Nat) + exponent)

def ofDigits (cs : List Char) : Nat := cs.foldl (fun n c => n * 10 + digitValue c) 0

/-- The outcomes for a number that is not one: the end of the text inside a number is told apart
by readers that want the value only. -/
def broken (rest : List Char) : Tree × List Char :=
  (.atom (.error (if rest.isEmpty then .cut else .malformed)) (.error .malformed), [])

/-- The exponent, read after its letter. -/
def exponent (negative : Bool) (digits fraction : List Char) (cs : List Char) :
    Tree × List Char :=
  let (minus, cs) := match cs with
    | '-' :: r => (true, r)
    | '+' :: r => (false, r)
    | r => (false, r)
  let power := cs.takeWhile Char.isDigit
  let rest := cs.dropWhile Char.isDigit
  if power.isEmpty then broken rest
  else
    let p : Int := ofDigits power
    (.atom (fractional negative digits fraction (if minus then -p else p)) (.ok ()), rest)

/-- What may follow the digits: a fraction, an exponent, or neither. -/
def tail (negative : Bool) (digits : List Char) : List Char → Tree × List Char
  | '.' :: cs =>
    let fraction := cs.takeWhile Char.isDigit
    let rest := cs.dropWhile Char.isDigit
    if fraction.isEmpty then broken rest
    else match rest with
      | 'e' :: r | 'E' :: r => exponent negative digits fraction r
      | _ => (.atom (fractional negative digits fraction 0) (.ok ()), rest)
  | 'e' :: cs | 'E' :: cs => exponent negative digits [] cs
  | rest => (.atom (whole negative digits) (.ok ()), rest)

/-- Reads a number that starts here. A zero stands alone before the point. -/
def read (cs : List Char) : Tree × List Char :=
  let (negative, cs) := match cs with
    | '-' :: r => (true, r)
    | r => (false, r)
  match cs with
  | '0' :: c :: r => if c.isDigit then broken (c :: r) else tail negative ['0'] (c :: r)
  | c :: r =>
    if c.isDigit then tail negative (c :: r.takeWhile Char.isDigit) (r.dropWhile Char.isDigit)
    else broken cs
  | [] => broken []

end RigNodes.Json.Numeral
