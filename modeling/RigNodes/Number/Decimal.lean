import RigNodes.Number.Binary

/-! Decimal text of binary values: the fewest digits that read back to the value, and the layout
of these digits around the point. -/
namespace RigNodes

/-- `digits · 10 ^ exponent`. -/
structure Decimal where
  digits : Nat
  exponent : Int
  deriving DecidableEq, Repr

/-- The values that round to `m · 2 ^ e`, in units of a quarter of its last place. The gap below
a power of two is half as wide as the one above. Both ends belong to the value if its significand
is even. -/
structure RoundingInterval where
  low : Nat
  value : Nat
  high : Nat
  closed : Bool
  deriving Repr

namespace RoundingInterval

def of (f : BinaryFormat) (m : Nat) (e : Int) : RoundingInterval where
  low := if m = Nat.pow 2 (f.precision - 1) ∧ e > f.leastExponent then 4 * m - 1 else 4 * m - 2
  value := 4 * m
  high := 4 * m + 2
  closed := m % 2 = 0

/-- The nearest point of the grid `10 ^ k` inside the interval, if there is one. Only the two
neighbours of the value can be nearest; of two equally near ones the even one is taken. The
interval is scaled by `2 ^ e`. -/
def gridPoint? (i : RoundingInterval) (e k : Int) : Option Nat :=
  let b := powerOfTwo e
  let t := powerOfTen k
  let n := b.1 * t.2
  let d := b.2 * t.1
  let below := i.value * n / d
  let above := below + 1
  let inside (x : Nat) : Bool :=
    if i.closed then i.low * n ≤ x * d ∧ x * d ≤ i.high * n
    else i.low * n < x * d ∧ x * d < i.high * n
  match decide (0 < below) && inside below, inside above with
  | true, true =>
    let toBelow := i.value * n - below * d
    let toAbove := above * d - i.value * n
    if toBelow < toAbove ∨ (toBelow = toAbove ∧ below % 2 = 0) then some below else some above
  | true, false => some below
  | false, true => some above
  | false, false => none

/-- Searches ever finer grids, starting with `10 ^ k`. -/
def search (i : RoundingInterval) (e k : Int) : Nat → Option Decimal
  | 0 => none
  | steps + 1 =>
    match i.gridPoint? e k with
    | some x => some ⟨x, k⟩
    | none => i.search e (k - 1) steps

end RoundingInterval

/-- An exponent of ten above the magnitude of `m · 2 ^ e`, and at most two above. -/
def decimalCeiling (m : Nat) (e : Int) : Int :=
  Int.fdiv ((Nat.log2 m + e + 1) * 30103) 100000 + 1

/-- The fewest digits that read back to `m · 2 ^ e`, and of these the nearest to it. Twenty grids
suffice for the formats in use: seventeen digits tell any two of their values apart. -/
def Decimal.shortest (f : BinaryFormat) (m : Nat) (e : Int) : Decimal :=
  if m = 0 then ⟨0, 0⟩
  else
    match (RoundingInterval.of f m e).search (e - 2) (decimalCeiling m e) 20 with
    | some x => x
    | none => ⟨0, 0⟩

/-- How a decimal is laid out: positional while the point stands after place `leastPoint` and up
to place `greatestPoint` of the digits, else with an exponent. -/
structure DecimalLayout where
  leastPoint : Int
  greatestPoint : Int
  /-- Whether a positive exponent carries a plus sign. -/
  plus : Bool
  deriving Repr

/-- The digits of `n` in base ten. -/
def decimalDigits (n : Nat) : List Char := Nat.toDigits 10 n

namespace Decimal

/-- Positional text, always with a digit on both sides of the point. -/
def positional (ds : List Char) (point : Int) : List Char :=
  if point ≤ 0 then '0' :: '.' :: (List.replicate (-point).toNat '0' ++ ds)
  else
    let whole := ds.take point.toNat ++ List.replicate (point.toNat - ds.length) '0'
    let part := ds.drop point.toNat
    whole ++ '.' :: (if part.isEmpty then ['0'] else part)

/-- Text with one digit before the point, which is left out if no digit follows. -/
def scientific (plus : Bool) (ds : List Char) (point : Int) : List Char :=
  let x := point - 1
  let part := ds.drop 1
  let sign := if x < 0 then ['-'] else if plus then ['+'] else []
  ds.take 1 ++ (if part.isEmpty then [] else '.' :: part) ++ 'e' :: (sign ++ decimalDigits x.natAbs)

def text (l : DecimalLayout) (x : Decimal) : List Char :=
  if x.digits = 0 then ['0', '.', '0']
  else
    let ds := decimalDigits x.digits
    let point := ds.length + x.exponent
    if l.leastPoint < point ∧ point ≤ l.greatestPoint then positional ds point
    else scientific l.plus ds point

end Decimal

namespace Double

/-- Wide values in messages are positional from 1e-5 up to 1e16. -/
def messageLayout : DecimalLayout := ⟨-5, 16, true⟩

def signed (negative : Bool) (cs : List Char) : String :=
  String.ofList (if negative then '-' :: cs else cs)

/-- The text of a wide value in a message. -/
def shown (x : Double) : String :=
  match x.magnitude with
  | .finite m e => signed x.negative ((Decimal.shortest .double m e).text messageLayout)
  | .infinite => signed x.negative "inf".toList
  | .undefined => "NaN"

/-- Positional text without an exponent, and without a point for whole values. -/
def plain (x : Double) : String :=
  match x.magnitude with
  | .finite m e =>
    let d := Decimal.shortest .double m e
    if d.digits = 0 then signed x.negative ['0']
    else
      let ds := decimalDigits d.digits
      let cs := Decimal.positional ds (ds.length + d.exponent)
      signed x.negative (if 0 ≤ d.exponent then cs.take (cs.length - 2) else cs)
  | .infinite => signed x.negative "inf".toList
  | .undefined => "NaN"

end Double

end RigNodes
