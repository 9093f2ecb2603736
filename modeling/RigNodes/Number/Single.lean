import RigNodes.Number.Decimal

/-! The 32-bit floating values of document entries, held as their bits: two values are equal only
if they are written alike, so `0.0` and `-0.0` differ. -/
namespace RigNodes

structure Single where
  bits : UInt32
  deriving DecidableEq, Repr

namespace Single

def negative (x : Single) : Bool := Nat.pow 2 31 ≤ x.bits.toNat

def magnitude (x : Single) : Magnitude :=
  let b : Nat := x.bits.toNat % Nat.pow 2 31
  let e : Nat := b / Nat.pow 2 23
  let m : Nat := b % Nat.pow 2 23
  if e = 255 then if m = 0 then .infinite else .undefined
  else if e = 0 then .finite m (-149)
  else .finite (m + Nat.pow 2 23) ((e : Int) - 150)

def isFinite (x : Single) : Bool :=
  match x.magnitude with
  | .finite _ _ => true
  | _ => false

def isUndefined (x : Single) : Bool := x.magnitude == .undefined

/-- The bits of a magnitude that the narrow format holds. -/
def magnitudeBits : Magnitude → Nat
  | .finite m e => if m < Nat.pow 2 23 then m else (e + 150).toNat * Nat.pow 2 23 + (m - Nat.pow 2 23)
  | .infinite => 255 * Nat.pow 2 23
  | .undefined => 255 * Nat.pow 2 23 + Nat.pow 2 22

def ofMagnitude (negative : Bool) (x : Magnitude) : Single :=
  ⟨(magnitudeBits x + if negative then Nat.pow 2 31 else 0).toUInt32⟩

/-- The nearest narrow value; too large values become infinite. -/
def ofDouble (x : Double) : Single := ofMagnitude x.negative (x.magnitude.convert .single)

def ofInt (i : Int) : Single := ofMagnitude (i < 0) (BinaryFormat.single.nearest i.natAbs 1)

/-- The value nearest to `digits · 10 ^ exponent`. -/
def ofDecimal (negative : Bool) (x : Decimal) : Single :=
  let p := powerOfTen x.exponent
  ofMagnitude negative (BinaryFormat.single.nearest (x.digits * p.1) p.2)

/-- Narrow values are positional from 1e-6 up to 1e13. -/
def layout (plus : Bool) : DecimalLayout := ⟨-6, 13, plus⟩

/-- The shortest text that reads back to the value, for finite values only. -/
def text? (plus : Bool) (x : Single) : Option String :=
  match x.magnitude with
  | .finite m e =>
    some (Double.signed x.negative ((Decimal.shortest .single m e).text (layout plus)))
  | _ => none

end Single

end RigNodes
