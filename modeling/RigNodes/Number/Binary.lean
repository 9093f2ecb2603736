/-! Binary floating point in exact integer arithmetic: rounding a ratio to the nearest value of a
format, with ties to the even significand. -/
namespace RigNodes

/-- A format keeps `precision` significant bits and writes values as `significand · 2 ^ exponent`
with the exponent between the two bounds. -/
structure BinaryFormat where
  precision : Nat
  leastExponent : Int
  greatestExponent : Int
  deriving Repr

namespace BinaryFormat

def single : BinaryFormat := ⟨24, -149, 104⟩

def double : BinaryFormat := ⟨53, -1074, 971⟩

end BinaryFormat

/-- The size of a floating value, without its sign. -/
inductive Magnitude
  | finite (significand : Nat) (exponent : Int)
  | infinite
  | undefined
  deriving DecidableEq, Repr

/-- The quotient rounded to the nearest integer; a half goes to the even neighbour. -/
def divHalfEven (n d : Nat) : Nat :=
  let q := n / d
  let r := n % d
  if 2 * r < d ∨ (2 * r = d ∧ q % 2 = 0) then q else q + 1

/-- `2 ^ e` as a ratio of two naturals. -/
def powerOfTwo (e : Int) : Nat × Nat := (Nat.pow 2 e.toNat, Nat.pow 2 (-e).toNat)

/-- `10 ^ e` as a ratio of two naturals. -/
def powerOfTen (e : Int) : Nat × Nat := (Nat.pow 10 e.toNat, Nat.pow 10 (-e).toNat)

/-- The greatest `l` with `2 ^ l ≤ n / d`, for positive `n` and `d`. -/
def floorLog2 (n d : Nat) : Int :=
  let l : Int := (Nat.log2 n : Int) - Nat.log2 d
  let p := powerOfTwo l
  if d * p.1 ≤ n * p.2 then l else l - 1

namespace BinaryFormat

/-- The value of the format nearest to `n / d`. What lies beyond the greatest value by half a unit
or more becomes infinite. -/
def nearest (f : BinaryFormat) (n d : Nat) : Magnitude :=
  if n = 0 then .finite 0 f.leastExponent
  else
    let e := max f.leastExponent (floorLog2 n d - (f.precision - 1 : Nat))
    let p := powerOfTwo e
    let m := divHalfEven (n * p.2) (d * p.1)
    let (m, e) := if m = Nat.pow 2 f.precision then (Nat.pow 2 (f.precision - 1), e + 1) else (m, e)
    if e > f.greatestExponent then .infinite else .finite m e

end BinaryFormat

namespace Magnitude

/-- A finite magnitude as a ratio. -/
def ratio? : Magnitude → Option (Nat × Nat)
  | finite m e => let p := powerOfTwo e; some (m * p.1, p.2)
  | _ => none

def isZero : Magnitude → Bool
  | finite 0 _ => true
  | _ => false

/-- The same magnitude in another format, rounded once. -/
def convert (f : BinaryFormat) (x : Magnitude) : Magnitude :=
  match x.ratio? with
  | some (n, d) => f.nearest n d
  | none => x

/-- Product with a ratio, rounded once. -/
def scale (f : BinaryFormat) (n d : Nat) (x : Magnitude) : Magnitude :=
  match x.ratio? with
  | some (a, b) => f.nearest (a * n) (b * d)
  | none => x

end Magnitude

/-- A floating value of the wide format, as readers meet it before it is narrowed. -/
structure Double where
  negative : Bool
  magnitude : Magnitude
  deriving DecidableEq, Repr

namespace Double

def ofNat (n : Nat) : Double := ⟨false, BinaryFormat.double.nearest n 1⟩

def neg (x : Double) : Double := { x with negative := !x.negative }

end Double

end RigNodes
