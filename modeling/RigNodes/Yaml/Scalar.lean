import RigNodes.Number.Single

/-! What plain YAML scalars mean: nothing, a truth value, a whole number, a floating number, or
else text. Text that would read as something else has to be quoted. -/
namespace RigNodes.Yaml

def isNull (s : String) : Bool := s == "null" || s == "Null" || s == "NULL" || s == "~"

def flag? (s : String) : Option Bool :=
  if s == "true" || s == "True" || s == "TRUE" then some true
  else if s == "false" || s == "False" || s == "FALSE" then some false
  else none

def digit? (radix : Nat) (c : Char) : Option Nat :=
  let v :=
    if '0' ≤ c ∧ c ≤ '9' then some (c.toNat - '0'.toNat)
    else if 'a' ≤ c ∧ c ≤ 'z' then some (c.toNat - 'a'.toNat + 10)
    else if 'A' ≤ c ∧ c ≤ 'Z' then some (c.toNat - 'A'.toNat + 10)
    else none
  v.filter (· < radix)

/-- Digits of a radix, at least one. -/
def natural? (radix : Nat) (cs : List Char) : Option Nat :=
  if cs.isEmpty then none
  else cs.foldlM (fun n c => (digit? radix c).map (n * radix + ·)) 0

/-- Digits after a leading zero are no number: `007` is text. -/
def isPaddedDigits (cs : List Char) : Bool :=
  let cs := match cs with
    | '-' :: r | '+' :: r => r
    | r => r
  match cs with
  | '0' :: r => !r.isEmpty && r.all Char.isDigit
  | _ => false

/-- Digits with a mark for their radix. -/
def marked? : List Char → Option Nat
  | '0' :: 'x' :: r => natural? 16 r
  | '0' :: 'o' :: r => natural? 8 r
  | '0' :: 'b' :: r => natural? 2 r
  | _ => none

/-- Whole numbers of any size. A plus sign changes nothing. -/
def integer? (cs : List Char) : Option Int :=
  match cs with
  | '-' :: r =>
    match marked? r with
    | some n => some (-n)
    | none => if isPaddedDigits cs then none else (natural? 10 r).map fun n => -(n : Int)
  | _ =>
    let r := match cs with
      | '+' :: r => r
      | r => r
    match marked? r with
    | some n => some n
    | none => if isPaddedDigits cs then none else (natural? 10 r).map fun n => (n : Int)

/-- A decimal number with an optional point and an optional exponent: its digits and the power of
ten of the last one. -/
def decimal? (cs : List Char) : Option Decimal :=
  let whole := cs.takeWhile Char.isDigit
  let rest := cs.dropWhile Char.isDigit
  let (part, rest) := match rest with
    | '.' :: r => (r.takeWhile Char.isDigit, r.dropWhile Char.isDigit)
    | r => ([], r)
  if whole.isEmpty && part.isEmpty then none
  else
    let power : Option Int := match rest with
      | [] => some 0
      | 'e' :: r | 'E' :: r =>
        match r with
        | '-' :: r => (natural? 10 r).map fun n => -(n : Int)
        | '+' :: r => (natural? 10 r).map fun n => (n : Int)
        | r => (natural? 10 r).map fun n => (n : Int)
      | _ => none
    power.bind fun e => (natural? 10 (whole ++ part)).map fun n => ⟨n, e - part.length⟩

/-- The wide value nearest to a decimal. Beyond four hundred places nothing but zero or infinity
is near. -/
def nearestDouble (x : Decimal) : Magnitude :=
  if x.digits = 0 then .finite 0 (-1074)
  else
    let places := (decimalDigits x.digits).length + x.exponent
    if places < -400 then .finite 0 (-1074)
    else if 400 < places then .infinite
    else
      let p := powerOfTen x.exponent
      BinaryFormat.double.nearest (x.digits * p.1) p.2

/-- Floating numbers. Infinities and undefined values have names of their own; a decimal too large
for the wide format is none. -/
def float? (cs : List Char) : Option Double :=
  let s := String.ofList cs
  let unsigned := match cs with
    | '+' :: r => r
    | r => r
  let u := String.ofList unsigned
  if u == ".inf" || u == ".Inf" || u == ".INF" then some ⟨false, .infinite⟩
  else if s == "-.inf" || s == "-.Inf" || s == "-.INF" then some ⟨true, .infinite⟩
  else if s == ".nan" || s == ".NaN" || s == ".NAN" then some ⟨false, .undefined⟩
  else
    let (negative, ds) := match cs with
      | '-' :: r => (true, r)
      | _ => (false, unsigned)
    match (decimal? ds).map nearestDouble with
    | some (.finite m e) => some ⟨negative, .finite m e⟩
    | _ => none

/-- Whether a plain scalar would not be read as the text that it is. -/
def isAmbiguous (s : String) : Bool :=
  let cs := s.toList
  s.isEmpty || isNull s || (flag? s).isSome || isPaddedDigits cs
    || (integer? cs).any (fun i => -Int.pow 2 127 ≤ i && i < Int.pow 2 128)
    || (float? cs).isSome

end RigNodes.Yaml
