import RigNodes.Toml.Value
import RigNodes.Yaml.Scalar

/-! Numbers and moments of TOML. Each takes a word of its own, which is read as a whole. -/
namespace RigNodes.Toml

/-- Digits with single underscores between them. Returns them without the underscores. -/
def digitsOf? (radix : Nat) (cs : List Char) : Option (List Char) :=
  let rec go (afterDigit : Bool) : List Char → Option (List Char)
    | [] => if afterDigit then some [] else none
    | c :: r =>
      if c = '_' then if afterDigit then go false r else none
      else if (Yaml.digit? radix c).isSome then (go true r).map (c :: ·)
      else none
  go false cs

def naturalOf? (radix : Nat) (cs : List Char) : Option Nat :=
  (digitsOf? radix cs).bind (Yaml.natural? radix)

/-- Whole decimal numbers do not start with a zero, zero itself apart. -/
def isPadded : List Char → Bool
  | '0' :: _ :: _ => true
  | _ => false

/-- The sign of a number, and what follows it. -/
def signOf : List Char → Bool × List Char
  | '-' :: r => (true, r)
  | '+' :: r => (false, r)
  | r => (false, r)

/-- A whole number of 64 bits. Only decimal ones have a sign. -/
def integer? (cs : List Char) : Option Int :=
  let i? : Option Int := match cs with
    | '0' :: 'x' :: r => (naturalOf? 16 r).map Int.ofNat
    | '0' :: 'o' :: r => (naturalOf? 8 r).map Int.ofNat
    | '0' :: 'b' :: r => (naturalOf? 2 r).map Int.ofNat
    | cs =>
      let (negative, ds) := signOf cs
      if isPadded ds then none
      else (naturalOf? 10 ds).map fun n => if negative then -(n : Int) else n
  i?.filter fun i => -Int.pow 2 63 ≤ i && i < Int.pow 2 63

/-- A fraction, an exponent, or both stand behind the whole part of a floating number. -/
def finiteFloat? (ds : List Char) : Option Decimal := do
  let whole := ds.takeWhile fun c => c.isDigit || c == '_'
  let rest := ds.drop whole.length
  let whole ← digitsOf? 10 whole
  guard (!isPadded whole)
  let (part, rest) ← match rest with
    | '.' :: r =>
      let part := r.takeWhile fun c => c.isDigit || c == '_'
      (digitsOf? 10 part).map fun x => (x, r.drop part.length)
    | 'e' :: _ | 'E' :: _ => some ([], rest)
    | _ => none
  let power : Int ← match rest with
    | [] => some 0
    | 'e' :: r | 'E' :: r =>
      let (negative, r) := signOf r
      (naturalOf? 10 r).map fun n => if negative then -(n : Int) else n
    | _ => none
  let n ← Yaml.natural? 10 (whole ++ part)
  return ⟨n, power - part.length⟩

/-- A floating number. One that is too large for the wide format is none, but may be too far below
zero. -/
def float? (cs : List Char) : Option Double :=
  let (negative, ds) := signOf cs
  if ds = ['i', 'n', 'f'] then some ⟨negative, .infinite⟩
  else if ds = ['n', 'a', 'n'] then some ⟨negative, .undefined⟩
  else (finiteFloat? ds).bind fun x =>
    match Yaml.nearestDouble x with
    | .infinite => if negative then some ⟨true, .infinite⟩ else none
    | m => some ⟨negative, m⟩

/-- A number of exactly as many digits as told, between bounds. -/
def field? (least greatest : Nat) (ds : List Char) : Option Nat :=
  if ds.all Char.isDigit then (Yaml.natural? 10 ds).filter fun n => least ≤ n && n ≤ greatest
  else none

def daysOf (year month : Nat) : Nat :=
  if month = 2 then
    if year % 4 = 0 ∧ (year % 100 ≠ 0 ∨ year % 400 = 0) then 29 else 28
  else if month = 4 ∨ month = 6 ∨ month = 9 ∨ month = 11 then 30
  else 31

/-- A day of the calendar. -/
def date? : List Char → Option (List Char × List Char)
  | a :: b :: c :: d :: '-' :: e :: f :: '-' :: g :: h :: r => do
    let year ← field? 0 9999 [a, b, c, d]
    let month ← field? 1 12 [e, f]
    let _ ← field? 1 (daysOf year month) [g, h]
    return ([a, b, c, d, '-', e, f, '-', g, h], r)
  | _ => none

/-- The digits of a fraction of a second. Nine of them count, without zeros at the end. -/
def fraction (ds : List Char) : List Char :=
  match ((ds.take 9).reverse.dropWhile (· == '0')).reverse with
  | [] => []
  | ds => '.' :: ds

/-- A time of day. A minute may have a leap second. -/
def time? : List Char → Option (List Char × List Char)
  | a :: b :: ':' :: c :: d :: ':' :: e :: f :: r => do
    let _ ← field? 0 23 [a, b]
    let _ ← field? 0 59 [c, d]
    let _ ← field? 0 60 [e, f]
    let clock := [a, b, ':', c, d, ':', e, f]
    match r with
    | '.' :: r =>
      let ds := r.takeWhile Char.isDigit
      if ds.isEmpty then none else some (clock ++ fraction ds, r.drop ds.length)
    | r => some (clock, r)
  | _ => none

/-- The distance to universal time. -/
def offset? : List Char → Option (List Char)
  | [] => some []
  | ['Z'] | ['z'] => some ['Z']
  | [sign, a, b, ':', c, d] => do
    guard (sign == '+' || sign == '-')
    let hours ← field? 0 23 [a, b]
    let minutes ← field? 0 59 [c, d]
    let sign := if hours = 0 ∧ minutes = 0 then '+' else sign
    return [sign, a, b, ':', c, d]
  | _ => none

/-- A day, a time of day, or both with a letter between them. -/
def moment? (cs : List Char) : Option String :=
  match date? cs with
  | some (day, []) => some (String.ofList day)
  | some (day, c :: r) =>
    if c = 'T' ∨ c = 't' ∨ c = ' ' then do
      let (clock, r) ← time? r
      return String.ofList (day ++ 'T' :: (clock ++ (← offset? r)))
    else none
  | none =>
    match time? cs with
    | some (clock, []) => some (String.ofList clock)
    | _ => none

/-- Characters of the words that stand for values. -/
def isWordChar (c : Char) : Bool :=
  c.isAlphanum || c == '+' || c == '-' || c == '_' || c == '.' || c == ':'

/-- The word at the start of a text. A day takes a time of day with it that follows after a
space. -/
def wordOf (cs : List Char) : List Char :=
  let word := cs.takeWhile isWordChar
  match date? word, cs.drop word.length with
  | some (_, []), ' ' :: a :: b :: ':' :: r =>
    if a.isDigit ∧ b.isDigit then word ++ ' ' :: a :: b :: ':' :: r.takeWhile isWordChar else word
  | _, _ => word

/-- The value of a word. -/
def wordValue? (word : List Char) : Option Value :=
  if word = "true".toList then some (.flag true)
  else if word = "false".toList then some (.flag false)
  else
    match moment? word, float? word, integer? word with
    | some s, _, _ => some (.moment s)
    | none, some x, _ => some (.float x)
    | none, none, some i => some (.integer i)
    | none, none, none => none

end RigNodes.Toml
