import RigNodes.Json.Decode
import RigNodes.Yaml.Node
import RigNodes.Yaml.Scalar
import RigNodes.Yaml.Token.Lexer

/-! Reading documents from YAML, by their shape. Nothing is said about what is wrong with a text
that does not fit. -/
namespace RigNodes.Yaml

/-- A reading follows recalls. How often is limited, so that small documents do not grow without
bound; the state is what is left of the limit. -/
abbrev Reading (α : Type) := ReaderT Composer (StateT Nat Option) α

/-- The node that is meant. Recalled nodes are never recalls themselves. -/
def follow (n : Node) : Reading Node := do
  match n with
  | .recall anchor =>
    match ← get with
    | 0 => failure
    | left + 1 =>
      set left
      match (← read).target? anchor with
      | some n => return n
      | none => failure
  | n => return n

/-- The full name of a tag of the standard types. -/
def standardTag (name : String) : String := "tag:yaml.org,2002:" ++ name

/-- The text of a scalar that may stand for a value of a type: a plain one, or a literal block with
the tag of the type. -/
def valueText? (type : String) : Node → Option (List Char)
  | .scalar _ .plain x => some x.toList
  | .scalar tag .literal x => if tag = some (standardTag type) then some x.toList else none
  | _ => none

/-- The text of a scalar, however it was written. -/
def readText (n : Node) : Reading String := do
  match ← follow n with
  | .scalar _ _ x => return x
  | _ => failure

/-- A whole number without a sign, of 32 bits. -/
def wordOf? (cs : List Char) : Option UInt32 :=
  if cs.head? = some '-' then none
  else (integer? cs).bind fun i =>
    if 0 ≤ i ∧ i < Int.pow 2 32 then some (UInt32.ofNat i.toNat) else none

def readWord (n : Node) : Reading UInt32 := do
  ((valueText? "int" (← follow n)).bind wordOf?).elim failure pure

def readInteger (n : Node) : Reading Int32 := do
  match (valueText? "int" (← follow n)).bind integer? with
  | some i => if -Int.pow 2 31 ≤ i ∧ i < Int.pow 2 31 then return Int32.ofInt i else failure
  | none => failure

def readSingle (n : Node) : Reading Single := do
  match (valueText? "float" (← follow n)).bind float? with
  | some x => return .ofDouble x
  | none => failure

def readFlag (n : Node) : Reading Bool := do
  ((valueText? "bool" (← follow n)).bind fun cs => flag? (String.ofList cs)).elim failure pure

/-- A variant: its name, and its content if it is a tag. -/
def readVariant (n : Node) : Reading (String × Option Node) := do
  let n ← follow n
  let name? (tag : Option String) : Option String := tag.bind fun t =>
    match t.toList with
    | '!' :: name => some (String.ofList name)
    | _ => none
  match n with
  | .scalar tag _ x =>
    match name? tag with
    | some name => return (name, some n)
    | none => return (x, none)
  | .list tag _ | .map tag _ =>
    match name? tag with
    | some name => return (name, some n)
    | none => failure
  | .recall _ => failure

/-- The content of a variant that has none. -/
def isNothing : Node → Bool
  | .scalar _ .plain x => x.isEmpty || isNull x
  | _ => false

/-- A number behind the tag of a variant is written plain. -/
def taggedWord? : Node → Option UInt32
  | .scalar _ .plain x => wordOf? x.toList
  | _ => none

def readRef (n : Node) : Reading NodeRef := do
  match ← readVariant n with
  | ("unresolved", none) => return .unresolved
  | ("unresolved", some n) => if isNothing n then return .unresolved else failure
  | ("number", some n) => (taggedWord? n).elim failure fun i => pure (.number i)
  | ("slot", some n) => (taggedWord? n).elim failure fun i => pure (.slot ⟨i⟩)
  | ("name", some (.scalar _ _ x)) => return .name x
  | _ => failure

def readKeyword (n : Node) : Reading Keyword := do
  let (name, content) ← readVariant n
  if content.all isNothing then (Keyword.ofText? name).elim failure pure else failure

/-- Whether a scalar stands for no value. -/
def isAbsent : Node → Option Bool
  | .scalar none .plain x => some (x.isEmpty || isNull x)
  | .scalar (some tag) .plain x =>
    if tag = standardTag "null" then if isNull x then some true else none else some false
  | _ => some false

/-- The items of a list. Nothing at all is an empty list. -/
def readItems (n : Node) : Reading (List Node) := do
  match ← follow n with
  | .list _ items => return items
  | .scalar _ .plain "" => return []
  | _ => failure

/-- The members of a map. Nothing at all is an empty map. -/
def readMembers (n : Node) : Reading (List (Node × Node)) := do
  match ← follow n with
  | .map _ members => return members
  | .scalar _ .plain "" => return []
  | _ => failure

def readVector {α : Type} : (n : Nat) → List α → Reading (Vector α n)
  | 0, [] => return #v[]
  | n + 1, a :: as => return Shape.cons a (← readVector n as)
  | _, _ => failure

/-- A scalar as a value, by its standard tag or by its looks. Whole numbers beyond 64 bits are
refused unless they are too large for a whole number altogether. -/
def heldScalar? (tag : Option String) (form : Form) (x : String) : Option Json.Tree :=
  let atom (a : Json.Atom) : Option Json.Tree := some (.atom (.ok a) (.ok ()))
  let text : Option Json.Tree := some (.text (.ok x) (.ok ()))
  let cs := x.toList
  let whole? := (integer? cs).filter fun i => -Int.pow 2 127 ≤ i && i < Int.pow 2 128
  let whole (i : Int) := if -Int.pow 2 63 ≤ i ∧ i < Int.pow 2 64 then atom (.integer i) else none
  match tag with
  | some t =>
    if t = standardTag "bool" then (flag? x).bind fun b => atom (.flag b)
    else if t = standardTag "int" then whole?.bind whole
    else if t = standardTag "float" then (float? cs).bind fun d => atom (.float d)
    else if t = standardTag "null" then if isNull x then atom .null else none
    else text
  | none =>
    if form ≠ .plain then text
    else if x.isEmpty ∨ isNull x then atom .null
    else
      match flag? x, whole?, if isPaddedDigits cs then none else float? cs with
      | some b, _, _ => atom (.flag b)
      | none, some i, _ => whole i
      | none, none, some d => atom (.float d)
      | none, none, none => text

/-- Tags of variants have no place in data that is held. -/
def isVariantTag (tag : Option String) : Bool := tag.any fun t => t.toList.head? == some '!'

/-- Data that has to wait for a keyword further on, down to a depth. -/
def hold : Nat → Node → Reading Json.Tree
  | depth, n => do
    match depth, ← follow n with
    | _, .scalar tag form x =>
      if isVariantTag tag then failure else (heldScalar? tag form x).elim failure pure
    | depth + 1, .list tag items =>
      if isVariantTag tag then failure
      let ts ← items.mapM (hold depth)
      return .list (ts.foldr .cons .closed)
    | depth + 1, .map tag members =>
      if isVariantTag tag then failure
      let ts ← members.mapM fun (k, v) => do return (← hold depth k, ← hold depth v)
      return .map (ts.foldr (fun (k, v) rest => .cons k v rest) .closed)
    | _, _ => failure

/-- The nesting that is left for values inside a section. -/
def heldDepth : Nat := 123

/-- The next member of a section that matters. -/
def nextMember : List (Node × Node) → Reading (Option (Bool × Node × List (Node × Node)))
  | [] => return none
  | (k, v) :: rest => do
    match ← readText k with
    | "keyword" => return some (true, v, rest)
    | "entries" => return some (false, v, rest)
    | _ => nextMember rest

/-- A section is a keyword with its entries, in either order. Entries that come first are held. -/
def readSection (entries : (k : Keyword) → Node → Reading (List (Entry k))) (n : Node) :
    Reading Section := do
  match ← nextMember (← readMembers n) with
  | none => failure
  | some (true, first, rest) =>
    let k ← readKeyword first
    match ← nextMember rest with
    | some (false, second, rest) =>
      let es ← entries k second
      if (← nextMember rest).isSome then failure
      return ⟨k, es⟩
    | _ => failure
  | some (false, first, rest) =>
    let held ← hold heldDepth first
    match ← nextMember rest with
    | some (true, second, rest) =>
      let k ← readKeyword second
      match Json.readSequence (Json.decode .held (Shape.entry k)) held with
      | .ok es =>
        if (← nextMember rest).isSome then failure
        return ⟨k, es⟩
      | .error _ => failure
    | _ => failure

mutual

def decode : {α : Type} → Shape α → Node → Reading α
  | _, .word, n => readWord n
  | _, .integer, n => readInteger n
  | _, .single, n => readSingle n
  | _, .flag, n => readFlag n
  | _, .text, n => readText n
  | _, .reference, n => readRef n
  | _, .optional s, n => do
    let n ← follow n
    match isAbsent n with
    | some true => return none
    | some false => return some (← decode s n)
    | none => failure
  | _, .list s, n => do (← readItems n).mapM (decode s)
  | _, .array size s, n => do readVector size (← (← readItems n).mapM (decode s))
  | _, .record _ fields build _ _, n => do
    let found ← (← readMembers n).foldlM
      (fun found (k, v) => do return (← decodeField fields (← readText k) v found).getD found)
      fields.noneFound
    match fields.complete found with
    | .ok a => return build a
    | .error _ => failure
  | _, .block entry, n => readSection (fun k n => do (← readItems n).mapM (decode (entry k))) n

/-- Reads the value of one field, if the record has it. A field must not come twice. -/
def decodeField : {α : Type} → (fs : Fields α) → String → Node → fs.Found →
    Reading (Option fs.Found)
  | _, .done, _, _, _ => return none
  | _, .cons (α := α) name s _ rest, k, n, found => do
    let (a?, others) : Option α × rest.Found := found
    if k == name then
      if a?.isSome then failure
      return some (some (← decode s n), others)
    else return (← decodeField rest k n others).map fun others => (a?, others)

end

/-- The document of a text. A node may be recalled a hundred times for each node there is. -/
def document? (s : String) : Option Document := do
  let c ← Composition.ofTokens? (← Token.ofText? s)
  ((decode Shape.document (c.root.getD .empty)).run c.composer).run' (100 * c.composer.size)

end RigNodes.Yaml
