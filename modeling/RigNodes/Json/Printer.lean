import RigNodes.Datum

/-! Writing data as JSON text, with two spaces for each level. -/
namespace RigNodes.Json

def hexDigit (n : Nat) : Char := Nat.digitChar n

/-- Quotes, backslashes and control characters are escaped, and nothing else. -/
def escape (c : Char) : List Char :=
  if c = '"' then ['\\', '"']
  else if c = '\\' then ['\\', '\\']
  else if c = '\x08' then ['\\', 'b']
  else if c = '\x0c' then ['\\', 'f']
  else if c = '\n' then ['\\', 'n']
  else if c = '\r' then ['\\', 'r']
  else if c = '\t' then ['\\', 't']
  else if c < ' ' then ['\\', 'u', '0', '0', hexDigit (c.toNat / 16), hexDigit (c.toNat % 16)]
  else [c]

def quoted (s : String) : List Char := '"' :: (s.toList.flatMap escape ++ ['"'])

/-- A new line with its indentation. -/
def newline (level : Nat) : List Char := '\n' :: List.replicate (2 * level) ' '

/-- Items on lines of their own, between brackets. No items leave nothing between the brackets. -/
def bracketed (left right : Char) (level : Nat) (items : List (List Char)) : List Char :=
  match items with
  | [] => [left, right]
  | _ =>
    let lines := items.map fun item => newline (level + 1) ++ item
    left :: (List.intercalate [','] lines ++ newline level ++ [right])

def pair (key : String) (value : List Char) : List Char := quoted key ++ ':' :: ' ' :: value

mutual

/-- Values without a number, such as infinities, are written as null. -/
def print (level : Nat) : Datum → List Char
  | .null => ['n', 'u', 'l', 'l']
  | .flag true => ['t', 'r', 'u', 'e']
  | .flag false => ['f', 'a', 'l', 's', 'e']
  | .integer i => (toString i).toList
  | .single x => ((x.text? true).getD "null").toList
  | .text s => quoted s
  | .list items => bracketed '[' ']' level (printItems (level + 1) items)
  | .record fields => bracketed '{' '}' level (printFields (level + 1) fields)
  | .variant name content => bracketed '{' '}' level [pair name (print (level + 1) content)]

def printItems (level : Nat) : List Datum → List (List Char)
  | [] => []
  | d :: ds => print level d :: printItems level ds

def printFields (level : Nat) : List (String × Datum) → List (List Char)
  | [] => []
  | (key, d) :: fields => pair key (print level d) :: printFields level fields

end

def text (d : Datum) : String := String.ofList (print 0 d)

end RigNodes.Json
