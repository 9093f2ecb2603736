import RigNodes.Datum
import RigNodes.Yaml.Style

/-! Writing data as YAML text, in blocks. Lists stand below their key without indentation, and
variants become tags. -/
namespace RigNodes.Yaml

/-- Narrow values have names for those that are no number. -/
def singleText (x : Single) : List Char :=
  match x.text? false with
  | some s => s.toList
  | none =>
    if x.isUndefined then ['.', 'n', 'a', 'n']
    else if x.negative then ['-', '.', 'i', 'n', 'f']
    else ['.', 'i', 'n', 'f']

/-- Ends a line that a block has not ended already. -/
def endLine (cs : List Char) : List Char :=
  if cs.getLast?.any isBreak then cs else cs ++ ['\n']

mutual

/-- What stands after a key or a dash, with the end of its last line. `indent` is the indentation
of the key or dash, and `lists` that of the items of a list here. A list or a record on the line
of a dash starts on this line, unless a tag stands there. -/
def print (indent lists : Nat) (inline : Bool) : Datum → List Char
  | .null => " null\n".toList
  | .flag true => " true\n".toList
  | .flag false => " false\n".toList
  | .integer i => ' ' :: ((toString i).toList ++ ['\n'])
  | .single x => ' ' :: (singleText x ++ ['\n'])
  | .text s => endLine (' ' :: scalarText (indent + 2) s)
  | .list [] => " []\n".toList
  | .list items =>
    if inline then ' ' :: printItems lists [] items
    else '\n' :: printItems lists (spaces lists) items
  | .record [] => " \x7b\x7d\n".toList
  | .record fields =>
    if inline then ' ' :: printFields (indent + 2) [] fields
    else '\n' :: printFields (indent + 2) (spaces (indent + 2)) fields
  | .variant name content => ' ' :: '!' :: (name.toList ++ print indent lists false content)

/-- The items of a list. The first one follows the given padding. -/
def printItems (indent : Nat) (pad : List Char) : List Datum → List Char
  | [] => []
  | d :: ds =>
    pad ++ '-' :: (print indent (indent + 2) true d ++ printItems indent (spaces indent) ds)

/-- The fields of a record. The first one follows the given padding. -/
def printFields (indent : Nat) (pad : List Char) : List (String × Datum) → List Char
  | [] => []
  | (key, d) :: fields =>
    pad ++ key.toList ++ ':' :: (print indent indent false d ++ printFields indent (spaces indent) fields)

end

/-- A document of its own. -/
def text (d : Datum) : String :=
  String.ofList <|
    match d with
    | .record (field :: fields) => printFields 0 [] (field :: fields)
    | .list (item :: items) => printItems 0 [] (item :: items)
    | d => (print 0 0 false d).drop 1

end RigNodes.Yaml
