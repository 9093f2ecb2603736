/-! File paths, and what can go wrong when a file is read. -/
namespace RigNodes

/-- Why a file could not be read. -/
inductive FileFault
  | notFound
  | isDirectory
  | notDirectory
  | denied
  /-- The bytes are no text. -/
  | notText
  | failed (reason : String)
  deriving DecidableEq, Repr

def FileFault.message : FileFault → String
  | notFound => "No such file or directory (os error 2)"
  | isDirectory => "Is a directory (os error 21)"
  | notDirectory => "Not a directory (os error 20)"
  | denied => "Permission denied (os error 13)"
  | notText => "stream did not contain valid UTF-8"
  | failed reason => reason

namespace Path

/-- The names of a path from left to right. Empty names and single dots mean nothing. -/
def names (path : String) : List String :=
  (path.splitOn "/").filter fun x => x != "" && x != "."

/-- The last name, unless it leads upwards. -/
def fileName? (path : String) : Option String :=
  (names path).getLast?.filter fun x => x != ".."

/-- What follows the last dot of the last name. A dot at its start does not count. -/
def extension? (path : String) : Option String := do
  let name ← fileName? path
  let reversed := name.toList.reverse
  let ext := reversed.takeWhile fun c => c != '.'
  match reversed.drop ext.length with
  | _ :: _ :: _ => some (String.ofList ext.reverse)
  | _ => none

/-- A path with an extension added to its last name. -/
def addExtension? (path ext : String) : Option String := do
  let name ← fileName? path
  let folders := ((names path).dropLast).map fun x => x ++ "/"
  let root := if path.startsWith "/" then "/" else ""
  return root ++ String.join folders ++ name ++ "." ++ ext

end Path

/-- Files in one directory, by name. -/
abbrev Directory := List (String × String)

/-- Reads a file by its path inside the directory. -/
def Directory.read (files : Directory) (path : String) : Except FileFault String :=
  if path.isEmpty || path.startsWith "/" then .error .notFound
  else
    match Path.names path with
    | [] => .error .isDirectory
    | [name] =>
      match files.lookup name with
      | some text =>
        if path.endsWith "/" || path.endsWith "/." then .error .notDirectory else .ok text
      | none => .error .notFound
    | name :: _ => .error (if (files.lookup name).isSome then .notDirectory else .notFound)

end RigNodes
