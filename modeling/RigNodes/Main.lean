import RigNodes.CommandLine

/-! The program: reads files, writes what the command line answers, and exits. -/

namespace RigNodes.CommandLine

/-- Why a file could not be read, from what the system says. -/
def faultOf : IO.Error → FileFault
  | .noFileOrDirectory .. | .noSuchThing .. => .notFound
  | .inappropriateType _ 20 _ => .notDirectory
  | .inappropriateType .. => .isDirectory
  | .permissionDenied .. => .denied
  | e => .failed (toString e)

def readFile (path : String) : IO (Except FileFault String) := do
  try
    let bytes ← IO.FS.readBinFile path
    match String.fromUTF8? bytes with
    | some text => return .ok text
    | none => return .error .notText
  catch e => return .error (faultOf e)

end RigNodes.CommandLine

def main (args : List String) : IO UInt32 := do
  let outcome ← RigNodes.CommandLine.answer RigNodes.CommandLine.readFile args
  IO.print outcome.output
  IO.eprint outcome.errors
  return outcome.code.toUInt32
