import RigNodes.Document.File
import RigNodes.Resolver
import RigNodes.Settings
import RigNodes.Table.Dumpers
import RigNodes.Text.Blank

/-! The command line: what the arguments ask for, and what the program answers. -/
namespace RigNodes.CommandLine

inductive Command
  | resolve (path : String) (config : Option String) (disable : Bool) (output : Option String)
  | table (path : String) (config format : Option String)
  | listFormats
  | version
  | help
  deriving DecidableEq, Repr

/-- What is wrong with the arguments. -/
inductive UsageError
  | nothingAsked
  | unexpected (argument : String)
  | valueMissing (option : String)
  | valueUnexpected (option : String)
  | repeated (option : String)
  | pathMissing
  deriving DecidableEq, Repr

namespace UsageError

def message : UsageError → String
  | nothingAsked => "a command is required: resolve, table or list-formats"
  | unexpected argument => s!"unexpected argument '{argument}'"
  | valueMissing option => s!"a value is required for '--{option}'"
  | valueUnexpected option => s!"'--{option}' takes no value"
  | repeated option => s!"'--{option}' cannot be used multiple times"
  | pathMissing => "the path of a document is required"

end UsageError

/-- An option of a command. Flags take no value. -/
structure OptionForm where
  long : String
  short : Option Char
  takesValue : Bool

namespace OptionForm

def config : OptionForm := ⟨"config", some 'c', true⟩

def disable : OptionForm := ⟨"disable", none, false⟩

def output : OptionForm := ⟨"output", some 'o', true⟩

def format : OptionForm := ⟨"format", some 'f', true⟩

end OptionForm

/-- The arguments of a command, taken apart. -/
structure Arguments where
  path : Option String
  /-- Options with their values; flags have an empty one. -/
  options : List (String × String)
  helpWanted : Bool

namespace Arguments

def none : Arguments := ⟨.none, [], false⟩

def value? (a : Arguments) (o : OptionForm) : Option String := a.options.lookup o.long

def set (a : Arguments) (o : OptionForm) (value : String) : Except UsageError Arguments :=
  if (a.value? o).isSome then .error (.repeated o.long)
  else .ok { a with options := (o.long, value) :: a.options }

def setPath (a : Arguments) (path : String) : Except UsageError Arguments :=
  if a.path.isSome then .error (.unexpected path) else .ok { a with path }

/-- How one argument is read. Some values are the next argument. -/
inductive Reading
  | done (a : Arguments)
  | needsValue (o : OptionForm)

/-- An option by its long name, with what follows an equals sign. -/
def readLong (a : Arguments) (forms : List OptionForm) (argument name : String)
    (value : Option String) : Except UsageError Reading :=
  match forms.find? (fun o => o.long == name), value with
  | some o, some v =>
    if o.takesValue then (a.set o v).map .done else .error (.valueUnexpected o.long)
  | some o, .none => if o.takesValue then .ok (.needsValue o) else (a.set o "").map .done
  | .none, _ => .error (.unexpected argument)

/-- An option by its letter, with a value that may be attached. -/
def readShort (a : Arguments) (forms : List OptionForm) (argument : String) (letter : Char)
    (rest : List Char) : Except UsageError Reading :=
  match forms.find? (fun o => o.short == some letter) with
  | some o =>
    match rest with
    | [] => .ok (.needsValue o)
    | '=' :: v => (a.set o (String.ofList v)).map .done
    | v => (a.set o (String.ofList v)).map .done
  | .none => .error (.unexpected argument)

/-- Reads one argument. Whether help is wanted shows at once. -/
def readOne (a : Arguments) (forms : List OptionForm) (argument : String) :
    Except UsageError Reading :=
  match argument.toList with
  | '-' :: '-' :: cs =>
    let name := cs.takeWhile (· != '=')
    let value := match cs.drop name.length with
      | _ :: v => some (String.ofList v)
      | [] => .none
    if name = "help".toList ∧ value.isNone then .ok (.done { a with helpWanted := true })
    else a.readLong forms argument (String.ofList name) value
  | ['-', 'h'] => .ok (.done { a with helpWanted := true })
  | '-' :: c :: cs => a.readShort forms argument c cs
  | _ => (a.setPath argument).map .done

/-- Whether an argument cannot be the value of the option before it. -/
def looksLikeOption (argument : String) : Bool :=
  match argument.toList with
  | '-' :: _ :: _ => true
  | _ => false

/-- Reads the arguments from left to right. After two dashes all others are paths. -/
def read (forms : List OptionForm) (a : Arguments) (pending : Option OptionForm) :
    List String → Except UsageError Arguments
  | [] =>
    match pending with
    | some o => .error (.valueMissing o.long)
    | .none => .ok a
  | x :: xs =>
    match pending with
    | some o =>
      if looksLikeOption x then .error (.valueMissing o.long)
      else (a.set o x).bind fun a => read forms a .none xs
    | .none =>
      if x = "--" then xs.foldlM setPath a
      else (a.readOne forms x).bind fun
        | .done a => if a.helpWanted then .ok a else read forms a .none xs
        | .needsValue o => read forms a (some o) xs

end Arguments

/-- Reads the arguments of a command that takes a path. -/
def withPath (forms : List OptionForm) (args : List String)
    (command : String → Arguments → Command) : Except UsageError Command := do
  let a ← Arguments.read forms .none none args
  if a.helpWanted then return .help
  match a.path with
  | some path => return command path a
  | none => .error .pathMissing

/-- What the arguments ask for. -/
def command : List String → Except UsageError Command
  | [] => .error .nothingAsked
  | "--version" :: _ | "-V" :: _ => .ok .version
  | "--help" :: _ | "-h" :: _ => .ok .help
  | "help" :: names =>
    match names with
    | [] | ["resolve"] | ["table"] | ["list-formats"] | ["help"] => .ok .help
    | x :: _ => .error (.unexpected x)
  | "resolve" :: args =>
    withPath [.config, .disable, .output] args fun path a =>
      .resolve path (a.value? .config) (a.value? .disable).isSome (a.value? .output)
  | "table" :: args =>
    withPath [.config, .format] args fun path a =>
      .table path (a.value? .config) (a.value? .format)
  | "list-formats" :: args => do
    let a ← Arguments.read [] .none none args
    if a.helpWanted then return .help
    match a.path with
    | some x => .error (.unexpected x)
    | none => return .listFormats
  | x :: _ => .error (.unexpected x)

/-- What the program leaves behind: its exit code and what it wrote. -/
structure Outcome where
  code : Nat
  output : String
  errors : String
  deriving DecidableEq, Repr

namespace Outcome

/-- The input, the settings or the arguments are no good. -/
def refused (output : String) (reason : String) : Outcome := ⟨2, output, reason ++ "\n"⟩

end Outcome

/-- A text as it is printed: without white space at its end, and with a line end. -/
def printed (text : String) : String := Text.trimEnd text ++ "\n"

/-- A file that is there, if it is readable. -/
def regular (content : Except FileFault String) : Option (Except FileFault String) :=
  match content with
  | .error .notFound | .error .isDirectory | .error .notDirectory => none
  | content => some content

section

variable {m : Type → Type} [Monad m] (read : String → m (Except FileFault String))

/-- The text of a settings file. Its extension may be left out. -/
def readSettingsFile (path : String) : m (Except SettingsError (String × String)) := do
  let take (p : String) (content : Except FileFault String) : Except SettingsError (String × String) :=
    match content with
    | .ok text => .ok (p, text)
    | .error f => .error (.unreadable p f)
  match regular (← read path) with
  | some content => return take path content
  | none =>
    match Path.addExtension? path "toml" with
    | none => return .error (.unreadable path .notFound)
    | some longer =>
      match regular (← read longer) with
      | some content => return take longer content
      | none => return .error (.unreadable path .notFound)

/-- The settings of a run, or why there are none. -/
def loadSettings (config : Option String) (disable : Bool) : m (Except String Settings) := do
  let enabled := if disable then some false else none
  match config with
  | none => return (Settings.ofLayers none enabled).mapError (·.message "")
  | some path =>
    match ← readSettingsFile read path with
    | .error e => return .error (e.message path)
    | .ok (path, text) =>
      return (Settings.ofLayers (some (path, text)) enabled).mapError (·.message path)

/-- A run of the resolver over one file. -/
structure Run where
  settings : Settings
  resolver : Resolver
  document : Document

/-- Loads settings and document, in this order, and resolves the document. -/
def resolveFile (path : String) (config : Option String) (disable : Bool) :
    m (Except String Run) := do
  match ← loadSettings read config disable with
  | .error e => return .error ("Config error: " ++ e)
  | .ok settings =>
    match Document.ofFile path (← read path) with
    | .error e => return .error ("Error loading " ++ path ++ ": " ++ e.message)
    | .ok d =>
      let (resolver, document) := (Resolver.new settings.options).process d
      return .ok ⟨settings, resolver, document⟩

end

namespace Run

/-- Errors in the document show in the exit code. -/
def report (r : Run) (output : String) : Outcome where
  code := if 0 < r.resolver.diagnostics.errorCount then 1 else 0
  output := output
  errors := r.resolver.diagnostics.report ++ r.resolver.diagnostics.summary ++ "\n"

/-- The tables as they are printed. -/
def tables (r : Run) (format : String) : Except String String :=
  match Dumpers.builtin.render format r.resolver.finished with
  | .ok text => .ok (printed text)
  | .error e => .error ("Format error: " ++ e.message)

/-- Prints the resolved document, and the tables if the settings ask for them. -/
def printDocument (r : Run) (output : String) : Outcome :=
  match FileFormat.ofName output with
  | .error e => .refused "" ("Output error: " ++ e.message)
  | .ok f =>
    let text := printed (r.document.toText f)
    if r.settings.dumpTable then
      match r.tables r.settings.format with
      | .ok tables => r.report (text ++ tables)
      | .error e => .refused text e
    else r.report text

def printTables (r : Run) (format : Option String) : Outcome :=
  match r.tables (format.getD r.settings.format) with
  | .ok text => r.report text
  | .error e => .refused "" e

end Run

def versionText : String := "rigref 0.1.0\n"

def helpText : String :=
  String.join <| [
    "Resolve node references of rig definition documents to canonical slots",
    "",
    "Usage: rigref <COMMAND>",
    "",
    "Commands:",
    "  resolve       Resolve a document and print it",
    "  table         Resolve a document and dump its canonical node tables",
    "  list-formats  List available table dump formats"].map fun line => line ++ "\n"

def formatsText : String :=
  "Available table formats:\n\n" ++
    String.join (Dumpers.builtin.listing.map fun (name, description) =>
      "  " ++ name ++ "\n    " ++ description ++ "\n")

/-- Does what a command asks for. Files are read by the given function only. -/
def run {m : Type → Type} [Monad m] (read : String → m (Except FileFault String)) :
    Command → m Outcome
  | .version => return ⟨0, versionText, ""⟩
  | .help => return ⟨0, helpText, ""⟩
  | .listFormats => return ⟨0, formatsText, ""⟩
  | .resolve path config disable output => do
    match ← resolveFile read path config disable with
    | .error e => return .refused "" e
    | .ok r => return r.printDocument (output.getD "json")
  | .table path config format => do
    match ← resolveFile read path config false with
    | .error e => return .refused "" e
    | .ok r => return r.printTables format

/-- The program as a whole. -/
def answer {m : Type → Type} [Monad m] (read : String → m (Except FileFault String))
    (args : List String) : m Outcome :=
  match command args with
  | .ok c => run read c
  | .error e => return .refused "" ("error: " ++ e.message)

end RigNodes.CommandLine
