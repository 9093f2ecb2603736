/-! The tokens of YAML text. Blocks that only indentation shows have tokens of their own. -/
namespace RigNodes.Yaml

/-- How a scalar was written, as far as its meaning depends on it. -/
inductive Form
  | plain | quoted | literal | folded
  deriving DecidableEq, Repr

inductive Token
  | versionDirective (major minor : Nat)
  /-- Gives a handle the text that it stands for. -/
  | tagDirective (handle meaning : String)
  | documentStart
  | documentEnd
  | blockListStart
  | blockMapStart
  | blockEnd
  | flowListStart
  | flowListEnd
  | flowMapStart
  | flowMapEnd
  | dash
  | comma
  | key
  | value
  | anchor (name : String)
  /-- Stands for the node that has the anchor. -/
  | recall (name : String)
  | tag (handle suffix : String)
  | scalar (form : Form) (text : String)
  deriving DecidableEq, Repr

end RigNodes.Yaml
