import RigNodes.Diagnostics
import RigNodes.NodeRef
import RigNodes.Table.Kind

/-! What the resolver has to say: one constructor for each cause, with its severity and its
wording. -/
namespace RigNodes

inductive Notice
  | duplicateNumber (n : UInt32) (first : Nat)
  | duplicateName (x : String) (first : Nat)
  | outOfSequence (k : Kind)
  | noWheelKind (k : Kind)
  | definitionWithoutId
  | definitionMoved (written : Slot) (assigned : Nat)
  | slotOutsideTable (s : Slot) (size : Nat)
  | invalidReference
  | nameNotFound (x : String)
  | numberNotDefined (n : UInt32)
  | byLegacyPosition (n : UInt32) (origin : Kind) (p : Nat)
  | selfReference (r : NodeRef) (p : Nat)
  | selfReferences (n : Nat)
  | rangeUnresolved (r : NodeRange)
  | rangeReversed (r : NodeRange) (start stop : Slot)
  | rangeSpansGroups (r : NodeRange) (start stop : Slot)
  | noNodeAtPosition (k : Kind) (i : UInt32) (count : Nat)
  deriving DecidableEq, Repr

namespace Notice

/-- Errors are references and definitions that failed, warnings are oddities that were tolerated. -/
def severity : Notice → Severity
  | duplicateNumber .. | duplicateName .. | noWheelKind .. | definitionWithoutId
  | nameNotFound .. | numberNotDefined .. | rangeUnresolved .. | noNodeAtPosition .. => .error
  | outOfSequence .. | definitionMoved .. | slotOutsideTable .. | invalidReference
  | byLegacyPosition .. | rangeReversed .. | rangeSpansGroups .. => .warning
  | selfReference .. | selfReferences .. => .info

/-- A table position shows like a slot. -/
def position (p : Nat) : String := "#" ++ toString p

def text : Notice → String
  | duplicateNumber n p =>
    s!"duplicate node number {n.toNat} (first defined as {position p}), ignoring the duplicate"
  | duplicateName x p =>
    s!"duplicate node name \"{x}\" (first defined as {position p}), ignoring the duplicate"
  | outOfSequence k => s!"'{k.shown}' node registered out of canonical sequence"
  | noWheelKind k => s!"'{k.shown}' does not generate wheel nodes"
  | definitionWithoutId => "node definition without a valid id"
  | definitionMoved s p => s!"canonical node id {s.shown} was assigned slot {position p}"
  | slotOutsideTable s n => s!"slot {s.shown} is outside the node table ({n} nodes)"
  | invalidReference => "attempt to resolve an invalid node reference"
  | nameNotFound x => s!"named node not found: \"{x}\""
  | numberNotDefined n => s!"node number {n.toNat} is not defined"
  | byLegacyPosition n k p =>
    s!"node number {n.toNat} addresses a '{k.shown}' node by legacy position, resolved to {position p}"
  | selfReference r p =>
    s!"reference {r.shown} resolves to {position p}, a node generated by this entry"
  | selfReferences n =>
    s!"{n} reference(s) resolved to nodes generated by the referencing entry"
  | rangeUnresolved r => s!"node range {r.shown} could not be fully resolved"
  | rangeReversed r s e =>
    s!"node range {r.shown} resolved to {s.shown}-{e.shown}, which is reversed"
  | rangeSpansGroups r s e =>
    s!"node range {r.shown} resolved to {s.shown}-{e.shown}, which spans nodes of several sections"
  | noNodeAtPosition k i n =>
    s!"'{k.shown}' has no node at position {i.toNat} ({n} registered)"

end Notice

/-- A notice with the section it belongs to, if it belongs to one. -/
structure Finding where
  keyword : Option Keyword
  notice : Notice
  deriving DecidableEq, Repr

namespace Finding

def message (moduleName : String) (f : Finding) : Message where
  severity := f.notice.severity
  keyword := f.keyword
  moduleName := moduleName
  text := f.notice.text

end Finding

end RigNodes
