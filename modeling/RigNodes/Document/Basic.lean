import RigNodes.Document.Entry

/-! The document tree. A document is a list of modules; each module is a scope of its own for
node ids, and holds its sections in the order in which they were written. -/
namespace RigNodes

/-- A keyword with the entries written under it. The same keyword may open several sections. -/
structure Section where
  keyword : Keyword
  entries : List (Entry keyword)
  deriving DecidableEq

structure Module where
  name : String
  sections : List Section
  deriving DecidableEq

structure Document where
  name : String
  modules : List Module
  deriving DecidableEq

namespace Section

/-- The node definitions of a section, for the two node sections only. -/
def nodes? : Section → Option (List Node)
  | ⟨.nodes, es⟩ => some es
  | ⟨.nodes2, es⟩ => some es
  | _ => none

end Section

namespace Module

/-- The name of the module that holds a rig's main part. -/
def rootName : String := "_Root_"

def sectionsOf (m : Module) (k : Keyword) : List Section :=
  m.sections.filter fun s => s.keyword == k

/-- The ids of all node definitions, in declared order. -/
def nodeIds (m : Module) : List NodeRef :=
  m.sections.flatMap fun s => (s.nodes?.getD []).map Node.id

end Module

namespace Document

def module? (d : Document) (name : String) : Option Module :=
  d.modules.find? fun m => m.name == name

def rootModule? (d : Document) : Option Module := d.module? Module.rootName

/-- A document whose only module is the root module. -/
def withRoot (name : String) (sections : List Section) : Document :=
  ⟨name, [⟨Module.rootName, sections⟩]⟩

end Document

end RigNodes
