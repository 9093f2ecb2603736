import RigNodes.Resolver

/-! Histories of a resolver: what callers may ask of it, and the states they can bring it to. -/
namespace RigNodes

inductive Request
  | init (enabled : Bool)
  | disable
  | beginModule (name : String)
  | registerNumber (n : UInt32)
  | registerName (x : String)
  | registerGenerated (k : Kind) (role : Option Role)
  | registerWheel (k : Kind) (rays : UInt32) (rigid : Bool)
  | resolve (r : NodeRef)
  | resolveRange (r : NodeRange)
  | resolveByPosition (k : Kind) (i : UInt32)
  | process (d : Document)

inductive Reply
  | done
  | accepted (yes : Bool)
  | position (p : Option Nat)
  | wheel (w : Option WheelNodes)
  | ref (r : NodeRef)
  | range (r : NodeRange)
  | document (d : Document)
  deriving DecidableEq

namespace Resolver

def answer (r : Resolver) : Request → Resolver × Reply
  | .init enabled => (r.init enabled, .done)
  | .disable => (r.disable, .done)
  | .beginModule name => (r.beginModule name, .done)
  | .registerNumber n => (r.registerNumber n).map id .accepted
  | .registerName x => (r.registerName x).map id .accepted
  | .registerGenerated k role => (r.registerGenerated k role).map id .position
  | .registerWheel k rays rigid => (r.registerWheel k rays rigid).map id .wheel
  | .resolve x => (r.resolve x).map id .ref
  | .resolveRange x => (r.resolveRange x).map id .range
  | .resolveByPosition k i => (r.resolveByPosition k i).map id .ref
  | .process d => (r.process d).map id .document

/-- The state after a list of requests. -/
def replay : Resolver → List Request → Resolver
  | r, [] => r
  | r, q :: rest => (r.answer q).1.replay rest

/-- The replies to a list of requests. -/
def replies : Resolver → List Request → List Reply
  | _, [] => []
  | r, q :: rest => (r.answer q).2 :: (r.answer q).1.replies rest

/-- States that callers can bring about. -/
def Reachable (r : Resolver) : Prop := ∃ o qs, (new o).replay qs = r

end Resolver

end RigNodes
