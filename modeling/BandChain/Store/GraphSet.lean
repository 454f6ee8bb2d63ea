import BandChain.Lib.OrderedSet
import BandChain.Util.Essential

/-! `store/graph_set.h` and `store/graph_set.cc`: a graph store that keeps its edges in a set. -/

namespace BandChain

namespace GraphStoreSet

structure Edge where
  subject : ByteString
  predicate : ByteString
  object : ByteString
  label : ByteString
  deriving DecidableEq

/-- `Edge::operator<`. Two tuples are compared as lists of their parts; the third part on the right is the subject. -/
def Edge.lt (a b : Edge) : Bool :=
  decide ([a.subject, a.predicate, a.object, a.label] < [b.subject, b.predicate, b.subject, b.label])

end GraphStoreSet

/-- `GraphStoreSet`: the edges in the order of the `std::set`. -/
structure GraphStoreSet where
  edges : List GraphStoreSet.Edge := []

namespace GraphStoreSet

def addEdge (subject predicate object label : ByteString) (g : GraphStoreSet) : GraphStoreSet :=
  { g with edges := OrderedSet.insert Edge.lt { subject, predicate, object, label } g.edges }

def deleteEdge (subject predicate object label : ByteString) (g : GraphStoreSet) : GraphStoreSet :=
  { g with edges := OrderedSet.erase Edge.lt { subject, predicate, object, label } g.edges }

inductive Call where
  | add (e : Edge)
  | delete (e : Edge)

def Call.edge : Call → Edge
  | add e => e
  | delete e => e

def step (g : GraphStoreSet) : Call → GraphStoreSet
  | .add e => g.addEdge e.subject e.predicate e.object e.label
  | .delete e => g.deleteEdge e.subject e.predicate e.object e.label

def run (g : GraphStoreSet) (calls : List Call) : GraphStoreSet := calls.foldl step g

end GraphStoreSet

end BandChain
