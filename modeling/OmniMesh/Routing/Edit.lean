import OmniMesh.Routing.Forward

/-!
# Editing the route graph (`omnimesh-routing/src/graph.rs`)
-/

namespace OmniMesh.Routing
open OmniMesh.Core

def RouteGraph.removeLink (self : RouteGraph) (from' to' : PeerId) : RouteGraph :=
  match self.edges.lookup from' with
  | none => self
  | some neighbours =>
      let neighbours := neighbours.erase to'
      if neighbours.entries.isEmpty then ⟨self.edges.erase from'⟩
      else ⟨self.edges.insert from' neighbours⟩

/-- Some call of `find_shortest_path` returns this. -/
def RouteGraph.Finds (self : RouteGraph) (start target : PeerId) (route : Option (List PeerId)) : Prop :=
  ∃ choices, Lts.run (self.step target) (.searching (.init start)) choices = some (.done route)

inductive GraphEdit
  | add (from' to' : PeerId) (metrics : LinkMetrics)
  | remove (from' to' : PeerId)

namespace GraphEdit

def link : GraphEdit → PeerId × PeerId
  | .add from' to' _ => (from', to')
  | .remove from' to' => (from', to')

def metrics : GraphEdit → Option LinkMetrics
  | .add _ _ metrics => some metrics
  | .remove _ _ => none

def apply (g : RouteGraph) : GraphEdit → RouteGraph
  | .add from' to' metrics => g.addLink from' to' metrics
  | .remove from' to' => g.removeLink from' to'

end GraphEdit

end OmniMesh.Routing
