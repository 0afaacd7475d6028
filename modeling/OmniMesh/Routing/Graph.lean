import Mathlib.Data.List.AList
import Mathlib.Data.List.Perm.Basic
import OmniMesh.Core.Types
import OmniMesh.Routing.Metrics

/-!
# The route graph and its search (`omnimesh-routing/src/graph.rs`)

The search is a step function. A choice says which of the cheapest heap entries is popped and in which
order the neighbours of its node are visited.
-/

namespace OmniMesh.Routing
open OmniMesh.Core

/-- `f64::MAX`, the bound that stands for an unvisited node. -/
def f64Max : ℚ := (2 ^ 53 - 1) * 2 ^ 971

/-- Adjacency map: source to destination to link metrics. -/
structure RouteGraph where
  edges : Map PeerId (Map PeerId LinkMetrics)

namespace RouteGraph

def new : RouteGraph := ⟨∅⟩

def neighbours (self : RouteGraph) (node : PeerId) : Map PeerId LinkMetrics :=
  (self.edges.lookup node).getD ∅

def addLink (self : RouteGraph) (from' to' : PeerId) (metrics : LinkMetrics) : RouteGraph :=
  ⟨self.edges.insert from' ((self.neighbours from').insert to' metrics)⟩

def getLink (self : RouteGraph) (from' to' : PeerId) : Option LinkMetrics :=
  (self.edges.lookup from').bind fun m => m.lookup to'

end RouteGraph

structure SearchState where
  cost : ℚ
  node : PeerId
  deriving DecidableEq, Repr

/-- The local variables of `find_shortest_path`. -/
structure Search where
  distances : Map PeerId ℚ
  predecessors : Map PeerId PeerId
  heap : List SearchState

namespace Search

def init (start : PeerId) : Search :=
  ⟨(∅ : Map PeerId ℚ).insert start 0, ∅, [⟨0, start⟩]⟩

def relax (node : PeerId) (cost : ℚ) (s : Search) (link : Σ _ : PeerId, LinkMetrics) : Search :=
  let nextCost := cost + link.2.cost
  let currentBest := (s.distances.lookup link.1).getD f64Max
  if nextCost < currentBest then
    ⟨s.distances.insert link.1 nextCost, s.predecessors.insert link.1 node,
      ⟨nextCost, link.1⟩ :: s.heap⟩
  else s

/-- One popped entry whose node is not the target; `order` lists the neighbours as they are visited. -/
def visit (s : Search) (entry : SearchState) (order : List (Σ _ : PeerId, LinkMetrics)) : Search :=
  let s := { s with heap := s.heap.erase entry }
  match s.distances.lookup entry.node with
  | some bestDist =>
      if entry.cost > bestDist then s else order.foldl (relax entry.node entry.cost) s
  | none => order.foldl (relax entry.node entry.cost) s

end Search

/-- Where `find_shortest_path` is: in the heap loop, in the predecessor walk, or returned. -/
inductive Phase
  | searching (s : Search)
  | walking (predecessors : Map PeerId PeerId) (current : PeerId) (path : List PeerId)
  | done (result : Option (List PeerId))

inductive Choice
  | pop (entry : SearchState) (order : List (Σ _ : PeerId, LinkMetrics))
  | exhausted
  | back

def RouteGraph.step (self : RouteGraph) (target : PeerId) : Phase → Choice → Option Phase
  | .searching s, .pop entry order =>
      if entry ∈ s.heap ∧ (∀ e ∈ s.heap, entry.cost ≤ e.cost) ∧
          order.Perm (self.neighbours entry.node).entries then
        if entry.node = target then some (.walking s.predecessors entry.node [entry.node])
        else some (.searching (s.visit entry order))
      else none
  | .searching s, .exhausted => if s.heap = [] then some (.done none) else none
  | .walking predecessors current path, .back =>
      match predecessors.lookup current with
      | some pred => some (.walking predecessors pred (path ++ [pred]))
      | none => some (.done (some path.reverse))
  | _, _ => none

end OmniMesh.Routing
