import Mathlib.Data.Set.Finite.Basic
import OmniMesh.Routing.Router

/-!
# Hop-by-hop forwarding

Every router on the way asks its own `next_hop` for the target. Each call may visit neighbours and pop
equal costs in its own order.
-/

namespace OmniMesh.Routing
open OmniMesh.Core

/-- The sum of the link costs along a list of peers, if all its links exist. -/
def RouteGraph.routeCost (self : RouteGraph) : List PeerId → Option ℚ
  | [] => none
  | [_] => some 0
  | u :: v :: rest =>
      match self.getLink u v, self.routeCost (v :: rest) with
      | some metrics, some cost => some (metrics.cost + cost)
      | _, _ => none

/-- Some walk from `start` to `target` costs this. -/
def RouteGraph.WalkCost (self : RouteGraph) (start target : PeerId) (cost : ℚ) : Prop :=
  ∃ walk : List PeerId, walk.head? = some start ∧ walk.getLast? = some target ∧
    self.routeCost walk = some cost

/-- Some call of `find_route` returns this. -/
def Router.Returns (self : Router) (target : PeerId) (route : Option (List PeerId)) : Prop :=
  ∃ choices, Lts.run (self.graph.step target) self.findRoute choices = some (.done route)

/-- Some call of `next_hop` returns this peer. -/
def Router.HopsTo (self : Router) (target hop : PeerId) : Prop :=
  ∃ route, self.Returns target route ∧ Router.nextHop route = some hop

/-- Finitely many routers that hold the same links, all of positive cost. -/
structure Mesh where
  routers : Set Router
  finite : routers.Finite
  agree : ∀ r ∈ routers, ∀ r' ∈ routers, ∀ u v, r.graph.getLink u v = r'.graph.getLink u v
  positive : ∀ r ∈ routers, ∀ u v m, r.graph.getLink u v = some m → 0 < m.cost

namespace Mesh

/-- The lists of peers that forwarding from `start` towards `target` can visit. -/
inductive Forwards (M : Mesh) (target start : PeerId) : List PeerId → Prop
  | here : Forwards M target start [start]
  | move {visited r hop} : Forwards M target start (visited ++ [r.localPeerId]) → r ∈ M.routers →
      r.HopsTo target hop → Forwards M target start (visited ++ [r.localPeerId, hop])

/-- Every peer that a link leads out of, the target apart, is a router of the mesh. -/
def Closed (M : Mesh) (target : PeerId) : Prop :=
  ∀ r ∈ M.routers, ∀ u v m, r.graph.getLink u v = some m → u ≠ target →
    ∃ r' ∈ M.routers, r'.localPeerId = u

end Mesh

end OmniMesh.Routing
