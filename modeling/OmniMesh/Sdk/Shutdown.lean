import OmniMesh.Sdk.Node

/-!
# Shutting a node down (`omnimesh-sdk/src/lib.rs`)

The calls of `shutdown` next to the tasks of the node. The first call takes the flag `running`, sends the
signal, clears the map and shuts the transport down; every other call returns at once. A task subscribes
to the signal (`start` of `NodeAct`) before its `run_session_loop` begins.
-/

namespace OmniMesh.Sdk
open OmniMesh.Core

/-- `entered` are the connections whose loop has begun, `returned` says that some call of `shutdown` has
returned, and `late` that a loop has begun after that. -/
structure Lifetime where
  node : Node
  running : Bool
  entered : List Nat
  returned : Bool
  late : Bool

inductive LifeAct
  | task (act : NodeAct)
  | enter (conn : Nat)
  | call
  | signal
  | clear
  | close

namespace Lifetime

def init : Lifetime := ⟨.init, true, [], false, false⟩

/-- The steps that the tasks of connections take by themselves. -/
def allowed (s : Lifetime) : NodeAct → Bool
  | .signal | .clear => false
  | .exit conn _ => conn ∈ s.entered
  | _ => true

def step (s : Lifetime) : LifeAct → Option Lifetime
  | .task act =>
      if s.allowed act then (s.node.step act).map fun node => { s with node } else none
  | .enter conn =>
      match s.node.stages.lookup conn with
      | some (.running _ _) =>
          if conn ∈ s.entered then none
          else some { s with entered := conn :: s.entered, late := s.late || s.returned }
      | _ => none
  | .call => if s.running then some { s with running := false } else some { s with returned := true }
  | .signal => if s.running then none else (s.node.step .signal).map fun node => { s with node }
  | .clear => (s.node.step .clear).map fun node => { s with node }
  | .close => if s.node.stopping = .cleared then some { s with returned := true } else none

/-- After `shutdown` has returned there is no session, a loop that still runs has the signal before it,
and no loop begins. -/
def Final (s : Lifetime) : Prop :=
  s.returned → s.node.sessions = ∅ ∧
    (∀ conn ∈ s.entered, ∀ peer signal, s.node.stages.lookup conn = some (.running peer signal) →
      signal = true) ∧
    s.late = false

/-- Every task that has subscribed has begun its loop. -/
def Settled (s : Lifetime) : Prop :=
  ∀ conn peer signal, s.node.stages.lookup conn = some (.running peer signal) → conn ∈ s.entered

/-- Sessions are inserted before the map is cleared, tasks subscribe before the signal is sent, and a call
returns when the map is cleared and those tasks have begun their loops. -/
def Timely (s : Lifetime) : LifeAct → Prop
  | .task (.insert _) => s.node.stopping ≠ .cleared
  | .task (.start _) => s.node.stopping = .no
  | .call => s.running = false → s.node.stopping = .cleared ∧ s.Settled
  | .close => s.Settled
  | _ => True

end Lifetime

end OmniMesh.Sdk
