import Mathlib.Logic.Function.Basic
import OmniMesh.Lib.Run

/-!
# Two nodes and the connections between them

What `connect_addr` and the accept loop's task do after the handshake, at two nodes that may open any
number of connections to each other. A connection has two ends; `false` and `true` are the nodes.
-/

namespace OmniMesh.Sdk

/-- One end of a connection: in the handshake, before `sessions.insert`, in `run_session_loop`, or
closed. -/
inductive EndStage
  | absent
  | handshaking
  | shaken
  | running
  | closed
  deriving DecidableEq, Repr

/-- `sessions x` is the connection that node `x` has in its map for the other node; `inserts x` lists
the connections it has inserted, oldest first. -/
structure Pairing where
  stage : Bool → Nat → EndStage
  sessions : Bool → Option Nat
  inserts : Bool → List Nat

inductive PairingAct
  | opened (conn : Nat)
  | shaken (node : Bool) (conn : Nat)
  | failed (node : Bool) (conn : Nat)
  | insert (node : Bool) (conn : Nat)
  | exit (node : Bool) (conn : Nat)

namespace Pairing

def init : Pairing := ⟨fun _ _ => .absent, fun _ => none, fun _ => []⟩

def setStage (s : Pairing) (x : Bool) (conn : Nat) (stage : EndStage) : Pairing :=
  { s with stage := Function.update s.stage x (Function.update (s.stage x) conn stage) }

def step (s : Pairing) : PairingAct → Option Pairing
  | .opened conn =>
      if s.stage false conn = .absent ∧ s.stage true conn = .absent then
        some ((s.setStage false conn .handshaking).setStage true conn .handshaking)
      else none
  | .shaken x conn =>
      if s.stage x conn = .handshaking then some (s.setStage x conn .shaken) else none
  -- the handshake fails only when the other end has closed the connection
  | .failed x conn =>
      if s.stage x conn = .handshaking ∧ s.stage (!x) conn = .closed then
        some (s.setStage x conn .closed)
      else none
  -- the `write_tx` of an older session for the same peer is dropped here
  | .insert x conn =>
      if s.stage x conn = .shaken then
        some { s.setStage x conn .running with
          sessions := Function.update s.sessions x (some conn)
          inserts := Function.update s.inserts x (s.inserts x ++ [conn]) }
      else none
  -- the write channel is closed, or the other end has closed the connection
  | .exit x conn =>
      if s.stage x conn = .running ∧ (s.sessions x ≠ some conn ∨ s.stage (!x) conn = .closed) then
        some (s.setStage x conn .closed)
      else none

def Open (s : Pairing) (conn : Nat) : Prop := ∀ x, s.stage x conn = .running

def Agreed (s : Pairing) : Prop := ∃ conn, (∀ x, s.sessions x = some conn) ∧ s.Open conn

/-- Every handshake has finished and every close has been observed. -/
def Settled (s : Pairing) : Prop := ∀ act, (∀ conn, act ≠ .opened conn) → s.step act = none

def SameLast (s : Pairing) : Prop := ∃ conn, ∀ x, (s.inserts x).getLast? = some conn

end Pairing

end OmniMesh.Sdk
