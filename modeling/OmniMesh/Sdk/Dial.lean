import Mathlib.Data.Fintype.Card
import OmniMesh.Lib.Run
import OmniMesh.Transport.Mock

/-!
# Dialling and listening

The transport mutex of each node, its accept loop (`run_accept_loop`) and the first lines of its
`connect_addr` calls, over the in-memory transport. Handshakes and sessions come after the lock and are
left out.
-/

namespace OmniMesh.Sdk
open OmniMesh.Transport (listenerCapacity)

inductive Lock (ν : Type)
  | free
  | accepting
  | dialing (target : ν)
  deriving DecidableEq

/-- One node: `waiting` are the targets of the `connect_addr` calls that wait for the mutex, `incoming`
counts the connections in the listener's channel. -/
structure Dialer (ν : Type) where
  lock : Lock ν
  waiting : List ν
  incoming : Nat
  listening : Bool
  stopped : Bool
  deriving DecidableEq

abbrev Mesh (ν : Type) := ν → Dialer ν

inductive DialAct (ν : Type)
  | call (node target : ν)
  | acquire (node target : ν)
  | dial (node : ν)
  | acceptLock (node : ν)
  | acceptConn (node : ν)
  | stop (node : ν)
  | close (node : ν)

def DialAct.isTask {ν : Type} : DialAct ν → Bool
  | .acquire .. | .dial _ | .acceptLock _ | .acceptConn _ => true
  | _ => false

namespace Mesh

variable {ν : Type} [DecidableEq ν]

/-- Nobody holds a mutex; `listening` says which nodes have a listener. -/
def init (listening : ν → Bool) : Mesh ν := fun n => ⟨.free, [], 0, listening n, false⟩

def step (s : Mesh ν) : DialAct ν → Option (Mesh ν)
  | .call n target => some (Function.update s n { s n with waiting := target :: (s n).waiting })
  | .acquire n target =>
      if (s n).lock = .free ∧ target ∈ (s n).waiting then
        some (Function.update s n
          { s n with lock := .dialing target, waiting := (s n).waiting.erase target })
      else none
  | .dial n =>
      match (s n).lock with
      | .dialing target =>
          let released := Function.update s n { s n with lock := .free }
          -- no listener at the address: the call returns an error
          if !(s target).listening then some released
          else if (s target).incoming < listenerCapacity then
            some (Function.update released target
              { released target with incoming := (s target).incoming + 1 })
          else none
      | _ => none
  | .acceptLock n =>
      if (s n).lock = .free ∧ !(s n).stopped then
        some (Function.update s n { s n with lock := .accepting })
      else none
  | .acceptConn n =>
      if (s n).lock = .accepting then
        -- `accept` fails at once, and the loop goes on
        if !(s n).listening then some (Function.update s n { s n with lock := .free })
        else if 0 < (s n).incoming then
          some (Function.update s n { s n with lock := .free, incoming := (s n).incoming - 1 })
        else none
      else none
  -- the shutdown branch of the accept loop
  | .stop n =>
      some (Function.update s n
        { s n with
          lock := if (s n).lock = .accepting then .free else (s n).lock
          stopped := true })
  -- `transport.shutdown`
  | .close n =>
      if (s n).lock = .free then
        some (Function.update s n { s n with listening := false, incoming := 0 })
      else none

def Unfinished (d : Dialer ν) : Prop := d.waiting ≠ [] ∨ ∃ target, d.lock = .dialing target

def Deadlocked (s : Mesh ν) : Prop :=
  (∃ n, Unfinished (s n)) ∧ ∀ act : DialAct ν, act.isTask → s.step act = none

/-- The accept loop waits, with the mutex, for a connection that is not there. -/
def Parked (d : Dialer ν) : Prop := d.lock = .accepting ∧ d.listening ∧ d.incoming = 0

variable [Fintype ν]

def dialers (s : Mesh ν) (target : ν) : Finset ν := {n | (s n).lock = .dialing target}

/-- No call is unfinished at a node with a parked accept loop, and a call takes the mutex only when the
listener has room for all the connections on their way to it. -/
def Unparked (s : Mesh ν) : DialAct ν → Prop
  | .call n _ => ¬ Parked (s n)
  | .acceptLock n => Unfinished (s n) → (s n).listening → 0 < (s n).incoming
  | .acquire _ target =>
      (s target).listening → (s target).incoming + (s.dialers target).card < listenerCapacity
  | _ => True

end Mesh

end OmniMesh.Sdk
