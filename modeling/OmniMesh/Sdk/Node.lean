import OmniMesh.Core.Types
import OmniMesh.Lib.Run

/-!
# The sessions of a node (`omnimesh-sdk/src/lib.rs`)

The `sessions` map and the tasks that own its connections: the rest of `connect_addr`, or the task that
`run_accept_loop` spawns, and then `run_session_loop`. A `Session` is named by its connection.
-/

namespace OmniMesh.Sdk
open OmniMesh.Core

inductive Exit
  | writeError
  | channelClosed
  | peerClosed
  | readError
  | replyError
  | shutdown
  deriving DecidableEq, Repr

/-- How far a connection is. After the handshake the session is inserted, then the task subscribes to
the shutdown channel and enters the loop; `signal` says that the shutdown message waits on its
receiver. -/
inductive Stage
  | handshaking
  | shaken (peer : PeerId)
  | inserted (peer : PeerId)
  | running (peer : PeerId) (signal : Bool)
  | ended
  deriving DecidableEq, Repr

/-- The receivers of a broadcast are the loops that have subscribed. -/
def Stage.signalled : Stage → Stage
  | .running peer _ => .running peer true
  | stage => stage

inductive Stopping
  | no
  | signalled
  | cleared
  deriving DecidableEq, Repr

structure Node where
  sessions : Map PeerId Nat
  stages : Map Nat Stage
  stopping : Stopping

inductive NodeAct
  | opened (conn : Nat)
  | shaken (conn : Nat) (peer : PeerId)
  | failed (conn : Nat)
  | insert (conn : Nat)
  | start (conn : Nat)
  | exit (conn : Nat) (reason : Exit)
  | signal
  | clear

namespace Node

def init : Node := ⟨∅, ∅, .no⟩

def setStage (s : Node) (conn : Nat) (stage : Stage) : Node :=
  { s with stages := s.stages.insert conn stage }

def Holds (s : Node) (conn : Nat) : Prop := ∃ peer, s.sessions.lookup peer = some conn

def signalAll (stages : Map Nat Stage) : Map Nat Stage :=
  ⟨stages.entries.map (Sigma.map id fun _ => Stage.signalled), by
    have := stages.nodupKeys
    rw [List.NodupKeys, List.keys] at this ⊢
    rwa [List.map_map]⟩

/-- What lets the loop of a connection end for this reason: the write channel closes when the map no
longer holds its sender, the shutdown branch needs the signal, the others come from the connection. -/
def exitEnabled (s : Node) (conn : Nat) (signal : Bool) : Exit → Bool
  | .channelClosed => !s.sessions.entries.any fun e => e.2 = conn
  | .shutdown => signal
  | _ => true

def step (s : Node) : NodeAct → Option Node
  | .opened conn =>
      match s.stages.lookup conn with
      | none => some (s.setStage conn .handshaking)
      | some _ => none
  | .shaken conn peer =>
      match s.stages.lookup conn with
      | some .handshaking => some (s.setStage conn (.shaken peer))
      | _ => none
  | .failed conn =>
      match s.stages.lookup conn with
      | some .handshaking => some (s.setStage conn .ended)
      | _ => none
  | .insert conn =>
      match s.stages.lookup conn with
      | some (.shaken peer) =>
          some { s.setStage conn (.inserted peer) with sessions := s.sessions.insert peer conn }
      | _ => none
  | .start conn =>
      match s.stages.lookup conn with
      | some (.inserted peer) => some (s.setStage conn (.running peer false))
      | _ => none
  | .exit conn reason =>
      match s.stages.lookup conn with
      | some (.running _ signal) =>
          if s.exitEnabled conn signal reason then some (s.setStage conn .ended) else none
      | _ => none
  | .signal =>
      if s.stopping = .no then
        some { s with stopping := .signalled, stages := signalAll s.stages }
      else none
  | .clear =>
      if s.stopping = .signalled then some { s with stopping := .cleared, sessions := ∅ } else none

/-- The session of `peer` in `send_to_peer`, and whether a loop still receives from its channel. -/
def writeTo (s : Node) (peer : PeerId) : Result Unit :=
  match s.sessions.lookup peer with
  | none => .error (.connection s!"no active session to peer {peer.toHex}")
  | some conn =>
      if s.stages.lookup conn = some .ended then .error (.connection "session write channel closed")
      else .ok ()

/-- No session whose loop has ended is in the map, so a peer in the map, for which `connect_peer` returns
at once and `send_to_peer` does not connect again, has a loop that takes what is written to it. -/
structure NoDead (s : Node) : Prop where
  ended : ∀ conn, s.stages.lookup conn = some .ended → ¬ s.Holds conn
  backed : ∀ peer, peer ∈ s.sessions → s.writeTo peer = .ok ()

/-- The peer that the handshake of a connection has found. -/
def peerOf (acts : List NodeAct) (conn : Nat) : Option PeerId :=
  acts.findSome? fun
    | .shaken conn' peer => if conn' = conn then some peer else none
    | _ => none

/-- After the connection was inserted, another one of its peer was, or the map was cleared. -/
def Superseded (acts : List NodeAct) (conn : Nat) : Prop :=
  ∃ earlier later, acts = earlier ++ .insert conn :: later ∧
    (.clear ∈ later ∨ ∃ peer conn', peerOf acts conn = some peer ∧ peerOf acts conn' = some peer ∧
      .insert conn' ∈ later)

/-- A loop ends, other than by the closing of its write channel, only after its session was superseded. -/
def Released (acts : List NodeAct) : Prop :=
  ∀ before conn reason after, acts = before ++ .exit conn reason :: after →
    reason = .channelClosed ∨ Superseded before conn

end Node

end OmniMesh.Sdk
