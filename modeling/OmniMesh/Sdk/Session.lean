import Mathlib.Logic.Function.Basic
import OmniMesh.Lib.Run
import OmniMesh.Sdk.Wire

/-!
# One established session (`run_session_loop` and its senders)

Two ends, each with its session loop, the write queue and any number of sender tasks, joined by a
reliable FIFO connection. The scheduler chooses the next step of any task of either end.
-/

namespace OmniMesh.Sdk
open OmniMesh.Core OmniMesh.Crypto

def writeCapacity : Nat := 100

/-- A serialized packet, with the nonce and the contents it was sealed from. -/
structure Packet where
  nonce : Nat
  packetType : UInt8
  plain : Bytes
  bytes : Bytes

def Packet.contents (p : Packet) : UInt8 × Bytes := (p.packetType, p.plain)

/-- What the loop is doing: waiting in the `select`, inside `conn.send`, or inside
`handle_wire_packet` after the decryption. -/
inductive Loop
  | idle
  | sending (packet : Packet)
  | handling (packetType : UInt8) (decrypted : Bytes)

/-- One end. `held` are the packets of the tasks between their encryption and the end of their
`write_tx.send`, `wire` what the other end has still to read. The other fields are histories: what was
written, dropped with a cancelled task, opened, and refused by `handle_wire_packet`. -/
structure End where
  transport : NoiseTransport
  held : Map Nat Packet
  queue : List Packet
  loop : Loop
  wire : List Packet
  written : List Packet
  dropped : List Packet
  opened : List (UInt8 × Bytes)
  failed : List OmniMeshError

inductive EndAct
  | encrypt (task : Nat) (sender : Sender)
  | enqueue (task : Nat)
  | cancel (task : Nat)
  | pop
  | write
  | handle (env : Env)

namespace End

def init (role : Role) (remoteStatic : Option Key) : End :=
  ⟨.fresh role remoteStatic, ∅, [], .idle, [], [], [], [], []⟩

def step (K : Role → Cipher) (D : UpdateDecoder) (e : End) : EndAct → Option End
  | .encrypt task sender =>
      if task ∈ e.held then none
      else
        match e.transport.encrypt K sender.plainBytes with
        -- the sender returns its error, or skips the session
        | (.error _, transport) => some { e with transport }
        | (.ok encrypted, transport) =>
            let packet := ⟨e.transport.sendNonce, sender.packetType, sender.plainBytes,
              WirePacket.codec.serialize (.sealed sender.packetType encrypted)⟩
            some { e with transport, held := e.held.insert task packet }
  | .enqueue task =>
      match e.held.lookup task with
      | none => none
      | some packet =>
          if e.queue.length < writeCapacity then
            some { e with held := e.held.erase task, queue := e.queue ++ [packet] }
          else none
  | .cancel task =>
      match e.held.lookup task with
      | none => none
      | some packet => some { e with held := e.held.erase task, dropped := e.dropped ++ [packet] }
  | .pop =>
      match e.loop, e.queue with
      | .idle, packet :: queue => some { e with loop := .sending packet, queue }
      | _, _ => none
  | .write =>
      match e.loop with
      | .sending packet =>
          some { e with loop := .idle, wire := e.wire ++ [packet], written := e.written ++ [packet] }
      | _ => none
  | .handle env =>
      match e.loop with
      | .handling packetType decrypted =>
          match finishPacket K D env e.transport packetType decrypted with
          | (.ok (some reply), transport, _) =>
              let packet := ⟨e.transport.sendNonce, PacketType.pong, decrypted, reply⟩
              some { e with transport, loop := .sending packet }
          | (_, transport, _) => some { e with transport, loop := .idle }
      | _ => none

def recv (K : Role → Cipher) (e : End) (bytes : Bytes) : Option End :=
  match e.loop with
  | .idle =>
      match openPacket K e.transport bytes with
      | (.ok (some (packetType, decrypted)), transport) =>
          some { e with
            transport, loop := .handling packetType decrypted
            opened := e.opened ++ [(packetType, decrypted)] }
      | (.ok none, transport) => some { e with transport }
      | (.error err, transport) => some { e with transport, failed := e.failed ++ [err] }
  | _ => none

end End

abbrev Session := Role → End

inductive SessionAct
  | own (role : Role) (act : EndAct)
  | recv (role : Role)

namespace Session

def init (remoteStatic : Role → Option Key) : Session := fun r => .init r (remoteStatic r)

def step (K : Role → Cipher) (D : UpdateDecoder) (s : Session) : SessionAct → Option Session
  | .own r act => ((s r).step K D act).map fun e => Function.update s r e
  | .recv r =>
      match (s r.other).wire with
      | [] => none
      | packet :: wire =>
          ((s r).recv K packet.bytes).map fun e =>
            Function.update (Function.update s r e) r.other { s r.other with wire }

/-- No message is lost: the nonces on the wire are `0, 1, 2, …`, no packet was refused, and the packets
written so far are those the other end opened followed by those it has not read yet. -/
structure Healthy (s : Session) : Prop where
  nonces : ∀ r, (s r).written.map Packet.nonce = List.range (s r).written.length
  failed : ∀ r, (s r).failed = []
  opened : ∀ r, (s r).written.map Packet.contents =
    (s r.other).opened ++ (s r).wire.map Packet.contents

end Session

/-- Packets are handed over in the order of sealing: a task enqueues only the oldest packet sealed and
not yet handed over, and a pong is sealed only when no earlier packet is still to be written. -/
def End.InTurn (e : End) : EndAct → Prop
  | .enqueue task => e.dropped = [] ∧ ∀ packet, e.held.lookup task = some packet →
      ∀ task' packet', e.held.lookup task' = some packet' → packet.nonce ≤ packet'.nonce
  | .handle _ =>
      match e.loop with
      | .handling packetType _ =>
          packetType = PacketType.ping → e.queue = [] ∧ e.held = ∅ ∧ e.dropped = []
      | _ => True
  | _ => True

def Session.InTurn (s : Session) : SessionAct → Prop
  | .own r act => (s r).InTurn act
  | .recv _ => True

end OmniMesh.Sdk
