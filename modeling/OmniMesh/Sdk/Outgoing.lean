import OmniMesh.Sdk.Node
import OmniMesh.Sdk.Session

/-!
# What a node puts on its sessions (`omnimesh-sdk/src/lib.rs`)

Any number of sends next to the tasks of the node. A send is one pass of `send_to_peer`, or of the loop in
`broadcast_to_peers` and in the background tasks, over one session: it has looked the session up, seals
under the transport lock and hands the packet over with `write_tx.send`. Other tasks move between any two
of these steps.
-/

namespace OmniMesh.Sdk
open OmniMesh.Core OmniMesh.Crypto

/-- The sending side of a session. `put` is the history of what was handed over, each packet with the
number of its send. -/
structure Outbox where
  transport : NoiseTransport
  queue : List Packet
  put : List (ℕ × Packet)

/-- The type and the plaintext of what a send has handed over. -/
def Outbox.putBy (self : Outbox) (send : ℕ) : List (UInt8 × Bytes) :=
  (self.put.filter fun e => e.1 = send).map fun e => e.2.contents

/-- Where a send is: before the transport lock, inside `write_tx.send`, or done. -/
inductive SendStage
  | sealing
  | handing (packet : Packet)
  | returned (result : Result Unit)

structure Send where
  conn : ℕ
  sender : Sender
  stage : SendStage

structure Outgoing where
  node : Node
  outboxes : ℕ → Outbox
  sends : List Send

/-- `decrypt` and `handle` are the two halves of `handle_wire_packet` in the loop of the session. -/
inductive OutgoingAct
  | task (act : NodeAct)
  | send (peer : PeerId) (sender : Sender)
  | encrypt (send : ℕ)
  | enqueue (send : ℕ)
  | pop (conn : ℕ)
  | decrypt (conn : ℕ) (bytes : Bytes)
  | handle (conn : ℕ) (env : Env) (packetType : UInt8) (decrypted : Bytes)

namespace Outgoing

/-- A node without sessions; `transports` are the results of the handshakes to come. -/
def init (transports : ℕ → NoiseTransport) : Outgoing :=
  ⟨.init, fun conn => ⟨transports conn, [], []⟩, []⟩

def addSend (self : Outgoing) (conn : ℕ) (sender : Sender) : Outgoing :=
  { self with sends := self.sends ++ [⟨conn, sender, .sealing⟩] }

def setSend (self : Outgoing) (send : ℕ) (value : Send) : Outgoing :=
  { self with sends := self.sends.set send value }

def setOutbox (self : Outgoing) (conn : ℕ) (outbox : Outbox) : Outgoing :=
  { self with outboxes := Function.update self.outboxes conn outbox }

/-- The loop of the session has dropped the receiver of the write channel. -/
def Closed (self : Outgoing) (conn : ℕ) : Prop := self.node.stages.lookup conn = some .ended

instance {self : Outgoing} {conn : ℕ} : Decidable (self.Closed conn) := by
  unfold Closed
  infer_instance

def encrypt (K : Role → Cipher) (self : Outgoing) (send conn : ℕ) (sender : Sender) : Outgoing :=
  let outbox := self.outboxes conn
  match outbox.transport.encrypt K sender.plainBytes with
  | (.error e, transport) =>
      (self.setOutbox conn { outbox with transport }).setSend send ⟨conn, sender, .returned (.error e)⟩
  | (.ok encrypted, transport) =>
      let packet := ⟨outbox.transport.sendNonce, sender.packetType, sender.plainBytes,
        WirePacket.codec.serialize (.sealed sender.packetType encrypted)⟩
      (self.setOutbox conn { outbox with transport }).setSend send ⟨conn, sender, .handing packet⟩

/-- A send waits while the channel is full. A send to a peer without a session does not begin:
`send_to_peer` connects first, or returns with nothing sent. -/
def step (K : Role → Cipher) (D : UpdateDecoder) (self : Outgoing) : OutgoingAct → Option Outgoing
  | .task act => (self.node.step act).map fun node => { self with node }
  | .send peer sender => (self.node.sessions.lookup peer).map fun conn => self.addSend conn sender
  | .encrypt send =>
      match self.sends[send]? with
      | some ⟨conn, sender, .sealing⟩ => some (self.encrypt K send conn sender)
      | _ => none
  | .enqueue send =>
      match self.sends[send]? with
      | some ⟨conn, sender, .handing packet⟩ =>
          let outbox := self.outboxes conn
          if self.Closed conn then
            some (self.setSend send
              ⟨conn, sender, .returned (.error (.connection "session write channel closed"))⟩)
          else if outbox.queue.length < writeCapacity then
            let outbox := { outbox with
              queue := outbox.queue ++ [packet], put := outbox.put ++ [(send, packet)] }
            some ((self.setOutbox conn outbox).setSend send ⟨conn, sender, .returned (.ok ())⟩)
          else none
      | _ => none
  | .pop conn =>
      let outbox := self.outboxes conn
      match self.node.stages.lookup conn, outbox.queue with
      | some (.running _ _), _ :: queue => some (self.setOutbox conn { outbox with queue })
      | _, _ => none
  | .decrypt conn bytes =>
      let outbox := self.outboxes conn
      let transport := (openPacket K outbox.transport bytes).2
      some (self.setOutbox conn { outbox with transport })
  | .handle conn env packetType decrypted =>
      let outbox := self.outboxes conn
      let transport := (finishPacket K D env outbox.transport packetType decrypted).2.1
      some (self.setOutbox conn { outbox with transport })

end Outgoing

end OmniMesh.Sdk
