import OmniMesh.Crypto.Noise
import OmniMesh.Lib.Codec
import OmniMesh.Routing.Router

/-!
# Wire packets (`omnimesh-sdk/src/lib.rs`)

The packet types, the senders that seal packets, and `handle_wire_packet`. What a packet makes the node
do is returned as an `Effect`; the outcome of a service's handler is the service's own and is an input.
-/

namespace OmniMesh.Sdk
open OmniMesh.Core OmniMesh.Crypto OmniMesh.Routing

structure WirePacket where
  magic : Vector UInt8 4
  version : Vector UInt8 3
  packetType : UInt8
  payload : Bytes
  deriving DecidableEq, Repr

structure ServicePayload where
  serviceId : String
  payload : Bytes
  deriving DecidableEq, Repr

namespace WirePacket

def omsh : Vector UInt8 4 := #v[0x4F, 0x4D, 0x53, 0x48]

def codec : Codec WirePacket :=
  (Codec.pair (.array 4) (.pair (.array 3) (.pair .u8 .bytes))).map
    (fun p => ⟨p.1, p.2.1, p.2.2.1, p.2.2.2⟩)
    (fun p => (p.magic, p.version, p.packetType, p.payload)) fun _ => rfl

/-- The packet every sender builds around its ciphertext. -/
def sealed (packetType : UInt8) (payload : Bytes) : WirePacket :=
  ⟨omsh, #v[0, 1, 0], packetType, payload⟩

end WirePacket

def ServicePayload.codec : Codec ServicePayload :=
  (Codec.pair .string .bytes).map (fun p => ⟨p.1, p.2⟩) (fun p => (p.serviceId, p.payload)) fun _ => rfl

def PacketType.data : UInt8 := 0x02
def PacketType.control : UInt8 := 0x03
def PacketType.ping : UInt8 := 0x06
def PacketType.pong : UInt8 := 0x07

/-- The code paths that seal a packet and hand it over through `write_tx`. -/
inductive Sender
  | sendToPeer (serviceId : String) (payload : Bytes)
  | broadcastToPeers (serviceId : String) (payload : Bytes)
  | probingLoop (nowMs : UInt64)
  | gossipLoop (update : Bytes)

namespace Sender

def packetType : Sender → UInt8
  | .sendToPeer .. | .broadcastToPeers .. => PacketType.data
  | .probingLoop _ => PacketType.ping
  | .gossipLoop _ => PacketType.control

/-- What the sender encrypts; for the gossip loop the serialized `LinkStateUpdate`. -/
def plainBytes : Sender → Bytes
  | .sendToPeer serviceId payload | .broadcastToPeers serviceId payload =>
      ServicePayload.codec.serialize ⟨serviceId, payload⟩
  | .probingLoop nowMs => Codec.u64.serialize nowMs
  | .gossipLoop update => update

end Sender

/-- What `handle_wire_packet` does to the rest of the node. -/
inductive Effect
  | dispatch (serviceId : String) (payload : Bytes)
  | linkState (update : LinkStateUpdate)
  | pong (plaintext : Bytes)
  | latency (nowMs sentTimeMs : UInt64)
  deriving DecidableEq

/-- What `handle_wire_packet` takes from its surroundings: the registered services with the outcome of
their handlers, and the clock. -/
structure Env where
  services : String → Option (Bytes → Result Unit)
  nowMs : UInt64

/-- The decoder of `LinkStateUpdate`. The metrics are exact here, so its encoding stays a parameter. -/
abbrev UpdateDecoder := Bytes → Except String LinkStateUpdate

section
variable (K : Role → Cipher)

/-- The first half of `handle_wire_packet`: decode, check the magic, decrypt. `none` is a packet type
that is not handled. -/
def openPacket (transport : NoiseTransport) (bytes : Bytes) :
    Result (Option (UInt8 × Bytes)) × NoiseTransport :=
  match WirePacket.codec.deserialize bytes with
  | .error e => (.error (.serialization s!"packet deserialize: {e}"), transport)
  | .ok packet =>
      if packet.magic ≠ WirePacket.omsh then
        (.error (.invalidPacket "invalid packet magic"), transport)
      else if packet.packetType ∈ [0x02, 0x03, 0x06, 0x07] then
        match transport.decrypt K packet.payload with
        | (.error e, transport) => (.error e, transport)
        | (.ok decrypted, transport) => (.ok (some (packet.packetType, decrypted)), transport)
      else (.ok none, transport)

/-- The second half of `handle_wire_packet`, on the decrypted bytes. A ping takes the transport lock a
second time, to seal the pong. -/
def finishPacket (D : UpdateDecoder) (env : Env) (transport : NoiseTransport) (packetType : UInt8)
    (decrypted : Bytes) : Result (Option Bytes) × NoiseTransport × List Effect :=
  if packetType = PacketType.data then
    match ServicePayload.codec.deserialize decrypted with
    | .error e => (.error (.serialization s!"service payload deserialize: {e}"), transport, [])
    | .ok servicePayload =>
        match env.services servicePayload.serviceId with
        | none => (.ok none, transport, [])
        | some handleMessage =>
            let effect := .dispatch servicePayload.serviceId servicePayload.payload
            match handleMessage servicePayload.payload with
            | .error e => (.error e, transport, [effect])
            | .ok () => (.ok none, transport, [effect])
  else if packetType = PacketType.control then
    match D decrypted with
    | .error _ => (.ok none, transport, [])
    | .ok update => (.ok none, transport, [.linkState update])
  else if packetType = PacketType.ping then
    match transport.encrypt K decrypted with
    | (.error e, transport) => (.error e, transport, [])
    | (.ok encrypted, transport) =>
        (.ok (some (WirePacket.codec.serialize (.sealed PacketType.pong encrypted))), transport,
          [.pong decrypted])
  else if packetType = PacketType.pong then
    match Codec.u64.deserialize decrypted with
    | .error _ => (.ok none, transport, [])
    | .ok sentTimeMs =>
        if env.nowMs ≥ sentTimeMs then (.ok none, transport, [.latency env.nowMs sentTimeMs])
        else (.ok none, transport, [])
  else (.ok none, transport, [])

/-- `handle_wire_packet` without another task between its two halves. -/
def handleWirePacket (D : UpdateDecoder) (env : Env) (transport : NoiseTransport) (bytes : Bytes) :
    Result (Option Bytes) × NoiseTransport × List Effect :=
  match openPacket K transport bytes with
  | (.error e, transport) => (.error e, transport, [])
  | (.ok none, transport) => (.ok none, transport, [])
  | (.ok (some (packetType, decrypted)), transport) =>
      finishPacket K D env transport packetType decrypted

end

end OmniMesh.Sdk
