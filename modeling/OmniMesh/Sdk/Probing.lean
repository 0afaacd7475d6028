import OmniMesh.Sdk.SessionLoop

/-!
# Latency probes on a session (`omnimesh-sdk/src/lib.rs`)

`run_probing_loop` sends a ping with the clock as its payload, and the session loop takes a sample of the
latency from each pong that it decrypts.
-/

namespace OmniMesh.Sdk
open OmniMesh.Core OmniMesh.Crypto

/-- `pings` is the history of the pings handed to the session's writer, with their bytes on the wire. -/
structure ProbedSession (σ : Type) where
  session : SessionLoop σ
  pings : List (UInt64 × Bytes)

inductive ProbeAct (σ : Type)
  | ping (nowMs : UInt64)
  | session (act : LoopAct σ)

/-- The timestamp from which `record_latency` is given a sample. -/
def Effect.sampledTime : Effect → Option UInt64
  | .latency _ sentTimeMs => some sentTimeMs
  | _ => none

namespace ProbedSession

variable {σ : Type} (K : Role → Cipher) (D : UpdateDecoder) (S : Services σ) (peer : PeerId)

/-- A session on which nothing has been sent or handled. -/
def init (shared : Shared σ) : ProbedSession σ := ⟨⟨shared, .idle, [], []⟩, []⟩

def step (s : ProbedSession σ) : ProbeAct σ → Option (ProbedSession σ)
  -- the turn of the probing loop for this session
  | .ping nowMs =>
      let shared := s.session.shared
      match shared.transport.encrypt K (Sender.probingLoop nowMs).plainBytes with
      | (.error _, transport) => some { s with session.shared.transport := transport }
      | (.ok encrypted, transport) =>
          let wireBytes := WirePacket.codec.serialize (.sealed PacketType.ping encrypted)
          some { s with
            session.shared := { shared with transport, queue := shared.queue ++ [wireBytes] }
            pings := s.pings ++ [(nowMs, wireBytes)] }
  | .session act => (s.session.step K D S peer act).map fun session => { s with session }

/-- The timestamps of the pings that went out on the connection. -/
def sentTimes (s : ProbedSession σ) : List UInt64 :=
  (s.pings.filter fun ping => ping.2 ∈ s.session.sent).map Prod.fst

def sampledTimes (s : ProbedSession σ) : List UInt64 := s.session.effects.filterMap Effect.sampledTime

/-- The samples belong to pings that were sent, and no two of them to the same ping. -/
def Genuine (s : ProbedSession σ) : Prop :=
  ∀ time, s.sampledTimes.count time ≤ s.sentTimes.count time

/-- A pong in the hands of `handle_wire_packet` carries the timestamp of a ping that was sent and has
not been answered. -/
def Answers (s : ProbedSession σ) : ProbeAct σ → Prop
  | .session (.handle nowMs) => ∀ decrypted time,
      s.session.loop = .handling PacketType.pong decrypted →
      Codec.u64.deserialize decrypted = .ok time → time ≤ nowMs →
      s.sampledTimes.count time < s.sentTimes.count time
  | _ => True

end ProbedSession

end OmniMesh.Sdk
