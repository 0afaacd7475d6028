import OmniMesh.Core.Types
import OmniMesh.Lib.Codec
import OmniMesh.Lib.Run

/-!
# Remote procedure calls (`omnimesh-service/src/lib.rs`)

A service takes the steps of its concurrent calls, of the messages that are delivered to it and of the
handler tasks that these start, in any order. Messages are numbered, so that what one of them causes can
be traced back to it.
-/

namespace OmniMesh.Service
open OmniMesh.Core

inductive RpcMessage
  | request (requestId : UInt64) (method : String) (payload : Bytes)
  | response (requestId : UInt64) (payload : Except String Bytes)

namespace RpcMessage

/-- `std::result::Result`, with `Ok` as its first variant. -/
def resultCodec : Codec (Except String Bytes) :=
  (Codec.sum "`Ok` or `Err`" .bytes .string).map (Sum.elim .ok .error)
    (fun | .ok payload => .inl payload | .error text => .inr text)
    (fun | .ok _ => rfl | .error _ => rfl)

def codec : Codec RpcMessage :=
  (Codec.sum "variant index 0 <= i < 2" (.pair .u64 (.pair .string .bytes)) (.pair .u64 resultCodec)).map
    (Sum.elim (fun p => .request p.1 p.2.1 p.2.2) fun p => .response p.1 p.2)
    (fun | .request id method payload => .inl (id, method, payload)
         | .response id payload => .inr (id, payload))
    (fun | .request .. => rfl | .response .. => rfl)

end RpcMessage

/-- A oneshot channel. `filled` also says which message, from which peer, brought the value. -/
inductive Channel
  | empty
  | filled (message : ℕ) (sender : PeerId) (payload : Except String Bytes)
  | closed

/-- Where a call is: before its entry in the table, in `send_message`, waiting for the channel, returned
with a response or with another error, or dropped by its caller. -/
inductive Progress
  | reserved
  | sending
  | waiting
  | answered (response : Except String Bytes)
  | failed (error : OmniMeshError)
  | dropped

/-- What `call` has returned. -/
def Progress.returned : Progress → Option (Result Bytes)
  | .answered (.ok payload) => some (.ok payload)
  | .answered (.error e) => some (.error (.service s!"RPC error: {e}"))
  | .failed error => some (.error error)
  | _ => none

structure RpcRequest where
  target : PeerId
  requestId : UInt64
  method : String
  payload : Bytes

structure RpcCall where
  request : RpcRequest
  channel : Channel
  progress : Progress

/-- The call has its entry, has not ended, and nothing has come for it. -/
def RpcCall.Waits (self : RpcCall) : Prop :=
  self.channel = .empty ∧ (self.progress = .sending ∨ self.progress = .waiting)

structure RpcInvocation where
  message : ℕ
  sender : PeerId
  requestId : UInt64
  method : String
  payload : Bytes

/-- A spawned handler task, with what the handler has returned. -/
structure RpcTask where
  invocation : RpcInvocation
  outcome : Option (Result Bytes)

/-- The senders in `pending_requests` are named by the call whose channel they fill. -/
structure RpcService where
  nextRequestId : UInt64
  pendingRequests : Map UInt64 ℕ
  calls : List RpcCall
  tasks : List RpcTask

def RpcRequest.message (self : RpcRequest) : RpcMessage :=
  .request self.requestId self.method self.payload

/-- What a response says about the outcome of the handler. -/
def outcomePayload : Result Bytes → Except String Bytes
  | .ok res => .ok res
  | .error err => .error err.toText

def payloadSize : Except String Bytes → ℕ
  | .ok payload => payload.length
  | .error text => text.utf8ByteSize

/-- The response of a task whose handler has returned. -/
def RpcInvocation.response (self : RpcInvocation) (outcome : Result Bytes) : RpcMessage :=
  .response self.requestId (outcomePayload outcome)

inductive RpcAct
  | reserve (target : PeerId) (method : String) (request : Bytes)
  | register (call : ℕ)
  | sent (call : ℕ) (outcome : Result Unit)
  | received (call : ℕ)
  | drop (call : ℕ)
  | deliver (message : ℕ) (sender : PeerId) (payload : Bytes)
  | finish (task : ℕ) (outcome : Result Bytes)

namespace RpcService

def new : RpcService := ⟨1, ∅, [], []⟩

/-- The entry that `create_request` makes. Under a number that is in use it drops the old sender. -/
def register (self : RpcService) (call : ℕ) (requestId : UInt64) : RpcService :=
  let calls := match self.pendingRequests.lookup requestId with
    | some old => self.calls.modify old fun c => { c with channel := .closed }
    | none => self.calls
  { self with
    pendingRequests := self.pendingRequests.insert requestId call
    calls := calls.modify call fun c => { c with progress := .sending } }

def handleMessage (self : RpcService) (message : ℕ) (sender : PeerId) (payload : Bytes) :
    Result Unit × RpcService :=
  match RpcMessage.codec.deserialize payload with
  | .error e => (.error (.serialization s!"rpc deserialize: {e}"), self)
  | .ok (.request requestId method payload) =>
      (.ok (), { self with tasks := self.tasks ++ [⟨⟨message, sender, requestId, method, payload⟩, none⟩] })
  | .ok (.response requestId payload) =>
      match self.pendingRequests.lookup requestId with
      | none => (.ok (), self)
      | some call =>
          (.ok (), { self with
            pendingRequests := self.pendingRequests.erase requestId
            calls := self.calls.modify call fun c =>
              { c with channel := .filled message sender payload } })

/-- A call that its caller has not dropped moves on. -/
def advance (self : RpcService) (call : ℕ) (progress : Progress) : RpcService :=
  { self with calls := self.calls.modify call fun c => { c with progress } }

/-- No `Vec` and no `String` has 2^64 bytes or more: `reserve` and `finish` only take such values. -/
def step (self : RpcService) : RpcAct → Option RpcService
  | .reserve target method request =>
      if method.utf8ByteSize < 2 ^ 64 ∧ request.length < 2 ^ 64 then
        some { self with
          nextRequestId := self.nextRequestId + 1
          calls := self.calls ++
            [⟨⟨target, self.nextRequestId, method, request⟩, .empty, .reserved⟩] }
      else none
  | .register call =>
      match self.calls[call]? with
      | some ⟨request, _, .reserved⟩ => some (self.register call request.requestId)
      | _ => none
  | .sent call outcome =>
      match self.calls[call]?, outcome with
      | some ⟨_, _, .sending⟩, .ok () => some (self.advance call .waiting)
      | some ⟨_, _, .sending⟩, .error e => some (self.advance call (.failed e))
      | _, _ => none
  | .received call =>
      match self.calls[call]? with
      | some ⟨_, .filled _ _ payload, .waiting⟩ => some (self.advance call (.answered payload))
      | some ⟨_, .closed, .waiting⟩ =>
          some (self.advance call (.failed (.connection "RPC response channel closed")))
      | _ => none
  | .drop call =>
      match self.calls[call]? with
      | some ⟨_, _, .sending⟩ | some ⟨_, _, .waiting⟩ => some (self.advance call .dropped)
      | _ => none
  | .deliver message sender payload => some (self.handleMessage message sender payload).2
  | .finish task outcome =>
      match self.tasks[task]? with
      | some ⟨invocation, none⟩ =>
          if payloadSize (outcomePayload outcome) < 2 ^ 64 then
            some { self with tasks := self.tasks.set task ⟨invocation, some outcome⟩ }
          else none
      | _ => none

/-- A response for a call whose caller still waits comes from the peer that was called. -/
def FromCallee (self : RpcService) : RpcAct → Prop
  | .deliver _ sender bytes => ∀ (id : UInt64) (payload : Except String Bytes) (i : ℕ) (c : RpcCall),
      RpcMessage.codec.deserialize bytes = .ok (.response id payload) →
      self.pendingRequests.lookup id = some i → self.calls[i]? = some c →
      c.progress = .sending ∨ c.progress = .waiting → sender = c.request.target
  | _ => True

/-- The keys of the table are the numbers of the calls that wait for a response. -/
def Exact (self : RpcService) : Prop :=
  ∀ id, id ∈ self.pendingRequests ↔
    ∃ (i : ℕ) (c : RpcCall), self.calls[i]? = some c ∧ c.request.requestId = id ∧ c.Waits

/-- Sending fails, or the caller drops the call, only after something has come for it. -/
def Kept (self : RpcService) : RpcAct → Prop
  | .sent i (.error _) | .drop i => ∀ c, self.calls[i]? = some c → c.channel ≠ .empty
  | _ => True

end RpcService

end OmniMesh.Service
