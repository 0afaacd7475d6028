import OmniMesh.Core.Types
import OmniMesh.Lib.Codec
import OmniMesh.Lib.Run

/-!
# Publish and subscribe (`omnimesh-service/src/lib.rs`)

A receiver is named by its place among the channels that `subscribe` has made.
-/

namespace OmniMesh.Service
open OmniMesh.Core

structure PubSubMessage where
  topic : String
  payload : Bytes

def PubSubMessage.codec : Codec PubSubMessage :=
  (Codec.pair .string .bytes).map (fun p => ⟨p.1, p.2⟩) (fun m => (m.topic, m.payload)) fun _ => rfl

/-- An unbounded channel: what was put on it, and whether its receiver was dropped. -/
structure UnboundedChannel where
  dropped : Bool
  sent : List Bytes

def UnboundedChannel.new : UnboundedChannel := ⟨false, []⟩

/-- `UnboundedSender::send`, which fails once the receiver is dropped; the error is ignored. -/
def UnboundedChannel.send (payload : Bytes) (self : UnboundedChannel) : UnboundedChannel :=
  if self.dropped then self else { self with sent := self.sent ++ [payload] }

/-- The senders in `subscriptions` are named by the channel that they lead to. -/
structure PubSubService where
  subscriptions : Map String (List ℕ)
  channels : List UnboundedChannel

inductive PubSubAct
  | subscribe (topic : String)
  | handleMessage (sender : PeerId) (payload : Bytes)
  | dropReceiver (receiver : ℕ)

namespace PubSubService

def new : PubSubService := ⟨∅, []⟩

def subscribe (self : PubSubService) (topic : String) : PubSubService where
  subscriptions := self.subscriptions.insert topic
    ((self.subscriptions.lookup topic).getD [] ++ [self.channels.length])
  channels := self.channels ++ [.new]

def formatPublish (topic : String) (payload : Bytes) : Bytes :=
  PubSubMessage.codec.serialize ⟨topic, payload⟩

/-- The loop over the senders of a topic. -/
def forward (subs : List ℕ) (payload : Bytes) (channels : List UnboundedChannel) :
    List UnboundedChannel :=
  subs.foldl (fun channels sub => channels.modify sub (.send payload)) channels

def handleMessage (self : PubSubService) (payload : Bytes) : Result Unit × PubSubService :=
  match PubSubMessage.codec.deserialize payload with
  | .error e => (.error (.serialization s!"pubsub deserialize: {e}"), self)
  | .ok msg =>
      match self.subscriptions.lookup msg.topic with
      | some subs => (.ok (), { self with channels := forward subs msg.payload self.channels })
      | none => (.ok (), self)

def step (self : PubSubService) : PubSubAct → Option PubSubService
  | .subscribe topic => some (self.subscribe topic)
  | .handleMessage _ payload => some (self.handleMessage payload).2
  | .dropReceiver receiver =>
      if receiver < self.channels.length then
        some { self with channels := self.channels.modify receiver fun c => { c with dropped := true } }
      else none

end PubSubService

namespace PubSubAct

def isSubscribe : PubSubAct → Bool
  | .subscribe _ => true
  | _ => false

/-- The payload of a well-formed message with this topic. -/
def payloadFor (topic : String) : PubSubAct → Option Bytes
  | .handleMessage _ payload =>
      match PubSubMessage.codec.deserialize payload with
      | .ok msg => if msg.topic = topic then some msg.payload else none
      | .error _ => none
  | _ => none

end PubSubAct

end OmniMesh.Service
