import OmniMesh.Core.PeerId
import OmniMesh.Lib.Broadcast
import OmniMesh.Lib.Codec
import OmniMesh.Lib.Run

/-!
# Chat (`omnimesh-service/src/lib.rs`, `omnimesh-node/src/main.rs`)
-/

namespace OmniMesh.Service
open OmniMesh.Core

structure ChatMessage where
  text : String

def ChatMessage.codec : Codec ChatMessage := Codec.string.map .mk ChatMessage.text fun _ => rfl

structure ChatService where
  messageTx : Broadcast (PeerId × String)

namespace ChatService

def new : ChatService := ⟨.new 100⟩

def subscribe (self : ChatService) : ChatService := ⟨self.messageTx.subscribe⟩

def formatMessage (text : String) : Bytes := ChatMessage.codec.serialize ⟨text⟩

/-- That nobody has subscribed is no error. -/
def handleMessage (self : ChatService) (sender : PeerId) (payload : Bytes) : Result Unit × ChatService :=
  match ChatMessage.codec.deserialize payload with
  | .error e => (.error (.serialization s!"chat deserialize: {e}"), self)
  | .ok msg => (.ok (), ⟨self.messageTx.send (sender, msg.text)⟩)

end ChatService

/-! ## Subscribers -/

/-- The service and its receivers, with what each `recv` has returned so far. -/
structure Chat where
  service : ChatService
  results : List (List (Broadcast.Received (PeerId × String)))

inductive ChatAct
  | subscribe
  | handleMessage (sender : PeerId) (payload : Bytes)
  | recv (receiver : ℕ)
  | dropReceiver (receiver : ℕ)

namespace Chat

def new : Chat := ⟨.new, []⟩

/-- `Receiver::recv`; it waits while there is nothing to return. The service holds a sender. -/
def recv (s : Chat) (receiver : ℕ) : Option (Broadcast.Received (PeerId × String) × Chat) :=
  (s.service.messageTx.recv receiver).map fun r =>
    (r.1, ⟨⟨r.2⟩, s.results.modify receiver (· ++ [r.1])⟩)

def step (s : Chat) : ChatAct → Option Chat
  | .subscribe => some ⟨s.service.subscribe, s.results ++ [[]]⟩
  | .handleMessage sender payload => some { s with service := (s.service.handleMessage sender payload).2 }
  | .recv receiver => (s.recv receiver).map Prod.snd
  | .dropReceiver receiver =>
      if receiver < s.results.length then some { s with service := ⟨s.service.messageTx.drop receiver⟩ } else none

end Chat

namespace ChatAct

def isSubscribe : ChatAct → Bool
  | .subscribe => true
  | _ => false

/-- The message that a well-formed payload brings. -/
def message : ChatAct → Option (PeerId × String)
  | .handleMessage sender payload =>
      match ChatMessage.codec.deserialize payload with
      | .ok msg => some (sender, msg.text)
      | .error _ => none
  | _ => none

end ChatAct

/-! ## The task that prints -/

/-- The task that `cmd_run` spawns. Its loop ends with the first `recv` that returns an error. -/
inductive PrinterTask
  | unborn
  | running (receiver : ℕ)
  | ended

structure Printer where
  service : ChatService
  task : PrinterTask
  printed : List String

inductive PrinterAct
  | spawn
  | handleMessage (sender : PeerId) (payload : Bytes)
  | poll

namespace Printer

def new : Printer := ⟨.new, .unborn, []⟩

def line (msg : PeerId × String) : String := s!"\n[{msg.1.short}] Chat: {msg.2}"

def step (s : Printer) : PrinterAct → Option Printer
  | .spawn =>
      match s.task with
      | .unborn => some { s with
          service := s.service.subscribe, task := .running s.service.messageTx.receivers.length }
      | _ => none
  | .handleMessage sender payload => some { s with service := (s.service.handleMessage sender payload).2 }
  | .poll =>
      match s.task with
      | .running receiver =>
          match s.service.messageTx.recv receiver with
          | none => none
          | some (.item msg, tx) => some { s with service := ⟨tx⟩, printed := s.printed ++ [line msg] }
          | some (.lagged _, tx) => some { s with service := ⟨tx.drop receiver⟩, task := .ended }
      | _ => none

end Printer

/-- What the next poll of the task does when these messages wait for it: it shows the first of them, or, when
they are more than 128, ends the task. -/
def Printer.Polls (s : Printer) : List (PeerId × String) → Prop
  | [] => s.step .poll = none
  | msg :: later => ∃ t, s.step .poll = some t ∧
      if later.length < 128 then t.task = s.task ∧ t.printed = s.printed ++ [line msg]
      else t.task = .ended ∧ t.printed = s.printed

/-- The message that a well-formed payload brings. -/
def PrinterAct.message : PrinterAct → Option (PeerId × String)
  | .handleMessage sender payload => (ChatAct.handleMessage sender payload).message
  | _ => none

end OmniMesh.Service
