import OmniMesh.Sdk.Delivery
import OmniMesh.Sdk.Lemmas.Answering
import OmniMesh.Sdk.Lemmas.Session

/-!
# From the senders of one node to the handlers of the other

`Recorded` ties the packets of an end to what they were sealed from, `Follows` what the other end opens to
the order of the nonces, and `Heard` the calls of the handlers to the packets that were opened.
-/

namespace OmniMesh.Sdk
open OmniMesh.Core OmniMesh.Crypto

variable {K : Role → Cipher} {D : UpdateDecoder} {env : Env} {known : String → Bool} {r : Role}

/-! ## What a packet brings -/

/-- The message in the contents of a packet, when its service is registered. -/
def delivers (known : String → Bool) (contents : UInt8 × Bytes) : Option ServicePayload :=
  if contents.1 = PacketType.data then
    match ServicePayload.codec.deserialize contents.2 with
    | .error _ => none
    | .ok message => if known message.serviceId then some message else none
  else none

theorem finishPacket_messages (t : NoiseTransport) (ty : UInt8) (p : Bytes) :
    (finishPacket K D env t ty p).2.2.filterMap Effect.message =
      (delivers (fun id => (env.services id).isSome) (ty, p)).toList := by
  by_cases hty : ty = PacketType.data
  · rw [finishPacket, delivers, if_pos hty, if_pos hty]
    cases ServicePayload.codec.deserialize p with
    | error e => rfl
    | ok message =>
        dsimp only
        cases env.services message.serviceId with
        | none => rfl
        | some handler =>
            dsimp only
            cases handler message.payload <;> rfl
  · rw [finishPacket, delivers, if_neg hty, if_neg hty]
    split
    · split <;> rfl
    · split
      · split <;> rfl
      · split
        · split
          · rfl
          · split <;> rfl
        · rfl

/-- A message that fits in a packet comes out of it. -/
theorem delivers_contents {o : Sealing} (hfits : o.contents.2.length ≤ maxMessageLen) :
    delivers known o.contents = o.message.filter fun m => known m.serviceId := by
  have hdata : ∀ serviceId payload,
      (ServicePayload.codec.serialize ⟨serviceId, payload⟩).length ≤ maxMessageLen →
      delivers known (PacketType.data, ServicePayload.codec.serialize ⟨serviceId, payload⟩) =
        if known serviceId then some ⟨serviceId, payload⟩ else none := by
    intro serviceId payload hlen
    rw [ServicePayload.length_serialize, maxMessageLen] at hlen
    have hfit : ServicePayload.codec.Fits ⟨serviceId, payload⟩ :=
      ⟨show serviceId.utf8ByteSize < 256 ^ 8 by omega, show payload.length < 256 ^ 8 by omega⟩
    simp only [delivers, if_true, Codec.deserialize_serialize hfit]
  cases o with
  | pong plain => rfl
  | sender call =>
      cases call with
      | sendToPeer serviceId payload =>
          rw [Sealing.message, Option.filter_some]
          exact hdata serviceId payload hfits
      | broadcastToPeers serviceId payload =>
          rw [Sealing.message, Option.filter_some]
          exact hdata serviceId payload hfits
      | probingLoop => rfl
      | gossipLoop => rfl

/-- A packet is opened only when it is the one that was sealed under the next nonce. -/
theorem Packet.Genuine.open_nonce {t t' : NoiseTransport} {p : Packet} {ty : UInt8} {plain : Bytes}
    (hp : p.Genuine K t.role.other) (h : openPacket K t p.bytes = (.ok (some (ty, plain)), t')) :
    p.nonce = t.recvNonce ∧ p.contents = (ty, plain) ∧ t' = { t with recvNonce := t.recvNonce + 1 } := by
  obtain ⟨hty, c, hc, hbytes⟩ := hp
  have hlen : c.length < 256 ^ 8 := by
    have := ((K t.role.other).encrypt_limit _ _ _ hc).2.2
    unfold maxMessageLen at this
    omega
  have hopens := openPacket_opens (K := K) (t := t) p.bytes
  rw [h] at hopens
  cases hopens with
  | opened hd hmagic hty' hdec =>
      rw [hbytes, Codec.deserialize_serialize (WirePacket.codec_fits hlen)] at hd
      cases hd
      have hnonce := (K t.role.other).nonce_eq _ _ _ _ _ hc ((K t.role.other).encrypt_of_decrypt _ _ _ hdec)
      have hplain := (K t.role.other).decrypt_encrypt _ _ _ hc
      rw [hnonce] at hplain
      cases hplain.symm.trans hdec
      exact ⟨hnonce, rfl, rfl⟩

/-! ## The steps of one end -/

namespace End

variable {e e' : End} {sealed : List Sealing}

/-- What was sealed stands in the order of the nonces, and every packet carries its contents. -/
structure Recorded (K : Role → Cipher) (r : Role) (e : End) (sealed : List Sealing) : Prop where
  role : e.transport.role = r
  length : sealed.length = e.transport.sendNonce
  fits : ∀ o ∈ sealed, o.contents.2.length ≤ maxMessageLen
  packet : ∀ p, p ∈ e.handed ∨ (∃ task, e.held.lookup task = some p) →
    p.Genuine K r ∧ (sealed[p.nonce]?).map Sealing.contents = some p.contents
  wire : ∀ p ∈ e.wire, p ∈ e.written

theorem Frame.mem_written (hf : Frame e e') (h : ∀ p ∈ e.wire, p ∈ e.written) :
    ∀ p ∈ e'.wire, p ∈ e'.written := by
  intro p hp
  rcases hf.output with ⟨hwritten, hwire⟩ | ⟨q, hwritten, hwire⟩
  · rw [hwire] at hp
    rw [hwritten]
    exact h p hp
  · rw [hwire, List.mem_append] at hp
    rw [hwritten, List.mem_append]
    exact hp.imp_left (h p)

/-- The packets stay where they are known, or are the one that was just sealed. -/
theorem Recorded.grow {o : Sealing} {n : ℕ} (h : Recorded K r e sealed) (hf : Frame e e')
    (hn : n = e.transport.sendNonce) (hnext : e'.transport.sendNonce = n + 1)
    (hfits : o.contents.2.length ≤ maxMessageLen)
    (hpacket : ∀ p, p ∈ e'.handed ∨ (∃ task, e'.held.lookup task = some p) →
      (p ∈ e.handed ∨ ∃ task, e.held.lookup task = some p) ∨
        p.Genuine K r ∧ p.nonce = n ∧ p.contents = o.contents) :
    Recorded K r e' (sealed ++ [o]) where
  role := hf.role.trans h.role
  length := by rw [List.length_append, h.length, hnext, hn]; rfl
  fits o' ho := by
    rcases List.mem_append.mp ho with ho | ho
    · exact h.fits o' ho
    · rw [List.mem_singleton.mp ho]
      exact hfits
  packet p hp := by
    rcases hpacket p hp with hold | ⟨hgenuine, hnonce, hcontents⟩
    · obtain ⟨hgenuine, hget⟩ := h.packet p hold
      obtain ⟨o', ho, ho'⟩ := Option.map_eq_some_iff.mp hget
      rw [List.getElem?_append_left (List.getElem?_eq_some_iff.mp ho).1]
      exact ⟨hgenuine, hget⟩
    · rw [hnonce, hn, ← h.length, List.getElem?_concat_length, hcontents]
      exact ⟨hgenuine, rfl⟩
  wire := hf.mem_written h.wire

theorem Recorded.keep (h : Recorded K r e sealed) (hf : Frame e e')
    (hnext : e'.transport.sendNonce = e.transport.sendNonce)
    (hpacket : ∀ p, p ∈ e'.handed ∨ (∃ task, e'.held.lookup task = some p) →
      p ∈ e.handed ∨ ∃ task, e.held.lookup task = some p) : Recorded K r e' sealed where
  role := hf.role.trans h.role
  length := h.length.trans hnext.symm
  fits := h.fits
  packet p hp := h.packet p (hpacket p hp)
  wire := hf.mem_written h.wire

theorem plain_length_le {n : ℕ} {p c : Bytes} (h : (K r).encrypt n p = .ok c) :
    p.length ≤ maxMessageLen := by
  obtain ⟨-, hlen, hle⟩ := (K r).encrypt_limit n p c h
  omega

/-- The sender's call goes into the history exactly when its packet is sealed. -/
theorem step_encrypt {task sender} (hs : e.step K D (.encrypt task sender) = some e') :
    (e' = e ∧ e.seals K (.encrypt task sender) = []) ∨
      ∃ c, (K e.transport.role).encrypt e.transport.sendNonce sender.plainBytes = .ok c ∧
        e.seals K (.encrypt task sender) = [.sender sender] ∧
        e' = { e with
          transport := { e.transport with sendNonce := e.transport.sendNonce + 1 }
          held := e.held.insert task ⟨e.transport.sendNonce, sender.packetType, sender.plainBytes,
            WirePacket.codec.serialize (.sealed sender.packetType c)⟩ } := by
  simp only [step] at hs
  split at hs
  · cases hs
  · split at hs
    · rename_i err t ht
      cases hs
      rw [NoiseTransport.encrypt_error ht]
      exact .inl ⟨rfl, by simp only [seals, ht]⟩
    · rename_i c t hc
      obtain ⟨hseal, rfl⟩ := NoiseTransport.encrypt_cases hc
      cases hs
      exact .inr ⟨c, hseal, by simp only [seals, hc], rfl⟩

theorem mem_seals {act : EndAct} {o : Sealing} (h : o ∈ e.seals K act) :
    ∃ task sender, act = .encrypt task sender ∧ o = .sender sender := by
  cases act with
  | encrypt task sender =>
      simp only [seals] at h
      split at h
      · exact ⟨task, sender, rfl, List.mem_singleton.mp h⟩
      · cases h
  | _ => cases h

/-- A step in `handle_wire_packet`: it seals a pong, or nothing. -/
theorem step_handle {ty p} (hl : e.loop = .handling ty p) (hs : e.step K D (.handle env) = some e') :
    (e' = { e with loop := .idle } ∧
      (finishPacket K D env e.transport ty p).2.2.filterMap Effect.sealing = []) ∨
      ∃ c, (K e.transport.role).encrypt e.transport.sendNonce p = .ok c ∧
        (finishPacket K D env e.transport ty p).2.2.filterMap Effect.sealing = [.pong p] ∧
        e' = { e with
          transport := { e.transport with sendNonce := e.transport.sendNonce + 1 }
          loop := .sending ⟨e.transport.sendNonce, PacketType.pong, p,
            WirePacket.codec.serialize (.sealed PacketType.pong c)⟩ } := by
  simp only [step, hl] at hs
  have hf : Finishes K D env e.transport ty p _ := finishPacket_finishes ty p
  generalize finishPacket K D env e.transport ty p = out at hs hf ⊢
  cases hf with
  | ponged hty hc =>
      cases hs
      exact .inr ⟨_, hc, rfl, rfl⟩
  | _ =>
      cases hs
      exact .inl ⟨rfl, rfl⟩

theorem Recorded.own {act} (h : Recorded K r e sealed) (hact : act.isHandle = false)
    (hs : e.step K D act = some e') : Recorded K r e' (sealed ++ e.seals K act) := by
  have hf := frame_of_step hs
  cases act with
  | encrypt task sender =>
      rcases step_encrypt hs with ⟨rfl, hseals⟩ | ⟨c, hc, hseals, rfl⟩
      · rw [hseals, List.append_nil]
        exact h
      · rw [hseals]
        rw [h.role] at hc
        refine h.grow hf rfl rfl (plain_length_le hc) fun p hp => ?_
        rcases hp with hp | ⟨task', hp⟩
        · exact .inl (.inl hp)
        · by_cases ht : task' = task
          · rw [ht, AList.lookup_insert] at hp
            cases hp
            exact .inr ⟨⟨sender.handled, c, hc, rfl⟩, rfl, rfl⟩
          · rw [AList.lookup_insert_ne ht] at hp
            exact .inl (.inr ⟨task', hp⟩)
  | handle => cases hact
  | enqueue task =>
      simp only [seals, List.append_nil]
      cases step_moves hs with
      | @enqueued task p hp =>
          refine h.keep hf rfl fun q hq => ?_
          rcases hq with hq | ⟨task', hq⟩
          · simp only [handed, List.append_assoc, List.mem_append, List.mem_singleton] at hq ⊢
            rcases hq with hq | hq | hq | rfl
            · exact .inl (.inl hq)
            · exact .inl (.inr (.inl hq))
            · exact .inl (.inr (.inr hq))
            · exact .inr ⟨task, hp⟩
          · exact .inr ⟨task', (lookup_erase_some hq).2⟩
  | cancel task =>
      simp only [seals, List.append_nil]
      cases step_moves hs with
      | cancelled hp =>
          refine h.keep hf rfl fun q hq => ?_
          rcases hq with hq | ⟨task', hq⟩
          · exact .inl hq
          · exact .inr ⟨task', (lookup_erase_some hq).2⟩
  | pop =>
      simp only [seals, List.append_nil]
      cases step_moves hs with
      | popped hl hq =>
          refine h.keep hf rfl fun q => Or.imp_left fun hmem => ?_
          simpa [handed, hl, hq, Loop.packet] using hmem
  | write =>
      simp only [seals, List.append_nil]
      cases step_moves hs with
      | wrote hl =>
          refine h.keep hf rfl fun q => Or.imp_left fun hmem => ?_
          simpa [handed, hl, Loop.packet] using hmem

theorem Recorded.handle {ty p} (h : Recorded K r e sealed) (hl : e.loop = .handling ty p)
    (hs : e.step K D (.handle env) = some e') :
    Recorded K r e' (sealed ++ (finishPacket K D env e.transport ty p).2.2.filterMap Effect.sealing) := by
  have hf := frame_of_step hs
  rcases step_handle hl hs with ⟨rfl, hseals⟩ | ⟨c, hc, hseals, rfl⟩
  · rw [hseals, List.append_nil]
    refine h.keep hf rfl fun q => Or.imp_left fun hmem => ?_
    simpa [handed, hl, Loop.packet] using hmem
  · rw [hseals]
    rw [h.role] at hc
    have hpong : PacketType.Handled PacketType.pong := .tail _ (.tail _ (.tail _ (.head _)))
    refine h.grow hf rfl rfl (plain_length_le hc) fun q hq => ?_
    rcases hq with hq | hq
    · simp only [handed, Loop.packet, List.mem_append, List.mem_singleton] at hq
      rcases hq with (hq | rfl) | hq
      · exact .inl (.inl (List.mem_append_left _ (List.mem_append_left _ hq)))
      · exact .inr ⟨⟨hpong, c, hc, rfl⟩, rfl, rfl⟩
      · exact .inl (.inl (List.mem_append_right _ hq))
    · exact .inl (.inr hq)

theorem Recorded.recv (h : Recorded K r e sealed) (hf : RecvFrame e e') : Recorded K r e' sealed where
  role := hf.role.trans h.role
  length := h.length.trans hf.sendNonce.symm
  fits := h.fits
  packet p hp := by
    rw [hf.handed, hf.held] at hp
    exact h.packet p hp
  wire := by
    rw [hf.wire, hf.written]
    exact h.wire

theorem Recorded.deliver {packet : Packet} {wire : List Packet} (h : Recorded K r e sealed)
    (hwire : e.wire = packet :: wire) : Recorded K r { e with wire } sealed where
  role := h.role
  length := h.length
  fits := h.fits
  packet := h.packet
  wire p hp := h.wire p (hwire ▸ List.mem_cons_of_mem _ hp)

/-! ## What the other end opens -/

/-- An end has opened the first packets that the other one has sealed. -/
structure Follows (e : End) (sealed : List Sealing) : Prop where
  recvNonce : e.transport.recvNonce = e.opened.length
  opened : e.opened = (sealed.take e.opened.length).map Sealing.contents

theorem Follows.length_le (h : Follows e sealed) : e.opened.length ≤ sealed.length := by
  have := congrArg List.length h.opened
  rw [List.length_map, List.length_take] at this
  omega

theorem Follows.grow (h : Follows e sealed) (more : List Sealing) : Follows e (sealed ++ more) where
  recvNonce := h.recvNonce
  opened := by
    rw [List.take_append_of_le_length h.length_le]
    exact h.opened

theorem Follows.own (h : Follows e sealed) (hf : Frame e e') : Follows e' sealed where
  recvNonce := by rw [hf.recvNonce, hf.opened, h.recvNonce]
  opened := by
    rw [hf.opened]
    exact h.opened

theorem Follows.recv {o : End} {packet : Packet} {wire : List Packet} (h : Follows e sealed)
    (ho : Recorded K e.transport.role.other o sealed) (hwire : o.wire = packet :: wire)
    (hr : e.recv K packet.bytes = some e') : Follows e' sealed := by
  obtain ⟨hgenuine, hget⟩ := ho.packet packet <| .inl <| List.mem_append_left _ <| List.mem_append_left _ <|
    ho.wire packet (hwire ▸ List.mem_cons_self)
  unfold End.recv at hr
  split at hr
  · split at hr
    · rename_i ty plain t' hopen
      cases hr
      obtain ⟨hnonce, hcontents, rfl⟩ := hgenuine.open_nonce hopen
      rw [hnonce, h.recvNonce, hcontents] at hget
      obtain ⟨o', ho', hcontents'⟩ := Option.map_eq_some_iff.mp hget
      obtain ⟨hlt, hget'⟩ := List.getElem?_eq_some_iff.mp ho'
      refine ⟨by simp [h.recvNonce], ?_⟩
      simp only [List.length_append, List.length_singleton]
      rw [List.take_succ_eq_append_getElem hlt, List.map_append, hget', ← h.opened]
      simp [hcontents']
    · rename_i t' hopen
      cases hr
      have hopens := openPacket_opens (K := K) (t := e.transport) packet.bytes
      rw [hopen] at hopens
      cases hopens
      exact h
    · rename_i err t' hopen
      cases hr
      have hopens := openPacket_opens (K := K) (t := e.transport) packet.bytes
      rw [hopen] at hopens
      cases hopens
      exact ⟨h.recvNonce, h.opened⟩
  · cases hr

/-! ## The calls of the handlers -/

/-- The message of the packet that is being handled. -/
def inHand (known : String → Bool) (e : End) : List ServicePayload :=
  match e.loop with
  | .handling ty p => (delivers known (ty, p)).toList
  | _ => []

/-- The handlers were called with what the opened packets bring. -/
def Heard (known : String → Bool) (e : End) (handled : List ServicePayload) : Prop :=
  handled ++ e.inHand known = e.opened.filterMap (delivers known)

variable {handled : List ServicePayload}

theorem Heard.own {act} (h : Heard known e handled) (hact : act.isHandle = false)
    (hs : e.step K D act = some e') : Heard known e' handled := by
  have hopened := (frame_of_step hs).opened
  have hhand : e'.inHand known = e.inHand known := by
    cases step_moves hs with
    | popped hl hq => simp only [inHand, hl]
    | wrote hl => simp only [inHand, hl]
    | finished => cases hact
    | replied => cases hact
    | _ => rfl
  rw [Heard, hhand, hopened]
  exact h

theorem Heard.handle {ty p} (h : Heard known e handled) (hl : e.loop = .handling ty p)
    (hknown : ∀ id, (env.services id).isSome = known id) (hs : e.step K D (.handle env) = some e') :
    Heard known e'
      (handled ++ (finishPacket K D env e.transport ty p).2.2.filterMap Effect.message) := by
  have hopened := (frame_of_step hs).opened
  have hidle : e'.inHand known = [] := by
    rcases step_handle hl hs with ⟨rfl, -⟩ | ⟨c, -, -, rfl⟩ <;> rfl
  rw [Heard, hidle, hopened, List.append_nil, finishPacket_messages, funext hknown]
  simpa only [Heard, inHand, hl] using h

theorem Heard.recv {bytes} (h : Heard known e handled) (hr : e.recv K bytes = some e') :
    Heard known e' handled := by
  unfold End.recv at hr
  split at hr
  · rename_i hidle
    simp only [Heard, inHand, hidle, List.append_nil] at h
    split at hr
    · cases hr
      simp only [Heard, inHand, List.filterMap_append, List.filterMap_cons, List.filterMap_nil, h]
      cases delivers known _ <;> rfl
    · cases hr
      simpa only [Heard, inHand, hidle, List.append_nil] using h
    · cases hr
      simpa only [Heard, inHand, hidle, List.append_nil] using h
  · cases hr

end End

/-! ## The two nodes -/

namespace Peers

variable {σ β : Type} {S : Services σ} {peer : Role → PeerId} {use : σ → β → Option σ} {s t : Peers σ}
  {act : PeersAct β} {acts : List (PeersAct β)}

structure Sound (K : Role → Cipher) (known : String → Bool) (s : Peers σ) : Prop where
  recorded : ∀ r, (s.session r).Recorded K r (s.sealed r)
  follows : ∀ r, (s.session r).Follows (s.sealed r.other)
  heard : ∀ r, (s.session r).Heard known (s.handled r)

theorem init_sound (remoteStatic : Role → Option Key) (services : Role → σ) :
    Sound K known (init remoteStatic services) where
  recorded _ := by
    refine ⟨rfl, rfl, fun o ho => absurd ho List.not_mem_nil, fun p hp => ?_, fun p hp => by cases hp⟩
    rcases hp with hp | ⟨task, hp⟩
    · cases hp
    · cases hp
  follows _ := ⟨rfl, rfl⟩
  heard _ := rfl

/-- What a step does to the session, to the node that takes it and to the histories. -/
inductive Moves (K : Role → Cipher) (D : UpdateDecoder) (S : Services σ) (peer : Role → PeerId)
    (use : σ → β → Option σ) (s : Peers σ) : PeersAct β → Peers σ → Prop
  | own {r : Role} {act : EndAct} {e : End} : act.isHandle = false →
      (s.session r).step K D act = some e →
      Moves K D S peer use s (.own r act) { s with
        session := Function.update s.session r e
        sealed := Function.update s.sealed r (s.sealed r ++ (s.session r).seals K act) }
  | handle {r : Role} {nowMs : UInt64} {ty : UInt8} {p : Bytes} {e : End} {effects : List Effect} :
      (s.session r).loop = .handling ty p →
      (s.session r).step K D (.handle (s.env S peer r nowMs)) = some e →
      effects = (finishPacket K D (s.env S peer r nowMs) (s.session r).transport ty p).2.2 →
      Moves K D S peer use s (.handle r nowMs) {
        session := Function.update s.session r e
        services := Function.update s.services r
          ((effects.filterMap Effect.message).foldl (S.deliver (peer r.other)) (s.services r))
        sealed := Function.update s.sealed r (s.sealed r ++ effects.filterMap Effect.sealing)
        handled := Function.update s.handled r (s.handled r ++ effects.filterMap Effect.message) }
  | recv {r : Role} {packet : Packet} {wire : List Packet} {e : End} :
      (s.session r.other).wire = packet :: wire → (s.session r).recv K packet.bytes = some e →
      Moves K D S peer use s (.recv r) { s with
        session := Function.update (Function.update s.session r e) r.other
          { s.session r.other with wire } }
  | use {r : Role} {act : β} {services : σ} : use (s.services r) act = some services →
      Moves K D S peer use s (.use r act) { s with services := Function.update s.services r services }

theorem step_moves (hs : s.step K D S peer use act = some t) : s.Moves K D S peer use act t := by
  cases act with
  | own r act =>
      simp only [step] at hs
      split at hs
      · cases hs
      · rename_i hact
        simp only [Session.step, Option.map_map, Option.map_eq_some_iff] at hs
        obtain ⟨e, he, rfl⟩ := hs
        exact .own (Bool.eq_false_iff.mpr hact) he
  | handle r nowMs =>
      simp only [step] at hs
      split at hs
      · rename_i ty p hl
        simp only [Session.step, Option.map_map, Option.map_eq_some_iff] at hs
        obtain ⟨e, he, rfl⟩ := hs
        exact .handle hl he rfl
      · cases hs
  | recv r =>
      simp only [step, Session.step] at hs
      split at hs
      · cases hs
      · rename_i packet wire hwire
        simp only [Option.map_map, Option.map_eq_some_iff] at hs
        obtain ⟨e, he, rfl⟩ := hs
        exact .recv hwire he
  | use r act =>
      simp only [step, Option.map_eq_some_iff] at hs
      obtain ⟨services, hu, rfl⟩ := hs
      exact .use hu

theorem Sound.step (h : Sound K known s) (hknown : ∀ services id, S.registered services id = known id)
    (hs : s.step K D S peer use act = some t) : Sound K known t := by
  cases step_moves hs with
  | @own r act e hact he =>
      refine ⟨fun r' => ?_, fun r' => ?_, fun r' => ?_⟩
      · rcases Role.eq_or_eq_other r r' with rfl | rfl
        · simp only [Function.update_self]
          exact (h.recorded r').own hact he
        · simp only [Function.update_of_ne r.other_ne]
          exact h.recorded r.other
      · rcases Role.eq_or_eq_other r r' with rfl | rfl
        · simp only [Function.update_self, Function.update_of_ne r'.other_ne]
          exact (h.follows r').own (End.frame_of_step he)
        · simp only [Function.update_self, Function.update_of_ne r.other_ne, Role.other_other]
          have hfollows := h.follows r.other
          rw [Role.other_other] at hfollows
          exact hfollows.grow _
      · rcases Role.eq_or_eq_other r r' with rfl | rfl
        · simp only [Function.update_self]
          exact (h.heard r').own hact he
        · simp only [Function.update_of_ne r.other_ne]
          exact h.heard r.other
  | @handle r nowMs ty p e effects hl he heffects =>
      subst heffects
      have hservices : ∀ id, ((s.env S peer r nowMs).services id).isSome = known id := by
        intro id
        rw [← hknown (s.services r) id]
        simp only [env, Services.env]
        cases S.registered (s.services r) id <;> rfl
      refine ⟨fun r' => ?_, fun r' => ?_, fun r' => ?_⟩
      · rcases Role.eq_or_eq_other r r' with rfl | rfl
        · simp only [Function.update_self]
          exact (h.recorded r').handle hl he
        · simp only [Function.update_of_ne r.other_ne]
          exact h.recorded r.other
      · rcases Role.eq_or_eq_other r r' with rfl | rfl
        · simp only [Function.update_self, Function.update_of_ne r'.other_ne]
          exact (h.follows r').own (End.frame_of_step he)
        · simp only [Function.update_self, Function.update_of_ne r.other_ne, Role.other_other]
          have hfollows := h.follows r.other
          rw [Role.other_other] at hfollows
          exact hfollows.grow _
      · rcases Role.eq_or_eq_other r r' with rfl | rfl
        · simp only [Function.update_self]
          exact (h.heard r').handle hl hservices he
        · simp only [Function.update_of_ne r.other_ne]
          exact h.heard r.other
  | @recv r packet wire e hwire he =>
      refine ⟨fun r' => ?_, fun r' => ?_, fun r' => ?_⟩
      · rcases Role.eq_or_eq_other r r' with rfl | rfl
        · simp only [Function.update_of_ne r'.ne_other, Function.update_self]
          exact (h.recorded r').recv (End.recvFrame_of_recv he)
        · simp only [Function.update_self]
          exact (h.recorded r.other).deliver hwire
      · rcases Role.eq_or_eq_other r r' with rfl | rfl
        · simp only [Function.update_of_ne r'.ne_other, Function.update_self]
          refine (h.follows r').recv ?_ hwire he
          rw [(h.recorded r').role]
          exact h.recorded r'.other
        · simp only [Function.update_self]
          have hfollows := h.follows r.other
          exact ⟨hfollows.recvNonce, hfollows.opened⟩
      · rcases Role.eq_or_eq_other r r' with rfl | rfl
        · simp only [Function.update_of_ne r'.ne_other, Function.update_self]
          exact (h.heard r').recv he
        · simp only [Function.update_self]
          exact h.heard r.other
  | use => exact ⟨h.recorded, h.follows, h.heard⟩

theorem run_sound {remoteStatic : Role → Option Key} {services : Role → σ}
    (hknown : ∀ services id, S.registered services id = known id)
    (hr : Lts.run (step K D S peer use) (init remoteStatic services) acts = some t) : Sound K known t :=
  Lts.run_invariant (fun _ _ _ h hs => h.step hknown hs) (init_sound remoteStatic services) hr

/-- The session stays in step as long as packets are handed over in the order of sealing. -/
theorem sync_step (h : s.session.Sync K) (hturn : s.InTurn S peer act)
    (hs : s.step K D S peer use act = some t) : t.session.Sync K := by
  cases step_moves hs with
  | own hact he => exact h.own hturn he
  | @handle r nowMs ty p e effects hl he heffects =>
      have hturn : (s.session r).InTurn (.handle (s.env S peer r nowMs)) := hturn
      exact h.own hturn he
  | recv hwire he => exact h.recv hwire he
  | use => exact h

theorem run_sync {remoteStatic : Role → Option Key} {services : Role → σ}
    (hturn : Lts.Meets (step K D S peer use) (InTurn S peer) (init remoteStatic services) acts)
    (hr : Lts.run (step K D S peer use) (init remoteStatic services) acts = some t) : t.session.Sync K :=
  Lts.Meets.invariant (fun _ _ _ h hp hs => sync_step h hp hs) (Session.init_sync remoteStatic) hturn hr

theorem Settled.of_idle (hheld : (s.session r).held = ∅) (hdropped : (s.session r).dropped = [])
    (hqueue : (s.session r).queue = []) (hwire : (s.session r).wire = []) (hidle : (s.session r).loop = .idle)
    (hother : (s.session r.other).loop = .idle) : s.Settled r :=
  ⟨hheld, hdropped, hqueue, fun _ h => (nomatch hidle.symm.trans h), hwire,
    fun _ _ h => (nomatch hother.symm.trans h)⟩

/-! ## What one node has handled of what the other one has sent -/

theorem Sound.heard_eq (h : Sound K known s) (r : Role) :
    s.handled r.other ++ (s.session r.other).inHand known =
      (((s.sealed r).take (s.session r.other).opened.length).filterMap Sealing.message).filter
        fun m => known m.serviceId := by
  have hopened := (h.follows r.other).opened
  rw [Role.other_other] at hopened
  have hheard : s.handled r.other ++ (s.session r.other).inHand known = _ := h.heard r.other
  rw [hheard]
  generalize (s.session r.other).opened.length = n at hopened ⊢
  rw [hopened, List.filterMap_map, List.filter_filterMap]
  apply List.filterMap_congr
  intro o ho
  exact delivers_contents ((h.recorded r).fits o (List.mem_of_mem_take ho))

theorem Sound.handled_begins (h : Sound K known s) (r : Role) :
    s.handled r.other <+: (s.sent r).filter fun m => known m.serviceId := by
  apply (List.prefix_append _ ((s.session r.other).inHand known)).trans
  rw [h.heard_eq r]
  exact ((List.take_prefix _ _).filterMap _).filter _

theorem Sound.handled_of_settled (h : Sound K known s) (hsync : s.session.Sync K) (hsettled : s.Settled r) :
    s.handled r.other = (s.sent r).filter fun m => known m.serviceId := by
  have hhand : (s.session r.other).inHand known = [] := by
    unfold End.inHand
    split
    · rename_i hl
      exact absurd hl (hsettled.handling _ _)
    · rfl
  have hpacket : (s.session r).loop.packet = [] := by
    cases hl : (s.session r).loop with
    | sending p => exact absurd hl (hsettled.sending p)
    | _ => rfl
  have hwritten : (s.session r).handed = (s.session r).written := by
    rw [End.handed, hpacket, hsettled.queue, List.append_nil, List.append_nil]
  -- every nonce is that of a packet that was written, and the other end has opened them all
  have hnonce : (s.session r).transport.sendNonce ≤ (s.session r).handed.length := by
    by_contra hlt
    rcases (hsync.inOrder r).2.covered _ le_rfl (not_le.mp hlt) with ⟨task, p, hp, -⟩ | ⟨p, hp, -⟩
    · rw [hsettled.held, AList.lookup_empty] at hp
      cases hp
    · rw [hsettled.dropped] at hp
      cases hp
  have hopened : (s.session r).written.length ≤ (s.session r.other).opened.length := by
    have hwire := (hsync.linked r).wire
    rw [hsettled.wire, eq_comm] at hwire
    exact List.drop_eq_nil_iff.mp hwire
  have hall : (s.sealed r).length ≤ (s.session r.other).opened.length := by
    rw [(h.recorded r).length]
    exact hnonce.trans (hwritten ▸ hopened)
  have heq := h.heard_eq r
  rwa [hhand, List.append_nil, List.take_of_length_le hall] at heq

end Peers

/-! ## The services of one node -/

section
variable {σ β : Type} {S : Services σ} {peer : Role → PeerId} {use : σ → β → Option σ} {s t : Peers σ}
  {act : PeersAct β} {acts : List (PeersAct β)} {sender : PeerId} {services : σ}

/-- The services by themselves, with their users and with the messages of the peer. -/
def Services.step (S : Services σ) (use : σ → β → Option σ) (sender : PeerId) (services : σ) :
    β ⊕ ServicePayload → Option σ
  | .inl act => use services act
  | .inr message => some (S.deliver sender services message)

theorem Services.run_deliver (messages : List ServicePayload) :
    Lts.run (S.step use sender) services (messages.map .inr) =
      some (messages.foldl (S.deliver sender) services) := by
  induction messages generalizing services with
  | nil => rfl
  | cons message messages ih => exact ih

/-- A node sees its own users and the messages that its handlers are called with. -/
structure Peers.Serves (S : Services σ) (use : σ → β → Option σ) (sender : PeerId) (r : Role)
    (s t : Peers σ) (used : List β) (trace : List (β ⊕ ServicePayload)) : Prop where
  run : Lts.run (S.step use sender) (s.services r) trace = some (t.services r)
  handled : t.handled r = s.handled r ++ trace.filterMap Sum.getRight?
  used : trace.filterMap Sum.getLeft? = used

theorem Peers.serves_step (hs : s.step K D S peer use act = some t) (r : Role) :
    ∃ trace, Peers.Serves S use (peer r.other) r s t (act.usedAt r).toList trace := by
  have hstay : ∀ t : Peers σ, t.services r = s.services r → t.handled r = s.handled r →
      Peers.Serves S use (peer r.other) r s t [] [] := fun t hservices hhandled =>
    ⟨congrArg some hservices.symm, by rw [hhandled]; exact (List.append_nil _).symm, rfl⟩
  cases Peers.step_moves hs with
  | own => exact ⟨[], hstay _ rfl rfl⟩
  | recv => exact ⟨[], hstay _ rfl rfl⟩
  | @handle r' nowMs ty p e effects hl he heffects =>
      rcases Role.eq_or_eq_other r' r with rfl | rfl
      · refine ⟨(effects.filterMap Effect.message).map .inr, ?_, ?_, ?_⟩
        · simp only [Services.run_deliver, Function.update_self]
        · simp [List.filterMap_map, Function.comp_def]
        · simp [List.filterMap_map, Function.comp_def, PeersAct.usedAt]
      · exact ⟨[], hstay _ (Function.update_of_ne r'.other_ne ..) (Function.update_of_ne r'.other_ne ..)⟩
  | @use r' act services hu =>
      rcases Role.eq_or_eq_other r' r with rfl | rfl
      · refine ⟨[.inl act], ?_, ?_, ?_⟩
        · simp [Lts.run, Services.step, hu]
        · simp
        · simp [PeersAct.usedAt]
      · have hused : (PeersAct.use r' act).usedAt r'.other = none := if_neg r'.ne_other
        rw [hused]
        exact ⟨[], hstay _ (Function.update_of_ne r'.other_ne ..) rfl⟩

end

end OmniMesh.Sdk
