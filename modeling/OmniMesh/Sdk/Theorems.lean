import OmniMesh.Core.Lemmas.Concrete
import OmniMesh.Crypto.Lemmas.Concrete
import OmniMesh.Sdk.Lemmas.Bounded
import OmniMesh.Sdk.Lemmas.Concrete
import OmniMesh.Sdk.Lemmas.Connect
import OmniMesh.Sdk.Lemmas.Dial
import OmniMesh.Sdk.Lemmas.Exchange
import OmniMesh.Sdk.Lemmas.Handshake
import OmniMesh.Sdk.Lemmas.Link
import OmniMesh.Sdk.Lemmas.NodeLog
import OmniMesh.Sdk.Lemmas.Pairing
import OmniMesh.Sdk.Lemmas.Probing
import OmniMesh.Sdk.Lemmas.ReadSide
import OmniMesh.Sdk.Lemmas.Session
import OmniMesh.Sdk.Lemmas.SessionLoop
import OmniMesh.Sdk.Lemmas.Shutdown

/-!
# The session layer
-/

namespace OmniMesh.Sdk
open OmniMesh.Core OmniMesh.Crypto

/-! ## Delivery on a healthy session -/

/-- When packets are handed over in the order in which they were sealed, no message is lost. -/
theorem session_delivers {K : Role → Cipher} {D : UpdateDecoder} {remoteStatic as t}
    (hturn : Lts.Meets (Session.step K D) Session.InTurn (Session.init remoteStatic) as)
    (hr : Lts.run (Session.step K D) (Session.init remoteStatic) as = some t) : t.Healthy :=
  (Lts.Meets.invariant (fun _ _ _ h hp hs => h.step hp hs) (Session.init_sync remoteStatic)
    hturn hr).healthy

def envAt (nowMs : UInt64) : Env := ⟨fun _ => none, nowMs⟩

/-- A ping, its pong, and the next ping of the other end. -/
def pingPongRun : List SessionAct :=
  [.own .initiator (.encrypt 0 (.probingLoop 7)), .own .initiator (.enqueue 0),
    .own .initiator .pop, .own .initiator .write, .recv .responder, .own .responder (.handle (envAt 9)),
    .own .responder (.encrypt 0 (.probingLoop 8)), .own .responder .write, .recv .initiator,
    .own .responder (.enqueue 0), .own .responder .pop, .own .responder .write]

theorem session_delivers_pingPong :
    ∃ t, Lts.run (Session.step nonceCiphers noUpdates) (Session.init fun _ => none) pingPongRun = some t ∧
      (t .responder).written.map Packet.nonce = [0, 1] ∧ t.Healthy := by
  have hturn : Lts.Meets (Session.step nonceCiphers noUpdates) Session.InTurn (Session.init fun _ => none)
      pingPongRun := by
    refine .cons trivial rfl <| .cons (End.inTurn_enqueue_only rfl rfl) rfl <| .cons trivial rfl <|
      .cons trivial rfl <| .cons trivial rfl <| .cons (fun _ => ⟨rfl, rfl, rfl⟩) rfl <|
      .cons trivial rfl <| .cons trivial rfl <| .cons trivial rfl <|
      .cons (End.inTurn_enqueue_only rfl rfl) rfl <| .cons trivial rfl <| .cons trivial rfl trivial
  exact ⟨_, rfl, rfl, session_delivers hturn rfl⟩

/-- Two tasks seal one packet each, and the second enqueues first. -/
def overtakenRun : List SessionAct :=
  [.own .initiator (.encrypt 0 (.probingLoop 7)), .own .initiator (.encrypt 1 (.probingLoop 8)),
    .own .initiator (.enqueue 1), .own .initiator (.enqueue 0), .own .initiator .pop,
    .own .initiator .write, .recv .responder]

theorem session_overtaken :
    ∃ t, Lts.run (Session.step nonceCiphers noUpdates) (Session.init fun _ => none) overtakenRun = some t ∧
      (t .initiator).written.map Packet.nonce = [1] ∧
      (t .responder).failed = [.crypto "noise decrypt: decrypt error"] ∧ ¬ t.Healthy := by
  refine ⟨_, rfl, rfl, rfl, fun h => ?_⟩
  cases h.failed .responder

/-! ## Authenticity on a hostile network -/

/-- When no ciphertext is delivered under another packet type, effects come from packets sealed with
that type and plaintext. -/
theorem exchange_authentic {K : Role → Cipher} {D : UpdateDecoder} {remoteStatic as t}
    (hideal : Lts.Meets (Exchange.step K D) (Exchange.NoForgery K) (Exchange.init remoteStatic) as)
    (htype : Lts.Meets (Exchange.step K D) (Exchange.TypeKept K) (Exchange.init remoteStatic) as)
    (hr : Lts.run (Exchange.step K D) (Exchange.init remoteStatic) as = some t) (r : Role) :
    t.Authentic D r :=
  (Lts.Meets.invariant (fun _ _ _ h hp hs => h.step hp.1 hp.2 hs)
    (Exchange.init_allTraced remoteStatic) (hideal.and htype) hr).authentic r

/-- The bytes of a packet around the first ciphertext of the timestamp `sentTimeMs`. -/
def firstProbe (ty : UInt8) (sentTimeMs : UInt64) : Bytes :=
  WirePacket.codec.serialize
    (.sealed ty (Codec.u64.serialize sentTimeMs ++ Codec.leBytes 16 0))

theorem accepts_firstProbe {s ty packet p} (hn : (s .responder).transport.recvNonce = 0)
    (h : Exchange.Accepts nonceCiphers s .responder (firstProbe ty 5) packet p) :
    packet.packetType = ty ∧ p = Codec.u64.serialize 5 := by
  obtain ⟨hp, -, -, hdec⟩ := h
  have hlen : (Codec.u64.serialize 5 ++ Codec.leBytes 16 0).length < 256 ^ 8 := by decide
  have hfit : WirePacket.codec.deserialize (firstProbe ty 5) = .ok (.sealed ty _) :=
    Codec.deserialize_serialize (WirePacket.codec_fits hlen)
  cases hfit.symm.trans hp
  rw [hn] at hdec
  exact ⟨rfl, (Except.ok.inj hdec).symm⟩

/-- A ping that reaches the other end, or does so as a packet of type `ty`. -/
def probeRun (ty : UInt8) : List ExchangeAct :=
  [.encrypt .initiator (.probingLoop 5), .deliver .responder (firstProbe ty 5),
    .handle .responder (envAt 9)]

theorem exchange_authentic_ping :
    ∃ t, Lts.run (Exchange.step nonceCiphers noUpdates) (Exchange.init fun _ => none)
        (probeRun PacketType.ping) = some t ∧
      (t .responder).effects = [.pong (Codec.u64.serialize 5)] ∧
      t.Authentic noUpdates .responder := by
  have hideal : Lts.Meets (Exchange.step nonceCiphers noUpdates) (Exchange.NoForgery nonceCiphers)
      (Exchange.init fun _ => none) (probeRun PacketType.ping) := by
    refine .cons trivial rfl <| .cons ?_ rfl <| .cons trivial rfl trivial
    intro packet p h
    rw [(accepts_firstProbe rfl h).2]
    exact ⟨PacketType.ping, rfl⟩
  have htype : Lts.Meets (Exchange.step nonceCiphers noUpdates) (Exchange.TypeKept nonceCiphers)
      (Exchange.init fun _ => none) (probeRun PacketType.ping) := by
    refine .cons trivial rfl <| .cons ?_ rfl <| .cons trivial rfl trivial
    intro packet p h q hq
    cases hq
    exact (accepts_firstProbe rfl h).1
  exact ⟨_, rfl, rfl, exchange_authentic hideal htype rfl .responder⟩

theorem exchange_retyped :
    ∃ t, Lts.Meets (Exchange.step nonceCiphers noUpdates) (Exchange.NoForgery nonceCiphers)
        (Exchange.init fun _ => none) (probeRun PacketType.pong) ∧
      Lts.run (Exchange.step nonceCiphers noUpdates) (Exchange.init fun _ => none)
        (probeRun PacketType.pong) = some t ∧
      (t .responder).effects = [.latency 9 5] ∧
      (t .initiator).sealed = [(PacketType.ping, Codec.u64.serialize 5)] ∧
      ¬ t.Authentic noUpdates .responder := by
  have hideal : Lts.Meets (Exchange.step nonceCiphers noUpdates) (Exchange.NoForgery nonceCiphers)
      (Exchange.init fun _ => none) (probeRun PacketType.pong) := by
    refine .cons trivial rfl <| .cons ?_ rfl <| .cons trivial rfl trivial
    intro packet p h
    rw [(accepts_firstProbe rfl h).2]
    exact ⟨PacketType.ping, rfl⟩
  refine ⟨_, hideal, rfl, rfl, rfl, ?_⟩
  rintro ⟨causes, hsub, hall⟩
  change List.Forall₂ _ [Effect.latency 9 5] causes at hall
  change causes.Sublist [(PacketType.ping, Codec.u64.serialize 5)] at hsub
  cases hall with
  | cons hc hnil =>
      have hmem := hsub.subset List.mem_cons_self
      rw [List.mem_singleton] at hmem
      subst hmem
      exact absurd hc.1 (by decide)

/-! ## Authentication of the peer -/

/-- The handshake proves that the remote end holds the private key of the remote static key. It
authenticates the returned peer id exactly when the remote end claims one of its own. -/
theorem handshake_authenticates {S : KeyScheme} (h : Accepted S) :
    (∃ k ∈ h.held, h.transport.remoteStatic = some (S.x25519 k)) ∧
      (h.Authenticated ↔ h.Truthful) ∧
      ∀ h' : Accepted S, h.transport.remoteStatic = h'.transport.remoteStatic →
        (h.peerId = h'.peerId ↔ h.claim = h'.claim) := by
  refine ⟨h.remoteStatic_held, ?_, fun h' _ => ?_⟩
  · unfold Accepted.Authenticated Accepted.Truthful
    simp only [h.claim_eq, Option.some.injEq, eq_comm]
  · rw [h.claim_eq, h'.claim_eq, Option.some.injEq]

def claimScript (b : UInt8) : Script :=
  ⟨[.ok (some (.second (sampleKey 1)
      (HandshakePayload.codec.serialize ⟨.current, plainKeys.toPeerId (sampleKey b)⟩)))],
    [.ok (), .ok ()]⟩

def claimAccepted (b : UInt8) : Accepted plainKeys where
  current := .current
  role := .initiator
  seed := sampleKey 0
  localPeerId := plainKeys.toPeerId (sampleKey 0)
  script := claimScript b
  transport := .fresh .initiator (some (sampleKey 1))
  peerId := plainKeys.toPeerId (sampleKey b)
  ok := by
    rw [performHandshake, claimScript, handshakeLoop_eq, handshakeTurn]
    simp only [LoopState.start, NoiseHandshake.withKeypair, NoiseHandshake.isFinished, NoiseHandshake.writeMessage]
    rw [readPayload_serialized rfl rfl]
    show (handshakeLoop plainKeys .current _ _).result = _
    rw [handshakeLoop_eq]
    rfl
  held := {sampleKey 1}
  speaks := by
    intro message k hm hk
    cases List.mem_singleton.mp hm
    cases hk
    exact Set.mem_singleton _

theorem handshake_authenticates_honest : (claimAccepted 1).Authenticated :=
  (handshake_authenticates (claimAccepted 1)).2.1.mpr
    ⟨sampleKey 1, Set.mem_singleton _, (claimAccepted 1).claim_eq⟩

/-- The owner of one seed is accepted as the owner of another, and as two peers at once. -/
theorem handshake_spoofed :
    ¬ (claimAccepted 2).Authenticated ∧
      (claimAccepted 1).transport.remoteStatic = (claimAccepted 2).transport.remoteStatic ∧
      (claimAccepted 1).peerId ≠ (claimAccepted 2).peerId := by
  refine ⟨?_, rfl, by decide⟩
  rintro ⟨seed, hs, hid⟩
  cases Set.mem_singleton_iff.mp hs
  exact absurd hid (by decide)

/-! ## Agreement on the handshake -/

/-- Two honest ends come to an end in every interleaving. With equal major versions both return `Ok`
after three messages, otherwise both return an error. Against any remote end the loop is left in its
first or second iteration, and a call that returns an error leaves the sessions as they were. -/
theorem handshake_agrees (S : KeyScheme) (ends : Role → LinkEnd) :
    Lts.Ends (Link.step S ends) .init ∧
    (∀ acts link, Lts.run (Link.step S ends) .init acts = some link →
      ((ends .initiator).version.major = (ends .responder).version.major → link.Settled S ends →
        ∃ transport, link.Agreed S ends transport) ∧
      ((ends .initiator).version.major ≠ (ends .responder).version.major →
        (∀ role out, (link.outcome S ends role).result ≠ some (.ok out)) ∧
        (link.Settled S ends → link.Refused S ends))) ∧
    (∀ current role seed localPeerId script,
      leavesWithin S current localPeerId 2 (.start (.withKeypair role seed) script) =
        some (performHandshake S current (.withKeypair role seed) localPeerId script)) ∧
    ∀ (self : Caller) (sessions : Sessions) (script : Script) (e : OmniMeshError),
      (self.shake script = some (.error e) →
        self.connectAddr sessions (some (.ok script)) = (some (.error e), sessions)) ∧
      (self.acceptShake script = some (.error e) → self.acceptTask sessions script = sessions) := by
  refine ⟨Link.init_ends, fun acts link hr => ⟨fun hv hs => ?_, fun hv => ?_⟩, ?_, ?_⟩
  · obtain ⟨room, heard, h⟩ := (Link.run_running hr).1 hv
    exact ⟨_, h.agreed hv hs⟩
  · obtain ⟨room, h⟩ := (Link.run_running hr).2 hv
    refine ⟨fun role out hok => ?_, h.settled hv⟩
    rcases h.result hv role with hnone | ⟨e, he⟩
    · rw [hnone] at hok
      cases hok
    · rw [he] at hok
      cases hok
  · intro current role seed localPeerId script
    obtain ⟨outcome, h⟩ := leavesWithin_two (S := S) (.start (.withKeypair role seed) script)
    rw [h, leavesWithin_eq h]
    rfl
  · intro self sessions script e
    refine ⟨fun h => ?_, fun h => ?_⟩
    · simp only [Caller.connectAddr, h]
    · simp only [Caller.acceptTask, h]

def plainEnds : Role → LinkEnd
  | .initiator => ⟨⟨1, 0, 0⟩, sampleKey 0, plainKeys.toPeerId (sampleKey 0)⟩
  | .responder => ⟨⟨1, 7, 2⟩, sampleKey 1, plainKeys.toPeerId (sampleKey 1)⟩

theorem handshake_agrees_plain : ∃ acts link transport,
    Lts.run (Link.step plainKeys plainEnds) .init acts = some link ∧
      link.Agreed plainKeys plainEnds transport := by
  obtain ⟨hends, hrun, -⟩ := handshake_agrees plainKeys plainEnds
  obtain ⟨acts, link, hr, hs⟩ := hends.exists_run fun link => Link.settled_or_step
  obtain ⟨transport, h⟩ := (hrun acts link hr).1 rfl hs
  exact ⟨acts, link, transport, hr, h⟩

/-! ## Connecting to a peer -/

/-- `connect_peer` stops at the first address that does not fail. It reaches the peer it was asked for
exactly when that address is the peer's. -/
theorem connectPeer_reaches_iff (self : Caller) (sessions : Sessions) (peer : PeerId)
    (addrs : List Dial) :
    (peer ∉ sessions → ((self.connectPeer sessions peer addrs).1 = some (.ok ()) ↔
      ∃ index q, self.StopsAt addrs index q)) ∧
    ((((self.connectPeer sessions peer addrs).1 = some (.ok ()) →
        peer ∈ (self.connectPeer sessions peer addrs).2) ∧
      (peer ∉ sessions → ∀ index dial, addrs[index]? = some dial → self.Completes dial peer →
        ∀ earlier < index, ∀ q, self.StopsAt addrs earlier q → q = peer)) ↔
    (peer ∈ sessions ∨ ∀ index q, self.StopsAt addrs index q → q = peer)) := by
  by_cases hs : peer ∈ sessions
  · have hnow : self.connectPeer sessions peer addrs = (some (.ok ()), sessions) := if_pos hs
    exact ⟨fun h => absurd hs h, fun _ => .inl hs, fun _ => ⟨fun _ => hnow ▸ hs, fun h => absurd hs h⟩⟩
  · rcases Caller.connectPeer_of_not_mem hs with ⟨j, q, transport, hstop, hr⟩ | ⟨hr, hnone⟩
    · refine ⟨fun _ => ⟨fun _ => ⟨j, q, hstop⟩, fun _ => by rw [hr]⟩, fun h => .inr ?_, fun h => ⟨?_, ?_⟩⟩
      · have hmem := h.1 (by rw [hr])
        rw [hr, AList.mem_insert] at hmem
        obtain rfl : peer = q := hmem.resolve_right hs
        exact fun _ _ hstop' => hstop'.unique hstop
      · intro _
        rw [hr, AList.mem_insert]
        exact .inl ((h.resolve_left hs) j q hstop).symm
      · exact fun _ _ _ _ _ earlier _ q hstop' => (h.resolve_left hs) earlier q hstop'
    · refine ⟨fun _ => ⟨fun h => absurd h hr, fun ⟨j, q, h⟩ => absurd h (hnone j q)⟩,
        fun _ => .inr fun j q h => absurd h (hnone j q), fun _ => ⟨fun h => absurd h hr, ?_⟩⟩
      exact fun _ _ _ _ _ earlier _ q h => absurd h (hnone earlier q)

def plainCaller : Caller := ⟨plainKeys, .current, sampleKey 0, plainKeys.toPeerId (sampleKey 0)⟩

theorem plainCaller_completes (b : UInt8) :
    plainCaller.Completes (some (.ok (claimScript b))) (plainKeys.toPeerId (sampleKey b)) :=
  ⟨claimScript b, _, rfl, (claimAccepted b).ok⟩

/-- Nobody listens at the first address, and the peer at the second. -/
theorem connectPeer_reaches_second :
    plainKeys.toPeerId (sampleKey 1) ∈ (plainCaller.connectPeer ∅ (plainKeys.toPeerId (sampleKey 1))
      [some (.error (.connection "connect failed: timed out")), some (.ok (claimScript 1))]).2 := by
  have hstop : plainCaller.StopsAt
      [some (.error (.connection "connect failed: timed out")), some (.ok (claimScript 1))] 1
      (plainKeys.toPeerId (sampleKey 1)) :=
    Caller.stopsAt_cons_succ.mpr
      ⟨.inl ⟨_, rfl⟩, Caller.stopsAt_cons_zero.mpr (plainCaller_completes 1)⟩
  have h := connectPeer_reaches_iff plainCaller ∅ (plainKeys.toPeerId (sampleKey 1))
    [some (.error (.connection "connect failed: timed out")), some (.ok (claimScript 1))]
  exact (h.2.mpr (.inr fun _ _ hstop' => hstop'.unique hstop)).1
    ((h.1 (AList.notMem_empty _)).mpr ⟨1, _, hstop⟩)

/-- Another peer answers at the first address, and the one that was asked for would at the second. -/
theorem connectPeer_stops_early :
    plainCaller.StopsAt [some (.ok (claimScript 2)), some (.ok (claimScript 1))] 0
        (plainKeys.toPeerId (sampleKey 2)) ∧
      plainCaller.Completes (some (.ok (claimScript 1))) (plainKeys.toPeerId (sampleKey 1)) ∧
      plainKeys.toPeerId (sampleKey 2) ≠ plainKeys.toPeerId (sampleKey 1) ∧
      (plainCaller.connectPeer ∅ (plainKeys.toPeerId (sampleKey 1))
        [some (.ok (claimScript 2)), some (.ok (claimScript 1))]).1 = some (.ok ()) ∧
      plainKeys.toPeerId (sampleKey 1) ∉ (plainCaller.connectPeer ∅ (plainKeys.toPeerId (sampleKey 1))
        [some (.ok (claimScript 2)), some (.ok (claimScript 1))]).2 := by
  have hstop : plainCaller.StopsAt [some (.ok (claimScript 2)), some (.ok (claimScript 1))] 0
      (plainKeys.toPeerId (sampleKey 2)) := Caller.stopsAt_cons_zero.mpr (plainCaller_completes 2)
  have hne : plainKeys.toPeerId (sampleKey 2) ≠ plainKeys.toPeerId (sampleKey 1) := by decide
  rcases Caller.connectPeer_of_not_mem (AList.notMem_empty (plainKeys.toPeerId (sampleKey 1))) with
    ⟨j, q, transport, hstop', hr⟩ | ⟨-, hnone⟩
  · obtain rfl := hstop.unique hstop'
    refine ⟨hstop, plainCaller_completes 1, hne, by rw [hr], ?_⟩
    rw [hr, AList.mem_insert]
    exact fun h => h.elim (fun he => hne he.symm) (AList.notMem_empty _)
  · exact absurd hstop (hnone 0 _)

/-! ## Framing over QUIC -/

/-- When outgoing messages are taken between frames only, the loop handles the frames that were sent. -/
theorem readSide_framed {as t} (hu : Lts.Meets ReadSide.step ReadSide.Undisturbed .init as)
    (hr : Lts.run ReadSide.step .init as = some t) : t.Framed := by
  have hinv := Lts.Meets.invariant (I := fun s : ReadSide => ∃ rest, s.InStep rest)
    (fun _ _ _ ⟨_, h⟩ hp hs => h.step hp hs) ⟨[], ReadSide.init_inStep⟩ hu hr
  obtain ⟨rest, h⟩ := hinv
  exact h.framed

/-- A frame arrives in two pieces, and an outgoing message becomes ready after it. -/
def chunkedRun : List ReadAct :=
  [.send [7], .arrive 2, .poll, .arrive 3, .poll, .outgoing, .poll]

theorem readSide_framed_chunked :
    ∃ t, Lts.run ReadSide.step .init chunkedRun = some t ∧ t.handled = [[7]] ∧ t.Framed := by
  have hu : Lts.Meets ReadSide.step ReadSide.Undisturbed .init chunkedRun :=
    .cons (by decide : 1 < 2 ^ 32) rfl <| .cons trivial rfl <| .cons trivial rfl <|
      .cons trivial rfl <| .cons trivial rfl <| .cons rfl rfl <| .cons trivial rfl trivial
  exact ⟨_, rfl, rfl, readSide_framed hu rfl⟩

/-- The outgoing message becomes ready between the two pieces. -/
def interruptedRun : List ReadAct :=
  [.send [0, 0, 0, 0, 7], .arrive 4, .poll, .outgoing, .arrive 5, .poll]

theorem readSide_interrupted :
    ∃ t, Lts.run ReadSide.step .init interruptedRun = some t ∧ t.sent = [[0, 0, 0, 0, 7]] ∧
      t.handled = [[]] ∧ ¬ t.Framed := by
  refine ⟨_, rfl, rfl, rfl, fun h => ?_⟩
  exact absurd h.prefix_sent (by decide)

/-! ## Sessions and their loops -/

/-- No state of a run holds a dead session exactly when each loop ends, other than by the closing of its
write channel, only after a later connection of its peer or the shutdown has taken its session from the
map. -/
theorem node_noDead_iff {as t} (hr : Lts.run Node.step .init as = some t) :
    Node.Released as ↔
      ∀ before after s, as = before ++ after → Lts.run Node.step .init before = some s → s.NoDead := by
  constructor
  · rintro hrel before after s rfl hs
    exact (hrel.of_append.backed hs).noDead
  · exact Node.released_of_noDead hr

def connectRun (conn : Nat) : List NodeAct :=
  [.opened conn, .shaken conn (samplePeer 1), .insert conn, .start conn]

/-- A second connection to the same peer replaces the first, which the peer then closes. -/
def replaceRun : List NodeAct := connectRun 0 ++ connectRun 1 ++ [.exit 0 .peerClosed]

theorem replaceRun_released : Node.Released replaceRun := by
  have hconnects : Node.Released (connectRun 0 ++ connectRun 1) :=
    Node.released_of_no_exit (by simp [connectRun])
  refine Node.released_concat hconnects fun conn reason hact => .inr ?_
  cases hact
  refine ⟨[.opened 0, .shaken 0 (samplePeer 1)], .start 0 :: connectRun 1, rfl, .inr ⟨samplePeer 1, 1, rfl, rfl, ?_⟩⟩
  simp [connectRun]

theorem node_noDead_iff_replaced :
    ∃ t, Lts.run Node.step .init replaceRun = some t ∧ t.stages.lookup 0 = some .ended ∧
      t.sessions.lookup (samplePeer 1) = some 1 ∧ t.NoDead := by
  have hrun : Lts.run Node.step .init replaceRun = some _ := rfl
  have hdead := (node_noDead_iff hrun).mp replaceRun_released
  exact ⟨_, rfl, rfl, rfl, hdead replaceRun [] _ (by simp) rfl⟩

/-- The peer disconnects: its session stays in the map, and writing to it fails from then on. -/
theorem node_keeps_dead :
    ∃ t, Lts.run Node.step .init (connectRun 0 ++ [.exit 0 .peerClosed]) = some t ∧
      t.sessions.lookup (samplePeer 1) = some 0 ∧ t.stages.lookup 0 = some .ended ∧
      t.writeTo (samplePeer 1) = .error (.connection "session write channel closed") ∧ ¬ t.NoDead := by
  refine ⟨_, rfl, rfl, rfl, rfl, fun h => ?_⟩
  exact h.ended 0 rfl ⟨samplePeer 1, rfl⟩

/-! ## Dialling and listening -/

/-- When no accept loop parks on a node with an unfinished call, and listeners are dialled only while
they have room, dialling does not deadlock. -/
theorem mesh_not_deadlocked {ν : Type} [DecidableEq ν] [Fintype ν] {listening : ν → Bool} {as t}
    (hu : Lts.Meets Mesh.step Mesh.Unparked (Mesh.init listening) as)
    (hr : Lts.run Mesh.step (Mesh.init listening) as = some t) : ¬ t.Deadlocked :=
  (Lts.Meets.invariant (fun _ _ _ h hp hs => h.step hp hs) (Mesh.init_clear listening)
    hu hr).not_deadlocked

/-- The call takes the mutex before the accept loop of its node. -/
def callFirstRun : List (DialAct Bool) :=
  [.call false true, .acquire false true, .acceptLock true, .dial false, .acceptLock false,
    .acceptConn true]

theorem mesh_not_deadlocked_callFirst :
    ∃ t, Lts.run Mesh.step (Mesh.init fun _ => true) callFirstRun = some t ∧
      (t true).incoming = 0 ∧ ¬ t.Deadlocked := by
  have hidle : ∀ d : Dialer Bool, d.waiting = [] → d.lock = .free → ¬ Mesh.Unfinished d := by
    rintro d hw hl (h | ⟨target, h⟩)
    · exact h hw
    · rw [hl] at h
      cases h
  have hu : Lts.Meets Mesh.step Mesh.Unparked (Mesh.init fun _ : Bool => true) callFirstRun :=
    .cons (fun h => by cases h.1) rfl <| .cons (fun _ => by decide) rfl <|
      .cons (fun h => absurd h (hidle _ rfl rfl)) rfl <| .cons trivial rfl <|
      .cons (fun h => absurd h (hidle _ rfl rfl)) rfl <| .cons trivial rfl trivial
  exact ⟨_, rfl, rfl, mesh_not_deadlocked hu rfl⟩

/-- The accept loops take their mutexes first; then one node calls the other. -/
def listenFirstRun : List (DialAct Bool) := [.acceptLock false, .acceptLock true, .call false true]

theorem mesh_deadlocks :
    ∃ t, Lts.run Mesh.step (Mesh.init fun _ => true) listenFirstRun = some t ∧ t.Deadlocked := by
  refine ⟨_, rfl, ⟨false, .inl (by decide)⟩, ?_⟩
  intro act htask
  cases act with
  | acquire n target => cases n <;> rfl
  | dial n => cases n <;> rfl
  | acceptLock n => cases n <;> rfl
  | acceptConn n => cases n <;> rfl
  | _ => cases htask

/-! ## Agreement on a session -/

/-- The two nodes agree on an open connection exactly when they inserted the same one last. When they do
not, no connection between them stays open. -/
theorem pairing_agreed_iff {as t} (hr : Lts.run Pairing.step .init as = some t) :
    (t.Agreed ↔ t.SameLast) ∧ (t.Settled → ¬ t.SameLast → ∀ conn, ¬ t.Open conn) := by
  have hkept := Lts.run_invariant (fun _ _ _ h hs => h.step hs) Pairing.init_kept hr
  exact ⟨hkept.agreed_iff, fun hset hlast conn ho =>
    hlast (hkept.agreed_iff.mp (hset.agreed_of_open ho))⟩

/-- Two connections; both nodes insert the second one last, and close the first. -/
def inOrderRun : List PairingAct :=
  [.opened 0, .shaken false 0, .shaken true 0, .insert false 0, .insert true 0,
    .opened 1, .shaken false 1, .shaken true 1, .insert false 1, .insert true 1,
    .exit false 0, .exit true 0]

theorem pairing_agreed_inOrder :
    ∃ t, Lts.run Pairing.step .init inOrderRun = some t ∧ t.sessions false = some 1 ∧ t.Agreed := by
  have hr : Lts.run Pairing.step .init inOrderRun = some _ := rfl
  exact ⟨_, hr, rfl, (pairing_agreed_iff hr).1.mpr ⟨1, fun x => by cases x <;> rfl⟩⟩

/-- Both nodes connect at the same time: each inserts its own connection first. -/
def simultaneousRun : List PairingAct :=
  [.opened 0, .opened 1, .shaken false 0, .insert false 0, .shaken true 1, .insert true 1,
    .shaken true 0, .insert true 0, .shaken false 1, .insert false 1,
    .exit false 0, .exit true 1, .exit true 0, .exit false 1]

theorem pairing_disagrees :
    ∃ t, Lts.run Pairing.step .init simultaneousRun = some t ∧ t.Settled ∧
      t.sessions false = some 1 ∧ t.sessions true = some 0 ∧ ¬ t.Agreed := by
  refine ⟨_, rfl, ?_, rfl, rfl, ?_⟩
  · refine Pairing.settled_of_closed fun x conn => ?_
    match x, conn with
    | false, 0 | false, 1 | true, 0 | true, 1 => exact .inl rfl
    | false, _ + 2 | true, _ + 2 => exact .inr rfl
  · rintro ⟨conn, hs, -⟩
    have h0 : some 1 = some conn := hs false
    have h1 : some 0 = some conn := hs true
    cases h0
    cases h1

/-! ## Shutdown -/

/-- Shutdown is final when no connection comes in its way; one step at the wrong time is enough to break
this. -/
theorem shutdown_final (s : Lifetime) :
    (∀ acts, Lts.Meets Lifetime.step Lifetime.Timely .init acts →
      Lts.run Lifetime.step .init acts = some s → s.Final) ∧
    ∀ act t, Lifetime.step s act = some t → ¬ s.Timely act →
      ∃ more u, Lts.Meets Lifetime.step Lifetime.Timely t more ∧
        Lts.run Lifetime.step t more = some u ∧ ¬ u.Final :=
  ⟨fun _ hm hr => (Lifetime.run_quiet hm hr).final, fun _ _ => Lifetime.doomed_of_not_timely⟩

/-- A connection with its loop, a shutdown, and the end of the loop. -/
def orderlyShutdown : List LifeAct :=
  (connectRun 0).map .task ++ [.enter 0, .call, .signal, .clear, .close, .task (.exit 0 .shutdown)]

theorem shutdown_final_orderly :
    ∃ s, Lts.run Lifetime.step .init orderlyShutdown = some s ∧ s.returned = true ∧ s.Final := by
  have hm : Lts.Meets Lifetime.step Lifetime.Timely .init orderlyShutdown := by
    refine .cons trivial rfl <| .cons trivial rfl <| .cons nofun rfl <| .cons rfl rfl <|
      .cons trivial rfl <| .cons nofun rfl <| .cons trivial rfl <| .cons trivial rfl <|
      .cons ?_ rfl <| .cons trivial rfl trivial
    intro conn peer sig hl
    have hmem : conn ∈ [0] := AList.mem_keys.mp (AList.lookup_isSome.mp (Option.isSome_iff_exists.mpr ⟨_, hl⟩))
    exact hmem
  exact ⟨_, rfl, rfl, (shutdown_final _).1 _ hm rfl⟩

/-- A handshake has just completed when `shutdown` is called, and its task goes on after the return. -/
def lateHandshake : List LifeAct :=
  [.task (.opened 0), .task (.shaken 0 (samplePeer 1)), .call, .signal, .clear, .close, .task (.insert 0),
    .task (.start 0), .enter 0]

theorem shutdown_not_final :
    ∃ s, Lts.run Lifetime.step .init lateHandshake = some s ∧ s.returned = true ∧
      s.node.sessions.lookup (samplePeer 1) = some 0 ∧
      s.node.stages.lookup 0 = some (.running (samplePeer 1) false) ∧ 0 ∈ s.entered ∧ s.late = true :=
  ⟨_, rfl, rfl, rfl, rfl, List.mem_cons_self, rfl⟩

/-! ## Two loops over a bounded connection -/

/-- The loops do not block each other when none goes into `conn.send` on a full channel while the other
waits in its own; one step that does so is a deadlock. -/
theorem session_deadlock_free {K : Role → Cipher} {D : UpdateDecoder} {capacity : Nat}
    (hcap : 1 ≤ capacity) (remoteStatic : Role → Option Key) :
    (∀ acts t,
      Lts.Meets (Session.boundedStep capacity K D) (Session.Yields capacity) (Session.init remoteStatic)
        acts →
      Lts.run (Session.boundedStep capacity K D) (Session.init remoteStatic) acts = some t →
      ¬ t.Deadlocked capacity K D) ∧
    ∀ s act t, Session.boundedStep capacity K D s act = some t → ¬ s.Yields capacity act →
      t.Deadlocked capacity K D := by
  constructor
  · intro acts t hm hr hdead
    have hinit : ¬ ∀ r, (Session.init remoteStatic r).Waits capacity := by
      intro h
      obtain ⟨packet, hp⟩ := (h .initiator).sending
      cases hp
    exact Lts.Meets.invariant (I := fun s => ¬ ∀ r, (s r).Waits capacity)
      (fun _ _ _ h hy hs => Session.not_waits_step h hy hs) hinit hm hr (hdead.waits hcap)
  · intro s act t hs hy
    exact Session.deadlocked_of_waits hcap (Session.waits_of_not_yields hy hs)

/-- The initiator waits on its full channel of one packet until the responder reads. -/
def waitingRun : List SessionAct :=
  [.own .initiator (.encrypt 0 (.probingLoop 7)), .own .initiator (.enqueue 0), .own .initiator .pop,
    .own .initiator .write, .own .initiator (.encrypt 0 (.probingLoop 8)), .own .initiator (.enqueue 0),
    .own .initiator .pop, .recv .responder, .own .responder (.handle (envAt 9)), .own .initiator .write]

theorem session_deadlock_free_waiting :
    ∃ t, Lts.run (Session.boundedStep 1 nonceCiphers noUpdates) (Session.init fun _ => none) waitingRun =
        some t ∧
      (t .initiator).written.length = 2 ∧ ¬ t.Deadlocked 1 nonceCiphers noUpdates := by
  have hm : Lts.Meets (Session.boundedStep 1 nonceCiphers noUpdates) (Session.Yields 1)
      (Session.init fun _ => none) waitingRun := by
    have hidle : ∀ {e : End}, e.loop = .idle → ¬ e.Waits 1 := by
      rintro e he ⟨⟨packet, hp⟩, -⟩
      cases he.symm.trans hp
    refine .cons nofun rfl <| .cons nofun rfl <| .cons (fun _ _ => hidle rfl) rfl <| .cons nofun rfl <|
      .cons nofun rfl <| .cons nofun rfl <| .cons (fun _ _ => hidle rfl) rfl <| .cons trivial rfl <|
      .cons (fun _ h => ?_) rfl <| .cons nofun rfl trivial
    exact absurd h (by decide)
  exact ⟨_, rfl, rfl, (session_deadlock_free le_rfl _).1 _ _ hm rfl⟩

theorem session_deadlocks :
    ∃ t, Lts.run (Session.boundedStep Transport.mockCapacity nonceCiphers noUpdates) (Session.init fun _ => none)
        (Session.jamRun Transport.mockCapacity) = some t ∧
      t.Deadlocked Transport.mockCapacity nonceCiphers noUpdates :=
  Session.jamRun_deadlocks (by decide) (by decide) _

/-! ## Unauthentic input -/

/-- Bytes that are not authentic leave the session loop and its node as they were, so a run goes the same
way with any number of them put in. -/
theorem unauthentic_no_effect {σ : Type} {K : Role → Cipher} {D : UpdateDecoder} {S : Services σ}
    {peer : PeerId} :
    (∀ (s : SessionLoop σ) bytes, s.loop = .idle →
      SessionLoop.Unauthentic K s.shared.transport bytes → s.step K D S peer (.recv bytes) = some s) ∧
    ∀ (s : SessionLoop σ) acts acts', SessionLoop.Injects K D S peer s acts acts' →
      Lts.run (SessionLoop.step K D S peer) s acts' = Lts.run (SessionLoop.step K D S peer) s acts :=
  ⟨fun _ _ => SessionLoop.step_unauthentic, fun _ _ _ => SessionLoop.Injects.run_eq⟩

def noServices : Services Unit := ⟨fun _ _ => false, fun _ _ _ _ => (.ok (), ())⟩

def freshLoop : SessionLoop Unit :=
  ⟨⟨.fresh .responder none, [], .new (samplePeer 1), ()⟩, .idle, [], []⟩

/-- A ping is answered. -/
def answeredPing : List (LoopAct Unit) :=
  [.recv (firstProbe PacketType.ping 5), .handle 9, .sent (.ok ())]

/-- The same with bytes that do not decode before it, and the ping once more behind it. -/
def disturbedPing : List (LoopAct Unit) :=
  .recv [0xFF] :: answeredPing ++ [.recv (firstProbe PacketType.ping 5)]

theorem unauthentic_no_effect_replay :
    ∃ t, Lts.run (SessionLoop.step nonceCiphers noUpdates noServices (samplePeer 1)) freshLoop disturbedPing =
        some t ∧
      Lts.run (SessionLoop.step nonceCiphers noUpdates noServices (samplePeer 1)) freshLoop answeredPing =
        some t ∧
      t.effects = [.pong (Codec.u64.serialize 5)] ∧ t.sent.length = 1 := by
  have hgarbage : SessionLoop.Unauthentic nonceCiphers freshLoop.shared.transport [0xFF] := by
    rintro ⟨packet, _, _, hd, -⟩
    cases hd
  have hreplay : SessionLoop.Unauthentic nonceCiphers ⟨.responder, 1, 1, none⟩
      (firstProbe PacketType.ping 5) := by
    rintro ⟨packet, _, _, hd, -, -, hdec⟩
    have hlen : (Codec.u64.serialize 5 ++ Codec.leBytes 16 0).length < 256 ^ 8 := by decide
    have hfit : WirePacket.codec.deserialize (firstProbe PacketType.ping 5) = .ok (.sealed _ _) :=
      Codec.deserialize_serialize (WirePacket.codec_fits hlen)
    cases hfit.symm.trans hd
    cases hdec
  have hinj : SessionLoop.Injects nonceCiphers noUpdates noServices (samplePeer 1) freshLoop answeredPing
      disturbedPing := by
    refine .inject rfl hgarbage <| .keep fun _ h => ?_
    cases h
    refine .keep fun _ h => ?_
    cases h
    refine .keep fun _ h => ?_
    cases h
    exact .inject rfl hreplay .nil
  exact ⟨_, (unauthentic_no_effect.2 _ _ _ hinj).trans rfl, rfl, rfl, rfl⟩

/-! ## Latency samples -/

end OmniMesh.Sdk
