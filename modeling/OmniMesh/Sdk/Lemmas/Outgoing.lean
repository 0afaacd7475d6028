import OmniMesh.Lib.Table
import OmniMesh.Sdk.Lemmas.Node
import OmniMesh.Sdk.Lemmas.Wire
import OmniMesh.Sdk.Outgoing

/-!
# Each send hands over one packet, or none
-/

namespace OmniMesh.Sdk
open OmniMesh.Core OmniMesh.Crypto

/-! ## Sealing -/

section
variable {K : Role → Cipher} {t : NoiseTransport} {p : Bytes}

theorem encrypt_refused {e t'} (h : t.encrypt K p = (.error e, t')) :
    maxMessageLen < p.length + 16 ∨ maxNonce ≤ t.sendNonce := by
  by_contra hfits
  rw [not_or, Nat.not_lt, Nat.not_le] at hfits
  obtain ⟨c, hc⟩ := (K t.role).encrypt_ok _ _ hfits.2 hfits.1
  rw [NoiseTransport.encrypt, hc] at h
  cases h

theorem encrypt_fits {c t'} (h : t.encrypt K p = (.ok c, t')) :
    p.length + 16 ≤ maxMessageLen ∧ t.sendNonce < maxNonce := by
  obtain ⟨hc, -⟩ := NoiseTransport.encrypt_cases h
  obtain ⟨hnonce, hlen, hmax⟩ := (K t.role).encrypt_limit _ _ _ hc
  exact ⟨hlen ▸ hmax, hnonce⟩

theorem openPacket_sendNonce (bytes : Bytes) : (openPacket K t bytes).2.sendNonce = t.sendNonce := by
  have h : Opens K t bytes (openPacket K t bytes) := openPacket_opens bytes
  generalize openPacket K t bytes = r at h ⊢
  cases h with
  | refused => rfl
  | ignored => rfl
  | opened => rfl

theorem finishPacket_sendNonce (D : UpdateDecoder) (env : Env) (ty : UInt8) :
    t.sendNonce ≤ (finishPacket K D env t ty p).2.1.sendNonce := by
  have h : Finishes K D env t ty p (finishPacket K D env t ty p) := finishPacket_finishes ty p
  generalize finishPacket K D env t ty p = r at h ⊢
  cases h with
  | ponged => exact Nat.le_succ _
  | _ => exact Nat.le_refl _

end

/-- What a send has handed over, by its stage. -/
def Send.delivered (self : Send) : List (UInt8 × Bytes) :=
  match self.stage with
  | .returned (.ok ()) => [(self.sender.packetType, self.sender.plainBytes)]
  | _ => []

/-! ## Steps -/

namespace Outgoing

variable {K : Role → Cipher} {D : UpdateDecoder} {s t : Outgoing} {act : OutgoingAct} {i conn : ℕ}
  {sender : Sender}

/-- What a step can do. -/
inductive Moves (s : Outgoing) : OutgoingAct → Outgoing → Prop
  | task {act node} : s.node.step act = some node → Moves s (.task act) { s with node }
  | send {peer conn sender} : s.node.sessions.lookup peer = some conn →
      Moves s (.send peer sender) (s.addSend conn sender)
  | refused {i conn sender e} : s.sends[i]? = some ⟨conn, sender, .sealing⟩ →
      maxMessageLen < sender.plainBytes.length + 16 ∨ maxNonce ≤ (s.outboxes conn).transport.sendNonce →
      Moves s (.encrypt i) (s.setSend i ⟨conn, sender, .returned (.error e)⟩)
  | sealed {i conn sender transport} {packet : Packet} : s.sends[i]? = some ⟨conn, sender, .sealing⟩ →
      sender.plainBytes.length + 16 ≤ maxMessageLen →
      packet.contents = (sender.packetType, sender.plainBytes) →
      (s.outboxes conn).transport.sendNonce < maxNonce →
      (s.outboxes conn).transport.sendNonce ≤ transport.sendNonce →
      Moves s (.encrypt i) ((s.setOutbox conn { s.outboxes conn with transport }).setSend i
        ⟨conn, sender, .handing packet⟩)
  | closed {i conn sender packet e} : s.sends[i]? = some ⟨conn, sender, .handing packet⟩ →
      s.Closed conn → Moves s (.enqueue i) (s.setSend i ⟨conn, sender, .returned (.error e)⟩)
  | put {i conn sender packet queue} : s.sends[i]? = some ⟨conn, sender, .handing packet⟩ →
      ¬ s.Closed conn →
      Moves s (.enqueue i) ((s.setOutbox conn ⟨(s.outboxes conn).transport, queue,
        (s.outboxes conn).put ++ [(i, packet)]⟩).setSend i ⟨conn, sender, .returned (.ok ())⟩)
  | loop {act conn outbox} : outbox.put = (s.outboxes conn).put →
      (s.outboxes conn).transport.sendNonce ≤ outbox.transport.sendNonce →
      Moves s act (s.setOutbox conn outbox)

theorem encrypt_moves (hi : s.sends[i]? = some ⟨conn, sender, .sealing⟩) :
    s.Moves (.encrypt i) (s.encrypt K i conn sender) := by
  unfold encrypt
  dsimp only
  split
  · rename_i e transport he
    rw [NoiseTransport.encrypt_error he, setOutbox, Function.update_eq_self]
    exact .refused hi (encrypt_refused he)
  · rename_i c transport hc
    refine .sealed hi (encrypt_fits hc).1 rfl (encrypt_fits hc).2 ?_
    obtain ⟨-, rfl⟩ := NoiseTransport.encrypt_cases hc
    exact Nat.le_succ _

theorem step_moves (hs : s.step K D act = some t) : s.Moves act t := by
  cases act with
  | task act =>
      obtain ⟨node, hn, rfl⟩ := Option.map_eq_some_iff.mp hs
      exact .task hn
  | send peer sender =>
      obtain ⟨conn, hl, rfl⟩ := Option.map_eq_some_iff.mp hs
      exact .send hl
  | encrypt i =>
      simp only [step] at hs
      split at hs
      · rename_i hi
        cases hs
        exact encrypt_moves hi
      · cases hs
  | enqueue i =>
      simp only [step] at hs
      split at hs
      · rename_i hi
        split at hs
        · rename_i hclosed
          cases hs
          exact .closed hi hclosed
        · rename_i hopen
          split at hs
          · cases hs
            exact .put hi hopen
          · cases hs
      · cases hs
  | pop conn =>
      simp only [step] at hs
      split at hs
      · cases hs
        exact .loop rfl (Nat.le_refl _)
      · cases hs
  | decrypt conn bytes =>
      cases hs
      exact .loop rfl (openPacket_sendNonce bytes).ge
  | handle conn env ty p =>
      cases hs
      exact .loop rfl (finishPacket_sendNonce D env ty)

theorem send_of_step {w : Send} (hs : s.step K D act = some t) (hi : s.sends[i]? = some w) :
    ∃ w', t.sends[i]? = some w' ∧ w'.conn = w.conn ∧ w'.sender = w.sender := by
  have hset : ∀ {j : ℕ} {v v' : Send}, s.sends[j]? = some v → v'.conn = v.conn → v'.sender = v.sender →
      ∃ w', (s.sends.set j v')[i]? = some w' ∧ w'.conn = w.conn ∧ w'.sender = w.sender := by
    intro j v v' hj hconn hsender
    by_cases hij : j = i
    · subst hij
      rw [hi] at hj
      cases hj
      exact ⟨v', Table.getElem?_set_of_some hi, hconn, hsender⟩
    · exact ⟨w, (List.getElem?_set_ne hij).trans hi, rfl, rfl⟩
  cases step_moves hs with
  | task _ => exact ⟨w, hi, rfl, rfl⟩
  | send _ => exact ⟨w, Table.getElem?_concat_of_some hi, rfl, rfl⟩
  | refused hj _ => exact hset hj rfl rfl
  | sealed hj _ _ _ _ => exact hset hj rfl rfl
  | closed hj _ => exact hset hj rfl rfl
  | put hj _ => exact hset hj rfl rfl
  | loop _ _ => exact ⟨w, hi, rfl, rfl⟩

/-- Only the tasks of the node change the map and the stages of connections. -/
theorem node_of_step (hs : s.step K D act = some t) :
    t.node = s.node ∨ ∃ act', s.node.step act' = some t.node := by
  cases step_moves hs with
  | task hn => exact .inr ⟨_, hn⟩
  | _ => exact .inl rfl

theorem past_of_step (hs : s.step K D act = some t) (h : s.node.Past conn) :
    t.node.Past conn ∧ ∀ peer, t.node.sessions.lookup peer = some conn →
      s.node.sessions.lookup peer = some conn := by
  rcases node_of_step hs with heq | ⟨act', hn⟩
  · rw [heq]
    exact ⟨h, fun _ hl => hl⟩
  · exact h.step hn

theorem owned_of_step (hs : s.step K D act = some t) (h : s.node.Owned) : t.node.Owned := by
  rcases node_of_step hs with heq | ⟨act', hn⟩
  · rwa [heq]
  · exact h.step hn

theorem sends_length_of_step (hs : s.step K D act = some t) : s.sends.length ≤ t.sends.length := by
  cases step_moves hs with
  | send _ => simp [addSend]
  | task _ => exact Nat.le_refl _
  | loop _ _ => exact Nat.le_refl _
  | refused _ _ => simp [setSend]
  | sealed _ _ _ _ _ => simp [setSend, setOutbox]
  | closed _ _ => simp [setSend]
  | put _ _ => simp [setSend, setOutbox]

theorem returned_of_step {result : Result Unit} (hs : s.step K D act = some t)
    (hi : s.sends[i]? = some ⟨conn, sender, .returned result⟩) :
    t.sends[i]? = some ⟨conn, sender, .returned result⟩ := by
  have hset : ∀ {j : ℕ} {v v' : Send}, s.sends[j]? = some v → (∀ r, v.stage ≠ .returned r) →
      (s.sends.set j v')[i]? = some ⟨conn, sender, .returned result⟩ := by
    intro j v v' hj hstage
    rw [List.getElem?_set_ne]
    · exact hi
    · rintro rfl
      rw [hi] at hj
      cases hj
      exact hstage result rfl
  cases step_moves hs with
  | task _ => exact hi
  | send _ => exact Table.getElem?_concat_of_some hi
  | refused hj _ => exact hset hj (by simp)
  | sealed hj _ _ _ _ => exact hset hj (by simp)
  | closed hj _ => exact hset hj (by simp)
  | put hj _ => exact hset hj (by simp)
  | loop _ _ => exact hi

/-- The nonces of the session are used up, and no send from number `base` on has sealed a packet. -/
structure Exhausted (base conn : ℕ) (s : Outgoing) : Prop where
  nonces : maxNonce ≤ (s.outboxes conn).transport.sendNonce
  unsealed : ∀ (i : ℕ) (w : Send), base ≤ i → s.sends[i]? = some w → w.conn = conn →
    w.stage = .sealing ∨ ∃ e, w.stage = .returned (.error e)

/-! ## What the sends have handed over -/

/-- A packet is sealed only within the limit, and a send fails only beyond it, when the nonces are used
up, or when the loop of the session has ended. -/
def Sound (s : Outgoing) (w : Send) : Prop :=
  match w.stage with
  | .sealing => True
  | .handing packet => packet.contents = (w.sender.packetType, w.sender.plainBytes) ∧
      w.sender.plainBytes.length + 16 ≤ maxMessageLen
  | .returned (.ok ()) => w.sender.plainBytes.length + 16 ≤ maxMessageLen
  | .returned (.error _) => maxMessageLen < w.sender.plainBytes.length + 16 ∨
      maxNonce ≤ (s.outboxes w.conn).transport.sendNonce ∨ s.Closed w.conn

/-- Every packet on a write queue comes from its send, and none comes twice. -/
structure Accounts (s : Outgoing) : Prop where
  put : ∀ (i : ℕ) (w : Send), s.sends[i]? = some w → ∀ conn,
    (s.outboxes conn).putBy i = if conn = w.conn then w.delivered else []
  new : ∀ i, s.sends.length ≤ i → ∀ conn, (s.outboxes conn).putBy i = []
  sound : ∀ (i : ℕ) (w : Send), s.sends[i]? = some w → s.Sound w

theorem init_accounts (transports : ℕ → NoiseTransport) : Accounts (init transports) where
  put _ _ hi := by cases hi
  new _ _ _ := rfl
  sound _ _ hi := by cases hi

theorem Sound.mono {w : Send} (h : s.Sound w)
    (hnonce : (s.outboxes w.conn).transport.sendNonce ≤ (t.outboxes w.conn).transport.sendNonce)
    (hclosed : s.Closed w.conn → t.Closed w.conn) : t.Sound w := by
  obtain ⟨conn, sender, stage⟩ := w
  cases stage with
  | sealing => exact h
  | handing => exact h
  | returned result =>
      cases result with
      | ok => exact h
      | error e =>
          rcases h with hlong | hused | hc
          · exact .inl hlong
          · exact .inr (.inl (hused.trans hnonce))
          · exact .inr (.inr (hclosed hc))

/-- A loop that has ended has ended for good. -/
theorem closed_of_step {act : NodeAct} {node : Node} (hs : s.node.step act = some node)
    (h : s.Closed conn) : Closed { s with node } conn := by
  have hset : ∀ {conn'} {stage stage' : Stage}, s.node.stages.lookup conn' = some stage →
      stage ≠ .ended → (s.node.stages.insert conn' stage').lookup conn = some .ended := by
    intro conn' stage stage' hl hne
    rw [AList.lookup_insert_ne]
    · exact h
    · rintro rfl
      rw [h] at hl
      cases hl
      exact hne rfl
  cases Node.step_moves hs with
  | @opened conn' hl =>
      simp only [Closed, Node.setStage]
      rw [AList.lookup_insert_ne]
      · exact h
      · rintro rfl
        rw [h] at hl
        cases hl
  | shaken hl => exact hset hl (by simp)
  | failed hl => exact hset hl (by simp)
  | insert hl => exact hset hl (by simp)
  | start hl => exact hset hl (by simp)
  | exit hl _ => exact hset hl (by simp)
  | signal _ =>
      simp only [Closed, Node.lookup_signalAll]
      rw [h]
      rfl
  | clear _ => exact h

/-- The number of sent packets only grows and a closed channel stays closed. -/
theorem monotone_of_step (hs : s.step K D act = some t) (conn : ℕ) :
    (s.outboxes conn).transport.sendNonce ≤ (t.outboxes conn).transport.sendNonce ∧
      (s.Closed conn → t.Closed conn) := by
  have hupdate : ∀ {conn'} {outbox : Outbox},
      (s.outboxes conn').transport.sendNonce ≤ outbox.transport.sendNonce →
      (s.outboxes conn).transport.sendNonce ≤
        (Function.update s.outboxes conn' outbox conn).transport.sendNonce := by
    intro conn' outbox hle
    by_cases hc : conn = conn'
    · subst hc
      rw [Function.update_self]
      exact hle
    · rw [Function.update_of_ne hc]
  cases step_moves hs with
  | task hn => exact ⟨Nat.le_refl _, closed_of_step hn⟩
  | send _ => exact ⟨Nat.le_refl _, id⟩
  | refused _ _ => exact ⟨Nat.le_refl _, id⟩
  | sealed _ _ _ _ hle => exact ⟨hupdate hle, id⟩
  | closed _ _ => exact ⟨Nat.le_refl _, id⟩
  | put _ _ => exact ⟨hupdate (Nat.le_refl _), id⟩
  | loop _ hle => exact ⟨hupdate hle, id⟩

theorem Sound.step {w : Send} (h : s.Sound w) (hs : s.step K D act = some t) : t.Sound w :=
  h.mono (monotone_of_step hs w.conn).1 (monotone_of_step hs w.conn).2

/-- One send moves on, and what it hands over is all that is new on the queues. -/
theorem Accounts.advance {w w' : Send} (h : Accounts s) (hi : s.sends[i]? = some w)
    (hsends : t.sends = s.sends.set i w') (hconn : w'.conn = w.conn)
    (hput : ∀ conn j, (t.outboxes conn).putBy j =
      if conn = w.conn ∧ j = i then w'.delivered else (s.outboxes conn).putBy j)
    (hw : t.Sound w') (hmono : ∀ w, s.Sound w → t.Sound w) : Accounts t where
  put j v hj conn := by
    rw [hput]
    rw [hsends] at hj
    rcases Table.getElem?_set_some hj with ⟨rfl, rfl⟩ | ⟨hij, hj⟩
    · by_cases hc : conn = w.conn
      · simp [hc, hconn]
      · simp only [hc, false_and, if_false, hconn]
        rw [h.put i w hi conn, if_neg hc]
    · simp only [Ne.symm hij, and_false, if_false]
      exact h.put j v hj conn
  new j hj conn := by
    rw [hsends, List.length_set] at hj
    have hij : j ≠ i := by
      rintro rfl
      exact absurd (List.getElem?_eq_some_iff.mp hi).1 (by omega)
    rw [hput, if_neg (fun hc => hij hc.2)]
    exact h.new j hj conn
  sound j v hj := by
    rw [hsends] at hj
    rcases Table.getElem?_set_some hj with ⟨rfl, rfl⟩ | ⟨-, hj⟩
    · exact hw
    · exact hmono v (h.sound j v hj)

/-- A send that hands nothing over. -/
theorem Accounts.quiet {w w' : Send} (h : Accounts s) (hi : s.sends[i]? = some w)
    (hsends : t.sends = s.sends.set i w') (hconn : w'.conn = w.conn) (hw₀ : w.delivered = [])
    (hw₁ : w'.delivered = [])
    (hput : ∀ conn j, (t.outboxes conn).putBy j = (s.outboxes conn).putBy j)
    (hw : t.Sound w') (hmono : ∀ w, s.Sound w → t.Sound w) : Accounts t := by
  refine h.advance hi hsends hconn (fun conn j => ?_) hw hmono
  rw [hput, hw₁]
  split
  · rename_i hc
    rw [hc.2, h.put i w hi conn, hw₀, ite_self]
  · rfl

theorem putBy_update {outbox : Outbox} (hput : outbox.put = (s.outboxes conn).put) (conn' j : ℕ) :
    (Function.update s.outboxes conn outbox conn').putBy j = (s.outboxes conn').putBy j := by
  by_cases hc : conn' = conn
  · subst hc
    rw [Function.update_self, Outbox.putBy, hput]
    rfl
  · rw [Function.update_of_ne hc]

theorem Accounts.keep (h : Accounts s) (hsends : t.sends = s.sends)
    (hput : ∀ conn j, (t.outboxes conn).putBy j = (s.outboxes conn).putBy j)
    (hmono : ∀ w, s.Sound w → t.Sound w) : Accounts t where
  put j v hj conn := by
    rw [hput]
    exact h.put j v (hsends ▸ hj) conn
  new j hj conn := by
    rw [hput]
    exact h.new j (hsends ▸ hj) conn
  sound j v hj := hmono v (h.sound j v (hsends ▸ hj))

theorem Accounts.addSend (h : Accounts s) : Accounts (s.addSend conn sender) where
  put j v hj conn' := by
    rcases Table.getElem?_concat_some hj with hj | ⟨rfl, rfl⟩
    · exact h.put j v hj conn'
    · exact (h.new _ (Nat.le_refl _) conn').trans (ite_self _).symm
  new j hj conn' := h.new j (by simp [Outgoing.addSend] at hj; omega) conn'
  sound j v hj := by
    rcases Table.getElem?_concat_some hj with hj | ⟨-, rfl⟩
    · exact h.sound j v hj
    · trivial

theorem Accounts.step (h : Accounts s) (hs : s.step K D act = some t) : Accounts t := by
  have hmono : ∀ w, s.Sound w → t.Sound w := fun w hw => hw.step hs
  cases step_moves hs with
  | task _ => exact h.keep rfl (fun _ _ => rfl) hmono
  | send _ => exact h.addSend
  | refused hi hwhy =>
      refine h.quiet hi rfl rfl rfl rfl (fun _ _ => rfl) ?_ hmono
      exact hwhy.imp_right .inl
  | sealed hi hfits hcontents _ _ =>
      exact h.quiet hi rfl rfl rfl rfl (putBy_update rfl) ⟨hcontents, hfits⟩ hmono
  | closed hi hc => exact h.quiet hi rfl rfl rfl rfl (fun _ _ => rfl) (.inr (.inr hc)) hmono
  | @put i conn sender packet queue hi _ =>
      obtain ⟨hcontents, hfits⟩ := h.sound _ _ hi
      refine h.advance hi rfl rfl (fun conn' j => ?_) hfits hmono
      have hnone : (s.outboxes conn).putBy i = [] := (h.put i _ hi conn).trans (ite_self _)
      simp only [setSend, setOutbox]
      by_cases hc : conn' = conn
      · subst hc
        rw [Function.update_self]
        by_cases hij : j = i
        · subst hij
          simp only [Outbox.putBy] at hnone
          simp [Outbox.putBy, Send.delivered, hcontents, List.filter_append, hnone]
        · simp [Outbox.putBy, hij, Ne.symm hij, List.filter_append]
      · simp [hc]
  | loop hput _ => exact h.keep rfl (putBy_update hput) hmono

section
variable {result : Result Unit}

end

/-! ## Sessions without nonces -/

theorem Exhausted.addSend {base conn' : ℕ} (h : Exhausted base conn s) :
    Exhausted base conn (s.addSend conn' sender) where
  nonces := h.nonces
  unsealed i w hbase hi hconn := by
    rcases Table.getElem?_concat_some hi with hi | ⟨-, rfl⟩
    · exact h.unsealed i w hbase hi hconn
    · exact .inl rfl

theorem Exhausted.step {base : ℕ} (h : Exhausted base conn s) (hs : s.step K D act = some t) :
    Exhausted base conn t := by
  refine ⟨h.nonces.trans (monotone_of_step hs conn).1, fun i w hbase hi hconn => ?_⟩
  cases step_moves hs with
  | task _ => exact h.unsealed i w hbase hi hconn
  | loop _ _ => exact h.unsealed i w hbase hi hconn
  | send _ => exact h.addSend.unsealed i w hbase hi hconn
  | refused _ _ =>
      rcases Table.getElem?_set_some hi with ⟨-, rfl⟩ | ⟨-, hold⟩
      · exact .inr ⟨_, rfl⟩
      · exact h.unsealed i w hbase hold hconn
  | closed _ _ =>
      rcases Table.getElem?_set_some hi with ⟨-, rfl⟩ | ⟨-, hold⟩
      · exact .inr ⟨_, rfl⟩
      · exact h.unsealed i w hbase hold hconn
  | sealed _ _ _ hlt _ =>
      rcases Table.getElem?_set_some hi with ⟨-, rfl⟩ | ⟨-, hold⟩
      · cases hconn
        exact absurd hlt (Nat.not_lt.mpr h.nonces)
      · exact h.unsealed i w hbase hold hconn
  | put hj _ =>
      rcases Table.getElem?_set_some hi with ⟨rfl, rfl⟩ | ⟨-, hold⟩
      · rcases h.unsealed _ _ hbase hj hconn with hstage | ⟨e, hstage⟩
        · cases hstage
        · cases hstage
      · exact h.unsealed i w hbase hold hconn

/-! ## A send goes on to its end -/

end Outgoing

end OmniMesh.Sdk
