import OmniMesh.Sdk.Lemmas.Wire
import OmniMesh.Sdk.Session

/-!
# Nonce order on one session

The packets of one direction are sealed under consecutive nonces. `Ordered` follows them from the
sealing to the hand-over to the loop, `Linked` from the wire to the other end.
-/

namespace OmniMesh.Sdk
open OmniMesh.Core OmniMesh.Crypto

variable {K : Role → Cipher} {D : UpdateDecoder} {r : Role}

/-- The bytes are what the sender's cipher made of the contents under the nonce. -/
def Packet.Genuine (K : Role → Cipher) (r : Role) (p : Packet) : Prop :=
  PacketType.Handled p.packetType ∧ ∃ c, (K r).encrypt p.nonce p.plain = .ok c ∧
    p.bytes = WirePacket.codec.serialize (.sealed p.packetType c)

/-! ## From sealing to the loop -/

/-- The packets `handed` to the loop carry the nonces from zero on, and every later nonce below `next`
is that of a packet some task still holds or of one that was dropped. -/
structure Ordered (K : Role → Cipher) (r : Role) (handed : List Packet) (held : Map Nat Packet)
    (dropped : List Packet) (next : Nat) : Prop where
  genuine : ∀ p ∈ handed, p.Genuine K r
  nonces : handed.map Packet.nonce = List.range handed.length
  pending : ∀ task p, held.lookup task = some p →
    p.Genuine K r ∧ handed.length ≤ p.nonce ∧ p.nonce < next
  distinct : ∀ task task' p p', held.lookup task = some p → held.lookup task' = some p' →
    p.nonce = p'.nonce → task = task'
  le : handed.length ≤ next
  covered : ∀ n, handed.length ≤ n → n < next →
    (∃ task p, held.lookup task = some p ∧ p.nonce = n) ∨ ∃ p ∈ dropped, p.nonce = n

theorem lookup_erase_some {held : Map Nat Packet} {task task' p}
    (h : (held.erase task).lookup task' = some p) : task' ≠ task ∧ held.lookup task' = some p := by
  by_cases ht : task' = task
  · subst ht
    rw [AList.lookup_erase] at h
    cases h
  · rw [AList.lookup_erase_ne ht] at h
    exact ⟨ht, h⟩

namespace Ordered

variable {handed dropped : List Packet} {held : Map Nat Packet} {next : Nat}

theorem nonce_getElem {i : Nat} (h : Ordered K r handed held dropped next) (hi : i < handed.length) :
    handed[i].nonce = i := by
  have hn := congrArg (fun l => l[i]?) h.nonces
  simp only [List.getElem?_map, List.getElem?_eq_getElem hi, Option.map_some,
    List.getElem?_range hi] at hn
  exact Option.some.inj hn

theorem seal_packet {task p} (h : Ordered K r handed held dropped next) (hg : p.Genuine K r)
    (hn : p.nonce = next) (hfree : task ∉ held) :
    Ordered K r handed (held.insert task p) dropped (next + 1) where
  genuine := h.genuine
  nonces := h.nonces
  pending := by
    intro task' p' hp
    by_cases ht : task' = task
    · subst ht
      rw [AList.lookup_insert] at hp
      cases hp
      exact ⟨hg, hn ▸ h.le, by omega⟩
    · rw [AList.lookup_insert_ne ht] at hp
      obtain ⟨hg', hle, hlt⟩ := h.pending task' p' hp
      exact ⟨hg', hle, by omega⟩
  distinct := by
    intro task₁ task₂ p₁ p₂ h₁ h₂ heq
    by_cases ht₁ : task₁ = task <;> by_cases ht₂ : task₂ = task
    · rw [ht₁, ht₂]
    · rw [ht₁, AList.lookup_insert] at h₁
      rw [AList.lookup_insert_ne ht₂] at h₂
      cases h₁
      have := (h.pending _ _ h₂).2.2
      omega
    · rw [AList.lookup_insert_ne ht₁] at h₁
      rw [ht₂, AList.lookup_insert] at h₂
      cases h₂
      have := (h.pending _ _ h₁).2.2
      omega
    · rw [AList.lookup_insert_ne ht₁] at h₁
      rw [AList.lookup_insert_ne ht₂] at h₂
      exact h.distinct _ _ _ _ h₁ h₂ heq
  le := Nat.le_succ_of_le h.le
  covered := by
    intro n hn₁ hn₂
    rcases Nat.lt_succ_iff_lt_or_eq.mp hn₂ with hlt | rfl
    · rcases h.covered n hn₁ hlt with ⟨task', p', hp, rfl⟩ | hd
      · have ht : task' ≠ task := by
          rintro rfl
          exact hfree (AList.lookup_isSome.mp (by rw [hp]; rfl))
        exact .inl ⟨task', p', by rw [AList.lookup_insert_ne ht]; exact hp, rfl⟩
      · exact .inr hd
    · exact .inl ⟨task, p, AList.lookup_insert _, hn⟩

theorem hand {p} (h : Ordered K r handed held dropped next) (hg : p.Genuine K r)
    (hn : p.nonce = handed.length) {held' : Map Nat Packet} {next' : Nat}
    (hlt : handed.length < next') (hle : next ≤ next')
    (hheld : ∀ task q, held'.lookup task = some q → held.lookup task = some q ∧ q.nonce ≠ p.nonce)
    (hcov : ∀ n, handed.length < n → n < next' →
      (∃ task q, held'.lookup task = some q ∧ q.nonce = n) ∨ ∃ q ∈ dropped, q.nonce = n) :
    Ordered K r (handed ++ [p]) held' dropped next' where
  genuine := by
    intro q hq
    rcases List.mem_append.mp hq with hq | hq
    · exact h.genuine q hq
    · rw [List.mem_singleton.mp hq]
      exact hg
  nonces := by
    rw [List.map_append, h.nonces, List.length_append, List.length_singleton, List.range_succ]
    simp [hn]
  pending := by
    intro task q hq
    obtain ⟨hq, hne⟩ := hheld task q hq
    obtain ⟨hg', hge, hlt'⟩ := h.pending task q hq
    refine ⟨hg', ?_, by omega⟩
    rw [List.length_append, List.length_singleton]
    omega
  distinct _ _ _ _ h₁ h₂ := h.distinct _ _ _ _ (hheld _ _ h₁).1 (hheld _ _ h₂).1
  le := by
    rw [List.length_append, List.length_singleton]
    omega
  covered := by
    intro n hn₁ hn₂
    rw [List.length_append, List.length_singleton] at hn₁
    exact hcov n hn₁ hn₂

/-- The oldest packet held, when none was dropped, is the next to be handed over. -/
theorem enqueue {task p} (h : Ordered K r handed held dropped next) (hp : held.lookup task = some p)
    (hd : dropped = [])
    (holdest : ∀ task' p', held.lookup task' = some p' → p.nonce ≤ p'.nonce) :
    Ordered K r (handed ++ [p]) (held.erase task) dropped next := by
  obtain ⟨hg, hge, hlt⟩ := h.pending task p hp
  have hn : p.nonce = handed.length := by
    rcases h.covered handed.length le_rfl (by omega) with ⟨task', p', hp', hn'⟩ | ⟨q, hq, _⟩
    · have := holdest task' p' hp'
      omega
    · rw [hd] at hq
      cases hq
  refine h.hand hg hn (by omega) le_rfl ?_ ?_
  · intro task' q hq
    obtain ⟨ht, hq⟩ := lookup_erase_some hq
    exact ⟨hq, fun he => ht (h.distinct _ _ _ _ hq hp he)⟩
  · intro n hn₁ hn₂
    rcases h.covered n hn₁.le hn₂ with ⟨task', q, hq, rfl⟩ | hd'
    · have ht : task' ≠ task := by
        rintro rfl
        rw [hp] at hq
        cases hq
        omega
      exact .inl ⟨task', q, by rw [AList.lookup_erase_ne ht]; exact hq, rfl⟩
    · exact .inr hd'

theorem drop {task p} (h : Ordered K r handed held dropped next) (hp : held.lookup task = some p) :
    Ordered K r handed (held.erase task) (dropped ++ [p]) next where
  genuine := h.genuine
  nonces := h.nonces
  pending := by
    intro task' q hq
    exact h.pending task' q (lookup_erase_some hq).2
  distinct _ _ _ _ h₁ h₂ := h.distinct _ _ _ _ (lookup_erase_some h₁).2 (lookup_erase_some h₂).2
  le := h.le
  covered := by
    intro n hn₁ hn₂
    rcases h.covered n hn₁ hn₂ with ⟨task', q, hq, rfl⟩ | ⟨q, hq, rfl⟩
    · by_cases ht : task' = task
      · subst ht
        rw [hp] at hq
        cases hq
        exact .inr ⟨p, List.mem_append_right _ (List.mem_singleton_self p), rfl⟩
      · exact .inl ⟨task', q, by rw [AList.lookup_erase_ne ht]; exact hq, rfl⟩
    · exact .inr ⟨q, List.mem_append_left _ hq, rfl⟩

/-- With nothing held, dropped or queued up in front, a packet sealed now is the next one. -/
theorem pong {p} (h : Ordered K r handed held dropped next) (hh : held = ∅) (hd : dropped = [])
    (hg : p.Genuine K r) (hn : p.nonce = next) : Ordered K r (handed ++ [p]) held dropped (next + 1) := by
  have hnone : ∀ n, handed.length ≤ n → ¬ n < next := by
    intro n hn₁ hn₂
    rcases h.covered n hn₁ hn₂ with ⟨task, q, hq, _⟩ | ⟨q, hq, _⟩
    · rw [hh, AList.lookup_empty] at hq
      cases hq
    · rw [hd] at hq
      cases hq
  have hnext : next = handed.length := le_antisymm (not_lt.mp (hnone _ le_rfl)) h.le
  refine h.hand hg (hn.trans hnext) (by omega) (Nat.le_succ next) ?_ ?_
  · intro task q hq
    rw [hh, AList.lookup_empty] at hq
    cases hq
  · intro n hn₁ hn₂
    omega

end Ordered

/-! ## The steps of one end -/

def Loop.packet : Loop → List Packet
  | .sending p => [p]
  | _ => []

namespace End

/-- The packets handed to the loop so far, in the order in which it writes them. -/
def handed (e : End) : List Packet := e.written ++ e.loop.packet ++ e.queue

def InOrder (K : Role → Cipher) (r : Role) (e : End) : Prop :=
  e.transport.role = r ∧ Ordered K r e.handed e.held e.dropped e.transport.sendNonce

/-- What a step of the own tasks leaves alone, and what it may write. -/
structure Frame (e e' : End) : Prop where
  role : e'.transport.role = e.transport.role
  recvNonce : e'.transport.recvNonce = e.transport.recvNonce
  opened : e'.opened = e.opened
  failed : e'.failed = e.failed
  output : (e'.written = e.written ∧ e'.wire = e.wire) ∨
    ∃ p, e'.written = e.written ++ [p] ∧ e'.wire = e.wire ++ [p]

structure RecvFrame (e e' : End) : Prop where
  role : e'.transport.role = e.transport.role
  sendNonce : e'.transport.sendNonce = e.transport.sendNonce
  held : e'.held = e.held
  dropped : e'.dropped = e.dropped
  handed : e'.handed = e.handed
  written : e'.written = e.written
  wire : e'.wire = e.wire

variable {e e' : End}

theorem recvFrame_of_recv {bytes} (h : e.recv K bytes = some e') : RecvFrame e e' := by
  unfold recv at h
  split at h
  · rename_i hidle
    have ho := openPacket_opens (K := K) (t := e.transport) bytes
    generalize openPacket K e.transport bytes = out at h ho
    cases ho <;> cases h <;> exact ⟨rfl, rfl, rfl, rfl, by simp [End.handed, hidle, Loop.packet], rfl, rfl⟩
  · cases h

theorem InOrder.recv (h : InOrder K r e) (hf : RecvFrame e e') : InOrder K r e' := by
  obtain ⟨hrole, hn, hheld, hd, hh, -, -⟩ := hf
  refine ⟨hrole.trans h.1, ?_⟩
  rw [hn, hheld, hd, hh]
  exact h.2

/-- What the own tasks of an end can do. -/
inductive Moves (K : Role → Cipher) (e : End) : EndAct → End → Prop
  | refused {task sender} : Moves K e (.encrypt task sender) e
  | sealed {task sender c} : task ∉ e.held →
      (K e.transport.role).encrypt e.transport.sendNonce sender.plainBytes = .ok c →
      Moves K e (.encrypt task sender)
        { e with
          transport := { e.transport with sendNonce := e.transport.sendNonce + 1 }
          held := e.held.insert task ⟨e.transport.sendNonce, sender.packetType, sender.plainBytes,
            WirePacket.codec.serialize (.sealed sender.packetType c)⟩ }
  | enqueued {task p} : e.held.lookup task = some p →
      Moves K e (.enqueue task) { e with held := e.held.erase task, queue := e.queue ++ [p] }
  | cancelled {task p} : e.held.lookup task = some p →
      Moves K e (.cancel task) { e with held := e.held.erase task, dropped := e.dropped ++ [p] }
  | popped {p queue} : e.loop = .idle → e.queue = p :: queue →
      Moves K e .pop { e with loop := .sending p, queue }
  | wrote {p} : e.loop = .sending p →
      Moves K e .write { e with loop := .idle, wire := e.wire ++ [p], written := e.written ++ [p] }
  | finished {env ty p} : e.loop = .handling ty p → Moves K e (.handle env) { e with loop := .idle }
  | replied {env p c} : e.loop = .handling PacketType.ping p →
      (K e.transport.role).encrypt e.transport.sendNonce p = .ok c →
      Moves K e (.handle env)
        { e with
          transport := { e.transport with sendNonce := e.transport.sendNonce + 1 }
          loop := .sending ⟨e.transport.sendNonce, PacketType.pong, p,
            WirePacket.codec.serialize (.sealed PacketType.pong c)⟩ }

theorem step_moves {act} (h : e.step K D act = some e') : Moves K e act e' := by
  cases act with
  | encrypt task sender =>
      simp only [step] at h
      split at h
      · cases h
      · rename_i hfree
        split at h
        · rename_i err t ht
          cases h
          rw [NoiseTransport.encrypt_error ht]
          exact .refused
        · rename_i c t hc
          obtain ⟨hseal, rfl⟩ := NoiseTransport.encrypt_cases hc
          cases h
          exact .sealed hfree hseal
  | enqueue task =>
      simp only [step] at h
      split at h
      · cases h
      · rename_i p hp
        split at h <;> cases h
        exact .enqueued hp
  | cancel task =>
      simp only [step] at h
      split at h
      · cases h
      · rename_i p hp
        cases h
        exact .cancelled hp
  | pop =>
      simp only [step] at h
      split at h
      · rename_i p queue hl hq
        cases h
        exact .popped hl hq
      · cases h
  | write =>
      simp only [step] at h
      split at h
      · rename_i p hl
        cases h
        exact .wrote hl
      · cases h
  | handle env =>
      simp only [step] at h
      split at h
      · rename_i ty p hl
        have hf : Finishes K D env e.transport ty p _ := finishPacket_finishes ty p
        generalize finishPacket K D env e.transport ty p = out at h hf
        cases hf with
        | ponged hty hc =>
            cases h
            exact .replied (hty ▸ hl) hc
        | _ =>
            cases h
            exact .finished hl
      · cases h

theorem frame_of_step {act} (h : e.step K D act = some e') : Frame e e' := by
  cases step_moves h with
  | wrote hl => exact ⟨rfl, rfl, rfl, rfl, .inr ⟨_, rfl, rfl⟩⟩
  | _ => exact ⟨rfl, rfl, rfl, rfl, .inl ⟨rfl, rfl⟩⟩

theorem inTurn_enqueue_only {task p} (hd : e.dropped = [])
    (hh : e.held = (∅ : Map Nat Packet).insert task p) : e.InTurn (.enqueue task) := by
  refine ⟨hd, fun q hq task' q' hq' => ?_⟩
  rw [hh] at hq hq'
  rw [AList.lookup_insert] at hq
  by_cases ht : task' = task
  · rw [ht, AList.lookup_insert] at hq'
    cases hq
    cases hq'
    exact le_rfl
  · rw [AList.lookup_insert_ne ht, AList.lookup_empty] at hq'
    cases hq'

theorem InOrder.step {act} (h : InOrder K r e) (hturn : e.InTurn act)
    (hs : e.step K D act = some e') : InOrder K r e' := by
  obtain ⟨hrole, ho⟩ := h
  refine ⟨(frame_of_step hs).role.trans hrole, ?_⟩
  cases step_moves hs with
  | refused => exact ho
  | @sealed task sender c hfree hc =>
      rw [hrole] at hc
      exact ho.seal_packet ⟨sender.handled, c, hc, rfl⟩ rfl hfree
  | @enqueued task p hp =>
      have hq := ho.enqueue hp hturn.1 (hturn.2 p hp)
      rwa [handed, List.append_assoc] at hq
  | cancelled hp => exact ho.drop hp
  | popped hl hq =>
      rw [handed, hl, hq] at ho
      simpa [handed, Loop.packet] using ho
  | wrote hl =>
      rw [handed, hl] at ho
      simpa [handed, Loop.packet] using ho
  | finished hl =>
      rw [handed, hl] at ho
      exact ho
  | @replied env p c hl hc =>
      simp only [InTurn, hl] at hturn
      obtain ⟨hq, hheld, hd⟩ := hturn trivial
      rw [hrole] at hc
      have hg : Packet.Genuine K r ⟨e.transport.sendNonce, PacketType.pong, p,
          WirePacket.codec.serialize (.sealed PacketType.pong c)⟩ :=
        ⟨.tail _ (.tail _ (.tail _ (.head _))), c, hc, rfl⟩
      have hp := ho.pong hheld hd hg rfl
      rw [handed, hl, hq] at hp
      simpa [handed, Loop.packet, hq] using hp

end End

/-! ## From the wire to the other end -/

/-- The receiver has opened the first packets written, and the wire holds the others. -/
structure Linked (s o : End) : Prop where
  opened : o.opened = (s.written.take o.opened.length).map Packet.contents
  wire : s.wire = s.written.drop o.opened.length
  recvNonce : o.transport.recvNonce = o.opened.length
  failed : o.failed = []

namespace Linked

variable {s s' o o' : End}

theorem opened_length_le (h : Linked s o) : o.opened.length ≤ s.written.length := by
  have := congrArg List.length h.opened
  rw [List.length_map, List.length_take] at this
  omega

theorem receiver (h : Linked s o) (hf : o.Frame o') : Linked s o' := by
  obtain ⟨-, hn, ho, hfail, -⟩ := hf
  exact ⟨by rw [ho]; exact h.opened, by rw [ho]; exact h.wire, by rw [hn, ho]; exact h.recvNonce,
    hfail.trans h.failed⟩

theorem sender (h : Linked s o) (hf : s.Frame s') : Linked s' o := by
  have hle := h.opened_length_le
  rcases hf.output with ⟨hw, hwire⟩ | ⟨p, hw, hwire⟩
  · exact ⟨by rw [hw]; exact h.opened, by rw [hw, hwire]; exact h.wire, h.recvNonce, h.failed⟩
  · refine ⟨?_, ?_, h.recvNonce, h.failed⟩
    · rw [hw, List.take_append_of_le_length hle]
      exact h.opened
    · rw [hw, hwire, List.drop_append_of_le_length hle, h.wire]

theorem sender_recv (h : Linked s o) (hf : s.RecvFrame s') : Linked s' o := by
  obtain ⟨-, -, -, -, -, hw, hwire⟩ := hf
  exact ⟨by rw [hw]; exact h.opened, by rw [hw, hwire]; exact h.wire, h.recvNonce, h.failed⟩

/-- The packet at the head of the wire is the one sealed under the receive nonce, so it opens. -/
theorem recv {p wire} (h : Linked s o) (hs : s.InOrder K r) (ho : o.transport.role = r.other)
    (hwire : s.wire = p :: wire) (hr : o.recv K p.bytes = some o') : Linked { s with wire } o' := by
  have hdrop : s.written.drop o.opened.length = p :: wire := by rw [← h.wire, hwire]
  have hlt : o.opened.length < s.written.length := by
    by_contra hge
    rw [List.drop_eq_nil_of_le (by omega)] at hdrop
    cases hdrop
  have hget : s.written[o.opened.length] = p ∧ s.written.drop (o.opened.length + 1) = wire := by
    rw [List.drop_eq_getElem_cons hlt] at hdrop
    exact List.cons.inj hdrop
  have hp : p ∈ s.handed := by
    rw [← hget.1]
    exact List.mem_append_left _ (List.mem_append_left _ (List.getElem_mem hlt))
  obtain ⟨hty, c, hc, hbytes⟩ := hs.2.genuine p hp
  have hnonce : p.nonce = o.transport.recvNonce := by
    have hh : o.opened.length < s.handed.length := by
      simp only [End.handed, List.length_append]
      omega
    have hw : s.handed[o.opened.length] = p := by
      rw [← hget.1]
      simp only [End.handed, List.append_assoc]
      exact List.getElem_append_left hlt
    rw [h.recvNonce, ← hw]
    exact hs.2.nonce_getElem hh
  have hopen : openPacket K o.transport p.bytes = (.ok (some p.contents),
      { o.transport with recvNonce := o.transport.recvNonce + 1 }) := by
    rw [hbytes]
    refine openPacket_sealed hty ?_
    rw [ho, Role.other_other, ← hnonce]
    exact hc
  unfold End.recv at hr
  split at hr
  · rw [hopen] at hr
    cases hr
    refine ⟨?_, ?_, ?_, h.failed⟩
    · simp only [List.length_append, List.length_singleton]
      rw [List.take_succ_eq_append_getElem hlt, List.map_append, hget.1, ← h.opened]
      rfl
    · simp only [List.length_append, List.length_singleton]
      exact hget.2.symm
    · simp [h.recvNonce]
  · cases hr

end Linked

/-! ## The session -/

namespace Session

variable {s t : Session}

structure Sync (K : Role → Cipher) (s : Session) : Prop where
  inOrder : ∀ r, (s r).InOrder K r
  linked : ∀ r, Linked (s r) (s r.other)

theorem init_sync (remoteStatic : Role → Option Key) : Sync K (init remoteStatic) where
  inOrder r := by
    refine ⟨rfl, ⟨?_, rfl, ?_, ?_, le_rfl, ?_⟩⟩
    · intro p hp
      cases hp
    · intro task p hp
      cases hp
    · intro task task' p p' hp
      cases hp
    · intro n _ hn
      cases hn
  linked r := ⟨rfl, rfl, rfl, rfl⟩

theorem Sync.own {act e} (h : Sync K s) (hturn : (s r).InTurn act) (hs : (s r).step K D act = some e) :
    Sync K (Function.update s r e) := by
  have hf := End.frame_of_step hs
  constructor
  · intro r'
    rcases Role.eq_or_eq_other r r' with rfl | rfl
    · rw [Function.update_self]
      exact (h.inOrder r').step hturn hs
    · rw [Function.update_of_ne r.other_ne]
      exact h.inOrder _
  · intro r'
    rcases Role.eq_or_eq_other r r' with rfl | rfl
    · rw [Function.update_self, Function.update_of_ne r'.other_ne]
      exact (h.linked r').sender hf
    · rw [Role.other_other, Function.update_self, Function.update_of_ne r.other_ne]
      have := h.linked r.other
      rw [Role.other_other] at this
      exact this.receiver hf

theorem Sync.recv {p wire e} (h : Sync K s) (hwire : (s r.other).wire = p :: wire)
    (hr : (s r).recv K p.bytes = some e) :
    Sync K (Function.update (Function.update s r e) r.other { s r.other with wire }) := by
  have hf := End.recvFrame_of_recv hr
  have hlink := h.linked r.other
  rw [Role.other_other] at hlink
  constructor
  · intro r'
    rcases Role.eq_or_eq_other r r' with rfl | rfl
    · rw [Function.update_of_ne r'.ne_other, Function.update_self]
      exact (h.inOrder r').recv hf
    · rw [Function.update_self]
      exact h.inOrder r.other
  · intro r'
    rcases Role.eq_or_eq_other r r' with rfl | rfl
    · rw [Function.update_of_ne r'.ne_other, Function.update_self, Function.update_self]
      obtain ⟨ho, hw, hn, hfail⟩ := (h.linked r').sender_recv hf
      exact ⟨ho, hw, hn, hfail⟩
    · rw [Role.other_other, Function.update_self, Function.update_of_ne r.ne_other,
        Function.update_self]
      refine hlink.recv (h.inOrder r.other) ?_ hwire hr
      rw [Role.other_other]
      exact (h.inOrder r).1

theorem Sync.step {act} (h : Sync K s) (hturn : s.InTurn act) (hs : s.step K D act = some t) :
    Sync K t := by
  cases act with
  | own r act =>
      simp only [Session.step, Option.map_eq_some_iff] at hs
      obtain ⟨e, he, rfl⟩ := hs
      exact h.own hturn he
  | recv r =>
      simp only [Session.step] at hs
      split at hs
      · cases hs
      · rename_i p wire hwire
        rw [Option.map_eq_some_iff] at hs
        obtain ⟨e, he, rfl⟩ := hs
        exact h.recv hwire he

theorem Sync.healthy (h : Sync K s) : s.Healthy where
  nonces r := by
    have hn := congrArg (List.take (s r).written.length) (h.inOrder r).2.nonces
    simp only [End.handed, List.append_assoc, List.map_append, List.length_append,
      List.take_left' (List.length_map _), List.take_range] at hn
    rw [hn]
    congr 1
    omega
  failed r := by
    have := (h.linked r.other).failed
    rwa [Role.other_other] at this
  opened r := by
    have hl := h.linked r
    calc (s r).written.map Packet.contents
        = ((s r).written.take (s r.other).opened.length ++
            (s r).written.drop (s r.other).opened.length).map Packet.contents := by
          rw [List.take_append_drop]
      _ = (s r.other).opened ++ (s r).wire.map Packet.contents := by
          rw [List.map_append, ← hl.opened, ← hl.wire]

end Session

end OmniMesh.Sdk
