import OmniMesh.Transport.Lemmas.MockDuplex

/-!
# Addresses of the in-memory transport
-/

namespace OmniMesh.Transport
open OmniMesh.Core

namespace MockNet

variable {s u : MockNet} {act : MockAct} {t k l i : ℕ} {addr : SocketAddr} {transport : MockTransport}
  {listener : MockListener}

theorem Moves.keeps_listener (hm : s.Moves act u) (hl : s.listeners[l]? = some listener) :
    ∃ listener', u.listeners[l]? = some listener' ∧ listener'.owner = listener.owner ∧
      listener'.addr = listener.addr := by
  have hdrop : ∀ r, ∃ listener', (s.dropListener r).listeners[l]? = some listener' ∧
      listener'.owner = listener.owner ∧ listener'.addr = listener.addr := by
    intro r
    rw [dropListener_getElem?_listeners, hl]
    refine ⟨_, rfl, ?_⟩
    split <;> exact ⟨rfl, rfl⟩
  have hset : ∀ {l' : ℕ} {x : MockListener} (channel delivered accepted), s.listeners[l']? = some x →
      ∃ listener', (s.listeners.set l' ⟨x.owner, x.addr, channel, delivered, accepted⟩)[l]? = some listener' ∧
        listener'.owner = listener.owner ∧ listener'.addr = listener.addr := by
    intro l' x channel delivered accepted hx
    by_cases hll : l' = l
    · subst hll
      cases hl.symm.trans hx
      exact ⟨_, Table.getElem?_set_of_some hx, rfl, rfl⟩
    · exact ⟨listener, by rw [List.getElem?_set_ne hll]; exact hl, rfl, rfl⟩
  cases hm with
  | new | fail | dial | abandon | link => exact ⟨listener, hl, rfl, rfl⟩
  | listen =>
      obtain ⟨x, hx, hsame⟩ := hdrop _
      exact ⟨x, Table.getElem?_concat_of_some hx, hsame⟩
  | release => exact hdrop _
  | deliver _ _ hx => exact hset _ _ _ hx
  | accept _ _ hx => exact hset _ _ _ hx

theorem Moves.dialing (hm : s.Moves act u) (hd : u.Dialing t l k) :
    s.Dialing t l k ∨ ∃ local' addr, s.registry.lookup addr = some l ∧ u.links[k]? = some (.new local' addr) := by
  obtain ⟨x, hx, hdx⟩ := hd
  cases hm with
  | new =>
      obtain hx | ⟨-, rfl⟩ := Table.getElem?_concat_some hx
      · exact .inl ⟨x, hx, hdx⟩
      · cases hdx
  | listen | abandon | deliver | release =>
      obtain ⟨-, rfl⟩ | ⟨-, hx⟩ := Table.getElem?_set_some hx
      · cases hdx
      · exact .inl ⟨x, hx, hdx⟩
  | fail | accept | link => exact .inl ⟨x, hx, hdx⟩
  | dial _ _ hl =>
      obtain ⟨-, rfl⟩ | ⟨-, hx⟩ := Table.getElem?_set_some hx
      · cases hdx
        exact .inr ⟨_, _, hl, List.getElem?_concat_length ..⟩
      · exact .inl ⟨x, hx, hdx⟩

theorem dropListener_delivered {r : Option ℕ} {y : MockListener} (hy : (s.dropListener r).listeners[l]? = some y) :
    ∃ x, s.listeners[l]? = some x ∧ y.delivered = x.delivered := by
  rw [dropListener_getElem?_listeners] at hy
  obtain ⟨x, hx, rfl⟩ := Option.map_eq_some_iff.mp hy
  refine ⟨x, hx, ?_⟩
  split <;> rfl

theorem Moves.delivered (hm : s.Moves act u) (hd : u.Delivered l i k) : s.Delivered l i k ∨ ∃ t, s.Dialing t l k := by
  obtain ⟨y, hy, hi⟩ := hd
  cases hm with
  | new | fail | dial | abandon | link => exact .inl ⟨y, hy, hi⟩
  | listen =>
      obtain hy | ⟨-, rfl⟩ := Table.getElem?_concat_some hy
      · obtain ⟨x, hx, hsame⟩ := dropListener_delivered hy
        exact .inl ⟨x, hx, hsame ▸ hi⟩
      · cases hi
  | release =>
      obtain ⟨x, hx, hsame⟩ := dropListener_delivered hy
      exact .inl ⟨x, hx, hsame ▸ hi⟩
  | @deliver t _ _ _ _ _ ht hd hl =>
      obtain ⟨rfl, rfl⟩ | ⟨-, hy⟩ := Table.getElem?_set_some hy
      · obtain hi | ⟨-, rfl⟩ := Table.getElem?_concat_some hi
        · exact .inl ⟨_, hl, hi⟩
        · exact .inr ⟨t, _, ht, hd⟩
      · exact .inl ⟨y, hy, hi⟩
  | accept _ _ hl =>
      obtain ⟨rfl, rfl⟩ | ⟨-, hy⟩ := Table.getElem?_set_some hy
      · exact .inl ⟨_, hl, hi⟩
      · exact .inl ⟨y, hy, hi⟩

/-- The address that `k` was dialled at is that of listener `l`. -/
def Addressed (s : MockNet) (l k : ℕ) : Prop :=
  ∃ listener link, s.listeners[l]? = some listener ∧ s.links[k]? = some link ∧
    (link.conns .client).remoteAddr = listener.addr

/-- What the registry, the transports and the connections say about addresses. -/
structure Registered (s : MockNet) : Prop where
  known : ∀ addr l, s.registry.lookup addr = some l →
    ∃ listener, s.listeners[l]? = some listener ∧ listener.addr = addr
  listening : ∀ (t : ℕ) (transport : MockTransport) (l : ℕ), s.transports[t]? = some transport →
    transport.incomingRx = some l → transport.incomingTx = some l ∧ ∃ listener,
      s.listeners[l]? = some listener ∧ listener.owner = t ∧ transport.localAddr = some listener.addr ∧
        listener.channel.receiver = true
  unbound : ∀ (t : ℕ) (transport : MockTransport), s.transports[t]? = some transport →
    transport.incomingRx = none → transport.localAddr = none
  mirrored : ∀ (k : ℕ) (link : MockLink), s.links[k]? = some link →
    (link.conns .server).localAddr = (link.conns .client).remoteAddr ∧
      (link.conns .server).remoteAddr = (link.conns .client).localAddr
  dialled : ∀ t l k, s.Dialing t l k → s.Addressed l k
  reached : ∀ l i k, s.Delivered l i k → s.Addressed l k

theorem dropListener_concat (r : Option ℕ) :
    ((s.dropListener r).listeners ++ [listener])[s.listeners.length]? = some listener := by
  rw [← dropListener_length r]
  exact List.getElem?_concat_length

theorem Moves.transport_after (hm : s.Moves act u) {y : MockTransport} (hy : u.transports[t]? = some y) :
    (∃ x, s.transports[t]? = some x ∧ y.localAddr = x.localAddr ∧ y.incomingTx = x.incomingTx ∧
      y.incomingRx = x.incomingRx) ∨ y = .new ∨
    ∃ addr, act = .listen t addr ∧ y = ⟨some addr, some s.listeners.length, some s.listeners.length, none⟩ ∧
      u.listeners[s.listeners.length]? = some ⟨t, addr, .new listenerCapacity, [], []⟩ ∧
      u.registry.lookup addr = some s.listeners.length := by
  cases hm with
  | new => exact (Table.getElem?_concat_some hy).imp (fun hy => ⟨y, hy, rfl, rfl, rfl⟩) fun hnew => .inl hnew.2
  | listen =>
      obtain ⟨rfl, rfl⟩ | ⟨-, hy⟩ := Table.getElem?_set_some hy
      · exact .inr (.inr ⟨_, rfl, rfl, dropListener_concat _, AList.lookup_insert _⟩)
      · exact .inl ⟨y, hy, rfl, rfl, rfl⟩
  | fail | accept | link => exact .inl ⟨y, hy, rfl, rfl, rfl⟩
  | dial ht | abandon _ ht | deliver ht =>
      obtain ⟨rfl, rfl⟩ | ⟨-, hy⟩ := Table.getElem?_set_some hy
      · exact .inl ⟨_, ht, rfl, rfl, rfl⟩
      · exact .inl ⟨y, hy, rfl, rfl, rfl⟩
  | release =>
      obtain ⟨rfl, rfl⟩ | ⟨-, hy⟩ := Table.getElem?_set_some hy
      · exact .inr (.inl rfl)
      · exact .inl ⟨y, hy, rfl, rfl, rfl⟩

/-- A listener's channel is closed by nobody but the transport that listens on it. -/
theorem Moves.keeps_open (hm : s.Moves act u) {x y : MockListener} (hx : s.listeners[l]? = some x)
    (hopen : x.channel.receiver = true) (hy : u.listeners[l]? = some y) :
    y.channel.receiver = true ∨ ∃ (t : ℕ) (transport transport' : MockTransport), s.transports[t]? = some transport ∧
      transport.incomingRx = some l ∧ u.transports[t]? = some transport' ∧ transport'.incomingRx ≠ some l := by
  have hlt := (List.getElem?_eq_some_iff.mp hx).1
  have hdrop : ∀ r, (s.dropListener r).listeners[l]? = some y → y.channel.receiver = true ∨ r = some l := by
    intro r hy
    rw [dropListener_getElem?_listeners, hx] at hy
    by_cases hr : r = some l
    · exact .inr hr
    · simp only [hr, if_false, Option.map_some, Option.some.injEq] at hy
      exact .inl (hy ▸ hopen)
  cases hm with
  | new | fail | dial | abandon | link =>
      cases hx.symm.trans hy
      exact .inl hopen
  | @listen t addr transport ht hd =>
      obtain hy | ⟨hl, -⟩ := Table.getElem?_concat_some hy
      · refine (hdrop _ hy).imp_right fun hr => ⟨t, transport, _, ht, hr, Table.getElem?_set_of_some ht, ?_⟩
        simp only [ne_eq, Option.some.injEq]
        omega
      · rw [dropListener_length] at hl
        omega
  | @release _ t transport _ _ ht hd =>
      refine (hdrop _ hy).imp_right fun hr => ⟨t, transport, _, ht, hr, Table.getElem?_set_of_some ht, ?_⟩
      simp [MockTransport.new]
  | deliver _ _ hl hs =>
      obtain ⟨rfl, rfl⟩ | ⟨-, hy⟩ := Table.getElem?_set_some hy
      · exact .inl (Mpsc.send_sent hs).2.1
      · cases hx.symm.trans hy
        exact .inl hopen
  | accept _ _ hl hr =>
      obtain ⟨rfl, rfl⟩ | ⟨-, hy⟩ := Table.getElem?_set_some hy
      · obtain ⟨-, rfl⟩ := Mpsc.recv_item hr
        cases hx.symm.trans hl
        exact .inl hopen
      · cases hx.symm.trans hy
        exact .inl hopen

theorem Moves.registry_after (hm : s.Moves act u) (hl : u.registry.lookup addr = some l) :
    s.registry.lookup addr = some l ∨
      ∃ t, act = .listen t addr ∧ u.listeners[l]? = some ⟨t, addr, .new listenerCapacity, [], []⟩ := by
  cases hm with
  | new | fail | dial | abandon | deliver | accept | link => exact .inl hl
  | @listen t addr' transport =>
      by_cases ha : addr = addr'
      · subst ha
        simp only [AList.lookup_insert, Option.some.injEq] at hl
        subst hl
        exact .inr ⟨t, rfl, dropListener_concat _⟩
      · rw [AList.lookup_insert_ne ha] at hl
        exact .inl hl
  | release _ _ _ hreg =>
      obtain rfl | ⟨addr', -, rfl⟩ := hreg
      · exact .inl hl
      · by_cases ha : addr = addr'
        · subst ha
          simp at hl
        · rw [AList.lookup_erase_ne ha] at hl
          exact .inl hl

theorem Addressed.step (h : s.Addressed l k) (hc : s.Carried) (hm : s.Moves act u) : u.Addressed l k := by
  obtain ⟨listener, link, hl, hk, haddr⟩ := h
  obtain ⟨listener', hl', -, hsame⟩ := hm.keeps_listener hl
  obtain ⟨link', hk', hlm⟩ := hc.link_moves hm hk
  exact ⟨listener', link', hl', hk', by rw [(hlm.addrs .client).2, haddr, hsame]⟩

theorem Registered.init : MockNet.init.Registered := by
  constructor <;> simp [MockNet.init, Dialing, Delivered]

theorem Registered.step (h : s.Registered) (hc : s.Carried) (hm : s.Moves act u) : u.Registered := by
  refine ⟨?_, ?_, ?_, ?_, ?_, ?_⟩
  · intro addr l hl
    obtain hl | ⟨t, -, hnew⟩ := hm.registry_after hl
    · obtain ⟨x, hx, rfl⟩ := h.known addr l hl
      obtain ⟨y, hy, -, hsame⟩ := hm.keeps_listener hx
      exact ⟨y, hy, hsame⟩
    · exact ⟨_, hnew, rfl⟩
  · intro t y l hy hrx
    obtain ⟨x, hx, ha, htx, hrx'⟩ | rfl | ⟨addr, -, rfl, hnew, -⟩ := hm.transport_after hy
    · obtain ⟨htx', z, hz, howner, hza, hopen⟩ := h.listening t x l hx (hrx'.symm.trans hrx)
      obtain ⟨z', hz', howner', haddr'⟩ := hm.keeps_listener hz
      refine ⟨htx.trans htx', z', hz', howner'.trans howner, by rw [ha, hza, haddr'], ?_⟩
      obtain hopen' | ⟨t', v, v', hv, hvrx, hv', hne⟩ := hm.keeps_open hz hopen hz'
      · exact hopen'
      · -- whoever has closed the channel was listening on it, and is `t`
        obtain ⟨-, z₂, hz₂, howner₂, -⟩ := h.listening t' v l hv hvrx
        cases hz.symm.trans hz₂
        obtain rfl := howner₂.symm.trans howner
        cases hy.symm.trans hv'
        exact absurd hrx hne
    · cases hrx
    · cases hrx
      exact ⟨rfl, _, hnew, rfl, rfl, rfl⟩
  · intro t y hy hrx
    obtain ⟨x, hx, ha, -, hrx'⟩ | rfl | ⟨addr, -, rfl, -⟩ := hm.transport_after hy
    · rw [ha]
      exact h.unbound t x hx (hrx'.symm.trans hrx)
    · rfl
    · cases hrx
  · intro k link' hk'
    cases hk : s.links[k]? with
    | none =>
        obtain hnone | ⟨local', addr, hnew⟩ := hm.new_link hk
        · rw [hnone] at hk'
          cases hk'
        · cases hk'.symm.trans hnew
          exact ⟨rfl, rfl⟩
    | some link =>
        obtain ⟨link₂, hk₂, hlm⟩ := hc.link_moves hm hk
        cases hk'.symm.trans hk₂
        obtain ⟨hc₁, hc₂⟩ := hlm.addrs .client
        obtain ⟨hs₁, hs₂⟩ := hlm.addrs .server
        rw [hs₁, hs₂, hc₁, hc₂]
        exact h.mirrored k link hk
  · intro t l k hd
    obtain hd | ⟨local', addr, hl, hk⟩ := hm.dialing hd
    · exact (h.dialled t l k hd).step hc hm
    · obtain ⟨x, hx, rfl⟩ := h.known addr l hl
      obtain ⟨y, hy, -, hsame⟩ := hm.keeps_listener hx
      exact ⟨y, _, hy, hk, hsame.symm⟩
  · intro l i k hd
    obtain hd | ⟨t, hd⟩ := hm.delivered hd
    · exact (h.reached l i k hd).step hc hm
    · exact (h.dialled t l k hd).step hc hm

theorem run_registered {acts : List MockAct} (hrun : Lts.run MockNet.step .init acts = some s) :
    s.Carried ∧ s.Registered :=
  Lts.run_invariant (I := fun s => s.Carried ∧ s.Registered) (fun _ _ _ h hs =>
    ⟨h.1.step (step_moves hs), h.2.step h.1 (step_moves hs)⟩) ⟨Carried.init, Registered.init⟩ hrun

/-! ## What is accepted -/

theorem Carried.not_accepted (h : s.Carried) (hq : s.Queued l k) (l' : ℕ) (x : MockListener)
    (hx : s.listeners[l']? = some x) : k ∉ x.accepted := by
  intro hk
  have hmem : k ∈ x.delivered := (h.flows l' x hx).taken.subset (List.mem_append_left _ hk)
  obtain ⟨i', hi'⟩ := List.getElem?_of_mem hmem
  obtain ⟨i, hi⟩ := h.delivered_of_queued hq
  obtain ⟨rfl, -⟩ := h.once l l' i i' k hi ⟨x, hx, hi'⟩
  obtain ⟨y, hy, hky⟩ := hq
  cases hx.symm.trans hy
  have hnodup := (h.delivered_nodup hx).sublist (h.flows l x hx).taken.sublist
  exact (List.nodup_append.mp hnodup).2.2 k hk k hky rfl

/-- A transport that listens holds a sender of its own channel, so the channel never runs dry. -/
theorem accept_cases {r : Result ℕ} (h : s.Registered) (ha : s.accept t = some (r, u)) :
    ∃ transport, s.transports[t]? = some transport ∧
      ((r = .error (.transport "not listening") ∧ transport.incomingRx = none ∧ u = s) ∨
       ∃ l k listener channel, transport.incomingRx = some l ∧ s.listeners[l]? = some listener ∧
         listener.channel.recv (s.hasSender l) = .item k channel ∧ r = .ok k ∧
         u = { s with
           listeners := s.listeners.set l { listener with channel, accepted := listener.accepted ++ [k] }
           links := s.links.modify k (·.setHolder .server .held) }) := by
  unfold accept at ha
  split at ha
  · cases ha
  · rename_i transport hfree
    obtain ⟨ht, -⟩ := free_eq_some.mp hfree
    refine ⟨transport, ht, ?_⟩
    split at ha
    · rename_i hrx
      cases ha
      exact .inl ⟨rfl, hrx, rfl⟩
    · rename_i l hrx
      split at ha
      · cases ha
      · rename_i listener hl
        split at ha
        · rename_i hclosed
          have htx := (h.listening t transport l ht hrx).1
          have hsender : s.hasSender l = true := by
            simp only [hasSender, Bool.or_eq_true, List.any_eq_true, decide_eq_true_eq]
            exact .inl ⟨transport, List.mem_of_getElem? ht, .inl htx⟩
          rw [Mpsc.recv_closed_iff, hsender] at hclosed
          cases hclosed.2
        · cases ha
        · rename_i k channel hr
          cases ha
          exact .inr ⟨l, k, listener, channel, hrx, hl, hr, rfl, rfl⟩

/-! ## Calls that wait for their listener -/

theorem Moves.lookup (hm : s.Moves act u) (hl : s.registry.lookup addr = some l) :
    u.registry.lookup addr = some l ∨
    (∃ t n, act = .listen t addr ∧ u.registry.lookup addr = some n ∧
      u.transports[t]? = some ⟨some addr, some n, some n, none⟩) ∨
    ∃ (t : ℕ) (x y : MockTransport), s.transports[t]? = some x ∧ x.localAddr = some addr ∧
      u.transports[t]? = some y ∧ y.localAddr = none := by
  cases hm with
  | new | fail | dial | abandon | deliver | accept | link => exact .inl hl
  | @listen t addr' _ ht =>
      by_cases ha : addr = addr'
      · subst ha
        exact .inr (.inl ⟨t, _, rfl, AList.lookup_insert _, Table.getElem?_set_of_some ht⟩)
      · exact .inl (by rwa [AList.lookup_insert_ne ha])
  | @release _ t transport _ _ ht _ hreg =>
      obtain rfl | ⟨addr', ha', rfl⟩ := hreg
      · exact .inl hl
      · by_cases ha : addr = addr'
        · subst ha
          exact .inr (.inr ⟨t, transport, _, ht, ha', Table.getElem?_set_of_some ht, rfl⟩)
        · exact .inl (by rwa [AList.lookup_erase_ne ha])

/-- Each address belongs to one transport, and the registry leads to it. -/
def Owned (owner : SocketAddr → ℕ) (s : MockNet) : Prop :=
  ∀ (t : ℕ) (transport : MockTransport) (addr : SocketAddr), s.transports[t]? = some transport →
    transport.localAddr = some addr → owner addr = t ∧ s.registry.lookup addr = transport.incomingRx

theorem Owned.step {owner : SocketAddr → ℕ} (h : s.Owned owner) (hr : s.Registered) (hm : s.Moves act u)
    (howner : ∀ t addr, act = .listen t addr → owner addr = t) : u.Owned owner := by
  intro t y addr hy haddr
  obtain ⟨x, hx, ha, -, hrx⟩ | rfl | ⟨addr', hact, rfl, -, hreg⟩ := hm.transport_after hy
  · obtain ⟨hown, hlook⟩ := h t x addr hx (ha.symm.trans haddr)
    refine ⟨hown, ?_⟩
    cases hxrx : x.incomingRx with
    | none =>
        have hnone := hr.unbound t x hx hxrx
        rw [← ha, haddr] at hnone
        cases hnone
    | some l =>
        rw [hrx, hxrx]
        obtain hsame | ⟨t', n, hact, hn, ht'⟩ | ⟨t', x', y', hx', hxa, hy', hnone⟩ := hm.lookup (hlook.trans hxrx)
        · exact hsame
        · obtain rfl := (howner t' addr hact).symm.trans hown
          cases hy.symm.trans ht'
          exact hn.trans (hrx.trans hxrx)
        · obtain rfl := (h t' x' addr hx' hxa).1.symm.trans hown
          cases hy.symm.trans hy'
          rw [hnone] at haddr
          cases haddr
  · cases haddr
  · cases haddr
    exact ⟨howner t addr hact, hreg⟩

theorem run_unlisted {acts : List MockAct} (hnone : s.registry.lookup addr = none)
    (hquiet : ∀ t, MockAct.listen t addr ∉ acts) (hrun : Lts.run MockNet.step s acts = some u) :
    u.registry.lookup addr = none := by
  refine Lts.run_invariant_of_mem (I := fun s => s.registry.lookup addr = none) ?_ hnone hrun
  intro s act u hact hnone hs
  by_contra hsome
  obtain ⟨l, hl⟩ := Option.ne_none_iff_exists'.mp hsome
  obtain hl | ⟨t, rfl, -⟩ := (step_moves hs).registry_after hl
  · rw [hnone] at hl
    cases hl
  · exact hquiet t hact

end MockNet

end OmniMesh.Transport
