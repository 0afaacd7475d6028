import OmniMesh.Lib.Simulation
import OmniMesh.Lib.Table
import OmniMesh.Transport.Lemmas.MockLink

/-!
# Steps of the in-memory transport, and how its connections reach their listeners
-/

namespace OmniMesh.Transport
open OmniMesh.Core

/-- Connections leave the channel of a listener in the order in which they came. -/
structure MockListener.Flows (listener : MockListener) : Prop where
  flow : listener.channel.receiver = true → listener.accepted ++ listener.channel.queue = listener.delivered
  taken : listener.accepted ++ listener.channel.queue <+: listener.delivered
  capacity : listener.channel.capacity = listenerCapacity

namespace MockListener.Flows

variable {listener : MockListener} {k : ℕ} {channel : Mpsc ℕ}

theorem close (h : listener.Flows) : Flows { listener with channel := listener.channel.close } where
  flow hopen := by cases hopen
  taken := by simpa [Mpsc.close] using (List.prefix_append _ _).trans h.taken
  capacity := h.capacity

theorem send (h : listener.Flows) (hs : listener.channel.send k = .sent channel) :
    Flows { listener with channel, delivered := listener.delivered ++ [k] } := by
  obtain ⟨hopen, -, hqueue, hcapacity⟩ := Mpsc.send_sent hs
  have hflow : listener.accepted ++ channel.queue = listener.delivered ++ [k] := by
    rw [hqueue, ← List.append_assoc, h.flow hopen]
  exact ⟨fun _ => hflow, hflow ▸ List.prefix_refl _, hcapacity.trans h.capacity⟩

theorem recv {hasSender : Bool} (h : listener.Flows) (hr : listener.channel.recv hasSender = .item k channel) :
    Flows { listener with channel, accepted := listener.accepted ++ [k] } := by
  obtain ⟨hqueue, rfl⟩ := Mpsc.recv_item hr
  have hsame : listener.accepted ++ [k] ++ listener.channel.pop.queue =
      listener.accepted ++ listener.channel.queue := by
    rw [hqueue, List.append_assoc, List.singleton_append]
  exact ⟨fun hopen => hsame.trans (h.flow hopen), hsame ▸ h.taken, h.capacity⟩

end MockListener.Flows

namespace MockNet

variable {s u : MockNet} {act : MockAct} {t k l i : ℕ} {e : Endpoint} {addr : SocketAddr} {link : MockLink}

theorem free_eq_some {transport : MockTransport} :
    s.free t = some transport ↔ s.transports[t]? = some transport ∧ transport.dial = none := by
  simp [free, Option.filter_eq_some_iff]

theorem held_eq_some : s.held k e = some link ↔ s.links[k]? = some link ∧ link.holders e = .held := by
  simp [held, Option.filter_eq_some_iff]

/-- What a step can do. -/
inductive Moves (s : MockNet) : MockAct → MockNet → Prop
  | new : Moves s .new { s with transports := s.transports ++ [.new] }
  | listen {t : ℕ} {addr : SocketAddr} {transport : MockTransport} : s.transports[t]? = some transport →
      transport.dial = none →
      Moves s (.listen t addr) { s.dropListener transport.incomingRx with
        transports := s.transports.set t ⟨some addr, some s.listeners.length, some s.listeners.length, none⟩
        listeners := (s.dropListener transport.incomingRx).listeners ++ [⟨t, addr, .new listenerCapacity, [], []⟩]
        registry := s.registry.insert addr s.listeners.length }
  | fail {act : MockAct} : (∀ k, s.label k act = none) → Moves s act s
  | dial {t l : ℕ} {addr : SocketAddr} {transport : MockTransport} : s.transports[t]? = some transport →
      transport.dial = none → s.registry.lookup addr = some l →
      Moves s (.connect t addr) { s with
        transports := s.transports.set t { transport with dial := some ⟨l, s.links.length⟩ }
        links := s.links ++ [.new (transport.localAddr.getD unboundAddr) addr] }
  | abandon {act : MockAct} {t l k : ℕ} {transport : MockTransport} : act = .cancel t ∨ act = .deliver t →
      s.transports[t]? = some transport → transport.dial = some ⟨l, k⟩ →
      Moves s act { s with
        transports := s.transports.set t { transport with dial := none }
        links := s.links.modify k .dropBoth }
  | deliver {t l k : ℕ} {transport : MockTransport} {listener : MockListener} {channel : Mpsc ℕ} :
      s.transports[t]? = some transport → transport.dial = some ⟨l, k⟩ → s.listeners[l]? = some listener →
      listener.channel.send k = .sent channel →
      Moves s (.deliver t) { s with
        transports := s.transports.set t { transport with dial := none }
        listeners := s.listeners.set l { listener with channel, delivered := listener.delivered ++ [k] }
        links := s.links.modify k (·.setHolder .client .held) }
  | accept {t l k : ℕ} {transport : MockTransport} {listener : MockListener} {channel : Mpsc ℕ} :
      s.transports[t]? = some transport → transport.incomingRx = some l → s.listeners[l]? = some listener →
      listener.channel.recv (s.hasSender l) = .item k channel →
      Moves s (.accept t) { s with
        listeners := s.listeners.set l { listener with channel, accepted := listener.accepted ++ [k] }
        links := s.links.modify k (·.setHolder .server .held) }
  | release {act : MockAct} {t : ℕ} {transport : MockTransport} {registry : Map SocketAddr ℕ} :
      act = .shutdown t ∨ act = .dropTransport t → s.transports[t]? = some transport → transport.dial = none →
      (registry = s.registry ∨ ∃ addr, transport.localAddr = some addr ∧ registry = s.registry.erase addr) →
      Moves s act { s.dropListener transport.incomingRx with transports := s.transports.set t .new, registry }
  | link {act : MockAct} {k : ℕ} {link link' : MockLink} : s.links[k]? = some link →
      link.Moves (s.label k act) link' → (∀ j, j ≠ k → s.label j act = none) →
      (∀ e, link'.holders e = link.holders e ∨ link.holders e = .held) →
      Moves s act { s with links := s.links.set k link' }

theorem dropListener_transports (r : Option ℕ) : (s.dropListener r).transports = s.transports := by
  unfold dropListener
  split
  · rfl
  · split <;> rfl

theorem dropListener_registry (r : Option ℕ) : (s.dropListener r).registry = s.registry := by
  unfold dropListener
  split
  · rfl
  · split <;> rfl

theorem dropListener_length (r : Option ℕ) : (s.dropListener r).listeners.length = s.listeners.length := by
  unfold dropListener
  split
  · rfl
  · split <;> simp

theorem connect_moves {r : Result Unit × MockNet} (h : s.connect t addr = some r) :
    s.Moves (.connect t addr) r.2 := by
  obtain ⟨transport, hfree, rfl⟩ := Option.map_eq_some_iff.mp h
  obtain ⟨ht, hdial⟩ := free_eq_some.mp hfree
  dsimp only
  split
  · exact .fail fun _ => rfl
  · rename_i l hl
    exact .dial ht hdial hl

theorem deliver_moves {r : Result ℕ × MockNet} (h : s.deliver t = some r) : s.Moves (.deliver t) r.2 := by
  unfold deliver at h
  split at h
  · rename_i localAddr tx rx l k ht
    split at h
    · rename_i listener link hl hk
      simp only at h
      split at h
      · cases h
        have hm : s.Moves (.deliver t) _ := .abandon (.inr rfl) ht rfl
        simpa [setTransport, setLink, List.modify_eq_set_getElem?, hk] using hm
      · cases h
      · rename_i channel hs
        cases h
        have hm : s.Moves (.deliver t) _ := .deliver ht rfl hl hs
        simpa [setTransport, setLink, setListener, List.modify_eq_set_getElem?, hk] using hm
    · cases h
  · cases h

theorem cancel_moves (h : s.cancel t = some u) : s.Moves (.cancel t) u := by
  unfold cancel at h
  split at h
  · rename_i ht
    cases h
    exact .abandon (.inl rfl) ht rfl
  · cases h

theorem accept_moves {r : Result ℕ × MockNet} (h : s.accept t = some r) : s.Moves (.accept t) r.2 := by
  unfold accept at h
  split at h
  · cases h
  · rename_i transport hfree
    obtain ⟨ht, -⟩ := free_eq_some.mp hfree
    split at h
    · cases h
      exact .fail fun _ => rfl
    · rename_i l hrx
      split at h
      · cases h
      · rename_i listener hl
        split at h
        · cases h
          exact .fail fun _ => rfl
        · cases h
        · rename_i hr
          cases h
          exact .accept ht hrx hl hr

theorem release_moves {transport : MockTransport} {registry : Map SocketAddr ℕ}
    (hact : act = .shutdown t ∨ act = .dropTransport t) (hfree : s.free t = some transport)
    (hreg : registry = s.registry ∨ ∃ addr, transport.localAddr = some addr ∧ registry = s.registry.erase addr) :
    s.Moves act { (s.dropListener transport.incomingRx).setTransport t .new with registry } := by
  obtain ⟨ht, hdial⟩ := free_eq_some.mp hfree
  have hm : s.Moves act _ := .release hact ht hdial hreg
  simpa [setTransport, dropListener_transports] using hm

theorem link_moves {link' : MockLink} (hheld : s.held k e = some link) (hm : link.Moves (s.label k act) link')
    (hsilent : ∀ j, j ≠ k → s.label j act = none) (hholders : ∀ x, x ≠ e → link'.holders x = link.holders x) :
    s.Moves act (s.setLink k link') := by
  obtain ⟨hk, he⟩ := held_eq_some.mp hheld
  refine .link hk hm hsilent fun x => ?_
  by_cases hx : x = e
  · exact .inr (hx ▸ he)
  · exact .inl (hholders x hx)

theorem send_net_moves {data : Bytes} {r : Result Unit × MockNet} (h : s.send k e data = some r) :
    s.Moves (.send k e data) r.2 := by
  obtain ⟨q, hq, rfl⟩ := Option.map_eq_some_iff.mp h
  obtain ⟨link, hheld, hsend⟩ := Option.bind_eq_some_iff.mp hq
  refine link_moves hheld ?_ (fun j hj => by simp [label, Ne.symm hj]) fun x _ => ?_
  · obtain ⟨hok, hm⟩ | ⟨⟨err, herr⟩, hsame⟩ := MockLink.send_moves hsend
    · simpa [label, h, hok] using hm
    · rw [hsame]
      simpa [label, h, herr] using MockLink.Moves.stay
  · obtain ⟨-, hm⟩ | ⟨-, hsame⟩ := MockLink.send_moves hsend
    · rw [hm.holders]
    · rw [hsame]

theorem recv_net_moves {r : Result (Option Bytes) × MockNet} (h : s.recv k e = some r) :
    s.Moves (.recv k e) r.2 := by
  obtain ⟨q, hq, rfl⟩ := Option.map_eq_some_iff.mp h
  obtain ⟨link, hheld, hrecv⟩ := Option.bind_eq_some_iff.mp hq
  refine link_moves hheld ?_ (fun j hj => by simp [label, Ne.symm hj]) fun x _ => ?_
  · obtain ⟨data, hok, hm⟩ | ⟨hnone, hsame⟩ := MockLink.recv_moves hrecv
    · simpa [label, h, hok] using hm
    · rw [hsame]
      simpa [label, h, hnone] using MockLink.Moves.stay
  · obtain ⟨data, -, hm⟩ | ⟨-, hsame⟩ := MockLink.recv_moves hrecv
    · rw [hm.holders]
    · rw [hsame]

theorem step_moves (h : s.step act = some u) : s.Moves act u := by
  cases act with
  | new =>
      cases h
      exact .new
  | listen t addr =>
      obtain ⟨transport, hfree, rfl⟩ := Option.map_eq_some_iff.mp h
      obtain ⟨ht, hdial⟩ := free_eq_some.mp hfree
      have hm : s.Moves (.listen t addr) _ := .listen ht hdial
      simpa [dropListener_transports, dropListener_registry, dropListener_length] using hm
  | connect t addr =>
      obtain ⟨r, hr, rfl⟩ := Option.map_eq_some_iff.mp h
      exact connect_moves hr
  | deliver t =>
      obtain ⟨r, hr, rfl⟩ := Option.map_eq_some_iff.mp h
      exact deliver_moves hr
  | cancel t => exact cancel_moves h
  | accept t =>
      obtain ⟨r, hr, rfl⟩ := Option.map_eq_some_iff.mp h
      exact accept_moves hr
  | shutdown t =>
      obtain ⟨transport, hfree, rfl⟩ := Option.map_eq_some_iff.mp h
      refine release_moves (.inl rfl) hfree ?_
      split
      · rename_i addr haddr
        exact .inr ⟨addr, haddr, rfl⟩
      · exact .inl rfl
  | dropTransport t =>
      obtain ⟨transport, hfree, rfl⟩ := Option.map_eq_some_iff.mp h
      have hm : s.Moves (.dropTransport t) _ := release_moves (.inr rfl) hfree (.inl rfl)
      simpa [setTransport, dropListener_registry] using hm
  | send k e data =>
      obtain ⟨r, hr, rfl⟩ := Option.map_eq_some_iff.mp h
      exact send_net_moves hr
  | recv k e =>
      obtain ⟨r, hr, rfl⟩ := Option.map_eq_some_iff.mp h
      exact recv_net_moves hr
  | close k e =>
      obtain ⟨link, hheld, rfl⟩ := Option.map_eq_some_iff.mp h
      exact link_moves hheld .close (fun _ _ => rfl) fun _ _ => rfl
  | drop k e =>
      obtain ⟨link, hheld, rfl⟩ := Option.map_eq_some_iff.mp h
      exact link_moves hheld .drop (fun _ _ => rfl) fun x hx => by simp [MockLink.drop, MockLink.setHolder, hx]

/-! ## Connections on their way -/

/-- A pending `connect` of `t` waits to put connection `k` into the channel of `l`. -/
def Dialing (s : MockNet) (t l k : ℕ) : Prop :=
  ∃ transport, s.transports[t]? = some transport ∧ transport.dial = some ⟨l, k⟩

/-- The connection that was put into the channel of `l` as its `i`-th. -/
def Delivered (s : MockNet) (l i k : ℕ) : Prop :=
  ∃ listener, s.listeners[l]? = some listener ∧ listener.delivered[i]? = some k

def Queued (s : MockNet) (l k : ℕ) : Prop :=
  ∃ listener, s.listeners[l]? = some listener ∧ k ∈ listener.channel.queue

/-- No application has got this end yet. -/
def Reserved (s : MockNet) (e : Endpoint) (k : ℕ) : Prop :=
  ∃ link, s.links[k]? = some link ∧ link.holders e = .transit

/-- Each connection is on at most one way to at most one listener. -/
structure Carried (s : MockNet) : Prop where
  dialing : ∀ t l k, s.Dialing t l k → ∀ e, s.Reserved e k
  apart : ∀ t t' l l' k, s.Dialing t l k → s.Dialing t' l' k → t = t'
  fresh : ∀ t l k l' i, s.Dialing t l k → ¬ s.Delivered l' i k
  queued : ∀ l k, s.Queued l k → s.Reserved .server k
  once : ∀ l l' i i' k, s.Delivered l i k → s.Delivered l' i' k → l = l' ∧ i = i'
  existing : ∀ l i k, s.Delivered l i k → k < s.links.length
  flows : ∀ (l : ℕ) (listener : MockListener), s.listeners[l]? = some listener → listener.Flows

theorem Carried.init : MockNet.init.Carried := by
  constructor <;> simp [MockNet.init, Dialing, Delivered, Queued]

/-- Steps after which nothing new is on its way. -/
theorem Carried.mono (h : s.Carried) (hdialing : ∀ t l k, u.Dialing t l k → s.Dialing t l k)
    (hdelivered : ∀ l i k, u.Delivered l i k → s.Delivered l i k) (hqueued : ∀ l k, u.Queued l k → s.Queued l k)
    (hdialed : ∀ t l k e, u.Dialing t l k → s.Reserved e k → u.Reserved e k)
    (hkept : ∀ l k, u.Queued l k → s.Reserved .server k → u.Reserved .server k)
    (hlen : s.links.length ≤ u.links.length)
    (hflows : ∀ (l : ℕ) (listener : MockListener), u.listeners[l]? = some listener → listener.Flows) :
    u.Carried where
  dialing t l k hd e := hdialed t l k e hd (h.dialing t l k (hdialing t l k hd) e)
  apart t t' l l' k hd hd' := h.apart t t' l l' k (hdialing t l k hd) (hdialing t' l' k hd')
  fresh t l k l' i hd hdel := h.fresh t l k l' i (hdialing t l k hd) (hdelivered l' i k hdel)
  queued l k hq := hkept l k hq (h.queued l k (hqueued l k hq))
  once l l' i i' k hdel hdel' := h.once l l' i i' k (hdelivered l i k hdel) (hdelivered l' i' k hdel')
  existing l i k hdel := Nat.lt_of_lt_of_le (h.existing l i k (hdelivered l i k hdel)) hlen
  flows := hflows

theorem Carried.delivered_of_queued (h : s.Carried) (hq : s.Queued l k) : ∃ i, s.Delivered l i k := by
  obtain ⟨listener, hl, hk⟩ := hq
  have hmem : k ∈ listener.delivered := (h.flows l listener hl).taken.subset (List.mem_append_right _ hk)
  obtain ⟨i, hi⟩ := List.getElem?_of_mem hmem
  exact ⟨i, listener, hl, hi⟩

theorem Carried.delivered_nodup (h : s.Carried) {listener : MockListener} (hl : s.listeners[l]? = some listener) :
    listener.delivered.Nodup := by
  rw [List.nodup_iff_getElem?_ne_getElem?]
  intro i j hij hj heq
  have hk := List.getElem?_eq_getElem hj
  obtain ⟨-, rfl⟩ := h.once l l i j _ ⟨listener, hl, heq.trans hk⟩ ⟨listener, hl, hk⟩
  exact Nat.lt_irrefl i hij

/-- What the channel of a listener that is dropped leaves behind. -/
theorem dropListener_getElem?_listeners (r : Option ℕ) (l : ℕ) :
    (s.dropListener r).listeners[l]? =
      s.listeners[l]?.map fun x => if r = some l then { x with channel := x.channel.close } else x := by
  unfold dropListener
  split
  · simp
  · rename_i l'
    split
    · rename_i hnone
      by_cases hl : l' = l
      · subst hl
        simp [hnone]
      · simp [hl]
    · rename_i x hx
      by_cases hl : l' = l
      · subst hl
        simp [Table.getElem?_set_of_some hx, hx]
      · simp [hl]

open Classical in
theorem dropListener_getElem?_links (r : Option ℕ) (k : ℕ) :
    (s.dropListener r).links[k]? =
      s.links[k]?.map fun x => if ∃ l, r = some l ∧ s.Queued l k then x.drop .server else x := by
  unfold dropListener
  split
  · simp
  · rename_i l
    split
    · rename_i hnone
      simp [Queued, hnone]
    · rename_i x hx
      rw [Table.getElem?_foldl_modify fun _ => MockLink.drop_drop]
      simp [Queued, hx]

theorem Carried.dropListener (h : s.Carried) (r : Option ℕ) : (s.dropListener r).Carried := by
  have hlisteners : ∀ l (y : MockListener), (s.dropListener r).listeners[l]? = some y →
      ∃ x, s.listeners[l]? = some x ∧
        ((r = some l ∧ y = { x with channel := x.channel.close }) ∨ (r ≠ some l ∧ y = x)) := by
    intro l y hy
    rw [dropListener_getElem?_listeners] at hy
    obtain ⟨x, hx, rfl⟩ := Option.map_eq_some_iff.mp hy
    by_cases hr : r = some l <;> simp [hx, hr]
  have hreserved : ∀ e k, (∀ l, r = some l → ¬ s.Queued l k) → s.Reserved e k → (s.dropListener r).Reserved e k := by
    rintro e k hnot ⟨link, hk, he⟩
    refine ⟨link, ?_, he⟩
    rw [dropListener_getElem?_links, hk, Option.map_some, if_neg]
    rintro ⟨l, hl, hq⟩
    exact hnot l hl hq
  have hdelivered : ∀ l i k, (s.dropListener r).Delivered l i k → s.Delivered l i k := by
    rintro l i k ⟨y, hy, hi⟩
    obtain ⟨x, hx, ⟨-, rfl⟩ | ⟨-, rfl⟩⟩ := hlisteners l y hy <;> exact ⟨_, hx, hi⟩
  have hqueued : ∀ l k, (s.dropListener r).Queued l k → r ≠ some l ∧ s.Queued l k := by
    rintro l k ⟨y, hy, hk⟩
    obtain ⟨x, hx, ⟨-, rfl⟩ | ⟨hr, rfl⟩⟩ := hlisteners l y hy
    · cases hk
    · exact ⟨hr, y, hx, hk⟩
  refine h.mono ?_ hdelivered (fun l k hq => (hqueued l k hq).2) ?_ ?_ ?_ ?_
  · intro t l k hd
    rwa [Dialing, dropListener_transports] at hd
  · intro t l k e hd
    rw [Dialing, dropListener_transports] at hd
    refine hreserved e k fun l' _ hq => ?_
    obtain ⟨i, hi⟩ := h.delivered_of_queued hq
    exact h.fresh t l k l' i hd hi
  · intro l k hq
    obtain ⟨hr, hq⟩ := hqueued l k hq
    refine hreserved .server k fun l' hl' hq' => ?_
    obtain ⟨i, hi⟩ := h.delivered_of_queued hq
    obtain ⟨i', hi'⟩ := h.delivered_of_queued hq'
    obtain ⟨rfl, -⟩ := h.once l l' i i' k hi hi'
    exact hr hl'
  · have hnone : (s.dropListener r).links[(s.dropListener r).links.length]? = none := List.getElem?_length _
    rw [dropListener_getElem?_links] at hnone
    simpa using hnone
  · intro l y hy
    obtain ⟨x, hx, ⟨-, rfl⟩ | ⟨-, rfl⟩⟩ := hlisteners l y hy
    · exact (h.flows l x hx).close
    · exact h.flows l y hx

/-- A transport without a pending `connect` takes the place of another one. -/
theorem Carried.setTransport (h : s.Carried) (t : ℕ) (registry : Map SocketAddr ℕ) {transport : MockTransport}
    (hdial : transport.dial = none) :
    Carried { s with transports := s.transports.set t transport, registry } := by
  refine h.mono ?_ (fun _ _ _ hd => hd) (fun _ _ hq => hq) (fun _ _ _ _ _ hr => hr) (fun _ _ _ hr => hr) le_rfl h.flows
  rintro t' l k ⟨x, hx, hd⟩
  obtain ⟨-, rfl⟩ | ⟨-, hx⟩ := Table.getElem?_set_some hx
  · rw [hdial] at hd
    cases hd
  · exact ⟨x, hx, hd⟩

theorem Carried.addListener (h : s.Carried) {channel : Mpsc ℕ} (hqueue : channel.queue = [])
    (hcapacity : channel.capacity = listenerCapacity) :
    Carried { s with listeners := s.listeners ++ [⟨t, addr, channel, [], []⟩] } := by
  refine h.mono (fun _ _ _ hd => hd) ?_ ?_ (fun _ _ _ _ _ hr => hr) (fun _ _ _ hr => hr) le_rfl ?_
  · rintro l i k ⟨x, hx, hi⟩
    obtain hx | ⟨-, rfl⟩ := Table.getElem?_concat_some hx
    · exact ⟨x, hx, hi⟩
    · cases hi
  · rintro l k ⟨x, hx, hk⟩
    obtain hx | ⟨-, rfl⟩ := Table.getElem?_concat_some hx
    · exact ⟨x, hx, hk⟩
    · simp [hqueue] at hk
  · intro l x hx
    obtain hx | ⟨-, rfl⟩ := Table.getElem?_concat_some hx
    · exact h.flows l x hx
    · exact ⟨fun _ => by simp [hqueue], by simp [hqueue], hcapacity⟩

/-- Steps of single connections: an end that no application has got stays as it is. -/
theorem Carried.links (h : s.Carried) {links : List MockLink} (hlen : s.links.length ≤ links.length)
    (hdialed : ∀ t l k e, s.Dialing t l k → s.Reserved e k → Reserved { s with links } e k)
    (hkept : ∀ l k, s.Queued l k → s.Reserved .server k → Reserved { s with links } .server k) :
    Carried { s with links } :=
  h.mono (fun _ _ _ hd => hd) (fun _ _ _ hd => hd) (fun _ _ hq => hq) hdialed hkept hlen h.flows

theorem Reserved.modify {f : MockLink → MockLink} (hr : s.Reserved e k)
    (hf : k = l → ∀ link, s.links[k]? = some link → (f link).holders e = link.holders e) :
    Reserved { s with links := s.links.modify l f } e k := by
  obtain ⟨link, hk, he⟩ := hr
  by_cases hl : l = k
  · subst hl
    exact ⟨f link, by simp [hk], (hf rfl link hk).trans he⟩
  · exact ⟨link, by simpa [List.getElem?_modify, hl] using hk, he⟩

theorem Carried.dial (h : s.Carried) {transport : MockTransport} {local' : SocketAddr} :
    Carried { s with
      transports := s.transports.set t { transport with dial := some ⟨l, s.links.length⟩ }
      links := s.links ++ [.new local' addr] } := by
  set u : MockNet := { s with
    transports := s.transports.set t { transport with dial := some ⟨l, s.links.length⟩ }
    links := s.links ++ [.new local' addr] } with hu
  have hdialing : ∀ t' l' k', u.Dialing t' l' k' → s.Dialing t' l' k' ∨ (t' = t ∧ k' = s.links.length) := by
    rintro t' l' k' ⟨x, hx, hd⟩
    obtain ⟨rfl, rfl⟩ | ⟨-, hx⟩ := Table.getElem?_set_some hx
    · cases hd
      exact .inr ⟨rfl, rfl⟩
    · exact .inl ⟨x, hx, hd⟩
  have hold : ∀ e k, s.Reserved e k → u.Reserved e k := by
    rintro e k ⟨x, hx, he⟩
    exact ⟨x, Table.getElem?_concat_of_some hx, he⟩
  have hlt : ∀ {t' l' k'}, s.Dialing t' l' k' → k' ≠ s.links.length := by
    intro t' l' k' hd
    obtain ⟨x, hx, -⟩ := h.dialing t' l' k' hd .client
    exact Nat.ne_of_lt (List.getElem?_eq_some_iff.mp hx).1
  refine ⟨?_, ?_, ?_, fun l k hq => hold _ _ (h.queued l k hq), h.once, ?_, h.flows⟩
  · intro t' l' k' hd e
    obtain hd | ⟨-, rfl⟩ := hdialing t' l' k' hd
    · exact hold e k' (h.dialing t' l' k' hd e)
    · exact ⟨_, List.getElem?_concat_length .., rfl⟩
  · intro t₁ t₂ l₁ l₂ k' hd₁ hd₂
    obtain ho₁ | ⟨ht₁, hk₁⟩ := hdialing t₁ l₁ k' hd₁ <;> obtain ho₂ | ⟨ht₂, hk₂⟩ := hdialing t₂ l₂ k' hd₂
    · exact h.apart t₁ t₂ l₁ l₂ k' ho₁ ho₂
    · exact absurd hk₂ (hlt ho₁)
    · exact absurd hk₁ (hlt ho₂)
    · rw [ht₁, ht₂]
  · intro t' l' k' l'' i hd hdel
    obtain hd | ⟨-, rfl⟩ := hdialing t' l' k' hd
    · exact h.fresh t' l' k' l'' i hd hdel
    · exact Nat.lt_irrefl _ (h.existing l'' i _ hdel)
  · intro l' i k' hdel
    have := h.existing l' i k' hdel
    simp [hu]
    omega

theorem Carried.abandon (h : s.Carried) (hd : s.Dialing t l k) {transport : MockTransport}
    (hdial : transport.dial = none) :
    Carried { s with transports := s.transports.set t transport, links := s.links.modify k .dropBoth } := by
  have hidle : Carried { s with transports := s.transports.set t transport } := h.setTransport t s.registry hdial
  refine hidle.links (by simp) (fun t' l' k' e hd' hr => hr.modify ?_) fun l' k' hq hr => hr.modify ?_
  · rintro rfl
    obtain ⟨x, hx, hdx⟩ := hd'
    obtain ⟨-, rfl⟩ | ⟨hne, hx⟩ := Table.getElem?_set_some hx
    · rw [hdial] at hdx
      cases hdx
    · exact absurd (h.apart t t' l l' k' hd ⟨x, hx, hdx⟩) hne
  · rintro rfl
    obtain ⟨i, hi⟩ := h.delivered_of_queued hq
    exact absurd hi (h.fresh t l k' l' i hd)

theorem Carried.deliver (h : s.Carried) (hd : s.Dialing t l k) {transport : MockTransport}
    (hdial : transport.dial = none) {listener : MockListener} {channel : Mpsc ℕ}
    (hl : s.listeners[l]? = some listener) (hs : listener.channel.send k = .sent channel) :
    Carried { s with
      transports := s.transports.set t transport
      listeners := s.listeners.set l { listener with channel, delivered := listener.delivered ++ [k] }
      links := s.links.modify k (·.setHolder .client .held) } := by
  set u : MockNet := { s with
    transports := s.transports.set t transport
    listeners := s.listeners.set l { listener with channel, delivered := listener.delivered ++ [k] }
    links := s.links.modify k (·.setHolder .client .held) } with hu
  obtain ⟨-, -, hqueue, -⟩ := Mpsc.send_sent hs
  have hdialing : ∀ t' l' k', u.Dialing t' l' k' → s.Dialing t' l' k' ∧ k' ≠ k := by
    rintro t' l' k' ⟨x, hx, hdx⟩
    obtain ⟨-, rfl⟩ | ⟨hne, hold⟩ := Table.getElem?_set_some hx
    · rw [hdial] at hdx
      cases hdx
    · refine ⟨⟨x, hold, hdx⟩, ?_⟩
      rintro rfl
      exact hne (h.apart t t' l l' k' hd ⟨x, hold, hdx⟩)
  have hdelivered : ∀ l' i k', u.Delivered l' i k' →
      s.Delivered l' i k' ∨ (l' = l ∧ i = listener.delivered.length ∧ k' = k) := by
    rintro l' i k' ⟨x, hx, hi⟩
    obtain ⟨rfl, rfl⟩ | ⟨-, hx⟩ := Table.getElem?_set_some hx
    · obtain hi | ⟨rfl, rfl⟩ := Table.getElem?_concat_some hi
      · exact .inl ⟨listener, hl, hi⟩
      · exact .inr ⟨rfl, rfl, rfl⟩
    · exact .inl ⟨x, hx, hi⟩
  have hqueued : ∀ l' k', u.Queued l' k' → s.Queued l' k' ∨ k' = k := by
    rintro l' k' ⟨x, hx, hk⟩
    obtain ⟨rfl, rfl⟩ | ⟨-, hx⟩ := Table.getElem?_set_some hx
    · simp only [hqueue, List.mem_append, List.mem_singleton] at hk
      exact hk.imp_left fun hk => ⟨listener, hl, hk⟩
    · exact .inl ⟨x, hx, hk⟩
  have hreserved : ∀ e k', e = .server ∨ k' ≠ k → s.Reserved e k' → u.Reserved e k' := by
    intro e k' hor hr
    refine hr.modify ?_
    rintro rfl link -
    obtain rfl | hne := hor
    · rfl
    · exact absurd rfl hne
  refine ⟨?_, ?_, ?_, ?_, ?_, ?_, ?_⟩
  · intro t' l' k' hd' e
    obtain ⟨hd', hne⟩ := hdialing t' l' k' hd'
    exact hreserved e k' (.inr hne) (h.dialing t' l' k' hd' e)
  · intro t₁ t₂ l₁ l₂ k' hd₁ hd₂
    exact h.apart t₁ t₂ l₁ l₂ k' (hdialing _ _ _ hd₁).1 (hdialing _ _ _ hd₂).1
  · intro t' l' k' l'' i hd' hdel
    obtain ⟨hd', hne⟩ := hdialing t' l' k' hd'
    obtain hdel | ⟨-, -, rfl⟩ := hdelivered l'' i k' hdel
    · exact h.fresh t' l' k' l'' i hd' hdel
    · exact hne rfl
  · intro l' k' hq
    refine hreserved .server k' (.inl rfl) ?_
    obtain hq | rfl := hqueued l' k' hq
    · exact h.queued l' k' hq
    · exact h.dialing t l k' hd .server
  · intro l₁ l₂ i₁ i₂ k' hd₁ hd₂
    obtain ho₁ | ⟨hl₁, hi₁, hk₁⟩ := hdelivered l₁ i₁ k' hd₁ <;>
      obtain ho₂ | ⟨hl₂, hi₂, hk₂⟩ := hdelivered l₂ i₂ k' hd₂
    · exact h.once l₁ l₂ i₁ i₂ k' ho₁ ho₂
    · exact absurd (hk₂ ▸ ho₁) (h.fresh t l k l₁ i₁ hd)
    · exact absurd (hk₁ ▸ ho₂) (h.fresh t l k l₂ i₂ hd)
    · exact ⟨hl₁.trans hl₂.symm, hi₁.trans hi₂.symm⟩
  · intro l' i k' hdel
    simp only [hu, List.length_modify]
    obtain hdel | ⟨-, -, rfl⟩ := hdelivered l' i k' hdel
    · exact h.existing l' i k' hdel
    · obtain ⟨x, hx, -⟩ := h.dialing t l k' hd .client
      exact (List.getElem?_eq_some_iff.mp hx).1
  · intro l' x hx
    obtain ⟨-, rfl⟩ | ⟨-, hx⟩ := Table.getElem?_set_some hx
    · exact (h.flows l listener hl).send hs
    · exact h.flows l' x hx

theorem Carried.accept (h : s.Carried) {listener : MockListener} {channel : Mpsc ℕ} {hasSender : Bool}
    (hl : s.listeners[l]? = some listener) (hr : listener.channel.recv hasSender = .item k channel) :
    Carried { s with
      listeners := s.listeners.set l { listener with channel, accepted := listener.accepted ++ [k] }
      links := s.links.modify k (·.setHolder .server .held) } := by
  set u : MockNet := { s with
    listeners := s.listeners.set l { listener with channel, accepted := listener.accepted ++ [k] }
    links := s.links.modify k (·.setHolder .server .held) } with hu
  obtain ⟨hqueue, -⟩ := Mpsc.recv_item hr
  have hnodup := (h.delivered_nodup hl).sublist (h.flows l listener hl).taken.sublist
  rw [hqueue] at hnodup
  have hnot : k ∉ channel.queue := (List.nodup_cons.mp (List.nodup_append.mp hnodup).2.1).1
  obtain ⟨i₀, hi₀⟩ : ∃ i, s.Delivered l i k :=
    h.delivered_of_queued ⟨listener, hl, hqueue ▸ List.mem_cons_self⟩
  refine h.mono (fun _ _ _ hd => hd) ?_ ?_ ?_ ?_ (by simp [hu]) ?_
  · rintro l' i k' ⟨x, hx, hi⟩
    obtain ⟨rfl, rfl⟩ | ⟨-, hx⟩ := Table.getElem?_set_some hx
    · exact ⟨listener, hl, hi⟩
    · exact ⟨x, hx, hi⟩
  · rintro l' k' ⟨x, hx, hk⟩
    obtain ⟨rfl, rfl⟩ | ⟨-, hx⟩ := Table.getElem?_set_some hx
    · exact ⟨listener, hl, hqueue ▸ List.mem_cons_of_mem _ hk⟩
    · exact ⟨x, hx, hk⟩
  · intro t' l' k' e hd hres
    refine hres.modify ?_
    rintro rfl
    exact absurd hi₀ (h.fresh t' l' k' l i₀ hd)
  · rintro l' k' ⟨x, hx, hk⟩ hres
    refine hres.modify ?_
    rintro rfl
    obtain ⟨rfl, rfl⟩ | ⟨hne, hx⟩ := Table.getElem?_set_some hx
    · exact absurd hk hnot
    · obtain ⟨i, hi⟩ := h.delivered_of_queued ⟨x, hx, hk⟩
      exact absurd (h.once l l' i₀ i k' hi₀ hi).1 hne
  · intro l' x hx
    obtain ⟨-, rfl⟩ | ⟨-, hx⟩ := Table.getElem?_set_some hx
    · exact (h.flows l listener hl).recv hr
    · exact h.flows l' x hx

theorem Carried.setLink (h : s.Carried) {link' : MockLink} (hk : s.links[k]? = some link)
    (hholders : ∀ e, link'.holders e = link.holders e ∨ link.holders e = .held) :
    Carried { s with links := s.links.set k link' } := by
  have hreserved : ∀ e k', s.Reserved e k' → Reserved { s with links := s.links.set k link' } e k' := by
    rintro e k' ⟨x, hx, he⟩
    by_cases hkk : k = k'
    · subst hkk
      cases hk.symm.trans hx
      refine ⟨link', Table.getElem?_set_of_some hk, ?_⟩
      obtain hsame | hheld := hholders e
      · exact hsame.trans he
      · rw [hheld] at he
        cases he
    · exact ⟨x, by rw [List.getElem?_set_ne hkk]; exact hx, he⟩
  exact h.links (by simp) (fun _ _ k' e _ => hreserved e k') fun _ k' _ => hreserved .server k'

theorem Carried.step (h : s.Carried) (hm : s.Moves act u) : u.Carried := by
  cases hm with
  | new =>
      refine h.mono ?_ (fun _ _ _ hd => hd) (fun _ _ hq => hq) (fun _ _ _ _ _ hr => hr) (fun _ _ _ hr => hr) le_rfl
        h.flows
      rintro t l k ⟨x, hx, hd⟩
      obtain hx | ⟨-, rfl⟩ := Table.getElem?_concat_some hx
      · exact ⟨x, hx, hd⟩
      · cases hd
  | @listen t addr transport _ _ =>
      have hidle := (h.dropListener transport.incomingRx).setTransport t (s.registry.insert addr s.listeners.length)
        (show (⟨some addr, some s.listeners.length, some s.listeners.length, none⟩ : MockTransport).dial = none
          from rfl)
      rw [dropListener_transports] at hidle
      exact hidle.addListener rfl rfl
  | fail => exact h
  | dial => exact h.dial
  | abandon _ ht hd => exact h.abandon ⟨_, ht, hd⟩ rfl
  | deliver ht hd hl hs => exact h.deliver ⟨_, ht, hd⟩ rfl hl hs
  | accept _ _ hl hr => exact h.accept hl hr
  | @release _ t transport registry =>
      have hidle := (h.dropListener transport.incomingRx).setTransport t registry
        (show MockTransport.new.dial = none from rfl)
      rwa [dropListener_transports] at hidle
  | link hk _ _ hholders => exact h.setLink hk hholders

end MockNet

end OmniMesh.Transport
