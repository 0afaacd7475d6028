import OmniMesh.Transport.Lemmas.MockRegistry

/-!
# The in-memory transport
-/

namespace OmniMesh.Transport
open OmniMesh.Core

/-! ## One connection -/

/-- What the two applications see of a connection is a run of two fifos, and all that an end has not read
yet waits for it until it is dropped. -/
theorem mock_connection_refines_duplex (k : ℕ) {acts : List MockAct} {s : MockNet}
    (hrun : Lts.run MockNet.step .init acts = some s) :
    ∃ d, Lts.run Duplex.step .init (Lts.observe MockNet.step (MockNet.label k) .init acts) = some d ∧
      ∀ link, s.links[k]? = some link → ∀ e, (d e).sent = link.sent e ∧ (d e).got = link.received e.other ∧
        (link.holders e.other ≠ .dropped → (d e).sent = (d e).got ++ (link.channels e.other).queue) := by
  obtain ⟨d, hd, -, hmatches⟩ := (MockNet.simulates k).run (MockNet.refines_init k) hrun
  refine ⟨d, hd, fun link hk e => ?_⟩
  rw [hk] at hmatches
  obtain ⟨hsent, hgot⟩ := hmatches.histories e
  refine ⟨hsent, hgot, fun hheld => ?_⟩
  rw [hsent, hgot, hmatches.flows.flow e.other hheld, Endpoint.other_other]

def nodeAddr (n : UInt16) : SocketAddr := .v4 (Vector.replicate 4 127) n

/-- One transport listens and another one dials it; both applications then hold their ends. -/
def mockMeeting : List MockAct :=
  [.new, .new, .listen 0 (nodeAddr 9), .connect 1 (nodeAddr 9), .deliver 1, .accept 0]

theorem mock_connection_refines_duplex_meeting :
    ∃ s d, Lts.run MockNet.step .init (mockMeeting ++ [.send 0 .client [7], .recv 0 .server]) = some s ∧
      Lts.run Duplex.step .init [.send .client [7], .recv .server [7]] = some d := by
  have hrun : ∃ s, Lts.run MockNet.step .init (mockMeeting ++ [.send 0 .client [7], .recv 0 .server]) = some s :=
    ⟨_, rfl⟩
  obtain ⟨s, hs⟩ := hrun
  obtain ⟨d, hd, -⟩ := mock_connection_refines_duplex 0 hs
  exact ⟨s, d, hs, hd⟩

/-- What a `recv` and a `send` return, by what was sent and received before. That the other end has called
`close` shows in neither; only that it was dropped does. -/
theorem mock_results {acts : List MockAct} {s : MockNet} {k : ℕ} {e : Endpoint} {link : MockLink}
    (hrun : Lts.run MockNet.step .init acts = some s) (hheld : s.held k e = some link) :
    (s.recv k e).map Prod.fst = (
      if !(link.conns e).connected then some (.ok none)
      else match (link.sent e.other)[(link.received e).length]? with
        | some data => some (.ok (some data))
        | none => if link.holders e.other = .dropped then some (.ok none) else none) ∧
    ∀ data, (s.send k e data).map Prod.fst = (
      if !(link.conns e).connected then some (.error (.connection "not connected"))
      else if link.holders e.other = .dropped then some (.error (.connection "send channel closed"))
      else if (link.sent e).length = (link.received e.other).length + mockCapacity then none
      else some (.ok ())) := by
  obtain ⟨hk, he⟩ := MockNet.held_eq_some.mp hheld
  have hflows := MockNet.run_flows hrun hk
  constructor
  · rw [MockNet.recv, hheld, Option.bind_some, Option.map_map]
    exact hflows.recv_result (by simp [he])
  · intro data
    rw [MockNet.send, hheld, Option.bind_some, Option.map_map]
    exact hflows.send_result data

/-- The client has closed and dropped its end after one message. -/
theorem mock_results_after_drop :
    ∃ s link, Lts.run MockNet.step .init
        (mockMeeting ++ [.send 0 .client [7], .close 0 .client, .drop 0 .client]) = some s ∧
      s.held 0 .server = some link ∧ (s.recv 0 .server).map Prod.fst = some (.ok (some [7])) ∧
      (s.send 0 .server [8]).map Prod.fst = some (.error (.connection "send channel closed")) := by
  have hrun : ∃ s link, Lts.run MockNet.step .init
        (mockMeeting ++ [.send 0 .client [7], .close 0 .client, .drop 0 .client]) = some s ∧
      s.held 0 .server = some link ∧ (link.conns .server).connected = true ∧ link.sent .client = [[7]] ∧
      link.received .server = [] ∧ link.holders .client = .dropped := ⟨_, _, rfl, rfl, rfl, rfl, rfl, rfl⟩
  obtain ⟨s, link, hs, hheld, hconn, hsent, hgot, hdropped⟩ := hrun
  obtain ⟨hrecv, hsend⟩ := mock_results hs hheld
  refine ⟨s, link, hs, hheld, ?_, ?_⟩
  · simpa [hconn, Endpoint.other, hsent, hgot] using hrecv
  · simpa [hconn, Endpoint.other, hdropped] using hsend [8]

/-! ## Listeners -/

/-- What `accept` returns: an error only to a transport that is not listening, else the oldest connection
that no `accept` has returned before, and its two ends agree on both addresses. -/
theorem mock_accept_pairs {acts : List MockAct} {s u : MockNet} {t : ℕ} {r : Result ℕ}
    (hrun : Lts.run MockNet.step .init acts = some s) (haccept : s.accept t = some (r, u)) :
    ∃ transport, s.transports[t]? = some transport ∧
      ((r = .error (.transport "not listening") ∧ transport.localAddr = none) ∨
        ∃ k addr l listener link, r = .ok k ∧ transport.localAddr = some addr ∧ transport.incomingRx = some l ∧
          (∀ (l' : ℕ) (x : MockListener), s.listeners[l']? = some x → k ∉ x.accepted) ∧
          u.listeners[l]? = some listener ∧ listener.accepted.getLast? = some k ∧
          listener.accepted <+: listener.delivered ∧
          u.links[k]? = some link ∧ link.holders .server = .held ∧
          (link.conns .server).localAddr = addr ∧ (link.conns .client).remoteAddr = addr ∧
          (link.conns .server).remoteAddr = (link.conns .client).localAddr) := by
  obtain ⟨hcarried, hreg⟩ := MockNet.run_registered hrun
  obtain ⟨transport, ht, ⟨herr, hrx, -⟩ | ⟨l, k, listener, channel, hrx, hl, hr, hok, hu⟩⟩ :=
    MockNet.accept_cases hreg haccept
  · exact ⟨transport, ht, .inl ⟨herr, hreg.unbound t transport ht hrx⟩⟩
  · subst hu
    obtain ⟨-, x, hx, -, haddr, -⟩ := hreg.listening t transport l ht hrx
    cases hl.symm.trans hx
    obtain ⟨hqueue, -⟩ := Mpsc.recv_item hr
    have hq : s.Queued l k := ⟨listener, hl, hqueue ▸ List.mem_cons_self⟩
    obtain ⟨i, hi⟩ := hcarried.delivered_of_queued hq
    obtain ⟨y, link, hy, hk, hremote⟩ := hreg.reached l i k hi
    cases hl.symm.trans hy
    obtain ⟨hm₁, hm₂⟩ := hreg.mirrored k link hk
    have htaken := ((hcarried.flows l listener hl).recv hr).taken
    exact ⟨transport, ht, .inr ⟨k, listener.addr, l, _, link.setHolder .server .held, hok, haddr, hrx,
      hcarried.not_accepted hq, Table.getElem?_set_of_some hl, by simp, (List.prefix_append _ _).trans htaken,
      by simp [hk], by simp [MockLink.setHolder], hm₁.trans hremote, hremote, hm₂⟩⟩

theorem mock_accept_pairs_meeting :
    ∃ s u link, Lts.run MockNet.step .init (mockMeeting.take 5) = some s ∧ s.accept 0 = some (.ok 0, u) ∧
      u.links[0]? = some link ∧ (link.conns .server).localAddr = nodeAddr 9 := by
  have hrun : ∃ s u, Lts.run MockNet.step .init (mockMeeting.take 5) = some s ∧ s.accept 0 = some (.ok 0, u) ∧
      ∀ transport, s.transports[0]? = some transport → transport.localAddr = some (nodeAddr 9) :=
    ⟨_, _, rfl, rfl, fun _ ht => by cases ht; rfl⟩
  obtain ⟨s, u, hs, haccept, haddr⟩ := hrun
  obtain ⟨transport, ht, ⟨herr, -⟩ | ⟨k, addr, l, listener, link, hok, ha, -, -, -, -, -, hk, -, hlocal, -⟩⟩ :=
    mock_accept_pairs hs haccept
  · cases herr
  · cases hok
    cases ha.symm.trans (haddr transport ht)
    exact ⟨s, u, link, hs, haccept, hk, hlocal⟩

/-- After a `shutdown` every `connect` to the address of the transport is refused until someone listens there
again, also when another transport had come to listen at the same address before. -/
theorem mock_shutdown_hides_address {acts : List MockAct} {s u w : MockNet} {t t' : ℕ} {addr : SocketAddr}
    {transport caller : MockTransport} (ht : s.transports[t]? = some transport)
    (haddr : transport.localAddr = some addr) (hdown : s.shutdown t = some u)
    (hrun : Lts.run MockNet.step u acts = some w) (hquiet : ∀ t, MockAct.listen t addr ∉ acts)
    (hfree : w.free t' = some caller) :
    w.connect t' addr = some (.error (.connection s!"no listener at {addr.toText}"), w) := by
  have hnone : u.registry.lookup addr = none := by
    obtain ⟨x, hx, rfl⟩ := Option.map_eq_some_iff.mp hdown
    cases ht.symm.trans (MockNet.free_eq_some.mp hx).1
    simp [haddr]
  rw [MockNet.connect, hfree, Option.map_some, MockNet.run_unlisted hnone hquiet hrun]

/-- Two transports listen at one address; the first one leaves. -/
theorem mock_shutdown_hides_address_shared :
    ∃ s u x y, Lts.run MockNet.step .init
        [.new, .new, .new, .listen 0 (nodeAddr 9), .listen 1 (nodeAddr 9)] = some s ∧ s.shutdown 0 = some u ∧
      u.transports[1]? = some x ∧ x.localAddr = some (nodeAddr 9) ∧ u.connect 2 (nodeAddr 9) = some (.error y, u) := by
  have hrun : ∃ s u transport x caller, Lts.run MockNet.step .init
        [.new, .new, .new, .listen 0 (nodeAddr 9), .listen 1 (nodeAddr 9)] = some s ∧ s.shutdown 0 = some u ∧
      s.transports[0]? = some transport ∧ transport.localAddr = some (nodeAddr 9) ∧
      u.transports[1]? = some x ∧ x.localAddr = some (nodeAddr 9) ∧ u.free 2 = some caller :=
    ⟨_, _, _, _, _, rfl, rfl, rfl, rfl, rfl, rfl, rfl⟩
  obtain ⟨s, u, transport, x, caller, hs, hdown, ht, haddr, hx, hxaddr, hfree⟩ := hrun
  exact ⟨s, u, x, _, hs, hdown, hx, hxaddr,
    mock_shutdown_hides_address ht haddr hdown (show Lts.run MockNet.step u [] = some u from rfl) (by simp) hfree⟩

end OmniMesh.Transport
