import OmniMesh.Transport.Lemmas.Duplex
import OmniMesh.Transport.Lemmas.Mock

/-!
# Connections of the in-memory transport as what a connection is for
-/

namespace OmniMesh.Transport
open OmniMesh.Core

namespace MockLink

variable {link link' : MockLink} {d : Duplex} {seen : DuplexAct}

/-- The histories of a connection are those of its two fifos. -/
structure Matches (link : MockLink) (d : Duplex) : Prop where
  flows : link.Flows
  histories : d.Shows link.sent fun e => link.received e.other

theorem Moves.matches_silent (hm : link.Moves none link') (h : link.Matches d) : link'.Matches d := by
  refine ⟨hm.flows h.flows, ?_⟩
  cases hm <;> exact h.histories

theorem Moves.matches_visible (hm : link.Moves (some seen) link') (h : link.Matches d) :
    ∃ d', d.step seen = some d' ∧ link'.Matches d' := by
  have hflows := hm.flows h.flows
  cases hm with
  | @send e data channel hs =>
      refine (h.histories.send ?_ ?_ fun _ => ?_).imp fun d' hd => ⟨hd.1, hflows, hd.2⟩
      all_goals simp
  | @recv e data channel hasSender hr =>
      obtain ⟨hqueue, -⟩ := Mpsc.recv_item hr
      obtain ⟨rest, hrest⟩ := h.flows.taken e
      have hnext : link.sent e.other = link.received e.other.other ++ data :: (channel.queue ++ rest) := by
        rw [Endpoint.other_other, ← hrest, hqueue]
        simp
      refine (h.histories.recv hnext (fun _ => ?_) ?_ ?_).imp fun d' hd => ⟨hd.1, hflows, hd.2⟩
      all_goals simp

end MockLink

namespace MockNet

variable {s u : MockNet} {act : MockAct} {k l : ℕ} {link : MockLink}

theorem label_none (hk : s.links[k]? = none) : s.label k act = none := by
  have hheld : ∀ e, s.held k e = none := fun e => by simp [held, hk]
  cases act with
  | send j e data => simp [label, MockNet.send, hheld]
  | recv j e => simp [label, MockNet.recv, hheld]
  | _ => rfl

theorem dropListener_link (r : Option ℕ) (hk : s.links[k]? = some link) :
    ∃ link', (s.dropListener r).links[k]? = some link' ∧ link.Moves none link' := by
  classical
  rw [dropListener_getElem?_links, hk]
  by_cases hq : ∃ l, r = some l ∧ s.Queued l k
  · exact ⟨link.drop .server, by simp [hq], .drop⟩
  · exact ⟨link, by simp [hq], .stay⟩

theorem modify_link {f : MockLink → MockLink} (j : ℕ) (hk : s.links[k]? = some link)
    (hf : j = k → link.Moves none (f link)) :
    ∃ link', (s.links.modify j f)[k]? = some link' ∧ link.Moves none link' := by
  by_cases hj : j = k
  · exact ⟨f link, by simp [hj, hk], hf hj⟩
  · exact ⟨link, by simp [hj, hk], .stay⟩

theorem Carried.link_moves (h : s.Carried) (hm : s.Moves act u) (hk : s.links[k]? = some link) :
    ∃ link', u.links[k]? = some link' ∧ link.Moves (s.label k act) link' := by
  cases hm with
  | new => exact ⟨link, hk, .stay⟩
  | listen => exact dropListener_link _ hk
  | fail hsilent => exact ⟨link, hk, hsilent k ▸ .stay⟩
  | dial => exact ⟨link, Table.getElem?_concat_of_some hk, .stay⟩
  | abandon hact =>
      have hsilent : s.label k act = none := by rcases hact with rfl | rfl <;> rfl
      rw [hsilent]
      exact modify_link _ hk fun _ => .dropBoth
  | deliver ht hd =>
      refine modify_link _ hk ?_
      rintro rfl
      obtain ⟨x, hx, he⟩ := h.dialing _ _ _ ⟨_, ht, hd⟩ .client
      cases hk.symm.trans hx
      exact .hold he
  | accept ht hrx hl hr =>
      refine modify_link _ hk ?_
      rintro rfl
      obtain ⟨hqueue, -⟩ := Mpsc.recv_item hr
      obtain ⟨x, hx, he⟩ := h.queued _ _ ⟨_, hl, hqueue ▸ List.mem_cons_self⟩
      cases hk.symm.trans hx
      exact .hold he
  | release hact =>
      have hsilent : s.label k act = none := by rcases hact with rfl | rfl <;> rfl
      rw [hsilent]
      exact dropListener_link _ hk
  | @link _ j _ link' hj hm hsilent =>
      by_cases hjk : j = k
      · subst hjk
        cases hk.symm.trans hj
        exact ⟨link', Table.getElem?_set_of_some hj, hm⟩
      · rw [hsilent k (Ne.symm hjk)]
        exact ⟨link, by rw [List.getElem?_set_ne hjk]; exact hk, .stay⟩

theorem Moves.new_link (hm : s.Moves act u) (hk : s.links[k]? = none) :
    u.links[k]? = none ∨ ∃ local' addr, u.links[k]? = some (.new local' addr) := by
  cases hm with
  | new | fail => exact .inl hk
  | listen | release => exact .inl (by simp [dropListener_getElem?_links, hk])
  | @dial _ _ addr transport =>
      obtain hlt | hge := Nat.lt_or_ge k (s.links.length + 1)
      · have hlen : s.links.length = k :=
          Nat.le_antisymm (List.getElem?_eq_none_iff.mp hk) (Nat.lt_succ_iff.mp hlt)
        exact .inr ⟨_, addr, by subst hlen; exact List.getElem?_concat_length ..⟩
      · exact .inl (List.getElem?_eq_none_iff.mpr (by simpa using hge))
  | abandon | deliver | accept => exact .inl (by simpa using hk)
  | link => exact .inl (by simpa using hk)

/-- A state and the duplex that connection `k` has been so far. -/
def Refines (k : ℕ) (s : MockNet) (d : Duplex) : Prop :=
  s.Carried ∧ match s.links[k]? with
    | none => d = .init
    | some link => link.Matches d

theorem refines_init (k : ℕ) : Refines k .init .init := ⟨.init, rfl⟩

theorem simulates (k : ℕ) : Lts.Simulates MockNet.step Duplex.step (MockNet.label k) (Refines k) where
  silent s act u d hR hs hl := by
    obtain ⟨hcarried, hR⟩ := hR
    have hm := step_moves hs
    refine ⟨hcarried.step hm, ?_⟩
    cases hk : s.links[k]? with
    | none =>
        rw [hk] at hR
        subst hR
        obtain hnone | ⟨local', addr, hnew⟩ := hm.new_link hk
        · simp [hnone]
        · rw [hnew]
          exact ⟨MockLink.new_flows _ _, fun _ => ⟨rfl, rfl⟩⟩
    | some link =>
        rw [hk] at hR
        obtain ⟨link', hk', hm⟩ := hcarried.link_moves hm hk
        rw [hk']
        exact (hl ▸ hm).matches_silent hR
  visible s act u d seen hR hs hl := by
    obtain ⟨hcarried, hR⟩ := hR
    have hm := step_moves hs
    cases hk : s.links[k]? with
    | none =>
        rw [label_none hk] at hl
        cases hl
    | some link =>
        rw [hk] at hR
        obtain ⟨link', hk', hm'⟩ := hcarried.link_moves hm hk
        obtain ⟨d', hd', hR'⟩ := (hl ▸ hm').matches_visible hR
        exact ⟨d', hd', hcarried.step hm, by rw [hk']; exact hR'⟩

theorem run_flows {acts : List MockAct} (hrun : Lts.run MockNet.step .init acts = some s)
    (hk : s.links[k]? = some link) : link.Flows := by
  obtain ⟨d, -, -, hmatches⟩ := (simulates k).run (refines_init k) hrun
  rw [hk] at hmatches
  exact hmatches.flows

end MockNet

end OmniMesh.Transport
