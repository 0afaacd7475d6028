import OmniMesh.Transport.Streams

/-!
# Which stream each end uses
-/

namespace OmniMesh.Transport
open OmniMesh.Core

namespace Endpoint

@[simp] theorem other_other (e : Endpoint) : e.other.other = e := by
  cases e <;> rfl

@[simp] theorem other_ne (e : Endpoint) : e.other ≠ e := by
  cases e <;> simp [other]

@[simp] theorem ne_other (e : Endpoint) : e ≠ e.other := (other_ne e).symm

theorem both {p : Endpoint → Prop} (e : Endpoint) (h : p e) (h' : p e.other) : ∀ x, p x := by
  intro x
  cases e <;> cases x
  · exact h
  · exact h'
  · exact h'
  · exact h

end Endpoint

namespace StreamPair

variable {s t : StreamPair} {act : StreamAct} {e : Endpoint} {conn : QuicEnd} {stream : StreamId}
  {messages : List Bytes}

@[simp] theorem ends_set_self : (s.set e conn).ends e = conn := Function.update_self ..

@[simp] theorem ends_set_other : (s.set e conn).ends e.other = s.ends e.other :=
  Function.update_of_ne (Endpoint.other_ne e) ..

@[simp] theorem unread_set : (s.set e conn).unread = s.unread := rfl

@[simp] theorem ends_setUnread : (s.setUnread stream e messages).ends = s.ends := rfl

@[simp] theorem unread_setUnread_self : (s.setUnread stream e messages).unread stream e = messages := by
  simp [setUnread]

@[simp] theorem unread_setUnread_other {stream' e'} (h : e' ≠ e) :
    (s.setUnread stream e messages).unread stream' e' = s.unread stream' e' := by
  by_cases hs : stream' = stream
  · subst hs
    simp [setUnread, Function.update_of_ne h]
  · simp [setUnread, Function.update_of_ne hs]

theorem unread_setUnread_ne {stream' e'} (h : stream' ≠ stream) :
    (s.setUnread stream e messages).unread stream' e' = s.unread stream' e' := by
  simp [setUnread, Function.update_of_ne h]

/-- What a step can do. -/
inductive Moves (s : StreamPair) : StreamAct → StreamPair → Prop
  | again {e data stream} : (s.ends e).writing = none → (s.ends e).sendStream = some stream →
      Moves s (.send e data) (s.set e { s.ends e with writing := some data })
  | opens {e data} : (s.ends e).writing = none → (s.ends e).sendStream = none →
      Moves s (.send e data) (s.set e { s.ends e with
        sendStream := some ⟨e, (s.ends e).opened⟩
        recvStream := some ⟨e, (s.ends e).opened⟩
        opened := (s.ends e).opened + 1
        writing := some data })
  | writes {e data stream} : (s.ends e).writing = some data → (s.ends e).sendStream = some stream →
      Moves s (.write e)
        ((s.set e { s.ends e with writing := none, sent := (s.ends e).sent ++ [data] }).setUnread
          stream e.other (s.unread stream e.other ++ [data]))
  | accepts {e : Endpoint} : (s.ends e).writing = none → (s.ends e).recvStream = none →
      (s.ends e).accepted < (s.ends e.other).opened → Moves s (.accept e) (s.set e { s.ends e with
        sendStream := some ⟨e.other, (s.ends e).accepted⟩
        recvStream := some ⟨e.other, (s.ends e).accepted⟩
        accepted := (s.ends e).accepted + 1 })
  | reads {e stream message rest} : (s.ends e).recvStream = some stream →
      s.unread stream e = message :: rest → Moves s (.recv e)
        ((s.set e { s.ends e with received := (s.ends e).received ++ [message] }).setUnread
          stream e rest)

theorem step_moves (hs : s.step act = some t) : s.Moves act t := by
  cases act with
  | send e data =>
      simp only [step] at hs
      split at hs
      · rename_i hw
        split at hs
        · rename_i hstream
          cases hs
          exact .again hw hstream
        · rename_i hstream
          cases hs
          exact .opens hw hstream
      · cases hs
  | write e =>
      simp only [step] at hs
      split at hs
      · rename_i hw hstream
        cases hs
        exact .writes hw hstream
      · cases hs
  | accept e =>
      simp only [step] at hs
      split at hs
      · rename_i h
        cases hs
        exact .accepts h.1 h.2.1 h.2.2.1
      · cases hs
  | recv e =>
      simp only [step] at hs
      split at hs
      · rename_i hstream
        split at hs
        · rename_i hunread
          cases hs
          exact .reads hstream hunread
        · cases hs
      · cases hs

theorem step_write {data} (hw : (s.ends e).writing = some data)
    (hstream : (s.ends e).sendStream = some stream) :
    s.step (.write e) = some ((s.set e { s.ends e with
      writing := none, sent := (s.ends e).sent ++ [data] }).setUnread stream e.other
        (s.unread stream e.other ++ [data])) := by
  simp [step, hw, hstream]

/-- The stream of an end: none yet, its own first one or the other end's first one. -/
inductive Uses (s : StreamPair) (e : Endpoint) : Prop
  | nothing : (s.ends e).sendStream = none → (s.ends e).opened = 0 → (s.ends e).accepted = 0 → Uses s e
  | own : (s.ends e).sendStream = some ⟨e, 0⟩ → (s.ends e).opened = 1 → Uses s e
  | theirs : (s.ends e).sendStream = some ⟨e.other, 0⟩ → (s.ends e).opened = 0 →
      (s.ends e.other).sendStream = some ⟨e.other, 0⟩ → Uses s e

/-- The messages of `e` that are on their way. -/
def carried (s : StreamPair) (e : Endpoint) : List Bytes :=
  match (s.ends e).sendStream with
  | some stream => s.unread stream e.other
  | none => []

theorem carried_some (h : (s.ends e).sendStream = some stream) : s.carried e = s.unread stream e.other := by
  simp [carried, h]

theorem carried_none (h : (s.ends e).sendStream = none) : s.carried e = [] := by
  simp [carried, h]

/-- What one end writes is only on the stream it uses, and nothing of it is lost or reordered. -/
structure Wired (s : StreamPair) : Prop where
  recv_eq : ∀ e, (s.ends e).recvStream = (s.ends e).sendStream
  uses : ∀ e, s.Uses e
  idle : ∀ e, (s.ends e).sendStream = none → (s.ends e).writing = none
  only : ∀ e stream, (s.ends e).sendStream ≠ some stream → s.unread stream e.other = []
  flow : ∀ e, (s.ends e.other).received ++ s.carried e = (s.ends e).sent

theorem wired_init : Wired init where
  recv_eq _ := rfl
  uses _ := .nothing rfl rfl rfl
  idle _ _ := rfl
  only _ _ _ := rfl
  flow _ := rfl

theorem Uses.congr (h : s.Uses e)
    (hsame : ∀ x, (t.ends x).sendStream = (s.ends x).sendStream ∧
      (t.ends x).opened = (s.ends x).opened ∧ (t.ends x).accepted = (s.ends x).accepted) : t.Uses e := by
  obtain ⟨hstream, hopened, haccepted⟩ := hsame e
  cases h with
  | nothing hn ho ha => exact .nothing (hstream.trans hn) (hopened.trans ho) (haccepted.trans ha)
  | own hown ho => exact .own (hstream.trans hown) (hopened.trans ho)
  | theirs ht ho hother =>
      exact .theirs (hstream.trans ht) (hopened.trans ho) ((hsame e.other).1.trans hother)

theorem Uses.of_none (h : s.Uses e) (hn : (s.ends e).sendStream = none) :
    (s.ends e).opened = 0 ∧ (s.ends e).accepted = 0 := by
  cases h with
  | nothing _ ho ha => exact ⟨ho, ha⟩
  | own hown _ => simp [hn] at hown
  | theirs ht _ _ => simp [hn] at ht

theorem Uses.of_opened (h : s.Uses e) (ho : 0 < (s.ends e).opened) :
    (s.ends e).sendStream = some ⟨e, 0⟩ ∧ (s.ends e).opened = 1 := by
  cases h with
  | nothing _ h _ => omega
  | own hown h => exact ⟨hown, h⟩
  | theirs _ h _ => omega

/-- An end without a stream opens or accepts one. -/
theorem Wired.take (h : Wired s) (hn : (s.ends e).sendStream = none)
    (hsend : conn.sendStream = some stream) (hrecv : conn.recvStream = some stream)
    (hsent : conn.sent = (s.ends e).sent) (hreceived : conn.received = (s.ends e).received)
    (huses : ∀ x, (s.set e conn).Uses x) : Wired (s.set e conn) where
  recv_eq := Endpoint.both e (by simp [hsend, hrecv]) (by simpa using h.recv_eq e.other)
  uses := huses
  idle := Endpoint.both e (by simp [hsend]) (by simpa using h.idle e.other)
  only := by
    refine Endpoint.both e (fun stream' _ => ?_) (by simpa using h.only e.other)
    exact h.only e stream' (by simp [hn])
  flow := by
    refine Endpoint.both e ?_ ?_
    · have hflow := h.flow e
      have hempty : s.unread stream e.other = [] := h.only e stream (by simp [hn])
      rw [carried_none hn] at hflow
      simpa [carried, hsend, hempty, hsent] using hflow
    · simpa [carried, hreceived] using h.flow e.other

/-- An end with a stream begins another `send`. -/
theorem Wired.again {data} (h : Wired s) (hstream : (s.ends e).sendStream = some stream) :
    Wired (s.set e { s.ends e with writing := some data }) where
  recv_eq := Endpoint.both e (by simpa using h.recv_eq e) (by simpa using h.recv_eq e.other)
  uses x := (h.uses x).congr (Endpoint.both e (by simp) (by simp))
  idle := Endpoint.both e (by simp [hstream]) (by simpa using h.idle e.other)
  only := Endpoint.both e (by simpa using h.only e) (by simpa using h.only e.other)
  flow := Endpoint.both e (by simpa [carried] using h.flow e) (by simpa [carried] using h.flow e.other)

theorem Wired.write {data} (h : Wired s) (hstream : (s.ends e).sendStream = some stream) :
    Wired ((s.set e { s.ends e with writing := none, sent := (s.ends e).sent ++ [data] }).setUnread
      stream e.other (s.unread stream e.other ++ [data])) where
  recv_eq := Endpoint.both e (by simpa using h.recv_eq e) (by simpa using h.recv_eq e.other)
  uses x := (h.uses x).congr (Endpoint.both e (by simp) (by simp))
  idle := Endpoint.both e (by simp) (by simpa using h.idle e.other)
  only := by
    refine Endpoint.both e ?_ ?_
    · intro stream' hne
      have hne' : stream' ≠ stream := by
        rintro rfl
        simp [hstream] at hne
      rw [unread_setUnread_ne hne']
      exact h.only e stream' (by simpa using hne)
    · simpa using h.only e.other
  flow := by
    refine Endpoint.both e ?_ ?_
    · have hflow := h.flow e
      rw [carried_some hstream] at hflow
      simp [carried, hstream, ← hflow]
    · simpa [carried] using h.flow e.other

theorem Wired.read {message rest} (h : Wired s) (hunread : s.unread stream e = message :: rest) :
    Wired ((s.set e { s.ends e with received := (s.ends e).received ++ [message] }).setUnread
      stream e rest) := by
  -- only the stream that the other end uses has messages for `e`
  have hother : (s.ends e.other).sendStream = some stream := by
    by_contra hne
    have := h.only e.other stream hne
    simp [hunread] at this
  constructor
  · exact Endpoint.both e (by simpa using h.recv_eq e) (by simpa using h.recv_eq e.other)
  · exact fun x => (h.uses x).congr (Endpoint.both e (by simp) (by simp))
  · exact Endpoint.both e (by simpa using h.idle e) (by simpa using h.idle e.other)
  · refine Endpoint.both e ?_ ?_
    · simpa using h.only e
    · intro stream' hne
      have hne' : stream' ≠ stream := by
        rintro rfl
        simp [hother] at hne
      rw [unread_setUnread_ne hne']
      exact h.only e.other stream' (by simpa using hne)
  · refine Endpoint.both e ?_ ?_
    · simpa [carried] using h.flow e
    · have hflow := h.flow e.other
      rw [carried_some hother] at hflow
      simpa [carried, hother, hunread] using hflow

theorem Wired.step (h : Wired s) (hs : s.step act = some t) : Wired t := by
  cases step_moves hs with
  | again _ hstream => exact h.again hstream
  | writes _ hstream => exact h.write hstream
  | reads _ hunread => exact h.read hunread
  | @opens e data hw hn =>
      obtain ⟨hopened, -⟩ := (h.uses e).of_none hn
      refine h.take hn rfl rfl rfl rfl (Endpoint.both e ?_ ?_)
      · exact .own (by simp [hopened]) (by simp [hopened])
      · cases h.uses e.other with
        | nothing hn' ho ha => exact .nothing (by simpa using hn') (by simpa using ho) (by simpa using ha)
        | own hown ho => exact .own (by simpa using hown) (by simpa using ho)
        | theirs _ _ hother => simp [hn] at hother
  | @accepts e hw hn hlt =>
      rw [h.recv_eq] at hn
      obtain ⟨hopened, haccepted⟩ := (h.uses e).of_none hn
      obtain ⟨hown, ho⟩ := (h.uses e.other).of_opened (Nat.zero_lt_of_lt hlt)
      refine h.take hn rfl rfl rfl rfl (Endpoint.both e ?_ ?_)
      · exact .theirs (by simp [haccepted]) (by simp [hopened]) (by simpa using hown)
      · exact .own (by simpa using hown) (by simpa using ho)

theorem run_wired {acts} (hr : Lts.run StreamPair.step init acts = some s) : Wired s :=
  Lts.run_invariant (fun _ _ _ h hs => h.step hs) wired_init hr

theorem Wired.received_prefix (h : Wired s) (e : Endpoint) :
    (s.ends e.other).received <+: (s.ends e).sent := ⟨_, h.flow e⟩

/-! ## One stream for both ends -/

/-- At most one end has opened a stream. -/
structure Paired (s : StreamPair) : Prop where
  wired : Wired s
  single : ∀ e, (s.ends e).opened = 0 ∨ (s.ends e.other).opened = 0

theorem paired_init : Paired init := ⟨wired_init, fun _ => .inl rfl⟩

theorem Paired.step (h : Paired s) (halone : s.Alone act) (hs : s.step act = some t) : Paired t := by
  refine ⟨h.wired.step hs, ?_⟩
  cases step_moves hs with
  | @opens e data hw hn =>
      have ho : (s.ends e.other).opened = 0 := halone hn
      exact Endpoint.both e (by simp [ho]) (by simp [ho])
  | @again e => exact Endpoint.both e (by simpa using h.single e) (by simpa using h.single e.other)
  | @writes e => exact Endpoint.both e (by simpa using h.single e) (by simpa using h.single e.other)
  | @accepts e => exact Endpoint.both e (by simpa using h.single e) (by simpa using h.single e.other)
  | @reads e => exact Endpoint.both e (by simpa using h.single e) (by simpa using h.single e.other)

theorem Paired.same_stream {stream'} (h : Paired s) (he : (s.ends e).sendStream = some stream)
    (ho : (s.ends e.other).sendStream = some stream') : stream' = stream := by
  cases h.wired.uses e with
  | nothing hn => simp [he] at hn
  | own hown hopened =>
      cases h.wired.uses e.other with
      | nothing hn => simp [ho] at hn
      | own _ hopened' =>
          have := h.single e
          omega
      | theirs htheirs =>
          rw [Endpoint.other_other, ho] at htheirs
          rw [he] at hown
          cases htheirs
          cases hown
          rfl
  | theirs htheirs _ hother =>
      rw [he] at htheirs
      rw [ho] at hother
      cases htheirs
      cases hother
      rfl

/-- The end `e` gets on with its calls, and the other end makes none. -/
inductive Serves (e : Endpoint) (s : StreamPair) : StreamPair → Prop
  | refl : Serves e s s
  | step {t u act} : Serves e s t → t.step act = some u → t.Alone act →
      (u.ends e.other).sent = (t.ends e.other).sent → Serves e s u

theorem Serves.paired (h : Serves e s t) (hp : Paired s) : Paired t := by
  induction h with
  | refl => exact hp
  | step _ hs halone _ ih => exact ih.step halone hs

theorem Serves.sent (h : Serves e s t) : (t.ends e.other).sent = (s.ends e.other).sent := by
  induction h with
  | refl => rfl
  | step _ _ _ hsent ih => exact hsent.trans ih

theorem Serves.exists_run (h : Serves e s t) : ∃ acts, Lts.run StreamPair.step s acts = some t := by
  induction h with
  | refl => exact ⟨[], rfl⟩
  | @step t u act _ hs _ _ ih =>
      obtain ⟨acts, hr⟩ := ih
      refine ⟨acts ++ [act], ?_⟩
      simp [Lts.run_append, hr, Lts.run, hs]

/-- A `send` under way is finished. -/
theorem Paired.exists_idle (h : Paired s) (e : Endpoint) : ∃ t, Serves e s t ∧
    (t.ends e).writing = none ∧ (t.ends e).received = (s.ends e).received := by
  cases hw : (s.ends e).writing with
  | none => exact ⟨s, .refl, hw, rfl⟩
  | some data =>
      cases hstream : (s.ends e).sendStream with
      | none => simp [h.wired.idle e hstream] at hw
      | some stream =>
          exact ⟨_, .step .refl (step_write hw hstream) trivial (by simp), by simp, by simp⟩

/-- The stream with a message for `e` is the one `e` reads from, or can be accepted. -/
theorem Paired.exists_reading (h : Paired s) (hw : (s.ends e).writing = none)
    (hc : s.carried e.other ≠ []) : ∃ t stream, Serves e s t ∧ (t.ends e).writing = none ∧
      (t.ends e).received = (s.ends e).received ∧ (t.ends e).recvStream = some stream ∧
      t.unread stream e ≠ [] := by
  cases hother : (s.ends e.other).sendStream with
  | none => exact absurd (carried_none hother) hc
  | some stream =>
      rw [carried_some hother, Endpoint.other_other] at hc
      cases hstream : (s.ends e).sendStream with
      | some stream' =>
          cases h.same_stream hstream hother
          exact ⟨s, stream, .refl, hw, rfl, (h.wired.recv_eq e).trans hstream, hc⟩
      | none =>
          have hrecv := (h.wired.recv_eq e).trans hstream
          obtain ⟨_, haccepted⟩ := (h.wired.uses e).of_none hstream
          cases h.wired.uses e.other with
          | nothing hn => simp [hother] at hn
          | theirs _ _ hthis => simp [hstream] at hthis
          | own hown hopened =>
              cases hother.symm.trans hown
              have hs : s.step (.accept e) = some (s.set e { s.ends e with
                  sendStream := some ⟨e.other, (s.ends e).accepted⟩
                  recvStream := some ⟨e.other, (s.ends e).accepted⟩
                  accepted := (s.ends e).accepted + 1 }) := by
                apply if_pos
                exact ⟨hw, hrecv, by omega, by rwa [haccepted]⟩
              exact ⟨_, ⟨e.other, 0⟩, .step .refl hs trivial (by simp), by simpa using hw, by simp,
                by simp [haccepted], by simpa using hc⟩

theorem Serves.trans {u} (h : Serves e s t) (h' : Serves e t u) : Serves e s u := by
  induction h' with
  | refl => exact h
  | step _ hs halone hsent ih => exact .step ih hs halone hsent

theorem Paired.exists_received (h : Paired s) (hc : s.carried e.other ≠ []) : ∃ t, Serves e s t ∧
    (t.ends e).received.length = (s.ends e).received.length + 1 := by
  obtain ⟨t, hst, hw, hreceived⟩ := h.exists_idle e
  have ht := hst.paired h
  have hcarried : t.carried e.other = s.carried e.other := by
    have hflow := ht.wired.flow e.other
    rw [Endpoint.other_other, hreceived, hst.sent, ← h.wired.flow e.other, Endpoint.other_other] at hflow
    exact List.append_cancel_left hflow
  obtain ⟨u, stream, htu, hw', hreceived', hrecv, hunread⟩ := ht.exists_reading hw (hcarried ▸ hc)
  obtain ⟨message, rest, hcons⟩ := List.exists_cons_of_ne_nil hunread
  have hs : u.step (.recv e) = some ((u.set e { u.ends e with
      received := (u.ends e).received ++ [message] }).setUnread stream e rest) := by
    simp [StreamPair.step, hw', hrecv, hcons]
  exact ⟨_, .step (hst.trans htu) hs trivial (by simp), by simp [hreceived', hreceived]⟩

theorem Paired.exists_all_received (h : Paired s) (e : Endpoint) : ∃ t, Serves e s t ∧
    (s.ends e.other).sent.length ≤ (t.ends e).received.length := by
  induction hn : (s.ends e.other).sent.length - (s.ends e).received.length generalizing s with
  | zero => exact ⟨s, .refl, Nat.le_of_sub_eq_zero hn⟩
  | succ n ih =>
      have hc : s.carried e.other ≠ [] := by
        intro hnil
        have hflow := congrArg List.length (h.wired.flow e.other)
        rw [hnil, Endpoint.other_other, List.append_nil] at hflow
        omega
      obtain ⟨t, hst, hlen⟩ := h.exists_received hc
      obtain ⟨u, htu, hle⟩ := ih (hst.paired h) (by rw [hst.sent, hlen]; omega)
      exact ⟨u, hst.trans htu, by rwa [hst.sent] at hle⟩

theorem Paired.not_lost (h : Paired s) (e : Endpoint) (i : Nat) : ¬ s.Lost e i := by
  rintro ⟨hi, hnever⟩
  obtain ⟨t, hst, hle⟩ := h.exists_all_received e.other
  obtain ⟨acts, hr⟩ := hst.exists_run
  have := hnever acts t hr
  rw [Endpoint.other_other] at hle
  omega

/-! ## A stream of each end -/

/-- Both ends have opened a stream, and the other end has read `n` messages of `e`. -/
structure Apart (e : Endpoint) (n : Nat) (s : StreamPair) : Prop where
  wired : Wired s
  opened : ∀ x, 0 < (s.ends x).opened
  received : (s.ends e.other).received.length = n

theorem Apart.keeps {n} (h : Apart e n s) (hs : s.step act = some t) :
    ∀ x, 0 < (t.ends x).opened ∧ (t.ends x).received = (s.ends x).received := by
  have hown x := ((h.wired.uses x).of_opened (h.opened x)).1
  cases step_moves hs with
  | @again x => exact Endpoint.both x (by simpa using h.opened x) (by simpa using h.opened x.other)
  | @writes x => exact Endpoint.both x (by simpa using h.opened x) (by simpa using h.opened x.other)
  | @opens x _ _ hn => simp [hown x] at hn
  | @accepts x _ hn => simp [h.wired.recv_eq x, hown x] at hn
  | @reads x stream message rest hstream hunread =>
      -- `x` reads from its own stream, and the other end writes to another one
      rw [h.wired.recv_eq x, hown x] at hstream
      cases hstream
      have hempty := h.wired.only x.other ⟨x, 0⟩ (by simp [hown x.other])
      simp [hunread] at hempty

theorem Apart.step {n} (h : Apart e n s) (hs : s.step act = some t) : Apart e n t where
  wired := h.wired.step hs
  opened x := (h.keeps hs x).1
  received := by rw [(h.keeps hs e.other).2, h.received]

theorem Apart.lost {n} (h : Apart e n s) (hn : n < (s.ends e).sent.length) : s.Lost e n :=
  ⟨hn, fun _ _ hr => Nat.le_of_eq (Lts.run_invariant (fun _ _ _ h hs => h.step hs) h hr).received⟩

theorem Apart.exists_lost {n d} (h : Apart e n s) (hw : (s.ends e).writing = some d) :
    ∃ more u e i, Lts.run StreamPair.step s more = some u ∧ u.Lost e i := by
  have hwrite := step_write hw ((h.wired.uses e).of_opened (h.opened e)).1
  refine ⟨[.write e], _, e, n, by rw [Lts.run, hwrite]; rfl, (h.step hwrite).lost ?_⟩
  have hle := (h.wired.received_prefix e).length_le
  rw [h.received] at hle
  simpa using Nat.lt_succ_of_le hle

/-- A `send` that opens a second stream writes a message that is never read. -/
theorem exists_lost (h : Wired s) (hs : s.step act = some t) (halone : ¬ s.Alone act) :
    ∃ more u e i, Lts.run StreamPair.step t more = some u ∧ u.Lost e i := by
  have ht := h.step hs
  cases step_moves hs with
  | @opens e data hw hn =>
      have hother : (s.ends e.other).opened ≠ 0 := fun ho => halone fun _ => ho
      refine Apart.exists_lost (e := e) (d := data) ⟨ht, Endpoint.both e ?_ ?_, rfl⟩ (by simp)
      · simp
      · simpa using Nat.pos_of_ne_zero hother
  | again hw hstream => exact absurd (fun hn => by simp [hstream] at hn) halone
  | writes => exact absurd trivial halone
  | accepts => exact absurd trivial halone
  | reads => exact absurd trivial halone

end StreamPair

end OmniMesh.Transport
