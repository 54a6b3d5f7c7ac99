import Mathlib
import NodeConfig.Proofs.Channel.Calls
import NodeConfig.Proofs.Run

namespace NodeConfig

namespace Traffic

variable {ι : Type}

def Event.delivers : Event ι → Bool
  | .notified _ (.ok .delivered) => true
  | .sent _ (.ok ()) => true
  | _ => false

def Event.consumes : Event ι → Bool
  | .received _ taken => taken
  | _ => false

def Event.refused : Event ι → Bool
  | .notified _ (.ok .coalesced) => true
  | .notified _ (.error _) => true
  | .sent _ (.error _) => true
  | _ => false

def delivered (es : List (Event ι)) : ℕ := es.countP Event.delivers

def consumed (es : List (Event ι)) : ℕ := es.countP Event.consumes

theorem Event.of_refused {e : Event ι} (h : e.refused = true) :
    e.delivers = false ∧ e.consumes = false := by
  unfold Event.refused at h
  split at h <;> first | exact ⟨rfl, rfl⟩ | cases h

/-- The slot is filled by a delivery and emptied by a receive that takes a signal; any other event
leaves the channel as it is. Nothing is refused but over a full slot. -/
structure Conserves (c : Channel) (e : Event ι) (c' : Channel) : Prop where
  policy : c'.policy = c.policy
  slot : e.delivers.toNat + c.pending.toNat = e.consumes.toNat + c'.pending.toNat
  other : e.delivers = false → e.consumes = false → c' = c
  full : e.refused = true → c.pending = true

theorem conserves_notified (t : ι) (c : Channel) :
    Conserves c (.notified t c.send.result) c.send.channel := by
  obtain ⟨name, policy, pending⟩ := c
  cases policy <;> cases pending
  · exact ⟨rfl, rfl, nofun, nofun⟩
  · exact ⟨rfl, rfl, fun _ _ => rfl, fun _ => rfl⟩
  · exact ⟨rfl, rfl, nofun, nofun⟩
  · exact ⟨rfl, rfl, fun _ _ => rfl, fun _ => rfl⟩

theorem conserves_trySend (t : ι) (c : Channel) :
    Conserves c (.sent t c.trySend.result) c.trySend.channel := by
  obtain ⟨name, policy, pending⟩ := c
  cases pending
  · exact ⟨rfl, rfl, nofun, nofun⟩
  · exact ⟨rfl, rfl, fun _ _ => rfl, fun _ => rfl⟩

theorem conserves_sendWithin (t : ι) (c : Channel) (ns : ℕ) :
    Conserves c (.sent t (c.sendWithin ns).result) (c.sendWithin ns).channel := by
  obtain ⟨name, policy, pending⟩ := c
  cases pending
  · exact ⟨rfl, rfl, nofun, nofun⟩
  · exact ⟨rfl, rfl, fun _ _ => rfl, fun _ => rfl⟩

theorem conserves_received (t : ι) (c : Channel) :
    Conserves c (.received t c.receive.1) c.receive.2 := by
  obtain ⟨name, policy, pending⟩ := c
  cases pending
  · exact ⟨rfl, rfl, fun _ _ => rfl, nofun⟩
  · exact ⟨rfl, rfl, nofun, nofun⟩

theorem conserves_rfl {c : Channel} {e : Event ι} (hd : e.delivers = false)
    (hc : e.consumes = false) (hr : e.refused = false) : Conserves c e c :=
  ⟨rfl, by rw [hd, hc], fun _ _ => rfl, fun h => absurd hr (by simp [h])⟩

variable [DecidableEq ι] {s s' : State ι} {e : Event ι} {es : List (Event ι)}

theorem Step.conserves (h : Step s e s') : Conserves s.channel e s'.channel := by
  cases h with
  | notify => exact conserves_notified ..
  | tryNotify => exact conserves_trySend ..
  | notifyWithin => exact conserves_sendWithin ..
  | tryRecv => exact conserves_received ..
  | recvWithin => exact conserves_received ..
  | recvBlocking => exact conserves_received ..
  | recv => exact conserves_received ..
  | _ => exact conserves_rfl rfl rfl rfl

/-- A send as the policy says: merging never fails, and waiting never merges. -/
theorem Step.notified_outcome {t : ι} {r : Except SendFault SendOutcome}
    (h : Step s (.notified t r) s') :
    (s.channel.policy = .coalesce → ∃ o, r = .ok o) ∧
      (s.channel.policy ≠ .coalesce → r ≠ .ok .coalesced) := by
  cases h with
  | notify =>
    obtain ⟨⟨name, policy, pending⟩, stage⟩ := s
    cases policy with
    | coalesce => cases pending <;> exact ⟨fun _ => ⟨_, rfl⟩, fun h => absurd rfl h⟩
    | block ns => cases pending <;> exact ⟨nofun, nofun⟩

theorem Run.policy {c : Channel} (h : Run Step (.begin c) es s) : s.channel.policy = c.policy :=
  h.keeps (P := fun u => u.channel.policy = c.policy)
    (fun _ _ _ hu hs => hs.conserves.policy.trans hu) rfl

theorem Run.conserves {c : Channel} (h : Run Step (.begin c) es s) :
    delivered es + c.pending.toNat = consumed es + s.channel.pending.toNat := by
  induction h with
  | start => rfl
  | @step es e u v _ hstep ih =>
    have hslot := hstep.conserves.slot
    have hd : delivered (es ++ [e]) = delivered es + e.delivers.toNat := by
      cases h : e.delivers <;> simp [delivered, h]
    have hc : consumed (es ++ [e]) = consumed es + e.consumes.toNat := by
      cases h : e.consumes <;> simp [consumed, h]
    omega

/-- Over every run of a channel that begins empty, the signals delivered are those taken and the one
in the slot. A send that ended otherwise found the slot full and changed nothing. A send on a
merging channel does not fail, and one on a waiting channel is not merged. -/
theorem signals_accounted {c : Channel} (hc : c.pending = false) (h : Run Step (.begin c) es s) :
    delivered es = consumed es + s.channel.pending.toNat ∧
      (∀ e s', Step s e s' → e.refused = true →
        s.channel.pending = true ∧ s'.channel = s.channel ∧
        delivered (es ++ [e]) = delivered es ∧ consumed (es ++ [e]) = consumed es) ∧
      ∀ t r, .notified t r ∈ es → (c.policy = .coalesce → ∃ o, r = .ok o) ∧
        (c.policy ≠ .coalesce → r ≠ .ok .coalesced) := by
  refine ⟨?_, ?_, ?_⟩
  · have hconserves := Run.conserves h
    rwa [hc] at hconserves
  · intro e s' hs he
    obtain ⟨hd, hc⟩ := Event.of_refused he
    exact ⟨hs.conserves.full he, hs.conserves.other hd hc, by simp [delivered, hd],
      by simp [consumed, hc]⟩
  · intro t r hr
    obtain ⟨fs, u, v, hrun, hs⟩ := h.exists_step hr
    have hpolicy := Run.policy hrun
    rw [← hpolicy]
    exact hs.notified_outcome

/-- A sender parks behind a signal, is woken when it is taken, loses the slot to another, parks
again and runs out of time. -/
theorem signals_accounted_loser : ∃ (es : List (Event ℕ)) (s : State ℕ),
    Run Step (.begin (.make "bootstrap_key" (.block 5))) es s ∧
      .notified 1 (.error (.timeout 5)) ∈ es ∧ delivered es = 2 ∧ consumed es = 1 ∧
      delivered es = consumed es + s.channel.pending.toNat := by
  have hbegin : Run Step (.begin (.make "bootstrap_key" (.block 5)) : State ℕ) [] _ := .start
  have hfirst := ((hbegin.step (.call (t := 0) rfl .notify)).step (.notify (t := 0) rfl)).step
    (.unparkSent (t := 0) rfl)
  have hparked := (hfirst.step (.call (t := 1) rfl .notify)).step (.park (t := 1) rfl rfl)
  have htaken := ((hparked.step (.call (t := 2) rfl .tryRecv)).step (.tryRecv (t := 2) rfl)).step
    (.unparkTaken (t := 2) rfl)
  have hlost := ((htaken.step (.call (t := 3) rfl .tryNotify)).step (.tryNotify (t := 3) rfl)).step
    (.park (t := 1) rfl rfl)
  have hended := (hlost.step (.stir (t := 1) rfl (by decide))).step (.notify (t := 1) rfl)
  exact ⟨_, _, hended, by simp; rfl, rfl, rfl, (signals_accounted rfl hended).1⟩

end Traffic

end NodeConfig
