import Mathlib
import NodeConfig.Channel

namespace NodeConfig

namespace Channel

variable {c : Channel} {left : ℕ}

theorem receiveWaiting_eq (c : Channel) (left : ℕ) : c.receiveWaiting left =
    (left - c.pending.toNat, { c with pending := decide (left < c.pending.toNat) }) := by
  obtain ⟨name, policy, pending⟩ := c
  cases pending with
  | false => simp [receiveWaiting]
  | true => cases left <;> simp [receiveWaiting, receive]

/-- Sends meet a receiver that takes `left` signals, the one that may be pending among them. They
succeed as long as it takes the one before, and once more into the empty slot. The rest run out of
time. -/
theorem pump_eq (c : Channel) (ns left n : ℕ) : c.pump ns left n =
    (List.replicate (min n (left + 1 - c.pending.toNat)) (.ok ()) ++
      List.replicate (n - (left + 1 - c.pending.toNat)) (.error (.timeout ns)),
      left - (n + c.pending.toNat),
      { c with pending := decide (left < n + c.pending.toNat) }) := by
  induction n generalizing c left with
  | zero => simp [pump, receiveWaiting_eq]
  | succ n ih =>
    have hmin : ∀ m, min (n + 1) (m + 1) = min n m + 1 := fun m => by omega
    obtain ⟨name, policy, pending⟩ := c
    cases pending with
    | false => simp [pump, receiveWaiting_eq, sendWithin, raise, ih, hmin, List.replicate_succ]
    | true =>
      cases left with
      | zero => simp [pump, receiveWaiting_eq, sendWithin, ih, List.replicate_succ]
      | succ left =>
        have hlt : left < n + 1 ↔ left + 1 < n + 1 + 1 := by omega
        simp [pump, receiveWaiting_eq, sendWithin, raise, ih, hmin, hlt, List.replicate_succ]

/-- So none of them fails where the receiver takes as many as there are, and the slot is empty in
the end. -/
theorem pump_served (ns : ℕ) {n : ℕ} (h : n + c.pending.toNat ≤ left) : c.pump ns left n =
    (List.replicate n (.ok ()), left - (n + c.pending.toNat), { c with pending := false }) := by
  have hroom : n ≤ left + 1 - c.pending.toNat := by omega
  have hlt : ¬ left < n + c.pending.toNat := by omega
  rw [pump_eq, min_eq_left hroom, Nat.sub_eq_zero_of_le hroom]
  simp [hlt]

/-- What was sent or pending before is what was taken or is pending after. -/
theorem pump_accounted (c : Channel) (ns left n : ℕ) :
    (c.pump ns left n).1.countP (·.isOk) + c.pending.toNat =
      (left - (c.pump ns left n).2.1) + (c.pump ns left n).2.2.pending.toNat := by
  have hp : c.pending.toNat ≤ 1 := Bool.toNat_le c.pending
  simp only [pump_eq, List.countP_append, List.countP_replicate, Except.isOk, Except.toBool,
    if_true, Bool.false_eq_true, if_false]
  by_cases h : left < n + c.pending.toNat
  · simp only [h, decide_true, Bool.toNat_true]
    omega
  · simp only [h, decide_false, Bool.toNat_false]
    omega

/-- A send to one who waits is delivered and received, also where a signal was pending: that one is
taken first, and the new one stays. -/
theorem sendToWaiting_eq (c : Channel) :
    c.sendToWaiting = (⟨.ok .delivered, c, .count (.send c.name .delivered)⟩, true) := by
  obtain ⟨name, policy, pending⟩ := c
  cases policy <;> cases pending <;> rfl

end Channel

end NodeConfig
