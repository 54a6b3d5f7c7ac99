import Mathlib

namespace NodeConfig

variable {S E : Type}

inductive Run (step : S → E → S → Prop) (s : S) : List E → S → Prop
  | start : Run step s [] s
  | step {es : List E} {e : E} {t u : S} (hrun : Run step s es t) (hstep : step t e u) :
      Run step s (es ++ [e]) u

namespace Run

variable {step : S → E → S → Prop} {s t u : S} {es fs : List E}

theorem one {e : E} (h : step s e t) : Run step s [e] t := Run.start.step h

theorem of_nil (h : Run step s [] t) : t = s := by
  generalize hes : ([] : List E) = es at h
  cases h with
  | start => rfl
  | step => simp at hes

theorem trans (h : Run step s es t) (h' : Run step t fs u) : Run step s (es ++ fs) u := by
  induction h' with
  | start => simpa using h
  | step _ hstep ih =>
    rw [← List.append_assoc]
    exact ih.step hstep

theorem last {e : E} (h : Run step s (es ++ [e]) u) : ∃ t, Run step s es t ∧ step t e u := by
  generalize hfs : es ++ [e] = fs at h
  cases h with
  | start => simp at hfs
  | step hrun hstep =>
    obtain ⟨rfl, he⟩ := List.append_inj' hfs rfl
    cases he
    exact ⟨_, hrun, hstep⟩

theorem of_one {e : E} (h : Run step s [e] u) : step s e u := by
  have hlast : Run step s ([] ++ [e]) u := h
  obtain ⟨t, ht, hstep⟩ := hlast.last
  obtain rfl := ht.of_nil
  exact hstep

/-- A run goes through a state after each of its events. -/
theorem split (h : Run step s (es ++ fs) u) : ∃ t, Run step s es t ∧ Run step t fs u := by
  induction fs using List.reverseRecOn generalizing u with
  | nil => exact ⟨u, by simpa using h, .start⟩
  | append_singleton fs e ih =>
    rw [← List.append_assoc] at h
    obtain ⟨v, hv, hstep⟩ := h.last
    obtain ⟨t, ht, hrun⟩ := ih hv
    exact ⟨t, ht, hrun.step hstep⟩

/-- So the next event of a run is a step from that state. -/
theorem split_cons {e : E} (h : Run step s (es ++ e :: fs) u) :
    ∃ t v, Run step s es t ∧ step t e v ∧ Run step v fs u := by
  rw [← List.singleton_append, ← List.append_assoc] at h
  obtain ⟨v, hv, hrun⟩ := h.split
  obtain ⟨t, ht, hstep⟩ := hv.last
  exact ⟨t, v, ht, hstep, hrun⟩

/-- What every step keeps holds after a run. -/
theorem keeps {P : S → Prop} (hstep : ∀ s e t, P s → step s e t → P t) (h : Run step s es t)
    (hs : P s) : P t := by
  induction h with
  | start => exact hs
  | step _ hlast ih => exact hstep _ _ _ ih hlast

/-- Each event of a run is that of a step from a state on its way. -/
theorem exists_step {e : E} (h : Run step s es t) (he : e ∈ es) :
    ∃ fs u v, Run step s fs u ∧ step u e v := by
  obtain ⟨fs, gs, rfl⟩ := List.append_of_mem he
  obtain ⟨u, v, hrun, hstep, -⟩ := h.split_cons
  exact ⟨fs, u, v, hrun, hstep⟩

end Run

end NodeConfig
