import Mathlib
import NodeConfig.Proofs.Cell.Calls

namespace NodeConfig.Cell

variable {ι : Type} {s s' : State ι} {e : Event ι} {es fs : List (Event ι)} {t u : ι}
  {call : Call} {answer : Answer} {value : String}

/-- A thread is in no call, or the effect of its call is due, or it owes the answer. -/
inductive Turn where
  | idle
  | due (call : Call)
  | owes (answer : Answer)

def Stage.turn (text : Handle → String) : Stage → Turn
  | .idle => .idle
  | .called call => .due call
  | .storing own => .due (.store (text own))
  | .swapping own => .due (.swap (text own))
  | .trying own _ | .looking own _ _ | .exchanging own _ _ _ => .due (.storeIfEmpty (text own))
  | .took handle => .owes (.value (text handle))
  | .finished answer => .owes answer

def State.turn (s : State ι) (t : ι) : Turn := (s.stage t).turn s.text

inductive Turn.Moves : Turn → Mark → Turn → Prop
  | call (call : Call) : Moves .idle (.call call) (.due call)
  | inner (turn : Turn) : Moves turn .inner turn
  | effect (call : Call) (answer : Answer) : Moves (.due call) (.effect call answer) (.owes answer)
  | returned (answer : Answer) : Moves (.owes answer) (.returned answer) .idle

theorem Turn.Moves.of_call {turn turn' : Turn} (h : turn.Moves (.call call) turn') :
    turn = .idle ∧ turn' = .due call := by
  cases h
  exact ⟨rfl, rfl⟩

theorem Turn.Moves.of_inner {turn turn' : Turn} (h : turn.Moves .inner turn') : turn' = turn := by
  cases h
  rfl

theorem Turn.Moves.of_effect {turn turn' : Turn} (h : turn.Moves (.effect call answer) turn') :
    turn = .due call ∧ turn' = .owes answer := by
  cases h
  exact ⟨rfl, rfl⟩

theorem Turn.Moves.of_returned {turn turn' : Turn} (h : turn.Moves (.returned answer) turn') :
    turn = .owes answer ∧ turn' = .idle := by
  cases h
  exact ⟨rfl, rfl⟩

theorem Stage.turn_congr {stage : Stage} {text text' : Handle → String}
    (h : ∀ k ∈ stage.handles, text' k = text k) : stage.turn text' = stage.turn text := by
  cases stage <;> simp_all [turn, handles]

variable [DecidableEq ι]

/-- A handle in use keeps its text. -/
theorem Step.text_eq (h : Step s e s') {k : Handle} (hk : s.InUse k) : s'.text k = s.text k := by
  cases h with
  | allocate h hown hstart =>
    refine Function.update_of_ne ?_ ..
    rintro rfl
    exact hown hk
  | _ => rfl

theorem Step.stage_of_ne (h : Step s e s') (ht : t ≠ e.thread) : s'.stage t = s.stage t := by
  cases h <;> exact Function.update_of_ne ht ..

theorem Step.turn_of_ne (h : Step s e s') (ht : t ≠ e.thread) : s'.turn t = s.turn t := by
  rw [State.turn, h.stage_of_ne ht]
  exact Stage.turn_congr fun k hk => h.text_eq (.inr ⟨t, hk⟩)

theorem Step.turn (h : Step s e s') : (s.turn e.thread).Moves e.mark (s'.turn e.thread) := by
  cases h with
  | @allocate t call h own hown text next hstart =>
    cases call <;> cases hstart <;>
      simpa [State.turn, State.move, Stage.turn, h] using .inner _
  | look h =>
    simp only [State.turn, State.move, Function.update_self, h]
    split_ifs <;> exact .inner _
  | _ h =>
    simp only [State.turn, State.move, Function.update_self, h, Stage.turn]
    constructor

def Stage.Sound (text : Handle → String) : Stage → Prop
  | .exchanging own seen new written =>
    if text seen = "" then new = own ∧ written = true else new = seen ∧ written = false
  | _ => True

def State.Sound (s : State ι) : Prop := ∀ t, (s.stage t).Sound s.text

theorem Stage.sound_congr {stage : Stage} {text text' : Handle → String}
    (h : ∀ k ∈ stage.handles, text' k = text k) (hs : stage.Sound text) : stage.Sound text' := by
  cases stage <;> simp_all [Sound, handles]

theorem Step.sound (h : Step s e s') (hs : s.Sound) : s'.Sound := by
  intro t
  by_cases ht : t = e.thread
  · cases h with
    | @allocate t call h own hown text next hstart =>
      obtain rfl := ht
      cases call <;> cases hstart <;> simp [State.move, Stage.Sound]
    | look h =>
      obtain rfl := ht
      simp only [State.move, Function.update_self]
      split_ifs with hseen <;> simp [Stage.Sound, hseen]
    | _ h =>
      obtain rfl := ht
      simp [State.move, Stage.Sound]
  · rw [h.stage_of_ne ht]
    -- What another thread has looked at keeps its text, since the handle is in use.
    exact Stage.sound_congr (fun k hk => h.text_eq (.inr ⟨t, hk⟩)) (hs t)

/-- A step with an effect is a call by itself. Other steps leave the cell alone. -/
def Mark.Acts (c : Cell String) (m : Mark) (c' : Cell String) : Prop :=
  match m with
  | .effect call answer => call.perform c = (answer, c')
  | _ => c' = c

theorem Step.acts (h : Step s e s') (hs : s.Sound) : e.mark.Acts s.cell s'.cell := by
  cases h with
  | allocate h hown hstart =>
    have hcurrent := (Step.allocate h hown hstart).text_eq (.inl rfl)
    exact congrArg Cell.mk hcurrent
  | @exchange t own seen new written h hseen =>
    have hdecided := hs t
    rw [h] at hdecided
    -- The handle that was looked at is the one the cell has, so the text decided on is its value.
    subst hseen
    simp only [Stage.Sound] at hdecided
    split_ifs at hdecided with hempty
    all_goals
      obtain ⟨rfl, rfl⟩ := hdecided
      simp [Mark.Acts, Call.perform, storeIfEmpty, isEmpty, State.cell, State.move, hempty]
  | _ => rfl

theorem sound_of_run (h : Run Step (.begin value) es s) : s.Sound :=
  h.keeps (fun _ _ _ hs hstep => hstep.sound hs) fun _ => trivial

def Mark.written? : Mark → Option String
  | .effect (.store text) _ => some text
  | .effect (.swap text) _ => some text
  | .effect (.storeIfEmpty text) (.wrote true) => some text
  | _ => none

def lastWritten (value : String) (es : List (Event ι)) : String :=
  es.foldl (fun value e => e.mark.written?.getD value) value

omit [DecidableEq ι] in
theorem lastWritten_concat (value : String) (es : List (Event ι)) (e : Event ι) :
    lastWritten value (es ++ [e]) = e.mark.written?.getD (lastWritten value es) := by
  rw [lastWritten, List.foldl_append]
  rfl

theorem storeIfEmpty_cases (c : Cell String) (text : String) :
    c.value = "" ∧ c.storeIfEmpty text = (true, ⟨text⟩) ∨
      c.value ≠ "" ∧ c.storeIfEmpty text = (false, c) := by
  by_cases hc : c.value = "" <;> simp [storeIfEmpty, isEmpty, hc]

theorem Mark.Acts.value_eq {c c' : Cell String} {m : Mark} (h : m.Acts c c') :
    c'.value = m.written?.getD c.value := by
  cases m with
  | effect call answer =>
    cases call with
    | storeIfEmpty text =>
      obtain ⟨-, hc⟩ | ⟨-, hc⟩ := storeIfEmpty_cases c text
      all_goals
        simp only [Acts, Call.perform, hc, Prod.mk.injEq] at h
        obtain ⟨rfl, rfl⟩ := h
        rfl
    | _ =>
      cases h
      rfl
  | _ =>
    cases h
    rfl

theorem value_of_run (h : Run Step (.begin value) es s) : s.cell.value = lastWritten value es := by
  induction h with
  | start => rfl
  | step hrun hstep ih =>
    rw [lastWritten_concat, ← ih]
    exact (hstep.acts (sound_of_run hrun)).value_eq

def Quiet (t : ι) (es : List (Event ι)) : Prop := ∀ m, ⟨t, m⟩ ∈ es → m = .inner

def Called (es : List (Event ι)) (t : ι) (call : Call) : Prop :=
  ∃ fs gs, es = fs ++ ⟨t, .call call⟩ :: gs ∧ Quiet t gs

def Acted (es : List (Event ι)) (t : ι) (call : Call) (answer : Answer) : Prop :=
  ∃ fs gs, es = fs ++ ⟨t, .effect call answer⟩ :: gs ∧ Called fs t call ∧ Quiet t gs

def Turn.After (es : List (Event ι)) (t : ι) : Turn → Prop
  | .idle => True
  | .due call => Called es t call
  | .owes answer => ∃ call, Acted es t call answer

section
omit [DecidableEq ι]

theorem Quiet.concat (h : Quiet t es) (he : e.thread = t → e.mark = .inner) :
    Quiet t (es ++ [e]) := by
  intro m hm
  rcases List.mem_append.1 hm with hm | hm
  · exact h m hm
  · obtain rfl := List.mem_singleton.1 hm
    exact he rfl

theorem Called.concat (h : Called es t call) (he : e.thread = t → e.mark = .inner) :
    Called (es ++ [e]) t call := by
  obtain ⟨fs, gs, rfl, hgs⟩ := h
  exact ⟨fs, gs ++ [e], by simp, hgs.concat he⟩

theorem Called.mem (h : Called es t call) : ⟨t, .call call⟩ ∈ es := by
  obtain ⟨fs, gs, rfl, -⟩ := h
  simp

theorem Acted.mem (h : Acted es t call answer) : ⟨t, .effect call answer⟩ ∈ es := by
  obtain ⟨fs, gs, rfl, -⟩ := h
  simp

theorem Turn.After.concat {turn : Turn} (h : turn.After es t)
    (he : e.thread = t → e.mark = .inner) : turn.After (es ++ [e]) t := by
  cases turn with
  | idle => trivial
  | due call => exact Called.concat h he
  | owes answer =>
    obtain ⟨call, fs, gs, rfl, hcalled, hgs⟩ := h
    exact ⟨call, fs, gs ++ [e], by simp, hcalled, hgs.concat he⟩

theorem Turn.Moves.after {turn turn' : Turn} {m : Mark} (h : turn.Moves m turn')
    (ha : turn.After es t) : turn'.After (es ++ [⟨t, m⟩]) t := by
  cases h with
  | call call => exact ⟨es, [], rfl, nofun⟩
  | inner => exact ha.concat fun _ => rfl
  | effect call answer => exact ⟨call, es, [], rfl, ha, nofun⟩
  | returned => trivial

end

theorem after_of_run (h : Run Step (.begin value) es s) (t : ι) : (s.turn t).After es t := by
  induction h with
  | start => trivial
  | @step es e u v hrun hstep ih =>
    by_cases ht : t = e.thread
    · subst ht
      exact hstep.turn.after ih
    · -- An event of another thread does not end the quiet of this one.
      rw [hstep.turn_of_ne ht]
      exact ih.concat fun he => absurd he.symm ht

theorem exists_acts (h : Run Step (.begin value) (es ++ e :: fs) s) :
    ∃ u v, Run Step (.begin value) es u ∧ Step u e v ∧ Run Step v fs s ∧
      e.mark.Acts u.cell v.cell ∧ u.cell.value = lastWritten value es := by
  obtain ⟨u, v, hu, hstep, hv⟩ := h.split_cons
  exact ⟨u, v, hu, hstep, hv, hstep.acts (sound_of_run hu), value_of_run hu⟩

/-- An effect is that of the call that the thread is in. -/
theorem called_of_effect (h : Run Step (.begin value) es s)
    (hstep : Step s ⟨t, .effect call answer⟩ s') : Called es t call := by
  have hafter := after_of_run h t
  have hturn : s.turn t = .due call := hstep.turn.of_effect.1
  rwa [hturn] at hafter

/-- An answer is the one that came out of the effect. -/
theorem acted_of_returned (h : Run Step (.begin value) es s)
    (hstep : Step s ⟨t, .returned answer⟩ s') : ∃ call, Acted es t call answer := by
  have hafter := after_of_run h t
  have hturn : s.turn t = .owes answer := hstep.turn.of_returned.1
  rwa [hturn] at hafter

end NodeConfig.Cell
