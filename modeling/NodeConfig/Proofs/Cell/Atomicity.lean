import Mathlib
import NodeConfig.Proofs.Cell.Effects

namespace NodeConfig.Cell

variable {ι : Type} {s : State ι} {e : Event ι} {es fs : List (Event ι)} {t : ι} {value : String}

def Mark.wins : Mark → Bool
  | .effect _ (.wrote true) => true
  | _ => false

def Mark.tells : Mark → Bool
  | .returned (.wrote true) => true
  | _ => false

def Turn.won : Turn → Bool
  | .owes (.wrote true) => true
  | _ => false

def winners (es : List (Event ι)) : List ι := (es.filter (·.mark.wins)).map Event.thread

def told (es : List (Event ι)) : List ι := (es.filter (·.mark.tells)).map Event.thread

theorem winners_concat (es : List (Event ι)) (e : Event ι) :
    winners (es ++ [e]) = winners es ++ if e.mark.wins then [e.thread] else [] := by
  cases h : e.mark.wins <;> simp [winners, h]

theorem told_concat (es : List (Event ι)) (e : Event ι) :
    told (es ++ [e]) = told es ++ if e.mark.tells then [e.thread] else [] := by
  cases h : e.mark.tells <;> simp [told, h]

theorem Turn.Moves.won {turn turn' : Turn} {m : Mark} (h : turn.Moves m turn') :
    turn.won.toNat + m.wins.toNat = m.tells.toNat + turn'.won.toNat := by
  cases h with
  | inner => simp [Mark.wins, Mark.tells]
  | call => rfl
  | effect call answer | returned answer => rcases answer with _ | _ | (_ | _) <;> rfl

/-- All that is asked of the cell is to hold a text, not the empty one, if it has none yet. -/
def Contest (es : List (Event ι)) : Prop :=
  ∀ t call, ⟨t, .call call⟩ ∈ es → ∃ text, text ≠ "" ∧ call = .storeIfEmpty text

def Decided (es : List (Event ι)) (c : Cell String) : Prop :=
  (c.value = "" ∧ ∀ e ∈ es, ∀ call answer, e.mark ≠ .effect call answer) ∨
    ∃ t text, text ≠ "" ∧ winners es = [t] ∧
      ⟨t, .effect (.storeIfEmpty text) (.wrote true)⟩ ∈ es ∧ c.value = text

theorem winners_eq_nil (h : ∀ e ∈ es, ∀ call answer, e.mark ≠ .effect call answer) :
    winners es = [] := by
  have hwins : ∀ e ∈ es, ¬e.mark.wins = true := by
    intro e he hw
    unfold Mark.wins at hw
    split at hw
    · next hmark => exact h e he _ _ hmark
    · cases hw
  rw [winners, List.filter_eq_nil_iff.2 hwins, List.map_nil]

theorem Decided.inner {c : Cell String} (h : Decided es c)
    (he : ∀ call answer, e.mark ≠ .effect call answer) : Decided (es ++ [e]) c := by
  rcases h with ⟨hc, hes⟩ | ⟨t, text, htext, hwinners, hmem, hc⟩
  · refine .inl ⟨hc, fun e' he' => ?_⟩
    rcases List.mem_append.1 he' with he' | he'
    · exact hes e' he'
    · exact List.mem_singleton.1 he' ▸ he
  · have hloses : winners [e] = [] := winners_eq_nil (by simpa using he)
    refine .inr ⟨t, text, htext, ?_, List.mem_append_left _ hmem, hc⟩
    rw [winners, List.filter_append, List.map_append, ← winners, ← winners, hwinners, hloses,
      List.append_nil]

theorem Decided.effect {c : Cell String} {text : String} (h : Decided es c) (htext : text ≠ "")
    (t : ι) : Decided (es ++ [⟨t, .effect (.storeIfEmpty text) (.wrote (c.storeIfEmpty text).1)⟩])
      (c.storeIfEmpty text).2 := by
  obtain ⟨hc, hstore⟩ | ⟨hc, hstore⟩ := storeIfEmpty_cases c text
  · rw [hstore]
    rcases h with ⟨-, hes⟩ | ⟨-, text', htext', -, -, hc'⟩
    · refine .inr ⟨t, text, htext, ?_, by simp, rfl⟩
      rw [winners_concat, winners_eq_nil hes]
      rfl
    · exact absurd (hc'.symm.trans hc) htext'
  · rw [hstore]
    rcases h with ⟨hc', -⟩ | ⟨u, text', htext', hwinners, hmem, hc'⟩
    · exact absurd hc' hc
    · refine .inr ⟨u, text', htext', ?_, List.mem_append_left _ hmem, hc'⟩
      rw [winners_concat, hwinners]
      rfl

theorem stage_of_won {stage : Stage} {text : Handle → String}
    (h : (stage.turn text).won = true) : stage = .finished (.wrote true) := by
  cases stage with
  | finished answer => rcases answer with _ | _ | (_ | _) <;> first | rfl | cases h
  | _ => cases h

variable [DecidableEq ι]

/-- Who wrote has told so, or is about to. -/
theorem count_winners (h : Run Step (.begin value) es s) (t : ι) :
    (winners es).count t = (told es).count t + (s.turn t).won.toNat := by
  induction h with
  | start => rfl
  | @step es e u v hrun hstep ih =>
    rw [winners_concat, told_concat, List.count_append, List.count_append]
    by_cases ht : t = e.thread
    · subst ht
      -- With a write the thread owes an answer more, and with the answer one less.
      have hwon := hstep.turn.won
      have hcount : ∀ b : Bool, (if b then [e.thread] else []).count e.thread = b.toNat := by
        intro b
        cases b <;> simp
      rw [hcount, hcount]
      omega
    · have hcount : ∀ b : Bool, (if b then [e.thread] else []).count t = 0 := by
        intro b
        cases b <;> simp [Ne.symm ht]
      rw [hcount, hcount, hstep.turn_of_ne ht]
      exact ih

theorem decided_of_run (h : Run Step (.begin "") es s) (hcontest : Contest es) :
    Decided es s.cell := by
  induction h with
  | start => exact .inl ⟨rfl, nofun⟩
  | @step es e u v hrun hstep ih =>
    have hbefore := ih fun t call hcall => hcontest t call (List.mem_append_left _ hcall)
    have hacts := hstep.acts (sound_of_run hrun)
    obtain ⟨t, m⟩ := e
    cases m with
    | effect call answer =>
      -- Its call was made before, so it is one that a contest allows.
      have hcalled := (called_of_effect hrun hstep).mem
      obtain ⟨text, htext, rfl⟩ := hcontest t call (List.mem_append_left _ hcalled)
      obtain ⟨rfl, hv⟩ := Prod.mk.inj hacts
      rw [← hv]
      exact hbefore.effect htext t
    | _ =>
      have hv : v.cell = u.cell := hacts
      rw [hv]
      exact hbefore.inner nofun

/-- The only one who won has told so, or is about to. -/
theorem told_of_winners (h : Run Step (.begin value) es s) (hwinners : winners es = [t]) :
    told es = [t] ∨ told es = [] ∧ s.stage t = .finished (.wrote true) := by
  have hcount : ∀ u, [t].count u = (told es).count u + (s.turn u).won.toNat := fun u =>
    hwinners ▸ count_winners h u
  cases hwon : (s.turn t).won with
  | true =>
    -- It still owes the answer, and with this its one win is accounted for.
    refine .inr ⟨List.eq_nil_iff_forall_not_mem.2 fun u hu => ?_, stage_of_won hwon⟩
    have hpos := List.count_pos_iff.2 hu
    have hu := hcount u
    by_cases hut : t = u
    · subst hut
      rw [List.count_singleton_self, hwon, Bool.toNat_true] at hu
      omega
    · rw [List.count_singleton, if_neg (by simpa using hut)] at hu
      omega
  | false =>
    have hperm : (told es).Perm [t] := by
      refine List.perm_iff_count.2 fun u => ?_
      have hu := hcount u
      by_cases hut : t = u
      · subst hut
        rw [hu, hwon, Bool.toNat_false, add_zero]
      · rw [List.count_singleton, if_neg (by simpa using hut)] at hu ⊢
        omega
    exact .inl (List.perm_singleton.1 hperm)

/-- A conditional store writes exactly over the empty text. -/
theorem storeIfEmpty_effect {text : String} {answer : Answer}
    (h : Run Step (.begin value) (es ++ ⟨t, .effect (.storeIfEmpty text) answer⟩ :: fs) s) :
    lastWritten value es = "" ∧ answer = .wrote true ∧
        lastWritten value (es ++ [⟨t, .effect (.storeIfEmpty text) answer⟩]) = text ∨
      lastWritten value es ≠ "" ∧ answer = .wrote false ∧
        lastWritten value (es ++ [⟨t, .effect (.storeIfEmpty text) answer⟩]) =
          lastWritten value es := by
  obtain ⟨u, v, -, -, -, hacts, hvalue⟩ := exists_acts h
  obtain ⟨rfl, -⟩ := Prod.mk.inj hacts
  rw [lastWritten_concat, ← hvalue]
  obtain ⟨hc, hstore⟩ | ⟨hc, hstore⟩ := storeIfEmpty_cases u.cell text
  · exact .inl ⟨hc, by rw [hstore], by rw [hstore]; rfl⟩
  · exact .inr ⟨hc, by rw [hstore], by rw [hstore]; rfl⟩

/-- If some call of a contest is over, somebody won, and the text of the winner is there. -/
theorem exists_winner (h : Run Step (.begin "") es s) (hcontest : Contest es) {answer : Answer}
    (hreturned : ⟨t, .returned answer⟩ ∈ es) : ∃ w text, winners es = [w] ∧
      ⟨w, .effect (.storeIfEmpty text) (.wrote true)⟩ ∈ es ∧ s.cell.value = text := by
  obtain ⟨fs, gs, rfl⟩ := List.append_of_mem hreturned
  obtain ⟨u, v, hu, hstep, -⟩ := h.split_cons
  obtain ⟨call, hacted⟩ := acted_of_returned hu hstep
  rcases decided_of_run h hcontest with ⟨-, hnone⟩ | ⟨w, text, -, hwinners, hmem, hc⟩
  · exact absurd rfl (hnone _ (List.mem_append_left _ hacted.mem) call answer)
  · exact ⟨w, text, hwinners, hmem, hc⟩

/-- Calls of one cell at the same time are calls one after the other. Every step either leaves the
cell alone or is a call by itself, on the value that was written last; it lies between the start
and the end of its call, whose answer is what came out of it. A conditional store writes exactly
over the empty text. If nothing else is asked of an empty cell, and some call is over, then exactly
one wrote its text, which is still there; it has answered so, or is about to, and no other has. -/
theorem calls_atomic (h : Run Step (.begin value) es s) :
    (∀ fs e gs, es = fs ++ e :: gs → ∃ u v, Run Step (.begin value) fs u ∧ Step u e v ∧
      Run Step v gs s ∧ e.mark.Acts u.cell v.cell ∧ u.cell.value = lastWritten value fs) ∧
    (∀ fs t call answer gs, es = fs ++ ⟨t, .effect call answer⟩ :: gs → Called fs t call) ∧
    (∀ fs t answer gs, es = fs ++ ⟨t, .returned answer⟩ :: gs → ∃ call, Acted fs t call answer) ∧
    (∀ fs t text answer gs, es = fs ++ ⟨t, .effect (.storeIfEmpty text) answer⟩ :: gs →
      lastWritten value fs = "" ∧ answer = .wrote true ∧
          lastWritten value (fs ++ [⟨t, .effect (.storeIfEmpty text) answer⟩]) = text ∨
        lastWritten value fs ≠ "" ∧ answer = .wrote false ∧
          lastWritten value (fs ++ [⟨t, .effect (.storeIfEmpty text) answer⟩]) =
            lastWritten value fs) ∧
    (value = "" → Contest es → (∃ t answer, ⟨t, .returned answer⟩ ∈ es) →
      ∃ t text, winners es = [t] ∧ ⟨t, .effect (.storeIfEmpty text) (.wrote true)⟩ ∈ es ∧
        s.cell.value = text ∧
        (told es = [t] ∨ told es = [] ∧ s.stage t = .finished (.wrote true))) := by
  refine ⟨?_, ?_, ?_, ?_, ?_⟩
  · rintro fs e gs rfl
    exact exists_acts h
  · rintro fs t call answer gs rfl
    obtain ⟨u, v, hu, hstep, -⟩ := h.split_cons
    exact called_of_effect hu hstep
  · rintro fs t answer gs rfl
    obtain ⟨u, v, hu, hstep, -⟩ := h.split_cons
    exact acted_of_returned hu hstep
  · rintro fs t text answer gs rfl
    exact storeIfEmpty_effect h
  · rintro rfl hcontest ⟨t, answer, hreturned⟩
    obtain ⟨w, text, hwinners, hmem, hc⟩ := exists_winner h hcontest hreturned
    exact ⟨w, text, hwinners, hmem, hc, told_of_winners h hwinners⟩

def contested : List (Event Bool) :=
  [⟨false, .call (.storeIfEmpty "a")⟩, ⟨false, .inner⟩, ⟨false, .inner⟩, ⟨false, .inner⟩,
    ⟨true, .call (.storeIfEmpty "b")⟩, ⟨true, .inner⟩, ⟨true, .inner⟩, ⟨true, .inner⟩,
    ⟨true, .effect (.storeIfEmpty "b") (.wrote true)⟩, ⟨false, .inner⟩, ⟨false, .inner⟩,
    ⟨false, .inner⟩, ⟨false, .effect (.storeIfEmpty "a") (.wrote false)⟩,
    ⟨false, .returned (.wrote false)⟩, ⟨true, .returned (.wrote true)⟩]

theorem run_contested : ∃ s : State Bool, Run Step (.begin "") contested s := by
  have hcalled := Run.one (Step.call (s := .begin "") (t := false) rfl (.storeIfEmpty "a"))
  have hallocated := hcalled.step (.allocate (t := false) rfl
    (show ¬State.InUse _ 1 by unfold State.InUse; decide) rfl)
  have hlooked := (hallocated.step (.attempt (t := false) rfl)).step (.look (t := false) rfl)
  -- The other thread does all of its call before the first goes on.
  have hcalled' := hlooked.step (.call (t := true) rfl (.storeIfEmpty "b"))
  have hallocated' := hcalled'.step (.allocate (t := true) rfl
    (show ¬State.InUse _ 2 by unfold State.InUse; decide) rfl)
  have hlooked' := (hallocated'.step (.attempt (t := true) rfl)).step (.look (t := true) rfl)
  have hexchanged' := hlooked'.step (.exchange (t := true) rfl rfl)
  have hretried := hexchanged'.step (.retry (t := false) rfl (by decide))
  have hagain := (hretried.step (.attempt (t := false) rfl)).step (.look (t := false) rfl)
  have hexchanged := hagain.step (.exchange (t := false) rfl rfl)
  exact ⟨_, (hexchanged.step (.finish (t := false) rfl)).step (.finish (t := true) rfl)⟩

/-- The faster one wins, and the other answers that it did not write. -/
theorem calls_atomic_contested : ∃ s : State Bool, Run Step (.begin "") contested s ∧
    (∃ fs call, Acted fs false call (.wrote false)) ∧
    (∃ t, winners contested = [t] ∧ told contested = [true]) ∧ s.cell.value = "b" := by
  obtain ⟨s, h⟩ := run_contested
  obtain ⟨-, -, hreturned, -, hwon⟩ := calls_atomic h
  have hcontest : Contest contested := by
    intro t call hcall
    have hcalls : t = false ∧ call = .storeIfEmpty "a" ∨ t = true ∧ call = .storeIfEmpty "b" := by
      simpa [contested] using hcall
    rcases hcalls with ⟨-, rfl⟩ | ⟨-, rfl⟩
    · exact ⟨"a", by decide, rfl⟩
    · exact ⟨"b", by decide, rfl⟩
  obtain ⟨t, text, hwinners, hmem, hvalue, -⟩ :=
    hwon rfl hcontest ⟨false, .wrote false, by simp [contested]⟩
  have htext : t = true ∧ text = "b" := by simpa [contested] using hmem
  exact ⟨s, h, ⟨contested.take 13, hreturned (contested.take 13) false _ _ rfl⟩,
    ⟨t, hwinners, rfl⟩, hvalue.trans htext.2⟩

end NodeConfig.Cell
