import Mathlib
import NodeConfig.Proofs.Identity.Completion

namespace NodeConfig

namespace Identity

def ofFields (texts : TextField → String) (certFetched : Bool) : Identity where
  id := texts .id
  mode := texts .mode
  bootstrapKey := texts .bootstrapKey
  activeBootstrapKey := texts .activeBootstrapKey
  token := texts .token
  url := texts .url
  port := texts .port
  apiBasePath := texts .apiBasePath
  certificatePath := texts .certificatePath
  certificateKeyPath := texts .certificateKeyPath
  certFetched := certFetched
  name := texts .name
  status := texts .status
  description := texts .description

@[simp] theorem get_ofFields (texts : TextField → String) (b : Bool) (f : TextField) :
    (ofFields texts b).get f = texts f := by
  cases f <;> rfl

end Identity

namespace Sharing.Fine

variable {ι : Type}

/-- Where a thread is: between two acts, or in a call of a field that has an answer to come. -/
inductive Stage where
  | free (stage : Sharing.Stage)
  | inCall (part : Part) (f : TextField) (next : Cell.Answer → Routine)

structure State (ι : Type) where
  cells : TextField → Cell.State ι
  certFetched : Bool
  names : NameSource
  stage : ι → Stage

namespace State

def begin (x : Identity) (names : NameSource) : State ι :=
  ⟨fun f => .begin (x.get f), x.certFetched, names, fun _ => .free none⟩

def identity (s : State ι) : Identity := .ofFields (fun f => (s.cells f).cell.value) s.certFetched

end State

/-! ### Calls as one step -/

/-- What is left to do: of a call all of it, until it has had its effect. -/
def Stage.rest (cells : TextField → Cell.State ι) (t : ι) : Stage → Sharing.Stage
  | .free stage => stage
  | .inCall part f next =>
    match (cells f).turn t with
    | .idle => none
    | .due c => some (part, .call f c next)
    | .owes answer => some (part, next answer)

def State.plain (s : State ι) : Sharing.State ι :=
  ⟨s.identity, s.names, fun t => (s.stage t).rest s.cells t⟩

def State.Sound (s : State ι) : Prop := ∀ f, (s.cells f).Sound

def State.Rested (s : State ι) : Prop :=
  ∀ t, (∃ stage, s.stage t = .free stage) ∧ ∀ f, (s.cells f).stage t = .idle

variable {s s' : State ι} {e : Option (Event ι)} {es : List (Option (Event ι))} {x : Identity}
  {names : NameSource} {f : TextField} {t : ι} {cell : Cell.State ι}

theorem plain_eq {p : Sharing.State ι} (hidentity : s.identity = p.identity)
    (hnames : s.names = p.names) (hstage : ∀ u, (s.stage u).rest s.cells u = p.stage u) :
    s.plain = p := by
  obtain ⟨x, names, stage⟩ := p
  rw [State.plain, hidentity, hnames, funext hstage]

theorem plain_begin (x : Identity) (names : NameSource) :
    (State.begin x names : State ι).plain = .begin x names := by
  have hidentity : (State.begin x names : State ι).identity = x :=
    Identity.ext_get (fun f => Identity.get_ofFields ..) rfl
  exact congrArg (fun x => Sharing.State.mk x names fun _ => none) hidentity

theorem sound_begin (x : Identity) (names : NameSource) :
    (State.begin x names : State ι).Sound := fun _ _ => trivial

theorem rested_begin (x : Identity) (names : NameSource) :
    (State.begin x names : State ι).Rested := fun _ => ⟨⟨none, rfl⟩, fun _ => rfl⟩

theorem State.Rested.rest (hs : s.Rested) (cells : TextField → Cell.State ι) (t : ι) :
    (s.stage t).rest cells t = s.plain.stage t := by
  obtain ⟨⟨stage, hstage⟩, -⟩ := hs t
  simp only [State.plain, hstage, Stage.rest]

theorem State.Rested.free (hs : s.Rested) (h : s.plain.stage t = none) :
    s.stage t = .free none := by
  obtain ⟨⟨stage, hstage⟩, -⟩ := hs t
  have hplain : (s.stage t).rest s.cells t = none := h
  rw [hstage] at hplain ⊢
  exact congrArg Stage.free hplain

/-! ### Steps -/

variable [DecidableEq ι]

def State.move (s : State ι) (t : ι) (stage : Stage) : State ι :=
  { s with stage := Function.update s.stage t stage }

def State.step (s : State ι) (f : TextField) (cell : Cell.State ι) (t : ι) (stage : Stage) :
    State ι :=
  { s.move t stage with cells := Function.update s.cells f cell }

inductive Step (s : State ι) : Option (Event ι) → State ι → Prop
  | call {t : ι} {part : Part} {f : TextField} {c : Cell.Call} {next : Cell.Answer → Routine}
      (h : s.stage t = .free (some (part, .call f c next))) {cell : Cell.State ι}
      (hc : Cell.Step (s.cells f) ⟨t, .call c⟩ cell) :
      Step s none (s.step f cell t (.inCall part f next))
  | inner {t : ι} {part : Part} {f : TextField} {next : Cell.Answer → Routine}
      (h : s.stage t = .inCall part f next) {cell : Cell.State ι}
      (hc : Cell.Step (s.cells f) ⟨t, .inner⟩ cell) :
      Step s none (s.step f cell t (.inCall part f next))
  | effect {t : ι} {part : Part} {f : TextField} {next : Cell.Answer → Routine}
      (h : s.stage t = .inCall part f next) {c : Cell.Call} {answer : Cell.Answer}
      {cell : Cell.State ι} (hc : Cell.Step (s.cells f) ⟨t, .effect c answer⟩ cell) :
      Step s (some ⟨t, part, .call f c answer⟩) (s.step f cell t (.inCall part f next))
  | returned {t : ι} {part : Part} {f : TextField} {next : Cell.Answer → Routine}
      (h : s.stage t = .inCall part f next) {answer : Cell.Answer} {cell : Cell.State ι}
      (hc : Cell.Step (s.cells f) ⟨t, .returned answer⟩ cell) :
      Step s none (s.step f cell t (.free (some (part, next answer))))
  | act {t : ι} {stage stage' : Sharing.Stage} (h : s.stage t = .free stage) {part : Part}
      {act : Act} (hm : part.Moves stage act stage') (hact : ∀ f c answer, act ≠ .call f c answer)
      {b : Bool} {names : NameSource}
      (hd : act.Does s.identity s.names { s.identity with certFetched := b } names) :
      Step s (some ⟨t, part, act⟩)
        { s.move t (.free stage') with certFetched := b, names := names }

theorem cells_step (stage : Stage) :
    (s.step f cell t stage).cells = Function.update s.cells f cell := rfl

theorem stage_step (stage : Stage) :
    (s.step f cell t stage).stage = Function.update s.stage t stage := rfl

theorem identity_step (stage : Stage) :
    (s.step f cell t stage).identity = s.identity.set f cell.cell.value := by
  refine Identity.ext_get (fun g => ?_) ?_
  · rw [State.identity, Identity.get_ofFields, Identity.get_set, State.identity,
      Identity.get_ofFields, State.step]
    by_cases hg : f = g
    · subst hg
      simp
    · simp [hg, Ne.symm hg]
  · rw [Identity.certFetched_set]
    rfl

/-- A step of a thread in a cell leaves what others have to do. -/
theorem rest_of_ne {m : Cell.Mark} (hc : Cell.Step (s.cells f) ⟨t, m⟩ cell) (stage : Stage) {u : ι}
    (hu : u ≠ t) :
    ((s.step f cell t stage).stage u).rest (s.step f cell t stage).cells u =
      (s.stage u).rest s.cells u := by
  have hstage : (s.step f cell t stage).stage u = s.stage u := Function.update_of_ne hu ..
  rw [hstage]
  cases s.stage u with
  | free => rfl
  | inCall part g next =>
    have hturn : ((s.step f cell t stage).cells g).turn u = (s.cells g).turn u := by
      by_cases hg : g = f
      · subst hg
        rw [cells_step, Function.update_self]
        exact hc.turn_of_ne hu
      · rw [cells_step, Function.update_of_ne hg]
    simp only [Stage.rest, hturn]

/-- What the thread itself has to do is seen from its turn in the cell. -/
theorem rest_step_inCall (part : Part) (next : Cell.Answer → Routine) :
    ((s.step f cell t (.inCall part f next)).stage t).rest
        (s.step f cell t (.inCall part f next)).cells t =
      match cell.turn t with
      | .idle => none
      | .due c => some (part, .call f c next)
      | .owes answer => some (part, next answer) := by
  rw [stage_step, Function.update_self, Stage.rest, cells_step, Function.update_self]

/-- A step that leaves the cell as it is leaves everything as it is. -/
theorem plain_step {m : Cell.Mark} (hc : Cell.Step (s.cells f) ⟨t, m⟩ cell)
    (hcell : cell.cell = (s.cells f).cell) {stage : Stage}
    (hrest : ((s.step f cell t stage).stage t).rest (s.step f cell t stage).cells t =
      (s.stage t).rest s.cells t) : (s.step f cell t stage).plain = s.plain := by
  have hidentity : (s.step f cell t stage).identity = s.identity := by
    have hget : s.identity.get f = (s.cells f).cell.value := Identity.get_ofFields ..
    rw [identity_step, hcell, ← hget, Identity.set_get]
  have hstages : (s.step f cell t stage).plain.stage = s.plain.stage := by
    funext u
    by_cases hu : u = t
    · subst hu
      exact hrest
    · exact rest_of_ne hc stage hu
  rw [State.plain, State.plain, hidentity]
  exact congrArg (Sharing.State.mk s.identity s.names) hstages

/-- A step by handles is a step of calls, or nothing. -/
def Plainly (s : Sharing.State ι) : Option (Event ι) → Sharing.State ι → Prop
  | none, s' => s' = s
  | some e, s' => Sharing.Step s e s'

theorem Step.plain (h : Step s e s') (hs : s.Sound) : Plainly s.plain e s'.plain := by
  cases h with
  | @call t part f c next h cell hc =>
    refine plain_step hc (hc.acts (hs f)) ?_
    have hturn : cell.turn t = .due c := hc.turn.of_call.2
    rw [rest_step_inCall, h, hturn]
    rfl
  | @inner t part f next h cell hc =>
    refine plain_step hc (hc.acts (hs f)) ?_
    have hturn : cell.turn t = (s.cells f).turn t := hc.turn.of_inner
    rw [rest_step_inCall, h, hturn]
    rfl
  | @effect t part f next h c answer cell hc =>
    -- Here the whole call is made at once, in the state where each is one step.
    obtain ⟨hdue, howes⟩ : (s.cells f).turn t = .due c ∧ cell.turn t = .owes answer :=
      hc.turn.of_effect
    have hbefore : s.plain.stage t = some (part, .call f c next) := by
      simp only [State.plain, h, Stage.rest, hdue]
    have hafter : (s.step f cell t (.inCall part f next)).plain.stage t =
        some (part, next answer) := by
      simp only [State.plain, rest_step_inCall, howes]
    refine ⟨?_, fun u hu => rest_of_ne hc _ hu, ?_, rfl⟩
    · rw [hbefore, hafter]
      exact .call f c next answer
    · have hget : s.identity.get f = (s.cells f).cell.value := Identity.get_ofFields ..
      have hacts : c.perform (s.cells f).cell = (answer, cell.cell) := hc.acts (hs f)
      simp only [State.plain, identity_step, Identity.call, hget, hacts]
  | @returned t part f next h answer cell hc =>
    refine plain_step hc (hc.acts (hs f)) ?_
    have hturn : (s.cells f).turn t = .owes answer := hc.turn.of_returned.1
    rw [stage_step, Function.update_self, h, Stage.rest, Stage.rest, hturn]
  | @act t stage stage' h part act hm hact b names hd =>
    have hbefore : s.plain.stage t = stage := by
      simp only [State.plain, h, Stage.rest]
    refine ⟨?_, fun u hu => ?_, hd⟩
    · rw [hbefore]
      simpa [State.plain, State.move, Stage.rest] using hm
    · simp only [State.plain, State.move, Function.update_of_ne hu]

theorem Step.sound (h : Step s e s') (hs : s.Sound) : s'.Sound := by
  intro g
  have hcell : ∀ {t f cell m} (stage : Stage), Cell.Step (s.cells f) ⟨t, m⟩ cell →
      ((s.step f cell t stage).cells g).Sound := by
    intro t f cell m stage hc
    rw [cells_step]
    by_cases hg : g = f
    · subst hg
      rw [Function.update_self]
      exact hc.sound (hs g)
    · rw [Function.update_of_ne hg]
      exact hs g
  cases h with
  | call h hc | inner h hc | effect h hc | returned h hc => exact hcell _ hc
  | act => exact hs g

theorem sound_of_run {u : State ι} (h : Run Step u es s) (hu : u.Sound) : s.Sound :=
  h.keeps (fun _ _ _ hs hstep => hstep.sound hs) hu

/-- A run by handles is a run of calls. -/
theorem plain_of_run {u : State ι} (h : Run Step u es s) (hu : u.Sound) :
    Run Sharing.Step u.plain es.reduceOption s.plain := by
  induction h with
  | start => exact .start
  | @step es e v w hrun hstep ih =>
    have hplain := hstep.plain (sound_of_run hrun hu)
    rw [List.reduceOption_append]
    cases e with
    | none =>
      have hsame : w.plain = v.plain := hplain
      rw [hsame]
      simpa using ih
    | some e => exact ih.step hplain

/-! ### Runs of calls -/

theorem step_step (cell cell' : Cell.State ι) (stage stage' : Stage) :
    (s.step f cell t stage).step f cell' t stage' = s.step f cell' t stage' := by
  simp only [State.step, State.move, Function.update_idem]

theorem step_cell {e : Cell.Event ι} {cell' : Cell.State ι} (stage : Stage)
    (hc : Cell.Step cell e cell') : Cell.Step ((s.step f cell t stage).cells f) e cell' := by
  rwa [cells_step, Function.update_self]

/-- The inner steps of a call, one after the other. -/
theorem run_inner {part : Part} {next : Cell.Answer → Routine} {cell' : Cell.State ι} {n : ℕ}
    (hc : Run Cell.Step cell (List.replicate n ⟨t, .inner⟩) cell') :
    Run Step (s.step f cell t (.inCall part f next)) (List.replicate n none)
      (s.step f cell' t (.inCall part f next)) := by
  induction n generalizing cell' with
  | zero =>
    obtain rfl := hc.of_nil
    exact .start
  | succ n ih =>
    rw [List.replicate_succ'] at hc ⊢
    obtain ⟨between, hbefore, hlast⟩ := hc.last
    have hstep := Step.inner (Function.update_self ..)
      (step_cell (s := s) (t := t) (.inCall part f next) hlast)
    rw [step_step] at hstep
    exact (ih hbefore).step hstep

/-- A call that no other thread disturbs is one step. -/
theorem run_call [Finite ι] {part : Part} {c : Cell.Call} {next : Cell.Answer → Routine}
    (h : s.stage t = .free (some (part, .call f c next))) (ht : (s.cells f).stage t = .idle) :
    ∃ es cell, Run Step s es
        (s.step f cell t (.free (some (part, next (c.perform (s.cells f).cell).1)))) ∧
      es.reduceOption = [⟨t, part, .call f c (c.perform (s.cells f).cell).1⟩] ∧
      cell.cell = (c.perform (s.cells f).cell).2 ∧ cell.stage = (s.cells f).stage := by
  obtain ⟨n, cell, hrun, hcell, hstage⟩ := Cell.run_alone ht c
  generalize (c.perform (s.cells f).cell).1 = answer at hrun ⊢
  -- The parts of the call: its start, its inner steps, its effect and its end.
  have hparts : Run Cell.Step (s.cells f) ([⟨t, .call c⟩] ++ (List.replicate n ⟨t, .inner⟩ ++
      ([⟨t, .effect c answer⟩] ++ [⟨t, .returned answer⟩]))) cell := hrun
  obtain ⟨u, hcall, hparts⟩ := hparts.split
  obtain ⟨v, hinner, hparts⟩ := hparts.split
  obtain ⟨w, heffect, hreturned⟩ := hparts.split
  have hcalled := Run.one (Step.call h hcall.of_one)
  have hlooked := hcalled.trans (run_inner hinner)
  have hacted := hlooked.step (.effect (Function.update_self ..) (step_cell _ heffect.of_one))
  rw [step_step] at hacted
  have hdone := hacted.step (.returned (Function.update_self ..) (step_cell _ hreturned.of_one))
  rw [step_step] at hdone
  refine ⟨_, cell, hdone, ?_, hcell, hstage⟩
  simp [List.reduceOption_append, List.reduceOption_replicate_none]

theorem rested_step (hs : s.Rested) (hcell : cell.stage = (s.cells f).stage)
    (stage : Sharing.Stage) : (s.step f cell t (.free stage)).Rested := by
  intro u
  constructor
  · by_cases hu : u = t
    · exact ⟨stage, by rw [stage_step, hu, Function.update_self]⟩
    · rw [stage_step, Function.update_of_ne hu]
      exact (hs u).1
  · intro g
    by_cases hg : g = f
    · rw [cells_step, hg, Function.update_self, hcell]
      exact (hs u).2 f
    · rw [cells_step, Function.update_of_ne hg]
      exact (hs u).2 g

/-- Where no thread is in a call, a call can be made by handles. -/
theorem exists_run_of_call [Finite ι] (hs : s.Rested) {part : Part} {c : Cell.Call}
    {answer : Cell.Answer} {p : Sharing.State ι}
    (h : Sharing.Step s.plain ⟨t, part, .call f c answer⟩ p) :
    ∃ es s', Run Step s es s' ∧ es.reduceOption = [⟨t, part, .call f c answer⟩] ∧ s'.plain = p ∧
      s'.Rested := by
  obtain ⟨hmoves, hrests, hcall, hnames⟩ := h
  obtain ⟨⟨stage, hstage⟩, hidle⟩ := hs t
  have hplain : s.plain.stage t = stage := by
    simp only [State.plain, hstage, Stage.rest]
  obtain ⟨next, hdue, hnext⟩ := hmoves.of_call
  obtain rfl := hplain.symm.trans hdue
  obtain ⟨es, cell, hrun, hes, hcell, hcells⟩ := run_call hstage (hidle f)
  have hget : s.plain.identity.get f = (s.cells f).cell.value := Identity.get_ofFields ..
  rw [Identity.call, hget] at hcall
  obtain ⟨rfl, hp⟩ := Prod.mk.inj hcall
  refine ⟨es, _, hrun, hes, plain_eq ?_ hnames.symm fun u => ?_, rested_step hs hcells _⟩
  · rw [identity_step, hcell]
    exact hp
  · by_cases hu : u = t
    · rw [hu, stage_step, Function.update_self, hnext]
      rfl
    · rw [stage_step, Function.update_of_ne hu, hs.rest, hrests u hu]

/-- Where no thread is in a call, any other act can be made too. -/
theorem exists_step_of_act (hs : s.Rested) {part : Part} {act : Act} {p : Sharing.State ι}
    (h : Sharing.Step s.plain ⟨t, part, act⟩ p) (hact : ∀ f c answer, act ≠ .call f c answer) :
    ∃ s', Step s (some ⟨t, part, act⟩) s' ∧ s'.plain = p ∧ s'.Rested := by
  obtain ⟨hmoves, hrests, hdoes⟩ := h
  obtain ⟨⟨stage, hstage⟩, -⟩ := hs t
  have hplain : s.plain.stage t = stage := by
    simp only [State.plain, hstage, Stage.rest]
  dsimp only at hmoves hrests hdoes
  rw [hplain] at hmoves
  -- Texts are put there by calls alone.
  have hsame : p.identity = { s.identity with certFetched := p.identity.certFetched } := by
    cases act with
    | call f c answer => exact absurd rfl (hact f c answer)
    | flag b => rw [hdoes.1]; rfl
    | _ => rw [hdoes.1]; rfl
  have hdoes' : act.Does s.identity s.names
      { s.identity with certFetched := p.identity.certFetched } p.names := hsame ▸ hdoes
  have hself : Function.update s.stage t (.free (p.stage t)) t = .free (p.stage t) :=
    Function.update_self ..
  have hother : ∀ u, u ≠ t → Function.update s.stage t (.free (p.stage t)) u = s.stage u :=
    fun u hu => Function.update_of_ne hu ..
  refine ⟨_, .act hstage hmoves hact hdoes', plain_eq hsame.symm rfl fun u => ?_,
    fun u => ⟨?_, (hs u).2⟩⟩
  · by_cases hu : u = t
    · simp only [State.move, hu, hself, Stage.rest]
    · simp only [State.move, hother u hu, hs.rest, hrests u hu]
  · by_cases hu : u = t
    · exact ⟨p.stage t, by rw [hu]; exact hself⟩
    · obtain ⟨stage', hstage'⟩ := (hs u).1
      exact ⟨stage', (hother u hu).trans hstage'⟩

/-- Where no thread is in a call, each can make its next act. -/
theorem exists_run_of_step [Finite ι] (hs : s.Rested) {e : Event ι} {p : Sharing.State ι}
    (h : Sharing.Step s.plain e p) :
    ∃ es s', Run Step s es s' ∧ es.reduceOption = [e] ∧ s'.plain = p ∧ s'.Rested := by
  obtain ⟨t, part, act⟩ := e
  by_cases hact : ∃ f c answer, act = .call f c answer
  · obtain ⟨f, c, answer, rfl⟩ := hact
    exact exists_run_of_call hs h
  · obtain ⟨s', hstep, hplain, hrested⟩ :=
      exists_step_of_act hs h fun f c answer h => hact ⟨f, c, answer, h⟩
    exact ⟨_, s', Run.one hstep, rfl, hplain, hrested⟩

/-- Every run of calls is one by handles. -/
theorem exists_run_of_plain [Finite ι] (hs : s.Rested) {es : List (Event ι)} {p : Sharing.State ι}
    (h : Run Sharing.Step s.plain es p) :
    ∃ fs s', Run Step s fs s' ∧ fs.reduceOption = es ∧ s'.plain = p ∧ s'.Rested := by
  induction h with
  | start => exact ⟨[], s, .start, rfl, rfl, hs⟩
  | step _ hstep ih =>
    obtain ⟨fs, u, hu, rfl, rfl, hrested⟩ := ih
    obtain ⟨gs, v, hv, hgs, hplain, hrested⟩ := exists_run_of_step hrested hstep
    exact ⟨fs ++ gs, v, hu.trans hv, by rw [List.reduceOption_append, hgs], hplain, hrested⟩

end Sharing.Fine

end NodeConfig
