import Mathlib
import NodeConfig.Proofs.Cell.Effects
import NodeConfig.Proofs.Identity.Routine

namespace NodeConfig

def Cell.Call.text? : Cell.Call → Option String
  | .store s => some s
  | .swap s => some s
  | .load => none
  | .storeIfEmpty s => some s

namespace Sharing

variable {ι : Type}

inductive Part where
  | defaults
  | other

def required : List TextField := [.mode, .certificatePath, .certificateKeyPath, .name]

/-- The calls of a part. Defaults look at fields, and fill those that have one. -/
def Part.May : Part → TextField → Cell.Call → Prop
  | .defaults, f, c => c = .load ∨ f ∈ required ∧ ∃ s, s ≠ "" ∧ c = .storeIfEmpty s
  | .other, _, c => c.text? ≠ some ""

/-- All that a routine does belongs to a part. -/
def Part.Allows (part : Part) : Routine → Prop
  | .done => True
  | .call f c next => part.May f c ∧ ∀ answer, part.Allows (next answer)
  | .flag _ next => part = .other ∧ part.Allows next
  | .mint next => ∀ name, name ≠ "" → part.Allows (next name)
  | .report _ next => part.Allows next

/-- The routines that a thread may begin. -/
def Part.Begins : Part → Routine → Prop
  | .defaults, r => r = .defaults
  | .other, r => Part.other.Allows r

inductive Act where
  | begin
  | call (f : TextField) (call : Cell.Call) (answer : Cell.Answer)
  | flag (b : Bool)
  | mint (name : String)
  | report (r : Report)
  | finish

/-- What a thread still has to do, if anything, and in which part. -/
abbrev Stage := Option (Part × Routine)

inductive Part.Moves (part : Part) : Stage → Act → Stage → Prop
  | begin {r : Routine} (hr : part.Begins r) : Moves part none .begin (some (part, r))
  | call (f : TextField) (c : Cell.Call) (next : Cell.Answer → Routine) (answer : Cell.Answer) :
      Moves part (some (part, .call f c next)) (.call f c answer) (some (part, next answer))
  | flag (b : Bool) (next : Routine) :
      Moves part (some (part, .flag b next)) (.flag b) (some (part, next))
  | mint (next : String → Routine) (name : String) :
      Moves part (some (part, .mint next)) (.mint name) (some (part, next name))
  | report (r : Report) (next : Routine) :
      Moves part (some (part, .report r next)) (.report r) (some (part, next))
  | finish : Moves part (some (part, .done)) .finish none

theorem Part.Moves.of_call {part : Part} {stage stage' : Stage} {f : TextField} {c : Cell.Call}
    {answer : Cell.Answer} (h : part.Moves stage (.call f c answer) stage') :
    ∃ next, stage = some (part, .call f c next) ∧ stage' = some (part, next answer) := by
  cases h
  exact ⟨_, rfl, rfl⟩

theorem Part.Moves.of_finish {part : Part} {stage stage' : Stage}
    (h : part.Moves stage .finish stage') :
    stage = some (part, .done) := by
  cases h
  rfl

def Act.Does (x : Identity) (names : NameSource) (act : Act) (x' : Identity)
    (names' : NameSource) : Prop :=
  match act with
  | .call f c answer => x.call f c = (answer, x') ∧ names' = names
  | .flag b => x' = { x with certFetched := b } ∧ names' = names
  | .mint name => x' = x ∧ names.mint = (name, names')
  | _ => x' = x ∧ names' = names

structure State (ι : Type) where
  identity : Identity
  names : NameSource
  stage : ι → Stage

def State.begin (x : Identity) (names : NameSource) : State ι := ⟨x, names, fun _ => none⟩

structure Event (ι : Type) where
  thread : ι
  part : Part
  act : Act

structure Step (s : State ι) (e : Event ι) (s' : State ι) : Prop where
  moves : e.part.Moves (s.stage e.thread) e.act (s'.stage e.thread)
  rests : ∀ t, t ≠ e.thread → s'.stage t = s.stage t
  does : e.act.Does s.identity s.names s'.identity s'.names

variable {s s' : State ι} {e : Event ι} {es : List (Event ι)} {x x' : Identity}
  {names names' : NameSource} {part : Part} {act : Act} {f : TextField} {t : ι}

/-! ### Parts -/

theorem Part.allows_fill {text : String} {next : Bool → Routine}
    (hmay : part.May f (.storeIfEmpty text)) (hnext : ∀ b, part.Allows (next b)) :
    part.Allows (.fill f text next) :=
  ⟨hmay, fun _ => hnext _⟩

theorem may_fill (hf : f ∈ required) {text : String} (htext : text ≠ "") :
    Part.defaults.May f (.storeIfEmpty text) :=
  .inr ⟨hf, text, htext, rfl⟩

theorem allows_defaults : Part.defaults.Allows .defaults := by
  have hname : Part.defaults.Allows .defaultName := by
    refine ⟨.inl rfl, fun found => ?_⟩
    dsimp only
    split_ifs
    · intro name hname
      refine Part.allows_fill (may_fill (by decide) hname) fun wrote => ?_
      split_ifs
      · exact ⟨.inl rfl, fun found => trivial⟩
      · trivial
    · trivial
  have hpaths : Part.defaults.Allows (.fill .certificatePath Identity.defaultCertificatePath
      fun _ => .fill .certificateKeyPath Identity.defaultCertificateKeyPath
        fun _ => .defaultName) :=
    Part.allows_fill (may_fill (by decide) (by decide)) fun _ =>
      Part.allows_fill (may_fill (by decide) (by decide)) fun _ => hname
  refine Part.allows_fill (may_fill (by decide) (by decide)) fun wrote => ?_
  cases wrote <;> exact hpaths

theorem Part.Begins.allows {r : Routine} (h : part.Begins r) : part.Allows r := by
  cases part with
  | defaults =>
    obtain rfl := h
    exact allows_defaults
  | other => exact h

def Stage.Kept : Stage → Prop
  | none => True
  | some (part, r) => part.Allows r

def Act.Belongs (part : Part) : Act → Prop
  | .call f c _ => part.May f c
  | .flag _ => part = .other
  | .mint name => name ≠ ""
  | _ => True

theorem Part.Moves.kept {stage stage' : Stage} (h : part.Moves stage act stage')
    (hd : act.Does x names x' names') (hk : stage.Kept) : stage'.Kept ∧ act.Belongs part := by
  cases h with
  | begin hr => exact ⟨hr.allows, trivial⟩
  | call => exact ⟨hk.2 _, hk.1⟩
  | flag => exact ⟨hk.2, hk.1⟩
  | mint next name =>
    have hname : name ≠ "" := by
      obtain ⟨-, hmint⟩ := hd
      have hne := names.mint_ne_empty
      rwa [hmint] at hne
    exact ⟨hk name hname, hname⟩
  | report => exact ⟨hk, trivial⟩
  | finish => exact ⟨trivial, trivial⟩

def State.Kept (s : State ι) : Prop := ∀ t, (s.stage t).Kept

theorem Step.kept (h : Step s e s') (hs : s.Kept) : s'.Kept := by
  intro t
  by_cases ht : t = e.thread
  · subst ht
    exact (h.moves.kept h.does (hs _)).1
  · rw [h.rests t ht]
    exact hs t

theorem Step.belongs (h : Step s e s') (hs : s.Kept) : e.act.Belongs e.part :=
  (h.moves.kept h.does (hs _)).2

theorem kept_of_run (h : Run Step (.begin x names) es s) : s.Kept :=
  h.keeps (fun _ _ _ hs hstep => hstep.kept hs) fun _ => trivial

/-! ### Fields -/

/-- A call leaves the value, or puts its own text there. -/
theorem value_perform (c : Cell.Call) (cell : Cell String) :
    (c.perform cell).2.value = cell.value ∨ c.text? = some (c.perform cell).2.value := by
  cases c with
  | load => exact .inl rfl
  | storeIfEmpty text =>
    obtain ⟨-, hstore⟩ | ⟨-, hstore⟩ := Cell.storeIfEmpty_cases cell text
    · exact .inr (by rw [Cell.Call.perform, hstore]; rfl)
    · exact .inl (by rw [Cell.Call.perform, hstore])
  | _ => exact .inr rfl

/-- A text is there to stay, and defaults leave it as it is. -/
theorem Part.May.value {c : Cell.Call} (h : part.May f c) {cell : Cell String}
    (hcell : cell.value ≠ "") : (c.perform cell).2.value ≠ "" ∧
      (part = .defaults → (c.perform cell).2.value = cell.value) := by
  cases part with
  | defaults =>
    have hkeeps : (c.perform cell).2.value = cell.value := by
      obtain rfl | ⟨-, text, -, rfl⟩ := h
      · rfl
      · obtain ⟨hempty, -⟩ | ⟨-, hstore⟩ := Cell.storeIfEmpty_cases cell text
        · exact absurd hempty hcell
        · rw [Cell.Call.perform, hstore]
    exact ⟨hkeeps ▸ hcell, fun _ => hkeeps⟩
  | other =>
    refine ⟨fun hempty => ?_, fun hpart => by cases hpart⟩
    rcases value_perform c cell with hkeeps | htext
    · exact hcell (hkeeps.symm.trans hempty)
    · exact h (hempty ▸ htext)

theorem Act.Does.get (h : act.Does x names x' names') (hb : act.Belongs part)
    (hf : x.get f ≠ "") : x'.get f ≠ "" ∧ (part = .defaults → x'.get f = x.get f) := by
  cases act with
  | call g c answer =>
    obtain rfl : (x.call g c).2 = x' := congrArg Prod.snd h.1
    rw [Identity.get_call]
    split_ifs with hg
    · subst hg
      exact Part.May.value hb hf
    · exact ⟨hf, fun _ => rfl⟩
  | flag b =>
    obtain ⟨rfl, -⟩ := h
    cases f <;> exact ⟨hf, fun _ => rfl⟩
  | _ =>
    obtain ⟨rfl, -⟩ := h
    exact ⟨hf, fun _ => rfl⟩

/-- What is new in a field without a default was put there by a call of another part. -/
theorem Act.Does.origin (h : act.Does x names x' names') (hb : act.Belongs part)
    (hf : f ∉ required) (hne : x'.get f ≠ x.get f) :
    part = .other ∧ ∃ c answer, act = .call f c answer ∧ c.text? = some (x'.get f) := by
  cases act with
  | call g c answer =>
    obtain rfl : (x.call g c).2 = x' := congrArg Prod.snd h.1
    rw [Identity.get_call] at hne ⊢
    split_ifs at hne ⊢ with hg
    · subst hg
      have htext := (value_perform c _).resolve_left hne
      cases part with
      | defaults =>
        obtain rfl | ⟨hmem, -⟩ := hb
        · cases htext
        · exact absurd hmem hf
      | other => exact ⟨rfl, c, answer, rfl, htext⟩
    · exact absurd rfl hne
  | flag b =>
    obtain ⟨rfl, -⟩ := h
    cases f <;> exact absurd rfl hne
  | _ =>
    obtain ⟨rfl, -⟩ := h
    exact absurd rfl hne

theorem Act.Does.certFetched (h : act.Does x names x' names') (hb : act.Belongs part)
    (hne : x'.certFetched ≠ x.certFetched) : part = .other ∧ act = .flag x'.certFetched := by
  cases act with
  | call g c answer =>
    obtain rfl : (x.call g c).2 = x' := congrArg Prod.snd h.1
    exact absurd (Identity.certFetched_call ..) hne
  | flag b =>
    obtain ⟨rfl, -⟩ := h
    exact ⟨hb, rfl⟩
  | _ =>
    obtain ⟨rfl, -⟩ := h
    exact absurd rfl hne

/-- In a field without a default is what was there at the start, or what another thread stored. -/
def Origin (x : Identity) (es : List (Event ι)) (x' : Identity) : Prop :=
  (∀ f, f ∉ required → x'.get f = x.get f ∨
    ∃ t c answer, ⟨t, .other, .call f c answer⟩ ∈ es ∧ c.text? = some (x'.get f)) ∧
  (x'.certFetched = x.certFetched ∨ ∃ t, ⟨t, .other, .flag x'.certFetched⟩ ∈ es)

theorem origin_of_run (h : Run Step (.begin x names) es s) : Origin x es s.identity := by
  induction h with
  | start => exact ⟨fun f hf => .inl rfl, .inl rfl⟩
  | @step es e u v hrun hstep ih =>
    have hb := hstep.belongs (kept_of_run hrun)
    constructor
    · intro f hf
      by_cases hne : v.identity.get f = u.identity.get f
      · rw [hne]
        refine (ih.1 f hf).imp_right ?_
        rintro ⟨t, c, answer, hmem, htext⟩
        exact ⟨t, c, answer, List.mem_append_left _ hmem, htext⟩
      · obtain ⟨hpart, c, answer, hact, htext⟩ := hstep.does.origin hb hf hne
        obtain ⟨t, part, act⟩ := e
        obtain rfl := hpart
        obtain rfl := hact
        exact .inr ⟨t, c, answer, by simp, htext⟩
    · by_cases hne : v.identity.certFetched = u.identity.certFetched
      · rw [hne]
        exact ih.2.imp_right fun ⟨t, hmem⟩ => ⟨t, List.mem_append_left _ hmem⟩
      · obtain ⟨hpart, hact⟩ := hstep.does.certFetched hb hne
        obtain ⟨t, part, act⟩ := e
        obtain rfl := hpart
        obtain rfl := hact
        exact .inr ⟨t, by simp⟩

/-! ### One thread by itself -/

theorem step_of [DecidableEq ι] {stage : Stage} (hm : part.Moves (s.stage t) act stage)
    (hd : act.Does s.identity s.names x' names') :
    Step s ⟨t, part, act⟩ ⟨x', names', Function.update s.stage t stage⟩ where
  moves := by simpa using hm
  rests _ hu := Function.update_of_ne hu ..
  does := hd

/-- A thread can go on to its end, and leave this behind if no other disturbs it. -/
def Leads [DecidableEq ι] (s : State ι) (t : ι) (part : Part) (x : Identity)
    (names : NameSource) : Prop :=
  ∃ es, Run Step s es ⟨x, names, Function.update s.stage t none⟩ ∧
    ⟨t, part, .finish⟩ ∈ es ∧ ∀ e ∈ es, e.part = part

theorem Leads.cons [DecidableEq ι] {x'' : Identity} {names'' : NameSource} {stage : Stage}
    (h : Leads (⟨x', names', Function.update s.stage t stage⟩ : State ι) t part x'' names'')
    (hm : part.Moves (s.stage t) act stage) (hd : act.Does s.identity s.names x' names') :
    Leads s t part x'' names'' := by
  obtain ⟨es, hrun, hmem, hpart⟩ := h
  rw [Function.update_idem] at hrun
  exact ⟨⟨t, part, act⟩ :: es, (Run.one (step_of hm hd)).trans hrun, List.mem_cons_of_mem _ hmem,
    List.forall_mem_cons.2 ⟨rfl, hpart⟩⟩

/-- By itself a thread does what its routine does. -/
theorem leads_routine [DecidableEq ι] {r : Routine} (h : s.stage t = some (part, r)) :
    Leads s t part (r.run s.identity s.names).identity (r.run s.identity s.names).names := by
  induction r generalizing s with
  | done =>
    have hm : part.Moves (s.stage t) .finish none := h ▸ .finish
    exact ⟨[⟨t, part, .finish⟩], Run.one (step_of hm ⟨rfl, rfl⟩), by simp, by simp⟩
  | call f c next ih =>
    have hm := h ▸ Part.Moves.call f c next (s.identity.call f c).1
    exact (ih _ (Function.update_self ..)).cons hm ⟨rfl, rfl⟩
  | flag b next ih =>
    have hm := h ▸ Part.Moves.flag b next
    exact (ih (Function.update_self ..)).cons hm ⟨rfl, rfl⟩
  | mint next ih =>
    have hm := h ▸ Part.Moves.mint next s.names.mint.1
    exact (ih _ (Function.update_self ..)).cons hm ⟨rfl, rfl⟩
  | report r next ih =>
    have hm := h ▸ Part.Moves.report r next
    exact (ih (Function.update_self ..)).cons hm ⟨rfl, rfl⟩

/-- By itself a thread fills in the defaults of the identity. -/
theorem leads_defaults [DecidableEq ι] (h : s.stage t = none) :
    Leads s t .defaults (s.identity.withDefaults s.names).identity
      (s.identity.withDefaults s.names).names := by
  have hm : Part.defaults.Moves (s.stage t) .begin (some (.defaults, .defaults)) :=
    h ▸ .begin rfl
  rw [← Routine.run_defaults]
  exact (leads_routine (Function.update_self ..)).cons hm ⟨rfl, rfl⟩

end Sharing

end NodeConfig
