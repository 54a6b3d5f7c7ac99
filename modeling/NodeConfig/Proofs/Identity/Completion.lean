import Mathlib
import NodeConfig.Proofs.Identity.Sharing

namespace NodeConfig

namespace Sharing

variable {ι : Type} {s : State ι} {e : Event ι} {es : List (Event ι)} {x x' : Identity}
  {names names' : NameSource} {part : Part} {act : Act} {f : TextField} {t : ι}

/-- A call with this answer leaves a text. -/
def Leaves (c : Cell.Call) (answer : Cell.Answer) : Prop :=
  ∀ cell, (c.perform cell).1 = answer → (c.perform cell).2.value ≠ ""

/-- When the routine is done, all fields with a default have a text, if these have one now. -/
def Completes : Routine → (TextField → Prop) → Prop
  | .done, full => ∀ f ∈ required, full f
  | .call f c next, full =>
    ∀ answer, Completes (next answer) fun g => full g ∨ g = f ∧ Leaves c answer
  | .flag _ next, full => Completes next full
  | .mint next, full => ∀ name, name ≠ "" → Completes (next name) full
  | .report _ next, full => Completes next full

variable {full full' : TextField → Prop}

theorem Completes.mono {r : Routine} (h : Completes r full) (hfull : ∀ f, full f → full' f) :
    Completes r full' := by
  induction r generalizing full full' with
  | done => exact fun f hf => hfull f (h f hf)
  | call f c next ih =>
    intro answer
    exact ih answer (h answer) fun g hg => hg.imp_left (hfull g)
  | flag b next ih => exact ih h hfull
  | mint next ih => exact fun name hname => ih name (h name hname) hfull
  | report r next ih => exact ih h hfull

theorem leaves_storeIfEmpty {text : String} (htext : text ≠ "") (answer : Cell.Answer) :
    Leaves (.storeIfEmpty text) answer := by
  intro cell _
  obtain ⟨-, hstore⟩ | ⟨hcell, hstore⟩ := Cell.storeIfEmpty_cases cell text
  · rwa [Cell.Call.perform, hstore]
  · rwa [Cell.Call.perform, hstore]

theorem leaves_load {found : Cell.Answer} (hfound : found ≠ .value "") : Leaves .load found := by
  rintro cell rfl hempty
  exact hfound (congrArg Cell.Answer.value hempty)

theorem completes_fill {text : String} {next : Bool → Routine} (htext : text ≠ "")
    (hnext : ∀ b, Completes (next b) fun g => full g ∨ g = f) :
    Completes (.fill f text next) full := fun answer =>
  (hnext _).mono fun _ hg => hg.imp_right fun hgf => ⟨hgf, leaves_storeIfEmpty htext answer⟩

theorem completes_defaultName (hfull : ∀ f ∈ required, f ≠ .name → full f) :
    Completes .defaultName full := by
  intro found
  dsimp only
  split_ifs with hfound
  · intro name hname
    refine completes_fill hname fun wrote => ?_
    split_ifs
    · intro found' f hf
      by_cases hfn : f = .name
      · exact .inl (.inr hfn)
      · exact .inl (.inl (.inl (hfull f hf hfn)))
    · intro f hf
      by_cases hfn : f = .name
      · exact .inr hfn
      · exact .inl (.inl (hfull f hf hfn))
  · intro f hf
    by_cases hfn : f = .name
    · exact .inr ⟨hfn, leaves_load hfound⟩
    · exact .inl (hfull f hf hfn)

theorem completes_defaults : Completes .defaults full := by
  refine completes_fill (by decide) fun wrote => ?_
  have hpaths : Completes (.fill .certificatePath Identity.defaultCertificatePath
      fun _ => .fill .certificateKeyPath Identity.defaultCertificateKeyPath
        fun _ => .defaultName) fun g => full g ∨ g = .mode := by
    refine completes_fill (by decide) fun _ => completes_fill (by decide) fun _ => ?_
    refine completes_defaultName fun f hf hne => ?_
    simp only [required, List.mem_cons, List.not_mem_nil, or_false] at hf
    tauto
  cases wrote <;> exact hpaths

def Full (x : Identity) (f : TextField) : Prop := x.get f ≠ ""

theorem complete_of_full (h : ∀ f ∈ required, Full x f) : x.Complete where
  mode := h .mode (by decide)
  certificatePath := h .certificatePath (by decide)
  certificateKeyPath := h .certificateKeyPath (by decide)
  name := h .name (by decide)

theorem full_of_complete (h : x.Complete) : ∀ f ∈ required, Full x f := by
  intro f hf
  simp only [required, List.mem_cons, List.not_mem_nil, or_false] at hf
  rcases hf with rfl | rfl | rfl | rfl
  · exact h.mode
  · exact h.certificatePath
  · exact h.certificateKeyPath
  · exact h.name

def Stage.Completes (x : Identity) : Stage → Prop
  | some (.defaults, r) => Sharing.Completes r (Full x)
  | _ => True

theorem Stage.Completes.mono {stage : Stage} (h : stage.Completes x)
    (hfull : ∀ f, Full x f → Full x' f) : stage.Completes x' := by
  obtain _ | ⟨_ | _, r⟩ := stage
  · trivial
  · exact Sharing.Completes.mono h hfull
  · trivial

theorem Part.Moves.completes {stage stage' : Stage} (h : part.Moves stage act stage')
    (hd : act.Does x names x' names') (hb : act.Belongs part) (hc : stage.Completes x) :
    stage'.Completes x' := by
  have hfull : ∀ f, Full x f → Full x' f := fun f hf => (hd.get hb hf).1
  cases part with
  | other => cases h <;> trivial
  | defaults =>
    cases h with
    | begin hr =>
      obtain rfl := hr
      exact completes_defaults
    | call f c next answer =>
      refine Sharing.Completes.mono (hc answer) fun g hg => ?_
      rcases hg with hg | ⟨rfl, hleaves⟩
      · exact hfull g hg
      · obtain ⟨rfl, rfl⟩ := Prod.mk.inj hd.1
        rw [Full, Identity.get_set, if_pos rfl]
        exact hleaves _ rfl
    | flag => exact Sharing.Completes.mono hc hfull
    | mint next name => exact Sharing.Completes.mono (hc name hb) hfull
    | report => exact Sharing.Completes.mono hc hfull
    | finish => trivial

theorem completes_of_run (h : Run Step (.begin x names) es s) (t : ι) :
    (s.stage t).Completes s.identity := by
  induction h with
  | start => trivial
  | @step es e u v hrun hstep ih =>
    have hb := hstep.belongs (kept_of_run hrun)
    by_cases ht : t = e.thread
    · subst ht
      exact hstep.moves.completes hstep.does hb ih
    · -- Whatever the others do, a field that has a text keeps one.
      rw [hstep.rests t ht]
      exact ih.mono fun f hf => (hstep.does.get hb hf).1

/-- Once some thread has filled in the defaults, they are there. -/
theorem complete_of_run (h : Run Step (.begin x names) es s)
    (hfinish : ⟨t, .defaults, .finish⟩ ∈ es) : s.identity.Complete := by
  refine complete_of_full fun f hf => ?_
  induction h with
  | start => cases hfinish
  | @step es e u v hrun hstep ih =>
    have hb := hstep.belongs (kept_of_run hrun)
    refine (hstep.does.get hb ?_).1
    rcases List.mem_append.1 hfinish with hmem | hmem
    · exact ih hmem
    · obtain rfl := List.mem_singleton.1 hmem
      have hdone : u.stage t = some (.defaults, .done) := hstep.moves.of_finish
      have hc := completes_of_run hrun t
      rw [hdone] at hc
      exact hc f hf

def Event.installs : Event ι → Bool
  | ⟨_, .defaults, .call .name _ (.wrote true)⟩ => true
  | _ => false

theorem Act.Does.installed (h : e.act.Does x names x' names') (hb : e.act.Belongs e.part)
    (hi : e.installs = true) : ¬Full x .name ∧ Full x' .name := by
  unfold Event.installs at hi
  split at hi
  · rcases hb with rfl | ⟨-, text, htext, rfl⟩
    · cases h.1
    · simp only [Act.Does, Identity.call_storeIfEmpty, Prod.mk.injEq, Cell.Answer.wrote.injEq,
        decide_eq_true_eq] at h
      obtain ⟨⟨hempty, rfl⟩, -⟩ := h
      refine ⟨not_not.2 hempty, ?_⟩
      rw [Full, Identity.get_fill, if_pos ⟨rfl, hempty⟩]
      exact htext
  · cases hi

/-- At most one name that was made is stored, and there is a name from then on. -/
theorem installs_of_run (h : Run Step (.begin x names) es s) :
    es.countP Event.installs ≤ 1 ∧ (0 < es.countP Event.installs → Full s.identity .name) := by
  induction h with
  | start => simp
  | @step es e u v hrun hstep ih =>
    have hb := hstep.belongs (kept_of_run hrun)
    rw [List.countP_append, List.countP_singleton]
    split_ifs with hi
    · -- There was no name before, so no other was stored.
      obtain ⟨hbefore, hafter⟩ := hstep.does.installed hb hi
      have hnone : es.countP Event.installs = 0 := by
        by_contra hpos
        exact hbefore (ih.2 (by omega))
      exact ⟨by omega, fun _ => hafter⟩
    · exact ⟨ih.1, fun hpos => (hstep.does.get hb (ih.2 hpos)).1⟩

/-- By itself, the routine leaves this identity as it is, and makes no name. -/
def Inert (x : Identity) : Routine → Prop
  | .done => True
  | .call f c next => (x.call f c).2 = x ∧ Inert x (next (x.call f c).1)
  | .flag _ _ => False
  | .mint _ => False
  | .report _ _ => False

theorem inert_fill {text : String} {next : Bool → Routine} (hf : Full x f)
    (hnext : Inert x (next false)) : Inert x (.fill f text next) := by
  have hcall : x.call f (.storeIfEmpty text) = (.wrote false, x) := by
    rw [Identity.call_storeIfEmpty, Identity.fill_of_ne hf, decide_eq_false hf]
  rw [Routine.fill, Inert, hcall]
  exact ⟨rfl, hnext⟩

theorem inert_defaults (h : x.Complete) : Inert x .defaults := by
  have hfull := full_of_complete h
  have hname : Inert x .defaultName := by
    refine ⟨by rw [Identity.call_load], ?_⟩
    have hfound : Cell.Answer.value (x.get .name) ≠ .value "" := fun hempty =>
      h.name (Cell.Answer.value.inj hempty)
    rw [Identity.call_load]
    dsimp only
    rw [if_neg hfound]
    trivial
  have hpaths : Inert x (.fill .certificatePath Identity.defaultCertificatePath
      fun _ => .fill .certificateKeyPath Identity.defaultCertificateKeyPath
        fun _ => .defaultName) :=
    inert_fill (hfull .certificatePath (by decide))
      (inert_fill (hfull .certificateKeyPath (by decide)) hname)
  exact inert_fill (hfull .mode (by decide)) hpaths

def Stage.Inert (x : Identity) : Stage → Prop
  | none => True
  | some (_, r) => Sharing.Inert x r

theorem Part.Moves.inert {stage stage' : Stage} (h : Part.defaults.Moves stage act stage')
    (hd : act.Does x names x' names') (hx : x.Complete) (hi : stage.Inert x) :
    (x' = x ∧ names' = names ∧ ∀ name, act ≠ .mint name) ∧ stage'.Inert x := by
  cases h with
  | begin hr =>
    obtain rfl := hr
    exact ⟨⟨hd.1, hd.2, nofun⟩, inert_defaults hx⟩
  | call f c next answer =>
    obtain ⟨hcall, hnames⟩ := hd
    obtain ⟨hsame, hnext⟩ := hi
    rw [hcall] at hsame hnext
    exact ⟨⟨hsame, hnames, nofun⟩, hnext⟩
  | flag => exact hi.elim
  | mint => exact hi.elim
  | report => exact hi.elim
  | finish => exact ⟨⟨hd.1, hd.2, nofun⟩, trivial⟩

/-- Where the identity is complete and all threads are idle, defaults change nothing. -/
theorem inert_of_run {u : State ι} (h : Run Step u es s) (hu : u.identity.Complete)
    (hidle : ∀ t, u.stage t = none) (hpart : ∀ e ∈ es, e.part = .defaults) :
    (s.identity = u.identity ∧ s.names = u.names ∧ ∀ e ∈ es, ∀ name, e.act ≠ .mint name) ∧
      ∀ t, (s.stage t).Inert u.identity := by
  induction h with
  | start => exact ⟨⟨rfl, rfl, nofun⟩, fun t => by rw [hidle]; trivial⟩
  | @step es e v w hrun hstep ih =>
    obtain ⟨⟨hidentity, hnames, hacts⟩, hinert⟩ :=
      ih fun e he => hpart e (List.mem_append_left _ he)
    have hmoves := hstep.moves
    rw [hpart e (by simp)] at hmoves
    have hdoes := hstep.does
    rw [hidentity, hnames] at hdoes
    obtain ⟨⟨hw, hw', hact⟩, hstage⟩ := hmoves.inert hdoes hu (hinert _)
    refine ⟨⟨hw, hw', fun e' he' => ?_⟩, fun t => ?_⟩
    · rcases List.mem_append.1 he' with he' | he'
      · exact hacts e' he'
      · exact List.mem_singleton.1 he' ▸ hact
    · by_cases ht : t = e.thread
      · exact ht ▸ hstage
      · rw [hstep.rests t ht]
        exact hinert t

end Sharing

end NodeConfig
