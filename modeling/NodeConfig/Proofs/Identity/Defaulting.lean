import Mathlib
import NodeConfig.Proofs.Identity.Interleaving

namespace NodeConfig

namespace Sharing.Fine

variable {ι : Type} [DecidableEq ι] {s u : State ι} {es fs : List (Option (Event ι))}
  {e : Option (Event ι)} {x : Identity} {names : NameSource}

theorem run_plain (h : Run Step (.begin x names) es s) :
    Run Sharing.Step (.begin x names) es.reduceOption s.plain := by
  have hrun := plain_of_run h (sound_begin x names)
  rwa [plain_begin] at hrun

/-- Nobody empties a field, and defaults leave it as it is if it has a text. -/
theorem Step.full (h : Step u e s) (hu : Run Step (.begin x names) es u) {f : TextField}
    (hf : u.identity.get f ≠ "") : s.identity.get f ≠ "" ∧
      (s.identity.get f ≠ u.identity.get f → ∃ t act, e = some ⟨t, .other, act⟩) := by
  have hplain := h.plain (sound_of_run hu (sound_begin x names))
  cases e with
  | none =>
    have hsame : s.identity = u.identity := congrArg Sharing.State.identity hplain
    exact ⟨hsame ▸ hf, fun hne => absurd (congrArg (·.get f) hsame) hne⟩
  | some e =>
    have hstep : Sharing.Step u.plain e s.plain := hplain
    obtain ⟨hfull, hkeeps⟩ := hstep.does.get (hstep.belongs (kept_of_run (run_plain hu))) hf
    obtain ⟨t, part, act⟩ := e
    refine ⟨hfull, fun hne => ?_⟩
    cases part with
    | defaults => exact absurd (hkeeps rfl) hne
    | other => exact ⟨t, act, rfl⟩

/-- Where defaults were filled in and all threads are idle, further defaults change nothing. -/
theorem idle_of_run (hu : Run Step (.begin x names) es u) (h : Run Step u fs s) {t : ι}
    (hfinish : some ⟨t, .defaults, .finish⟩ ∈ es) (hidle : ∀ t, u.stage t = .free none)
    (hpart : ∀ e, some e ∈ fs → e.part = .defaults) :
    s.identity = u.identity ∧ s.names = u.names ∧
      ∀ e, some e ∈ fs → ∀ name, e.act ≠ .mint name := by
  have hcomplete : u.identity.Complete :=
    complete_of_run (run_plain hu) (List.reduceOption_mem_iff.2 hfinish)
  have hrest : ∀ t, u.plain.stage t = none := by
    intro t
    simp only [State.plain, hidle, Stage.rest]
  have hrun := plain_of_run h (sound_of_run hu (sound_begin x names))
  obtain ⟨⟨hidentity, hnames, hacts⟩, -⟩ := inert_of_run hrun hcomplete hrest
    fun e he => hpart e (List.reduceOption_mem_iff.1 he)
  exact ⟨hidentity, hnames, fun e he => hacts e (List.reduceOption_mem_iff.2 he)⟩

/-- Whatever others store at the same time, if no empty texts, no text is lost. Once some thread has
filled in the defaults, they are there. A field with a text is never emptied, and changed by the
others only, not by defaults. At most one name that was made is stored. The fields without a default
have what was there at the start or what another thread stored. Defaults that are filled in again,
with nothing stored meanwhile, change nothing and make no name. -/
theorem defaults_lose_nothing (h : Run Step (.begin x names) es s) :
    (∀ t, some ⟨t, .defaults, .finish⟩ ∈ es → s.identity.Complete) ∧
    (∀ fs e gs, es = fs ++ e :: gs → ∃ u v, Run Step (.begin x names) fs u ∧ Step u e v ∧
      Run Step v gs s ∧ ∀ f, u.identity.get f ≠ "" → v.identity.get f ≠ "" ∧
        (v.identity.get f ≠ u.identity.get f → ∃ t act, e = some ⟨t, .other, act⟩)) ∧
    es.reduceOption.countP Event.installs ≤ 1 ∧
    Origin x es.reduceOption s.identity ∧
    (∀ fs gs u t, es = fs ++ gs → Run Step (.begin x names) fs u → Run Step u gs s →
      some ⟨t, .defaults, .finish⟩ ∈ fs → (∀ t, u.stage t = .free none) →
      (∀ e, some e ∈ gs → e.part = .defaults) →
      s.identity = u.identity ∧ s.names = u.names ∧
        ∀ e, some e ∈ gs → ∀ name, e.act ≠ .mint name) ∧
    Routine.defaults.run x names = x.withDefaults names ∧
    (x.withDefaults names).identity.withDefaults (x.withDefaults names).names =
      ⟨(x.withDefaults names).identity, (x.withDefaults names).names, .nothing⟩ := by
  refine ⟨fun t hfinish => ?_, ?_, (installs_of_run (run_plain h)).1, origin_of_run (run_plain h),
    ?_, Routine.run_defaults x names,
    Identity.withDefaults_of_complete (x.complete_withDefaults names) _⟩
  · exact complete_of_run (run_plain h) (List.reduceOption_mem_iff.2 hfinish)
  · rintro fs e gs rfl
    obtain ⟨u, v, hu, hstep, hv⟩ := h.split_cons
    exact ⟨u, v, hu, hstep, hv, fun f hf => hstep.full hu hf⟩
  · intro fs gs u t _ hu hs hfinish hidle hpart
    exact idle_of_run hu hs hfinish hidle hpart

def stillNames : NameSource := .fresh fun _ => ⟨0, 0, 0⟩

/-- A thread finds no name and makes one, but has not stored it yet. -/
theorem run_hesitant : ∃ es p,
    Run Sharing.Step (.begin .empty stillNames : Sharing.State Bool) es p ∧
      ⟨false, .defaults, .mint stillNames.mint.1⟩ ∈ es ∧ p.stage true = none ∧
      ∃ r, p.stage false = some (.defaults, r) := by
  have hbegin : Part.defaults.Moves none .begin (some (.defaults, .defaults)) := .begin rfl
  have hbegun := Run.one (step_of (s := .begin .empty stillNames) (t := false) hbegin ⟨rfl, rfl⟩)
  have hmode := hbegun.step (step_of (t := false) (.call _ _ _ _) ⟨rfl, rfl⟩)
  have hreported := hmode.step (step_of (t := false) (.report _ _) ⟨rfl, rfl⟩)
  have hpath := hreported.step (step_of (t := false) (.call _ _ _ _) ⟨rfl, rfl⟩)
  have hkey := hpath.step (step_of (t := false) (.call _ _ _ _) ⟨rfl, rfl⟩)
  have hfound := hkey.step (step_of (t := false) (.call _ _ _ _) ⟨rfl, rfl⟩)
  have hminted := hfound.step (step_of (t := false) (.mint _ _) ⟨rfl, rfl⟩)
  exact ⟨_, _, hminted, List.mem_append_right _ (List.mem_singleton.2 rfl), rfl, _, rfl⟩

/-- A thread comes too late with the name it made, since another filled in all defaults meanwhile.
When both are done, one of them does it all again. -/
theorem defaults_lose_nothing_race : ∃ es fs u s,
    Run Step (.begin .empty stillNames : State Bool) es u ∧ Run Step u fs s ∧
      some ⟨false, .defaults, .mint stillNames.mint.1⟩ ∈ es ∧
      some ⟨true, .defaults, .finish⟩ ∈ es ∧ some ⟨false, .defaults, .finish⟩ ∈ es ∧
      some ⟨true, .defaults, .finish⟩ ∈ fs ∧
      s.identity.Complete ∧ (es ++ fs).reduceOption.countP Event.installs ≤ 1 ∧
      s.identity = u.identity ∧ s.names = u.names := by
  obtain ⟨es, p, hp, hminted, hidle, r, hr⟩ := run_hesitant
  obtain ⟨es', hp', hfinish', -⟩ := leads_defaults hidle
  generalize (p.identity.withDefaults p.names).identity = x at hp'
  generalize (p.identity.withDefaults p.names).names = names at hp'
  have hr' : (⟨x, names, Function.update p.stage true none⟩ : Sharing.State Bool).stage false =
      some (.defaults, r) := by
    simpa using hr
  obtain ⟨es'', hp'', hfinish'', -⟩ := leads_routine hr'
  -- Both are done now.
  have hdone := hp.trans (hp'.trans hp'')
  generalize hq : (Sharing.State.mk _ _ _ : Sharing.State Bool) = q at hdone
  have hnone : ∀ t, q.stage t = none := by
    rw [← hq]
    intro t
    cases t <;> simp
  obtain ⟨fs, hagain, hfinish, hpart⟩ := leads_defaults (hnone true)
  rw [← plain_begin] at hdone
  obtain ⟨gs, u, hu, hgs, rfl, hrested⟩ := exists_run_of_plain (rested_begin _ _) hdone
  obtain ⟨ks, s, hks, hlast, -, -⟩ := exists_run_of_plain hrested hagain
  have hmem : ∀ e, e ∈ es ++ (es' ++ es'') → some e ∈ gs := fun e he =>
    List.reduceOption_mem_iff.1 (hgs ▸ he)
  have hmem' : ∀ e, some e ∈ ks → e ∈ fs := fun e he => hlast ▸ List.reduceOption_mem_iff.2 he
  have hdone : some ⟨true, .defaults, .finish⟩ ∈ gs := hmem _ (by simp [hfinish'])
  obtain ⟨hcomplete, -, hinstalls, -, hsame, -⟩ := defaults_lose_nothing (hu.trans hks)
  obtain ⟨hidentity, hnames, -⟩ := hsame gs ks u true rfl hu hks hdone
    (fun t => hrested.free (hnone t))
    fun e he => hpart e (hmem' e he)
  exact ⟨gs, ks, u, s, hu, hks, hmem _ (by simp [hminted]), hdone, hmem _ (by simp [hfinish'']),
    List.reduceOption_mem_iff.1 (hlast ▸ hfinish), hcomplete true (List.mem_append_left _ hdone),
    hinstalls, hidentity, hnames⟩

end Sharing.Fine

end NodeConfig
