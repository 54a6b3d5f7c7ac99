import Mathlib
import NodeConfig.Proofs.Daemon.Inert
import NodeConfig.Proofs.Daemon.Reported
import NodeConfig.Proofs.Daemon.Tasks

namespace NodeConfig

namespace Daemon

open CommandLine (Launch launch)

/-! ### Runs of the tasks -/

namespace Tasks

variable {r : Running} {s : Store} {x : Identity} {c : Channel} {n : ℕ} {phase : Phase}
  {t : Tasks} {acts : List Act}

theorem weight_begin (r : Running) (hs : s.keyChanged.pending = false) :
    weight (begin r s) = 4 := by
  have hchannel : (begin r s).traffic.state.channel.pending = false := hs
  rw [weight, hchannel]
  rfl

/-- What every run keeps. -/
theorem at_run (hs : s.keyChanged.pending = false) (hr : Follows r s.identity)
    (h : Run Step (begin r s) acts t) :
    (∃ n phase, At r s.identity s.keyChanged n phase t) ∧
      acts.length + weight t ≤ 14 * t.signals + 4 := by
  induction h with
  | start => exact ⟨⟨0, .rest, at_begin r hs⟩, by simp [weight_begin r hs]⟩
  | @step acts act t u _ hstep ih =>
    obtain ⟨⟨n, phase, ht⟩, hlength⟩ := ih
    rw [List.length_append, List.length_singleton]
    cases act with
    | own =>
      obtain ⟨hat, hweight⟩ := ht.own hstep
      refine ⟨hat, ?_⟩
      rw [signals_own hstep]
      omega
    | hangup =>
      cases hstep with
      | hangup hcount =>
        obtain ⟨hat, hquiet⟩ := ht.hangup hr hcount
        refine ⟨⟨n, _, hat⟩, ?_⟩
        simp only [weight, hquiet, Bool.toNat_true, Bool.toNat_false] at hlength ⊢
        omega

/-- A signal that is on its way is announced in the end, if the tasks go on. -/
theorem At.settles (ht : At r x c n phase t) (hphase : phase ≠ .rest) :
    ∃ acts u, Run Step t acts u ∧ At r x c (n + 1) .rest u := by
  induction hw : weight t using Nat.strongRecOn generalizing t phase with
  | _ w ih =>
    -- Some task can go on, and whatever it does lowers the weight.
    obtain ⟨u, hstep⟩ := ht.progress hphase
    obtain ⟨⟨m, phase', hu⟩, hweight⟩ := ht.own hstep
    -- The signal is still on its way, or it was announced just now.
    have hsignals := hu.signals
    rw [signals_own hstep, ht.signals, if_neg hphase] at hsignals
    by_cases hrest : phase' = .rest
    · rw [if_pos hrest] at hsignals
      obtain rfl : m = n + 1 := by omega
      exact ⟨_, u, .one hstep, hrest ▸ hu⟩
    · rw [if_neg hrest] at hsignals
      obtain rfl : m = n := by omega
      obtain ⟨acts, v, hrun, hv⟩ := ih _ (hw ▸ hweight) hu hrest rfl
      exact ⟨_, v, (Run.one hstep).trans hrun, hv⟩

/-- So many signals may come, one after the other. -/
theorem exists_run (hs : s.keyChanged.pending = false) (hr : Follows r s.identity) (n : ℕ) :
    ∃ acts t, Run Step (begin r s) acts t ∧ At r s.identity s.keyChanged n .rest t := by
  induction n with
  | zero => exact ⟨[], _, .start, at_begin r hs⟩
  | succ n ih =>
    obtain ⟨acts, t, hrun, ht⟩ := ih
    have hcount : announced t.run = t.signals := by
      rw [ht.announced_eq hr, ht.signals]
      rfl
    obtain ⟨acts', u, hrun', hu⟩ := (ht.hangup hr hcount).1.settles nofun
    exact ⟨_, u, (hrun.step (.hangup hcount)).trans hrun', hu⟩

end Tasks

variable {s : Surroundings} {args : List Bytes} {l : Launch} {r : Running} {store : Store}
  {f : Files} {log? : Option Location}

/-! ### What a start reports -/

def OfSignal (e : Event) : Prop :=
  e.message ∈ ["SIGHUP received, reloading bootstrap key", "Bootstrap key changed",
    "Bootstrap key reload not delivered"]

instance : DecidablePred OfSignal := fun _ => inferInstanceAs (Decidable (_ ∈ _))

theorem Reported.not_ofSignal {port : ℕ} {e : Event} (h : Reported port e) : ¬ OfSignal e := by
  cases h with
  | starting => simp [OfSignal, version]
  | metrics refusal a => cases refusal <;> simp [metricsEvent, OfSignal]
  | loaded x server _ => simp [Store.loadedEvent, OfSignal]
  | doubt e => simp [doubtEvent, OfSignal]
  | _ => simp [OfSignal]

theorem not_ofSignal_closing : ∀ e ∈ closing, ¬ OfSignal e :=
  fun e he => (reported_closing 0 e he).not_ofSignal

/-! ### A run that has started -/

/-- What is known of a run when it waits for signals. -/
structure Started (s : Surroundings) (l : Launch) (log? : Option Location) (r : Running)
    (store : Store) : Prop where
  filter : r.filter = filterOf s l.settings.logging
  quiet : ∀ e ∈ r.logged, ¬ OfSignal e
  /-- The log is where it was opened, unless the snapshot has replaced it. -/
  log? : ∀ k, r.log? = some k → log? = some k
  pending : store.keyChanged.pending = false

theorem started_of_start (hl : launch args = .ok l) (h : start s args = .ok (r, store)) :
    ∃ f log?, Opens s l.settings.logging f log? ∧ Started s l log? r store ∧
      (Avoids l f log? → ∃ x, Kept f l.settings.options.snapshotPath x ∧
        store.identity = (x.withDefaults s.names).identity) := by
  obtain ⟨e, -, hbegin⟩ | ⟨f, log?, hopen, hbegin⟩ := begin_cases s l.settings.logging
  · simp only [start, hl, hbegin] at h
    cases h
  · simp only [start, hl, hbegin] at h
    have hfirst := (opened s l.settings.logging f log?).onward_logAll (opening s.refusal l)
    generalize hr₁ : (opened s l.settings.logging f log?).logAll (opening s.refusal l) = r₁
      at hfirst
    obtain ⟨-, es, stderr, -, hboot⟩ |
      ⟨-, x, hx, schema, store', names, report, hload, -, hidentity, hpending, -, hboot⟩ :=
        bootstrap_cases s.refusal l hr₁
    · cases hboot.symm.trans h
    · cases hboot.symm.trans h
      -- The log has what the opening, the load and the first save report, in this order.
      let named : Running := { r₁ with world := { r₁.world with names := names } }
      have hnamed : r₁.Onward [] none named :=
        Running.onward_world _ _ (fun _ _ => rfl) fun _ _ => (Option.some_ne_none _).symm
      have hloaded := hfirst.trans (hnamed.trans (named.onward_logAll report.events))
      obtain ⟨r', hlogged, hfilter, hlog, hpersist⟩ :=
        persist_eq (named.logAll report.events) store
      have hsaved := r'.onward_logAll (saving (store.save (named.logAll report.events).world))
      rw [← hpersist] at hsaved
      have hreported := reported_load (fresh l) r₁.world schema l.host l.port
      rw [hload] at hreported
      refine ⟨f, log?, hopen, ⟨?_, ?_, ?_, hpending⟩, fun havoids => ⟨x, ?_, ?_⟩⟩
      · exact hsaved.filter.trans (hfilter.trans hloaded.filter)
      · intro e he
        rw [hsaved.logged, hlogged, hloaded.logged, List.append_assoc] at he
        rcases List.mem_append.1 he with he | he
        · cases he
        · rcases List.mem_append.1 he with he | he
          · rcases List.mem_append.1 (List.mem_filter.1 he).1 with he | he
            · exact (reported_opening l.port _ _ e he).not_ofSignal
            · exact (hreported e he).not_ofSignal
          · exact (reported_saving l.port _ _ e (List.mem_filter.1 he).1).not_ofSignal
      · intro k hk
        rw [hsaved.log?_eq] at hk
        have hk := hlog k hk
        rwa [hloaded.log?_eq, log?_opened] at hk
      · have hsame := hfirst.sameBut hopen.text?
        rw [log?_opened] at hsame
        exact hx.congr (havoids.sameReads hsame).symm.snapshot
      · rw [hidentity, ← hr₁, Running.names_logAll]
        rfl

/-- The log shows what the daemon reports at level `info`: its level is that or more verbose, unless
a filter goes before it, which shows the signals and their announcements. -/
def Informs (s : Surroundings) (o : LogOptions) : Prop :=
  match s.filter with
  | none => Level.info.verbosity ≤ o.level.verbosity
  | some _ => (filterOf s o).shows hangupEvent = true ∧
      ∀ x, (filterOf s o).shows (changedEvent x) = true

theorem Started.follows (h : Started s l log? r store) (hinforms : Informs s l.settings.logging) :
    Tasks.Follows r store.identity := by
  have hshows : (filterOf s l.settings.logging).shows hangupEvent = true ∧
      (filterOf s l.settings.logging).shows (changedEvent store.identity) = true := by
    unfold Informs at hinforms
    split at hinforms
    · next hnone =>
      rw [shows_filterOf hnone, shows_filterOf hnone]
      exact ⟨decide_eq_true hinforms, decide_eq_true hinforms⟩
    · exact ⟨hinforms.1, hinforms.2 _⟩
  refine ⟨h.filter ▸ hshows.1, h.filter ▸ hshows.2, ?_⟩
  rw [announced, List.countP_eq_zero]
  intro e he hmessage
  refine h.quiet e he ?_
  simp [OfSignal, of_decide_eq_true hmessage]

/-! ### Signals -/

theorem run_of_start (h : start s args = .ok (r, store))
    (hpending : store.keyChanged.pending = false) (n : ℕ) :
    run s args n = ((r.logAll (reloading store.identity n)).logAll closing).exit 0 "" := by
  simp only [run, h, reloads_eq r hpending]
  rfl

theorem Started.logged_run (h : Started s l log? r store) (hstart : start s args = .ok (r, store))
    (hfollows : Tasks.Follows r store.identity) (n : ℕ) :
    (run s args n).logged =
      r.logged ++ reloading store.identity n ++ closing.filter r.filter.shows := by
  rw [run_of_start hstart h.pending]
  refine (logged_logAll _ closing).trans ?_
  rw [logged_logAll, hfollows.filter_reloading, (r.onward_logAll _).filter]

/-- Once a run has started, it changes no file but its log. -/
theorem Started.get?_run (h : Started s l log? r store) (hstart : start s args = .ok (r, store))
    (n : ℕ) {k : Location} (hk : r.log? ≠ some k) :
    (run s args n).files.get? k = r.world.files.get? k := by
  rw [run_of_start hstart h.pending, ← Running.logAll_append]
  refine (r.onward_logAll _).get? k hk ?_
  exact (Option.some_ne_none _).symm

/-- When all signals were announced, the tasks have done what one task does that deals with each
signal before the next. -/
theorem Started.shutdown_tasks (h : Started s l log? r store)
    (hstart : start s args = .ok (r, store)) {t : Tasks} {n : ℕ}
    (ht : Tasks.At r store.identity store.keyChanged n .rest t) :
    shutdown t.run = run s args n := by
  rw [run_of_start hstart h.pending, ht.run]
  simp only [Tasks.Phase.logged, List.append_nil]
  rfl

/-- Signals to reload the key only signal. Let a run start whose log shows what is reported at level
`info`, and let signals come, each after the one before was announced. Then for each of them the log
has that it came and, next to that, that the key of the loaded identity is announced; it has no more
of these events, and no warning of a signal that was not delivered. But for them the log is the same
as without signals; and so are the exit code and all files but the log.

So it is in whatever order the tasks run. All signals come to be announced: while one is not, some
task can go on, and after a number of steps that does not depend on their order none can. -/
theorem signals_only_announce (hl : launch args = .ok l) (hstart : start s args = .ok (r, store))
    (hinforms : Informs s l.settings.logging) (n : ℕ) :
    (∃ first last, (run s args 0).logged = first ++ last ∧
      (run s args n).logged = first ++ reloading store.identity n ++ last ∧
      ∀ e ∈ first ++ last, ¬ OfSignal e) ∧
    (run s args n).code = (run s args 0).code ∧
    (∀ k, ¬ IsLog s args k → (run s args n).files.get? k = (run s args 0).files.get? k) ∧
    (∀ f log?, Opens s l.settings.logging f log? → Avoids l f log? →
      ∃ x, Kept f l.settings.options.snapshotPath x ∧
        store.identity = (x.withDefaults s.names).identity) ∧
    (∃ acts t, Run Tasks.Step (.begin r store) acts t ∧ t.signals = n ∧ announced t.run = n) ∧
    ∀ acts t, Run Tasks.Step (.begin r store) acts t →
      (∃ rest, (rest = [] ∨ rest = [hangupEvent]) ∧
        t.run.logged = r.logged ++ reloading store.identity (announced t.run) ++ rest) ∧
      (t.signals = n → announced t.run = n → shutdown t.run = run s args n) ∧
      (announced t.run < t.signals → ∃ u, Tasks.Step t .own u) ∧
      acts.length ≤ 14 * t.signals + 4 := by
  obtain ⟨f, log?, hopen, hstarted, hidentity⟩ := started_of_start hl hstart
  have hfollows := hstarted.follows hinforms
  refine ⟨⟨r.logged, closing.filter r.filter.shows, ?_, hstarted.logged_run hstart hfollows n, ?_⟩,
    ?_, ?_, ?_, ?_, ?_⟩
  · simpa [reloading] using hstarted.logged_run hstart hfollows 0
  · intro e he
    rcases List.mem_append.1 he with he | he
    · exact hstarted.quiet e he
    · exact not_ofSignal_closing e (List.mem_filter.1 he).1
  · rw [run_of_start hstart hstarted.pending, run_of_start hstart hstarted.pending]
    rfl
  · intro k hk
    have hlog : r.log? ≠ some k := fun h => hk ⟨l, f, hl, hstarted.log? k h ▸ hopen⟩
    rw [hstarted.get?_run hstart n hlog, hstarted.get?_run hstart 0 hlog]
  · intro g log?' hopen' havoids
    obtain ⟨rfl, rfl⟩ := hopen.unique hopen'
    exact hidentity havoids
  · obtain ⟨acts, t, htasks, ht⟩ := Tasks.exists_run hstarted.pending hfollows n
    exact ⟨acts, t, htasks, ht.signals, ht.announced_eq hfollows⟩
  · intro acts t htasks
    obtain ⟨⟨m, phase, ht⟩, hlength⟩ := Tasks.at_run hstarted.pending hfollows htasks
    have hcount := ht.announced_eq hfollows
    have hsignals := ht.signals
    refine ⟨⟨phase.logged, ?_, ?_⟩, ?_, ?_, by omega⟩
    · cases phase <;> simp [Tasks.Phase.logged]
    · rw [hcount]
      exact ht.logged hfollows
    · rintro rfl hall
      -- As many announcements as signals leave none on its way.
      have hrest : phase = .rest := by
        by_contra hne
        rw [if_neg hne] at hsignals
        omega
      subst hrest
      exact (hcount.symm.trans hall) ▸ hstarted.shutdown_tasks hstart ht
    · intro hless
      refine ht.progress fun hrest => ?_
      rw [if_pos hrest] at hsignals
      omega

def keyed : Bytes := Utf8.ofString "[cluster]\nbootstrap_key = 'k'\n"

theorem kept_keyed : Kept (around keyed).files
    (launchedBy .stdout .info .text).settings.options.snapshotPath { bootstrapKey := "k" } :=
  .decoded (show (around keyed).files.read (Path.ofString "node.toml") = .ok keyed from rfl)
    (by cbv)

theorem opens_keyed : Opens (around keyed) (launchedBy .stdout .info .text).settings.logging
    (around keyed).files none :=
  .stdout rfl

/-- A run whose log is no file starts with an identity that can be read. -/
theorem start_around {snapshot : Bytes} {level : Level} {format : LogFormat} {x : Identity}
    (hl : launch args = .ok (launchedBy .stdout level format))
    (hx : Kept (around snapshot).files
      (launchedBy .stdout level format).settings.options.snapshotPath x) :
    ∃ r store, start (around snapshot) args = .ok (r, store) := by
  have hopen : Opens (around snapshot) (launchedBy .stdout level format).settings.logging
      (around snapshot).files none := .stdout rfl
  have hread : (around snapshot).files.read (launchedBy .stdout level format).apiSchema =
      .ok Store.smallSchema := rfl
  have hbase : basePath Store.smallSchema = .ok "/v2" := by cbv
  obtain ⟨r, es, -, -, ⟨hdoubt, -⟩ | ⟨-, x, -, store, -, -, -, hboot⟩⟩ :=
    bootstrap_onward hopen.text? (around snapshot).refusal
      ((usable_of_stdout _ rfl).1.2 _ _ hopen)
  · exact absurd hdoubt (not_doubt hread hbase hx)
  · refine ⟨persist r store, store, ?_⟩
    simp only [start, hl, begin_of_opens hopen]
    exact hboot

theorem start_keyed : ∃ r store,
    start (around keyed) (loggedBy "stdout" "info" "text") = .ok (r, store) :=
  start_around launch_stdout kept_keyed

theorem signals_only_announce_keyed : ∃ x : Identity, x.bootstrapKey = "k" ∧
    (run (around keyed) (loggedBy "stdout" "info" "text") 2).logged.filter (OfSignal ·) =
      [hangupEvent, changedEvent x, hangupEvent, changedEvent x] := by
  obtain ⟨r, store, hstart⟩ := start_keyed
  obtain ⟨⟨first, last, -, hlogged, hquiet⟩, -, -, hidentity, -⟩ :=
    signals_only_announce launch_stdout hstart
      (show Level.info.verbosity ≤ Level.info.verbosity from le_rfl) 2
  refine ⟨store.identity, ?_, ?_⟩
  · obtain ⟨x, hx, hstored⟩ :=
      hidentity _ _ opens_keyed ((usable_of_stdout _ rfl).1.2 _ _ opens_keyed)
    obtain rfl := hx.unique kept_keyed
    rw [hstored]
    exact Identity.get_withDefaults _ _ .bootstrapKey
  · have hnone : ∀ es ⊆ first ++ last, es.filter (OfSignal ·) = [] := fun es hes =>
      List.filter_eq_nil_iff.2 fun e he => by simpa using hquiet e (hes he)
    rw [hlogged, List.filter_append, List.filter_append, hnone first (List.subset_append_left _ _),
      hnone last (List.subset_append_right _ _)]
    rfl

end Daemon

end NodeConfig
