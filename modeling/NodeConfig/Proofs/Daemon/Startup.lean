import Mathlib
import NodeConfig.Proofs.Daemon.Log
import NodeConfig.Proofs.Store.Persistence

namespace NodeConfig

namespace Daemon

open CommandLine (Launch launch)

variable {s : Surroundings} {f g h : Files} {log? : Option Location} {p : Path} {p? : Option Path}
  {x y : Identity} {ws : List Event} {l : Launch}

/-! ### Saving -/

def unsavedEvent (p : Path) (e : OsError) : Event :=
  ⟨.warn, target, "Could not persist cluster snapshot",
    [("error", .shown (ConfigFault.write p e).message)]⟩

inductive Left (y : Identity) (log? : Option Location) (f : Files) :
    Option Path → Files → List Event → Prop
  | noPath {g : Files} (same : Files.SameBut log? f g) : Left y log? f none g []
  | saved {p : Path} {d : Location} {t : Files.Target} {name : Segment} {g : Files}
      (hr : f.Replaceable p d t name) (hlog : log? ≠ some t.location)
      (same : Files.SameBut log? (f.replaced p (Utf8.ofString (Snapshot.text p y)) d t) g) :
      Left y log? f (some p) g []
  | unsaved {p : Path} {e : OsError} {g : Files} (hr : ¬ ∃ d t name, f.Replaceable p d t name)
      (same : Files.SameBut log? f g) : Left y log? f (some p) g [unsavedEvent p e]

def Apart (f : Files) (log? : Option Location) (p : Path) : Prop :=
  ∀ k, log? = some k → f.locate p ≠ .ok k

theorem Left.after (hl : Left y log? f p? g ws) (hsame : Files.SameBut log? g h) :
    Left y log? f p? h ws := by
  cases hl with
  | noPath same => exact .noPath (same.trans hsame)
  | saved hr hlog same => exact .saved hr hlog (same.trans hsame)
  | unsaved hr same => exact .unsaved hr (same.trans hsame)

theorem Left.before (hsame : Files.SameBut log? f g) (hl : Left y log? g p? h ws) :
    Left y log? f p? h ws := by
  cases hl with
  | noPath same => exact .noPath (hsame.trans same)
  | saved hr hlog same =>
    have hf := hsame.symm.replaceable hr
    exact .saved hf hlog ((hsame.replaced hf _).trans same)
  | unsaved hr same =>
    refine .unsaved (fun ⟨d, t, name, hf⟩ => hr ⟨d, t, name, hsame.replaceable hf⟩) ?_
    exact hsame.trans same

theorem replacedLog_error (r : Running) (store : Store) (e : ConfigFault) :
    replacedLog r store (.error e) = none := by
  unfold replacedLog
  cases store.options.snapshotPath <;> cases r.sink <;> rfl

/-- A save replaces the log exactly if it puts the snapshot there. -/
theorem replacedLog_ok {r : Running} {store : Store} {t : Files.Target}
    (hp : store.options.snapshotPath = some p) (ht : r.world.files.target p = .ok t) :
    replacedLog r store (.ok ()) = if r.log? = some t.location then some t.location else none := by
  unfold replacedLog Running.log?
  cases hsink : r.sink <;> grind

theorem persist_of_error {r : Running} {store : Store} {report : Report} {e : OsError}
    (hsave : store.save r.world = ⟨.error (.write p e), store, r.world, report⟩) :
    persist r store = (r.logAll report.events).log (unsavedEvent p e) := by
  simp only [persist, hsave, replacedLog_error]
  rfl

/-- A save goes on with the log unless it replaces that. -/
theorem persist_of_ok {r : Running} {store : Store} {report : Report}
    {t : Files.Target} (hp : store.options.snapshotPath = some p)
    (ht : r.world.files.target p = .ok t) (hlog : r.log? ≠ some t.location)
    (hsave : store.save r.world = ⟨.ok (), store, { r.world with files := g }, report⟩) :
    persist r store =
      { r with world := { r.world with files := g } }.logAll report.events := by
  simp only [persist, hsave, replacedLog_ok hp ht, if_neg hlog]
  rfl

/-- The daemon saves as the store does. -/
theorem onward_persist {r : Running} {b : Bytes} (hb : r.text? = some b) (store : Store)
    (hapart : ∀ p, store.options.snapshotPath = some p → Apart r.world.files r.log? p) :
    ∃ es k?, r.Onward es k? (persist r store) ∧
      Left store.identity r.log? r.world.files store.options.snapshotPath
        (persist r store).world.files (warnings es) := by
  obtain ⟨hp, hsave⟩ | ⟨p, hp, ⟨hr, e, hsave⟩ | ⟨d, t, name, hr, event, hlevel, hsave⟩⟩ :=
    store.save_cases r.world
  · have hpersist : persist r store = r := by
      simp only [persist, replacedLog, hsave, hp]
      rfl
    have honward := Running.Onward.refl r none
    rw [hpersist, hp]
    exact ⟨[], none, honward, .noPath (honward.sameBut hb)⟩
  · have honward := r.onward_log (unsavedEvent p e)
    rw [persist_of_error hsave, hp]
    exact ⟨_, none, honward, .unsaved hr (honward.sameBut hb)⟩
  · -- The log is there, so a path that ends where the log is would lead to it.
    have hlog : r.log? ≠ some t.location := by
      intro hk
      have hthere : (r.world.files.get? t.location).isSome := by
        rw [Running.get?_of_text? hb hk]
        rfl
      have hlocate := Files.locate_of_target hr.target hr.named hr.noNul hr.noSlash hr.short hthere
      exact hapart p hp _ hk hlocate
    rw [persist_of_ok hp hr.target hlog hsave, hp]
    let replaced : Running := { r with world := { r.world with
      files := r.world.files.replaced p (Utf8.ofString (Snapshot.text p store.identity)) d t } }
    have hreplaced : r.Onward [] (some t.location) replaced :=
      r.onward_world _ (fun k hk => by rw [hr.get?_replaced, if_neg fun h => hk (by rw [h])])
        (fun k hk h => hlog (hk.trans h.symm))
    have hreported := replaced.onward_logAll [event]
    have hquiet : warnings [event] = [] := warnings_eq_nil (by simp [hlevel])
    refine ⟨_, _, hreplaced.trans (hreported.of_none _), ?_⟩
    rw [List.nil_append, hquiet]
    exact .saved hr hlog (hreported.sameBut (hreplaced.text b hb))

/-- From the save on a run goes on to its end, however many signals to reload the key come. -/
theorem onward_to_end {r : Running} {b : Bytes} (hb : r.text? = some b) {store : Store}
    (hpending : store.keyChanged.pending = false)
    (hapart : ∀ p, store.options.snapshotPath = some p → Apart r.world.files r.log? p) (hups : ℕ) :
    ∃ r' es k?, r.Onward es k? r' ∧
      Left store.identity r.log? r.world.files store.options.snapshotPath r'.world.files
        (warnings es) ∧
      shutdown (reloads (persist r store) store hups).1 = r'.exit 0 "" := by
  obtain ⟨es, k?, hpersist, hleft⟩ := onward_persist hb store hapart
  have hreloads := reloads_eq (persist r store) hpending hups
  obtain ⟨gs, hgs, hshutdown⟩ :=
    shutdown_eq ((persist r store).logAll (reloading store.identity hups))
  have hlast := (persist r store).onward_logAll (reloading store.identity hups ++ gs)
  have hquiet : warnings (reloading store.identity hups ++ gs) = [] := by
    refine warnings_eq_nil fun e he => ?_
    rcases List.mem_append.1 he with he | he
    · simp [level_of_mem_reloading he]
    · simp [hgs e he]
  have hsame := hlast.sameBut (hpersist.text b hb)
  rw [hpersist.log?_eq] at hsame
  refine ⟨_, _, k?, hpersist.trans (hlast.of_none k?), ?_, ?_⟩
  · rw [warnings_append, hquiet, List.append_nil]
    exact hleft.after hsame
  · rw [hreloads, hshutdown, Running.logAll_append]

/-! ### Starting -/

/-- The files once the log is open, and the file that is the log if it is one. -/
inductive Opens (s : Surroundings) (o : LogOptions) : Files → Option Location → Prop
  | stdout (h : o.target = .stdout) : Opens s o s.files none
  | file {f : Files} {k : Location} (h : o.target = .file)
      (hopen : s.files.openLog o.file = (f, .ok k)) : Opens s o f (some k)

def Closed (s : Surroundings) (o : LogOptions) : Prop :=
  o.target = .file ∧ ∃ f e, s.files.openLog o.file = (f, .error e)

/-- Over these files it is not clear which identity the node has. -/
inductive Doubt (l : Launch) (f : Files) : Prop
  | noSchema {e : OsError} (h : f.read l.apiSchema = .error e)
  | noBase {schema : Bytes} {fault : SchemaFault} (h : f.read l.apiSchema = .ok schema)
      (hbase : basePath schema = .error fault)
  | garbled {p : Path} {fault : SnapshotFault} (hp : l.settings.options.snapshotPath = some p)
      (h : Garbled f p fault)

/-- With a schema that gives a base path and an identity that can be read there is no doubt. -/
theorem not_doubt {schema : Bytes} {base : String} (hread : f.read l.apiSchema = .ok schema)
    (hbase : basePath schema = .ok base) (hx : Kept f l.settings.options.snapshotPath x) :
    ¬ Doubt l f := by
  rintro (⟨h⟩ | ⟨h, hnone⟩ | ⟨hp, h⟩)
  · cases hread.symm.trans h
  · cases hread.symm.trans h
    cases hbase.symm.trans hnone
  · rw [hp] at hx
    exact hx.not_garbled _ h

structure SameReads (l : Launch) (f g : Files) : Prop where
  schema : g.read l.apiSchema = f.read l.apiSchema
  snapshot : ∀ p, l.settings.options.snapshotPath = some p → g.read p = f.read p

namespace SameReads

theorem symm (h : SameReads l f g) : SameReads l g f :=
  ⟨h.schema.symm, fun p hp => (h.snapshot p hp).symm⟩

theorem doubt (h : SameReads l f g) (hdoubt : Doubt l f) : Doubt l g := by
  cases hdoubt with
  | noSchema hread => exact .noSchema (h.schema.trans hread)
  | noBase hread hbase => exact .noBase (h.schema.trans hread) hbase
  | garbled hp hgarbled =>
    obtain ⟨content, hread, hdecode⟩ := hgarbled
    exact .garbled hp ⟨content, (h.snapshot _ hp).trans hread, hdecode⟩

end SameReads

structure Avoids (l : Launch) (f : Files) (log? : Option Location) : Prop where
  schema : Apart f log? l.apiSchema
  snapshot : ∀ p, l.settings.options.snapshotPath = some p → Apart f log? p

theorem Avoids.sameReads (h : Avoids l f log?) (hsame : Files.SameBut log? f g) :
    SameReads l f g where
  schema := hsame.read_eq h.schema
  snapshot p hp := hsame.read_eq (h.snapshot p hp)

def opened (s : Surroundings) (o : LogOptions) (f : Files) (log? : Option Location) : Running :=
  ⟨⟨f, s.names⟩, o, filterOf s o, s.time, log?.elim .stdout .file, "", [], none⟩

def before (s : Surroundings) (log? : Option Location) : Bytes := log?.elim [] s.files.contentAt

theorem log?_opened (s : Surroundings) (o : LogOptions) (f : Files) (log? : Option Location) :
    (opened s o f log?).log? = log? := by
  cases log? <;> rfl

theorem Opens.text? {o : LogOptions} (h : Opens s o f log?) :
    (opened s o f log?).text? = some (before s log?) := by
  cases h with
  | stdout => rfl
  | file _ hopen =>
    have hget := (Files.openLog_eq_ok hopen).2
    simp [Running.text?, opened, before, hget]

theorem Opens.spares {o : LogOptions} (h : Opens s o f log?) : s.files.Spares f log? := by
  cases h with
  | stdout => exact .refl _ _
  | file _ hopen => exact (Files.openLog_eq_ok hopen).1

theorem begin_cases (s : Surroundings) (o : LogOptions) :
    (∃ e, Closed s o ∧ begin s o = .error e) ∨
      ∃ f log?, Opens s o f log? ∧ begin s o = .ok (opened s o f log?) := by
  cases htarget : o.target with
  | stdout => exact .inr ⟨_, _, .stdout htarget, by simp only [begin, htarget]; rfl⟩
  | file =>
    obtain ⟨g, e, hg, -⟩ | ⟨g, k, hg, -⟩ := s.files.openLog_cases o.file
    · exact .inl ⟨e, ⟨htarget, g, e, hg⟩, by simp only [begin, htarget, hg]⟩
    · exact .inr ⟨g, some k, .file htarget hg, by simp only [begin, htarget, hg]; rfl⟩

def opening (refusal : Option String) (l : Launch) : List Event :=
  ⟨.info, target, "dataplane-config v" ++ version ++ " starting", []⟩ ::
    l.metricsAddress.toList.map (metricsEvent refusal)

theorem warnings_opening (refusal : Option String) (l : Launch) :
    warnings (opening refusal l) = [] := by
  refine warnings_eq_nil ?_
  cases l.metricsAddress <;> cases refusal <;> simp [opening, metricsEvent]

def fresh (l : Launch) : Store :=
  (Store.make (l.notifyTimeout * pow10 9)).install l.settings.options l.settings.logging

/-- All ways in which a run with an open log starts: it stops in doubt, or it saves the identity
that is kept, with defaults. -/
theorem bootstrap_cases {r r' : Running} (refusal : Option String) (l : Launch)
    (hr : r.logAll (opening refusal l) = r') :
    (Doubt l r'.world.files ∧ ∃ es stderr, warnings es = [] ∧
        bootstrap r refusal l = .error ((r'.logAll es).exit 1 stderr)) ∨
      ¬ Doubt l r'.world.files ∧ ∃ x, Kept r'.world.files l.settings.options.snapshotPath x ∧
        ∃ schema store names report,
          (fresh l).load r'.world schema l.host l.port =
            ⟨.ok (), store, { r'.world with names := names }, report⟩ ∧
          store.options = l.settings.options ∧
          store.identity = (x.withDefaults r'.world.names).identity ∧
          store.keyChanged.pending = false ∧ warnings report.events = [] ∧
          bootstrap r refusal l = .ok
            (persist ({ r' with world := { r'.world with names := names } }.logAll report.events)
              store, store) := by
  rw [opening] at hr
  simp only [bootstrap, ← Running.logAll_cons, hr]
  cases hschema : r'.world.files.read l.apiSchema with
  | error e => exact .inl ⟨.noSchema hschema, [], _, rfl, rfl⟩
  | ok schema =>
    obtain ⟨fault, hbase, hload⟩ | ⟨base, hbase, ⟨p, fault, hp, hgarbled, hload⟩ | ⟨x, hx, -⟩⟩ :=
      (fresh l).load_cases r'.world schema l.host l.port
    · rw [fresh] at hload
      simp only [hload]
      exact .inl ⟨.noBase hschema hbase, [], _, rfl, rfl⟩
    · rw [fresh] at hload
      simp only [hload]
      exact .inl ⟨.garbled hp hgarbled, [_], _, rfl, rfl⟩
    · obtain ⟨report, hload, -, hlevels⟩ := Store.load_eq_of_kept hbase hx l.host l.port
      have hload' := hload
      rw [fresh] at hload'
      simp only [hload']
      refine .inr ⟨not_doubt hschema hbase hx, x, hx, schema, _, _, report, hload, rfl, rfl, rfl,
        ?_, rfl⟩
      refine warnings_eq_nil fun e he => ?_
      rcases hlevels e he with h | h <;> simp [h]

/-- The same of the files before anything was reported, which the log is not among. -/
theorem bootstrap_onward {r : Running} {b : Bytes} (hb : r.text? = some b)
    (refusal : Option String) (havoids : Avoids l r.world.files r.log?) :
    ∃ r' es, r.Onward es none r' ∧ warnings es = [] ∧
      ((Doubt l r.world.files ∧ ∃ stderr, bootstrap r refusal l = .error (r'.exit 1 stderr)) ∨
      ¬ Doubt l r.world.files ∧ ∃ x, Kept r.world.files l.settings.options.snapshotPath x ∧
        ∃ store, store.options = l.settings.options ∧
          store.identity = (x.withDefaults r.world.names).identity ∧
          store.keyChanged.pending = false ∧
          bootstrap r refusal l = .ok (persist r' store, store)) := by
  have hfirst := r.onward_logAll (opening refusal l)
  have hreads := havoids.sameReads (hfirst.sameBut hb)
  obtain ⟨hdoubt, es, stderr, hes, hboot⟩ |
    ⟨hclear, x, hx, -, store, names, report, -, hoptions, hidentity, hpending, hes, hboot⟩ :=
      bootstrap_cases refusal l (Eq.refl (r.logAll (opening refusal l)))
  · have hlast := hfirst.trans (Running.onward_logAll _ es)
    refine ⟨_, _, hlast, ?_, .inl ⟨hreads.symm.doubt hdoubt, stderr, hboot⟩⟩
    rw [warnings_append, warnings_opening, hes]
    rfl
  · let named : Running := { r.logAll (opening refusal l) with
      world := { (r.logAll (opening refusal l)).world with names := names } }
    have hnamed : (r.logAll (opening refusal l)).Onward [] none named :=
      Running.onward_world _ _ (fun _ _ => rfl) (fun _ _ => nofun)
    have hlast := hfirst.trans (hnamed.trans (named.onward_logAll report.events))
    rw [Running.names_logAll] at hidentity
    refine ⟨_, _, hlast, ?_, .inr ⟨fun h => hclear (hreads.doubt h), x,
      hx.congr hreads.symm.snapshot, store, hoptions, hidentity, hpending, hboot⟩⟩
    rw [warnings_append, warnings_opening, List.nil_append, List.nil_append, hes]

end Daemon

end NodeConfig
