import Mathlib
import NodeConfig.Proofs.CommandLine.Exchange
import NodeConfig.Proofs.Daemon.Exit
import NodeConfig.Proofs.Files.Paths

namespace NodeConfig

namespace Store

variable {s : Store} {w v : World}

def relogged (s : Store) (logging : LogOptions) : Store := { s with logging }

/-- A load depends on the options, the names and the snapshot, and not on how things are logged. -/
theorem load_congr (hnames : v.names = w.names)
    (hread : ∀ p, s.options.snapshotPath = some p → v.files.read p = w.files.read p)
    (logging : LogOptions) (schema : Bytes) (host : String) (port : ℕ) :
    (s.relogged logging).load v schema host port =
      ⟨(s.load w schema host port).result, (s.load w schema host port).store.relogged logging,
        ⟨v.files, (s.load w schema host port).world.names⟩,
        (s.load w schema host port).report⟩ := by
  obtain ⟨vfiles, vnames⟩ := v
  obtain rfl : vnames = w.names := hnames
  unfold load relogged
  cases basePath schema with
  | error f => rfl
  | ok base =>
    have hstored : ∀ server, ({ s with logging, server } : Store).stored vfiles =
        ({ s with server } : Store).stored w.files := by
      intro server
      unfold stored
      dsimp only
      cases hp : s.options.snapshotPath with
      | none => rfl
      | some p =>
        have hp := hread p hp
        dsimp only at hp
        simp only [Snapshot.read, hp]
    dsimp only
    rw [hstored]
    obtain ⟨_ | ⟨x, report⟩, events⟩ := Store.stored _ _ <;> rfl

theorem files_load (s : Store) (w : World) (schema : Bytes) (host : String) (port : ℕ) :
    (s.load w schema host port).world.files = w.files :=
  congrArg (fun step => step.world.files)
    (load_congr (s := s) (v := w) rfl (fun _ _ => rfl) s.logging schema host port)

/-- What a save gives and reports depends on why the snapshot cannot be replaced, if it cannot. -/
theorem save_congr
    (hslot : ∀ p, s.options.snapshotPath = some p → Files.SameSlot w.files v.files p)
    (logging : LogOptions) :
    ((s.relogged logging).save v).result = (s.save w).result ∧
      ((s.relogged logging).save v).report = (s.save w).report := by
  unfold save saveOn relogged
  dsimp only
  cases hp : s.options.snapshotPath with
  | none => exact ⟨rfl, rfl⟩
  | some p =>
    have herror := (hslot p hp).replace_error .sound (Utf8.ofString (Snapshot.text p s.identity))
    dsimp only [Snapshot.writeOn]
    rcases hf : w.files.replace .sound p _ with ⟨f, e⟩
    rcases hg : v.files.replace .sound p _ with ⟨g, e'⟩
    rw [hf, hg] at herror
    obtain rfl : e' = e := herror
    cases e' <;> exact ⟨rfl, rfl⟩

end Store

namespace Daemon

open CommandLine (Launch launch)

variable {s : Surroundings} {args : List Bytes} {l l' : Launch} {w v : World} {f : Files}
  {log? : Option Location}

def doubtEvent (e : ConfigFault) : Event :=
  ⟨.error, target, "Cannot continue with an ambiguous cluster identity",
    [("error", .shown e.message)]⟩

def saving (saved : Step (Except ConfigFault Unit)) : List Event :=
  saved.report.events ++
    match saved.result with
    | .ok () => []
    | .error e =>
      [⟨.warn, target, "Could not persist cluster snapshot", [("error", .shown e.message)]⟩]

def closing : List Event :=
  [⟨.info, target, "Shutdown signal received", []⟩, ⟨.info, target, "Shutdown complete", []⟩]

def account (l : Launch) (w : World) : List Event :=
  match w.files.read l.apiSchema with
  | .error _ => []
  | .ok schema =>
    let loaded := (fresh l).load w schema l.host l.port
    loaded.report.events ++
      match loaded.result with
      | .error (.schema _) => []
      | .error e => [doubtEvent e]
      | .ok () => saving (loaded.store.save loaded.world) ++ closing

/-- Launches find the same: what they read is the same, and the snapshot can be replaced in both
trees, or cannot for the same reason. -/
structure SameFinds (l : Launch) (w v : World) : Prop where
  names : v.names = w.names
  reads : SameReads l w.files v.files
  slot : ∀ p, l.settings.options.snapshotPath = some p → Files.SameSlot w.files v.files p

theorem fresh_alike (h : l.Alike l') :
    fresh l' = (fresh l).relogged l'.settings.logging := by
  simp only [fresh, h.notifyTimeout, h.settings.options, Store.install, Store.relogged]

/-- What was loaded is saved alike. -/
theorem save_loaded_congr {schema : Bytes} {loaded : Step (Except ConfigFault Unit)}
    (hload : (fresh l).load w schema l.host l.port = loaded) (hok : loaded.result = .ok ())
    (hslot : ∀ p, l.settings.options.snapshotPath = some p → Files.SameSlot w.files v.files p)
    (logging : LogOptions) :
    saving ((loaded.store.relogged logging).save v) =
      saving (loaded.store.save loaded.world) := by
  subst hload
  obtain ⟨-, hoptions, hfiles⟩ := Store.load_eq_ok hok
  have hsave := Store.save_congr (v := v)
    (fun p hp => by
      rw [hoptions] at hp
      rw [hfiles]
      exact hslot p hp) logging
  simp only [saving, hsave.1, hsave.2]

/-- Launches that are alike and find the same give the same account of it. -/
theorem account_congr (h : l.Alike l') (hsame : SameFinds l w v) : account l' v = account l w := by
  unfold account
  rw [h.apiSchema, hsame.reads.schema, fresh_alike h, h.host, h.port]
  cases hschema : w.files.read l.apiSchema with
  | error e => rfl
  | ok schema =>
    have hload := Store.load_congr (s := fresh l) hsame.names hsame.reads.snapshot
      l'.settings.logging schema l.host l.port
    dsimp only
    rw [hload]
    dsimp only
    cases hresult : ((fresh l).load w schema l.host l.port).result with
    | error e => cases e <;> rfl
    | ok _ =>
      dsimp only
      rw [save_loaded_congr (v := ⟨v.files, ((fresh l).load w schema l.host l.port).world.names⟩)
        rfl hresult hsame.slot]

theorem logged_logAll (r : Running) (es : List Event) :
    (r.logAll es).logged = r.logged ++ es.filter r.filter.shows :=
  (r.onward_logAll es).logged

theorem onto_rest (r : Running) (w : World) (replaced : Option Location) :
    (r.onto w replaced).logged = r.logged ∧ (r.onto w replaced).filter = r.filter ∧
      ∀ k, (r.onto w replaced).log? = some k → r.log? = some k := by
  cases replaced with
  | none => exact ⟨rfl, rfl, fun _ hk => hk⟩
  | some l => exact ⟨rfl, rfl, nofun⟩

/-- The daemon reports a save over the files that it left. -/
theorem persist_onto (r : Running) (store : Store) :
    persist r store = (r.onto (store.save r.world).world
      (replacedLog r store (store.save r.world).result)).logAll (saving (store.save r.world)) := by
  rw [saving, Running.logAll_append, persist]
  cases (store.save r.world).result <;> rfl

theorem persist_eq (r : Running) (store : Store) : ∃ r' : Running,
    r'.logged = r.logged ∧ r'.filter = r.filter ∧ (∀ k, r'.log? = some k → r.log? = some k) ∧
      persist r store = r'.logAll (saving (store.save r.world)) := by
  obtain ⟨hlogged, hfilter, hlog⟩ := onto_rest r (store.save r.world).world
    (replacedLog r store (store.save r.world).result)
  exact ⟨_, hlogged, hfilter, hlog, persist_onto r store⟩

theorem logged_persist (r : Running) (store : Store) :
    (shutdown (persist r store)).logged =
      r.logged ++ (saving (store.save r.world) ++ closing).filter r.filter.shows := by
  obtain ⟨r', hlogged, hfilter, -, hpersist⟩ := persist_eq r store
  rw [hpersist, ← hlogged, ← hfilter, ← logged_logAll, Running.logAll_append]
  rfl

def concluded : Except Exit (Running × Store) → Exit
  | .error e => e
  | .ok (r, _) => shutdown r

theorem run_eq {r : Running} (hl : launch args = .ok l)
    (hbegin : begin s l.settings.logging = .ok r) :
    run s args 0 = concluded (bootstrap r s.refusal l) := by
  simp only [run, start, hl, hbegin]
  rcases bootstrap r s.refusal l with e | ⟨r, store⟩ <;> rfl

theorem logged_bootstrap {r r' : Running} {b : Bytes} (hb : r'.text? = some b)
    {refusal : Option String} (hr : r.logAll (opening refusal l) = r') :
    (concluded (bootstrap r refusal l)).logged =
      r'.logged ++ (account l r'.world).filter r'.filter.shows := by
  rw [opening] at hr
  simp only [bootstrap, ← Running.logAll_cons, hr]
  unfold account
  cases hschema : r'.world.files.read l.apiSchema with
  | error e => simp [concluded, Running.exit]
  | ok schema =>
    obtain ⟨loaded, hload⟩ : ∃ loaded, (fresh l).load r'.world schema l.host l.port = loaded :=
      ⟨_, rfl⟩
    have hload' := hload
    rw [fresh] at hload'
    simp only [hload, hload']
    let named : Running := { r' with world := loaded.world }
    have hfiles : loaded.world.files = r'.world.files := hload ▸ Store.files_load ..
    have hnamed : r'.Onward [] none named :=
      Running.onward_world _ _ (fun _ _ => by rw [hfiles]) fun _ _ =>
        (Option.some_ne_none _).symm
    have hrest := hnamed.trans (named.onward_logAll loaded.report.events)
    cases hresult : loaded.result with
    | error e =>
      cases e with
      | schema fault =>
        rw [List.append_nil]
        exact hrest.logged
      | corrupt path fault =>
        exact (hrest.trans (Running.onward_log _ (doubtEvent (.corrupt path fault)))).logged
      | write path error =>
        exact (hrest.trans (Running.onward_log _ (doubtEvent (.write path error)))).logged
    | ok _ =>
      have hsave := save_loaded_congr (v := (named.logAll loaded.report.events).world) hload hresult
        (fun p _ => (hrest.sameBut hb).sameSlot p) loaded.store.logging
      refine (logged_persist _ loaded.store).trans ?_
      rw [hrest.logged, hrest.filter, ← hsave]
      simp only [List.filter_append, List.nil_append, List.append_assoc]
      rfl

/-- The log of a run shows what its filter shows of the account. -/
theorem logged_run (hl : launch args = .ok l) (hopen : Opens s l.settings.logging f log?)
    (havoids : Avoids l f log?) :
    (run s args 0).logged = (opening s.refusal l ++ account l ⟨f, s.names⟩).filter
      (filterOf s l.settings.logging).shows := by
  have hfirst := (opened s l.settings.logging f log?).onward_logAll (opening s.refusal l)
  have hsame := hfirst.sameBut hopen.text?
  rw [log?_opened] at hsame
  have hfinds : SameFinds l ⟨f, s.names⟩
      ((opened s l.settings.logging f log?).logAll (opening s.refusal l)).world :=
    ⟨Running.names_logAll _ _, havoids.sameReads hsame, fun p _ => hsame.sameSlot p⟩
  rw [run_eq hl (begin_of_opens hopen), logged_bootstrap (hfirst.text _ hopen.text?) rfl,
    account_congr (.refl l) hfinds, hfirst.logged, hfirst.filter, List.filter_append]
  rfl

end Daemon

end NodeConfig
