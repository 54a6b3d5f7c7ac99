import Mathlib
import NodeConfig.Proofs.Daemon.Startup

namespace NodeConfig

namespace Daemon

open CommandLine (Launch UsageFault launch)

variable {s : Surroundings} {f g : Files} {log? : Option Location} {l : Launch}

theorem Opens.unique {o : LogOptions} {log?' : Option Location} (h : Opens s o f log?)
    (h' : Opens s o g log?') : f = g ∧ log? = log?' := by
  cases h <;> cases h' <;> simp_all

theorem Opens.not_closed {o : LogOptions} (h : Opens s o f log?) : ¬ Closed s o := by
  rintro ⟨htarget, g, e, hclosed⟩
  cases h <;> simp_all

/-- The log is neither the schema nor the snapshot. -/
def LogApart (s : Surroundings) (l : Launch) : Prop :=
  ∀ f log?, Opens s l.settings.logging f log? → Avoids l f log?

def Exit.text (e : Exit) (log? : Option Location) : Bytes :=
  log?.elim (Utf8.ofString e.stdout) e.files.contentAt

theorem text_exit {r : Running} {b : Bytes} (hb : r.text? = some b) (code : ℕ) (stderr : String) :
    (r.exit code stderr).text r.log? = b := by
  obtain ⟨world, options, filter, time, sink, stdout, logged, unnamed⟩ := r
  cases sink with
  | stdout =>
    cases hb
    rfl
  | file l =>
    have hl := Running.get?_of_text? hb (l := l) rfl
    simp only at hl
    simp [Exit.text, Running.exit, Running.log?, Files.contentAt, hl]
  | nowhere => cases hb

theorem begin_of_opens {o : LogOptions} (h : Opens s o f log?) :
    begin s o = .ok (opened s o f log?) := by
  obtain ⟨-, hclosed, -⟩ | ⟨g, log?', h', hbegin⟩ := begin_cases s o
  · exact absurd hclosed h.not_closed
  · obtain ⟨rfl, rfl⟩ := h.unique h'
    exact hbegin

/-- How a run ends whose log was opened. -/
theorem run_of_opens {args : List Bytes} (hl : launch args = .ok l)
    (hopen : Opens s l.settings.logging f log?) (hapart : LogApart s l) (hups : ℕ) :
    ∃ r es k?, (opened s l.settings.logging f log?).Onward es k? r ∧
      ((Doubt l f ∧ Files.SameBut log? f r.world.files ∧
          ∃ stderr, run s args hups = r.exit 1 stderr) ∨
        ¬ Doubt l f ∧ run s args hups = r.exit 0 "" ∧
          ∃ x, Kept f l.settings.options.snapshotPath x ∧
            Left (x.withDefaults s.names).identity log? f l.settings.options.snapshotPath
              r.world.files (warnings es)) := by
  have hb := hopen.text?
  have hlog := log?_opened s l.settings.logging f log?
  have havoids := hapart f log? hopen
  have hbegin := begin_of_opens hopen
  rw [← hlog] at havoids
  obtain ⟨r, es, hfirst, hes, ⟨hdoubt, stderr, hboot⟩ |
    ⟨hclear, x, hx, store, hoptions, hidentity, hpending, hboot⟩⟩ :=
      bootstrap_onward hb s.refusal havoids
  · have hsame := hfirst.sameBut hb
    rw [hlog] at hsame
    have hend : run s args hups = r.exit 1 stderr := by
      simp only [run, start, hl, hbegin, hboot]
    exact ⟨r, es, none, hfirst, .inl ⟨hdoubt, hsame, stderr, hend⟩⟩
  · have hsame := hfirst.sameBut hb
    have hapart : ∀ p, store.options.snapshotPath = some p → Apart r.world.files r.log? p := by
      intro p hp k hk
      rw [hsame.locate_eq]
      rw [hfirst.log?_eq] at hk
      exact havoids.snapshot p (hoptions ▸ hp) k hk
    obtain ⟨r', fs, k?, hrest, hleft, hend⟩ :=
      onward_to_end (hfirst.text _ hb) hpending hapart hups
    refine ⟨r', _, k?, (hfirst.of_none k?).trans hrest, .inr ⟨hclear, ?_, x, hx, ?_⟩⟩
    · simp only [run, start, hl, hbegin, hboot]
      exact hend
    · rw [hfirst.log?_eq, hlog, hoptions, hidentity] at hleft
      rw [hlog] at hsame
      rw [warnings_append, hes, List.nil_append]
      exact hleft.before hsame

/-- All ways in which a run ends. -/
theorem run_cases (s : Surroundings) (args : List Bytes) (hups : ℕ)
    (hapart : ∀ l, launch args = .ok l → LogApart s l) {e : Exit} (hrun : run s args hups = e) :
    (∃ fault, launch args = .error fault ∧ e.code = fault.exitCode ∧ e.files = s.files) ∨
    ∃ l, launch args = .ok l ∧
      ((Closed s l.settings.logging ∧ e.code = 1 ∧ s.files.Spares e.files none) ∨
      ∃ f log?, Opens s l.settings.logging f log? ∧
        e.text log? = before s log? ++ lines l.settings.logging s.time e.logged ∧
        ((Doubt l f ∧ e.code = 1 ∧ Files.SameBut log? f e.files) ∨
        ¬ Doubt l f ∧ e.code = 0 ∧ ∃ x ws, Kept f l.settings.options.snapshotPath x ∧
          Left (x.withDefaults s.names).identity log? f l.settings.options.snapshotPath e.files ws ∧
          warnings e.logged = ws.filter (filterOf s l.settings.logging).shows)) := by
  subst hrun
  cases hl : launch args with
  | error fault =>
    refine .inl ⟨fault, rfl, ?_, ?_⟩ <;> simp only [run, start, hl]
  | ok l =>
    refine .inr ⟨l, rfl, ?_⟩
    obtain ⟨e, hclosed, hbegin⟩ | ⟨f, log?, hopen, -⟩ := begin_cases s l.settings.logging
    · have hend : run s args hups = ⟨1, filesAfterOpen s l.settings.logging, "",
          failure ("Io(" ++ e.details ++ ")"), [], none⟩ := by
        simp only [run, start, hl, hbegin]
      rw [hend]
      refine .inl ⟨hclosed, rfl, ?_⟩
      obtain ⟨-, g, e, hopen⟩ := hclosed
      obtain ⟨_, _, herror, hspares⟩ | ⟨_, _, hok, -⟩ :=
        s.files.openLog_cases l.settings.logging.file
      · rw [filesAfterOpen, herror]
        exact hspares
      · cases hopen.symm.trans hok
    · refine .inr ⟨f, log?, hopen, ?_⟩
      obtain ⟨r, es, k?, honward, hend⟩ := run_of_opens hl hopen (hapart l hl) hups
      have hlogged : r.logged = es.filter (filterOf s l.settings.logging).shows := honward.logged
      have htext := honward.text _ hopen.text?
      have hlog : r.log? = log? := honward.log?_eq.trans (log?_opened ..)
      have hwarnings : warnings r.logged =
          (warnings es).filter (filterOf s l.settings.logging).shows := by
        simp only [hlogged, warnings, List.filter_filter, Bool.and_comm]
      have hexit : ∀ code stderr, (r.exit code stderr).text log? =
          before s log? ++ lines l.settings.logging s.time r.logged := by
        intro code stderr
        rw [← hlog, text_exit htext, hlog, hlogged]
        rfl
      obtain ⟨hdoubt, hsame, stderr, hend⟩ | ⟨hclear, hend, x, hx, hleft⟩ := hend
      · rw [hend]
        exact ⟨hexit _ _, .inl ⟨hdoubt, rfl, hsame⟩⟩
      · rw [hend]
        exact ⟨hexit _ _, .inr ⟨hclear, rfl, x, _, hx, hleft, hwarnings⟩⟩

/-- A snapshot that was saved is read back as its text; one that was not is as it was. -/
theorem Left.read {y : Identity} {p : Path} {ws : List Event} (hl : Left y log? f (some p) g ws)
    (hapart : Apart f log? p) :
    (ws = [] ∧ (∃ d t name, f.Replaceable p d t name) ∧
        g.read p = .ok (Utf8.ofString (Snapshot.text p y))) ∨
      (∃ e, ws = [unsavedEvent p e]) ∧ (¬ ∃ d t name, f.Replaceable p d t name) ∧
        g.read p = f.read p := by
  cases hl with
  | @saved _ d t name _ hr hlog same =>
    have hread : g.read p = .ok (Utf8.ofString (Snapshot.text p y)) := by
      refine (same.read_eq fun k hk h => hlog ?_).trans hr.read_replaced
      rw [hr.locate_replaced] at h
      cases h
      exact hk
    exact .inl ⟨rfl, ⟨d, t, name, hr⟩, hread⟩
  | @unsaved _ e _ hr same => exact .inr ⟨⟨e, rfl⟩, hr, same.read_eq hapart⟩

/-- What each exit code means. -/
theorem code_run (s : Surroundings) (args : List Bytes) (hups : ℕ)
    (hapart : ∀ l, launch args = .ok l → LogApart s l) {e : Exit} (hrun : run s args hups = e) :
    (e.code = 2 ↔ ∃ fault, launch args = .error fault ∧ fault ≠ .help) ∧
    (e.code = 1 ↔ ∃ l, launch args = .ok l ∧ (Closed s l.settings.logging ∨
      ∃ f log?, Opens s l.settings.logging f log? ∧ Doubt l f)) ∧
    (e.code = 0 ↔ launch args = .error .help ∨ ∃ l, launch args = .ok l ∧
      ∃ f log?, Opens s l.settings.logging f log? ∧ ¬ Doubt l f) := by
  obtain ⟨fault, hl, hcode, -⟩ | ⟨l, hl, h⟩ := run_cases s args hups hapart hrun
  · rw [hl, hcode]
    cases fault <;> simp [UsageFault.exitCode]
  · obtain ⟨hclosed, hcode, -⟩ | ⟨f, log?, hopen, -, ⟨hdoubt, hcode, -⟩ | ⟨hclear, hcode, -⟩⟩ := h
    · have hnever : ∀ f log?, ¬ Opens s l.settings.logging f log? :=
        fun f log? hopen => hopen.not_closed hclosed
      simp [hl, hcode, hclosed, hnever]
    · refine ⟨by simp [hl, hcode], ?_, ?_⟩
      · exact iff_of_true hcode ⟨l, hl, .inr ⟨f, log?, hopen, hdoubt⟩⟩
      · refine iff_of_false (by simp [hcode]) ?_
        rintro (h | ⟨l', hl', g, log?', hopen', hclear⟩)
        · simp [hl] at h
        · cases hl.symm.trans hl'
          exact hclear ((hopen.unique hopen').1 ▸ hdoubt)
    · refine ⟨by simp [hl, hcode], ?_, ?_⟩
      · refine iff_of_false (by simp [hcode]) ?_
        rintro ⟨l', hl', hclosed | ⟨g, log?', hopen', hdoubt⟩⟩
        · cases hl.symm.trans hl'
          exact hopen.not_closed hclosed
        · cases hl.symm.trans hl'
          exact hclear ((hopen.unique hopen').1 ▸ hdoubt)
      · exact iff_of_true hcode (.inr ⟨l, hl, f, log?, hopen, hclear⟩)

/-- A run never goes on in doubt about its identity, and never overwrites one that is in doubt. Its
code is 2 for arguments that are not understood; else 1 if the log cannot be opened or the identity
is in doubt; and 0 otherwise, or where help was asked for. Where the code is not 0 all files but the
log are as they were. Where it is 0 the snapshot is the text of the identity that was kept there,
with defaults; or it could not be replaced, and is as it was, and the only warning that was given
says so. The log has a line for each event that it shows. -/
theorem run_unambiguous (s : Surroundings) (args : List Bytes) (hups : ℕ)
    (hapart : ∀ l, launch args = .ok l → LogApart s l) {e : Exit} (hrun : run s args hups = e) :
    (e.code = 2 ↔ ∃ fault, launch args = .error fault ∧ fault ≠ .help) ∧
    (e.code = 1 ↔ ∃ l, launch args = .ok l ∧ (Closed s l.settings.logging ∨
      ∃ f log?, Opens s l.settings.logging f log? ∧ Doubt l f)) ∧
    (e.code = 0 ↔ launch args = .error .help ∨ ∃ l, launch args = .ok l ∧
      ∃ f log?, Opens s l.settings.logging f log? ∧ ¬ Doubt l f) ∧
    (∀ fault, launch args = .error fault → e.files = s.files) ∧
    (e.code ≠ 0 → ∃ log?, s.files.Spares e.files log? ∧ ∀ k, log? = some k →
      ∃ l f, launch args = .ok l ∧ Opens s l.settings.logging f (some k)) ∧
    ∀ l f log?, launch args = .ok l → Opens s l.settings.logging f log? →
      e.text log? = before s log? ++ lines l.settings.logging s.time e.logged ∧
      (e.code = 0 → ∃ x ws, Kept f l.settings.options.snapshotPath x ∧
        Left (x.withDefaults s.names).identity log? f l.settings.options.snapshotPath e.files ws ∧
        warnings e.logged = ws.filter (filterOf s l.settings.logging).shows ∧
        ∀ p, l.settings.options.snapshotPath = some p →
          (ws = [] ∧ (∃ d t name, f.Replaceable p d t name) ∧ e.files.read p =
            .ok (Utf8.ofString (Snapshot.text p (x.withDefaults s.names).identity))) ∨
          (∃ error, ws = [unsavedEvent p error]) ∧ (¬ ∃ d t name, f.Replaceable p d t name) ∧
            e.files.read p = f.read p) := by
  obtain ⟨htwo, hone, hzero⟩ := code_run s args hups hapart hrun
  refine ⟨htwo, hone, hzero, ?_⟩
  obtain ⟨fault, hl, -, hfiles⟩ | ⟨l, hl, h⟩ := run_cases s args hups hapart hrun
  · have hspares : s.files.Spares e.files none := hfiles ▸ .refl _ _
    exact ⟨fun _ _ => hfiles, fun _ => ⟨none, hspares, nofun⟩, fun l _ _ hok => by simp [hl] at hok⟩
  · refine ⟨fun fault herror => by simp [hl] at herror, ?_⟩
    obtain ⟨hclosed, -, hspares⟩ | ⟨f, log?, hopen, htext, h⟩ := h
    · refine ⟨fun _ => ⟨none, hspares, nofun⟩, fun l' f log? hl' hopen => ?_⟩
      cases hl.symm.trans hl'
      exact absurd hclosed hopen.not_closed
    · constructor
      · intro hcode
        obtain ⟨-, -, hsame⟩ | ⟨-, hcode', -⟩ := h
        · refine ⟨log?, hopen.spares.trans hsame.spares, ?_⟩
          rintro k rfl
          exact ⟨l, f, hl, hopen⟩
        · exact absurd hcode' hcode
      · intro l' f' log?' hl' hopen'
        cases hl.symm.trans hl'
        obtain ⟨rfl, rfl⟩ := hopen.unique hopen'
        refine ⟨htext, fun hcode => ?_⟩
        obtain ⟨-, hcode', -⟩ | ⟨-, -, x, ws, hx, hleft, hwarnings⟩ := h
        · simp [hcode] at hcode'
        · refine ⟨x, ws, hx, hleft, hwarnings, fun p hp => ?_⟩
          rw [hp] at hleft
          exact hleft.read ((hapart l hl f log? hopen).snapshot p hp)

def around (snapshot : Bytes) : Surroundings where
  files := ⟨[(Files.home, .dir),
    (Files.home ++ [Path.ofString "schema.json"], .file Store.smallSchema),
    (Files.home ++ [Path.ofString "node.toml"], .file snapshot)]⟩
  names := .fresh fun n => ⟨n, 0, 0⟩
  filter := none
  time := "now"
  refusal := none

def arguments : List Bytes :=
  ["--api-schema=schema.json", "--log-to=file", "--log-file=logs/run.log", "-f", "node.toml"].map
    Utf8.ofString

def launched : Launch where
  settings := {
    options := { dataplaneConfig := some (Path.ofString "node.toml") }
    logging := { target := .file, file := Path.ofString "logs/run.log" } }
  apiSchema := Path.ofString "schema.json"

theorem launch_arguments : launch arguments = .ok launched := by
  decide +kernel

def logFile : Location := Files.home ++ [Path.ofString "logs", Path.ofString "run.log"]

def aroundLog (snapshot : Bytes) : Files :=
  ⟨(around snapshot).files.entries ++
    [(Files.home ++ [Path.ofString "logs"], .dir), (logFile, .file [])]⟩

theorem opens_around (snapshot : Bytes) :
    Opens (around snapshot) launched.settings.logging (aroundLog snapshot) (some logFile) :=
  .file rfl rfl

theorem logApart_around (snapshot : Bytes) : LogApart (around snapshot) launched := by
  intro f log? hopen
  obtain ⟨rfl, rfl⟩ := (opens_around snapshot).unique hopen
  have hschema : (aroundLog snapshot).locate (Path.ofString "schema.json") =
      .ok (Files.home ++ [Path.ofString "schema.json"]) := rfl
  have hnode : (aroundLog snapshot).locate (Path.ofString "node.toml") =
      .ok (Files.home ++ [Path.ofString "node.toml"]) := rfl
  constructor
  · intro k hk hl
    cases hk
    cases hschema.symm.trans hl
  · intro p hp k hk hl
    cases hk
    cases hp
    cases hnode.symm.trans hl

def edge : Bytes := Utf8.ofString "[cluster]\nmode = 'edge'\n"

def torn : Bytes := Utf8.ofString "[cluster]\nid = 'c'\nid = 'd'\n"

theorem run_unambiguous_edge :
    (run (around torn) arguments 2).code = 1 ∧
      (run (around torn) arguments 2).files.get? (Files.home ++ [Path.ofString "node.toml"]) =
        some (.file torn) ∧
      (run (around edge) arguments 2).code = 0 ∧
      ∃ x : Identity, x.mode = "edge" ∧
        (run (around edge) arguments 2).files.read (Path.ofString "node.toml") =
          .ok (Utf8.ofString (Snapshot.text (Path.ofString "node.toml") x)) := by
  have hapart : ∀ snapshot l, launch arguments = .ok l → LogApart (around snapshot) l := by
    intro snapshot l hl
    cases launch_arguments.symm.trans hl
    exact logApart_around snapshot
  obtain ⟨-, hone, -, -, hspares, -⟩ := run_unambiguous (around torn) arguments 2 (hapart _) rfl
  obtain ⟨-, -, hzero, -, -, hends⟩ := run_unambiguous (around edge) arguments 2 (hapart _) rfl
  have hgarbled : Garbled (aroundLog torn) (Path.ofString "node.toml") .duplicateKey :=
    ⟨_, rfl, by cbv⟩
  have hdoubt : Doubt launched (aroundLog torn) := .garbled rfl hgarbled
  have hcode : (run (around torn) arguments 2).code = 1 :=
    hone.2 ⟨launched, launch_arguments, .inr ⟨_, _, opens_around torn, hdoubt⟩⟩
  refine ⟨hcode, ?_, ?_⟩
  · obtain ⟨log?, hspares, hlog⟩ := hspares (by simp [hcode])
    refine (hspares.file _ _ fun hk => ?_).2 rfl
    obtain ⟨l, f, hl, hopen⟩ := hlog _ hk
    cases launch_arguments.symm.trans hl
    cases ((opens_around torn).unique hopen).2
  · have hbase : basePath Store.smallSchema = .ok "/v2" := by cbv
    have hschema : (aroundLog edge).read launched.apiSchema = .ok Store.smallSchema := rfl
    have hkept : Kept (aroundLog edge) launched.settings.options.snapshotPath { mode := "edge" } :=
      .decoded (show (aroundLog edge).read (Path.ofString "node.toml") = .ok edge from rfl) (by cbv)
    have hclear : ¬ Doubt launched (aroundLog edge) := by
      rintro (⟨h⟩ | ⟨h, hnone⟩ | ⟨hp, h⟩)
      · cases hschema.symm.trans h
      · cases hschema.symm.trans h
        cases hbase.symm.trans hnone
      · rw [hp] at hkept
        exact hkept.not_garbled _ h
    have hcode : (run (around edge) arguments 2).code = 0 :=
      hzero.2 (.inr ⟨launched, launch_arguments, _, _, opens_around edge, hclear⟩)
    obtain ⟨-, hends⟩ := hends launched _ _ launch_arguments (opens_around edge)
    obtain ⟨x, ws, hx, -, -, hread⟩ := hends hcode
    have hr : (aroundLog edge).Replaceable (Path.ofString "node.toml") Files.home
        ⟨Files.home, some (Path.ofString "node.toml")⟩ (Path.ofString "node.toml") := by
      constructor <;> decide +kernel
    obtain ⟨-, -, hread⟩ | ⟨-, hnot, -⟩ := hread _ rfl
    · refine ⟨hcode, _, ?_, hread⟩
      have hmode := x.get_withDefaults (around edge).names .mode
      rw [hx.unique hkept] at hmode ⊢
      exact hmode
    · exact absurd ⟨_, _, _, hr⟩ hnot

end Daemon

end NodeConfig
