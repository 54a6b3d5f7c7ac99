import Mathlib
import NodeConfig.Proofs.Daemon.Events

namespace NodeConfig

namespace Daemon

open CommandLine (Launch LogOption Relogged Together UsageFault equals launch)

variable {s s' : Surroundings} {args args' : List Bytes} {l l' : Launch} {f f' g g' : Files}
  {log? log?' : Option Location} {p : Path} {p? : Option Path} {y : Identity} {ws ws' : List Event}

/-! ### Levels -/

/-- Where nothing else is said, a log shows the events that pass its level. -/
theorem shows_filterOf (hfilter : s.filter = none) (o : LogOptions) (e : Event) :
    (filterOf s o).shows e = decide (e.level.verbosity ≤ o.level.verbosity) := by
  have hread : Filter.ofText? o.directive = some [⟨o.level.verbosity, none, none, []⟩] := by
    change Filter.ofText? { level := o.level : LogOptions }.directive = _
    cases o.level <;> decide
  rw [filterOf, hfilter, hread]
  rfl

/-- Of the same events a less verbose log shows a part. -/
theorem filter_shows (hfilter : s.filter = none) (hfilter' : s'.filter = none) {o o' : LogOptions}
    (hlevel : o.level.verbosity ≤ o'.level.verbosity) (es : List Event) :
    es.filter (filterOf s o).shows =
      (es.filter (filterOf s' o').shows).filter (·.level.verbosity ≤ o.level.verbosity) := by
  rw [List.filter_filter]
  refine List.filter_congr fun e _ => ?_
  rw [shows_filterOf hfilter, shows_filterOf hfilter']
  by_cases he : e.level.verbosity ≤ o.level.verbosity
  · simp [he, he.trans hlevel]
  · simp [he]

/-! ### Two runs -/

/-- Two command lines differ only in values that say where, which and how events are logged; or both
describe launches that differ in nothing else, in whatever way they do so. -/
def DiffersInLog (args args' : List Bytes) : Prop :=
  Relogged args args' ∨ ∃ l l', launch args = .ok l ∧ launch args' = .ok l' ∧ l.Alike l'

theorem DiffersInLog.together (h : DiffersInLog args args') :
    Together Launch.Alike (launch args) (launch args') := by
  obtain h | ⟨l, l', hl, hl', h⟩ := h
  · exact h.launch
  · rw [hl, hl']
    exact h

def LogUsable (s : Surroundings) (l : Launch) : Prop :=
  ¬ Closed s l.settings.logging ∧ LogApart s l

/-- Once the log is open, the paths to the schema and the snapshot lead where they led before. -/
def LogAside (s : Surroundings) (l : Launch) : Prop :=
  ∀ f log?, Opens s l.settings.logging f log? → Files.SamePlace s.files f l.apiSchema ∧
    ∀ p, l.settings.options.snapshotPath = some p → Files.SameSlot s.files f p

/-- A file that is the log of a run. -/
def IsLog (s : Surroundings) (args : List Bytes) (k : Location) : Prop :=
  ∃ l f, launch args = .ok l ∧ Opens s l.settings.logging f (some k)

theorem LogUsable.opens (h : LogUsable s l) : ∃ f log?, Opens s l.settings.logging f log? := by
  obtain ⟨e, hclosed, -⟩ | ⟨f, log?, hopen, -⟩ := begin_cases s l.settings.logging
  · exact absurd hclosed h.1
  · exact ⟨f, log?, hopen⟩

/-- A log that is no file is in nobody's way. -/
theorem usable_of_stdout (s : Surroundings) (htarget : l.settings.logging.target = .stdout) :
    LogUsable s l ∧ LogAside s l := by
  have hopen : Opens s l.settings.logging s.files none := .stdout htarget
  refine ⟨⟨hopen.not_closed, fun f log? h => ?_⟩, fun f log? h => ?_⟩
  · obtain ⟨rfl, rfl⟩ := hopen.unique h
    exact ⟨nofun, nofun⟩
  · obtain ⟨rfl, rfl⟩ := hopen.unique h
    exact ⟨.refl _ _, fun _ _ => .refl _ _⟩

theorem Doubt.alike (h : l.Alike l') (hdoubt : Doubt l f) : Doubt l' f := by
  cases hdoubt with
  | noSchema hread => exact .noSchema (h.apiSchema ▸ hread)
  | noBase hread hbase => exact .noBase (h.apiSchema ▸ hread) hbase
  | garbled hp hgarbled => exact .garbled (h.settings.options ▸ hp) hgarbled

/-- Two runs whose logs stand aside find the same. -/
theorem sameFinds {names : NameSource} (halike : l.Alike l') (hspares : s.files.Spares f log?)
    (hspares' : s.files.Spares f' log?') (havoids : Avoids l f log?) (havoids' : Avoids l' f' log?')
    (hschema : Files.SamePlace f f' l.apiSchema)
    (hslot : ∀ p, l.settings.options.snapshotPath = some p → Files.SameSlot f f' p) :
    SameFinds l ⟨f, names⟩ ⟨f', names⟩ where
  names := rfl
  reads.schema := hschema.read_eq hspares hspares' havoids.schema fun k hk =>
    hschema.locate ▸ halike.apiSchema ▸ havoids'.schema k hk
  reads.snapshot p hp := (hslot p hp).entry.read_eq hspares hspares' (havoids.snapshot p hp)
    fun k hk => (hslot p hp).entry.locate ▸ havoids'.snapshot p (halike.settings.options ▸ hp) k hk
  slot := hslot

/-- Two saves of the same leave the same files, if there were the same before. -/
theorem Left.file_iff (hl : Left y log? f p? g ws) (hl' : Left y log?' f' p? g' ws')
    (hslot : ∀ p, p? = some p → Files.SameSlot f f' p) {k : Location} (hk : log? ≠ some k)
    (hk' : log?' ≠ some k) {content : Bytes}
    (hfiles : f'.get? k = some (.file content) ↔ f.get? k = some (.file content)) :
    g'.get? k = some (.file content) ↔ g.get? k = some (.file content) := by
  cases hl with
  | noPath same =>
    cases hl' with
    | noPath same' => rwa [same.get? k hk, same'.get? k hk']
  | saved hr hlog same =>
    have hthere := (hslot _ rfl).replaceable hr
    cases hl' with
    | saved hr' hlog' same' =>
      obtain rfl := Except.ok.inj (hr'.target.symm.trans hthere.target)
      rw [same.get? k hk, same'.get? k hk', hr.get?_replaced, hr'.get?_replaced]
      split
      · rfl
      · exact hfiles
    | unsaved hnot => exact absurd ⟨_, _, _, hthere⟩ hnot
  | unsaved hnot same =>
    cases hl' with
    | saved hr' => exact absurd ⟨_, _, _, (hslot _ rfl).symm.replaceable hr'⟩ hnot
    | unsaved _ same' => rwa [same.get? k hk, same'.get? k hk']

theorem opening_alike (h : l.Alike l') (refusal : Option String) :
    opening refusal l' = opening refusal l := by
  rw [opening, opening, h.metricsAddress]

/-- What two runs have in common that differ only in their logs. -/
structure SameButLogs (s s' : Surroundings) (args args' : List Bytes) (e e' : Exit) : Prop where
  code : e'.code = e.code
  files : ∀ k content, ¬ IsLog s args k → ¬ IsLog s' args' k →
    (e'.files.get? k = some (.file content) ↔ e.files.get? k = some (.file content))

theorem sameButLogs_of_error {fault fault' : UsageFault} (hfiles : s'.files = s.files)
    (hl : launch args = .error fault) (hl' : launch args' = .error fault')
    (hcode : fault.exitCode = fault'.exitCode) :
    SameButLogs s s' args args' (run s args 0) (run s' args' 0) := by
  simp only [run, start, hl, hl']
  exact ⟨hcode.symm, fun k content _ _ => by rw [hfiles]⟩

/-- Runs with open logs that find the same end alike. -/
theorem sameButLogs_of_opens (halike : l.Alike l') (hfiles : s'.files = s.files)
    (hnames : s'.names = s.names) (hl : launch args = .ok l) (hl' : launch args' = .ok l')
    (hopen : Opens s l.settings.logging f log?) (hopen' : Opens s' l'.settings.logging f' log?')
    (hapart : LogApart s l) (hapart' : LogApart s' l')
    (hfinds : SameFinds l ⟨f, s.names⟩ ⟨f', s'.names⟩) :
    SameButLogs s s' args args' (run s args 0) (run s' args' 0) := by
  have hlog : ∀ k, ¬ IsLog s args k → log? ≠ some k := fun k hk h => hk ⟨l, f, hl, h ▸ hopen⟩
  have hlog' : ∀ k, ¬ IsLog s' args' k → log?' ≠ some k :=
    fun k hk h => hk ⟨l', f', hl', h ▸ hopen'⟩
  have hbefore : ∀ k content, log? ≠ some k → log?' ≠ some k →
      (f'.get? k = some (.file content) ↔ f.get? k = some (.file content)) := by
    intro k content hk hk'
    rw [hopen.spares.file k content hk, hopen'.spares.file k content hk', hfiles]
  have hdoubts : Doubt l f ↔ Doubt l' f' :=
    ⟨fun h => (hfinds.reads.doubt h).alike halike,
      fun h => hfinds.reads.symm.doubt (h.alike halike.symm)⟩
  obtain ⟨r, es, -, -, hend⟩ := run_of_opens hl hopen hapart 0
  obtain ⟨r', es', -, -, hend'⟩ := run_of_opens hl' hopen' hapart' 0
  obtain ⟨hdoubt, hsame, stderr, hend⟩ | ⟨hclear, hend, x, hx, hleft⟩ := hend
  · obtain ⟨-, hsame', stderr', hend'⟩ | ⟨hclear', -⟩ := hend'
    · rw [hend, hend']
      refine ⟨rfl, fun k content hk hk' => ?_⟩
      change r'.world.files.get? k = _ ↔ r.world.files.get? k = _
      rw [hsame.get? k (hlog k hk), hsame'.get? k (hlog' k hk')]
      exact hbefore k content (hlog k hk) (hlog' k hk')
    · exact absurd (hdoubts.1 hdoubt) hclear'
  · obtain ⟨hdoubt', -⟩ | ⟨-, hend', x', hx', hleft'⟩ := hend'
    · exact absurd (hdoubts.2 hdoubt') hclear
    · rw [hend, hend']
      have hkept := hx.congr hfinds.reads.snapshot
      rw [halike.settings.options] at hx' hleft'
      rw [hx'.unique hkept, hnames] at hleft'
      refine ⟨rfl, fun k content hk hk' => ?_⟩
      exact hleft.file_iff hleft' hfinds.slot (hlog k hk) (hlog' k hk')
        (hbefore k content (hlog k hk) (hlog' k hk'))

/-- The log of a run has a line for each event that it shows, after what was in it. -/
theorem text_run (hl : launch args = .ok l) (hopen : Opens s l.settings.logging f log?)
    (hapart : LogApart s l) (hups : ℕ) :
    (run s args hups).text log? =
      before s log? ++ lines l.settings.logging s.time (run s args hups).logged := by
  have hapart : ∀ l', launch args = .ok l' → LogApart s l' := by
    intro l' hl'
    cases hl.symm.trans hl'
    exact hapart
  obtain ⟨fault, herror, -⟩ | ⟨l', hl', h⟩ := run_cases s args hups hapart rfl
  · cases hl.symm.trans herror
  · cases hl.symm.trans hl'
    obtain ⟨hclosed, -⟩ | ⟨g, log?', hopen', htext, -⟩ := h
    · exact absurd hclosed hopen.not_closed
    · obtain ⟨-, rfl⟩ := hopen.unique hopen'
      exact htext

/-- Logging does not bear on what a run does. Let two runs, to which no signal to reload the key
comes, differ only in the values of the options about where, which and how events are logged, and in
the filter. Let both be able to open their logs, which are neither the schema nor the snapshot, and
let the paths to those lead where they lead without a log. Then the exit code is the same, and so
are all files but the logs. Each log has a line for each event that it shows. With no filter, what
the less verbose log shows is what the other shows and passes the level of the first, in the same
order, wherever the logs are and in whatever format. -/
theorem logging_inert (hfiles : s'.files = s.files) (hnames : s'.names = s.names)
    (hrefusal : s'.refusal = s.refusal) (hargs : DiffersInLog args args')
    (husable : ∀ l, launch args = .ok l → LogUsable s l)
    (husable' : ∀ l, launch args' = .ok l → LogUsable s' l)
    (haside : ∀ l, launch args = .ok l → LogAside s l)
    (haside' : ∀ l, launch args' = .ok l → LogAside s' l)
    {e e' : Exit} (hrun : run s args 0 = e) (hrun' : run s' args' 0 = e') :
    e'.code = e.code ∧
    (∀ k content, ¬ IsLog s args k → ¬ IsLog s' args' k →
      (e'.files.get? k = some (.file content) ↔ e.files.get? k = some (.file content))) ∧
    ∀ l l' f f' log? log?', launch args = .ok l → launch args' = .ok l' →
      Opens s l.settings.logging f log? → Opens s' l'.settings.logging f' log?' →
      e.text log? = before s log? ++ lines l.settings.logging s.time e.logged ∧
      e'.text log?' = before s' log?' ++ lines l'.settings.logging s'.time e'.logged ∧
      (s.filter = none → s'.filter = none →
        l.settings.logging.level.verbosity ≤ l'.settings.logging.level.verbosity →
        e.logged = e'.logged.filter
          (·.level.verbosity ≤ l.settings.logging.level.verbosity)) := by
  subst hrun hrun'
  obtain ⟨fault, fault', hl, hl', hcode⟩ | ⟨l, l', hl, hl', halike⟩ := hargs.together.cases
  · obtain ⟨hcode, hsame⟩ := sameButLogs_of_error hfiles hl hl' hcode
    refine ⟨hcode, hsame, fun m _ _ _ _ _ hm => ?_⟩
    cases hl.symm.trans hm
  · obtain ⟨f, log?, hopen⟩ := (husable l hl).opens
    obtain ⟨f', log?', hopen'⟩ := (husable' l' hl').opens
    obtain ⟨hschema, hslot⟩ := haside l hl f log? hopen
    obtain ⟨hschema', hslot'⟩ := haside' l' hl' f' log?' hopen'
    have hapart := (husable l hl).2
    have hapart' := (husable' l' hl').2
    rw [hfiles, halike.apiSchema] at hschema'
    rw [hfiles, halike.settings.options] at hslot'
    have hfinds : SameFinds l ⟨f, s.names⟩ ⟨f', s'.names⟩ := by
      rw [hnames]
      exact sameFinds halike hopen.spares (hfiles ▸ hopen'.spares) (hapart _ _ hopen)
        (hapart' _ _ hopen') (hschema.symm.trans hschema')
        fun p hp => (hslot p hp).symm.trans (hslot' p hp)
    obtain ⟨hcode, hsame⟩ := sameButLogs_of_opens halike hfiles hnames hl hl' hopen hopen' hapart
      hapart' hfinds
    refine ⟨hcode, hsame, ?_⟩
    intro m m' g g' k? k?' hm hm' hg hg'
    obtain rfl := Except.ok.inj (hl.symm.trans hm)
    obtain rfl := Except.ok.inj (hl'.symm.trans hm')
    refine ⟨text_run hl hg hapart 0, text_run hl' hg' hapart' 0, fun hfilter hfilter' hlevel => ?_⟩
    rw [logged_run hl hopen (hapart _ _ hopen), logged_run hl' hopen' (hapart' _ _ hopen'),
      account_congr halike hfinds, hrefusal, opening_alike halike]
    exact filter_shows hfilter hfilter' hlevel _

def loggedBy (target level format : String) : List Bytes :=
  [Utf8.ofString "--api-schema=schema.json", LogOption.target.argument, Utf8.ofString target,
    LogOption.level.argument ++ equals :: Utf8.ofString level, LogOption.format.argument,
    Utf8.ofString format, Utf8.ofString "--log-file=logs/run.log", Utf8.ofString "-f",
    Utf8.ofString "node.toml"]

def launchedBy (target : LogTarget) (level : Level) (format : LogFormat) : Launch :=
  { launched with settings := { launched.settings with
    logging := ⟨target, Path.ofString "logs/run.log", level, format⟩ } }

theorem launch_file : launch (loggedBy "file" "warn" "json") =
    .ok (launchedBy .file .warn .json) := by
  decide +kernel

theorem launch_stdout : launch (loggedBy "stdout" "info" "text") =
    .ok (launchedBy .stdout .info .text) := by
  decide +kernel

theorem relogged_loggedBy :
    Relogged (loggedBy "file" "warn" "json") (loggedBy "stdout" "info" "text") :=
  .same _ (.apart .target ⟨.file, _, rfl, by decide⟩ ⟨.stdout, _, rfl, by decide⟩
    (.joined .level ⟨.warn, "warn", rfl, by decide⟩ ⟨.info, "info", rfl, by decide⟩
      (.apart .format ⟨.json, _, rfl, by decide⟩ ⟨.text, _, rfl, by decide⟩
        (.same _ (.same _ (.same _ .nil))))))

theorem opens_launchedBy (snapshot : Bytes) (level : Level) (format : LogFormat) :
    Opens (around snapshot) (launchedBy .file level format).settings.logging (aroundLog snapshot)
      (some logFile) :=
  .file rfl rfl

theorem usable_launchedBy (snapshot : Bytes) (level : Level) (format : LogFormat) :
    LogUsable (around snapshot) (launchedBy .file level format) ∧
      LogAside (around snapshot) (launchedBy .file level format) := by
  have hopen := opens_launchedBy snapshot level format
  refine ⟨⟨hopen.not_closed, fun f log? h => ?_⟩, fun f log? h => ?_⟩
  · obtain ⟨rfl, rfl⟩ := hopen.unique h
    obtain ⟨hschema, hsnapshot⟩ := logApart_around snapshot _ _ (opens_around snapshot)
    exact ⟨hschema, hsnapshot⟩
  · obtain ⟨rfl, rfl⟩ := hopen.unique h
    have hplace : ∀ name ∈ ["schema.json", "node.toml", "."],
        Files.SamePlace (around snapshot).files (aroundLog snapshot) (Path.ofString name) := by
      simp only [List.forall_mem_cons]
      refine ⟨⟨rfl, ?_⟩, ⟨rfl, ?_⟩, ⟨rfl, ?_⟩, nofun⟩ <;>
      · rintro _ ⟨⟩
        rfl
    refine ⟨hplace _ (by decide), ?_⟩
    rintro _ ⟨⟩
    exact ⟨hplace "node.toml" (by decide), hplace "." (by decide), rfl⟩

theorem logging_inert_edge :
    (run (around edge) (loggedBy "stdout" "info" "text") 0).code =
        (run (around edge) (loggedBy "file" "warn" "json") 0).code ∧
      (run (around edge) (loggedBy "file" "warn" "json") 0).logged =
        (run (around edge) (loggedBy "stdout" "info" "text") 0).logged.filter
          (·.level.verbosity ≤ 2) := by
  have hfile : ∀ l, launch (loggedBy "file" "warn" "json") = .ok l →
      LogUsable (around edge) l ∧ LogAside (around edge) l := by
    intro l hl
    obtain rfl := Except.ok.inj (launch_file.symm.trans hl)
    exact usable_launchedBy edge _ _
  have hstdout : ∀ l, launch (loggedBy "stdout" "info" "text") = .ok l →
      LogUsable (around edge) l ∧ LogAside (around edge) l := by
    intro l hl
    obtain rfl := Except.ok.inj (launch_stdout.symm.trans hl)
    exact usable_of_stdout _ rfl
  obtain ⟨hcode, -, hlogs⟩ := logging_inert (s := around edge) (Eq.refl (around edge).files) rfl rfl
    (.inl relogged_loggedBy) (fun l hl => (hfile l hl).1) (fun l hl => (hstdout l hl).1)
    (fun l hl => (hfile l hl).2) (fun l hl => (hstdout l hl).2) rfl rfl
  obtain ⟨-, -, hlogged⟩ := hlogs _ _ _ _ _ _ launch_file launch_stdout
    (opens_launchedBy edge _ _) (.stdout rfl)
  exact ⟨hcode, hlogged rfl rfl (by decide)⟩

def loggedTo (target : String) : List Bytes :=
  [Utf8.ofString "--api-schema=logs/../schema.json", LogOption.target.argument,
    Utf8.ofString target, Utf8.ofString "--log-file=logs/run.log"]

def launchedTo (target : LogTarget) : Launch where
  settings := { logging := { target, file := Path.ofString "logs/run.log" } }
  apiSchema := Path.ofString "logs/../schema.json"

theorem launch_loggedTo : launch (loggedTo "stdout") = .ok (launchedTo .stdout) ∧
    launch (loggedTo "file") = .ok (launchedTo .file) := by
  decide +kernel

theorem opens_launchedTo : Opens (around edge) (launchedTo .file).settings.logging (aroundLog edge)
    (some logFile) :=
  .file rfl rfl

theorem usable_launchedTo : LogUsable (around edge) (launchedTo .file) := by
  refine ⟨opens_launchedTo.not_closed, fun f log? h => ?_⟩
  obtain ⟨rfl, rfl⟩ := opens_launchedTo.unique h
  have hschema : (aroundLog edge).locate (launchedTo .file).apiSchema =
      .ok (Files.home ++ [Path.ofString "schema.json"]) := rfl
  constructor
  · intro k hk hl
    cases hk
    cases hschema.symm.trans hl
  · intro p hp
    cases hp

/-- Opening a log makes the directories above it, and so may open the way to a schema. -/
theorem log_opens_way : ¬ ∀ (s : Surroundings) (args args' : List Bytes), DiffersInLog args args' →
    (∀ l, launch args = .ok l → LogUsable s l) → (∀ l, launch args' = .ok l → LogUsable s l) →
    (run s args' 0).code = (run s args 0).code := by
  intro h
  obtain ⟨hstdout, hfile⟩ := launch_loggedTo
  have husable : ∀ l, launch (loggedTo "stdout") = .ok l → LogUsable (around edge) l := by
    intro l hl
    obtain rfl := Except.ok.inj (hstdout.symm.trans hl)
    exact (usable_of_stdout _ rfl).1
  have husable' : ∀ l, launch (loggedTo "file") = .ok l → LogUsable (around edge) l := by
    intro l hl
    obtain rfl := Except.ok.inj (hfile.symm.trans hl)
    exact usable_launchedTo
  have hsame := h (around edge) (loggedTo "stdout") (loggedTo "file")
    (.inl (.same _ (.apart .target ⟨.stdout, _, rfl, by decide⟩ ⟨.file, _, rfl, by decide⟩
      (.same _ .nil)))) husable husable'
  -- Without the log there is no directory to pass through.
  have hone : (run (around edge) (loggedTo "stdout") 0).code = 1 := by
    obtain ⟨-, hone, -⟩ := code_run (around edge) (loggedTo "stdout") 0
      (fun l hl => (husable l hl).2) rfl
    have hdoubt : Doubt (launchedTo .stdout) (around edge).files :=
      .noSchema (e := .notFound) rfl
    exact hone.2 ⟨_, hstdout, .inr ⟨_, none, .stdout rfl, hdoubt⟩⟩
  have hzero : (run (around edge) (loggedTo "file") 0).code = 0 := by
    obtain ⟨-, -, hzero⟩ := code_run (around edge) (loggedTo "file") 0
      (fun l hl => (husable' l hl).2) rfl
    have hread : (aroundLog edge).read (launchedTo .file).apiSchema = .ok Store.smallSchema := rfl
    have hbase : basePath Store.smallSchema = .ok "/v2" := by cbv
    have hclear : ¬ Doubt (launchedTo .file) (aroundLog edge) := by
      rintro (⟨h⟩ | ⟨h, hnone⟩ | ⟨hp, h⟩)
      · cases hread.symm.trans h
      · cases hread.symm.trans h
        cases hbase.symm.trans hnone
      · cases hp
    exact hzero.2 (.inr ⟨_, hfile, _, _, opens_launchedTo, hclear⟩)
  rw [hone, hzero] at hsame
  cases hsame

end Daemon

end NodeConfig
