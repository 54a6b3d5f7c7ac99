import Mathlib
import NodeConfig.Proofs.CommandLine.Numbers
import NodeConfig.Proofs.Daemon.Reload

namespace NodeConfig

namespace Daemon

open CommandLine (Launch launch)

variable {o : LogOptions} {now line : String} {log? : Option Location} {b : Bytes}
  {r : Running} {s : Surroundings} {l : Launch} {f : Files} {args : List Bytes} {e : Event}

def Exit.held (e : Exit) (log? : Option Location) : Bytes := e.unnamed.getD (e.text log?)

namespace Running

/-- What is in a log that was opened at a place. Its file is there, or has lost its name since. -/
inductive Holds (log? : Option Location) (b : Bytes) (r : Running) : Prop
  | named (hlog : r.log? = log?) (hname : r.unnamed = none) (h : r.text? = some b)
  | unnamed (hsink : r.sink = .nowhere) (h : r.unnamed = some b)

namespace Holds

theorem write (h : r.Holds log? b) (line : String) :
    (r.write line).Holds log? (b ++ Utf8.ofString line) := by
  obtain ⟨-, -, -, hsink, -⟩ := r.write_rest line
  cases h with
  | named hlog hname h =>
    have hunnamed : (r.write line).unnamed = none := by
      unfold Running.write
      split <;> simp [hname]
    refine .named ?_ hunnamed (text?_write h line)
    rw [Running.log?, hsink]
    exact hlog
  | unnamed hnowhere h =>
    refine .unnamed (hsink.trans hnowhere) ?_
    simp [Running.write, hnowhere, h]

/-- Other files and names do not bear on it, nor do events of which nothing is written. -/
theorem moved (h : r.Holds log? b) {w : World}
    (hfiles : ∀ k, r.log? = some k → w.files.get? k = r.world.files.get? k) :
    ({ r with world := w } : Running).Holds log? b := by
  cases h with
  | named hlog hname h =>
    refine .named hlog hname ?_
    obtain ⟨world, options, filter, time, sink, stdout, logged, unnamed⟩ := r
    cases sink with
    | stdout => exact h
    | file k =>
      have hk : w.files.get? k = world.files.get? k := hfiles k rfl
      simpa only [text?, hk] using h
    | nowhere => cases h
  | unnamed hnowhere h => exact .unnamed hnowhere h

/-- A log whose place is taken goes on with what is in it. -/
theorem replaced (h : r.Holds log? b) {k : Location} (hk : r.log? = some k) (w : World) :
    (r.onto w (some k)).Holds log? b := by
  cases h with
  | named hlog hname h =>
    refine .unnamed rfl ?_
    show some (r.world.files.contentAt k) = some b
    rw [Files.contentAt, get?_of_text? h hk]
  | unnamed hnowhere h =>
    rw [Running.log?, hnowhere] at hk
    cases hk

theorem exit (h : r.Holds log? b) (code : ℕ) (stderr : String) :
    (r.exit code stderr).held log? = b := by
  cases h with
  | named hlog hname h =>
    show r.unnamed.getD _ = b
    rw [hname, Option.getD_none, ← hlog]
    exact text_exit h code stderr
  | unnamed _ h =>
    show r.unnamed.getD _ = b
    rw [h, Option.getD_some]

end Holds

/-- The log is what was there before and a line for each event that was shown, all of which can be
told from their lines. -/
structure Itemizes (o : LogOptions) (now : String) (log? : Option Location) (b : Bytes)
    (r : Running) : Prop where
  options : r.options = o
  time : r.time = now
  holds : r.Holds log? (b ++ lines o now r.logged)
  wellFormed : ∀ e ∈ r.logged, e.WellFormed

namespace Itemizes

theorem log (h : r.Itemizes o now log? b) (he : e.WellFormed) :
    (r.log e).Itemizes o now log? b := by
  obtain ⟨hoptions, -, htime, -⟩ := r.write_rest (Log.line r.options r.time e)
  unfold Running.log
  split
  · have hline : lines o now (r.logged ++ [e]) =
        lines o now r.logged ++ Utf8.ofString (Log.line r.options r.time e) := by
      simp [lines, h.options, h.time]
    refine ⟨hoptions.trans h.options, htime.trans h.time, ?_, ?_⟩
    · show Running.Holds log? (b ++ lines o now (r.logged ++ [e])) _
      rw [hline, ← List.append_assoc]
      cases h.holds.write (Log.line r.options r.time e) with
      | named hlog hname h => exact .named hlog hname h
      | unnamed hnowhere h => exact .unnamed hnowhere h
    · intro d hd
      rcases List.mem_append.1 hd with hd | hd
      · exact h.wellFormed d hd
      · rw [List.mem_singleton.1 hd]
        exact he
  · exact h

theorem logAll (h : r.Itemizes o now log? b) {es : List Event} (hes : ∀ e ∈ es, e.WellFormed) :
    (r.logAll es).Itemizes o now log? b := by
  induction es generalizing r with
  | nil => exact h
  | cons e es ih =>
    obtain ⟨he, hes⟩ := List.forall_mem_cons.1 hes
    exact ih (h.log he) hes

theorem moved (h : r.Itemizes o now log? b) {w : World}
    (hfiles : ∀ k, r.log? = some k → w.files.get? k = r.world.files.get? k) :
    ({ r with world := w } : Running).Itemizes o now log? b :=
  ⟨h.options, h.time, h.holds.moved hfiles, h.wellFormed⟩

/-- A save writes over the log only if it puts the snapshot in its place. -/
theorem onto (h : r.Itemizes o now log? b) (store : Store) :
    (r.onto (store.save r.world).world
      (replacedLog r store (store.save r.world).result)).Itemizes o now log? b := by
  obtain ⟨hp, hsave⟩ | ⟨p, hp, ⟨-, error, hsave⟩ | ⟨d, t, name, hr, event, -, hsave⟩⟩ :=
    store.save_cases r.world
  · have hnone : replacedLog r store (.ok ()) = none := by simp only [replacedLog, hp]
    rw [hsave, hnone]
    exact h
  · rw [hsave, replacedLog_error]
    exact h
  · rw [hsave, replacedLog_ok hp hr.target]
    -- Of all files only the one at the target is another one now.
    split_ifs with hlog
    · exact ⟨h.options, h.time, h.holds.replaced hlog _, h.wellFormed⟩
    · apply h.moved
      intro k hk
      have hne : k ≠ t.location := fun heq => hlog (heq ▸ hk)
      exact (hr.get?_replaced k).trans (if_neg hne)

theorem persist (h : r.Itemizes o now log? b) (store : Store) :
    (persist r store).Itemizes o now log? b := by
  rw [persist_onto]
  apply (h.onto store).logAll
  intro e he
  -- No event of a save has the port in it, so that any port will do.
  exact (reported_saving 0 store r.world e he).wellFormed (by simp)

theorem reload (h : r.Itemizes o now log? b) (store : Store) :
    (reload r store).1.Itemizes o now log? b := by
  have hsent : ((r.log hangupEvent).logAll store.keyChanged.send.report.events).Itemizes o now
      log? b := (h.log wellFormed_hangupEvent).logAll (wellFormed_send store.keyChanged)
  have hreceived : ∀ received : Bool, (if received then
      ((r.log hangupEvent).logAll store.keyChanged.send.report.events).log
        (changedEvent store.identity)
      else (r.log hangupEvent).logAll store.keyChanged.send.report.events).Itemizes o now
        log? b := by
    intro received
    cases received with
    | false => exact hsent
    | true => exact hsent.log (wellFormed_changedEvent store.identity)
  unfold Daemon.reload
  dsimp only
  split
  · exact hreceived _
  · exact (hreceived _).log wellFormed_undelivered

theorem reloads (h : r.Itemizes o now log? b) (store : Store) (hups : ℕ) :
    (reloads r store hups).1.Itemizes o now log? b := by
  induction hups generalizing r store with
  | zero => exact h
  | succ n ih => exact ih (h.reload store) _

end Itemizes

end Running

/-! ### Runs -/

theorem itemizes_opened (hopen : Opens s o f log?) :
    (opened s o f log?).Itemizes o s.time log? (before s log?) := by
  have hholds : (opened s o f log?).Holds log? (before s log?) :=
    .named (log?_opened s o f log?) rfl hopen.text?
  refine ⟨rfl, rfl, ?_, nofun⟩
  show Running.Holds log? (before s log? ++ []) _
  rwa [List.append_nil]

/-- A run with an open log stops, or waits for signals, with such a log. -/
theorem itemizes_bootstrap (h : r.Itemizes o now log? b) (refusal : Option String)
    (hport : l.port < 2 ^ 64) :
    (∃ (r' : Running) (code : ℕ) (stderr : String), r'.Itemizes o now log? b ∧
      bootstrap r refusal l = .error (r'.exit code stderr)) ∨
    ∃ (r' : Running) (store : Store), r'.Itemizes o now log? b ∧
      bootstrap r refusal l = .ok (r', store) := by
  -- The first events are in the log before anything can fail.
  have hfirst := h.logAll fun e he => (reported_opening l.port refusal l e he).wellFormed hport
  obtain ⟨r₁, hr₁⟩ : ∃ r₁, r.logAll (opening refusal l) = r₁ := ⟨_, rfl⟩
  rw [hr₁] at hfirst
  rw [opening] at hr₁
  simp only [bootstrap, ← Running.logAll_cons, hr₁]
  cases r₁.world.files.read l.apiSchema with
  | error error => exact .inl ⟨r₁, _, _, hfirst, rfl⟩
  | ok schema =>
    have hfiles := (fresh l).files_load r₁.world schema l.host l.port
    have hreported := reported_load (fresh l) r₁.world schema l.host l.port
    rw [fresh] at hfiles hreported
    dsimp only
    generalize Store.load _ _ schema l.host l.port = loaded at hfiles hreported ⊢
    have hloaded : ({ r₁ with world := loaded.world }.logAll loaded.report.events).Itemizes o now
        log? b :=
      (hfirst.moved fun k _ => by rw [hfiles]).logAll fun e he => (hreported e he).wellFormed hport
    cases loaded.result with
    | ok _ => exact .inr ⟨_, _, hloaded.persist loaded.store, rfl⟩
    | error fault =>
      have hdoubt := hloaded.log (wellFormed_doubtEvent fault)
      cases fault with
      | schema fault => exact .inl ⟨_, _, _, hloaded, rfl⟩
      | corrupt path fault => exact .inl ⟨_, _, _, hdoubt, rfl⟩
      | write path error => exact .inl ⟨_, _, _, hdoubt, rfl⟩

theorem itemizes_start (hl : launch args = .ok l) (hopen : Opens s l.settings.logging f log?) :
    (∃ (r : Running) (code : ℕ) (stderr : String),
      r.Itemizes l.settings.logging s.time log? (before s log?) ∧
        start s args = .error (r.exit code stderr)) ∨
    ∃ (r : Running) (store : Store),
      r.Itemizes l.settings.logging s.time log? (before s log?) ∧
        start s args = .ok (r, store) := by
  have hport : l.port < 2 ^ 64 := (CommandLine.launch_port_lt hl).trans (by decide)
  have hboot := itemizes_bootstrap (itemizes_opened hopen) s.refusal hport
  simpa only [start, hl, begin_of_opens hopen] using hboot

theorem itemizes_run (hl : launch args = .ok l) (hopen : Opens s l.settings.logging f log?)
    (hups : ℕ) :
    ∃ (r : Running) (code : ℕ) (stderr : String),
      r.Itemizes l.settings.logging s.time log? (before s log?) ∧
        run s args hups = r.exit code stderr := by
  obtain ⟨r, code, stderr, hr, hstart⟩ | ⟨r, store, hr, hstart⟩ := itemizes_start hl hopen
  · exact ⟨r, code, stderr, hr, by rw [run, hstart]⟩
  · have hclosed := (hr.reloads store hups).logAll fun e he =>
      (reported_closing 0 e he).wellFormed (by simp)
    refine ⟨_, 0, "", hclosed, ?_⟩
    rw [run, hstart]
    rfl

/-- While a run waits for signals its tasks go on with such a log, each with what it reports. -/
theorem Tasks.itemizes_step {t u : Tasks} {act : Act} (h : t.run.Itemizes o now log? b)
    (hstep : Tasks.Step t act u) : u.run.Itemizes o now log? b := by
  cases hstep with
  | hangup => exact h
  | take => exact h.log wellFormed_hangupEvent
  | send => exact h.logAll (wellFormed_send _)
  | @finish result =>
    cases result with
    | ok _ => exact h
    | error fault => exact h.log wellFormed_undelivered
  | wait => exact h
  | receive => exact h
  | announce => exact h.log (wellFormed_changedEvent _)
  | within => exact h

theorem Tasks.itemizes_run {store : Store} {acts : List Act} {t : Tasks}
    (h : r.Itemizes o now log? b) (htasks : Run Tasks.Step (.begin r store) acts t) :
    t.run.Itemizes o now log? b :=
  htasks.keeps (P := fun t => t.run.Itemizes o now log? b) (fun _ _ _ => itemizes_step) h

/-! ### JSON -/

/-- What a run adds to its log has one line for each event that is shown, in their order, and
nothing else; every line is read as an object that tells its event. -/
def Unforged (s : Surroundings) (log? : Option Location) (e : Exit) : Prop :=
  ∃ added, e.held log? = before s log? ++ added ∧
    added.splitOn 0x0A = e.logged.map (Log.jsonText s.time) ++ [[]] ∧
    ∀ event ∈ e.logged, ∃ j, Json.parse (Log.jsonText s.time event) = .ok j ∧
      Log.Tells s.time event j

theorem Running.Itemizes.unforged (h : r.Itemizes o s.time log? (before s log?))
    (hjson : o.format = .json) (code : ℕ) (stderr : String) :
    Unforged s log? (r.exit code stderr) :=
  ⟨lines o s.time r.logged, h.holds.exit code stderr, Log.splitOn_lines hjson s.time r.logged,
    fun _ he => Log.exists_parse_jsonText s.time (h.wellFormed _ he)⟩

/-- A JSON log cannot be forged, whatever the snapshot, the arguments and the texts of errors put
into it. A run that cannot open its log reports nothing. Else what the run adds to the log has one
line for each event that is shown and nothing else; each line is read as an object, and what is read
gives the level, the target and the message of the event and all its fields back, with no other
field. This holds of the log wherever it is, also if the snapshot takes the place of its file, and
at every moment in which the tasks of the run wait for signals or deal with them. -/
theorem log_unforged (s : Surroundings) (args : List Bytes) {l : Launch}
    (hl : launch args = .ok l) (hjson : l.settings.logging.format = .json) :
    (Closed s l.settings.logging → ∀ hups, (run s args hups).logged = []) ∧
    ∀ f log?, Opens s l.settings.logging f log? →
      (∀ hups, Unforged s log? (run s args hups)) ∧
      ∀ r store, start s args = .ok (r, store) →
        ∀ acts t, Run Tasks.Step (.begin r store) acts t → Unforged s log? (t.run.exit 0 "") := by
  refine ⟨fun hclosed hups => ?_, fun f log? hopen => ⟨fun hups => ?_, ?_⟩⟩
  · obtain ⟨e, -, hbegin⟩ | ⟨f, log?, hopen, -⟩ := begin_cases s l.settings.logging
    · simp only [run, start, hl, hbegin]
    · exact absurd hclosed hopen.not_closed
  · obtain ⟨r, code, stderr, hr, hrun⟩ := itemizes_run hl hopen hups
    rw [hrun]
    exact hr.unforged hjson code stderr
  · intro r store hstart acts t htasks
    have hr : r.Itemizes l.settings.logging s.time log? (before s log?) := by
      obtain ⟨r', code, stderr, -, herror⟩ | ⟨r', store', hr, hok⟩ := itemizes_start hl hopen
      · cases herror.symm.trans hstart
      · cases hok.symm.trans hstart
        exact hr
    exact (Tasks.itemizes_run hr htasks).unforged hjson 0 ""

def forged : Identity := { name := "n\n\x7b\"level\":\"ERROR\"\x7d" }

def forgedSnapshot : Bytes := Utf8.ofString (Snapshot.text (Path.ofString "node.toml") forged)

theorem kept_forged : Kept (around forgedSnapshot).files
    (launchedBy .stdout .info .json).settings.options.snapshotPath forged :=
  .decoded (show (around forgedSnapshot).files.read (Path.ofString "node.toml") =
    .ok forgedSnapshot from rfl) (Snapshot.decode_encode _ forged)

theorem launch_json : launch (loggedBy "stdout" "info" "json") =
    .ok (launchedBy .stdout .info .json) := by
  decide +kernel

/-- The name is announced, and read from its line as it is. -/
theorem log_unforged_name : ∃ x : Identity, x.name = forged.name ∧
    let e := run (around forgedSnapshot) (loggedBy "stdout" "info" "json") 1
    changedEvent x ∈ e.logged ∧ Unforged (around forgedSnapshot) none e ∧
      ∃ j fields, Json.parse (Log.jsonText "now" (changedEvent x)) = .ok j ∧
        j.member? "fields" = some fields ∧ fields.member? "name" = some (.string forged.name) := by
  have hopen : Opens (around forgedSnapshot) (launchedBy .stdout .info .json).settings.logging
      (around forgedSnapshot).files none := .stdout rfl
  obtain ⟨-, hopened⟩ := log_unforged (around forgedSnapshot) _ launch_json rfl
  obtain ⟨hunforged, -⟩ := hopened _ _ hopen
  obtain ⟨r, store, hstart⟩ := start_around launch_json kept_forged
  obtain ⟨f, log?, hopen', hstarted, hidentity⟩ := started_of_start launch_json hstart
  obtain ⟨rfl, rfl⟩ := hopen.unique hopen'
  have hfollows := hstarted.follows
    (show Level.info.verbosity ≤ Level.info.verbosity from le_rfl)
  have hlogged : changedEvent store.identity ∈
      (run (around forgedSnapshot) (loggedBy "stdout" "info" "json") 1).logged := by
    rw [hstarted.logged_run hstart hfollows]
    simp [reloading]
  have hname : store.identity.name = forged.name := by
    obtain ⟨x, hx, hstored⟩ := hidentity ((usable_of_stdout _ rfl).1.2 _ _ hopen)
    obtain rfl := hx.unique kept_forged
    rw [hstored]
    exact Identity.get_withDefaults _ _ .name
  obtain ⟨added, htext, hsplit, hlines⟩ := hunforged 1
  obtain ⟨j, hparse, htells⟩ := hlines _ hlogged
  obtain ⟨fields, hfields, -, hvalues, -⟩ := htells.fields
  refine ⟨store.identity, hname, hlogged, ⟨added, htext, hsplit, hlines⟩, j, fields, hparse,
    hfields, ?_⟩
  have hvalue := hvalues ("name", .shown store.identity.name) List.mem_cons_self
  rwa [hname] at hvalue

end Daemon

end NodeConfig
