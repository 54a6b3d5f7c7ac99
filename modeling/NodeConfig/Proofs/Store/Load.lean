import Mathlib
import NodeConfig.Proofs.Identity.Defaults
import NodeConfig.Proofs.Snapshot.RoundTrip
import NodeConfig.Store

namespace NodeConfig

/-- The identity that is kept at a path. It is empty where there is no path, no file that can be
read, or nothing in the file. -/
inductive Kept (f : Files) : Option Path → Identity → Prop
  | noPath : Kept f none .empty
  | unread {p : Path} {e : OsError} (h : f.read p = .error e) : Kept f (some p) .empty
  | nothing {p : Path} {content : Bytes} (h : f.read p = .ok content)
      (hd : (Format.ofPath p).decode content = .ok none) : Kept f (some p) .empty
  | decoded {p : Path} {content : Bytes} {x : Identity} (h : f.read p = .ok content)
      (hd : (Format.ofPath p).decode content = .ok (some x)) : Kept f (some p) x

/-- The file at a path can be read, but not as an identity. -/
def Garbled (f : Files) (p : Path) (e : SnapshotFault) : Prop :=
  ∃ content, f.read p = .ok content ∧ (Format.ofPath p).decode content = .error e

theorem kept_or_garbled (f : Files) (p? : Option Path) :
    (∃ x, Kept f p? x) ∨ ∃ p e, p? = some p ∧ Garbled f p e := by
  cases p? with
  | none => exact .inl ⟨_, .noPath⟩
  | some p =>
    cases h : f.read p with
    | error e => exact .inl ⟨_, .unread h⟩
    | ok content =>
      rcases hd : (Format.ofPath p).decode content with e | _ | x
      · exact .inr ⟨p, e, rfl, content, h, hd⟩
      · exact .inl ⟨_, .nothing h hd⟩
      · exact .inl ⟨_, .decoded h hd⟩

/-- What a snapshot file was read as is kept there. -/
theorem kept_of_read {f : Files} {p : Path} {found : Snapshot}
    (h : Snapshot.read f p = .ok found) : Kept f (some p) found.identity := by
  unfold Snapshot.read at h
  split at h
  · next hread =>
    cases h
    exact .unread hread
  · next hread =>
    split at h
    · cases h
    · next hdecode =>
      cases h
      exact .nothing hread hdecode
    · next hdecode =>
      cases h
      exact .decoded hread hdecode

theorem Kept.unique {f : Files} {p? : Option Path} {x y : Identity} (h : Kept f p? x)
    (h' : Kept f p? y) : x = y := by
  cases h <;> cases h' <;> simp_all

theorem Kept.congr {f g : Files} {p? : Option Path} {x : Identity} (h : Kept f p? x)
    (hp : ∀ p, p? = some p → g.read p = f.read p) : Kept g p? x := by
  cases h with
  | noPath => exact .noPath
  | unread h => exact .unread ((hp _ rfl).trans h)
  | nothing h hd => exact .nothing ((hp _ rfl).trans h) hd
  | decoded h hd => exact .decoded ((hp _ rfl).trans h) hd

theorem Kept.not_garbled {f : Files} {p : Path} {x : Identity} (h : Kept f (some p) x)
    (e : SnapshotFault) : ¬ Garbled f p e := by
  rintro ⟨content, hread, hdecode⟩
  cases h <;> simp_all

namespace Store

variable {s t : Store} {w v : World} {p : Path} {x : Identity} {schema : Bytes} {base host : String}
  {port : ℕ} {e : ConfigFault}

/-- What is found on the way is of no more weight than information, and only the source is
counted. -/
theorem stored_of_kept (h : Kept w.files s.options.snapshotPath x) :
    ∃ report events, s.stored w.files = (.ok (x, report), events) ∧
      (∃ source, report.counts = [.load source]) ∧
      ∀ e ∈ events ++ report.events, e.level = .info := by
  generalize hp : s.options.snapshotPath = p? at h
  cases h with
  | noPath =>
    refine ⟨_, _, by simp only [stored, hp]; rfl, ⟨.ephemeral, rfl⟩, ?_⟩
    simp
  | unread h =>
    refine ⟨_, _, by simp only [stored, hp, Snapshot.read, h]; rfl, ⟨.default, rfl⟩, ?_⟩
    simp [Snapshot.readEvents]
  | nothing h hd =>
    refine ⟨_, _, by simp only [stored, hp, Snapshot.read, h, hd]; rfl, ⟨.empty, rfl⟩, ?_⟩
    simp [Snapshot.readEvents]
  | decoded h hd =>
    refine ⟨_, _, by simp only [stored, hp, Snapshot.read, h, hd]; rfl, ⟨.file, rfl⟩, ?_⟩
    simp [Snapshot.readEvents]

theorem stored_of_garbled {fault : SnapshotFault} (hp : s.options.snapshotPath = some p)
    (h : Garbled w.files p fault) : s.stored w.files = (.error (.corrupt p fault), []) := by
  obtain ⟨content, hread, hdecode⟩ := h
  simp [stored, hp, Snapshot.read, hread, hdecode, Snapshot.readEvents]

def served (host : String) (port : ℕ) (base : String) : Server :=
  ⟨if host = "localhost" then "127.0.0.1" else host, port, base⟩

theorem served_eq (host : String) (port : ℕ) (base : String) :
    ⟨normalHost host, port, base⟩ = served host port base := rfl

/-- Without a base path nothing happens. -/
theorem load_of_noBase {fault : SchemaFault} (h : basePath schema = .error fault) :
    s.load w schema host port = ⟨.error (.schema fault), s, w, .nothing⟩ := by
  simp only [load, h]

/-- A garbled file stops a load when only the server is new. -/
theorem load_of_garbled {fault : SnapshotFault} (hbase : basePath schema = .ok base)
    (hp : s.options.snapshotPath = some p) (h : Garbled w.files p fault) :
    s.load w schema host port =
      ⟨.error (.corrupt p fault), { s with server := served host port base }, w, .nothing⟩ := by
  have hstored := stored_of_garbled (s := { s with server := served host port base }) hp h
  simp only [load, hbase, served_eq, hstored]
  rfl

/-- A load that ends well counts where the identity came from, and warns of nothing. -/
theorem load_eq_of_kept (hbase : basePath schema = .ok base)
    (h : Kept w.files s.options.snapshotPath x) (host : String) (port : ℕ) :
    ∃ report, s.load w schema host port =
        ⟨.ok (), { s with
          server := served host port base
          identity := (x.withDefaults w.names).identity },
          { w with names := (x.withDefaults w.names).names }, report⟩ ∧
      (∃ source, report.counts = [.load source]) ∧
      ∀ e ∈ report.events, e.level = .info ∨ e.level = .debug := by
  obtain ⟨report, events, hstored, ⟨source, hcounts⟩, hevents⟩ :=
    stored_of_kept (s := { s with server := served host port base }) h
  obtain ⟨hnone, hdefaults⟩ := x.report_withDefaults w.names
  refine ⟨_, by simp only [load, hbase, served_eq, hstored]; rfl, ⟨source, ?_⟩, ?_⟩
  · simp [hcounts, hnone]
  · intro e he
    simp only [Report.events_append, Report.events_event, List.mem_append, List.mem_singleton] at he
    rcases he with ((he | he) | he) | rfl
    · exact .inl (hevents e (List.mem_append_left _ he))
    · exact .inl (hevents e (List.mem_append_right _ he))
    · exact hdefaults e he
    · exact .inl rfl

theorem load_of_kept (hbase : basePath schema = .ok base)
    (h : Kept w.files s.options.snapshotPath x) (host : String) (port : ℕ) :
    (s.load w schema host port).result = .ok () ∧
      (s.load w schema host port).store =
        { s with
          server := served host port base
          identity := (x.withDefaults w.names).identity } ∧
      (s.load w schema host port).world = { w with names := (x.withDefaults w.names).names } := by
  obtain ⟨report, hload, -⟩ := load_eq_of_kept hbase h host port
  rw [hload]
  exact ⟨rfl, rfl, rfl⟩

/-- All ways in which a load ends. -/
theorem load_cases (s : Store) (w : World) (schema : Bytes) (host : String) (port : ℕ) :
    (∃ fault, basePath schema = .error fault ∧
      s.load w schema host port = ⟨.error (.schema fault), s, w, .nothing⟩) ∨
    ∃ base, basePath schema = .ok base ∧
      ((∃ p fault, s.options.snapshotPath = some p ∧ Garbled w.files p fault ∧
        s.load w schema host port =
          ⟨.error (.corrupt p fault), { s with server := served host port base }, w, .nothing⟩) ∨
      ∃ x, Kept w.files s.options.snapshotPath x ∧
        (s.load w schema host port).result = .ok ()) := by
  cases hbase : basePath schema with
  | error fault => exact .inl ⟨fault, rfl, load_of_noBase hbase⟩
  | ok base =>
    refine .inr ⟨base, rfl, ?_⟩
    rcases kept_or_garbled w.files s.options.snapshotPath with ⟨x, hx⟩ | ⟨p, fault, hp, h⟩
    · exact .inr ⟨x, hx, (load_of_kept hbase hx host port).1⟩
    · exact .inl ⟨p, fault, hp, h, load_of_garbled hbase hp h⟩

/-- Whatever a load does, it counts nothing else than where the identity came from, and warns of
nothing. -/
theorem report_load (s : Store) (w : World) (schema : Bytes) (host : String) (port : ℕ) :
    (∀ c ∈ (s.load w schema host port).report.counts, ∃ source, c = .load source) ∧
      ∀ e ∈ (s.load w schema host port).report.events, e.level = .info ∨ e.level = .debug := by
  obtain ⟨fault, -, hload⟩ | ⟨base, hbase, ⟨p, fault, -, -, hload⟩ | ⟨x, hx, -⟩⟩ :=
    load_cases s w schema host port
  · simp [hload]
  · simp [hload]
  · obtain ⟨report, hload, ⟨source, hcounts⟩, hevents⟩ :=
      load_eq_of_kept hbase hx host port
    rw [hload]
    refine ⟨fun c hc => ⟨source, ?_⟩, hevents⟩
    simpa [hcounts] using hc

/-- A load fails exactly where the schema gives no base path, or the file at the snapshot's path is
garbled. It has changed nothing then but the server, and that only where the schema gave a base
path: all fields of the identity, options and slots are as before, and so are the files; no name is
made, and nothing is counted. -/
theorem load_failed (s : Store) (w : World) (schema : Bytes) (host : String) (port : ℕ)
    {step : Step (Except ConfigFault Unit)} (hstep : s.load w schema host port = step) :
    (∀ fault, step.result = .error (.schema fault) ↔ basePath schema = .error fault) ∧
    (∀ p fault, step.result = .error (.corrupt p fault) ↔
      (∃ base, basePath schema = .ok base) ∧ s.options.snapshotPath = some p ∧
        Garbled w.files p fault) ∧
    ∀ e, step.result = .error e → step.world = w ∧ step.report = .nothing ∧
      ((∃ fault, e = .schema fault ∧ step.store = s) ∨
        ∃ p fault base, e = .corrupt p fault ∧ basePath schema = .ok base ∧
          step.store = { s with server := served host port base }) := by
  subst hstep
  obtain ⟨fault, hbase, hload⟩ | ⟨base, hbase, ⟨p, fault, hp, hgarbled, hload⟩ | ⟨x, hx, hload⟩⟩ :=
    load_cases s w schema host port
  · rw [hload, hbase]
    refine ⟨fun fault' => by simp, fun p' fault' => by simp, ?_⟩
    rintro e he
    cases he
    exact ⟨rfl, rfl, .inl ⟨fault, rfl, rfl⟩⟩
  · rw [hload, hbase]
    refine ⟨fun fault' => by simp, fun p' fault' => ?_, ?_⟩
    · constructor
      · intro h
        cases h
        exact ⟨⟨base, rfl⟩, hp, hgarbled⟩
      · rintro ⟨-, hp', content, hread, hdecode⟩
        cases hp.symm.trans hp'
        obtain ⟨content', hread', hdecode'⟩ := hgarbled
        cases hread.symm.trans hread'
        cases hdecode.symm.trans hdecode'
        rfl
    · rintro e he
      cases he
      exact ⟨rfl, rfl, .inr ⟨p, fault, base, rfl, rfl, rfl⟩⟩
  · rw [hload, hbase]
    refine ⟨fun fault' => by simp, fun p' fault' => ?_, fun e he => by cases he⟩
    constructor
    · intro h
      cases h
    · rintro ⟨-, hp, hgarbled⟩
      rw [hp] at hx
      exact absurd hgarbled (hx.not_garbled fault')

def keeping : Store :=
  { make 0 with options := { dataplaneConfig := some (Path.ofString "node.toml") } }

def handWritten : World :=
  ⟨Snapshot.fileAtHome (Path.ofString "node.toml") (Utf8.ofString "[cluster]\nmode = 'edge'\n"),
    .fresh fun n => ⟨n, 0, 0⟩⟩

def smallSchema : Bytes := Utf8.ofString "\x7b\"basePath\":\"/v2\"\x7d"

def inUse : Store :=
  { keeping with
    server := ⟨"10.0.0.1", 5555, "/v1"⟩
    identity := Snapshot.odd
    keyChanged := keeping.keyChanged.raise }

def halfGood : World :=
  ⟨Snapshot.fileAtHome (Path.ofString "node.toml")
    (Utf8.ofString "[cluster]\nname = 'b'\nid = 'c'\nid = 'd'\n"), .fresh fun n => ⟨n, 0, 0⟩⟩

theorem load_failed_half :
    (inUse.load halfGood smallSchema "localhost" 80).result =
        .error (.corrupt (Path.ofString "node.toml") .duplicateKey) ∧
      (inUse.load halfGood smallSchema "localhost" 80).store =
        { inUse with server := ⟨"127.0.0.1", 80, "/v2"⟩ } ∧
      (inUse.load halfGood [] "localhost" 80).store = inUse := by
  have hbase : basePath smallSchema = .ok "/v2" := by cbv
  have hgarbled : Garbled halfGood.files (Path.ofString "node.toml") .duplicateKey :=
    ⟨_, rfl, by cbv⟩
  obtain ⟨-, hcorrupt, hkeeps⟩ := load_failed inUse halfGood smallSchema "localhost" 80 rfl
  have hpath : inUse.options.snapshotPath = some (Path.ofString "node.toml") := by
    change keeping.options.snapshotPath = _
    decide
  have herror := (hcorrupt _ _).2 ⟨⟨_, hbase⟩, hpath, hgarbled⟩
  refine ⟨herror, ?_, ?_⟩
  · obtain ⟨-, -, ⟨fault, he, -⟩ | ⟨p, fault, base, -, hbase', hstore⟩⟩ := hkeeps _ herror
    · cases he
    · cases hbase.symm.trans hbase'
      exact hstore
  · obtain ⟨hschema, -, hkeeps⟩ := load_failed inUse halfGood [] "localhost" 80 rfl
    obtain ⟨fault, hnone⟩ : ∃ fault, basePath [] = .error fault := ⟨_, by cbv⟩
    obtain ⟨-, -, ⟨fault, -, hstore⟩ | ⟨p, fault, base, he, -⟩⟩ :=
      hkeeps _ ((hschema fault).2 hnone)
    · exact hstore
    · cases he

/-- What a load leaves that ended well: the server and the identity are other ones, and nothing
else of the store. A field is as it is kept, or filled in where that is empty. -/
structure Loaded (s : Store) (w : World) (server : Server) (x : Identity)
    (step : Step (Except ConfigFault Unit)) : Prop where
  server : step.store.server = server
  text : ∀ f, step.store.identity.get f =
    if x.get f = "" then f.fallback w.names.mint.1 else x.get f
  certFetched : step.store.identity.certFetched = x.certFetched
  options : step.store.options = s.options
  logging : step.store.logging = s.logging
  keyChanged : step.store.keyChanged = s.keyChanged
  restart : step.store.restart = s.restart
  files : step.world.files = w.files
  names : step.world.names = if x.name = "" then w.names.mint.2 else w.names

theorem loaded_of_kept (hbase : basePath schema = .ok base)
    (h : Kept w.files s.options.snapshotPath x) (host : String) (port : ℕ) :
    Loaded s w (served host port base) x (s.load w schema host port) := by
  obtain ⟨-, hstore, hworld⟩ := load_of_kept hbase h host port
  have hnames := (x.withDefaults_eq w.names).2
  constructor
  case text => simpa only [hstore] using x.get_withDefaults w.names
  case certFetched => simpa only [hstore] using x.certFetched_withDefaults w.names
  case names => simpa only [hworld] using hnames
  case files => rw [hworld]
  all_goals rw [hstore]

namespace Loaded

variable {server : Server} {step step' : Step (Except ConfigFault Unit)}

/-- Of two loads of the same, only a name that was made can differ. -/
theorem get_eq (h : Loaded s w server x step) (h' : Loaded t v server x step') {f : TextField}
    (hf : f ≠ .name ∨ x.name ≠ "" ∨ v.names = w.names) :
    step'.store.identity.get f = step.store.identity.get f := by
  rw [h.text, h'.text]
  split
  · next hempty =>
    by_cases hname : f = .name
    · subst hname
      have hnames : v.names = w.names := by simpa [show x.name = "" from hempty] using hf
      rw [hnames]
    · exact TextField.fallback_congr hname _ _
  · rfl

theorem identity_eq (h : Loaded s w server x step) (h' : Loaded t v server x step')
    (hn : x.name ≠ "" ∨ v.names = w.names) : step'.store.identity = step.store.identity :=
  Identity.ext_get (fun _ => h.get_eq h' (.inr hn)) (h'.certFetched.trans h.certFetched.symm)

end Loaded

/-- Two stores with the same snapshot path over the same files load alike, whatever was in them
before. Both get the server that schema, host and port give, and the identity that is kept at the
path, with a default or a new name exactly where a field is empty; options, slots and files stay as
they were. Only a name that was made can differ, and it does not if the names come from the same
source. -/
theorem load_forgets {s t : Store} {w v : World}
    (hpath : t.options.snapshotPath = s.options.snapshotPath) (hfiles : v.files = w.files)
    (schema : Bytes) (host : String) (port : ℕ) {first second : Step (Except ConfigFault Unit)}
    (hfirst : s.load w schema host port = first) (hsecond : t.load v schema host port = second) :
    second.result = first.result ∧
    (first.result = .ok () → ∃ base x, basePath schema = .ok base ∧
      Kept w.files s.options.snapshotPath x ∧
      Loaded s w (served host port base) x first ∧ Loaded t v (served host port base) x second ∧
      (∀ f, f ≠ .name ∨ x.name ≠ "" →
        second.store.identity.get f = first.store.identity.get f) ∧
      (v.names = w.names → second.store.identity = first.store.identity)) := by
  subst hfirst hsecond
  obtain ⟨fault, hbase, hload⟩ | ⟨base, hbase, ⟨p, fault, hp, hgarbled, hload⟩ | ⟨x, hx, hload⟩⟩ :=
    load_cases s w schema host port
  · rw [hload, load_of_noBase hbase]
    exact ⟨rfl, fun h => by cases h⟩
  · rw [hload, load_of_garbled hbase (hpath.trans hp) (hfiles ▸ hgarbled)]
    exact ⟨rfl, fun h => by cases h⟩
  · have hx' : Kept v.files t.options.snapshotPath x := by rwa [hpath, hfiles]
    have h := loaded_of_kept hbase hx host port
    have h' := loaded_of_kept hbase hx' host port
    refine ⟨(load_of_kept hbase hx' host port).1.trans hload.symm, fun _ => ?_⟩
    exact ⟨base, x, hbase, hx, h, h', fun f hf => h.get_eq h' (hf.imp_right .inl),
      fun hn => h.identity_eq h' (.inr hn)⟩

theorem load_forgets_inUse :
    (inUse.load handWritten smallSchema "localhost" 80).result = .ok () ∧
      (inUse.load handWritten smallSchema "localhost" 80).store.identity =
        (keeping.load handWritten smallSchema "localhost" 80).store.identity ∧
      (inUse.load handWritten smallSchema "localhost" 80).store.identity.token = "" := by
  have hbase : basePath smallSchema = .ok "/v2" := by cbv
  have hread : Snapshot.read handWritten.files (Path.ofString "node.toml") =
      .ok (.loaded { mode := "edge" }) := by cbv
  have hpath : keeping.options.snapshotPath = some (Path.ofString "node.toml") := by decide
  have hkept : Kept handWritten.files keeping.options.snapshotPath { mode := "edge" } :=
    hpath ▸ kept_of_read hread
  have hload := (load_of_kept hbase hkept "localhost" 80).1
  obtain ⟨hresult, hsame⟩ := load_forgets (s := keeping) (t := inUse) (v := handWritten) rfl rfl
    smallSchema "localhost" 80 rfl rfl
  obtain ⟨base, x, -, hx, -, hloaded, -, heq⟩ := hsame hload
  have htoken := hloaded.text .token
  rw [hx.unique hkept] at htoken
  exact ⟨hresult.trans hload, heq rfl, htoken⟩

end Store

end NodeConfig
