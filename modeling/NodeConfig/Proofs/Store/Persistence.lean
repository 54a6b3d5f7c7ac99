import Mathlib
import NodeConfig.Proofs.Files.Change
import NodeConfig.Proofs.Snapshot.RoundTrip
import NodeConfig.Proofs.Snapshot.Write
import NodeConfig.Proofs.Store.Load

namespace NodeConfig

namespace Store

variable {s : Store} {w : World} {p : Path} {x : Identity} {f : Files} {schema : Bytes}
  {host : String} {port : ℕ}

theorem save_eq (s : Store) (hp : s.options.snapshotPath = some p) {r : Except ConfigFault Unit}
    (hw : Snapshot.write w.files p s.identity = (f, r)) :
    (s.save w).result = r ∧ (s.save w).store = s ∧ (s.save w).world = { w with files := f } := by
  rw [Snapshot.write] at hw
  simp only [save, saveOn, hp, hw]
  cases r <;> exact ⟨rfl, rfl, rfl⟩

/-- All ways in which a save ends, whatever the disk answers. -/
theorem saveOn_cases (s : Store) (disk : Files.Disk) (w : World) :
    (s.options.snapshotPath = none ∧ s.saveOn disk w = ⟨.ok (), s, w, .nothing⟩) ∨
    ∃ p, s.options.snapshotPath = some p ∧
      ((¬ (disk.Takes (Utf8.ofString (Snapshot.text p s.identity)) ∧
          ∃ d t name, w.files.Replaceable p d t name) ∧
        ∃ e, s.saveOn disk w = ⟨.error (.write p e), s, w, .count (.save false)⟩) ∨
      disk.Takes (Utf8.ofString (Snapshot.text p s.identity)) ∧
        ∃ d t name, w.files.Replaceable p d t name ∧ ∃ event : Event, event.level = .debug ∧
          s.saveOn disk w = ⟨.ok (), s, { w with
            files := w.files.replaced p (Utf8.ofString (Snapshot.text p s.identity)) d t },
            ⟨[event], [.save true]⟩⟩) := by
  cases hp : s.options.snapshotPath with
  | none => exact .inl ⟨rfl, by simp [saveOn, hp]⟩
  | some p =>
    refine .inr ⟨p, rfl, ?_⟩
    obtain ⟨htakes, d, t, name, hr, hw⟩ | ⟨hnot, e, hw⟩ :=
      Snapshot.writeOn_cases w.files disk p s.identity
    · exact .inr ⟨htakes, d, t, name, hr, _, rfl, by simp only [saveOn, hp, hw]; rfl⟩
    · exact .inl ⟨hnot, e, by simp only [saveOn, hp, hw]⟩

/-- A save that the disk refused can be tried again, as if it had never been. -/
theorem save_after_refusal {disk : Files.Disk} {e : ConfigFault}
    (h : (s.saveOn disk w).result = .error e) :
    (s.saveOn disk w).store.save (s.saveOn disk w).world = s.save w := by
  obtain ⟨-, hsave⟩ | ⟨p, -, ⟨-, fault, hsave⟩ | ⟨-, d, t, name, -, event, -, hsave⟩⟩ :=
    s.saveOn_cases disk w
  · rw [hsave]
  · rw [hsave]
  · rw [hsave] at h
    cases h

theorem save_cases (s : Store) (w : World) :
    (s.options.snapshotPath = none ∧ s.save w = ⟨.ok (), s, w, .nothing⟩) ∨
    ∃ p, s.options.snapshotPath = some p ∧
      (((¬ ∃ d t name, w.files.Replaceable p d t name) ∧
        ∃ e, s.save w = ⟨.error (.write p e), s, w, .count (.save false)⟩) ∨
      ∃ d t name, w.files.Replaceable p d t name ∧ ∃ event : Event, event.level = .debug ∧
        s.save w = ⟨.ok (), s, { w with
          files := w.files.replaced p (Utf8.ofString (Snapshot.text p s.identity)) d t },
          ⟨[event], [.save true]⟩⟩) := by
  obtain hnone | ⟨p, hp, ⟨hnot, hsave⟩ | ⟨-, hdone⟩⟩ := s.saveOn_cases .sound w
  · exact .inl hnone
  · exact .inr ⟨p, hp, .inl ⟨fun hr => hnot ⟨Files.Disk.takes_sound _, hr⟩, hsave⟩⟩
  · exact .inr ⟨p, hp, .inr hdone⟩

theorem store_save (s : Store) (w : World) : (s.save w).store = s := by
  obtain ⟨-, hsave⟩ | ⟨p, -, ⟨-, e, hsave⟩ | ⟨d, t, name, -, event, -, hsave⟩⟩ := s.save_cases w <;>
    rw [hsave]

/-- What a load that ended well leaves: a complete identity, and all files as they were. -/
theorem load_eq_ok (h : (s.load w schema host port).result = .ok ()) :
    (s.load w schema host port).store.identity.Complete ∧
      (s.load w schema host port).store.options = s.options ∧
      (s.load w schema host port).world.files = w.files := by
  obtain ⟨fault, -, hload⟩ | ⟨base, hbase, ⟨p, fault, -, -, hload⟩ | ⟨x, hx, -⟩⟩ :=
    load_cases s w schema host port
  · rw [hload] at h
    cases h
  · rw [hload] at h
    cases h
  · obtain ⟨-, hstore, hworld⟩ := load_of_kept hbase hx host port
    rw [hstore, hworld]
    exact ⟨x.complete_withDefaults _, rfl, rfl⟩

/-- A load ends well if the schema has a base path and the snapshot can be read. -/
theorem load_result (hp : s.options.snapshotPath = some p) {base : String}
    (hschema : basePath schema = .ok base) {found : Snapshot}
    (hr : Snapshot.read w.files p = .ok found) (host : String) (port : ℕ) :
    (s.load w schema host port).result = .ok () :=
  (load_of_kept hschema (hp ▸ kept_of_read hr) host port).1

/-- A complete identity is loaded as it was saved. -/
theorem load_of_loaded (hp : s.options.snapshotPath = some p) {base : String}
    (hschema : basePath schema = .ok base) (hr : Snapshot.read w.files p = .ok (.loaded x))
    (hx : x.Complete) (host : String) (port : ℕ) :
    (s.load w schema host port).result = .ok () ∧
      (s.load w schema host port).store =
        { s with server := ⟨normalHost host, port, base⟩, identity := x } ∧
      (s.load w schema host port).world = w := by
  have hkept : Kept w.files s.options.snapshotPath x := hp ▸ kept_of_read hr
  have hload := load_of_kept hschema hkept host port
  rwa [Identity.withDefaults_of_complete hx] at hload

/-- What a save that ended well has written. -/
theorem save_eq_ok (hp : s.options.snapshotPath = some p) (h : (s.save w).result = .ok ()) :
    Snapshot.write w.files p s.identity = ((s.save w).world.files, .ok ()) := by
  obtain ⟨f, r, hw⟩ : ∃ f r, Snapshot.write w.files p s.identity = (f, r) := ⟨_, _, rfl⟩
  obtain ⟨hresult, -, hworld⟩ := save_eq s hp hw
  rw [hworld, hw, ← hresult, h]

/-- A save of an identity that was written already ends well and changes no file. -/
theorem save_again (hp : s.options.snapshotPath = some p)
    (h : Snapshot.write f p s.identity = (w.files, .ok ())) :
    (s.save w).result = .ok () ∧ (s.save w).world.files.read p = w.files.read p ∧
      ∀ l, (s.save w).world.files.get? l = w.files.get? l := by
  obtain ⟨g, hw, hg⟩ := Snapshot.write_again h
  obtain ⟨hresult, -, hworld⟩ := save_eq s hp hw
  rw [hresult, hworld]
  exact ⟨rfl, (Snapshot.read_write hw).trans (Snapshot.read_write h).symm, hg⟩

/-- Where a snapshot was taken away a load starts from the defaults, and the next save makes the
file anew if it can. -/
theorem load_of_removed (hp : s.options.snapshotPath = some p) {base : String}
    (hschema : basePath schema = .ok base) {content : Bytes} (h : w.files.read p = .ok content)
    (hroot : w.files.get? [] = none) {loaded : Step (Except ConfigFault Unit)}
    (hloaded : s.load { w with files := w.files.removeFile p } schema host port = loaded) :
    loaded.result = .ok () ∧
      loaded.store.identity = (Identity.empty.withDefaults w.names).identity ∧
      ((∃ d t name, w.files.Replaceable p d t name) →
        (loaded.store.save loaded.world).result = .ok () ∧
          (loaded.store.save loaded.world).world.files.read p =
            .ok (Utf8.ofString (Snapshot.text p loaded.store.identity))) := by
  have hkept : Kept (w.files.removeFile p) s.options.snapshotPath .empty :=
    hp ▸ .unread (Files.read_removeFile h hroot)
  obtain ⟨hresult, hstore, hworld⟩ :=
    load_of_kept (w := { w with files := w.files.removeFile p }) hschema hkept host port
  rw [hloaded] at hresult hstore hworld
  refine ⟨hresult, by rw [hstore], ?_⟩
  rintro ⟨d, t, name, hr⟩
  obtain ⟨g, hw, -⟩ := Snapshot.exists_write (hr.congr (w.files.sameDirs_removeFile p))
    loaded.store.identity
  have hfiles : loaded.world.files = w.files.removeFile p := by rw [hworld]
  have hpath : loaded.store.options.snapshotPath = some p := by rw [hstore]; exact hp
  rw [← hfiles] at hw
  obtain ⟨hsaved, -, hafter⟩ := save_eq loaded.store hpath hw
  rw [hsaved, hafter]
  exact ⟨rfl, Snapshot.read_write hw⟩

/-- An identity that was loaded and then saved is the one that every store with the same path loads
from then on, whatever its schema, host and port: all texts and the flag are the same, and no name
is made. A second save, of either store, leaves all files as they are. -/
theorem identity_kept {first second : Store} (hfirst : first.options.snapshotPath = some p)
    (hsecond : second.options.snapshotPath = some p)
    {loaded saved again : Step (Except ConfigFault Unit)}
    (hloaded : first.load w schema host port = loaded) (hload : loaded.result = .ok ())
    (hsaved : loaded.store.save loaded.world = saved) (hsave : saved.result = .ok ())
    {schema' : Bytes} {base : String} (hschema : basePath schema' = .ok base) (host' : String)
    (port' : ℕ) (names : NameSource)
    (hagain : second.load ⟨saved.world.files, names⟩ schema' host' port' = again) :
    again.result = .ok () ∧ again.store.identity = loaded.store.identity ∧
      again.world = ⟨saved.world.files, names⟩ ∧
      ∀ s ∈ [loaded.store, again.store], (s.save again.world).result = .ok () ∧
        (s.save again.world).world.files.read p = saved.world.files.read p ∧
        ∀ l, (s.save again.world).world.files.get? l = saved.world.files.get? l := by
  subst hloaded hsaved
  obtain ⟨hcomplete, hoptions, -⟩ := load_eq_ok hload
  rw [← hoptions] at hfirst
  have hwrite := save_eq_ok hfirst hsave
  have hread := Snapshot.read_eq_loaded (Snapshot.read_write hwrite)
  obtain ⟨hresult, hstore, hworld⟩ := load_of_loaded (w := ⟨_, names⟩) hsecond hschema hread
    hcomplete host' port'
  rw [hagain] at hresult hstore hworld
  refine ⟨hresult, by rw [hstore], hworld, ?_⟩
  intro s hs
  rw [hworld]
  rcases List.mem_pair.1 hs with rfl | rfl
  · exact save_again hfirst hwrite
  · rw [hstore]
    exact save_again hsecond hwrite

theorem replaceable_handWritten : handWritten.files.Replaceable (Path.ofString "node.toml")
    Files.home ⟨Files.home, some (Path.ofString "node.toml")⟩ (Path.ofString "node.toml") := by
  constructor <;> decide +kernel

theorem identity_kept_unnamed : ∃ loaded saved again : Step (Except ConfigFault Unit),
    keeping.load handWritten smallSchema "localhost" 80 = loaded ∧ loaded.result = .ok () ∧
    loaded.store.save loaded.world = saved ∧ saved.result = .ok () ∧
    keeping.load ⟨saved.world.files, .fresh fun n => ⟨n, 1, 1⟩⟩ smallSchema "node" 81 = again ∧
    again.result = .ok () ∧ again.store.identity = loaded.store.identity := by
  have hp : keeping.options.snapshotPath = some (Path.ofString "node.toml") := by decide
  have hschema : basePath smallSchema = .ok "/v2" := by cbv
  have hr : Snapshot.read handWritten.files (Path.ofString "node.toml") =
      .ok (.loaded { mode := "edge" }) := by cbv
  have hload := load_result hp hschema hr "localhost" 80
  obtain ⟨-, hoptions, hfiles⟩ := load_eq_ok hload
  obtain ⟨f, hf, -⟩ := Snapshot.exists_write replaceable_handWritten
    (keeping.load handWritten smallSchema "localhost" 80).store.identity
  rw [← hfiles] at hf
  have hsave := (save_eq _ (hoptions.symm ▸ hp) hf).1
  have hkept := identity_kept hp hp rfl hload rfl hsave hschema "node" 81
    (.fresh fun n => ⟨n, 1, 1⟩) rfl
  exact ⟨_, _, _, rfl, hload, rfl, hsave, rfl, hkept.1, hkept.2.1⟩

end Store

end NodeConfig
