import Mathlib
import NodeConfig.Proofs.Daemon.Events
import NodeConfig.Proofs.Log.Json

namespace NodeConfig

namespace Daemon

open CommandLine (Launch)

inductive Reported (port : ℕ) : Event → Prop
  | starting : Reported port ⟨.info, target, "dataplane-config v" ++ version ++ " starting", []⟩
  | metrics (refusal : Option String) (a : Address) : Reported port (metricsEvent refusal a)
  | unreadable (p : Path) (e : OsError) : Reported port
      ⟨.info, "dataplane_config::config::loader", "No readable cluster snapshot, using defaults",
        [("path", .shown p.display), ("error", .shown e.message)]⟩
  | emptySnapshot (p : Path) : Reported port
      ⟨.info, Store.target, "Cluster snapshot is empty, using defaults",
        [("path", .shown p.display)]⟩
  | loadedSnapshot (p : Path) : Reported port
      ⟨.info, Store.target, "Cluster snapshot loaded", [("path", .shown p.display)]⟩
  | mode : Reported port ⟨.debug, Identity.clusterTarget, "Cluster mode defaulted",
      [("mode", .quoted defaultMode)]⟩
  | name (name : String) : Reported port
      ⟨.info, Identity.clusterTarget, "Generated cluster node name", [("name", .shown name)]⟩
  | loaded (x : Identity) (server : Server) (hport : server.port = port) :
      Reported port (Store.loadedEvent x server)
  | doubt (e : ConfigFault) : Reported port (doubtEvent e)
  | saved (p : Path) : Reported port
      ⟨.debug, Store.target, "Cluster snapshot saved", [("path", .shown p.display)]⟩
  | unsaved (e : ConfigFault) : Reported port
      ⟨.warn, target, "Could not persist cluster snapshot", [("error", .shown e.message)]⟩
  | stopping : Reported port ⟨.info, target, "Shutdown signal received", []⟩
  | stopped : Reported port ⟨.info, target, "Shutdown complete", []⟩

variable {port : ℕ}

theorem reported_opening (port : ℕ) (refusal : Option String) (l : Launch) :
    ∀ e ∈ opening refusal l, Reported port e := by
  intro e he
  rcases List.mem_cons.1 he with rfl | he
  · exact .starting
  · obtain ⟨a, -, rfl⟩ := List.mem_map.1 he
    exact .metrics refusal a

theorem reported_withDefaults (port : ℕ) (x : Identity) (names : NameSource) :
    ∀ e ∈ (x.withDefaults names).report.events, Reported port e := by
  by_cases hmode : x.mode = "" <;> by_cases hname : x.filled.name = "" <;>
    (rw [Identity.filled] at hname; simp [Identity.withDefaults, hmode, hname, Reported.mode,
      Reported.name])

/-- What is reported of a snapshot, whether an identity was found or not. -/
theorem reported_stored (port : ℕ) (s : Store) (f : Files) :
    (∀ e ∈ (s.stored f).2, Reported port e) ∧
      ∀ x report, (s.stored f).1 = .ok (x, report) → ∀ e ∈ report.events, Reported port e := by
  unfold Store.stored
  cases s.options.snapshotPath with
  | none =>
    constructor
    · simp
    · intro x report h
      cases h
      simp
  | some p =>
    dsimp only
    rcases Snapshot.read f p with e | e | _ | x
    · simp [Snapshot.readEvents]
    · constructor
      · simp [Snapshot.readEvents, Reported.unreadable]
      · intro x report h
        cases h
        simp
    · constructor
      · simp [Snapshot.readEvents]
      · intro x report h
        cases h
        simp [Reported.emptySnapshot]
    · constructor
      · simp [Snapshot.readEvents]
      · intro y report h
        cases h
        simp [Reported.loadedSnapshot]

theorem reported_load (s : Store) (w : World) (schema : Bytes) (host : String) (port : ℕ) :
    ∀ e ∈ (s.load w schema host port).report.events, Reported port e := by
  unfold Store.load
  split
  · exact nofun
  · next base hbase =>
    obtain ⟨hread, hfound⟩ := reported_stored port
      { s with server := ⟨Store.normalHost host, port, base⟩ } w.files
    dsimp only
    split
    · next hstored =>
      rw [hstored] at hread
      exact hread
    · next x report events hstored =>
      rw [hstored] at hread hfound
      have hdefaults := reported_withDefaults port x w.names
      simp only [Report.events_append, Report.events_event, List.mem_append, List.mem_singleton]
      rintro e (((he | he) | he) | rfl)
      · exact hread e he
      · exact hfound x report rfl e he
      · exact hdefaults e he
      · exact .loaded _ _ rfl

theorem reported_saving (port : ℕ) (s : Store) (w : World) :
    ∀ e ∈ saving (s.save w), Reported port e := by
  unfold saving Store.save Store.saveOn
  split
  · simp
  · split <;> simp [Reported.saved, Reported.unsaved]

theorem reported_closing (port : ℕ) : ∀ e ∈ closing, Reported port e := by
  simp [closing, Reported.stopping, Reported.stopped]

theorem wellFormed_metricsEvent (refusal : Option String) (a : Address) :
    (metricsEvent refusal a).WellFormed := by
  cases refusal <;> constructor <;> simp [metricsEvent, FieldValue.Small]

theorem wellFormed_loadedEvent (x : Identity) {server : Server} (h : server.port < 2 ^ 64) :
    (Store.loadedEvent x server).WellFormed := by
  have hsmall : server.port < pow2 64 := h
  constructor
  · simp [Store.loadedEvent]
  · simpa [Store.loadedEvent, FieldValue.Small] using hsmall

theorem wellFormed_doubtEvent (e : ConfigFault) : (doubtEvent e).WellFormed := by
  constructor <;> simp [doubtEvent, FieldValue.Small]

theorem Reported.wellFormed (hport : port < 2 ^ 64) {e : Event} (h : Reported port e) :
    e.WellFormed := by
  cases h with
  | metrics refusal a => exact wellFormed_metricsEvent refusal a
  | loaded x server h => exact wellFormed_loadedEvent x (h ▸ hport)
  | doubt e => exact wellFormed_doubtEvent e
  | _ => constructor <;> simp [FieldValue.Small]

theorem wellFormed_hangupEvent : hangupEvent.WellFormed := by
  constructor <;> simp [hangupEvent]

theorem wellFormed_changedEvent (x : Identity) : (changedEvent x).WellFormed := by
  constructor <;> simp [changedEvent, FieldValue.Small]

/-- A send reports how long it waited, in milliseconds that have 64 bits. -/
theorem wellFormed_send (c : Channel) : ∀ e ∈ c.send.report.events, e.WellFormed := by
  have hmillis : ∀ ns, Channel.millis ns < pow2 64 := fun ns => Nat.mod_lt _ (Nat.two_pow_pos 64)
  have htimeout : ∀ ns, (c.timeoutEvent ns).WellFormed := by
    intro ns
    constructor
    · simp [Channel.timeoutEvent]
    · simpa [Channel.timeoutEvent, FieldValue.Small] using hmillis ns
  intro e he
  cases hp : c.policy with
  | coalesce =>
    simp only [Channel.send, hp, Channel.coalesce] at he
    split at he
    · simp at he
      subst he
      constructor <;> simp [FieldValue.Small]
    · simp at he
  | block ns =>
    simp only [Channel.send, hp, Channel.sendWithin] at he
    split at he
    · simp at he
      subst he
      exact htimeout ns
    · simp at he

theorem wellFormed_undelivered {e : SendFault} :
    (⟨.warn, target, "Bootstrap key reload not delivered", [("error", .shown e.message)]⟩ :
      Event).WellFormed := by
  constructor <;> simp [FieldValue.Small]

end Daemon

end NodeConfig
