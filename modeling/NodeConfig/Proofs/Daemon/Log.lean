import Mathlib
import NodeConfig.Daemon
import NodeConfig.Proofs.Files.Log
import NodeConfig.Proofs.Text.Utf8

namespace NodeConfig

namespace Daemon

def lines (o : LogOptions) (time : String) (es : List Event) : Bytes :=
  es.flatMap fun e => Utf8.ofString (Log.line o time e)

def warnings (es : List Event) : List Event := es.filter (·.level = .warn)

theorem warnings_append (es fs : List Event) : warnings (es ++ fs) = warnings es ++ warnings fs :=
  List.filter_append ..

theorem warnings_eq_nil {es : List Event} (h : ∀ e ∈ es, e.level ≠ .warn) : warnings es = [] :=
  List.filter_eq_nil_iff.2 fun e he => by simpa using h e he

namespace Running

variable {r r' r'' : Running} {es fs : List Event} {k? : Option Location} {b : Bytes}

def log? (r : Running) : Option Location :=
  match r.sink with
  | .file l => some l
  | _ => none

def text? (r : Running) : Option Bytes :=
  match r.sink with
  | .stdout => some (Utf8.ofString r.stdout)
  | .file l =>
    match r.world.files.get? l with
    | some (.file content) => some content
    | _ => none
  | .nowhere => none

/-- A run goes on and reports events. Of the files only the log is another, and perhaps one that
was written meanwhile. -/
structure Onward (r : Running) (es : List Event) (k? : Option Location) (r' : Running) : Prop where
  options : r'.options = r.options
  filter : r'.filter = r.filter
  time : r'.time = r.time
  sink : r'.sink = r.sink
  logged : r'.logged = r.logged ++ es.filter r.filter.shows
  text : ∀ b, r.text? = some b →
    r'.text? = some (b ++ lines r.options r.time (es.filter r.filter.shows))
  get? : ∀ k, r.log? ≠ some k → k? ≠ some k → r'.world.files.get? k = r.world.files.get? k

namespace Onward

theorem refl (r : Running) (k? : Option Location) : r.Onward [] k? r where
  options := rfl
  filter := rfl
  time := rfl
  sink := rfl
  logged := by simp
  text b hb := by simp [hb, lines]
  get? _ _ _ := rfl

theorem log?_eq (h : r.Onward es k? r') : r'.log? = r.log? := by rw [log?, log?, h.sink]

theorem trans (h : r.Onward es k? r') (h' : r'.Onward fs k? r'') : r.Onward (es ++ fs) k? r'' where
  options := h'.options.trans h.options
  filter := h'.filter.trans h.filter
  time := h'.time.trans h.time
  sink := h'.sink.trans h.sink
  logged := by rw [h'.logged, h.logged, h.filter, List.filter_append, List.append_assoc]
  text b hb := by
    rw [h'.text _ (h.text b hb), h.options, h.time, h.filter, List.append_assoc, lines, lines,
      lines, ← List.flatMap_append, List.filter_append]
  get? k hl hk := (h'.get? k (h.log?_eq ▸ hl) hk).trans (h.get? k hl hk)

theorem of_none (h : r.Onward es none r') (k? : Option Location) : r.Onward es k? r' :=
  { h with get? := fun k hl _ => h.get? k hl nofun }

end Onward

/-- Where the log is a file, it stays one. -/
theorem get?_of_text? (hb : r.text? = some b) {l : Location} (hl : r.log? = some l) :
    r.world.files.get? l = some (.file b) := by
  unfold log? at hl
  unfold text? at hb
  split at hl
  · next hsink =>
    cases hl
    rw [hsink] at hb
    dsimp only at hb
    split at hb
    · next h => simpa [h] using hb
    · cases hb
  · cases hl

theorem Onward.sameBut (h : r.Onward es none r') (hb : r.text? = some b) :
    Files.SameBut r.log? r.world.files r'.world.files where
  get? k hk := h.get? k hk nofun
  file _ hl := ⟨_, _, get?_of_text? hb hl, get?_of_text? (h.text b hb) (h.log?_eq.trans hl)⟩

/-- Files may change beside the log, and where names come from. -/
theorem onward_world (r : Running) (w : World)
    (hfiles : ∀ k, k? ≠ some k → w.files.get? k = r.world.files.get? k)
    (hlog : ∀ k, r.log? = some k → k? ≠ some k) : r.Onward [] k? { r with world := w } where
  options := rfl
  filter := rfl
  time := rfl
  sink := rfl
  logged := by simp
  text b hb := by
    obtain ⟨world, options, filter, time, sink, stdout, logged, unnamed⟩ := r
    cases sink with
    | stdout => simpa [text?, lines] using hb
    | file l =>
      have hl := hfiles l (hlog l rfl)
      simp only at hl
      simpa [text?, lines, hl] using hb
    | nowhere => cases hb
  get? k _ hk := hfiles k hk

/-- A line is put at the end of the log, and nowhere else. -/
theorem text?_write (hb : r.text? = some b) (line : String) :
    (r.write line).text? = some (b ++ Utf8.ofString line) := by
  obtain ⟨world, options, filter, time, sink, stdout, logged, unnamed⟩ := r
  cases sink with
  | stdout =>
    cases hb
    simp [write, text?, Utf8.ofString_append]
  | file l =>
    have hl := get?_of_text? hb (l := l) rfl
    simp only at hl
    simp [write, text?, Files.get?_appendAt, Files.contentAt, hl]
  | nowhere => cases hb

theorem get?_write (r : Running) (line : String) {k : Location} (hk : r.log? ≠ some k) :
    (r.write line).world.files.get? k = r.world.files.get? k := by
  obtain ⟨world, options, filter, time, sink, stdout, logged, unnamed⟩ := r
  cases sink with
  | stdout => rfl
  | file l =>
    have hne : k ≠ l := fun h => hk (by rw [log?, h])
    simp only [write, Files.get?_appendAt, if_neg hne]
  | nowhere => rfl

theorem write_rest (r : Running) (line : String) :
    (r.write line).options = r.options ∧ (r.write line).filter = r.filter ∧
      (r.write line).time = r.time ∧ (r.write line).sink = r.sink ∧
      (r.write line).world.names = r.world.names := by
  unfold write
  split <;> exact ⟨rfl, rfl, rfl, rfl, rfl⟩

theorem onward_log (r : Running) (e : Event) : r.Onward [e] none (r.log e) := by
  obtain ⟨hoptions, hfilter, htime, hsink, -⟩ := r.write_rest (Log.line r.options r.time e)
  unfold log
  cases hshows : r.filter.shows e with
  | false =>
    exact { Onward.refl r none with
      logged := by simp [hshows]
      text := fun b hb => by simp [hb, lines, hshows] }
  | true =>
    have hline : lines r.options r.time ([e].filter r.filter.shows) =
        Utf8.ofString (Log.line r.options r.time e) := by
      simp [lines, hshows]
    exact {
      options := hoptions
      filter := hfilter
      time := htime
      sink := hsink
      logged := by simp [hshows]
      text := fun b hb => hline ▸ text?_write hb _
      get? := fun k hk _ => get?_write r _ hk }

theorem logAll_cons (r : Running) (e : Event) (es : List Event) :
    r.logAll (e :: es) = (r.log e).logAll es := rfl

theorem logAll_append (r : Running) (es fs : List Event) :
    r.logAll (es ++ fs) = (r.logAll es).logAll fs := List.foldl_append

theorem onward_logAll (r : Running) (es : List Event) : r.Onward es none (r.logAll es) := by
  induction es generalizing r with
  | nil => exact .refl r none
  | cons e es ih => exact (r.onward_log e).trans (ih (r.log e))

theorem names_logAll (r : Running) (es : List Event) :
    (r.logAll es).world.names = r.world.names := by
  induction es generalizing r with
  | nil => rfl
  | cons e es ih =>
    refine (ih (r.log e)).trans ?_
    unfold log
    split
    · exact (r.write_rest _).2.2.2.2
    · rfl

end Running

/-- A send over an empty slot ends well at once. -/
theorem send_of_empty {c : Channel} (hc : c.pending = false) :
    c.send = ⟨.ok .delivered, c.raise, .count (.send c.name .delivered)⟩ := by
  cases hp : c.policy with
  | coalesce =>
    simp only [Channel.send, Channel.coalesce, hp, hc]
    rfl
  | block ns =>
    simp only [Channel.send, Channel.sendWithin, hp, hc]
    rfl

theorem receive_raise {c : Channel} (hc : c.pending = false) : c.raise.receive = (true, c) := by
  obtain ⟨name, policy, pending⟩ := c
  cases hc
  rfl

def hangupEvent : Event := ⟨.info, target, "SIGHUP received, reloading bootstrap key", []⟩

def changedEvent (x : Identity) : Event :=
  ⟨.info, target, "Bootstrap key changed",
    [("name", .shown x.name), ("key_set", .bool (x.bootstrapKey ≠ ""))]⟩

def reloading (x : Identity) (n : ℕ) : List Event :=
  (List.replicate n [hangupEvent, changedEvent x]).flatten

theorem reloading_add (x : Identity) (m n : ℕ) :
    reloading x (m + n) = reloading x m ++ reloading x n := by
  rw [reloading, List.replicate_add, List.flatten_append]
  rfl

theorem mem_reloading {x : Identity} {n : ℕ} {e : Event} (he : e ∈ reloading x n) :
    e = hangupEvent ∨ e = changedEvent x := by
  obtain ⟨es, hes, he⟩ := List.mem_flatten.1 he
  obtain rfl := List.eq_of_mem_replicate hes
  exact List.mem_pair.1 he

theorem level_of_mem_reloading {x : Identity} {n : ℕ} {e : Event} (he : e ∈ reloading x n) :
    e.level = .info := by
  rcases mem_reloading he with rfl | rfl <;> rfl

variable {s : Store}

/-- A signal to reload the key leaves the store as it was, for its announcement is received at
once. -/
theorem reload_eq (r : Running) (hs : s.keyChanged.pending = false) :
    reload r s = (r.logAll [hangupEvent, changedEvent s.identity], s) := by
  simp only [reload, Store.reloadKey, send_of_empty hs, receive_raise hs, Except.map]
  rfl

theorem reloads_eq (r : Running) (hs : s.keyChanged.pending = false) (hups : ℕ) :
    reloads r s hups = (r.logAll (reloading s.identity hups), s) := by
  induction hups generalizing r with
  | zero => rfl
  | succ n ih =>
    rw [reloads, reload_eq r hs, Nat.add_comm, reloading_add, Running.logAll_append]
    exact ih _

theorem shutdown_eq (r : Running) :
    ∃ es, (∀ e ∈ es, e.level = .info) ∧ shutdown r = (r.logAll es).exit 0 "" :=
  ⟨[_, _], by simp, rfl⟩

end Daemon

end NodeConfig
