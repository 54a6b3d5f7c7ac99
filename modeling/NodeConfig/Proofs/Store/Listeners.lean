import Mathlib
import NodeConfig.Proofs.Store.Freshness

namespace NodeConfig

namespace Rotation

variable {ι : Type} {es fs : List (Event ι)} {e : Event ι} {t : ι} {earlier later : List String}
  {key : String}

def Stage.busy : Stage → Bool
  | .idle => false
  | _ => true

def Event.takes : Event ι → Bool
  | .receive taken => taken
  | _ => false

def Event.announces : Event ι → Bool
  | .announce _ (.ok ()) => true
  | _ => false

def taken (es : List (Event ι)) : ℕ := es.countP Event.takes

def announced (es : List (Event ι)) : ℕ := es.countP Event.announces

/-- A thread stored a key after these, and its call goes on. -/
def Calling (es : List (Event ι)) (t : ι) (earlier : List String) (key : String) : Prop :=
  ∃ fs gs, es = fs ++ .store t key :: gs ∧ earlier = keys fs ∧ ∀ r, .announce t r ∉ gs

/-- The signal that is pending is the one of a call which stored a key after these. -/
def Raised (es : List (Event ι)) (earlier : List String) (key : String) : Prop :=
  ∃ t fs gs, es = fs ++ .announce t (.ok ()) :: gs ∧ Calling fs t earlier key ∧ .receive true ∉ gs

/-- Somebody took the signal of a call, which stored a key between these. -/
def Heard (es : List (Event ι)) (earlier : List String) (key : String) (later : List String) :
    Prop :=
  ∃ fs gs, es = fs ++ .receive true :: gs ∧ Raised fs earlier key ∧
    keys es = earlier ++ key :: later

/-- Who reads the key finds one of these, and so does who reads the file, if all saves went well. -/
def State.Shows (s : State ι) (es : List (Event ι)) (ks : List String) : Prop :=
  s.store.identity.bootstrapKey ∈ ks ∧
    ∀ p, s.store.options.snapshotPath = some p → AllSaved es →
      ∃ x, Snapshot.read s.world.files p = .ok (.loaded x) ∧ x.bootstrapKey ∈ ks

/-- Only one thread stores keys, and all its calls announce them. -/
structure Alone (t : ι) (es : List (Event ι)) : Prop where
  stores : ∀ u key, .store u key ∈ es → u = t
  announces : ∀ u r, .announce u r ∈ es → r = .ok ()

/-! ### Events -/

theorem Event.of_takes (h : e.takes = true) : e = .receive true := by
  unfold Event.takes at h
  split at h
  · rw [h]
  · cases h

theorem Event.of_announces (h : e.announces = true) : ∃ t, e = .announce t (.ok ()) := by
  unfold Event.announces at h
  split at h
  · exact ⟨_, rfl⟩
  · cases h

@[simp]
theorem taken_nil : taken ([] : List (Event ι)) = 0 := rfl

@[simp]
theorem announced_nil : announced ([] : List (Event ι)) = 0 := rfl

@[simp]
theorem taken_append (es fs : List (Event ι)) : taken (es ++ fs) = taken es + taken fs :=
  List.countP_append

@[simp]
theorem taken_cons (e : Event ι) (es : List (Event ι)) :
    taken (e :: es) = e.takes.toNat + taken es := by
  cases h : e.takes <;> simp [taken, h, Nat.add_comm]

@[simp]
theorem announced_append (es fs : List (Event ι)) :
    announced (es ++ fs) = announced es + announced fs :=
  List.countP_append

@[simp]
theorem announced_cons (e : Event ι) (es : List (Event ι)) :
    announced (e :: es) = e.announces.toNat + announced es := by
  cases h : e.announces <;> simp [announced, h, Nat.add_comm]

theorem Alone.mono (h : Alone t es) (hfs : fs ⊆ es) : Alone t fs :=
  ⟨fun u key hu => h.stores u key (hfs hu), fun u r hu => h.announces u r (hfs hu)⟩

theorem Calling.mem (h : Calling es t earlier key) : .store t key ∈ es := by
  obtain ⟨fs, gs, rfl, -, -⟩ := h
  simp

theorem Calling.concat (h : Calling es t earlier key) (he : ∀ r, e ≠ .announce t r) :
    Calling (es ++ [e]) t earlier key := by
  obtain ⟨fs, gs, rfl, rfl, hgs⟩ := h
  refine ⟨fs, gs ++ [e], by simp, rfl, fun r hr => ?_⟩
  rcases List.mem_append.1 hr with hr | hr
  · exact hgs r hr
  · exact he r (List.mem_singleton.1 hr).symm

theorem Raised.concat (h : Raised es earlier key) (he : e.takes = false) :
    Raised (es ++ [e]) earlier key := by
  obtain ⟨t, fs, gs, rfl, hcalling, hgs⟩ := h
  refine ⟨t, fs, gs ++ [e], by simp, hcalling, fun hr => ?_⟩
  rcases List.mem_append.1 hr with hr | hr
  · exact hgs hr
  · rw [← List.mem_singleton.1 hr] at he
    cases he

/-! ### The slot -/

/-- What one step does to the slot: an announcement fills it, and who takes a signal empties it. -/
structure Signals (c : Channel) (e : Event ι) (c' : Channel) : Prop where
  policy : c'.policy = c.policy
  pending : c'.pending = (e.announces || c.pending && !e.takes)
  slot : ∀ ns, c.policy = .block ns →
    e.announces.toNat + c.pending.toNat = e.takes.toNat + c'.pending.toNat

theorem signals_send (t : ι) (c : Channel) :
    Signals c (.announce t (c.send.result.map fun _ => ())) c.send.channel := by
  obtain ⟨name, policy, pending⟩ := c
  cases policy with
  | coalesce => cases pending <;> exact ⟨rfl, rfl, nofun⟩
  | block ns => cases pending <;> exact ⟨rfl, rfl, fun _ _ => rfl⟩

theorem signals_receive (c : Channel) :
    Signals c (.receive c.receive.1 : Event ι) c.receive.2 := by
  obtain ⟨name, policy, pending⟩ := c
  cases pending <;> exact ⟨rfl, rfl, fun _ _ => rfl⟩

theorem signals_rfl {c : Channel} (ha : e.announces = false) (ht : e.takes = false) :
    Signals c e c :=
  ⟨rfl, by simp [ha, ht], fun _ _ => by rw [ha, ht]⟩

variable [DecidableEq ι] {s s' : State ι} {store : Store} {world : World}

theorem Step.signals (h : Step s e s') : Signals s.store.keyChanged e s'.store.keyChanged := by
  cases h with
  | announce h => exact signals_send ..
  | receive => exact signals_receive _
  | _ => exact signals_rfl rfl rfl

/-! ### The signal and its call -/

/-- A thread in a call stored its key in this step, or was in the call before. -/
theorem Step.busy (h : Step s e s') (ht : (s'.stage t).busy = true) :
    (∃ key, e = .store t key) ∨ (s.stage t).busy = true ∧ ∀ r, e ≠ .announce t r := by
  cases h with
  | receive => exact .inr ⟨ht, nofun⟩
  | @store u h key =>
    by_cases hut : t = u
    · exact .inl ⟨key, by rw [hut]⟩
    · exact .inr ⟨by simpa [hut] using ht, nofun⟩
  | @announce u h =>
    by_cases hut : t = u
    · simp [hut, Stage.busy] at ht
    · exact .inr ⟨by simpa [hut] using ht, fun r hr => hut (by cases hr; rfl)⟩
  | @skip u h | @lock u h | @read u _ _ _ h | @write u _ h | @unlock u h =>
    refine .inr ⟨?_, nofun⟩
    by_cases hut : t = u
    · simp [hut, h, Stage.busy]
    · simpa [hut] using ht

theorem calling_of_busy (h : Run Step (.begin store world) es s)
    (ht : (s.stage t).busy = true) : ∃ earlier key, Calling es t earlier key := by
  induction h with
  | start => cases ht
  | @step es e v w _ hstep ih =>
    rcases hstep.busy ht with ⟨key, rfl⟩ | ⟨hv, he⟩
    · exact ⟨keys es, key, es, [], rfl, rfl, by simp⟩
    · obtain ⟨earlier, key, hcalling⟩ := ih hv
      exact ⟨earlier, key, hcalling.concat he⟩

/-- A signal that is pending was raised by a call, unless it was there at the start. -/
theorem raised_of_pending (h : Run Step (.begin store world) es s)
    (hc : store.keyChanged.pending = false) (hp : s.store.keyChanged.pending = true) :
    ∃ earlier key, Raised es earlier key := by
  induction h with
  | start => simp [State.begin, hc] at hp
  | @step es e v w hrun hstep ih =>
    rw [hstep.signals.pending, Bool.or_eq_true, Bool.and_eq_true, Bool.not_eq_true'] at hp
    rcases hp with ha | ⟨hv, he⟩
    · obtain ⟨t, rfl⟩ := Event.of_announces ha
      have hbusy : (v.stage t).busy = true := by rw [hstep.announced]; rfl
      obtain ⟨earlier, key, hcalling⟩ := calling_of_busy hrun hbusy
      exact ⟨earlier, key, t, es, [], rfl, hcalling, by simp⟩
    · obtain ⟨earlier, key, hraised⟩ := ih hv
      exact ⟨earlier, key, hraised.concat he⟩

theorem Step.received (h : Step s (.receive true) s') : s.store.keyChanged.pending = true := by
  generalize he : Event.receive true = e at h
  cases h with
  | receive => exact (Event.receive.inj he).symm
  | _ => cases he

/-- Every signal taken is that of a call, unless one was there at the start. -/
theorem exists_heard (hc : store.keyChanged.pending = false)
    (h : Run Step (.begin store world) (es ++ .receive true :: fs) s) :
    ∃ earlier key later, Raised es earlier key ∧
      Heard (es ++ .receive true :: fs) earlier key later := by
  obtain ⟨v, w, hv, hreceive, -⟩ := h.split_cons
  obtain ⟨earlier, key, hraised⟩ := raised_of_pending hv hc hreceive.received
  obtain ⟨t, cs, ds, hes, ⟨as, bs, hcs, hearlier, -⟩, -⟩ := id hraised
  refine ⟨earlier, key, keys (bs ++ ds ++ fs), hraised, es, fs, rfl, hraised, ?_⟩
  rw [hes, hcs, hearlier]
  simp [keys_append, keys_cons, Event.key?]

theorem Step.options (h : Step s e s') : s'.store.options = s.store.options := by
  cases h <;> rfl

theorem options_eq (h : Run Step (.begin store world) es s) : s.store.options = store.options :=
  h.keeps (P := fun s => s.store.options = store.options)
    (fun _ _ _ hs hstep => hstep.options.trans hs) rfl

/-- Who took the signal of a call finds its key or a later one. -/
theorem Heard.shows (hh : Heard es earlier key later) (h : Run Step (.begin store world) es s) :
    s.Shows es (key :: later) := by
  obtain ⟨gs, ds, hes, ⟨t, fs, cs, rfl, ⟨as, bs, rfl, rfl, -⟩, -⟩, hkeys⟩ := hh
  -- In their order: the store of the call, its announcement, and the signal taken.
  have hes : es = as ++ .store t key ::
      (bs ++ .announce t (.ok ()) :: (cs ++ .receive true :: ds)) := by
    simp [hes]
  subst hes
  have hlater : later = keys bs ++ (keys cs ++ keys ds) := by
    simpa [keys_append, keys_cons, Event.key?, eq_comm] using hkeys
  subst hlater
  refine ⟨?_, fun p hp hok => ?_⟩
  · simpa only [keys_append, keys_cons, Event.key?, Option.toList_none, List.nil_append] using
      bootstrapKey_of_stored h
  · rw [options_eq h] at hp
    obtain ⟨x, hfile, hx⟩ := file_of_announced hp h hok
    refine ⟨x, Snapshot.read_eq_loaded hfile, ?_⟩
    simpa only [keys_append, keys_cons, Event.key?, Option.toList_none, List.nil_append] using hx

/-! ### A single thread -/

theorem policy_eq (h : Run Step (.begin store world) es s) :
    s.store.keyChanged.policy = store.keyChanged.policy :=
  h.keeps (P := fun s => s.store.keyChanged.policy = store.keyChanged.policy)
    (fun _ _ _ hs hstep => hstep.signals.policy.trans hs) rfl

/-- On a channel that does not merge signals, what was announced was taken or is pending. -/
theorem announced_eq_taken {name : String} {ns : ℕ}
    (hc : store.keyChanged = .make name (.block ns)) (h : Run Step (.begin store world) es s) :
    announced es = taken es + s.store.keyChanged.pending.toNat := by
  induction h with
  | start => simp [announced, taken, State.begin, hc, Channel.make]
  | @step es e v w hrun hstep ih =>
    have hpolicy : v.store.keyChanged.policy = .block ns := by
      rw [policy_eq hrun, hc]
      rfl
    have hslot := hstep.signals.slot ns hpolicy
    simp only [announced_append, announced_cons, announced_nil, taken_append, taken_cons, taken_nil]
    omega

theorem Step.idle (h : Step s (.store t key) s') : (s.stage t).busy = false := by
  cases h with
  | store h => rw [h]; rfl

theorem Alone.announcer (ha : Alone t es) (h : Run Step (.begin store world) es s)
    {r : Except SendFault Unit} (hu : .announce u r ∈ es) : u = t := by
  obtain ⟨fs, gs, rfl⟩ := List.append_of_mem hu
  obtain ⟨v, w, hv, hstep, -⟩ := h.split_cons
  have hbusy : (v.stage u).busy = true := by rw [hstep.announced]; rfl
  obtain ⟨earlier, key, hcalling⟩ := calling_of_busy hv hbusy
  exact ha.stores u key (List.mem_append_left _ hcalling.mem)

/-- A call is under way from the store of its key to its announcement. -/
theorem Step.calls (h : Step s e s') (hstore : ∀ u key, e = .store u key → u = t)
    (hannounce : ∀ u r, e = .announce u r → u = t ∧ r = .ok ()) :
    e.key?.toList.length + (s.stage t).busy.toNat =
      e.announces.toNat + (s'.stage t).busy.toNat := by
  cases h with
  | receive => rfl
  | @store u h key =>
    obtain rfl := hstore _ _ rfl
    simp [h, Stage.busy, Event.key?, Event.announces]
  | @announce u h =>
    obtain ⟨rfl, hok⟩ := hannounce _ _ rfl
    simp [h, hok, Stage.busy, Event.key?, Event.announces]
  | @skip u h | @lock u h | @read u _ _ _ h | @write u _ h | @unlock u h =>
    by_cases hut : t = u
    · simp [hut, h, Stage.busy, Event.key?, Event.announces]
    · simp [hut, Event.key?, Event.announces]

/-- A thread in no call has announced every key it stored, if it is the only one. -/
theorem length_keys (ha : Alone t es) (h : Run Step (.begin store world) es s) :
    (keys es).length = announced es + (s.stage t).busy.toNat := by
  induction h with
  | start => rfl
  | @step es e v w hrun hstep ih =>
    have hcalls := hstep.calls (t := t) (fun u key hu => ha.stores u key (by simp [hu]))
      fun u r hu => ⟨ha.announcer (r := r) (hrun.step hstep) (by simp [hu]),
        ha.announces u r (by simp [hu])⟩
    have hlength := ih (ha.mono (List.subset_append_left ..))
    simp only [announced_append, announced_cons, announced_nil, keys_concat, List.length_append]
    omega

/-- As many signals were taken before the one that is pending as keys were stored before its own. -/
theorem Raised.length_earlier {name : String} {ns : ℕ} (hr : Raised es earlier key)
    (ha : Alone t es) (hc : store.keyChanged = .make name (.block ns))
    (h : Run Step (.begin store world) es s) : earlier.length = taken es := by
  obtain ⟨u, fs, gs, rfl, ⟨as, bs, rfl, rfl, hbs⟩, hgs⟩ := hr
  obtain ⟨v, w, hv, hannounce, -⟩ := h.split_cons
  obtain ⟨v', w', hv', hstore, -⟩ := hv.split_cons
  obtain rfl : u = t := ha.stores u key (by simp)
  -- The thread announced all that it stored before, and in the call nothing yet.
  have hkeys : (keys as).length = announced as := by
    have hlength := length_keys (ha.mono (by simp)) hv'
    rwa [hstore.idle] at hlength
  have hnone : announced bs = 0 := by
    refine List.countP_eq_zero.2 fun e he hae => ?_
    obtain ⟨x, rfl⟩ := Event.of_announces hae
    obtain rfl : x = u := ha.announcer (r := .ok ()) h (by simp [he])
    exact hbs _ he
  -- So the signal is one more than were taken, and none was taken since.
  have hsignals := announced_eq_taken hc (hv.step hannounce)
  have hpending : w.store.keyChanged.pending = true := by
    rw [hannounce.signals.pending]
    rfl
  have hafter : taken gs = 0 := by
    refine List.countP_eq_zero.2 fun e he hte => ?_
    obtain rfl := Event.of_takes hte
    exact hgs he
  simp only [announced_append, announced_cons, announced_nil, taken_append, taken_cons, taken_nil,
    Event.announces, Event.takes, Bool.toNat_true, Bool.toNat_false, hpending, hnone] at hsignals
  simp only [taken_append, taken_cons, Event.takes, Bool.toNat_false, hafter, hkeys]
  omega

/-- Who took the signal of a call finds the key of this call or a later one, in memory and, if all
saves went well, in the file. A single thread whose calls all announce, on a channel that is empty
at the start and does not merge signals, raises them in the order of its keys: who took one finds
the key at its place or a later one. -/
theorem listener_sees_key (h : Run Step (.begin store world) es s) :
    (∀ earlier key later, Heard es earlier key later → s.Shows es (key :: later)) ∧
      ∀ name ns t, store.keyChanged = .make name (.block ns) → Alone t es →
        ∀ fs gs, es = fs ++ .receive true :: gs →
          s.Shows es ((keys es).drop (taken fs)) ∧
            ∃ key later, Heard es ((keys es).take (taken fs)) key later := by
  refine ⟨fun earlier key later hh => hh.shows h, ?_⟩
  intro name ns t hc ha fs gs hes
  subst hes
  obtain ⟨v, w, hv, -, -⟩ := h.split_cons
  obtain ⟨earlier, key, later, hraised, hheard⟩ := exists_heard (by rw [hc]; rfl) h
  have hlength := hraised.length_earlier (ha.mono (by simp)) hc hv
  obtain ⟨-, -, -, -, hkeys⟩ := id hheard
  rw [hkeys, ← hlength, List.drop_left, List.take_left]
  exact ⟨hheard.shows h, key, later, hheard⟩

def overtaken : List (Event Bool) :=
  .store false "a" :: saving false (.ok ()) (.ok ()) ++ [.store false "b", .receive true]

/-- The listener finds the later key in memory, and the first in the file. -/
theorem listener_sees_key_later : ∃ s : State Bool,
    Run Step (.begin savingStore emptyWorld) overtaken s ∧ AllSaved overtaken ∧
      Alone false overtaken ∧ Heard overtaken [] "a" ["b"] ∧ s.Shows overtaken ["a", "b"] ∧
      s.Shows overtaken ((keys overtaken).drop 0) ∧ s.store.identity.bootstrapKey = "b" ∧
      ∃ x, Snapshot.read s.world.files (Path.ofString "node.yml") = .ok (.loaded x) ∧
        x.bootstrapKey = "a" := by
  have hp : savingStore.options.snapshotPath = some (Path.ofString "node.yml") := by decide
  obtain ⟨f, hf, -⟩ := Snapshot.exists_write replaceable_empty (savingStore.setKey "a").identity
  have hstore := Run.one (s := State.begin savingStore emptyWorld)
    (Step.store (t := false) rfl "a")
  have hsaved := hstore.trans (run_saving (t := false) hp (by simp) rfl hf)
  have hagain := hsaved.step (Step.store (t := false) (by simp) "b")
  have htaken := hagain.step .receive
  have hok : AllSaved overtaken := by
    intro t r h
    have hr : t = false ∧ r = .ok () := by simpa [overtaken, saving] using h
    exact hr.2
  have halone : Alone false overtaken := by
    constructor
    · intro u key h
      have hu : u = false ∧ key = "a" ∨ u = false ∧ key = "b" := by
        simpa [overtaken, saving] using h
      exact hu.elim And.left And.left
    · intro u r h
      have hr : u = false ∧ r = .ok () := by simpa [overtaken, saving] using h
      exact hr.2
  have hcalling : Calling (.store false "a" :: .lock false :: Field.all.map (.read false) ++
      [.write false (.ok ()), .unlock false]) false [] "a" := ⟨[], _, rfl, rfl, by simp⟩
  have hheard : Heard overtaken [] "a" ["b"] :=
    ⟨.store false "a" :: saving false (.ok ()) (.ok ()) ++ [.store false "b"], [], rfl,
      ⟨false, _, [.store false "b"], by simp [saving], hcalling, by simp⟩, rfl⟩
  have hsees := listener_sees_key htaken
  exact ⟨_, htaken, hok, halone, hheard, hsees.1 [] "a" ["b"] hheard,
    (hsees.2 "bootstrap_key" 0 false rfl halone _ [] rfl).1, rfl, _,
    Snapshot.read_eq_loaded (Snapshot.read_write hf), rfl⟩

end Rotation

end NodeConfig
