import Mathlib
import NodeConfig.Proofs.Store.Persistence
import NodeConfig.Session

namespace NodeConfig

/-- A save that ended well: where its path led, the path that was installed, and the identity that
was in memory. -/
structure Saved where
  location : Location
  path : Path
  identity : Identity

def Saved.content (d : Saved) : Bytes := Utf8.ofString (Snapshot.text d.path d.identity)

def lastAt (l : Location) (ds : List Saved) : Option Saved := (ds.filter (·.location = l)).getLast?

/-- What saves leave at a location: what the last of them wrote there, if there is one. -/
def entryAfter (f : Files) (ds : List Saved) (l : Location) : Option Entry :=
  match lastAt l ds with
  | some d => some (.file d.content)
  | none => f.get? l

theorem entryAfter_append {f g : Files} {ds es : List Saved} {l : Location}
    (h : g.get? l = entryAfter f ds l) : entryAfter g es l = entryAfter f (ds ++ es) l := by
  simp only [entryAfter, lastAt, List.filter_append, List.getLast?_append] at h ⊢
  cases (es.filter (·.location = l)).getLast? with
  | none => simpa using h
  | some d => simp

namespace Store

variable {s : Store} {w : World}

/-- The save of a store, if it ends well. Without a path nothing is saved. -/
def saved? (s : Store) (w : World) : Option Saved :=
  match s.options.snapshotPath, s.save w with
  | some p, ⟨.ok (), _, after, _⟩ => (after.files.locate p).toOption.map (⟨·, p, s.identity⟩)
  | _, _ => none

/-- After a save the files are as it left them, and it left another entry than before only where
its path led. -/
theorem get?_save (s : Store) (w : World) (l : Location) :
    (s.save w).world.files.get? l = entryAfter w.files (s.saved? w).toList l := by
  obtain ⟨hp, hsave⟩ | ⟨p, hp, ⟨-, e, hsave⟩ | ⟨d, t, name, hr, event, -, hsave⟩⟩ := s.save_cases w
  · simp [saved?, hp, hsave, entryAfter, lastAt]
  · simp [saved?, hp, hsave, entryAfter, lastAt]
  · have hsaved : s.saved? w = some ⟨t.location, p, s.identity⟩ := by
      simp only [saved?, hp, hsave, hr.locate_replaced]
      rfl
    rw [hsave, hsaved, hr.get?_replaced]
    by_cases hl : l = t.location
    · simp [hl, entryAfter, lastAt, Saved.content]
    · simp [hl, Ne.symm hl, entryAfter, lastAt]

/-- A save that ends well with a path is counted as such. -/
theorem isSome_saved? (s : Store) (w : World) :
    (s.saved? w).isSome ↔ .save true ∈ (s.save w).report.counts := by
  obtain ⟨hp, hsave⟩ | ⟨p, hp, ⟨-, e, hsave⟩ | ⟨d, t, name, hr, event, -, hsave⟩⟩ := s.save_cases w
  · simp [saved?, hp, hsave, Report.nothing]
  · simp [saved?, hp, hsave, Report.count]
  · simp only [saved?, hp, hsave, hr.locate_replaced]
    simp [Except.toOption]

/-- Changing the key is storing it, saving, and announcing; how the save ends makes no difference to
the store. -/
theorem changeKey_eq (s : Store) (w : World) (key : String) :
    (s.changeKey w key).store = { s.setKey key with keyChanged := s.keyChanged.send.channel } ∧
      (s.changeKey w key).world = ((s.setKey key).save w).world ∧
      (s.changeKey w key).report.counts =
        ((s.setKey key).save w).report.counts ++ s.keyChanged.send.report.counts := by
  have hstore := (s.setKey key).store_save w
  simp only [changeKey, reloadKey, hstore, Report.counts_append, List.append_nil, true_and]
  exact ⟨rfl, rfl⟩

end Store

/-- A send counts how it ended, and nothing else. -/
theorem Channel.counts_send (c : Channel) :
    c.send.report.counts = [.send c.name (counted c.send.result)] := by
  cases hp : c.policy <;> cases hpending : c.pending <;>
    simp [send, sendWithin, coalesce, hp, hpending]

def Action.saves : Action → Bool
  | .save => true
  | .changeKey _ => true
  | _ => false

namespace Session

variable {t : Session} {i : ℕ} {a : Action} {s : Store}

/-- The save of an action, if it ends well. A change of the key stores the key before it saves. -/
def saved? (t : Session) (i : ℕ) (a : Action) : Option Saved :=
  match t.stores[i]?, a with
  | some s, .save => s.saved? t.world
  | some s, .changeKey key => (s.setKey key).saved? t.world
  | _, _ => none

def saves (t : Session) : List (ℕ × Action) → List Saved
  | [] => []
  | (i, a) :: rest => (t.saved? i a).toList ++ (t.perform i a).2.2.saves rest

theorem perform_of_some (h : t.stores[i]? = some s) (a : Action) :
    t.perform i a = ((t.act s a).result, (t.act s a).report,
      ⟨t.stores.set i (t.act s a).store, (t.act s a).world⟩) := by
  simp only [perform, h]

theorem perform_of_none (h : t.stores[i]? = none) (a : Action) :
    t.perform i a = (.done, .nothing, t) := by
  simp only [perform, h]

/-- An action on one store leaves the others, and how many there are. -/
theorem getElem?_perform (hi : t.stores[i]? = some s) (j : ℕ) (a : Action) :
    (t.perform j a).2.2.stores[i]? = some (if j = i then (t.act s a).store else s) := by
  by_cases hji : j = i
  · subst hji
    rw [perform_of_some hi, if_pos rfl]
    exact List.getElem?_set_self (List.getElem?_eq_some_iff.1 hi).1
  · rw [if_neg hji]
    cases hj : t.stores[j]? with
    | none => rwa [perform_of_none hj]
    | some r =>
      rw [perform_of_some hj]
      exact (List.getElem?_set_ne hji).trans hi

theorem length_perform (t : Session) (j : ℕ) (a : Action) :
    (t.perform j a).2.2.stores.length = t.stores.length := by
  cases hj : t.stores[j]? with
  | none => rw [perform_of_none hj]
  | some r => rw [perform_of_some hj, List.length_set]

theorem saved?_of_not_saves (h : a.saves = false) : t.saved? i a = none := by
  cases a with
  | save => cases h
  | changeKey => cases h
  | _ => cases hs : t.stores[i]? <;> simp [saved?, hs]

/-- An action that does not save leaves the files alone. -/
theorem act_of_not_saves (t : Session) (s : Store) (h : a.saves = false) :
    (t.act s a).world.files = t.world.files ∧ .save true ∉ (t.act s a).report.counts := by
  cases a with
  | save => cases h
  | changeKey => cases h
  | load schema host port =>
    refine ⟨?_, fun hmem => ?_⟩
    · obtain ⟨fault, -, hload⟩ | ⟨base, hbase, ⟨p, fault, -, -, hload⟩ | ⟨x, hx, -⟩⟩ :=
        s.load_cases t.world schema host port
      · simp [act, Step.map, hload]
      · simp [act, Step.map, hload]
      · simp [act, Step.map, (Store.loaded_of_kept hbase hx host port).files]
    · obtain ⟨source, hsource⟩ := (s.report_load t.world schema host port).1 _ hmem
      cases hsource
  | applyDefaults =>
    have hcounts := (s.identity.report_withDefaults t.world.names).1
    simp [act, hcounts]
  | reloadKey =>
    have hcounts := s.keyChanged.counts_send
    simp [act, Step.map, Store.reloadKey, hcounts]
  | requestRestart =>
    have hcounts := s.restart.counts_send
    simp [act, Step.map, Store.requestRestart, hcounts]
  | tryAnnounce =>
    simp only [act, Channel.trySend]
    split <;> simp
  | _ => exact ⟨rfl, List.not_mem_nil⟩

/-- What an action leaves in the files is what its save wrote. -/
theorem get?_perform (t : Session) (i : ℕ) (a : Action) (l : Location) :
    (t.perform i a).2.2.world.files.get? l =
      entryAfter t.world.files (t.saved? i a).toList l := by
  cases h : t.stores[i]? with
  | none => simp [perform_of_none h, saved?, h, entryAfter, lastAt]
  | some s =>
    rw [perform_of_some h]
    cases ha : a.saves with
    | false =>
      rw [(t.act_of_not_saves s ha).1, saved?_of_not_saves ha]
      rfl
    | true =>
      cases a with
      | save => simpa [act, Step.map, saved?, h] using s.get?_save t.world l
      | changeKey key =>
        have hworld := (s.changeKey_eq t.world key).2.1
        simpa [act, Step.map, saved?, h, hworld] using (s.setKey key).get?_save t.world l
      | _ => cases ha

/-- The saves of a run are those that are counted as ended well. -/
theorem isSome_saved? (t : Session) (i : ℕ) (a : Action) :
    (t.saved? i a).isSome ↔ .save true ∈ (t.perform i a).2.1.counts := by
  cases h : t.stores[i]? with
  | none => simp [perform_of_none h, saved?, h]
  | some s =>
    rw [perform_of_some h]
    cases ha : a.saves with
    | false =>
      simp [(t.act_of_not_saves s ha).2, saved?_of_not_saves ha]
    | true =>
      cases a with
      | save => simpa [act, Step.map, saved?, h] using s.isSome_saved? t.world
      | changeKey key =>
        have hsend := s.keyChanged.counts_send
        have hcounts := (s.changeKey_eq t.world key).2.2
        simpa [act, Step.map, saved?, h, hcounts, hsend] using (s.setKey key).isSome_saved? t.world
      | _ => cases ha

/-- After a run each file is as the last save to it left it. -/
theorem get?_run (t : Session) (acts : List (ℕ × Action)) (l : Location) :
    (t.run acts).2.2.world.files.get? l = entryAfter t.world.files (t.saves acts) l := by
  induction acts generalizing t with
  | nil => rfl
  | cons act rest ih =>
    obtain ⟨i, a⟩ := act
    exact (ih (t.perform i a).2.2).trans (entryAfter_append (t.get?_perform i a l))

/-- A save leaves every store as it was. -/
theorem stores_save (t : Session) (i : ℕ) : (t.perform i .save).2.2.stores = t.stores := by
  cases h : t.stores[i]? with
  | none => rw [perform_of_none h]
  | some s =>
    obtain ⟨hi, rfl⟩ := List.getElem?_eq_some_iff.1 h
    rw [perform_of_some h]
    simp [act, Step.map, Store.store_save]

/-- A change of the key leaves the key and the announcement, whether it was saved or not. -/
theorem stores_changeKey (t : Session) (i : ℕ) (key : String) :
    (t.perform i (.changeKey key)).2.2.stores = t.stores.modify i fun s =>
      { s.setKey key with keyChanged := s.keyChanged.send.channel } := by
  rw [List.modify_eq_set_getElem?]
  cases h : t.stores[i]? with
  | none =>
    rw [perform_of_none h]
    rfl
  | some s =>
    rw [perform_of_some h]
    simp [act, Step.map, (s.changeKey_eq t.world key).1]

/-- Over every run of several stores each file holds what it held at the start, or what the last
save wrote that ended well and whose path led to it: the identity that was then in the memory of its
store, in the format of the path that was installed. So it is read under every path that leads to
the file. Actions other than a save and a change of the key leave the files alone; a save leaves the
stores alone, and within a change of the key it makes no difference to them. A save ends well
exactly if it is counted so. -/
theorem file_provenance (t : Session) (acts : List (ℕ × Action)) {u : Session}
    (hrun : (t.run acts).2.2 = u) :
    (∀ l, u.world.files.get? l = entryAfter t.world.files (t.saves acts) l) ∧
    (∀ p l d, u.world.files.locate p = .ok l → lastAt l (t.saves acts) = some d →
      u.world.files.read p = .ok d.content) ∧
    (∀ i a, a ≠ .save → (∀ key, a ≠ .changeKey key) →
      (u.perform i a).2.2.world.files = u.world.files) ∧
    (∀ i, (u.perform i .save).2.2.stores = u.stores) ∧
    (∀ i key, (u.perform i (.changeKey key)).2.2.stores = u.stores.modify i fun s =>
      { s.setKey key with keyChanged := s.keyChanged.send.channel }) ∧
    ∀ i a, (u.saved? i a).isSome ↔ .save true ∈ (u.perform i a).2.1.counts := by
  subst hrun
  refine ⟨t.get?_run acts, ?_, ?_, stores_save _, stores_changeKey _, isSome_saved? _⟩
  · intro p l d hlocate hlast
    have hget := t.get?_run acts l
    rw [entryAfter, hlast] at hget
    simp only [Files.read, hlocate, hget]
  · intro i a hsave hchange
    have ha : a.saves = false := by
      cases a with
      | save => exact absurd rfl hsave
      | changeKey key => exact absurd rfl (hchange key)
      | _ => rfl
    cases h : (t.run acts).2.2.stores[i]? with
    | none => rw [perform_of_none h]
    | some s =>
      rw [perform_of_some h]
      exact (act_of_not_saves _ s ha).1

def sharing : Session where
  stores := [
    { Store.keeping with identity := { name := "a" } },
    { Store.make 0 with
      options := { dataplaneConfig := some (Path.ofString "./node.toml") }
      identity := { name := "b" } }]
  world := ⟨.empty, .fresh fun n => ⟨n, 0, 0⟩⟩

def takingTurns : List (ℕ × Action) :=
  [(0, .save), (1, .save), (0, .install {} {}), (0, .changeKey "k")]

theorem file_provenance_sharing :
    (sharing.run takingTurns).2.2.world.files.read (Path.ofString "node.toml") =
        .ok (Utf8.ofString (Snapshot.text (Path.ofString "./node.toml") { name := "b" })) ∧
      (sharing.run takingTurns).2.2.world.files.get? [Path.ofString "elsewhere"] = none := by
  obtain ⟨hget, hread, -⟩ := file_provenance sharing takingTurns rfl
  refine ⟨?_, (hget _).trans rfl⟩
  have hlast : lastAt (Files.home ++ [Path.ofString "node.toml"]) (sharing.saves takingTurns) =
      some ⟨Files.home ++ [Path.ofString "node.toml"], Path.ofString "./node.toml",
        { name := "b" }⟩ := rfl
  have hlocate : (sharing.run takingTurns).2.2.world.files.locate (Path.ofString "node.toml") =
      .ok (Files.home ++ [Path.ofString "node.toml"]) := rfl
  have hcontent := hread _ _ _ hlocate hlast
  rwa [Saved.content] at hcontent

end Session

end NodeConfig
