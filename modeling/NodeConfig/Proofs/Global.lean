import Mathlib
import NodeConfig.Global
import NodeConfig.Proofs.Run
import NodeConfig.Proofs.Session.Counters

namespace NodeConfig

/-- All callers get what is in the place, or what the first of them made. -/
theorem Once.getAll_cons {α : Type} (o : Once α) (a : α) (rest : List α) :
    o.getAll (a :: rest) =
      (List.replicate (rest.length + 1) (o.value.getD a), ⟨some (o.value.getD a)⟩) := by
  induction rest generalizing o a with
  | nil =>
    obtain ⟨_ | b⟩ := o <;> rfl
  | cons b rest ih =>
    rw [getAll]
    obtain ⟨_ | c⟩ := o
    · simp [Once.get, ih, List.replicate_succ]
    · simp [Once.get, ih, List.replicate_succ]

theorem Watch.sameChannel_iff {a b : Watch} :
    a.sameChannel b = true ↔ a.store = b.store ∧ a.channel = b.channel := by
  obtain ⟨i, c⟩ := a
  obtain ⟨j, d⟩ := b
  simp [Watch.sameChannel]

theorem Session.lt_length_add (t : Session) (timeout : ℕ) :
    t.stores.length < (t.add timeout).stores.length := by
  simp [add]

namespace Program

inductive Event where
  | shared (timeout? : Option ℕ) (i : ℕ)
  | made (timeout i : ℕ)
  | acted (i : ℕ) (a : Action)

inductive Step : Program → Event → Program → Prop
  | share (g : Program) (timeout? : Option ℕ) :
      Step g (.shared timeout? (g.share (timeout?.getD Store.defaultTimeout)).1)
        (g.share (timeout?.getD Store.defaultTimeout)).2
  | make (g : Program) (timeout : ℕ) :
      Step g (.made timeout g.session.stores.length) { g with session := g.session.add timeout }
  | act (g : Program) (i : ℕ) (a : Action) :
      Step g (.acted i a) { g with session := (g.session.perform i a).2.2 }

/-- The timeouts that callers of the shared store named, or had instead. -/
def timeouts (es : List Event) : List ℕ :=
  es.filterMap fun e =>
    match e with
    | .shared timeout? _ => some (timeout?.getD Store.defaultTimeout)
    | _ => none

/-- The channels of a store are those it was made with. -/
def WiredFor (s : Store) (timeout : ℕ) : Prop :=
  s.Wired ∧ s.keyChanged.policy = .block timeout

/-- One store is shared after these events, with the timeout of the first who asked for it. -/
structure Shares (es : List Event) (g : Program) (i : ℕ) : Prop where
  value : g.shared.value = some i
  got : ∀ timeout? j, .shared timeout? j ∈ es → j = i
  apart : ∀ timeout j, .made timeout j ∈ es → j ≠ i
  store : ∃ s timeout, (timeouts es).head? = some timeout ∧ g.session.stores[i]? = some s ∧
    WiredFor s timeout

structure Inv (es : List Event) (g : Program) : Prop where
  numbered : ∀ timeout j, .made timeout j ∈ es → j < g.session.stores.length
  shared : (g.shared.value = none ∧ timeouts es = []) ∨ ∃ i, Shares es g i

variable {g g' : Program} {es : List Event} {e : Event} {i j : ℕ}

theorem wiredFor_make (timeout : ℕ) : WiredFor (Store.make timeout) timeout :=
  ⟨Store.wired_make timeout, rfl⟩

theorem wiredFor_act {timeout : ℕ} {s : Store} (h : WiredFor s timeout) (t : Session) (a : Action) :
    WiredFor (t.act s a).store timeout :=
  ⟨Session.wired_act t h.1 a, by rw [Session.keyChanged_act]; exact h.2⟩

theorem timeouts_concat (es : List Event) (e : Event) :
    timeouts (es ++ [e]) = timeouts es ++ timeouts [e] := List.filterMap_append

theorem notMem_of_timeouts (h : timeouts es = []) (timeout? : Option ℕ) (j : ℕ) :
    .shared timeout? j ∉ es := by
  intro hmem
  have hnone := List.filterMap_eq_nil_iff.1 h _ hmem
  cases hnone

theorem Shares.lt (h : Shares es g i) : i < g.session.stores.length := by
  obtain ⟨s, timeout, -, hi, -⟩ := h.store
  exact (List.getElem?_eq_some_iff.1 hi).1

theorem Shares.timeouts_concat (h : Shares es g i) (e : Event) :
    (timeouts (es ++ [e])).head? = (timeouts es).head? := by
  obtain ⟨s, timeout, htimeout, -, -⟩ := h.store
  rw [Program.timeouts_concat, List.head?_append, htimeout]
  rfl

theorem share_of_some (h : g.shared.value = some i) (timeout : ℕ) : g.share timeout = (i, g) := by
  obtain ⟨session, ⟨value⟩⟩ := g
  cases h
  rfl

theorem share_of_none (h : g.shared.value = none) (timeout : ℕ) : g.share timeout =
    (g.session.stores.length, ⟨g.session.add timeout, ⟨some g.session.stores.length⟩⟩) := by
  obtain ⟨session, ⟨value⟩⟩ := g
  cases h
  rfl

/-- An event by which nobody gets another store, and after which the shared one is wired as it was,
leaves it shared. -/
theorem Shares.keeps (h : Shares es g i) (hvalue : g'.shared.value = g.shared.value)
    (hgot : ∀ timeout? j, e = .shared timeout? j → j = i)
    (hapart : ∀ timeout j, e = .made timeout j → j ≠ i)
    (hwired : ∀ s timeout, g.session.stores[i]? = some s → WiredFor s timeout →
      ∃ s', g'.session.stores[i]? = some s' ∧ WiredFor s' timeout) : Shares (es ++ [e]) g' i where
  value := hvalue.trans h.value
  got timeout? j hj := by
    obtain hj | hj := List.mem_append.1 hj
    · exact h.got timeout? j hj
    · exact hgot timeout? j (List.mem_singleton.1 hj).symm
  apart timeout j hj := by
    obtain hj | hj := List.mem_append.1 hj
    · exact h.apart timeout j hj
    · exact hapart timeout j (List.mem_singleton.1 hj).symm
  store := by
    obtain ⟨s, timeout, hfirst, hstore, hs⟩ := h.store
    obtain ⟨s', hstore', hs'⟩ := hwired s timeout hstore hs
    exact ⟨s', timeout, (h.timeouts_concat e).trans hfirst, hstore', hs'⟩

theorem Inv.share_step (hi : Inv es g) (timeout? : Option ℕ) :
    Inv (es ++ [.shared timeout? (g.share (timeout?.getD Store.defaultTimeout)).1])
      (g.share (timeout?.getD Store.defaultTimeout)).2 := by
  obtain ⟨hnone, hno⟩ | ⟨i, hs⟩ := hi.shared
  · rw [share_of_none hnone]
    constructor
    case numbered =>
      intro timeout j hj
      have hlt := hi.numbered timeout j (by simpa using hj)
      exact hlt.trans (g.session.lt_length_add _)
    case shared =>
      refine .inr ⟨g.session.stores.length, rfl, ?_, ?_, ?_⟩
      · intro u j hj
        obtain hj | hj := List.mem_append.1 hj
        · exact absurd hj (notMem_of_timeouts hno u j)
        · cases List.mem_singleton.1 hj
          rfl
      · intro timeout j hj
        exact (hi.numbered timeout j (by simpa using hj)).ne
      · refine ⟨.make (timeout?.getD Store.defaultTimeout), _, ?_, ?_, wiredFor_make _⟩
        · rw [timeouts_concat, hno]
          rfl
        · simp [Session.add]
  · rw [share_of_some hs.value]
    refine ⟨fun timeout j hj => hi.numbered timeout j (by simpa using hj), .inr ⟨i, ?_⟩⟩
    refine hs.keeps rfl ?_ (by simp) fun s _ hstore hwired => ⟨s, hstore, hwired⟩
    rintro u j ⟨⟩
    rfl

theorem Inv.make_step (hi : Inv es g) (timeout : ℕ) :
    Inv (es ++ [.made timeout g.session.stores.length])
      { g with session := g.session.add timeout } := by
  constructor
  case numbered =>
    intro u j hj
    obtain hj | hj := List.mem_append.1 hj
    · exact (hi.numbered u j hj).trans (g.session.lt_length_add timeout)
    · cases List.mem_singleton.1 hj
      exact g.session.lt_length_add timeout
  case shared =>
    refine hi.shared.imp (fun ⟨hnone, hno⟩ => ⟨hnone, ?_⟩) fun ⟨i, hs⟩ => ⟨i, ?_⟩
    · rw [timeouts_concat, hno]
      rfl
    · refine hs.keeps rfl (by simp) ?_ fun s _ hstore hwired =>
        ⟨s, (List.getElem?_append_left hs.lt).trans hstore, hwired⟩
      rintro u j ⟨⟩
      exact hs.lt.ne'

theorem Inv.act_step (hi : Inv es g) (j : ℕ) (a : Action) :
    Inv (es ++ [.acted j a]) { g with session := (g.session.perform j a).2.2 } := by
  constructor
  case numbered =>
    intro timeout i hmem
    rw [g.session.length_perform]
    exact hi.numbered timeout i (by simpa using hmem)
  case shared =>
    refine hi.shared.imp (fun ⟨hnone, hno⟩ => ⟨hnone, ?_⟩) fun ⟨i, hs⟩ => ⟨i, ?_⟩
    · rw [timeouts_concat, hno]
      rfl
    · refine hs.keeps rfl (by simp) (by simp) fun s timeout hstore hwired =>
        ⟨_, Session.getElem?_perform hstore j a, ?_⟩
      split
      · exact wiredFor_act hwired g.session a
      · exact hwired

theorem Inv.step (hi : Inv es g) (h : Step g e g') : Inv (es ++ [e]) g' := by
  cases h with
  | share timeout? => exact hi.share_step timeout?
  | make timeout => exact hi.make_step timeout
  | act j a => exact hi.act_step j a

theorem inv_of_run {w : World} (h : Run Step (begin w) es g) : Inv es g := by
  induction h with
  | start => exact ⟨by simp, .inl ⟨rfl, rfl⟩⟩
  | step _ hstep ih => exact ih.step hstep

/-- Whoever asks for the shared store, whenever and with whatever timeout, watches the same two
channels, and nobody who made a store watches one of them. Whatever has been done to the store, its
senders wait as long as the first of those callers said. -/
theorem one_shared_store {w : World} (h : Run Step (begin w) es g) {timeout? : Option ℕ}
    (hi : .shared timeout? i ∈ es) :
    (∀ u j c d, .shared u j ∈ es →
      ((⟨i, c⟩ : Watch).sameChannel ⟨j, d⟩ = true ↔ c = d)) ∧
    (∀ u j c d, .made u j ∈ es → (⟨i, c⟩ : Watch).sameChannel ⟨j, d⟩ = false) ∧
    ∃ s timeout, (timeouts es).head? = some timeout ∧ g.session.stores[i]? = some s ∧ s.Wired ∧
      s.keyChanged.policy = .block timeout := by
  obtain ⟨-, hno⟩ | ⟨k, hs⟩ := (inv_of_run h).shared
  · exact absurd hi (notMem_of_timeouts hno timeout? i)
  obtain rfl := hs.got timeout? i hi
  refine ⟨fun u j c d hj => ?_, fun u j c d hj => ?_, hs.store⟩
  · rw [Watch.sameChannel_iff, hs.got u j hj]
    exact and_iff_right rfl
  · rw [Bool.eq_false_iff, ne_eq, Watch.sameChannel_iff]
    exact fun hsame => hs.apart u j hj hsame.1.symm

end Program

end NodeConfig
