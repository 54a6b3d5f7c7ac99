import Mathlib
import NodeConfig.Store
import NodeConfig.Proofs.Identity
import NodeConfig.Proofs.Run
import NodeConfig.Proofs.Store.Persistence

namespace NodeConfig

namespace Rotation

variable {ι : Type}

inductive Stage where
  | idle
  /-- The key is stored; the save is to come. -/
  | stored
  | reading (left : List Field) (copied : Identity)
  /-- The file was replaced, or could not be; the lock is held. -/
  | written
  | saved

def Stage.holds : Stage → Bool
  | .reading _ _ => true
  | .written => true
  | _ => false

structure State (ι : Type) where
  store : Store
  world : World
  lock : Option ι
  stage : ι → Stage

inductive Event (ι : Type) where
  | store (t : ι) (key : String)
  | skip (t : ι)
  | lock (t : ι)
  | read (t : ι) (f : Field)
  | write (t : ι) (result : Except ConfigFault Unit)
  | unlock (t : ι)
  | announce (t : ι) (result : Except SendFault Unit)
  | receive (taken : Bool)

def State.quiet (s : State ι) : Prop := ∀ t, s.stage t = .idle

def State.begin (store : Store) (world : World) : State ι := ⟨store, world, none, fun _ => .idle⟩

def Event.key? : Event ι → Option String
  | .store _ key => some key
  | _ => none

def keys (es : List (Event ι)) : List String := es.filterMap Event.key?

theorem keys_append (es fs : List (Event ι)) : keys (es ++ fs) = keys es ++ keys fs :=
  List.filterMap_append

theorem keys_cons (e : Event ι) (es : List (Event ι)) :
    keys (e :: es) = e.key?.toList ++ keys es := by
  cases h : e.key? <;> simp [keys, h]

theorem keys_concat (es : List (Event ι)) (e : Event ι) :
    keys (es ++ [e]) = keys es ++ e.key?.toList := by
  cases h : e.key? <;> simp [keys, h]

variable [DecidableEq ι]

/-- One step of a thread, or of somebody who receives announcements. -/
inductive Step (s : State ι) : Event ι → State ι → Prop
  | store {t : ι} (h : s.stage t = .idle) (key : String) :
      Step s (.store t key)
        { s with store := s.store.setKey key, stage := Function.update s.stage t .stored }
  | skip {t : ι} (h : s.stage t = .stored) (hp : s.store.options.snapshotPath = none) :
      Step s (.skip t) { s with stage := Function.update s.stage t .saved }
  | lock {t : ι} (h : s.stage t = .stored) {p : Path} (hp : s.store.options.snapshotPath = some p)
      (hlock : s.lock = none) :
      Step s (.lock t)
        { s with lock := some t, stage := Function.update s.stage t (.reading Field.all .empty) }
  | read {t : ι} {f : Field} {left : List Field} {x : Identity}
      (h : s.stage t = .reading (f :: left) x) :
      Step s (.read t f)
        { s with stage := Function.update s.stage t (.reading left (s.store.identity.copy x f)) }
  | write {t : ι} {x : Identity} (h : s.stage t = .reading [] x) {p : Path}
      (hp : s.store.options.snapshotPath = some p) {f : Files} {r : Except ConfigFault Unit}
      (hw : Snapshot.write s.world.files p x = (f, r)) :
      Step s (.write t r)
        { s with
          world := { s.world with files := f }
          stage := Function.update s.stage t .written }
  | unlock {t : ι} (h : s.stage t = .written) :
      Step s (.unlock t) { s with lock := none, stage := Function.update s.stage t .saved }
  | announce {t : ι} (h : s.stage t = .saved) :
      Step s (.announce t (s.store.reloadKey s.world).result)
        { s with
          store := (s.store.reloadKey s.world).store
          stage := Function.update s.stage t .idle }
  | receive :
      Step s (.receive s.store.keyChanged.receive.1)
        { s with store := { s.store with keyChanged := s.store.keyChanged.receive.2 } }

def AllSaved (es : List (Event ι)) : Prop := ∀ t r, .write t r ∈ es → r = .ok ()

omit [DecidableEq ι] in
theorem AllSaved.mono {es fs : List (Event ι)} (h : AllSaved es) (hfs : fs ⊆ es) : AllSaved fs :=
  fun t r hr => h t r (hfs hr)

omit [DecidableEq ι] in
theorem AllSaved.of_mem {es : List (Event ι)} (h : AllSaved es) {e : Event ι} (he : e ∈ es) (t : ι)
    (r : Except ConfigFault Unit) (hr : e = .write t r) : r = .ok () :=
  h t r (hr ▸ he)

variable {p : Path} {s s' : State ι} {t : ι}

/-- What the steps of a run keep as keys are stored holds after it. -/
theorem run_keeps {P : List String → State ι → Prop} {es : List (Event ι)}
    (hstep : ∀ ks s e s', e ∈ es → P ks s → Step s e s' → P (ks ++ e.key?.toList) s')
    (hrun : Run Step s es s') {ks : List String} (hs : P ks s) : P (ks ++ keys es) s' := by
  induction hrun with
  | start => simpa [keys] using hs
  | step _ hlast ih =>
    rw [keys_concat, ← List.append_assoc]
    refine hstep _ _ _ _ (by simp) (ih fun ks s e s' he => ?_) hlast
    exact hstep ks s e s' (List.mem_append_left _ he)

theorem run_reads (fs : List Field) (y : Identity) (h : s.stage t = .reading fs y) :
    Run Step s (fs.map (.read t))
      { s with
        stage := Function.update s.stage t (.reading [] (fs.foldl s.store.identity.copy y)) } := by
  induction fs generalizing s y with
  | nil =>
    rw [List.foldl_nil, ← h, Function.update_eq_self]
    exact .start
  | cons f fs ih =>
    have hrest := ih (s := { s with
      stage := Function.update s.stage t (.reading fs (s.store.identity.copy y f)) })
      (s.store.identity.copy y f) (by simp)
    simp only [Function.update_idem] at hrest
    exact (Run.one (Step.read h)).trans hrest

def saving (t : ι) (saved : Except ConfigFault Unit) (announced : Except SendFault Unit) :
    List (Event ι) :=
  .lock t :: Field.all.map (.read t) ++ [.write t saved, .unlock t, .announce t announced]

theorem run_saving (hp : s.store.options.snapshotPath = some p) (ht : s.stage t = .stored)
    (hlock : s.lock = none) {f : Files} {r : Except ConfigFault Unit}
    (hw : Snapshot.write s.world.files p s.store.identity = (f, r)) :
    Run Step s (saving t r (s.store.reloadKey s.world).result)
      { s with
        store := (s.store.reloadKey s.world).store
        world := { s.world with files := f }
        stage := Function.update s.stage t .idle } := by
  have hlocked := Run.one (Step.lock ht hp hlock)
  have hread := hlocked.trans (run_reads (t := t) Field.all .empty (by simp))
  simp only [Identity.foldl_copy_all, Function.update_idem] at hread
  have hwritten := hread.step (Step.write (s := { s with
    lock := some t
    stage := Function.update s.stage t (.reading [] s.store.identity) })
    (Function.update_self ..) hp hw)
  have hunlocked := hwritten.step (.unlock (t := t) (by simp))
  have hannounced := hunlocked.step (.announce (t := t) (by simp))
  simp only [Function.update_idem, List.append_assoc] at hannounced
  simp only [saving]
  rw [hlock]
  exact hannounced

end Rotation

end NodeConfig
