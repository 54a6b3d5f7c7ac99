import Mathlib
import NodeConfig.Cell
import NodeConfig.Proofs.Run

namespace NodeConfig.Cell

variable {ι : Type}

inductive Call where
  | store (text : String)
  | swap (text : String)
  | load
  | storeIfEmpty (text : String)
  deriving DecidableEq

inductive Answer where
  | done
  | value (text : String)
  | wrote (b : Bool)
  deriving DecidableEq

def Call.perform (c : Cell String) : Call → Answer × Cell String
  | .store text => (.done, c.store text)
  | .swap text => (.value (c.swap text).1, (c.swap text).2)
  | .load => (.value c.value, c)
  | .storeIfEmpty text => (.wrote (c.storeIfEmpty text).1, (c.storeIfEmpty text).2)

abbrev Handle := ℕ

/-- Where a thread is in its call. The handle of its own text comes first, where it has one. -/
inductive Stage where
  | idle
  | called (call : Call)
  | storing (own : Handle)
  | swapping (own : Handle)
  /-- The handle of the cell is to be loaded. The flag is from the attempt before. -/
  | trying (own : Handle) (written : Bool)
  | looking (own seen : Handle) (written : Bool)
  | exchanging (own seen new : Handle) (written : Bool)
  | took (handle : Handle)
  | finished (answer : Answer)

def Stage.handles : Stage → List Handle
  | .idle | .called _ | .finished _ => []
  | .storing own | .swapping own | .trying own _ => [own]
  | .looking own seen _ => [own, seen]
  | .exchanging own seen new _ => [own, seen, new]
  | .took handle => [handle]

def Call.start (own : Handle) : Call → Option (String × Stage)
  | .store text => some (text, .storing own)
  | .swap text => some (text, .swapping own)
  | .load => none
  | .storeIfEmpty text => some (text, .trying own false)

structure State (ι : Type) where
  current : Handle
  /-- The texts of handles, with anything for those not in use. -/
  text : Handle → String
  stage : ι → Stage

namespace State

def begin (value : String) : State ι := ⟨0, fun _ => value, fun _ => .idle⟩

def cell (s : State ι) : Cell String := ⟨s.text s.current⟩

def InUse (s : State ι) (h : Handle) : Prop := h = s.current ∨ ∃ t, h ∈ (s.stage t).handles

variable [DecidableEq ι]

def move (s : State ι) (t : ι) (stage : Stage) : State ι :=
  { s with stage := Function.update s.stage t stage }

end State

inductive Mark where
  | call (call : Call)
  /-- The one step of a call that reaches the cell, and what the call is to answer then. -/
  | effect (call : Call) (answer : Answer)
  | inner
  | returned (answer : Answer)

structure Event (ι : Type) where
  thread : ι
  mark : Mark

variable [DecidableEq ι]

/-- A handle in use is not given to another text; one that nobody has any more may come again. -/
inductive Step (s : State ι) : Event ι → State ι → Prop
  | call {t : ι} (h : s.stage t = .idle) (call : Call) :
      Step s ⟨t, .call call⟩ (s.move t (.called call))
  | allocate {t : ι} {call : Call} (h : s.stage t = .called call) {own : Handle}
      (hown : ¬s.InUse own) {text : String} {next : Stage}
      (hstart : call.start own = some (text, next)) :
      Step s ⟨t, .inner⟩ { s.move t next with text := Function.update s.text own text }
  | store {t : ι} {own : Handle} (h : s.stage t = .storing own) :
      Step s ⟨t, .effect (.store (s.text own)) .done⟩
        { s.move t (.finished .done) with current := own }
  | swap {t : ι} {own : Handle} (h : s.stage t = .swapping own) :
      Step s ⟨t, .effect (.swap (s.text own)) (.value (s.text s.current))⟩
        { s.move t (.took s.current) with current := own }
  | load {t : ι} (h : s.stage t = .called .load) :
      Step s ⟨t, .effect .load (.value (s.text s.current))⟩ (s.move t (.took s.current))
  | attempt {t : ι} {own : Handle} {written : Bool} (h : s.stage t = .trying own written) :
      Step s ⟨t, .inner⟩ (s.move t (.looking own s.current written))
  | look {t : ι} {own seen : Handle} {written : Bool} (h : s.stage t = .looking own seen written) :
      Step s ⟨t, .inner⟩ (s.move t (if s.text seen = "" then .exchanging own seen own true
        else .exchanging own seen seen false))
  -- The cell still has the handle that was loaded, so nobody stored meanwhile.
  | exchange {t : ι} {own seen new : Handle} {written : Bool}
      (h : s.stage t = .exchanging own seen new written) (hseen : s.current = seen) :
      Step s ⟨t, .effect (.storeIfEmpty (s.text own)) (.wrote written)⟩
        { s.move t (.finished (.wrote written)) with current := new }
  | retry {t : ι} {own seen new : Handle} {written : Bool}
      (h : s.stage t = .exchanging own seen new written) (hseen : s.current ≠ seen) :
      Step s ⟨t, .inner⟩ (s.move t (.trying own written))
  | answer {t : ι} {handle : Handle} (h : s.stage t = .took handle) :
      Step s ⟨t, .returned (.value (s.text handle))⟩ (s.move t .idle)
  | finish {t : ι} {answer : Answer} (h : s.stage t = .finished answer) :
      Step s ⟨t, .returned answer⟩ (s.move t .idle)

variable {s : State ι} {t : ι}

omit [DecidableEq ι] in
/-- Finitely many threads leave a handle for a text. -/
theorem exists_not_inUse [Finite ι] (s : State ι) : ∃ h, ¬s.InUse h := by
  have hfinite : {h | s.InUse h}.Finite := by
    have heq : {h | s.InUse h} = {s.current} ∪ ⋃ t, {h | h ∈ (s.stage t).handles} := by
      ext h
      simp [State.InUse]
    rw [heq]
    exact (Set.finite_singleton _).union
      (Set.finite_iUnion fun t => List.finite_toSet (s.stage t).handles)
  exact hfinite.exists_notMem

def alone (t : ι) (n : ℕ) (call : Call) (answer : Answer) : List (Event ι) :=
  ⟨t, .call call⟩ :: (List.replicate n ⟨t, .inner⟩ ++
    [⟨t, .effect call answer⟩, ⟨t, .returned answer⟩])

/-- A call that no other thread disturbs is the cell's own. -/
theorem run_alone [Finite ι] (ht : s.stage t = .idle) (call : Call) : ∃ n s',
    Run Step s (alone t n call (call.perform s.cell).1) s' ∧
      s'.cell = (call.perform s.cell).2 ∧ s'.stage = s.stage := by
  obtain ⟨own, hown⟩ := exists_not_inUse (s.move t (.called call))
  have hcurrent : s.current ≠ own := fun h => hown (.inl h.symm)
  have hcalled := Run.one (Step.call ht call)
  have hidle : Function.update s.stage t .idle = s.stage := by
    rw [← ht, Function.update_eq_self]
  cases call with
  | load =>
    have heffect := hcalled.step (.load (t := t) (Function.update_self ..))
    have hanswer := heffect.step (.answer (t := t) (Function.update_self ..))
    exact ⟨0, _, hanswer, rfl, by simp [State.move, hidle]⟩
  | store text =>
    have hallocated := hcalled.step (.allocate (t := t) (Function.update_self ..) hown rfl)
    have heffect := hallocated.step (.store (t := t) (Function.update_self ..))
    have hanswer := heffect.step (.finish (t := t) (Function.update_self ..))
    simp only [Function.update_self] at hanswer
    exact ⟨1, _, hanswer, by simp [State.cell, State.move, Call.perform, Cell.store],
      by simp [State.move, hidle]⟩
  | swap text =>
    have hallocated := hcalled.step (.allocate (t := t) (Function.update_self ..) hown rfl)
    have heffect := hallocated.step (.swap (t := t) (Function.update_self ..))
    have hanswer := heffect.step (.answer (t := t) (Function.update_self ..))
    simp only [State.move, Function.update_self, Function.update_of_ne hcurrent] at hanswer
    exact ⟨1, _, hanswer, by simp [State.cell, Call.perform, Cell.swap], by simp [hidle]⟩
  | storeIfEmpty text =>
    have hallocated := hcalled.step (.allocate (t := t) (Function.update_self ..) hown rfl)
    have hlooked := (hallocated.step (.attempt (t := t) (Function.update_self ..))).step
      (.look (t := t) (Function.update_self ..))
    simp only [State.move, Function.update_of_ne hcurrent] at hlooked
    by_cases hempty : s.text s.current = ""
    · rw [if_pos hempty] at hlooked
      have heffect := hlooked.step (.exchange (t := t) (Function.update_self ..) rfl)
      have hanswer := heffect.step (.finish (t := t) (Function.update_self ..))
      simp only [State.move, Function.update_self] at hanswer
      have hperform : (Call.storeIfEmpty text).perform s.cell = (.wrote true, ⟨text⟩) := by
        simp [Call.perform, Cell.storeIfEmpty, isEmpty, State.cell, hempty]
      rw [hperform]
      exact ⟨3, _, hanswer, by simp [State.cell], by simp [hidle]⟩
    · rw [if_neg hempty] at hlooked
      have heffect := hlooked.step (.exchange (t := t) (Function.update_self ..) rfl)
      have hanswer := heffect.step (.finish (t := t) (Function.update_self ..))
      simp only [State.move, Function.update_self] at hanswer
      have hperform : (Call.storeIfEmpty text).perform s.cell = (.wrote false, s.cell) := by
        simp [Call.perform, Cell.storeIfEmpty, isEmpty, State.cell, hempty]
      rw [hperform]
      exact ⟨3, _, hanswer, by simp [State.cell, hcurrent], by simp [hidle]⟩

end NodeConfig.Cell
