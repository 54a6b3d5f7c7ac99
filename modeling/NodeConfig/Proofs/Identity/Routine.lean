import Mathlib
import NodeConfig.Identity.Defaults
import NodeConfig.Proofs.Cell.Calls
import NodeConfig.Proofs.Identity.Defaults

namespace NodeConfig

def Cell.Answer.text : Cell.Answer → String
  | .value s => s
  | _ => ""

namespace Identity

def call (x : Identity) (f : TextField) (c : Cell.Call) : Cell.Answer × Identity :=
  ((c.perform ⟨x.get f⟩).1, x.set f (c.perform ⟨x.get f⟩).2.value)

theorem get_call (x : Identity) (f g : TextField) (c : Cell.Call) :
    (x.call f c).2.get g = if f = g then (c.perform ⟨x.get f⟩).2.value else x.get g :=
  get_set ..

@[simp] theorem certFetched_call (x : Identity) (f : TextField) (c : Cell.Call) :
    (x.call f c).2.certFetched = x.certFetched :=
  certFetched_set ..

theorem set_get (x : Identity) (f : TextField) : x.set f (x.get f) = x := by
  cases f <;> rfl

@[simp] theorem call_load (x : Identity) (f : TextField) :
    x.call f .load = (.value (x.get f), x) := by
  rw [call, Cell.Call.perform, set_get]

@[simp] theorem call_storeIfEmpty (x : Identity) (f : TextField) (s : String) :
    x.call f (.storeIfEmpty s) = (.wrote (decide (x.get f = "")), x.fill f s) := by
  by_cases h : x.get f = ""
  · simp [call, Cell.Call.perform, Cell.storeIfEmpty, Cell.isEmpty, fill, h]
  · have hset := x.set_get f
    simp [call, Cell.Call.perform, Cell.storeIfEmpty, Cell.isEmpty, fill, h, hset]

def modeReport : Report :=
  .event ⟨.debug, clusterTarget, "Cluster mode defaulted", [("mode", .quoted defaultMode)]⟩

def nameReport (name : String) : Report :=
  .event ⟨.info, clusterTarget, "Generated cluster node name", [("name", .shown name)]⟩

end Identity

inductive Routine where
  | done
  | call (f : TextField) (call : Cell.Call) (next : Cell.Answer → Routine)
  | flag (b : Bool) (next : Routine)
  | mint (next : String → Routine)
  | report (r : Report) (next : Routine)

namespace Routine

def run (x : Identity) (names : NameSource) : Routine → Defaulted
  | .done => ⟨x, names, .nothing⟩
  | .call f c next => (next (x.call f c).1).run (x.call f c).2 names
  | .flag b next => next.run { x with certFetched := b } names
  | .mint next => (next names.mint.1).run x names.mint.2
  | .report r next =>
    { next.run x names with report := r ++ (next.run x names).report }

/-- Fills a field where it is empty, and goes on with whether it did. -/
def fill (f : TextField) (s : String) (next : Bool → Routine) : Routine :=
  .call f (.storeIfEmpty s) fun answer => next (answer = .wrote true)

def reportIf (b : Bool) (r : Report) (next : Routine) : Routine :=
  if b then .report r next else next

/-- A name is made where none is found, and reported as it is found where it was stored. -/
def defaultName : Routine :=
  .call .name .load fun found =>
    if found = .value "" then
      .mint fun name => .fill .name name fun wrote =>
        if wrote then
          .call .name .load fun found => .report (Identity.nameReport found.text) .done
        else .done
    else .done

def defaults : Routine :=
  .fill .mode Identity.defaultMode fun wrote =>
    reportIf wrote Identity.modeReport <|
      .fill .certificatePath Identity.defaultCertificatePath fun _ =>
        .fill .certificateKeyPath Identity.defaultCertificateKeyPath fun _ => defaultName

theorem run_fill (x : Identity) (names : NameSource) (f : TextField) (s : String)
    (next : Bool → Routine) :
    (fill f s next).run x names = (next (x.get f = "")).run (x.fill f s) names := by
  simp [fill, run]

theorem run_reportIf (x : Identity) (names : NameSource) (b : Bool) (r : Report)
    (next : Routine) : (reportIf b r next).run x names =
      { next.run x names with
        report := (if b then r else .nothing) ++ (next.run x names).report } := by
  cases b <;> rfl

theorem run_defaultName (x : Identity) (names : NameSource) : defaultName.run x names =
    if x.name = "" then
      ⟨{ x with name := names.mint.1 }, names.mint.2, Identity.nameReport names.mint.1⟩
    else ⟨x, names, .nothing⟩ := by
  have hget : x.get .name = x.name := rfl
  simp only [defaultName, run, Identity.call_load, Cell.Answer.value.injEq, hget]
  split_ifs with h
  · have hfill : x.fill .name names.mint.1 = { x with name := names.mint.1 } := if_pos h
    rw [run, run_fill, hfill, hget, if_pos (by simpa using h)]
    rfl
  · rfl

/-- Call by call, the defaults are those of the identity. -/
theorem run_defaults (x : Identity) (names : NameSource) :
    defaults.run x names = x.withDefaults names := by
  have hget : x.get .mode = x.mode := rfl
  simp only [defaults, run_fill, run_reportIf, run_defaultName, hget]
  rw [Identity.withDefaults]
  dsimp only
  generalize ((x.fill .mode Identity.defaultMode).fill .certificatePath
    Identity.defaultCertificatePath).fill .certificateKeyPath Identity.defaultCertificateKeyPath = y
  by_cases hmode : x.mode = "" <;> by_cases hname : y.name = ""
  all_goals
    simp only [hmode, hname, decide_true, decide_false, Bool.false_eq_true, if_true, if_false]
    rfl

end Routine
end NodeConfig
