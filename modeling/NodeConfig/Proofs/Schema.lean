import Mathlib
import NodeConfig.Proofs.Json.Members
import NodeConfig.Proofs.Json.Read
import NodeConfig.Schema

namespace NodeConfig

namespace Json

variable {doc : Bytes} {ms : List (String × Json)}

def IsObject (doc : Bytes) (ms : List (String × Json)) : Prop :=
  Padded (ObjectText (Value 126)) doc ms

theorem parse_object (h : IsObject doc ms) : parse doc = .ok (.object (insertMembers [] ms)) := by
  obtain ⟨hb, h, ha⟩ := h
  exact parse_eq_ok_iff.2 (.blanks hb (.inr (.inr ⟨ms, h, rfl⟩)) ha)

theorem isObject_of_parse (h : parse doc = .ok (.object ms)) :
    ∃ members, IsObject doc members ∧ ms = insertMembers [] members := by
  obtain ⟨hb, hscalar | ⟨js, -, ⟨⟩⟩ | ⟨members, hobject, ⟨⟩⟩, ha⟩ := parse_eq_ok_iff.1 h
  · cases hscalar
  · exact ⟨members, .blanks hb hobject ha, rfl⟩

theorem member?_insertMembers (name : String) (ms : List (String × Json)) :
    (Json.object (insertMembers [] ms)).member? name = lastNamed name ms := by
  rw [member?, lookup_insertMembers, List.lookup_nil, Option.or_none]

theorem Cause.message_begin (c : Cause) : ∃ a t, c.message.toList = a :: t ∧ a ≠ 'm' := by
  cases c with
  | mismatch found wanted =>
    refine ⟨'i', _, by simp only [Cause.message, String.toList_append]; rfl, by decide⟩
  | _ => exact ⟨_, _, rfl, by decide⟩

end Json

open Json

variable {doc : Bytes} {ms : List (String × Json)} {s : String}

theorem append_ne_of_begin {t u w : String} {a : Char} {cs : List Char} (ht : t.toList = a :: cs)
    (hw : w.toList.head? ≠ some a) : t ++ u ≠ w := by
  rintro rfl
  rw [String.toList_append, ht] at hw
  exact hw rfl

/-- No other fault reads as this one. -/
theorem SchemaFault.reason_eq_missing_iff {f : SchemaFault} :
    f.reason = "missing basePath" ↔ f = .missing := by
  cases f with
  | missing => exact ⟨fun _ => rfl, fun _ => rfl⟩
  | malformed cause line column =>
    refine ⟨fun h => ?_, nofun⟩
    change cause.message ++ " at line " ++ toString line ++ " column " ++ toString column = _ at h
    obtain ⟨a, t, hcause, ha⟩ := cause.message_begin
    simp only [String.append_assoc] at h
    exact absurd h (append_ne_of_begin hcause fun h => ha (Option.some.inj h).symm)
  | notString found =>
    refine ⟨fun h => ?_, nofun⟩
    change "basePath must be a string, got " ++ found.compact = _ at h
    exact absurd h (append_ne_of_begin rfl (by decide))

theorem SchemaFault.message_eq_missing_iff {f : SchemaFault} :
    f.message = "invalid API schema document: missing basePath" ↔ f = .missing := by
  have htext : "invalid API schema document: missing basePath" =
      "invalid API schema document: " ++ "missing basePath" := by decide
  rw [htext, ← reason_eq_missing_iff]
  exact String.append_right_inj _

theorem basePath_eq_ok_iff : basePath doc = .ok s ↔
    ∃ ms, IsObject doc ms ∧ lastNamed "basePath" ms = some (.string s) := by
  constructor
  · intro h
    rw [basePath] at h
    split at h
    · cases h
    next j hj =>
    split at h
    · next found hfound =>
      cases h
      cases j with
      | object ms =>
        obtain ⟨ms, hms, rfl⟩ := isObject_of_parse hj
        rw [member?_insertMembers] at hfound
        exact ⟨ms, hms, hfound⟩
      | _ => cases hfound
    · cases h
    · cases h
  · rintro ⟨ms, hms, hfound⟩
    rw [basePath, parse_object hms]
    simp only [member?_insertMembers, hfound]

theorem basePath_eq_missing_iff : basePath doc = .error .missing ↔
    (∃ j, Padded (Value 127) doc j) ∧ ¬∃ ms, IsObject doc ms ∧ "basePath" ∈ ms.map Prod.fst := by
  simp only [← parse_eq_ok_iff]
  constructor
  · intro h
    rw [basePath] at h
    split at h
    · cases h
    next j hj =>
    split at h
    · cases h
    · cases h
    next hfound =>
    refine ⟨⟨j, hj⟩, ?_⟩
    rintro ⟨ms, hms, hmem⟩
    obtain rfl := Except.ok.inj (hj.symm.trans (parse_object hms))
    rw [member?_insertMembers, lastNamed_eq_none_iff] at hfound
    exact hfound hmem
  · rintro ⟨⟨j, hj⟩, hnone⟩
    have hfound : j.member? "basePath" = none := by
      cases j with
      | object ms =>
        obtain ⟨ms, hms, rfl⟩ := isObject_of_parse hj
        rw [member?_insertMembers, lastNamed_eq_none_iff]
        exact fun hmem => hnone ⟨ms, hms, hmem⟩
      | _ => rfl
    simp only [basePath, hj, hfound]

/-- A document is accepted exactly if it is one JSON object, nested at most 127 deep and with
nothing but blanks around it, whose last member named `basePath` is a string. Every other document
is a fault of the schema, which is reported as the missing member exactly if the document is a JSON
text that has none. -/
theorem basePath_language (doc : Bytes) :
    (∀ s, basePath doc = .ok s ↔
      ∃ ms, IsObject doc ms ∧ lastNamed "basePath" ms = some (.string s)) ∧
    ((∃ f, basePath doc = .error f) ↔
      ¬∃ s ms, IsObject doc ms ∧ lastNamed "basePath" ms = some (.string s)) ∧
    ((∃ f, basePath doc = .error f ∧
        f.message = "invalid API schema document: missing basePath") ↔
      (∃ j, Padded (Value 127) doc j) ∧
        ¬∃ ms, IsObject doc ms ∧ "basePath" ∈ ms.map Prod.fst) := by
  refine ⟨fun s => basePath_eq_ok_iff, ?_, ?_⟩
  · simp only [← basePath_eq_ok_iff]
    cases basePath doc <;> simp
  · rw [← basePath_eq_missing_iff]
    simp only [SchemaFault.message_eq_missing_iff, exists_eq_right]

end NodeConfig
