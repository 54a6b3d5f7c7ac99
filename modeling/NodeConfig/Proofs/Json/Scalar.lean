import Mathlib
import NodeConfig.Proofs.Json.Read
import NodeConfig.Json.Scalar

namespace NodeConfig.Json

variable {text bs : Bytes} {s : String} {b : Bool}

theorem mismatch_ne_ok {α : Type} {wanted : String} {a : α} : mismatch wanted bs ≠ .ok a := by
  unfold mismatch
  intro h
  split at h
  · cases h
  · repeat' split at h
    all_goals try cases h
    -- What is left reads on before it reports.
    all_goals
      obtain ⟨_, _, h⟩ := Except.bind_eq_ok_iff.1 h
      cases h

/-- Where an element does not begin with a blank, it is what follows the blanks. -/
theorem padded_iff {α : Type} {E : Bytes → α → Prop} {a : α}
    (hE : ∀ {core}, E core a → ∃ b t, core = b :: t ∧ isBlank b = false) :
    Padded E text a ↔
      ∃ core after, E core a ∧ Blanks after ∧ skipBlanks text = core ++ after := by
  constructor
  · rintro ⟨hbefore, hcore, hafter⟩
    obtain ⟨b, t, rfl, hb⟩ := hE hcore
    refine ⟨_, _, hcore, hafter, ?_⟩
    rw [skipBlanks_append hbefore, List.cons_append, skipBlanks_cons hb]
  · rintro ⟨core, after, hcore, hafter, hskip⟩
    obtain ⟨gap, hgap, htext⟩ := skipBlanks_split text
    rw [htext, hskip]
    exact .blanks hgap hcore hafter

theorem StringText.begins (h : StringText bs s) : ∃ t, bs = 0x22 :: t := by
  cases h
  exact ⟨_, rfl⟩

theorem stringOf_eq_ok_iff : stringOf text = .ok s ↔ Padded StringText text s := by
  rw [padded_iff fun h => by
    obtain ⟨t, rfl⟩ := h.begins
    exact ⟨_, _, rfl, by decide⟩]
  rw [stringOf]
  cases skipBlanks text with
  | nil =>
    refine ⟨nofun, ?_⟩
    rintro ⟨core, after, hcore, -, htext⟩
    obtain ⟨t, rfl⟩ := hcore.begins
    cases htext
  | cons b rest =>
    by_cases hb : b = 0x22
    · subst hb
      simp only [if_true, Except.bind_eq_ok_iff]
      constructor
      · rintro ⟨⟨s', r⟩, hread, ⟨⟩, hr, h⟩
        cases h
        obtain ⟨core, hcore, htext⟩ := readString_eq_ok_iff.1 hread
        exact ⟨core, r, hcore, finished_eq_ok_iff.1 hr, htext⟩
      · rintro ⟨core, after, hcore, hafter, htext⟩
        exact ⟨(s, after), readString_eq_ok_iff.2 ⟨core, hcore, htext⟩, (),
          finished_eq_ok_iff.2 hafter, rfl⟩
    · simp only [if_neg hb]
      refine ⟨fun h => absurd h mismatch_ne_ok, ?_⟩
      rintro ⟨core, after, hcore, -, htext⟩
      obtain ⟨t, rfl⟩ := hcore.begins
      exact absurd (List.cons.inj htext).1 hb

def flagWord : Bool → Bytes
  | true => [0x74, 0x72, 0x75, 0x65]
  | false => [0x66, 0x61, 0x6C, 0x73, 0x65]

theorem scalar_bool_iff : Scalar bs (.bool b) ↔ bs = flagWord b := by
  constructor
  · rintro (_ | _) <;> rfl
  · rintro rfl
    cases b with
    | true => exact .trueWord
    | false => exact .falseWord

/-- The rest of a word, and nothing but blanks after it. -/
theorem word_finished_iff {w rest : Bytes} {found : Bool} :
    (do finished (← word w rest); return found : Except Fault Bool) = .ok b ↔
      ∃ after, rest = w ++ after ∧ Blanks after ∧ found = b := by
  simp only [Except.bind_eq_ok_iff, word_eq_ok_iff]
  constructor
  · rintro ⟨after, hrest, ⟨⟩, hafter, h⟩
    exact ⟨after, hrest, finished_eq_ok_iff.1 hafter, Except.ok.inj h⟩
  · rintro ⟨after, hrest, hafter, rfl⟩
    exact ⟨after, hrest, (), finished_eq_ok_iff.2 hafter, rfl⟩

theorem flagOf_eq_ok_iff :
    flagOf text = .ok b ↔ Padded (fun bs b => Scalar bs (.bool b)) text b := by
  simp only [scalar_bool_iff]
  rw [padded_iff fun h => by
    subst h
    cases b <;> exact ⟨_, _, rfl, by decide⟩]
  simp only [exists_and_left, exists_eq_left]
  rw [flagOf]
  cases skipBlanks text with
  | nil => cases b <;> simp [failHere, flagWord]
  | cons a rest =>
    dsimp only
    split_ifs with ht hf
    · rw [word_finished_iff]
      cases b <;> simp [flagWord, ht, and_comm]
    · rw [word_finished_iff]
      cases b <;> simp [flagWord, hf, and_comm]
    · refine ⟨fun h => absurd h mismatch_ne_ok, ?_⟩
      cases b <;> simp [flagWord, ht, hf]

end NodeConfig.Json
