import Mathlib
import NodeConfig.Proofs.Json.Scalar
import NodeConfig.Proofs.Json.Write
import NodeConfig.Cell

namespace NodeConfig.Cell

open Json

variable {α : Type}

structure Codec (encode : Cell α → String) (decode : Bytes → Except Fault (Cell α))
    (Literal : Bytes → α → Prop) : Prop where
  literal : ∀ c, Literal (Utf8.ofString (encode c)) c.value
  decode_encode : ∀ c before after, Blanks before → Blanks after →
    decode (before ++ (Utf8.ofString (encode c) ++ after)) = .ok c
  decode_eq_ok_iff : ∀ text c, decode text = .ok c ↔ Padded Literal text c.value
  decode_encode_decode : ∀ text c, decode text = .ok c →
    decode (Utf8.ofString (encode c)) = .ok c
  refused : ∀ (c : Cell α) text, (∀ a, ¬Padded Literal text a) →
    ∃ f, c.replace (decode text) = (.error f, c)

/-- All of it follows from what is written and what is read. -/
theorem Codec.of {encode : Cell α → String} {decode : Bytes → Except Fault (Cell α)}
    {Literal : Bytes → α → Prop} (hwrite : ∀ c, Literal (Utf8.ofString (encode c)) c.value)
    (hread : ∀ text c, decode text = .ok c ↔ Padded Literal text c.value) :
    Codec encode decode Literal where
  literal := hwrite
  decode_encode c before after hb ha := (hread _ c).2 (.blanks hb (hwrite c) ha)
  decode_eq_ok_iff := hread
  decode_encode_decode _ c _ := (hread _ c).2 (padded_self (hwrite c))
  refused c text h := by
    cases hdecode : decode text with
    | ok read => exact absurd ((hread text read).1 hdecode) (h read.value)
    | error f => exact ⟨f, rfl⟩

theorem map_mk_eq_ok_iff {ε : Type} {e : Except ε α} {c : Cell α} :
    e.map Cell.mk = .ok c ↔ e = .ok c.value := by
  obtain ⟨a⟩ := c
  cases e <;> simp [Except.map]

theorem scalar_flagText (c : Cell Bool) : Scalar (Utf8.ofString c.flagText) (.bool c.value) := by
  obtain ⟨_ | _⟩ := c
  · exact .falseWord
  · exact .trueWord

/-- Texts and flags are written and read as string literals and as the words for the flags. A
literal has no control character, no quote and no backslash but in escapes, and no escape of a
surrogate without its other half. -/
theorem json_codec : Codec text ofText StringText ∧
    Codec flagText ofFlagText (fun bs b => Scalar bs (.bool b)) := by
  constructor
  · exact .of (fun c => stringText_quote c.value)
      fun bs c => map_mk_eq_ok_iff.trans stringOf_eq_ok_iff
  · exact .of scalar_flagText fun bs c => map_mk_eq_ok_iff.trans flagOf_eq_ok_iff

/-- A text with all kinds of escapes is read with a blank on each side. Half a character is not. -/
theorem json_codec_escapes :
    let c : Cell String := ⟨"a\"\\\n\x01é😀"⟩
    let half := Utf8.ofString "\"\\ud83d\""
    let off : Cell Bool := ⟨false⟩
    ofText ([0x20] ++ (Utf8.ofString c.text ++ [0x0A])) = .ok c ∧
      (∃ f, c.replace (ofText half) = (.error f, c)) ∧
      ofFlagText ([] ++ (Utf8.ofString off.flagText ++ [0x09])) = .ok off := by
  intro c half off
  obtain ⟨htext, hflag⟩ := json_codec
  refine ⟨htext.decode_encode c _ _ ?_ ?_, htext.refused c half ?_,
    hflag.decode_encode off _ _ ?_ ?_⟩
  case refine_3 =>
    intro s hs
    have hread : ofText half = .ok ⟨s⟩ := (htext.decode_eq_ok_iff half ⟨s⟩).2 hs
    have hfault : (ofText half).isOk = false := by decide +kernel
    rw [hread] at hfault
    cases hfault
  all_goals simp [Blanks, isBlank]

end NodeConfig.Cell
