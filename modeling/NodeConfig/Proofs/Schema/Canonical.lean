import Mathlib
import NodeConfig.Proofs.Json.Write
import NodeConfig.Proofs.Schema

namespace NodeConfig

open Json

variable {doc doc' : Bytes}

theorem SchemaFault.message_notString (found : Json) : (SchemaFault.notString found).message =
    "invalid API schema document: basePath must be a string, got " ++ found.compact := by
  have hlead : "invalid API schema document: " ++ "basePath must be a string, got " =
      "invalid API schema document: basePath must be a string, got " := by decide
  calc (SchemaFault.notString found).message
      = "invalid API schema document: " ++ ("basePath must be a string, got " ++ found.compact) :=
        rfl
    _ = "invalid API schema document: " ++ "basePath must be a string, got " ++ found.compact :=
        String.append_assoc.symm
    _ = _ := congrArg (· ++ found.compact) hlead

theorem basePath_congr {j : Json} (h : parse doc = .ok j) (h' : parse doc' = .ok j) :
    basePath doc = basePath doc' := by
  rw [basePath, basePath, h, h']

theorem basePath_notString {ms : List (String × Json)} {raw : Json}
    (h : IsDocument doc (.object ms)) (hraw : lastNamed "basePath" ms = some raw)
    (hstring : ∀ s, raw ≠ .string s) : basePath doc = .error (.notString raw.meaning) := by
  have hparse := parse_eq_ok_iff_document.2 ⟨_, h, meaning_object ms⟩
  rw [basePath, hparse]
  simp only [member?_insertMembers, lastNamed_map, hraw, Option.map_some]
  split
  · next s hs => exact absurd (meaning_eq_string_iff.1 (Option.some.inj hs)) (hstring s)
  · next hfound => rw [Option.some.inj hfound]
  · next hnone => cases hnone

/-- A member of a document has a text of its own, which nests less deep. -/
theorem exists_value_of_member {ms : List (String × Json)} {name : String} {raw : Json}
    (h : IsDocument doc (.object ms)) (hraw : (name, raw) ∈ ms) :
    ∃ bs, Value 126 bs raw.meaning := by
  obtain ⟨-, hscalar | ⟨js, -, ⟨⟩⟩ | ⟨ms, ⟨hlist⟩, ⟨⟩⟩, -⟩ := h
  · cases hscalar
  · obtain ⟨_, -, -, -, hwritten⟩ := hlist.exists_of_mem hraw
    rw [value_eq_image]
    exact ⟨_, raw, hwritten, rfl⟩

/-- Two accepted documents that are written as the same value give the same result, the same fault
and message included. A base path that is no string, and whose numbers are whole, is shown as a
text that is accepted as that value, with the members of every object in ascending order of their
bytes. -/
theorem basePath_canonical :
    (∀ doc j, parse doc = .ok j ↔ ∃ raw, IsDocument doc raw ∧ raw.meaning = j) ∧
    (∀ doc doc' raw raw', IsDocument doc raw → IsDocument doc' raw' → Same raw raw' →
      basePath doc = basePath doc') ∧
    ∀ doc ms raw, IsDocument doc (.object ms) → lastNamed "basePath" ms = some raw →
      (∀ s, raw ≠ .string s) → (∀ n, Within (.number n) raw.meaning → ∃ k : ℤ, n = .int k) →
      ∃ f text, basePath doc = .error f ∧
        f.message = "invalid API schema document: basePath must be a string, got " ++ text ∧
        IsDocument (Utf8.ofString text) raw.meaning ∧
        parse (Utf8.ofString text) = .ok raw.meaning ∧
        ∀ ms, Within (.object ms) raw.meaning →
          ms.Pairwise fun m m' => Utf8.ofString m.1 < Utf8.ofString m'.1 := by
  refine ⟨fun doc j => parse_eq_ok_iff_document, ?_, ?_⟩
  · intro doc doc' raw raw' h h' hsame
    exact basePath_congr (parse_eq_ok_iff_document.2 ⟨raw, h, hsame.meaning_eq⟩)
      (parse_eq_ok_iff_document.2 ⟨raw', h', rfl⟩)
  · intro doc ms raw h hraw hstring hint
    obtain ⟨bs, hvalue⟩ := exists_value_of_member h (mem_of_lastNamed hraw)
    have htext : IsDocument (Utf8.ofString raw.meaning.compact) raw.meaning :=
      padded_self (written_compact hvalue (by decide) hint)
    exact ⟨_, raw.meaning.compact, basePath_notString h hraw hstring,
      SchemaFault.message_notString _, htext,
      parse_eq_ok_iff_document.2 ⟨_, htext, meaning_meaning raw⟩,
      fun ms hms => (hvalue.ascending hms).imp Utf8.ofString_lt_iff.2⟩

/-- One value written twice, once after a blank and with a member that a later one overrides. -/
theorem basePath_canonical_rewritten :
    let doc := Utf8.ofString " \x7b\"basePath\":\x7b\"b\":1,\"a\":-2,\"b\":null\x7d\x7d"
    let doc' := Utf8.ofString "\x7b\"basePath\":\x7b\"b\":null,\"a\":-2\x7d\x7d"
    basePath doc = basePath doc' ∧ ∃ f text, basePath doc' = .error f ∧
      f.message = "invalid API schema document: basePath must be a string, got " ++ text ∧
      parse (Utf8.ofString text) = .ok (.object [("a", .number (.int (-2))), ("b", .null)]) := by
  intro doc doc'
  let one : Json := .number (.int 1)
  let minusTwo : Json := .number (.int (-2))
  let base : Json := .object [("b", one), ("a", minusTwo), ("b", .null)]
  let base' : Json := .object [("b", .null), ("a", minusTwo)]
  have hone : Written 125 (Utf8.ofString one.compact) one :=
    written_scalar (scalar_int (by decide) (by decide))
  have htwo : Written 125 (Utf8.ofString minusTwo.compact) minusTwo :=
    written_scalar (scalar_int (by decide) (by decide))
  have hnull : Written 125 (Utf8.ofString Json.null.compact) .null := written_scalar .nullWord
  have hbase : Written 126 (Utf8.ofString base.compact) base :=
    written_object (by simp [hone, htwo, hnull])
  have hbase' : Written 126 (Utf8.ofString base'.compact) base' :=
    written_object (by simp [htwo, hnull])
  have hdoc : IsDocument doc (.object [("basePath", base)]) := by
    have hcore : Written 127 _ (object [("basePath", base)]) :=
      written_object (by simpa using hbase)
    have hblank : Blanks [0x20] := by simp [Blanks, isBlank]
    have hend : Blanks [] := by simp [Blanks]
    have htext : doc = [0x20] ++ (Utf8.ofString (object [("basePath", base)]).compact ++ []) := by
      decide +kernel
    rw [htext]
    exact .blanks hblank hcore hend
  have hdoc' : IsDocument doc' (.object [("basePath", base')]) := by
    have hcore : Written 127 _ (object [("basePath", base')]) :=
      written_object (by simpa using hbase')
    have htext : doc' = Utf8.ofString (object [("basePath", base')]).compact := by
      decide +kernel
    rw [htext]
    exact padded_self hcore
  have hsame : Same (.object [("basePath", base)]) (.object [("basePath", base')]) :=
    .member [] [] "basePath" ((Same.overridden [] _ (by decide)).trans
      (.swap [] [] (by decide)))
  have hmeaning : base'.meaning = .object [("a", minusTwo), ("b", .null)] := by
    have hab : ("a" : String) < "b" := by decide
    rw [meaning_object]
    simp only [List.map_cons, List.map_nil, Prod.map_apply, id, minusTwo, meaning]
    simp only [insertMembers, List.foldl_cons, List.foldl_nil, insertMember, if_pos hab]
  have hwhole : ∀ n, Within (.number n) base'.meaning → ∃ k : ℤ, n = .int k := by
    rw [hmeaning]
    intro n hn
    cases hn with
    | member hm hn =>
      simp only [List.mem_cons, List.not_mem_nil, or_false] at hm
      rcases hm with rfl | rfl
      · cases hn
        exact ⟨_, rfl⟩
      · cases hn
  obtain ⟨-, hpair, hshown⟩ := basePath_canonical
  have hother : ∀ s, base' ≠ .string s := by
    intro s
    simp [base']
  obtain ⟨f, text, hf, hmessage, -, hparse, -⟩ := hshown doc' _ base' hdoc' rfl hother hwhole
  rw [hmeaning] at hparse
  exact ⟨hpair doc doc' _ _ hdoc hdoc' hsame, f, text, hf, hmessage, hparse⟩

end NodeConfig
