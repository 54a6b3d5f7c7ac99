import Mathlib
import NodeConfig.Yaml.Document
import NodeConfig.Proofs.Yaml.Scan

namespace NodeConfig.Yaml

variable {handles : Handles}

def Entry.pair (e : Entry) : Node × Node :=
  (.scalar .none .plain (String.ofList e.key), .scalar .none e.style e.text)

theorem part_scalar (block indentless : Bool) (text : String) (style : Style) (rest : List Token)
    (anchors : List (String × ℕ)) (fuel : ℕ) :
    part handles block indentless endsBlockPart ⟨.scalar text style :: rest, anchors⟩ (fuel + 2) =
      ⟨.scalar .none style text, .ok ⟨rest, anchors⟩⟩ := by
  simp [part, endsBlockPart, node, properties, Properties.label, Label.ofScalar, Label.none]

theorem part_empty (block indentless : Bool) {t : Token} (ht : endsBlockPart t = true)
    (rest : List Token) (anchors : List (String × ℕ)) (fuel : ℕ) :
    part handles block indentless endsBlockPart ⟨t :: rest, anchors⟩ (fuel + 1) =
      ⟨.empty, .ok ⟨t :: rest, anchors⟩⟩ := by
  simp [part, ht]

/-- A mapping is a node, also as the value of a key. -/
theorem node_mapping (indentless : Bool) (rest : List Token) (anchors : List (String × ℕ))
    (fuel : ℕ) :
    node handles true indentless ⟨.blockMappingStart :: rest, anchors⟩ (fuel + 1) =
      (blockPairs handles ⟨rest, anchors⟩ fuel).map (.mapping .none) := by
  simp [node, properties, Properties.label, Label.none]

theorem part_mapping (indentless : Bool) (rest : List Token) (anchors : List (String × ℕ))
    (fuel : ℕ) :
    part handles true indentless endsBlockPart ⟨.blockMappingStart :: rest, anchors⟩ (fuel + 2) =
      (blockPairs handles ⟨rest, anchors⟩ fuel).map (.mapping .none) := by
  simp [part, endsBlockPart, node_mapping]

theorem blockPairs_entry (e : Entry) (rest : List Token) (anchors : List (String × ℕ)) (fuel : ℕ) :
    blockPairs handles ⟨e.tokens ++ rest, anchors⟩ (fuel + 4) =
      (blockPairs handles ⟨rest, anchors⟩ (fuel + 3)).map (e.pair :: ·) := by
  rw [Entry.tokens, List.cons_append, blockPairs]
  simp only [List.cons_append, List.nil_append, Entry.token, part_scalar, Reading.pair, valuePart,
    Reading.map, Reading.consPair, Entry.pair]

/-- The pairs of a mapping, up to its end. -/
theorem blockPairs_entries (handles : Handles) {es : List Entry} {fuel : ℕ}
    (hfuel : es.length + 4 ≤ fuel) (rest : List Token) (anchors : List (String × ℕ)) :
    blockPairs handles ⟨es.flatMap (·.tokens) ++ .blockEnd :: rest, anchors⟩ fuel =
      ⟨es.map Entry.pair, .ok ⟨rest, anchors⟩⟩ := by
  induction es generalizing fuel with
  | nil =>
    obtain ⟨fuel, rfl⟩ := Nat.exists_eq_add_of_le' hfuel
    simp [blockPairs]
  | cons e es ih =>
    simp only [List.length_cons] at hfuel
    obtain ⟨fuel, rfl⟩ := Nat.exists_eq_add_of_le' (show 4 ≤ fuel by omega)
    rw [List.flatMap_cons, List.append_assoc, blockPairs_entry, ih (by omega)]
    rfl

def Part.pair : Part → Node × Node
  | entry e => e.pair
  | mapping name [] => (.scalar .none .plain (String.ofList name), .empty)
  | mapping name (e :: es) =>
    (.scalar .none .plain (String.ofList name), .mapping .none ((e :: es).map Entry.pair))

theorem Part.exists_key (a : Part) : ∃ ts, a.tokens = .key :: ts := by
  rcases a with e | ⟨name, _ | ⟨e, es⟩⟩
  · exact ⟨_, rfl⟩
  · exact ⟨_, rfl⟩
  · exact ⟨_, rfl⟩

/-- A key without a value is seen from the token after it. -/
theorem blockPairs_part (a : Part) {t : Token} (ht : endsBlockPart t = true) (rest : List Token)
    (anchors : List (String × ℕ)) {fuel : ℕ} (hfuel : a.tokens.length + 4 ≤ fuel) :
    blockPairs handles ⟨a.tokens ++ t :: rest, anchors⟩ (fuel + 1) =
      (blockPairs handles ⟨t :: rest, anchors⟩ fuel).map (a.pair :: ·) := by
  obtain ⟨fuel, rfl⟩ := Nat.exists_eq_add_of_le' (show 3 ≤ fuel by omega)
  rcases a with e | ⟨name, _ | ⟨e, es⟩⟩
  · exact blockPairs_entry e _ anchors fuel
  · simp only [Part.tokens, List.cons_append, List.nil_append, Part.pair]
    rw [blockPairs]
    simp only [part_scalar, Reading.pair, valuePart, part_empty _ _ ht, Reading.map,
      Reading.consPair]
  · have hlen : (e :: es).length + 4 ≤ fuel := by
      have hcount : (Part.mapping name (e :: es)).tokens.length = 4 * (e :: es).length + 5 := by
        simp [Part.tokens, Entry.tokens]
        omega
      omega
    have hpairs := blockPairs_entries handles hlen (t :: rest) anchors
    simp only [Part.tokens, List.cons_append, List.nil_append, List.append_assoc, Part.pair]
    rw [blockPairs]
    simp only [part_scalar, Reading.pair, valuePart, part_mapping, hpairs, Reading.map,
      Reading.consPair]

/-- The pairs of a document, up to the end of its mapping. -/
theorem blockPairs_parts (as : List Part) {fuel : ℕ}
    (hfuel : (as.flatMap Part.tokens).length + 5 ≤ fuel) (rest : List Token)
    (anchors : List (String × ℕ)) :
    blockPairs handles ⟨as.flatMap Part.tokens ++ .blockEnd :: rest, anchors⟩ fuel =
      ⟨as.map Part.pair, .ok ⟨rest, anchors⟩⟩ := by
  induction as generalizing fuel with
  | nil =>
    obtain ⟨fuel, rfl⟩ := Nat.exists_eq_add_of_le' hfuel
    simp [blockPairs]
  | cons a as ih =>
    rw [List.flatMap_cons, List.length_append] at hfuel
    obtain ⟨fuel, rfl⟩ := Nat.exists_eq_add_of_le' (show 1 ≤ fuel by omega)
    obtain ⟨t, more, hmore, ht⟩ : ∃ t more,
        as.flatMap Part.tokens ++ .blockEnd :: rest = t :: more ∧ endsBlockPart t = true := by
      cases as with
      | nil => exact ⟨_, _, rfl, rfl⟩
      | cons b as =>
        obtain ⟨ts, hts⟩ := b.exists_key
        exact ⟨.key, _, by rw [List.flatMap_cons, hts]; rfl, rfl⟩
    have hpos : 1 ≤ a.tokens.length := by
      obtain ⟨ts, hts⟩ := a.exists_key
      simp [hts]
    rw [List.flatMap_cons, List.append_assoc, hmore, blockPairs_part a ht _ _ (by omega), ← hmore,
      ih (by omega)]
    rfl

/-- A text of parts is the document of one mapping with their pairs. -/
theorem document_parts {as : List Part} (hne : as ≠ []) (has : ∀ a ∈ as, a.IsPart)
    (hall : ∀ a ∈ as, ∀ c ∈ a.chars, isPlainly c = true) :
    document (as.flatMap Part.text) = ⟨some (.mapping .none (as.map Part.pair)), none, false⟩ := by
  have hnode : ∀ fuel, (as.flatMap Part.tokens).length + 5 ≤ fuel →
      node standardHandles true false
        ⟨.blockMappingStart :: (as.flatMap Part.tokens ++ [.blockEnd, .streamEnd]), []⟩
          (fuel + 1) = ⟨.mapping .none (as.map Part.pair), .ok ⟨[.streamEnd], []⟩⟩ := by
    intro fuel hfuel
    rw [node_mapping, blockPairs_parts as hfuel]
    rfl
  obtain ⟨fuel, hfuel, hlen⟩ : ∃ fuel, 4 * (Token.blockMappingStart ::
      (as.flatMap Part.tokens ++ [.blockEnd, .streamEnd])).length + 4 = fuel + 1 ∧
        (as.flatMap Part.tokens).length + 5 ≤ fuel :=
    ⟨_, rfl, by rw [List.length_cons, List.length_append]; omega⟩
  rw [document, tokens_parts hne has hall, Document.ofTokens.eq_def, hfuel]
  simp only [hnode fuel hlen]
  rfl

/-- A key that is too long is all there is of its document. -/
theorem document_longKey {key : List Char} (hkey : IsName key) (hlong : 1024 < key.length)
    {rest : List Char} (hrest : endsWord rest = true) (hall : ∀ c ∈ rest, isPlainly c = true) :
    document (key ++ ':' :: rest) =
      ⟨some (.scalar .none .plain (String.ofList key)), some .malformed, false⟩ := by
  have hnode : ∀ fuel text, node standardHandles true false ⟨[.scalar text .plain], []⟩ (fuel + 1) =
      ⟨.scalar .none .plain text, .ok ⟨[], []⟩⟩ := by
    intro fuel text
    simp [node, properties, Properties.label, Label.ofScalar, Label.none]
  rw [document, tokens_longKey hkey hlong hrest hall, Document.ofTokens.eq_def]
  simp only [List.length_singleton, hnode]
  rfl

end NodeConfig.Yaml
