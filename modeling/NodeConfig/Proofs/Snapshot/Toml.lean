import Mathlib
import NodeConfig.Snapshot.FromToml
import NodeConfig.Snapshot.ToToml
import NodeConfig.Proofs.Snapshot.Sheet
import NodeConfig.Proofs.Toml.Lines

namespace NodeConfig

theorem isBareKey_key (f : Field) : Toml.IsBareKey f.key := by
  rcases f with f | _
  · cases f <;> (simp only [Field.key, TextField.key, Toml.IsBareKey]; simp; decide)
  · simp only [Field.key, Toml.IsBareKey]; simp; decide

theorem IsLetters.isBareKey {name : String} (h : IsLetters name) : Toml.IsBareKey name := by
  refine ⟨h.1, fun c hc => ?_⟩
  simp [Toml.isBareKeyChar, Char.isAlphanum, h.2 c hc]

namespace Item

def pair : Item → Toml.Pair
  | field x (.text f) => .ofText f.key (x.get f)
  | field x .certFetched =>
    ⟨Field.certFetched.key, (if x.certFetched then "true" else "false").toList, .bool x.certFetched⟩
  | other name value => .ofText name value

@[simp] theorem pair_key (i : Item) : i.pair.key = i.key := by
  rcases i with ⟨x, f | _⟩ | _ <;> rfl

theorem line_pair (i : Item) : i.pair.line = i.text .toml := by
  rcases i with ⟨x, f | _⟩ | _
  · rfl
  · cases h : x.certFetched <;> simp [pair, Toml.Pair.line, text, tomlPair, h] <;> rfl
  · rfl

theorem isPair {i : Item} (hi : ∀ name ∈ i.other?, IsLetters name) : i.pair.IsPair := by
  rcases i with ⟨x, f | _⟩ | ⟨name, value⟩
  · exact Toml.Pair.isPair_ofText (isBareKey_key (.text f)) _
  · exact ⟨isBareKey_key .certFetched, Toml.denotes_bool x.certFetched⟩
  · exact Toml.Pair.isPair_ofText (hi name rfl).isBareKey value

/-- What an entry holds is put into the identity, whatever was read before. -/
theorem fieldsOfTable_pair {i : Item} (hi : ∀ name ∈ i.other?, Field.ofKey? name = none)
    (y : Identity) (es : Toml.Entries) :
    Toml.fieldsOfTable y (i.pair.entry :: es) = Toml.fieldsOfTable (put y i) es := by
  rcases i with ⟨x, f⟩ | ⟨name, value⟩
  · have hkey : Field.ofKey? (field x f).pair.key = some f := by
      rw [pair_key, key, Field.ofKey?_key]
    rw [Toml.Pair.entry, Toml.fieldsOfTable, hkey]
    cases f <;> rfl
  · rw [Toml.Pair.entry, Toml.fieldsOfTable, pair_key, key, hi name rfl]
    rfl

theorem fieldsOfTable_pairs {is : List Item}
    (his : ∀ i ∈ is, ∀ name ∈ i.other?, Field.ofKey? name = none) (y : Identity) :
    Toml.fieldsOfTable y (is.map fun i => i.pair.entry) = .ok (is.foldl put y) := by
  induction is generalizing y with
  | nil => rfl
  | cons i is ih =>
    rw [List.map_cons, fieldsOfTable_pair (his i List.mem_cons_self)]
    exact ih (fun j hj => his j (List.mem_cons_of_mem i hj)) _

end Item

namespace Sheet

def topPairs (s : Sheet) : List Toml.Pair := (s.above ++ s.below).map fun e => .ofText e.1 e.2

variable {s : Sheet}

theorem toList_text_toml (s : Sheet) :
    (s.text .toml).toList = Toml.tableText s.topPairs "cluster" (s.items.map Item.pair) := by
  rw [text, String.toList_ofList, Toml.tableText, topPairs, List.flatMap_map, List.flatMap_map]
  simp only [Item.line_pair]
  rfl

theorem Proper.isPair_top (hs : s.Proper) : ∀ a ∈ s.topPairs, a.IsPair := by
  intro a ha
  obtain ⟨e, he, rfl⟩ := List.mem_map.1 ha
  exact Toml.Pair.isPair_ofText (hs.tops _ (List.mem_map_of_mem he)).isBareKey _

theorem Proper.isPair_item (hs : s.Proper) : ∀ a ∈ s.items.map Item.pair, a.IsPair := by
  intro a ha
  obtain ⟨i, hi, rfl⟩ := List.mem_map.1 ha
  exact Item.isPair fun name hname => (hs.other_mem hi name hname).1

theorem isBareKey_cluster : Toml.IsBareKey "cluster" := by
  simp only [Toml.IsBareKey]; simp; decide

theorem map_key_topPairs (s : Sheet) : s.topPairs.map Toml.Pair.key = s.tops := by
  rw [topPairs, tops, List.map_map]
  rfl

theorem map_key_pair (s : Sheet) :
    (s.items.map Item.pair).map Toml.Pair.key = s.items.map Item.key := by
  rw [List.map_map]
  exact List.map_congr_left fun i _ => i.pair_key

theorem not_all_isWhite_toml (s : Sheet) : (s.text .toml).toList.all isWhite = false := by
  rw [toList_text_toml, Toml.tableText]
  simp [isWhite]

/-- A file with no field twice is read as what is put together in it. -/
theorem Proper.snapshotOfToml (hs : s.Proper) (hnodup : s.fields.Nodup) :
    snapshotOfToml (s.text .toml).toList = .ok (some s.identity) := by
  have hparse := Toml.parse_table isBareKey_cluster hs.isPair_top hs.isPair_item
    (s.map_key_topPairs ▸ hs.tops_nodup) (s.map_key_pair ▸ hs.nodup_keys_iff.2 hnodup)
  have hlookup : ∀ v : Toml.Value, Toml.Entries.lookup? "cluster"
      (s.topPairs.map Toml.Pair.entry ++ [("cluster", v)]) = some v := by
    intro v
    have hnone : Toml.Entries.lookup? "cluster" (s.topPairs.map Toml.Pair.entry) = none := by
      have hfst : (s.topPairs.map Toml.Pair.entry).map Prod.fst = s.tops := by
        rw [List.map_map, ← map_key_topPairs]
        rfl
      rw [Toml.lookup?_eq_none_iff, hfst]
      exact (List.nodup_cons.1 hs.tops_nodup).1
    rw [Toml.Entries.lookup?] at hnone ⊢
    rw [List.lookup_append, hnone]
    rfl
  have hfields := Item.fieldsOfTable_pairs
    (fun i hi name hname => (hs.other_mem hi name hname).2) .empty
  rw [NodeConfig.snapshotOfToml, if_neg (by rw [not_all_isWhite_toml]; decide), toList_text_toml,
    hparse]
  simp only [hlookup, Toml.identityOf, List.map_map]
  exact congrArg (Except.map some) hfields

/-- In TOML a field that is there twice is a key that is there twice. -/
theorem Proper.snapshotOfToml_doubled (hs : s.Proper) (hnodup : ¬ s.fields.Nodup) :
    NodeConfig.snapshotOfToml (s.text .toml).toList = .error .duplicateKey := by
  have hparse := Toml.parse_table_doubled isBareKey_cluster hs.isPair_top hs.isPair_item
    (s.map_key_topPairs ▸ hs.tops_nodup)
    (s.map_key_pair ▸ fun h => hnodup (hs.nodup_keys_iff.1 h))
  rw [NodeConfig.snapshotOfToml, if_neg (by rw [not_all_isWhite_toml]; decide), toList_text_toml,
    hparse]
  rfl

end Sheet

end NodeConfig
