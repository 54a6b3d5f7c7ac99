import Mathlib
import NodeConfig.Snapshot.Format
import NodeConfig.Proofs.Identity

namespace NodeConfig

/-- An entry under the heading: a field of an identity, or a text under another name. -/
inductive Item where
  | field (x : Identity) (f : Field)
  | other (name value : String)

namespace Item

def text : Format → Item → List Char
  | .yaml, field x f => yamlEntry x f
  | .yaml, other name value => Yaml.writeEntry 2 name value
  | .toml, field x f => tomlPair x f
  | .toml, other name value => Toml.writePair name value

@[simp] def key : Item → String
  | field _ f => f.key
  | other name _ => name

@[simp] def field? : Item → Option Field
  | field _ f => some f
  | other _ _ => none

@[simp] def other? : Item → Option String
  | field _ _ => none
  | other name _ => some name

def put (y : Identity) : Item → Identity
  | field x f => x.copy y f
  | other _ _ => y

section Fold

variable {is : List Item} {g : Field}

/-- A field that is not there stays as it is. -/
theorem agrees_foldl_put (h : g ∉ is.filterMap field?) (y : Identity) :
    (is.foldl put y).Agrees y g := by
  induction is generalizing y with
  | nil => exact .refl y g
  | cons i is ih =>
    cases i with
    | field x f =>
      obtain ⟨hne, hrest⟩ := not_or.1 (mt List.mem_cons.2 h)
      exact (ih hrest _).trans (Identity.agrees_copy_of_ne (Ne.symm hne) x y)
    | other name value => exact ih h y

/-- A field that is there once is as it is in its entry. -/
theorem agrees_foldl_put_of_mem (hnodup : (is.filterMap field?).Nodup) {x : Identity}
    (hmem : field x g ∈ is) (y : Identity) : (is.foldl put y).Agrees x g := by
  induction is generalizing y with
  | nil => cases hmem
  | cons i is ih =>
    rcases List.mem_cons.1 hmem with rfl | hrest
    · exact (agrees_foldl_put (List.nodup_cons.1 hnodup).1 _).trans (Identity.agrees_copy x y g)
    · cases i with
      | field z f => exact ih (List.nodup_cons.1 hnodup).2 hrest _
      | other name value => exact ih hnodup hrest y

end Fold

end Item

/-- A file: keys and texts before the heading, the entries under it, and keys and texts after
these. In TOML what is not under the heading must come before it. -/
structure Sheet where
  above : List (String × String)
  items : List Item
  below : List (String × String)

def IsLetters (name : String) : Prop := name ≠ "" ∧ ∀ c ∈ name.toList, c.isAlpha = true

instance (name : String) : Decidable (IsLetters name) := inferInstanceAs (Decidable (_ ∧ _))

namespace Sheet

def text (s : Sheet) : Format → String
  | .yaml => String.ofList (s.above.flatMap (fun e => Yaml.writeEntry 0 e.1 e.2) ++
      ("cluster:\n".toList ++ s.items.flatMap (Item.text .yaml)) ++
      s.below.flatMap fun e => Yaml.writeEntry 0 e.1 e.2)
  | .toml => String.ofList ((s.above ++ s.below).flatMap (fun e => Toml.writePair e.1 e.2) ++
      ("[cluster]\n".toList ++ s.items.flatMap (Item.text .toml)))

def fields (s : Sheet) : List Field := s.items.filterMap Item.field?

def others (s : Sheet) : List String := s.items.filterMap Item.other?

def tops (s : Sheet) : List String := (s.above ++ s.below).map Prod.fst

/-- All other names are of letters, differ from the names that mean something in their place, and
are there once. -/
structure Proper (s : Sheet) : Prop where
  others : ∀ name ∈ s.others, IsLetters name ∧ Field.ofKey? name = none
  others_nodup : s.others.Nodup
  tops : ∀ name ∈ s.tops, IsLetters name
  tops_nodup : ("cluster" :: s.tops).Nodup

variable {s : Sheet}

theorem Proper.other_mem (hs : s.Proper) {i : Item} (hi : i ∈ s.items) :
    ∀ name ∈ i.other?, IsLetters name ∧ Field.ofKey? name = none :=
  fun name hname => hs.others name (List.mem_filterMap.2 ⟨i, hi, hname⟩)

/-- Other names are never those of fields, so an entry is there twice only if a field is. -/
theorem Proper.nodup_keys_iff (hs : s.Proper) :
    (s.items.map Item.key).Nodup ↔ s.fields.Nodup := by
  have hothers := hs.others_nodup
  rw [Sheet.others, List.Nodup, List.pairwise_filterMap] at hothers
  rw [fields, List.Nodup, List.Nodup, List.pairwise_map, List.pairwise_filterMap]
  constructor
  · intro h
    refine h.imp ?_
    rintro (⟨x, f⟩ | _) (⟨y, g⟩ | _) hne _ ⟨⟩ _ ⟨⟩ rfl
    exact hne rfl
  · -- Two fields differ by assumption, two other names as they are there once each.
    intro h
    refine (h.and hothers).imp_of_mem ?_
    have hkey : ∀ name value f, .other name value ∈ s.items → name ≠ Field.key f := by
      rintro name value f hmem rfl
      have hnone := (hs.other_mem hmem _ rfl).2
      rw [Field.ofKey?_key] at hnone
      cases hnone
    rintro (⟨x, f⟩ | ⟨name, value⟩) (⟨y, g⟩ | ⟨name', value'⟩) hi hj ⟨hfield, hother⟩
    · exact fun heq => hfield f rfl g rfl (Field.key_injective heq)
    · exact (hkey _ _ f hj).symm
    · exact hkey _ _ g hi
    · exact hother name rfl name' rfl

def Short (s : Sheet) : Prop := ∀ name ∈ s.others ++ s.tops, name.length ≤ 1024

instance (s : Sheet) : Decidable s.Short := inferInstanceAs (Decidable (∀ _ ∈ _, _))

def identity (s : Sheet) : Identity := s.items.foldl Item.put .empty

def ofFields (x : Identity) (fs : List Field) : Sheet := ⟨[], fs.map (.field x), []⟩

section OfFields

variable (x : Identity) (fs : List Field)

@[simp] theorem fields_ofFields : (ofFields x fs).fields = fs := by
  have hsome : Item.field? ∘ Item.field x = some := rfl
  rw [fields, ofFields, List.filterMap_map, hsome, List.filterMap_some]

@[simp] theorem identity_ofFields : (ofFields x fs).identity = fs.foldl x.copy .empty := by
  rw [identity, ofFields, List.foldl_map]
  rfl

@[simp] theorem others_ofFields : (ofFields x fs).others = [] := by
  simp [others, ofFields, List.filterMap_map]

@[simp] theorem tops_ofFields : (ofFields x fs).tops = [] := rfl

theorem proper_ofFields : (ofFields x fs).Proper where
  others := by simp
  others_nodup := by simp
  tops := by simp
  tops_nodup := by simp

theorem short_ofFields : (ofFields x fs).Short := by
  simp [Short]

/-- A snapshot as it is written is the file with all the fields in their order. -/
theorem text_ofFields_all (format : Format) :
    (ofFields x Field.all).text format = format.encode x := by
  have htext : ∀ g : Item → List Char,
      (ofFields x Field.all).items.flatMap g = Field.all.flatMap fun f => g (.field x f) :=
    fun g => List.flatMap_map _ g _
  cases format with
  | yaml => rw [text, htext]; exact congrArg String.ofList (List.append_nil _)
  | toml => rw [text, htext]; rfl

end OfFields

end Sheet

end NodeConfig
