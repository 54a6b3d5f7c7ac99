import Mathlib
import NodeConfig.Snapshot.FromYaml
import NodeConfig.Snapshot.ToYaml
import NodeConfig.Proofs.Snapshot.Sheet
import NodeConfig.Proofs.Yaml.Document

namespace NodeConfig

theorem isName_key (f : Field) : Yaml.IsName f.key.toList := by
  rcases f with f | _
  · cases f <;> (simp only [Field.key, TextField.key]; refine ⟨?_, ?_, ?_⟩ <;>
      simp [Yaml.isNameChar])
  · simp only [Field.key]
    refine ⟨?_, ?_, ?_⟩ <;> simp [Yaml.isNameChar]

theorem length_key_le (f : Field) : f.key.length ≤ 1024 := by
  rcases f with f | _
  · cases f <;> decide
  · decide

theorem IsLetters.isName {name : String} (h : IsLetters name) : Yaml.IsName name.toList := by
  refine ⟨by simpa using h.1, ?_, fun c hc => ?_⟩
  · intro hhead
    exact absurd (h.2 _ (List.mem_of_head? hhead)) (by decide)
  · simp [Yaml.isNameChar, Char.isAlphanum, h.2 c hc]

theorem isPlain_flag (b : Bool) : Yaml.IsPlain (if b then "true" else "false").toList := by
  cases b <;> refine ⟨?_, ?_, ?_, ?_, ?_, ?_⟩ <;> simp <;> decide

theorem bool?_flag (b : Bool) : Yaml.bool? (if b then "true" else "false").toList = some b := by
  cases b <;> simp [Yaml.bool?]

namespace Item

def entry : Item → Yaml.Entry
  | field x (.text f) => .ofText 2 f.key (x.get f)
  | field x .certFetched =>
    let text := if x.certFetched then "true" else "false"
    ⟨Field.certFetched.key.toList, text.toList ++ ['\n'], text, .plain⟩
  | other name value => .ofText 2 name value

@[simp] theorem entry_key (i : Item) : i.entry.key = i.key.toList := by
  rcases i with ⟨x, f | _⟩ | _ <;> rfl

theorem lines_entry (i : Item) : i.entry.lines 2 = i.text .yaml := by
  rcases i with ⟨x, f | _⟩ | ⟨name, value⟩
  · change (Yaml.Entry.ofText 2 f.key (x.get f)).lines 2 = Yaml.writeEntry 2 f.key (x.get f)
    exact Yaml.Entry.lines_ofText ..
  · change _ = "  cert_fetched: ".toList ++ (if x.certFetched then "true\n" else "false\n").toList
    rw [Yaml.Entry.lines, entry_key]
    cases h : x.certFetched <;> simp [entry, Field.key, h]
  · change (Yaml.Entry.ofText 2 name value).lines 2 = Yaml.writeEntry 2 name value
    exact Yaml.Entry.lines_ofText ..

theorem isEntry {i : Item} (hi : ∀ name ∈ i.other?, IsLetters name ∧ name.length ≤ 1024) :
    i.entry.IsEntry 2 := by
  rcases i with ⟨x, f | _⟩ | ⟨name, value⟩
  · exact Yaml.Entry.isEntry_ofText 2 (isName_key (.text f)) (length_key_le (.text f)) _
  · refine ⟨isName_key .certFetched, length_key_le .certFetched, ?_⟩
    have hmark : (if x.certFetched then "true" else "false").toList.head? ≠
        some Yaml.byteOrderMark := by
      cases x.certFetched <;> simp [Yaml.byteOrderMark]
    have h := Yaml.isValue_plain (isPlain_flag x.certFetched) hmark 2
    rwa [String.ofList_toList] at h
  · exact Yaml.Entry.isEntry_ofText 2 (hi name rfl).1.isName (hi name rfl).2 value

theorem isPlainly_entry (i : Item) : ∀ c ∈ i.entry.value, Yaml.isPlainly c = true := by
  rcases i with ⟨x, f | _⟩ | ⟨name, value⟩
  · exact Yaml.isPlainly_writeScalar 4 _
  · change ∀ c ∈ (if x.certFetched then "true" else "false").toList ++ ['\n'], _
    cases x.certFetched <;> simp <;> decide
  · exact Yaml.isPlainly_writeScalar 4 _

section Fields

variable (src : Yaml.Source) (path : Yaml.Path)

theorem text_entry (i : Item) : src.text path .fieldName i.entry.pair.1 = .ok i.key := by
  simp [Yaml.Entry.pair, Yaml.Source.text, Yaml.Node.resolve]

/-- A field that was not there before is put into the identity. -/
theorem fields_field {x : Identity} {f : Field} {seen : List Field} (hf : f ∉ seen) (y : Identity)
    (rest : List (Yaml.Node × Yaml.Node)) :
    src.fields path seen y ((field x f).entry.pair :: rest) =
      src.fields path (f :: seen) (x.copy y f) rest := by
  rw [Yaml.Source.fields, text_entry]
  simp only [bind, Except.bind, key, Field.ofKey?_key, hf, if_false]
  cases f with
  | text f => rfl
  | certFetched =>
    have hflag : ∀ path, src.flag path (field x .certFetched).entry.pair.2 = .ok x.certFetched := by
      intro path
      change src.flag path (.scalar .none .plain (if x.certFetched then "true" else "false")) = _
      simp only [Yaml.Source.flag, Yaml.Node.resolve, decide_true, Bool.true_or, if_true,
        bool?_flag]
    simp only [hflag]
    rfl

theorem fields_doubled {x : Identity} {f : Field} {seen : List Field} (hf : f ∈ seen) (y : Identity)
    (rest : List (Yaml.Node × Yaml.Node)) :
    src.fields path seen y ((field x f).entry.pair :: rest) =
      .error (.misfit path (.duplicate f.key)) := by
  rw [Yaml.Source.fields, text_entry]
  simp only [bind, Except.bind, key, Field.ofKey?_key, hf, if_true]

/-- Another name is passed over. -/
theorem fields_other {name : String} (hname : Field.ofKey? name = none) (value : String)
    (seen : List Field) (y : Identity) (rest : List (Yaml.Node × Yaml.Node)) :
    src.fields path seen y ((other name value).entry.pair :: rest) =
      src.fields path seen y rest := by
  have hcut : (other name value).entry.pair.2.isCut = false := rfl
  rw [Yaml.Source.fields, text_entry]
  simp only [bind, Except.bind, key, hname, hcut, Bool.false_eq_true, if_false]

theorem filterMap_field (x : Identity) (f : Field) (is : List Item) :
    (field x f :: is).filterMap field? = f :: is.filterMap field? := rfl

variable {is : List Item} {seen : List Field}

/-- Entries in which no field is there twice are all put into the identity. -/
theorem fields_entries (his : ∀ i ∈ is, ∀ name ∈ i.other?, Field.ofKey? name = none)
    (hnodup : (is.filterMap field? ++ seen).Nodup) (y : Identity) :
    src.fields path seen y (is.map fun i => i.entry.pair) = .ok (is.foldl put y) := by
  induction is generalizing seen y with
  | nil => rfl
  | cons i is ih =>
    have his' : ∀ j ∈ is, ∀ name ∈ j.other?, Field.ofKey? name = none :=
      fun j hj => his j (List.mem_cons_of_mem i hj)
    rw [List.map_cons, List.foldl_cons]
    cases i with
    | field x f =>
      -- The field goes from those to come to those seen.
      rw [filterMap_field, List.cons_append, ← List.nodup_middle] at hnodup
      have hf : f ∉ seen := fun hmem =>
        (List.nodup_cons.1 (List.nodup_middle.1 hnodup)).1 (List.mem_append_right _ hmem)
      rw [fields_field src path hf]
      exact ih his' hnodup _
    | other name value =>
      rw [fields_other src path (his _ List.mem_cons_self name rfl)]
      exact ih his' hnodup _

/-- Else the first field that is there again is an error. -/
theorem fields_entries_doubled (his : ∀ i ∈ is, ∀ name ∈ i.other?, Field.ofKey? name = none)
    (hseen : seen.Nodup) (hnodup : ¬ (is.filterMap field? ++ seen).Nodup) (y : Identity) :
    ∃ g, 1 < (is.filterMap field? ++ seen).count g ∧
      src.fields path seen y (is.map fun i => i.entry.pair) =
        .error (.misfit path (.duplicate g.key)) := by
  induction is generalizing seen y with
  | nil => exact absurd hseen hnodup
  | cons i is ih =>
    have his' : ∀ j ∈ is, ∀ name ∈ j.other?, Field.ofKey? name = none :=
      fun j hj => his j (List.mem_cons_of_mem i hj)
    rw [List.map_cons]
    cases i with
    | field x f =>
      rw [filterMap_field, List.cons_append] at hnodup ⊢
      by_cases hf : f ∈ seen
      · refine ⟨f, ?_, fields_doubled src path hf y _⟩
        rw [List.count_cons_self, List.count_append]
        have := List.count_pos_iff.2 hf
        omega
      · rw [← List.nodup_middle] at hnodup
        obtain ⟨g, hcount, hg⟩ := ih his' (List.nodup_cons.2 ⟨hf, hseen⟩) hnodup (x.copy y f)
        rw [List.perm_middle.count_eq] at hcount
        exact ⟨g, hcount, (fields_field src path hf y _).trans hg⟩
    | other name value =>
      rw [fields_other src path (his _ List.mem_cons_self name rfl)]
      exact ih his' hseen hnodup y

end Fields

end Item

namespace Sheet

def topPart (e : String × String) : Yaml.Part := .entry (.ofText 0 e.1 e.2)

def parts (s : Sheet) : List Yaml.Part :=
  s.above.map topPart ++
    .mapping "cluster".toList (s.items.map Item.entry) :: s.below.map topPart

variable {s : Sheet}

theorem toList_text_yaml (s : Sheet) : (s.text .yaml).toList = s.parts.flatMap Yaml.Part.text := by
  have htop : ∀ es : List (String × String), (es.map topPart).flatMap Yaml.Part.text =
      es.flatMap fun e => Yaml.writeEntry 0 e.1 e.2 := by
    intro es
    rw [List.flatMap_map]
    simp only [topPart, Yaml.Part.text, Yaml.Entry.lines_ofText]
  rw [text, String.toList_ofList, parts, List.flatMap_append, List.flatMap_cons, htop, htop,
    Yaml.Part.text, List.flatMap_map]
  simp only [Item.lines_entry]
  simp

theorem isPart (hs : s.Proper) (hshort : s.Short) : ∀ a ∈ s.parts, a.IsPart := by
  have htop : ∀ e ∈ s.above ++ s.below, (topPart e).IsPart := by
    intro e he
    have hmem : e.1 ∈ s.tops := List.mem_map_of_mem he
    exact .entry (Yaml.Entry.isEntry_ofText 0 (hs.tops _ hmem).isName
      (hshort _ (List.mem_append_right _ hmem)) _)
  have hcluster : Yaml.IsName "cluster".toList := by
    refine ⟨?_, ?_, ?_⟩ <;> simp [Yaml.isNameChar]
  intro a ha
  rcases List.mem_append.1 ha with ha | ha
  · obtain ⟨e, he, rfl⟩ := List.mem_map.1 ha
    exact htop e (List.mem_append_left _ he)
  · rcases List.mem_cons.1 ha with rfl | ha
    · refine .mapping hcluster (by decide) fun e he => ?_
      obtain ⟨i, hi, rfl⟩ := List.mem_map.1 he
      refine Item.isEntry fun name hname => ⟨(hs.other_mem hi name hname).1, ?_⟩
      exact hshort name (List.mem_append_left _ (List.mem_filterMap.2 ⟨i, hi, hname⟩))
    · obtain ⟨e, he, rfl⟩ := List.mem_map.1 ha
      exact htop e (List.mem_append_right _ he)

theorem isPlainly_parts (s : Sheet) : ∀ a ∈ s.parts, ∀ c ∈ a.chars, Yaml.isPlainly c = true := by
  intro a ha
  rcases List.mem_append.1 ha with ha | ha
  · obtain ⟨e, -, rfl⟩ := List.mem_map.1 ha
    exact Yaml.isPlainly_writeScalar 2 _
  · rcases List.mem_cons.1 ha with rfl | ha
    · intro c hc
      obtain ⟨e, he, hc⟩ := List.mem_flatMap.1 hc
      obtain ⟨i, -, rfl⟩ := List.mem_map.1 he
      exact i.isPlainly_entry c hc
    · obtain ⟨e, -, rfl⟩ := List.mem_map.1 ha
      exact Yaml.isPlainly_writeScalar 2 _

section Sections

variable (src : Yaml.Source)

/-- Texts outside the heading are passed over. -/
theorem sections_tops {es : List (String × String)} (hes : ∀ e ∈ es, e.1 ≠ "cluster")
    (x? : Option Identity) (rest : List (Yaml.Node × Yaml.Node)) :
    src.sections x? ((es.map topPart).map Yaml.Part.pair ++ rest) = src.sections x? rest := by
  induction es with
  | nil => rfl
  | cons e es ih =>
    have hkey : src.text [] .fieldName (topPart e).pair.1 = .ok e.1 := by
      simp [topPart, Yaml.Part.pair, Yaml.Entry.pair, Yaml.Entry.ofText, Yaml.Source.text,
        Yaml.Node.resolve]
    have hcut : (topPart e).pair.2.isCut = false := rfl
    rw [List.map_cons, List.map_cons, List.cons_append, Yaml.Source.sections, hkey]
    simp only [bind, Except.bind, hes e List.mem_cons_self, hcut, Bool.false_eq_true, if_false]
    exact ih fun d hd => hes d (List.mem_cons_of_mem e hd)

/-- The identity is under the heading; without entries there is nothing in its place. -/
theorem sections_cluster (is : List Item) (rest : List (Yaml.Node × Yaml.Node)) :
    src.sections none ((Yaml.Part.mapping "cluster".toList (is.map Item.entry)).pair :: rest) =
      (src.fields [some "cluster"] [] .empty (is.map fun i => i.entry.pair)).bind
        fun x => src.sections (some x) rest := by
  cases is with
  | nil => rfl
  | cons i is =>
    have hmap : ((i :: is).map Item.entry).map Yaml.Entry.pair =
        (i :: is).map fun i => i.entry.pair := List.map_map
    rw [← hmap]
    rfl

theorem sections_parts (hs : s.Proper) :
    src.sections none (s.parts.map Yaml.Part.pair) =
      src.fields [some "cluster"] [] .empty (s.items.map fun i => i.entry.pair) := by
  have htops : ∀ e ∈ s.above ++ s.below, e.1 ≠ "cluster" := by
    intro e he heq
    exact (List.nodup_cons.1 hs.tops_nodup).1 (heq ▸ List.mem_map_of_mem he)
  have hbelow : ∀ x, src.sections (some x) ((s.below.map topPart).map Yaml.Part.pair) = .ok x := by
    intro x
    have h := sections_tops src (fun e he => htops e (List.mem_append_right _ he)) (some x) []
    rwa [List.append_nil] at h
  rw [parts, List.map_append, sections_tops src fun e he => htops e (List.mem_append_left _ he),
    List.map_cons, sections_cluster]
  simp only [hbelow]
  cases src.fields [some "cluster"] [] .empty (s.items.map fun i => i.entry.pair) <;> rfl

end Sections

def source (s : Sheet) : Yaml.Source := ⟨.mapping .none (s.parts.map Yaml.Part.pair), .malformed⟩

theorem snapshotOfYaml_text (hs : s.Proper) (hshort : s.Short) :
    snapshotOfYaml (s.text .yaml).toList =
      (s.source.fields [some "cluster"] [] .empty
        (s.items.map fun i => i.entry.pair)).map some := by
  have hne : s.parts ≠ [] := by simp [parts]
  have hsnapshot : s.source.snapshot =
      (s.source.fields [some "cluster"] [] .empty (s.items.map fun i => i.entry.pair)).map some :=
    congrArg (Except.map some) (sections_parts s.source hs)
  rw [snapshotOfYaml, toList_text_yaml, Yaml.document_parts hne (isPart hs hshort)
    s.isPlainly_parts, ← hsnapshot]
  change s.source.snapshot.bind (fun x? => .ok x?) = _
  cases s.source.snapshot <;> rfl

/-- A file with no field twice is read as what is put together in it. -/
theorem Proper.snapshotOfYaml (hs : s.Proper) (hshort : s.Short) (hnodup : s.fields.Nodup) :
    snapshotOfYaml (s.text .yaml).toList = .ok (some s.identity) := by
  have hfields := Item.fields_entries s.source [some "cluster"]
    (fun i hi name hname => (hs.other_mem hi name hname).2)
    ((List.append_nil s.fields).symm ▸ hnodup) .empty
  rw [snapshotOfYaml_text hs hshort, hfields]
  rfl

/-- A field that is there twice is named, with the heading it is under. -/
theorem Proper.snapshotOfYaml_doubled (hs : s.Proper) (hshort : s.Short)
    (hnodup : ¬ s.fields.Nodup) :
    ∃ g, 1 < s.fields.count g ∧ NodeConfig.snapshotOfYaml (s.text .yaml).toList =
      .error (.misfit [some "cluster"] (.duplicate g.key)) := by
  obtain ⟨g, hcount, hfields⟩ := Item.fields_entries_doubled s.source [some "cluster"]
    (fun i hi name hname => (hs.other_mem hi name hname).2) List.nodup_nil
    ((List.append_nil s.fields).symm ▸ hnodup) .empty
  rw [List.append_nil] at hcount
  refine ⟨g, hcount, ?_⟩
  rw [snapshotOfYaml_text hs hshort, hfields]
  rfl

/-- A file that begins with a name that is too long is taken for a text. -/
theorem snapshotOfYaml_longName {name : String} (hname : IsLetters name)
    (hlong : 1024 < name.length) (value : String) :
    snapshotOfYaml ((Sheet.mk [(name, value)] [] []).text .yaml).toList =
      .error (.misfit [] (Yaml.scalarMisfit .none .plain name .document)) := by
  have htext : ((Sheet.mk [(name, value)] [] []).text .yaml).toList = name.toList ++ ':' ::
      (' ' :: (Yaml.endLine (Yaml.writeScalar 2 value.toList) ++ "cluster:\n".toList)) := by
    simp [text, Yaml.writeEntry]
  have hall : ∀ c ∈ ' ' :: (Yaml.endLine (Yaml.writeScalar 2 value.toList) ++
      "cluster:\n".toList), Yaml.isPlainly c = true := by
    have hheading : ∀ c ∈ "cluster:\n".toList, Yaml.isPlainly c = true := by simp; decide
    intro c hc
    rcases List.mem_cons.1 hc with rfl | hc
    · decide
    · exact (List.mem_append.1 hc).elim (Yaml.isPlainly_writeScalar 2 _ c) (hheading c)
  have hlong' : 1024 < name.toList.length := by rwa [String.length_toList]
  -- A null is at most four characters long.
  have hnull : (name = "" || Yaml.isNull name.toList) = false := by
    have hne : ∀ cs : List Char, cs.length ≤ 4 → name.toList ≠ cs := by
      rintro cs hcs rfl
      omega
    simp [Yaml.isNull, hname.1, hne]
  rw [snapshotOfYaml, htext, Yaml.document_longKey hname.isName hlong' rfl hall,
    String.ofList_toList]
  simp only [Yaml.Source.snapshot, Yaml.Label.none, hnull]
  rfl

end Sheet

end NodeConfig
