import Mathlib
import NodeConfig.Proofs.Snapshot.RoundTrip

namespace NodeConfig

/-- What is wrong with a file that has a field twice. -/
def Format.doubled : Format → Field → SnapshotFault
  | .yaml, g => .misfit [some "cluster"] (.duplicate g.key)
  | .toml, _ => .duplicateKey

namespace Sheet

variable {s t : Sheet}

/-- The order of the entries does not matter, nor do entries that are no fields. -/
theorem identity_congr (hs : s.fields.Nodup) (ht : t.fields.Nodup)
    (h : ∀ x g, Item.field x g ∈ t.items ↔ Item.field x g ∈ s.items) : t.identity = s.identity := by
  have hmem : ∀ (u : Sheet) (g : Field), g ∈ u.fields ↔ ∃ x, Item.field x g ∈ u.items := by
    intro u g
    constructor
    · intro hg
      obtain ⟨⟨x, f⟩ | _, hi, hf⟩ := List.mem_filterMap.1 hg
      · cases hf
        exact ⟨x, hi⟩
      · cases hf
    · rintro ⟨x, hi⟩
      exact List.mem_filterMap.2 ⟨_, hi, rfl⟩
  refine Identity.eq_of_agrees fun g => ?_
  by_cases hg : g ∈ s.fields
  · obtain ⟨x, hx⟩ := (hmem s g).1 hg
    exact (Item.agrees_foldl_put_of_mem ht ((h x g).2 hx) _).trans
      (Item.agrees_foldl_put_of_mem hs hx _).symm
  · have hg' : g ∉ t.fields := by
      rw [hmem] at hg ⊢
      rintro ⟨x, hx⟩
      exact hg ⟨x, (h x g).1 hx⟩
    exact (Item.agrees_foldl_put hg' _).trans (Item.agrees_foldl_put hg _).symm

theorem Proper.decode {format : Format} (hs : s.Proper) (hshort : format = .yaml → s.Short)
    (hnodup : s.fields.Nodup) :
    format.decode (Utf8.ofString (s.text format)) = .ok (some s.identity) := by
  rw [Format.decode, Utf8.decode_ofString]
  cases format with
  | yaml => exact hs.snapshotOfYaml (hshort rfl) hnodup
  | toml => exact hs.snapshotOfToml hnodup

theorem Proper.decode_doubled {format : Format} (hs : s.Proper)
    (hshort : format = .yaml → s.Short) (hnodup : ¬ s.fields.Nodup) :
    ∃ g, 1 < s.fields.count g ∧
      format.decode (Utf8.ofString (s.text format)) = .error (format.doubled g) := by
  rw [Format.decode, Utf8.decode_ofString]
  cases format with
  | yaml => exact hs.snapshotOfYaml_doubled (hshort rfl) hnodup
  | toml =>
    obtain ⟨g, hg⟩ := List.exists_duplicate_iff_not_nodup.2 hnodup
    exact ⟨g, List.duplicate_iff_two_le_count.1 hg, hs.snapshotOfToml_doubled hnodup⟩

end Sheet

namespace Snapshot

variable {f : Files} {p : Path} {s : Sheet}

/-- Fields that are in a file once are loaded as they were written, and all other fields are empty.
The order of the entries, and entries under other names, change nothing. A field that is there twice
makes the file corrupt, whatever its values and wherever they are. -/
theorem read_sheet (hs : s.Proper) (hshort : Format.ofPath p = .yaml → s.Short)
    (hf : f.read p = .ok (Utf8.ofString (s.text (Format.ofPath p)))) :
    (s.fields.Nodup → ∃ x, read f p = .ok (.loaded x) ∧
      (∀ y g, .field y g ∈ s.items → x.Agrees y g) ∧
      (∀ g, g ∉ s.fields → x.Agrees .empty g) ∧
      ∀ (t : Sheet) (h : Files), t.Proper → (Format.ofPath p = .yaml → t.Short) →
        t.fields.Nodup → (∀ y g, .field y g ∈ t.items ↔ .field y g ∈ s.items) →
        h.read p = .ok (Utf8.ofString (t.text (Format.ofPath p))) →
        read h p = .ok (.loaded x)) ∧
    (¬ s.fields.Nodup → ∃ g fault, 1 < s.fields.count g ∧ read f p = .error fault ∧
      fault = .corrupt p ((Format.ofPath p).doubled g) ∧ fault.isFatal = true) := by
  -- The same holds of the file itself and of any other with the same fields.
  have hread : ∀ (t : Sheet) (h : Files), t.Proper → (Format.ofPath p = .yaml → t.Short) →
      t.fields.Nodup → h.read p = .ok (Utf8.ofString (t.text (Format.ofPath p))) →
      read h p = .ok (.loaded t.identity) := by
    intro t h ht htshort hnodup hh
    rw [read, hh]
    simp only [ht.decode htshort hnodup]
  constructor
  · intro hnodup
    refine ⟨s.identity, hread s f hs hshort hnodup hf,
      fun y g hmem => Item.agrees_foldl_put_of_mem hnodup hmem _,
      fun g hg => Item.agrees_foldl_put hg _, ?_⟩
    intro t h ht htshort htnodup hsame hh
    rw [hread t h ht htshort htnodup hh, Sheet.identity_congr hnodup htnodup hsame]
  · intro hnodup
    obtain ⟨g, hcount, hdecode⟩ := hs.decode_doubled hshort hnodup
    refine ⟨g, _, hcount, ?_, rfl, rfl⟩
    rw [read, hf]
    simp only [hdecode]

def mixed : Sheet where
  above := [("version", "two")]
  items := [.field odd (.text .url), .other "extra" " a\n\nb\n", .field odd .certFetched,
    .field odd (.text .token)]
  below := [("rest", "")]

def bare : Sheet := .ofFields odd [.text .token, .certFetched, .text .url]

def again : Sheet where
  above := []
  items := [.field odd (.text .token), .other "extra" "", .field .empty (.text .token)]
  below := []

theorem read_sheet_mixed :
    (∃ x, read (fileAtHome (Path.ofString "node.yml")
        (Utf8.ofString (mixed.text (Format.ofPath (Path.ofString "node.yml")))))
          (Path.ofString "node.yml") = .ok (.loaded x) ∧
      x.url = odd.url ∧ x.token = odd.token ∧ x.certFetched = true ∧ x.name = "" ∧
      read (fileAtHome (Path.ofString "node.yml")
        (Utf8.ofString (bare.text (Format.ofPath (Path.ofString "node.yml")))))
          (Path.ofString "node.yml") = .ok (.loaded x)) ∧
    ∃ fault, read (fileAtHome (Path.ofString "node.toml")
        (Utf8.ofString (again.text (Format.ofPath (Path.ofString "node.toml")))))
          (Path.ofString "node.toml") = .error fault ∧ fault.isFatal = true := by
  have hyaml : ∀ content, (fileAtHome (Path.ofString "node.yml") content).read
      (Path.ofString "node.yml") = .ok content := fun _ => rfl
  have htoml : ∀ content, (fileAtHome (Path.ofString "node.toml") content).read
      (Path.ofString "node.toml") = .ok content := fun _ => rfl
  have hextra : IsLetters "extra" ∧ Field.ofKey? "extra" = none := by simp [IsLetters]; decide
  have hmixed : mixed.Proper := by
    refine ⟨by simpa [Sheet.others, mixed] using hextra, by decide, ?_, by decide⟩
    simp [Sheet.tops, mixed, IsLetters]
  have hagain : again.Proper :=
    ⟨by simpa [Sheet.others, again] using hextra, by decide, by simp [Sheet.tops, again], by decide⟩
  have hbare : bare.Proper := Sheet.proper_ofFields odd _
  constructor
  · obtain ⟨x, hx, hin, hout, hsame⟩ :=
      (read_sheet hmixed (fun _ => by decide) (hyaml _)).1 (by decide)
    refine ⟨x, hx, hin odd (.text .url) (by simp [mixed]), hin odd (.text .token) (by simp [mixed]),
      hin odd .certFetched (by simp [mixed]), hout (.text .name) (by decide), ?_⟩
    refine hsame bare _ hbare (fun _ => Sheet.short_ofFields odd _) (by decide) ?_ (hyaml _)
    intro y g
    simp only [mixed, bare, Sheet.ofFields, List.map_cons, List.map_nil, List.mem_cons,
      List.not_mem_nil, or_false, Item.field.injEq, reduceCtorEq, false_or]
    constructor <;> rintro (h | h | h) <;> simp [h]
  · obtain ⟨g, fault, -, hread, -, hfatal⟩ :=
      (read_sheet hagain (fun h => absurd h (by decide)) (htoml _)).2 (by decide)
    exact ⟨fault, hread, hfatal⟩

/-- Without the bound on names it fails, for a key has 1024 characters at most in YAML. -/
theorem read_sheet_long_name :
    ¬ ∀ (f : Files) (p : Path) (s : Sheet), s.Proper → s.fields.Nodup →
      f.read p = .ok (Utf8.ofString (s.text (Format.ofPath p))) →
      ∃ x, read f p = .ok (.loaded x) := by
  intro h
  obtain ⟨name, hname⟩ : ∃ name : String, name.toList = List.replicate 1025 'a' :=
    ⟨_, String.toList_ofList⟩
  have hlong : 1024 < name.length := by
    rw [← String.length_toList, hname, List.length_replicate]
    decide
  have hletters : IsLetters name := by
    refine ⟨fun hempty => ?_, fun c hc => ?_⟩
    · rw [hempty] at hlong
      exact absurd hlong (by decide)
    · rw [hname] at hc
      rw [List.eq_of_mem_replicate hc]
      decide
  have hne : "cluster" ≠ name := by
    rintro rfl
    exact absurd hlong (by decide)
  have hs : (Sheet.mk [(name, "x")] [] []).Proper :=
    ⟨by simp [Sheet.others], List.nodup_nil, by simpa [Sheet.tops] using hletters,
      by simpa [Sheet.tops] using hne⟩
  obtain ⟨x, hx⟩ := h (fileAtHome (Path.ofString "c.yaml") _) (Path.ofString "c.yaml") _ hs
    List.nodup_nil rfl
  have hread : ∀ content, (fileAtHome (Path.ofString "c.yaml") content).read
      (Path.ofString "c.yaml") = .ok content := fun _ => rfl
  have hformat : Format.ofPath (Path.ofString "c.yaml") = .yaml := by decide
  rw [read, hread, hformat] at hx
  simp only [Format.decode, Utf8.decode_ofString,
    Sheet.snapshotOfYaml_longName hletters hlong] at hx
  cases hx

end Snapshot

end NodeConfig
