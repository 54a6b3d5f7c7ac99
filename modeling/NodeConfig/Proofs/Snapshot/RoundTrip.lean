import Mathlib
import NodeConfig.Snapshot.File
import NodeConfig.Proofs.Snapshot.Toml
import NodeConfig.Proofs.Snapshot.Yaml
import NodeConfig.Proofs.Text.Utf8

namespace NodeConfig

namespace Snapshot

/-- The text of an identity is decoded to the identity, in either format. -/
theorem decode_encode (format : Format) (x : Identity) :
    format.decode (Utf8.ofString (format.encode x)) = .ok (some x) := by
  have hs := Sheet.proper_ofFields x Field.all
  have hnodup : (Sheet.ofFields x Field.all).fields.Nodup :=
    Sheet.fields_ofFields x Field.all ▸ Field.nodup_all
  have hall : (Sheet.ofFields x Field.all).identity = x := by
    rw [Sheet.identity_ofFields, Identity.foldl_copy_all]
  rw [← Sheet.text_ofFields_all, Format.decode, Utf8.decode_ofString]
  cases format with
  | yaml => exact (hs.snapshotOfYaml (Sheet.short_ofFields x _) hnodup).trans (by rw [hall])
  | toml => exact (hs.snapshotOfToml hnodup).trans (by rw [hall])

/-- A file with the text of an identity is loaded as the identity. -/
theorem read_eq_loaded {f : Files} {p : Path} {x : Identity}
    (h : f.read p = .ok (Utf8.ofString (text p x))) : read f p = .ok (.loaded x) := by
  rw [read, h]
  simp only [text, decode_encode]

/-- Under a path in the YAML format every identity has a text, and a file that holds it is loaded as
the identity: all texts and the flag are as they were. -/
theorem yaml_round_trip {p : Path} (hp : Format.ofPath p = .yaml) (x : Identity) :
    text p x = yamlOfSnapshot x ∧
      ∀ f : Files, f.read p = .ok (Utf8.ofString (text p x)) → read f p = .ok (.loaded x) := by
  refine ⟨?_, fun f h => read_eq_loaded h⟩
  rw [text, hp, Format.encode]

def fileAtHome (name : Segment) (content : Bytes) : Files :=
  ⟨[(Files.home, .dir), (Files.home ++ [name], .file content)]⟩

def odd : Identity where
  id := "null"
  mode := " - a: # b"
  token := "\n  'x'\r\n\n"
  url := "a\u0085b\u2028 c"
  certFetched := true
  name := "\"\"\"''' \\ \x7f"
  description := "\ufeff--- !t &a *b"

theorem yaml_round_trip_odd :
    text (Path.ofString "node.yml") odd = yamlOfSnapshot odd ∧
      read (fileAtHome (Path.ofString "node.yml")
        (Utf8.ofString (text (Path.ofString "node.yml") odd))) (Path.ofString "node.yml") =
          .ok (.loaded odd) := by
  have h := yaml_round_trip (p := Path.ofString "node.yml") (by decide) odd
  exact ⟨h.1, h.2 _ rfl⟩

/-- The same under a path whose extension is `toml`, in any case of its letters. -/
theorem toml_round_trip {p : Path} {ext : Bytes} (hp : p.extension? = some ext)
    (hext : ext.map Format.lower = Utf8.ofString "toml") (x : Identity) :
    text p x = tomlOfSnapshot x ∧
      ∀ f : Files, f.read p = .ok (Utf8.ofString (text p x)) → read f p = .ok (.loaded x) := by
  refine ⟨?_, fun f h => read_eq_loaded h⟩
  rw [text, Format.ofPath, hp]
  simp only [hext, if_true, Format.encode]

theorem toml_round_trip_odd :
    text (Path.ofString "node.tOmL") odd = tomlOfSnapshot odd ∧
      read (fileAtHome (Path.ofString "node.tOmL")
        (Utf8.ofString (text (Path.ofString "node.tOmL") odd))) (Path.ofString "node.tOmL") =
          .ok (.loaded odd) := by
  have hext : Path.extension? (Path.ofString "node.tOmL") = some (Utf8.ofString "tOmL") := by decide
  have h := toml_round_trip hext (by decide) odd
  exact ⟨h.1, h.2 _ rfl⟩

end Snapshot

end NodeConfig
