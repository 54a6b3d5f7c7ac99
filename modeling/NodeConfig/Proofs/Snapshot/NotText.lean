import Mathlib
import NodeConfig.Proofs.Snapshot.RoundTrip
import NodeConfig.Proofs.Text.IllFormed

namespace NodeConfig

/-- A result that is no fault of the bytes. -/
structure Readable {α : Type} (r : Except SnapshotFault α) : Prop where
  ne : ∀ fault, r ≠ .error (.notText fault)

section
variable {α β : Type}

theorem readable_ok (a : α) : Readable (.ok a) := ⟨nofun⟩

theorem Readable.bind {r : Except SnapshotFault α} {g : α → Except SnapshotFault β}
    (h : Readable r) (hg : ∀ a, Readable (g a)) : Readable (r >>= g) := by
  cases r with
  | error e =>
    constructor
    rintro fault ⟨⟩
    exact h.ne fault rfl
  | ok a => exact hg a

theorem Readable.map {r : Except SnapshotFault α} (h : Readable r) (f : α → β) :
    Readable (r.map f) := by
  cases r with
  | error e =>
    constructor
    rintro fault ⟨⟩
    exact h.ne fault rfl
  | ok a => exact readable_ok _

end

namespace Yaml

variable (src : Source) (path : Path) (wanted : Wanted) (n : Node)

theorem readable_cut {α : Type} : Readable (.error src.cut : Except SnapshotFault α) := by
  unfold Source.cut
  split <;> exact ⟨nofun⟩

theorem readable_misfit {α : Type} :
    Readable (.error (src.misfit path wanted n) : Except SnapshotFault α) := by
  unfold Source.misfit
  split
  · exact ⟨nofun⟩
  · exact ⟨nofun⟩
  · exact ⟨nofun⟩
  · exact readable_cut src
  · exact readable_cut src

theorem readable_text : Readable (src.text path wanted n) := by
  unfold Source.text
  split
  · exact readable_ok _
  · exact readable_misfit ..

theorem readable_flag : Readable (src.flag path n) := by
  unfold Source.flag
  split
  · dsimp only
    split
    · exact readable_ok _
    · exact readable_misfit ..
  · exact readable_misfit ..

theorem readable_fields (seen : List Field) (x : Identity) (pairs : List (Node × Node)) :
    Readable (src.fields path seen x pairs) := by
  induction pairs generalizing seen x with
  | nil => exact readable_ok x
  | cons pair rest ih =>
    obtain ⟨k, v⟩ := pair
    apply (readable_text src path .fieldName k).bind
    intro key
    split
    · split
      · exact readable_cut src
      · exact ih seen x
    · split
      · exact ⟨nofun⟩
      · split
        · exact (readable_text ..).bind fun s => ih _ _
        · exact (readable_flag ..).bind fun b => ih _ _

theorem readable_identity : Readable (src.identity path n) := by
  unfold Source.identity
  split
  · exact readable_fields ..
  · split
    · exact readable_ok _
    · exact readable_misfit ..

theorem readable_sections (x? : Option Identity) (pairs : List (Node × Node)) :
    Readable (src.sections x? pairs) := by
  induction pairs generalizing x? with
  | nil => exact readable_ok _
  | cons pair rest ih =>
    obtain ⟨k, v⟩ := pair
    apply (readable_text src [] .fieldName k).bind
    intro key
    split
    · split
      · exact ⟨nofun⟩
      · exact (readable_identity ..).bind fun x => ih (some x)
    · split
      · exact readable_cut src
      · exact ih x?

theorem readable_snapshot : Readable src.snapshot := by
  unfold Source.snapshot
  split
  · exact (readable_sections ..).map some
  · split
    · split
      · exact readable_ok _
      · exact readable_misfit ..
    · split
      · exact readable_ok _
      · split
        · exact readable_ok _
        · exact readable_misfit ..
  · exact readable_misfit ..

end Yaml

theorem readable_snapshotOfYaml (cs : List Char) : Readable (snapshotOfYaml cs) := by
  unfold snapshotOfYaml
  dsimp only
  split
  · exact readable_ok _
  · apply (Yaml.readable_snapshot _).bind
    intro x?
    split
    · exact Yaml.readable_cut _
    · split
      · exact ⟨nofun⟩
      · exact readable_ok x?

namespace Toml

theorem readable_readField (x : Identity) (v : Value) (f : Field) : Readable (readField x v f) := by
  unfold readField misfit
  split
  · split
    · exact readable_ok _
    · exact ⟨nofun⟩
  · split
    · exact readable_ok _
    · exact ⟨nofun⟩

theorem readable_fieldsOfTable (x : Identity) (es : Entries) : Readable (fieldsOfTable x es) := by
  induction es generalizing x with
  | nil => exact readable_ok x
  | cons e es ih =>
    obtain ⟨key, v⟩ := e
    rw [fieldsOfTable]
    split
    · exact (readable_readField ..).bind ih
    · exact ih x

theorem readable_fieldsOfItems (x : Identity) (fs : List Field) (vs : List Value) :
    Readable (fieldsOfItems x fs vs) := by
  induction fs generalizing x vs with
  | nil => exact readable_ok x
  | cons f fs ih =>
    cases vs with
    | nil => exact readable_ok x
    | cons v vs => exact (readable_readField x v f).bind fun y => ih y vs

theorem readable_identityOf (v : Value) : Readable (identityOf v) := by
  unfold identityOf
  split
  · exact readable_fieldsOfTable ..
  · exact readable_ok _
  · exact readable_fieldsOfItems ..
  · exact readable_fieldsOfItems ..
  · exact ⟨nofun⟩

end Toml

theorem readable_snapshotOfToml (cs : List Char) : Readable (snapshotOfToml cs) := by
  unfold snapshotOfToml
  split
  · exact readable_ok _
  · split
    · next fault _ => cases fault <;> exact ⟨nofun⟩
    · split
      · exact readable_ok _
      · exact (Toml.readable_identityOf _).map some

/-- A fault of the bytes is found before the format matters. -/
theorem Format.decode_eq_notText_iff {format : Format} {content : Bytes} {fault : Utf8.Fault} :
    format.decode content = .error (.notText fault) ↔ Utf8.decode content = .error fault := by
  unfold Format.decode
  cases Utf8.decode content with
  | error e => simp
  | ok cs =>
    refine iff_of_false ?_ nofun
    cases format with
    | yaml => exact (readable_snapshotOfYaml cs).ne fault
    | toml => exact (readable_snapshotOfToml cs).ne fault

namespace Snapshot

theorem read_eq_notText_iff {f : Files} {p path : Path} {content : Bytes} {fault : Utf8.Fault}
    (h : f.read p = .ok content) :
    read f p = .error (.corrupt path (.notText fault)) ↔
      path = p ∧ Utf8.decode content = .error fault := by
  rw [read, h, ← (Format.ofPath p).decode_eq_notText_iff]
  dsimp only
  cases (Format.ofPath p).decode content with
  | error e =>
    simp only [Except.error.injEq, ConfigFault.corrupt.injEq]
    exact and_congr_left fun _ => eq_comm
  | ok x? => cases x? <;> simp

/-- A file that can be read is reported not to be text exactly if its bytes are the encoding of no
characters, whatever the format. The index is then the length of the longest beginning that is text.
The sequence there is called incomplete if more bytes could make text of the whole; if none could,
its length is given, which is that of the maximal ill-formed subsequence at the index. -/
theorem read_notText {f : Files} {p : Path} {content : Bytes} (h : f.read p = .ok content) :
    ((∃ path fault, read f p = .error (.corrupt path (.notText fault))) ↔
      ¬ Utf8.IsText content) ∧
    ∀ path fault, read f p = .error (.corrupt path (.notText fault)) →
      (ConfigFault.corrupt path (.notText fault)).message =
        s!"malformed cluster snapshot {p.display}: {fault.message}" ∧
      IsGreatest {i | i ≤ content.length ∧ Utf8.IsText (content.take i)} fault.start ∧
      (fault.length = none ↔ ∃ more, Utf8.IsText (content ++ more)) ∧
      (fault.length = none →
        fault.message = s!"incomplete utf-8 byte sequence from index {fault.start}") ∧
      ∀ n, fault.length = some n → 1 ≤ n ∧ n ≤ 3 ∧
        Utf8.IsMaximalSubpart (content.drop fault.start) n ∧
        fault.message = s!"invalid utf-8 sequence of {n} bytes from index {fault.start}" := by
  simp only [read_eq_notText_iff h]
  constructor
  · rw [← Utf8.decode_eq_error_iff]
    exact ⟨fun ⟨_, fault, _, hd⟩ => ⟨fault, hd⟩, fun ⟨fault, hd⟩ => ⟨p, fault, rfl, hd⟩⟩
  · rintro path fault ⟨rfl, hd⟩
    refine ⟨rfl, Utf8.isGreatest_start hd, Utf8.length_eq_none_iff hd, ?_, ?_⟩
    · intro hnone
      rw [Utf8.Fault.message, hnone]
    · intro n hn
      obtain ⟨hpos, hle, hmax⟩ := Utf8.isMaximalSubpart_length hd hn
      refine ⟨hpos, hle, hmax, ?_⟩
      rw [Utf8.Fault.message, hn]

/-- A surrogate is no character, and a sequence of three bytes may end after two. -/
theorem read_notText_surrogate :
    let p := Path.ofString "node.toml"
    let surrogate : Bytes := [0x61, 0xED, 0xA0, 0x80]
    let cut : Bytes := [0x61, 0xE2, 0x82]
    (∃ fault, read (fileAtHome p surrogate) p = .error (.corrupt p (.notText fault)) ∧
      fault.message = "invalid utf-8 sequence of 1 bytes from index 1") ∧
    Utf8.IsMaximalSubpart [0xED, 0xA0, 0x80] 1 ∧
    (∃ fault, read (fileAtHome p cut) p = .error (.corrupt p (.notText fault)) ∧
      fault.message = "incomplete utf-8 byte sequence from index 1") ∧
    ∃ more, Utf8.IsText (cut ++ more) := by
  intro p surrogate cut
  have hread : ∀ content, (fileAtHome p content).read p = .ok content := fun _ => rfl
  have hfault : read (fileAtHome p surrogate) p = .error (.corrupt p (.notText ⟨1, some 1⟩)) :=
    (read_eq_notText_iff (hread surrogate)).2 ⟨rfl, by cbv⟩
  have hcut : read (fileAtHome p cut) p = .error (.corrupt p (.notText ⟨1, none⟩)) :=
    (read_eq_notText_iff (hread cut)).2 ⟨rfl, by cbv⟩
  obtain ⟨-, -, -, -, hlength⟩ := (read_notText (hread surrogate)).2 _ _ hfault
  obtain ⟨-, -, hmore, hmessage, -⟩ := (read_notText (hread cut)).2 _ _ hcut
  obtain ⟨-, -, hmax, hinvalid⟩ := hlength 1 rfl
  exact ⟨⟨_, hfault, hinvalid⟩, hmax, ⟨_, hcut, hmessage rfl⟩, hmore.1 rfl⟩

end Snapshot

end NodeConfig
