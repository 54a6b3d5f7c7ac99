import Mathlib
import NodeConfig.Proofs.Files.Replace
import NodeConfig.Snapshot.File

namespace NodeConfig

namespace Snapshot

variable {f g : Files} {disk : Files.Disk} {p : Path} {x : Identity}

theorem writeOn_eq_ok_iff : writeOn f disk p x = (g, .ok ()) ↔
    f.replace disk p (Utf8.ofString (text p x)) = ⟨g, none⟩ := by
  unfold writeOn
  split
  · next h => simp [h]
  · next h => simp [h]

/-- A write replaces the file if tree and disk allow it, and otherwise ends with an error that names
the path and leaves the tree alone. -/
theorem writeOn_cases (f : Files) (disk : Files.Disk) (p : Path) (x : Identity) :
    (disk.Takes (Utf8.ofString (text p x)) ∧ ∃ d t name, f.Replaceable p d t name ∧
        writeOn f disk p x = (f.replaced p (Utf8.ofString (text p x)) d t, .ok ())) ∨
      (¬ (disk.Takes (Utf8.ofString (text p x)) ∧ ∃ d t name, f.Replaceable p d t name)) ∧
        ∃ e, writeOn f disk p x = (f, .error (.write p e)) := by
  rcases hw : f.replace disk p (Utf8.ofString (text p x)) with ⟨g, _ | e⟩
  · obtain ⟨htakes, d, t, name, hr, rfl⟩ := Files.replace_eq_ok_iff.1 hw
    exact .inl ⟨htakes, d, t, name, hr, writeOn_eq_ok_iff.2 hw⟩
  · obtain rfl := Files.eq_of_replace_error hw
    refine .inr ⟨?_, e, by simp only [writeOn, hw]⟩
    rintro ⟨htakes, d, t, name, hr⟩
    have hok := Files.replace_eq_ok_iff.2 ⟨htakes, d, t, name, hr, rfl⟩
    cases congrArg Files.Attempt.error (hw.symm.trans hok)

theorem exists_writeOn_iff : (∃ g, writeOn f disk p x = (g, .ok ())) ↔
    disk.Takes (Utf8.ofString (text p x)) ∧ ∃ d t name, f.Replaceable p d t name := by
  obtain ⟨htakes, d, t, name, hr, hw⟩ | ⟨hnot, e, hw⟩ := writeOn_cases f disk p x
  · exact iff_of_true ⟨_, hw⟩ ⟨htakes, d, t, name, hr⟩
  · refine iff_of_false ?_ hnot
    rintro ⟨g, hg⟩
    cases hw.symm.trans hg

/-- During a write the tree has a temporary file in it with a beginning of the text; at last it is
as the write leaves it. -/
theorem mem_states_writeOn (h : g ∈ (f.replacing disk p (Utf8.ofString (text p x))).states) :
    (∃ d part, part <+: Utf8.ofString (text p x) ∧ g = f.withTemporary p d part) ∨
      g = (writeOn f disk p x).1 := by
  have hfiles : (f.replace disk p (Utf8.ofString (text p x))).files = (writeOn f disk p x).1 := by
    unfold writeOn
    split
    · next h => rw [h]
    · next h => rw [h]
  rw [← hfiles]
  exact Files.mem_states h

theorem write_eq_ok_iff : write f p x = (g, .ok ()) ↔
    ∃ d t name, f.Replaceable p d t name ∧ g = f.replaced p (Utf8.ofString (text p x)) d t :=
  writeOn_eq_ok_iff.trans
    (Files.replace_eq_ok_iff.trans (and_iff_right (Files.Disk.takes_sound _)))

/-- What can be written can be written again and again. -/
theorem exists_write {d : Location} {t : Files.Target} {name : Segment}
    (hr : f.Replaceable p d t name) (x : Identity) :
    ∃ g, write f p x = (g, .ok ()) ∧ g.Replaceable p d t name :=
  ⟨_, write_eq_ok_iff.2 ⟨d, t, name, hr, rfl⟩, hr.again⟩

theorem read_write (h : write f p x = (g, .ok ())) : g.read p = .ok (Utf8.ofString (text p x)) :=
  Files.read_replace (writeOn_eq_ok_iff.1 h)

/-- What was written can be written again, and that changes no entry. -/
theorem write_again (h : write f p x = (g, .ok ())) :
    ∃ u, write g p x = (u, .ok ()) ∧ ∀ l, u.get? l = g.get? l := by
  obtain ⟨d, t, name, hr, rfl⟩ := write_eq_ok_iff.1 h
  refine ⟨_, write_eq_ok_iff.2 ⟨d, t, name, hr.again, rfl⟩, ?_⟩
  intro l
  rw [hr.again.get?_replaced, hr.get?_replaced]
  split <;> rfl

/-- Whatever the disk answers, a write ends well exactly if the file can be replaced and the disk
takes the text; then the path leads to the text, and every other entry is as before. Else it ends
with an error that names the path, and all entries are as before, wherever it stopped. The temporary
file is gone in either case. On the way there is nothing new but the temporary file, with a
beginning of the text in it, and the path leads to what was there or to the whole text. -/
theorem write_all_or_nothing (f : Files) (disk : Files.Disk) (p : Path) (x : Identity) :
    ((∃ g, writeOn f disk p x = (g, .ok ())) ↔
        disk.Takes (Utf8.ofString (text p x)) ∧ ∃ d t name, f.Replaceable p d t name) ∧
    ((∃ g l, writeOn f disk p x = (g, .ok ()) ∧ g.read p = .ok (Utf8.ofString (text p x)) ∧
        g.locate p = .ok l ∧ f.get? l ≠ some .dir ∧ ∀ k, k ≠ l → g.get? k = f.get? k) ∨
      ∃ e, writeOn f disk p x = (f, .error (.write p e))) ∧
    (∀ d, (writeOn f disk p x).1.get? (f.temporary p d) = none) ∧
    (∀ g ∈ (f.replacing disk p (Utf8.ofString (text p x))).states,
      ((∃ d part, part <+: Utf8.ofString (text p x) ∧ g = f.withTemporary p d part) ∨
        g = (writeOn f disk p x).1) ∧
      (g.read p = f.read p ∨ g.read p = .ok (Utf8.ofString (text p x)))) ∧
    ∀ d part, (f.withTemporary p d part).read p = f.read p := by
  have hunseen : ∀ d part, (f.withTemporary p d part).read p = f.read p := f.read_withTemporary p
  refine ⟨exists_writeOn_iff, ?_⟩
  obtain ⟨-, d, t, name, hr, hw⟩ | ⟨-, e, hw⟩ := writeOn_cases f disk p x
  · refine ⟨.inl ⟨_, t.location, hw, hr.read_replaced, hr.locate_replaced, hr.notDir, ?_⟩, ?_, ?_,
      hunseen⟩
    · intro k hk
      rw [hr.get?_replaced, if_neg hk]
    · intro d'
      rw [hw, hr.get?_replaced, if_neg (Files.target_ne_temporary hr.target hr.named d').symm]
      exact f.get?_temporary p d'
    · intro u hu
      refine ⟨mem_states_writeOn hu, ?_⟩
      obtain ⟨d', part, -, rfl⟩ | rfl := mem_states_writeOn hu
      · exact .inl (hunseen d' part)
      · rw [hw]
        exact .inr hr.read_replaced
  · refine ⟨.inr ⟨e, hw⟩, ?_, ?_, hunseen⟩
    · intro d
      rw [hw]
      exact f.get?_temporary p d
    · intro u hu
      refine ⟨mem_states_writeOn hu, ?_⟩
      obtain ⟨d, part, -, rfl⟩ | rfl := mem_states_writeOn hu
      · exact .inl (hunseen d part)
      · rw [hw]
        exact .inl rfl

def noSpace : OsError := .other 28 "StorageFull" "No space left on device"

def fullAtSync : Files.Disk := ⟨none, [.took 3, .interrupted, .took 1], some noSpace, none⟩

def nodeFile : Path := Path.ofString "node.yml"

def aroundNodeFile : Files := Files.empty.put (Files.home ++ [nodeFile]) (.file [0x7B, 0x7D])

/-- On the full disk the file keeps what it had, also while there is a temporary file beside it. On
a sound disk the text takes its place. -/
theorem write_all_or_nothing_full :
    (∃ e, writeOn aroundNodeFile fullAtSync nodeFile .empty =
      (aroundNodeFile, .error (.write nodeFile e))) ∧
    (∃ states, (aroundNodeFile.replacing fullAtSync nodeFile
        (Utf8.ofString (text nodeFile .empty))).states = states ∧
      aroundNodeFile.withTemporary nodeFile Files.home [] ∈ states ∧
      ∀ g ∈ states, g.read nodeFile = .ok [0x7B, 0x7D]) ∧
    ∃ g, writeOn aroundNodeFile .sound nodeFile .empty = (g, .ok ()) ∧
      g.read nodeFile = .ok (Utf8.ofString (text nodeFile .empty)) := by
  have hlocate : aroundNodeFile.locate (Files.holder nodeFile) = .ok Files.home := rfl
  have hr :
      aroundNodeFile.Replaceable nodeFile Files.home ⟨Files.home, some nodeFile⟩ nodeFile := by
    constructor <;> decide +kernel
  have hold : aroundNodeFile.read nodeFile = .ok [0x7B, 0x7D] := rfl
  obtain ⟨hok, hfull, -, hstates, hunseen⟩ :=
    write_all_or_nothing aroundNodeFile fullAtSync nodeFile .empty
  obtain ⟨hsound, hdone, -⟩ := write_all_or_nothing aroundNodeFile .sound nodeFile .empty
  have hfull : ∃ e, writeOn aroundNodeFile fullAtSync nodeFile .empty =
      (aroundNodeFile, .error (.write nodeFile e)) := by
    obtain ⟨g, l, hg, -⟩ | herror := hfull
    · cases (hok.1 ⟨g, hg⟩).1.sync
    · exact herror
  refine ⟨hfull, ⟨_, rfl, Files.made_mem_states hlocate rfl rfl, ?_⟩, ?_⟩
  · intro g hg
    obtain ⟨e, herror⟩ := hfull
    obtain ⟨d, part, -, hg⟩ | hg := (hstates g hg).1
    · rw [hg]
      exact (hunseen d part).trans hold
    · rw [hg, herror]
      exact hold
  · obtain ⟨g, hg⟩ := hsound.2 ⟨Files.Disk.takes_sound _, _, _, _, hr⟩
    obtain ⟨u, l, hu, hread, -⟩ | ⟨e, herror⟩ := hdone
    · exact ⟨u, hu, hread⟩
    · cases hg.symm.trans herror

end Snapshot

end NodeConfig
