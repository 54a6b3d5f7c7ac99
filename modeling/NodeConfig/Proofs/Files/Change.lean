import Mathlib
import NodeConfig.Proofs.Files.Append
import NodeConfig.Proofs.Files.Replace

namespace NodeConfig

namespace Files

variable {f g : Files} {p : Path} {l d : Location} {content : Bytes} {t : Target} {name : Segment}

/-- If an overwritten file could be written to, the path leads to the new content and nothing else
has changed. Otherwise nothing has at all. -/
theorem overwrite_cases (f : Files) (p : Path) (content : Bytes) :
    (∃ l, f.writable p = .ok l ∧ (f.overwrite p content).error = none ∧
      (f.overwrite p content).files.read p = .ok content ∧
      ∀ k, k ≠ l → (f.overwrite p content).files.get? k = f.get? k) ∨
    ∃ e, f.writable p = .error e ∧ f.overwrite p content = ⟨f, some e⟩ := by
  cases hw : f.writable p with
  | error e => exact .inr ⟨e, rfl, by simp only [overwrite, hw]⟩
  | ok l =>
    have hover : f.overwrite p content = ⟨f.put l (.file content), none⟩ := by
      simp only [overwrite, hw]
    obtain ⟨t, name, ht, hname, hnul, hslash, hlen, rfl, hdir⟩ := writable_eq_ok hw
    have hget : (f.put t.location (.file content)).get? t.location = some (.file content) :=
      get?_put_self f _ _
    have hlocate := locate_of_target (target_congr (sameDirs_put hdir content) ht) hname hnul
      hslash hlen (by rw [hget]; rfl)
    rw [hover]
    refine .inl ⟨t.location, rfl, rfl, ?_, fun k hk => get?_put_of_ne hk⟩
    simp only [read, hlocate, hget]

theorem removeFile_cases (f : Files) (p : Path) :
    (f.removeFile p = f ∧ ∀ content, f.read p ≠ .ok content) ∨
    ∃ l content, f.locate p = .ok l ∧ f.get? l = some (.file content) ∧
      f.removeFile p = f.erase l := by
  cases hl : f.locate p with
  | error e => exact .inl ⟨by simp only [removeFile, hl], by simp [read, hl]⟩
  | ok l =>
    rcases hget : f.get? l with _ | content | _
    · exact .inl ⟨by simp only [removeFile, hl, hget], by simp [read, hl, hget]⟩
    · exact .inr ⟨l, content, rfl, hget, by simp only [removeFile, hl, hget]⟩
    · exact .inl ⟨by simp only [removeFile, hl, hget], by simp [read, hl, hget]⟩

theorem sameDirs_erase (hfile : f.get? l = some (.file content)) : SameDirs f (f.erase l) := by
  intro k
  rw [Bool.eq_iff_iff, isDir_iff, isDir_iff]
  by_cases hk : k = l
  · subst hk
    simp [hfile]
  · rw [get?_erase_of_ne hk]

/-- Directories stay, so a file that could be replaced can be made anew. -/
theorem sameDirs_removeFile (f : Files) (p : Path) : SameDirs f (f.removeFile p) := by
  obtain ⟨hsame, -⟩ | ⟨l, content, -, hfile, herase⟩ := f.removeFile_cases p
  · rw [hsame]
    exact fun _ => rfl
  · rw [herase]
    exact sameDirs_erase hfile

theorem locate_of_missing (ht : f.target p = .ok t) (hname : t.name = some name)
    (hnul : p.hasNul = false) (hlen : name.length ≤ nameLimit) (hg : f.get? t.location = none) :
    f.locate p = .error .notFound := by
  obtain ⟨init, hs, hhere, habove, hwalk⟩ := target_name ht hname
  have hmissing : f.get? (t.directory ++ [name]) = none := by
    simpa [Target.location, hname] using hg
  have hlen' : ¬ nameLimit < name.length := by omega
  have hstep : f.step t.directory name = .error .notFound := by
    simp [step, isDir_of_target ht hname, hhere, habove, hlen', hmissing]
  have hwhole : f.walk (origin p) p.segments = .error .notFound := by
    rw [hs, walk, List.foldlM_append, ← walk, hwalk]
    exact congrArg (· >>= pure) hstep
  simp [locate, hnul, (target_eq_ok.1 ht).1, hwhole]

/-- Where a file was taken away there is none. -/
theorem read_removeFile (h : f.read p = .ok content) (hroot : f.get? [] = none) :
    (f.removeFile p).read p = .error .notFound := by
  obtain ⟨-, hunread⟩ | ⟨l, content', hl, hfile, herase⟩ := f.removeFile_cases p
  · exact absurd h (hunread content)
  have hne : l ≠ [] := by
    rintro rfl
    cases hroot.symm.trans hfile
  obtain ⟨t, name, ht, hname, hnul, -, hlen, rfl, -⟩ :=
    writable_eq_ok (writable_of_file hl hfile hne)
  have htarget := target_congr (sameDirs_erase hfile) ht
  rw [herase, read, locate_of_missing htarget hname hnul hlen (get?_erase_self f _)]

end Files

end NodeConfig
