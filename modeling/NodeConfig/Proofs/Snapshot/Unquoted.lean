import Mathlib
import NodeConfig.Proofs.Identity
import NodeConfig.Proofs.Snapshot.RoundTrip

namespace NodeConfig

namespace Yaml

/-- A character of one line: allowed in a text, and no tab, break or mark of its byte order. -/
def IsLineChar (c : Char) : Prop :=
  isAllowed c = true ∧ c ≠ '\t' ∧ isBreak c = false ∧ c ≠ byteOrderMark

instance (c : Char) : Decidable (IsLineChar c) := inferInstanceAs (Decidable (_ ∧ _))

/-- A word may begin with these three if it goes on after them. -/
def openIndicators : List Char := ['-', '?', ':']

def indicators : List Char :=
  openIndicators ++ [',', '[', ']', '\x7b', '\x7d', '#', '&', '*', '!', '|', '>', '\'', '"', '%',
    '@', '`']

/-- At the start only those three indicators may stand, with a character other than a blank after
them. -/
def StartsWord : List Char → Prop
  | [] => True
  | [c] => c ∉ indicators
  | c :: d :: _ => c ∈ indicators → c ∈ openIndicators ∧ d ≠ ' '

instance : DecidablePred StartsWord
  | [] => inferInstanceAs (Decidable True)
  | [_] => inferInstanceAs (Decidable (_ ∉ _))
  | _ :: _ :: _ => inferInstanceAs (Decidable (_ → _ ∧ _))

/-- One line that is allowed as a plain scalar in the block context, in the terms of YAML's own
grammar. -/
@[mk_iff]
structure IsUnquoted (cs : List Char) : Prop where
  ne_nil : cs ≠ []
  chars : ∀ c ∈ cs, IsLineChar c
  first : cs.head? ≠ some ' '
  last : cs.getLast? ≠ some ' '
  starts : StartsWord cs
  colon : ¬ [':', ' '] <:+: cs
  comment : ¬ [' ', '#'] <:+: cs
  colonLast : cs.getLast? ≠ some ':'

theorem IsLineChar.isPlainly {c : Char} (h : IsLineChar c) : isPlainly c = true := by
  obtain ⟨hallowed, htab, hbreak, hmark⟩ := h
  have hnel : c.toNat ≠ 0x85 := fun hn => by
    have hc : c = nel := Char.toNat_inj.1 hn
    rw [hc] at hbreak
    exact absurd hbreak (by decide)
  have hbom : c.toNat ≠ 0xFEFF := fun hn => hmark (Char.toNat_inj.1 hn)
  simp only [isBreak, Bool.or_eq_false_iff, decide_eq_false_iff_not] at hbreak
  simp only [isAllowed, Bool.or_eq_true, Bool.and_eq_true, decide_eq_true_eq] at hallowed
  -- Of the characters that are allowed only the breaks and the mark are not written as they are.
  simp only [Yaml.isPlainly, Bool.or_eq_true, Bool.and_eq_true, decide_eq_true_eq]
  grind

theorem IsLineChar.isWord_or_space {c : Char} (h : IsLineChar c) : isWord c = true ∨ c = ' ' :=
  isWord_or_space_of_isPlainly h.isPlainly h.2.2.1

instance (cs : List Char) : Decidable (IsUnquoted cs) :=
  -- The quantifier is over the list, not over all characters there are.
  have : Decidable (∀ c ∈ cs, IsLineChar c) := List.decidableBAll IsLineChar cs
  decidable_of_iff' _ (isUnquoted_iff cs)

/-- None of the characters that always begin structure is one of the three that a word may begin
with. -/
theorem closed_of_isIndicator {c : Char} (h : isIndicator c = true) :
    c ∈ indicators ∧ c ∉ openIndicators := by
  have hmem := (isIndicator_iff c).1 h
  fin_cases hmem <;> decide

/-- Neighbours in a text are a text of two inside it. -/
theorem exists_infix_of_hasNeighbours {r : Char → Char → Bool} {cs : List Char}
    (h : hasNeighbours r cs = true) : ∃ c d, r c d = true ∧ [c, d] <:+: cs := by
  induction cs with
  | nil => simp [hasNeighbours] at h
  | cons c cs ih =>
    cases cs with
    | nil => simp [hasNeighbours] at h
    | cons d cs =>
      rw [hasNeighbours, Bool.or_eq_true] at h
      rcases h with h | h
      · exact ⟨c, d, h, [], cs, rfl⟩
      · obtain ⟨a, b, hab, hin⟩ := ih h
        exact ⟨a, b, hab, hin.trans (List.suffix_cons c _).isInfix⟩

namespace IsUnquoted

variable {cs : List Char}

theorem isWord_or_space (h : IsUnquoted cs) {c d : Char} (hin : [c, d] <:+: cs) :
    (isWord c = true ∨ c = ' ') ∧ (isWord d = true ∨ d = ' ') :=
  ⟨(h.chars c (hin.subset (by simp))).isWord_or_space,
    (h.chars d (hin.subset (by simp))).isWord_or_space⟩

theorem holdsStructure (h : IsUnquoted cs) : holdsStructure cs = false := by
  by_contra hholds
  simp only [Yaml.holdsStructure, Bool.not_eq_false, Bool.or_eq_true, decide_eq_true_eq] at hholds
  rcases hholds with (hlast | hcolon) | hhash
  · exact h.colonLast hlast
  · obtain ⟨c, d, hcd, hin⟩ := exists_infix_of_hasNeighbours hcolon
    simp only [Bool.and_eq_true, decide_eq_true_eq, Bool.not_eq_true'] at hcd
    obtain ⟨rfl, hd⟩ := hcd
    -- On one line only a space is not of a word.
    obtain rfl : d = ' ' := (h.isWord_or_space hin).2.resolve_left (by simp [hd])
    exact h.colon hin
  · obtain ⟨c, d, hcd, hin⟩ := exists_infix_of_hasNeighbours hhash
    simp only [Bool.and_eq_true, decide_eq_true_eq, Bool.not_eq_true'] at hcd
    obtain ⟨hc, rfl⟩ := hcd
    obtain rfl : c = ' ' := (h.isWord_or_space hin).1.resolve_left (by simp [hc])
    exact h.comment hin

theorem beginsLikeStructure (h : IsUnquoted cs) : beginsLikeStructure cs = false := by
  obtain ⟨c, cs, rfl⟩ := List.exists_cons_of_ne_nil h.ne_nil
  have hstarts := h.starts
  have hindicator : isIndicator c = false := by
    by_contra hi
    obtain ⟨hmem, hclosed⟩ := closed_of_isIndicator (by simpa using hi)
    cases cs with
    | nil => exact hstarts hmem
    | cons d cs => exact hclosed (hstarts hmem).1
  have hopen : (c = '-' || c = '?' || c = ':') = true → endsWord cs = false := by
    intro hc
    have hmem : c ∈ indicators :=
      List.mem_append_left _ (by simpa [openIndicators, or_assoc] using hc)
    cases cs with
    | nil => exact absurd hmem hstarts
    | cons d cs =>
      have hword := (h.chars d (by simp)).isWord_or_space
      simp [endsWord, hword.resolve_right (hstarts hmem).2]
  simp only [Yaml.beginsLikeStructure, hindicator, Bool.false_or, Bool.and_eq_false_imp]
  exact hopen

theorem isPlain (h : IsUnquoted cs) : IsPlain cs where
  ne_nil := h.ne_nil
  chars c hc := (h.chars c hc).isWord_or_space
  first := h.first
  last := h.last
  begins := h.beginsLikeStructure
  holds := h.holdsStructure

end IsUnquoted

def Entry.unquoted (key : String) (cs : List Char) : Entry :=
  ⟨key.toList, cs ++ ['\n'], String.ofList cs, .plain⟩

theorem Entry.isEntry_unquoted (f : Field) {cs : List Char} (h : IsUnquoted cs) :
    (Entry.unquoted f.key cs).IsEntry 2 where
  key := isName_key f
  short := length_key_le f
  value := isValue_plain h.isPlain (fun hmark => (h.chars _ (List.mem_of_head? hmark)).2.2.2 rfl) 2

end Yaml

namespace Snapshot

def unquoted (f : TextField) (t : String) : String :=
  "cluster:\n  " ++ f.key ++ ": " ++ t ++ "\n"

theorem toList_unquoted (f : TextField) (t : String) : (unquoted f t).toList =
    [Yaml.Part.mapping "cluster".toList [.unquoted f.key t.toList]].flatMap Yaml.Part.text := by
  simp [unquoted, Yaml.Part.text, Yaml.Entry.lines, Yaml.Entry.unquoted]

/-- The value is a scalar of its own, and a field of text takes any scalar as it is written. -/
theorem snapshotOfYaml_unquoted (f : TextField) {t : String} (ht : Yaml.IsUnquoted t.toList) :
    snapshotOfYaml (unquoted f t).toList = .ok (some (Identity.empty.set f t)) := by
  have hpart : ∀ a ∈ [Yaml.Part.mapping "cluster".toList [.unquoted f.key t.toList]], a.IsPart := by
    intro a ha
    rw [List.mem_singleton.1 ha]
    refine .mapping (by refine ⟨?_, ?_, ?_⟩ <;> simp [Yaml.isNameChar]) (by decide) ?_
    intro e he
    rw [List.mem_singleton.1 he]
    exact Yaml.Entry.isEntry_unquoted (.text f) ht
  have hplainly : ∀ a ∈ [Yaml.Part.mapping "cluster".toList [.unquoted f.key t.toList]],
      ∀ c ∈ a.chars, Yaml.isPlainly c = true := by
    intro a ha c hc
    rw [List.mem_singleton.1 ha] at hc
    simp only [Yaml.Part.chars, Yaml.Entry.unquoted, List.flatMap_singleton, List.mem_append,
      List.mem_singleton] at hc
    rcases hc with hc | rfl
    · exact (ht.chars c hc).isPlainly
    · decide
  have hkey : Field.ofKey? f.key = some (.text f) := Field.ofKey?_key (.text f)
  rw [snapshotOfYaml, toList_unquoted, Yaml.document_parts (by simp) hpart hplainly]
  simp [Yaml.Source.snapshot, Yaml.Source.sections, Yaml.Source.text, Yaml.Node.resolve,
    Yaml.Part.pair, Yaml.Entry.pair, Yaml.Entry.unquoted, Yaml.Source.identity, Yaml.Source.fields,
    bind, Except.bind, Except.map, hkey]

/-- A value written without quotes is loaded as it stands, whatever it looks like, and all other
fields are empty. -/
theorem read_unquoted {files : Files} {p : Path} (hp : Format.ofPath p = .yaml) (f : TextField)
    {t : String} (ht : Yaml.IsUnquoted t.toList)
    (hfile : files.read p = .ok (Utf8.ofString (unquoted f t))) :
    ∃ x, read files p = .ok (.loaded x) ∧ x.get f = t ∧ (∀ g, g ≠ f → x.get g = "") ∧
      x.certFetched = false := by
  have hread : read files p = .ok (.loaded (Identity.empty.set f t)) := by
    rw [read, hfile, hp]
    simp only [Format.decode, Utf8.decode_ofString, snapshotOfYaml_unquoted f ht]
  refine ⟨_, hread, ?_, fun g hg => ?_, ?_⟩
  · rw [Identity.get_set, if_pos rfl]
  · rw [Identity.get_set, if_neg hg.symm]
    cases g <;> rfl
  · cases f <;> rfl

theorem read_unquoted_lookalikes :
    (∃ x, read (fileAtHome (Path.ofString "node.yml") (Utf8.ofString (unquoted .port "007")))
      (Path.ofString "node.yml") = .ok (.loaded x) ∧ x.port = "007" ∧ x.name = "") ∧
    (∃ x, read (fileAtHome (Path.ofString "node.yml") (Utf8.ofString (unquoted .id "~")))
      (Path.ofString "node.yml") = .ok (.loaded x) ∧ x.id = "~" ∧ x.port = "") ∧
    ∃ x, read (fileAtHome (Path.ofString "node.yml")
        (Utf8.ofString (unquoted .bootstrapKey "--- ?:#] \"x")))
      (Path.ofString "node.yml") = .ok (.loaded x) ∧ x.bootstrapKey = "--- ?:#] \"x" ∧
        x.id = "" := by
  have hpath : Format.ofPath (Path.ofString "node.yml") = .yaml := by decide
  have hfile : ∀ content, (fileAtHome (Path.ofString "node.yml") content).read
      (Path.ofString "node.yml") = .ok content := fun _ => rfl
  have hnumber := read_unquoted hpath .port (t := "007") (by decide) (hfile _)
  have hnull := read_unquoted hpath .id (t := "~") (by decide) (hfile _)
  have hmarks := read_unquoted hpath .bootstrapKey (t := "--- ?:#] \"x") (by decide) (hfile _)
  obtain ⟨x, hx, hport, hothers, -⟩ := hnumber
  obtain ⟨y, hy, hid, hothers', -⟩ := hnull
  obtain ⟨z, hz, hkey, hothers'', -⟩ := hmarks
  exact ⟨⟨x, hx, hport, hothers .name (by decide)⟩, ⟨y, hy, hid, hothers' .port (by decide)⟩,
    ⟨z, hz, hkey, hothers'' .id (by decide)⟩⟩

end Snapshot

end NodeConfig
