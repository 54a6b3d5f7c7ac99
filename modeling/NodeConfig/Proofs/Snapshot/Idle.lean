import Mathlib
import NodeConfig.Proofs.Snapshot.RoundTrip
import NodeConfig.Proofs.Store.Load

namespace NodeConfig

/-- A tab, or a character that is no control and separates no lines. -/
def isCommentChar (c : Char) : Bool :=
  let n := c.toNat
  c = '\t' || (0x20 ≤ n && n ≤ 0x7E) ||
    (0xA0 ≤ n && n ≠ 0x2028 && n ≠ 0x2029 && n ≠ 0xFFFE && n ≠ 0xFFFF)

inductive LineEnd : List Char → Prop
  | feed : LineEnd ['\n']
  | returnFeed : LineEnd ['\r', '\n']

/-- A line that is blank, or a comment. -/
inductive IdleLine : List Char → Prop
  | blank (m : ℕ) : IdleLine (List.replicate m ' ')
  | comment (m : ℕ) {text : List Char} (h : ∀ c ∈ text, isCommentChar c = true) :
      IdleLine (List.replicate m ' ' ++ '#' :: text)

/-- Such lines; the last of them may have no line end. -/
inductive IdleLines : List Char → Prop
  | last {line : List Char} (h : IdleLine line) : IdleLines line
  | line {line brk rest : List Char} (h : IdleLine line) (hb : LineEnd brk)
      (hrest : IdleLines rest) : IdleLines (line ++ (brk ++ rest))

variable {c : Char} {line brk cs : List Char}

theorem isCommentChar_cases (h : isCommentChar c = true) :
    c = '\t' ∨ (0x20 ≤ c.toNat ∧ c.toNat ≤ 0x7E) ∨
      (0xA0 ≤ c.toNat ∧ c.toNat ≠ 0x2028 ∧ c.toNat ≠ 0x2029 ∧ c.toNat ≠ 0xFFFE ∧
        c.toNat ≠ 0xFFFF) := by
  simpa [isCommentChar, and_assoc, or_assoc] using h

theorem isAllowed_of_isCommentChar (h : isCommentChar c = true) : Yaml.isAllowed c = true := by
  have hvalid := Utf8.toNat_valid c
  rcases isCommentChar_cases h with rfl | h | h
  · decide
  · simp [Yaml.isAllowed, h]
  · simp only [Yaml.isAllowed, Bool.or_eq_true, Bool.and_eq_true, decide_eq_true_eq]
    omega

theorem isBreak_of_isCommentChar (h : isCommentChar c = true) : Yaml.isBreak c = false := by
  have hne : ∀ d : Char, isCommentChar d = false → c ≠ d := by
    rintro d hd rfl
    rw [h] at hd
    cases hd
  simp [Yaml.isBreak, hne '\n' (by decide), hne '\r' (by decide), hne Yaml.nel (by decide),
    hne Yaml.lineSeparator (by decide), hne Yaml.paragraphSeparator (by decide)]

theorem isTextChar_of_isCommentChar (h : isCommentChar c = true) : Toml.isTextChar c = true := by
  rcases isCommentChar_cases h with rfl | h | h
  · decide
  · simp only [Toml.isTextChar, Bool.or_eq_true, Bool.and_eq_true, decide_eq_true_eq]
    omega
  · simp only [Toml.isTextChar, Bool.or_eq_true, Bool.and_eq_true, decide_eq_true_eq]
    omega

/-- Nothing else is in such lines than blanks, comments and line ends. -/
theorem IdleLine.mem (h : IdleLine line) (hc : c ∈ line) :
    c = ' ' ∨ c = '#' ∨ isCommentChar c = true := by
  cases h with
  | blank m => exact .inl (List.eq_of_mem_replicate hc)
  | comment m htext =>
    rcases List.mem_append.1 hc with hc | hc
    · exact .inl (List.eq_of_mem_replicate hc)
    · rcases List.mem_cons.1 hc with rfl | hc
      · exact .inr (.inl rfl)
      · exact .inr (.inr (htext c hc))

theorem IdleLines.mem (h : IdleLines cs) (hc : c ∈ cs) :
    c = '\n' ∨ c = '\r' ∨ c = ' ' ∨ c = '#' ∨ isCommentChar c = true := by
  induction h with
  | last h => exact .inr (.inr (h.mem hc))
  | line h hb _ ih =>
    rcases List.mem_append.1 hc with hc | hc
    · exact .inr (.inr (h.mem hc))
    · rcases List.mem_append.1 hc with hc | hc
      · cases hb with
        | feed => exact .inl (List.mem_singleton.1 hc)
        | returnFeed =>
          rcases List.mem_pair.1 hc with rfl | rfl
          · exact .inr (.inl rfl)
          · exact .inl rfl
      · exact ih hc

theorem IdleLine.head_append (h : IdleLine line) {rest : List Char}
    (hc : (line ++ rest).head? = some c) : c = ' ' ∨ c = '#' ∨ rest.head? = some c := by
  cases h with
  | blank m =>
    cases m with
    | zero => exact .inr (.inr hc)
    | succ m => cases hc; exact .inl rfl
  | comment m h =>
    cases m with
    | zero => cases hc; exact .inr (.inl rfl)
    | succ m => cases hc; exact .inl rfl

theorem IdleLines.head (h : IdleLines cs) (hc : cs.head? = some c) :
    c = ' ' ∨ c = '#' ∨ c = '\n' ∨ c = '\r' := by
  cases h with
  | last h =>
    have hempty : (cs ++ ([] : List Char)).head? = some c := by rwa [List.append_nil]
    rcases h.head_append hempty with rfl | rfl | h
    · exact .inl rfl
    · exact .inr (.inl rfl)
    · cases h
  | line h hb _ =>
    rcases h.head_append hc with rfl | rfl | h
    · exact .inl rfl
    · exact .inr (.inl rfl)
    · cases hb <;> cases h
      · exact .inr (.inr (.inl rfl))
      · exact .inr (.inr (.inr rfl))

/-- They are all white if there is no comment in them. -/
theorem IdleLines.all_isWhite (h : IdleLines cs) : cs.all isWhite = true ↔ '#' ∉ cs := by
  constructor
  · intro hall hmem
    exact absurd (List.all_eq_true.1 hall _ hmem) (by decide)
  · intro hnone
    induction h with
    | last h =>
      cases h with
      | blank m => simp [isWhite]
      | comment m h => simp at hnone
    | line h hb _ ih =>
      simp only [List.mem_append, not_or] at hnone
      have hline : ∀ line, IdleLine line → '#' ∉ line → line.all isWhite = true := by
        rintro _ (m | ⟨m, h⟩) hnone
        · simp [isWhite]
        · simp at hnone
      have hend : ∀ brk, LineEnd brk → brk.all isWhite = true := by
        rintro _ (_ | _) <;> decide
      rw [List.all_append, List.all_append, hline _ h hnone.1, hend _ hb, ih hnone.2.2]
      rfl

namespace Yaml

theorem skipGap_inComment (flow k : Bool) (p : Place) {text : List Char}
    (h : ∀ c ∈ text, isBreak c = false) (rest : List Char) :
    skipGap flow k true p (text ++ rest) = skipGap flow k true (p.right text.length) rest := by
  induction text generalizing p with
  | nil => rfl
  | cons c text ih =>
    have hc := h c List.mem_cons_self
    have hstep : skipGap flow k true p (c :: (text ++ rest)) =
        skipGap flow k true p.right (text ++ rest) := by
      rw [skipGap]
      · simp [hc]
      · exact fun _ hr => absurd hr (ne_return hc)
    rw [List.cons_append, hstep, ih p.right fun d hd => h d (List.mem_cons_of_mem c hd)]
    simp [Place.right, Nat.add_comm, Nat.add_left_comm]

theorem skipGap_idleLine (h : IdleLine line) (p : Place) (rest : List Char) :
    ∃ comment q, skipGap false true false p (line ++ rest) =
      skipGap false true comment q rest := by
  cases h with
  | blank m => exact ⟨false, _, skipGap_spaces false true p m rest⟩
  | @comment m text htext =>
    have hmark : ∀ q, skipGap false true false q ('#' :: (text ++ rest)) =
        skipGap false true true q.right (text ++ rest) := by
      intro q
      rw [skipGap]
      · simp [isBreak, nel, lineSeparator, paragraphSeparator, byteOrderMark]
      · simp
    have hbreak : ∀ c ∈ text, isBreak c = false :=
      fun c hc => isBreak_of_isCommentChar (htext c hc)
    refine ⟨true, ((p.right m).right).right text.length, ?_⟩
    rw [List.append_assoc, skipGap_spaces, List.cons_append, hmark,
      skipGap_inComment false true _ hbreak]

theorem skipGap_lineEnd (hb : LineEnd brk) (comment : Bool) (p : Place) (rest : List Char) :
    ∃ q, skipGap false true comment p (brk ++ rest) = skipGap false true false q rest := by
  cases hb with
  | feed =>
    refine ⟨p.nextLine, ?_⟩
    rw [List.singleton_append, skipGap]
    · simp [isBreak]
    · simp
  | returnFeed => exact ⟨p.nextLine 2, by simp [skipGap]⟩

/-- All of it is a gap. -/
theorem skipGap_idleLines (h : IdleLines cs) (p : Place) :
    ∃ q, skipGap false true false p cs = (true, q, []) := by
  induction h generalizing p with
  | @last line h =>
    obtain ⟨comment, q, hline⟩ := skipGap_idleLine h p []
    rw [List.append_nil] at hline
    exact ⟨q, by rw [hline, skipGap]⟩
  | line h hb _ ih =>
    obtain ⟨comment, q, hline⟩ := skipGap_idleLine h p _
    obtain ⟨q', hend⟩ := skipGap_lineEnd hb comment q _
    obtain ⟨q'', hrest⟩ := ih q'
    exact ⟨q'', by rw [hline, hend, hrest]⟩

open Scan in
theorem tokens_idleLines (h : IdleLines cs) : tokens cs = [.streamEnd] := by
  have hmark : cs.head? ≠ some byteOrderMark := by
    intro hhead
    rcases h.head hhead with hc | hc | hc | hc <;> exact absurd hc (by decide)
  have hallowed : cs.all isAllowed = true := by
    refine List.all_eq_true.2 fun c hc => ?_
    rcases h.mem hc with rfl | rfl | rfl | rfl | hc
    · decide
    · decide
    · decide
    · decide
    · exact isAllowed_of_isCommentChar hc
  obtain ⟨q, hgap⟩ := skipGap_idleLines h .start
  have hadvance : (Scan.begin cs).advance = some (Scan.mk q [] [] none [] [] true) := by
    simp [advance, begin, inFlow, hgap, dropStale, freshKey, unrollTo]
  have hfinish : (Scan.mk q [] [] none [] [] true).finish =
      some ⟨q, [], [.streamEnd], none, [], [], true⟩ := rfl
  rw [tokens, if_neg hmark, if_pos hallowed, run]
  have hfresh : (Scan.begin cs).dropStale = some (Scan.begin cs) := rfl
  simp only [hfresh, hadvance, hfinish, if_true]
  rfl

end Yaml

/-- In YAML there is no document in them. -/
theorem snapshotOfYaml_idleLines (h : IdleLines cs) : snapshotOfYaml cs = .ok none := by
  rw [snapshotOfYaml, Yaml.document, Yaml.tokens_idleLines h]
  rfl

namespace Toml

theorem skipBlanks_spaces (m : ℕ) (cs : List Char) :
    skipBlanks (List.replicate m ' ' ++ cs) = skipBlanks cs := by
  induction m with
  | zero => rfl
  | succ m ih => rw [List.replicate_succ, List.cons_append, ← ih]; rfl

theorem newline?_lineEnd (hb : LineEnd brk) (rest : List Char) :
    newline? (brk ++ rest) = some rest := by
  cases hb <;> rfl

/-- A comment is read with the line end after it. -/
theorem lineEnd_comment {text : List Char} (h : ∀ c ∈ text, isCommentChar c = true) :
    lineEnd ('#' :: text) = .ok [] ∧
      ∀ brk rest, LineEnd brk → lineEnd ('#' :: (text ++ (brk ++ rest))) = .ok rest := by
  have htext : ∀ c ∈ text, isTextChar c = true :=
    fun c hc => isTextChar_of_isCommentChar (h c hc)
  have hskip : ∀ cs, skipBlanks ('#' :: cs) = '#' :: cs := fun _ => rfl
  constructor
  · have hdrop : text.dropWhile isTextChar = [] := List.dropWhile_eq_nil_iff.2 htext
    simp [lineEnd, hskip, hdrop]
  · intro brk rest hb
    have hdrop : (text ++ (brk ++ rest)).dropWhile isTextChar = brk ++ rest := by
      rw [List.dropWhile_append_of_pos htext]
      cases hb <;> exact List.dropWhile_cons_of_neg (by decide)
    have hne : brk ++ rest ≠ [] := by cases hb <;> simp
    obtain ⟨c, cs, hcs⟩ := List.exists_cons_of_ne_nil hne
    have hnew := newline?_lineEnd hb rest
    simp only [lineEnd, hskip, List.head?_cons, if_true, List.drop_one, List.tail_cons, hdrop]
    rw [hcs] at hnew ⊢
    simp only [hnew]

theorem lines_comment (d : Document) {cs rest more : List Char}
    (hs : skipBlanks cs = '#' :: rest) (hl : lineEnd ('#' :: rest) = .ok more)
    (hlen : more.length < cs.length) : d.lines cs = d.lines more := by
  rw [Document.lines, hs]
  simp only [if_true, hl, Except.map]
  rw [if_pos hlen]

theorem lines_lineEnd (d : Document) (hb : LineEnd brk) {cs rest : List Char}
    (hs : skipBlanks cs = brk ++ rest) (hlen : rest.length < cs.length) :
    d.lines cs = d.lines rest := by
  have hnew := newline?_lineEnd hb rest
  rw [Document.lines, hs]
  cases hb with
  | feed =>
    simp only [List.singleton_append] at hnew ⊢
    rw [if_neg (by decide), if_neg (by decide), hnew]
    simp only [if_pos hlen]
  | returnFeed =>
    simp only [List.cons_append, List.nil_append] at hnew ⊢
    rw [if_neg (by decide), if_neg (by decide), hnew]
    simp only [if_pos hlen]

/-- A line is passed over, with the line end after it. -/
theorem lines_idleLine (h : IdleLine line) (d : Document) :
    d.lines line = .ok d ∧
      ∀ brk rest, LineEnd brk → d.lines (line ++ (brk ++ rest)) = d.lines rest := by
  cases h with
  | blank m =>
    constructor
    · have hskip : skipBlanks (List.replicate m ' ') = [] := by
        have h := skipBlanks_spaces m []
        rwa [List.append_nil] at h
      rw [Document.lines, hskip]
    · intro brk rest hb
      have hskip : skipBlanks (List.replicate m ' ' ++ (brk ++ rest)) = brk ++ rest := by
        rw [skipBlanks_spaces]
        cases hb <;> rfl
      exact lines_lineEnd d hb hskip (by cases hb <;> simp +arith)
  | comment m htext =>
    obtain ⟨hlast, hmore⟩ := lineEnd_comment htext
    constructor
    · rw [lines_comment d (skipBlanks_spaces m _) hlast (by simp), lines_nil]
    · intro brk rest hb
      rw [List.append_assoc]
      exact lines_comment d (skipBlanks_spaces m _) (hmore brk rest hb) (by simp +arith)

theorem lines_idleLines (h : IdleLines cs) (d : Document) : d.lines cs = .ok d := by
  induction h with
  | last h => exact (lines_idleLine h d).1
  | line h hb _ ih => rw [(lines_idleLine h d).2 _ _ hb, ih]

end Toml

/-- In TOML they are nothing if they are blank, and an empty document if a comment is among them. -/
theorem snapshotOfToml_idleLines (h : IdleLines cs) :
    snapshotOfToml cs = .ok (if '#' ∈ cs then some .empty else none) := by
  have hwhite := h.all_isWhite
  by_cases hc : '#' ∈ cs
  · have hmark : cs.head? ≠ some '\ufeff' := by
      intro hhead
      rcases h.head hhead with hc | hc | hc | hc <;> exact absurd hc (by decide)
    have hparse : Toml.parse cs = .ok [] := by
      simp only [Toml.parse]
      rw [if_neg hmark, Toml.lines_idleLines h]
      rfl
    rw [snapshotOfToml, if_neg (by simpa [hwhite] using hc), hparse, if_pos hc]
    rfl
  · rw [snapshotOfToml, if_pos (hwhite.2 hc), if_neg hc]

/-- Whether lines without content count as a document: in TOML, if a comment is among them. -/
def IsDocument (format : Format) (cs : List Char) : Prop := format = .toml ∧ '#' ∈ cs

instance (format : Format) (cs : List Char) : Decidable (IsDocument format cs) :=
  inferInstanceAs (Decidable (_ ∧ _))

theorem decode_idleLines (h : IdleLines cs) (format : Format) :
    format.decode (Utf8.encode cs) = .ok (if IsDocument format cs then some .empty else none) := by
  rw [Format.decode, Utf8.decode_encode]
  cases format with
  | yaml => simp [IsDocument, snapshotOfYaml_idleLines h]
  | toml => simp [IsDocument, snapshotOfToml_idleLines h]

theorem Snapshot.read_idleLines (h : IdleLines cs) {f : Files} {p : Path}
    (hread : f.read p = .ok (Utf8.encode cs)) :
    Snapshot.read f p =
      .ok (if IsDocument (Format.ofPath p) cs then .loaded .empty else .empty) := by
  rw [Snapshot.read, hread]
  simp only [decode_idleLines h]
  by_cases hd : IsDocument (Format.ofPath p) cs <;> simp [hd]

/-- How a load counts what it found at the path of its snapshot. -/
def Snapshot.source : Snapshot → LoadSource
  | .missing _ => .default
  | .empty => .empty
  | .loaded _ => .file

namespace Store

variable {s : Store} {w : World} {p : Path} {schema : Bytes} {base : String}

/-- A load that reads its snapshot counts what it found there, and nothing else. -/
theorem counts_load_of_read (hbase : basePath schema = .ok base)
    (hp : s.options.snapshotPath = some p) {found : Snapshot}
    (hread : Snapshot.read w.files p = .ok found) (host : String) (port : ℕ) :
    (s.load w schema host port).report.counts = [.load found.source] := by
  have hnone := fun x : Identity => (x.report_withDefaults w.names).1
  simp only [load, hbase, served_eq, stored, hp, hread]
  cases found <;> simp [hnone, Snapshot.source]

/-- A snapshot of blank lines and comments ends a load well, with defaults in all fields that have
one and nothing in the others. It is read and counted as empty, but for a comment in TOML: that is
read and counted as a file with an identity. -/
theorem load_idleLines (hp : s.options.snapshotPath = some p) (hcs : IdleLines cs)
    (hread : w.files.read p = .ok (Utf8.encode cs)) (hbase : basePath schema = .ok base)
    (host : String) (port : ℕ) {step : Step (Except ConfigFault Unit)}
    (hstep : s.load w schema host port = step) :
    Snapshot.read w.files p =
        .ok (if IsDocument (Format.ofPath p) cs then .loaded .empty else .empty) ∧
      step.result = .ok () ∧
      step.store = { s with
        server := served host port base
        identity := {
          mode := "single"
          certificatePath := "tls.crt"
          certificateKeyPath := "tls.key"
          name := w.names.mint.1 } } ∧
      step.world = { w with names := w.names.mint.2 } ∧
      step.report.counts =
        [.load (if IsDocument (Format.ofPath p) cs then .file else .empty)] := by
  subst hstep
  have hsnapshot := Snapshot.read_idleLines hcs hread
  have hkept : Kept w.files s.options.snapshotPath .empty := by
    have h := kept_of_read hsnapshot
    rw [hp]
    split_ifs at h <;> exact h
  obtain ⟨hresult, hstore, hworld⟩ := load_of_kept hbase hkept host port
  refine ⟨hsnapshot, hresult, hstore, hworld, ?_⟩
  rw [counts_load_of_read hbase hp hsnapshot]
  by_cases hd : IsDocument (Format.ofPath p) cs <;> simp [hd, Snapshot.source]

def note : List Char := "# nothing yet\n  \r\n  # \u00e9".toList

theorem idleLines_note : IdleLines note := by
  have hfirst : IdleLine "# nothing yet".toList :=
    .comment 0 (show ∀ c ∈ " nothing yet".toList, isCommentChar c = true by simp [isCommentChar])
  have hlast : IdleLine "  # \u00e9".toList :=
    .comment 2 (show ∀ c ∈ " \u00e9".toList, isCommentChar c = true by simp [isCommentChar])
  exact .line hfirst .feed (.line (.blank 2) .returnFeed (.last hlast))

def noted (name : String) : Store :=
  { make 0 with options := { dataplaneConfig := some (Path.ofString name) } }

def withNote (name : String) : World :=
  ⟨Snapshot.fileAtHome (Path.ofString name) (Utf8.encode note), .fresh fun n => ⟨n, 0, 0⟩⟩

theorem load_idleLines_note :
    ((noted "a.yaml").load (withNote "a.yaml") smallSchema "localhost" 80).result = .ok () ∧
      ((noted "a.yaml").load (withNote "a.yaml") smallSchema "localhost" 80).report.counts =
        [.load .empty] := by
  have hbase : basePath smallSchema = .ok "/v2" := by cbv
  obtain ⟨-, hresult, -, -, hcounts⟩ := load_idleLines (s := noted "a.yaml")
    (w := withNote "a.yaml") (p := Path.ofString "a.yaml") (by decide) idleLines_note rfl hbase
    "localhost" 80 rfl
  exact ⟨hresult, hcounts⟩

/-- A comment is not read as nothing in TOML. -/
theorem read_note_in_toml :
    Snapshot.read (withNote "a.toml").files (Path.ofString "a.toml") = .ok (.loaded .empty) ∧
      ((noted "a.toml").load (withNote "a.toml") smallSchema "localhost" 80).report.counts =
        [.load .file] := by
  have hbase : basePath smallSchema = .ok "/v2" := by cbv
  have hread := Snapshot.read_idleLines idleLines_note
    (f := (withNote "a.toml").files) (p := Path.ofString "a.toml") rfl
  have hdocument : IsDocument (Format.ofPath (Path.ofString "a.toml")) note := by decide
  rw [if_pos hdocument] at hread
  have hp : (noted "a.toml").options.snapshotPath = some (Path.ofString "a.toml") := by decide
  exact ⟨hread, counts_load_of_read hbase hp hread "localhost" 80⟩

end Store

end NodeConfig
