import Mathlib
import NodeConfig.Toml.Read
import NodeConfig.Proofs.Toml.Text

namespace NodeConfig.Toml

def IsBareKey (key : String) : Prop := key ≠ "" ∧ ∀ c ∈ key.toList, isBareKeyChar c = true

instance (key : String) : Decidable (IsBareKey key) := inferInstanceAs (Decidable (_ ∧ _))

theorem ne_of_isBareKeyChar {c d : Char} (hc : isBareKeyChar c = true)
    (hd : isBareKeyChar d = false) : c ≠ d := by
  rintro rfl
  rw [hc] at hd
  cases hd

theorem skipBlanks_of_head {cs : List Char} (h : ∀ c, cs.head? = some c → isBlank c = false) :
    skipBlanks cs = cs := by
  cases cs with
  | nil => rfl
  | cons c cs => exact List.dropWhile_cons_of_neg (by simp [h c rfl])

/-- A bare key begins with none of the characters that mean something else on a line. -/
theorem IsBareKey.exists_cons {key : String} (hk : IsBareKey key) :
    ∃ c cs, key.toList = c :: cs ∧ isBareKeyChar c = true := by
  obtain ⟨hne, hall⟩ := hk
  have hl : key.toList ≠ [] := by simpa using hne
  obtain ⟨c, cs, h⟩ := List.exists_cons_of_ne_nil hl
  exact ⟨c, cs, h, hall c (by simp [h])⟩

theorem IsBareKey.skipBlanks_append {key : String} (hk : IsBareKey key) (rest : List Char) :
    skipBlanks (key.toList ++ rest) = key.toList ++ rest := by
  obtain ⟨c, cs, hcs, hc⟩ := hk.exists_cons
  apply skipBlanks_of_head
  intro d h
  rw [hcs] at h
  cases h
  simp [isBlank, ne_of_isBareKeyChar hc (show isBareKeyChar ' ' = false by decide),
    ne_of_isBareKeyChar hc (show isBareKeyChar '\t' = false by decide)]

theorem simpleKey_bare {key : String} (hk : IsBareKey key) {rest : List Char}
    (hr : ∀ c, rest.head? = some c → isBareKeyChar c = false) :
    simpleKey (key.toList ++ rest) = .read key rest := by
  obtain ⟨c, cs, hcs, hc⟩ := hk.exists_cons
  have ht : rest.takeWhile isBareKeyChar = [] := by
    cases rest with
    | nil => rfl
    | cons d rest => simp [hr d rfl]
  have hw : (c :: (cs ++ rest)).takeWhile isBareKeyChar = key.toList := by
    rw [← List.cons_append, ← hcs, List.takeWhile_append_of_pos hk.2, ht, List.append_nil]
  have hd : (c :: (cs ++ rest)).drop key.toList.length = rest := by
    rw [← List.cons_append, ← hcs, List.drop_left]
  rw [hcs, List.cons_append]
  simp only [simpleKey]
  rw [if_neg (ne_of_isBareKeyChar hc (by decide)), if_neg (ne_of_isBareKeyChar hc (by decide)), hw,
    if_neg (by simp [hcs]), hd, String.ofList_toList]

theorem keyPath_bare {key : String} (hk : IsBareKey key) {rest : List Char}
    (hr : ∀ c, rest.head? = some c → isBareKeyChar c = false)
    (hd : (skipBlanks rest).head? ≠ some '.') :
    keyPath (key.toList ++ rest) = .read [key] (skipBlanks rest) := by
  rw [keyPath, hk.skipBlanks_append, simpleKey_bare hk hr]
  simp only
  split
  · next r h => simp [h] at hd
  · rfl

theorem fullKey_bare {key : String} (hk : IsBareKey key) {rest : List Char}
    (hr : ∀ c, rest.head? = some c → isBareKeyChar c = false)
    (hd : (skipBlanks rest).head? ≠ some '.') :
    fullKey (key.toList ++ rest) = .ok ([key], skipBlanks rest) := by
  rw [fullKey, keyPath_bare hk hr hd]
  rfl

theorem lineEnd_newline (rest : List Char) : lineEnd ('\n' :: rest) = .ok rest := rfl

/-- A text that is read as a value, whatever follows on the next line. -/
structure Denotes (text : List Char) (v : Value) : Prop where
  head : ∀ c, text.head? = some c → isBlank c = false
  value : ∀ fuel rest,
    value (fuel + 1) 0 (text ++ '\n' :: rest) = .ok (v, '\n' :: rest)

theorem denotes_writeText (s : String) : Denotes (writeText s.toList) (.text s) where
  head := by
    intro c hc
    unfold writeText at hc
    cases hf : formFor s.toList <;> rw [hf] at hc <;> cases hc <;> rfl
  value := by
    intro fuel rest
    have hr := readText_writeText s.toList ('\n' :: rest) (by simp) (by simp)
    obtain ⟨q, cs, hq, hcs⟩ : ∃ q cs, (q = '"' ∨ q = '\'') ∧ writeText s.toList = q :: cs := by
      unfold writeText
      cases formFor s.toList with
      | basic => exact ⟨_, _, .inl rfl, rfl⟩
      | literal => exact ⟨_, _, .inr rfl, rfl⟩
      | basicLines => exact ⟨_, _, .inl rfl, rfl⟩
      | literalLines => exact ⟨_, _, .inr rfl, rfl⟩
    rw [hcs, List.cons_append] at hr ⊢
    rw [Toml.value]
    rw [if_pos (by simpa using hq), hr]
    simp

theorem word_append (w : String) (v : Value) (rest : List Char) :
    word w v (w.toList ++ rest) = .ok (v, rest) := by
  have hp : w.toList.isPrefixOf (w.toList ++ rest) = true := by
    rw [List.isPrefixOf_iff_prefix]
    exact List.prefix_append _ _
  rw [word, if_pos hp, ← String.length_toList, List.drop_left]

theorem denotes_bool (b : Bool) : Denotes (if b then "true" else "false").toList (.bool b) where
  head := by cases b <;> (intro c hc; cases hc; rfl)
  value := by
    intro fuel rest
    cases b with
    | false => exact word_append "false" (.bool false) ('\n' :: rest)
    | true => exact word_append "true" (.bool true) ('\n' :: rest)

theorem lookup?_eq_none_iff {key : String} {es : Entries} :
    es.lookup? key = none ↔ key ∉ es.map Prod.fst := by
  rw [Entries.lookup?, List.lookup_eq_none_iff]
  simp only [bne_iff_ne, List.mem_map, not_exists, not_and]
  exact ⟨fun h e he heq => h e he heq.symm, fun h e he heq => h e he heq.symm⟩

section Pair

variable {key : String} {text : List Char} {v : Value} {d : Document}

theorem add_new (h : key ∉ d.current.map Prod.fst) (v : Value) :
    d.add [key] v = .ok { d with current := d.current ++ [(key, v)] } := by
  simp [Document.add, Document.splitPath, addPair, change, lookup?_eq_none_iff.2 h]
  rfl

theorem add_doubled (h : key ∈ d.current.map Prod.fst) (v : Value) :
    d.add [key] v = .error .duplicateKey := by
  obtain ⟨w, hw⟩ := Option.ne_none_iff_exists'.1 (mt lookup?_eq_none_iff.1 (not_not.2 h))
  simp [Document.add, Document.splitPath, addPair, change, hw]
  rfl

theorem pair_bare (hk : IsBareKey key) (hv : Denotes text v) (rest : List Char) :
    d.pair (key.toList ++ (" = ".toList ++ (text ++ '\n' :: rest))) =
      (d.add [key] v).map (·, rest) := by
  have hkey : fullKey (key.toList ++ (" = ".toList ++ (text ++ '\n' :: rest))) =
      .ok ([key], '=' :: ' ' :: (text ++ '\n' :: rest)) :=
    fullKey_bare hk (by intro c h; cases h; rfl) (show some '=' ≠ some '.' by decide)
  have hb : skipBlanks (' ' :: (text ++ '\n' :: rest)) = text ++ '\n' :: rest := by
    rw [skipBlanks, List.dropWhile_cons_of_pos (by decide)]
    apply skipBlanks_of_head
    intro c hc
    cases text with
    | nil => cases hc; rfl
    | cons t text => exact hv.head c hc
  rw [Document.pair, hkey]
  simp only [bind, Except.bind]
  rw [hb, hv.value]
  simp only [lineEnd_newline]
  cases d.add [key] v <;> rfl

/-- A pair on its line: bare key, equals sign, and the text of a value. -/
theorem lines_pair (hk : IsBareKey key) (hv : Denotes text v) (rest : List Char) :
    d.lines (key.toList ++ " = ".toList ++ text ++ '\n' :: rest) =
      (d.add [key] v).bind fun d => d.lines rest := by
  obtain ⟨c, cs, hcs, hc⟩ := hk.exists_cons
  have hpair := pair_bare (d := d) hk hv rest
  have hn : c ≠ '\n' := ne_of_isBareKeyChar hc (by decide)
  have hr : c ≠ '\r' := ne_of_isBareKeyChar hc (by decide)
  have hs := hk.skipBlanks_append (" = ".toList ++ (text ++ '\n' :: rest))
  have hnew : ∀ l, newline? (c :: l) = none := by
    intro l
    unfold newline?
    split <;> simp_all
  simp only [List.append_assoc]
  rw [hcs, List.cons_append] at hpair hs ⊢
  rw [Document.lines, hs]
  simp only
  rw [if_neg (ne_of_isBareKeyChar hc (by decide)), if_neg (ne_of_isBareKeyChar hc (by decide)),
    hnew, if_neg hr, hpair]
  cases d.add [key] v with
  | error f => rfl
  | ok e =>
    simp only [Except.map, Except.bind]
    rw [if_pos (by simp; omega)]

end Pair

/-- The header of a first table. -/
theorem lines_header {key : String} (hk : IsBareKey key) {es : Entries}
    (hes : key ∉ es.map Prod.fst) (rest : List Char) :
    Document.lines ⟨[], [], false, es⟩ ('[' :: (key.toList ++ ']' :: '\n' :: rest)) =
      Document.lines ⟨es, [key], false, []⟩ rest := by
  obtain ⟨c, cs, hcs, hc⟩ := hk.exists_cons
  have hb : c ≠ '[' := ne_of_isBareKeyChar hc (by decide)
  have hkey : fullKey (key.toList ++ ']' :: '\n' :: rest) = .ok ([key], ']' :: '\n' :: rest) :=
    fullKey_bare hk (by intro c h; cases h; rfl) (show some ']' ≠ some '.' by decide)
  have hopen : Document.openTable [key] ⟨[], [], false, es⟩ = .ok ⟨es, [key], false, []⟩ := by
    simp [Document.openTable, Document.close, Document.splitPath, change,
      lookup?_eq_none_iff.2 hes, bind, Except.bind]
    rfl
  have hheader : Document.header ⟨[], [], false, es⟩ (key.toList ++ ']' :: '\n' :: rest) =
      .ok (⟨es, [key], false, []⟩, rest) := by
    unfold Document.header
    split
    · next r h =>
      rw [hcs] at h
      cases h
      exact absurd rfl hb
    · rw [hkey]
      simp only [bind, Except.bind, lineEnd_newline, hopen]
      rfl
  rw [Document.lines]
  have hs : skipBlanks ('[' :: (key.toList ++ ']' :: '\n' :: rest)) =
      '[' :: (key.toList ++ ']' :: '\n' :: rest) := rfl
  rw [hs]
  simp only
  rw [if_neg (by decide), if_pos trivial, hheader]
  simp only
  rw [if_pos (by simp; omega)]

theorem lines_nil (d : Document) : d.lines [] = .ok d := by
  rw [Document.lines]
  rfl

theorem close_table {key : String} {root : Entries} (h : key ∉ root.map Prod.fst) (es : Entries) :
    Document.close ⟨root, [key], false, es⟩ = .ok (root ++ [(key, .table .header es)]) := by
  simp [Document.close, Document.splitPath, change, lookup?_eq_none_iff.2 h, Except.map]

structure Pair where
  key : String
  text : List Char
  value : Value

namespace Pair

def line (a : Pair) : List Char := a.key.toList ++ " = ".toList ++ a.text ++ ['\n']

def entry (a : Pair) : String × Value := (a.key, a.value)

/-- A pair that is read as it should be. -/
structure IsPair (a : Pair) : Prop where
  key : IsBareKey a.key
  value : Denotes a.text a.value

theorem IsPair.lines {a : Pair} (ha : a.IsPair) (d : Document) (rest : List Char) :
    d.lines (a.line ++ rest) = (d.add [a.key] a.value).bind fun d => d.lines rest := by
  rw [line, List.append_assoc, List.singleton_append]
  exact lines_pair ha.key ha.value rest

def ofText (key value : String) : Pair := ⟨key, writeText value.toList, .text value⟩

theorem isPair_ofText {key : String} (hk : IsBareKey key) (value : String) :
    (ofText key value).IsPair := ⟨hk, denotes_writeText value⟩

end Pair

section Pairs

variable {as : List Pair} {d : Document}

/-- Pairs whose keys are all new are added in their order. -/
theorem lines_pairs (has : ∀ a ∈ as, a.IsPair)
    (hkeys : (d.current.map Prod.fst ++ as.map Pair.key).Nodup) (rest : List Char) :
    d.lines (as.flatMap Pair.line ++ rest) =
      { d with current := d.current ++ as.map Pair.entry : Document }.lines rest := by
  induction as generalizing d with
  | nil => simp
  | cons a as ih =>
    have hnew : a.key ∉ d.current.map Prod.fst := by
      intro hmem
      exact (List.nodup_append.1 hkeys).2.2 _ hmem _ List.mem_cons_self rfl
    rw [List.flatMap_cons, List.append_assoc, (has a List.mem_cons_self).lines, add_new hnew]
    refine (ih (fun b hb => has b (List.mem_cons_of_mem a hb)) ?_).trans ?_
    · simpa [List.append_assoc] using hkeys
    · simp [Pair.entry]

/-- The first key that was there before is an error, whatever follows. -/
theorem lines_pairs_doubled (has : ∀ a ∈ as, a.IsPair) (hd : (d.current.map Prod.fst).Nodup)
    (hkeys : ¬ (d.current.map Prod.fst ++ as.map Pair.key).Nodup) (rest : List Char) :
    d.lines (as.flatMap Pair.line ++ rest) = .error .duplicateKey := by
  induction as generalizing d with
  | nil => simp [hd] at hkeys
  | cons a as ih =>
    rw [List.flatMap_cons, List.append_assoc, (has a List.mem_cons_self).lines]
    -- Up to the first such key the table grows without doubles.
    by_cases hmem : a.key ∈ d.current.map Prod.fst
    · rw [add_doubled hmem]
      rfl
    · rw [add_new hmem]
      refine ih (fun b hb => has b (List.mem_cons_of_mem a hb)) ?_ ?_
      · rw [List.map_append, List.map_singleton, ← List.concat_eq_append]
        exact hd.concat hmem
      · simpa [List.append_assoc] using hkeys

end Pairs

section Table

variable {key : String} {top as : List Pair}

def tableText (top : List Pair) (key : String) (as : List Pair) : List Char :=
  top.flatMap Pair.line ++ '[' :: (key.toList ++ ']' :: '\n' :: as.flatMap Pair.line)

theorem parse_tableText (hk : IsBareKey key) (htop : ∀ a ∈ top, a.IsPair)
    (hkeys : (key :: top.map Pair.key).Nodup) :
    parse (tableText top key as) =
      (Document.lines ⟨top.map Pair.entry, [key], false, []⟩ (as.flatMap Pair.line)).bind
        Document.close := by
  have hbom : (tableText top key as).head? ≠ some '\ufeff' := by
    cases top with
    | nil => simp [tableText]
    | cons a top =>
      obtain ⟨c, cs, hcs, hc⟩ := (htop a List.mem_cons_self).key.exists_cons
      simp only [tableText, List.flatMap_cons, Pair.line, hcs, List.cons_append, List.head?_cons]
      intro h
      cases h
      exact absurd hc (by decide)
  have hfst : (top.map Pair.entry).map Prod.fst = top.map Pair.key := List.map_map
  obtain ⟨hnew, htops⟩ := List.nodup_cons.1 hkeys
  have hpairs := lines_pairs (d := .empty) htop htops
    ('[' :: (key.toList ++ ']' :: '\n' :: as.flatMap Pair.line))
  have hheader := lines_header hk (hfst ▸ hnew) (as.flatMap Pair.line)
  simp only [parse]
  rw [if_neg hbom, tableText, hpairs]
  exact congrArg (Except.bind · Document.close) hheader

/-- A table whose keys are there once each. -/
theorem parse_table (hk : IsBareKey key) (htop : ∀ a ∈ top, a.IsPair) (has : ∀ a ∈ as, a.IsPair)
    (hkeys : (key :: top.map Pair.key).Nodup) (hin : (as.map Pair.key).Nodup) :
    parse (tableText top key as) =
      .ok (top.map Pair.entry ++ [(key, .table .header (as.map Pair.entry))]) := by
  have hfst : (top.map Pair.entry).map Prod.fst = top.map Pair.key := List.map_map
  have hpairs := lines_pairs (d := ⟨top.map Pair.entry, [key], false, []⟩) has hin []
  rw [List.append_nil, lines_nil] at hpairs
  rw [parse_tableText hk htop hkeys, hpairs]
  exact close_table (hfst ▸ (List.nodup_cons.1 hkeys).1) _

theorem parse_table_doubled (hk : IsBareKey key) (htop : ∀ a ∈ top, a.IsPair)
    (has : ∀ a ∈ as, a.IsPair) (hkeys : (key :: top.map Pair.key).Nodup)
    (hin : ¬ (as.map Pair.key).Nodup) :
    parse (tableText top key as) = .error .duplicateKey := by
  have hpairs := lines_pairs_doubled (d := ⟨top.map Pair.entry, [key], false, []⟩) has
    List.nodup_nil hin []
  rw [List.append_nil] at hpairs
  rw [parse_tableText hk htop hkeys, hpairs]
  rfl

end Table

end NodeConfig.Toml
