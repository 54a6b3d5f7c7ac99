import Mathlib
import NodeConfig.Proofs.Yaml.Value

namespace NodeConfig.Yaml

namespace Scan

/-- One token more. -/
theorem run_step {s t u v : Scan} (hs : s.dropStale = some t) (ht : t.advance = some u)
    (hne : u.rest ≠ []) (hu : u.fetch = some v) (hlen : v.rest.length < s.rest.length) :
    s.run = v.run := by
  rw [run, hs]
  simp only [ht, hne, hu, hlen, if_true, if_false]

theorem dropStale_inBlock (p : Place) (cs : List Char) (ts : List Token) (is : List ℕ) (k : Bool) :
    (inBlock p cs ts is k).dropStale = some (inBlock p cs ts is k) := rfl

/-- The mappings that are further in than a column end there, and the others stay open. -/
inductive Dedent (n : ℕ) : List ℕ → List Token → List ℕ → List Token → Prop
  | none (is : List ℕ) (ts : List Token) (h : ∀ m ∈ is.head?, m ≤ n) : Dedent n is ts is ts
  | close {m : ℕ} {is is' : List ℕ} {ts ts' : List Token} (hm : n < m)
      (h : Dedent n is (.blockEnd :: ts) is' ts') : Dedent n (m :: is) ts is' ts'

namespace Dedent

variable {n : ℕ} {is is' : List ℕ} {ts ts' : List Token}

theorem head_le (h : Dedent n is ts is' ts') : ∀ m ∈ is'.head?, m ≤ n := by
  induction h with
  | none _ _ h => exact h
  | close _ _ ih => exact ih

theorem unroll (h : Dedent n is ts is' ts') :
    List.replicate (is.takeWhile (n < ·)).length .blockEnd ++ ts = ts' ∧
      is.drop (is.takeWhile (n < ·)).length = is' := by
  induction h with
  | none is ts h =>
    have hnone : is.takeWhile (n < ·) = [] := by
      cases is with
      | nil => rfl
      | cons m is => simpa using h m rfl
    simp [hnone]
  | @close m is is' ts ts' hm _ ih =>
    obtain ⟨hts, his⟩ := ih
    rw [List.takeWhile_cons_of_pos (by simpa using hm), List.length_cons, List.drop_succ_cons, his,
      ← hts, List.replicate_succ', List.append_assoc, List.singleton_append]
    exact ⟨rfl, rfl⟩

/-- At the end of the text it does not matter which mappings have ended before. -/
theorem atEnd (h : Dedent n is ts is' ts') :
    List.replicate is.length Token.blockEnd ++ ts =
      List.replicate is'.length Token.blockEnd ++ ts' := by
  induction h with
  | none => rfl
  | @close m is _ ts _ _ _ ih =>
    rw [← ih, List.length_cons, List.replicate_succ', List.append_assoc, List.singleton_append]

end Dedent

theorem advance_dedent {p q : Place} {cs rest : List Char} {ts ts' : List Token} {is is' : List ℕ}
    {k k' : Bool} (hgap : skipGap false k false p cs = (k', q, rest))
    (hd : Dedent q.column is ts is' ts') :
    (inBlock p cs ts is k).advance = some (inBlock q rest ts' is' k') := by
  obtain ⟨hts, his⟩ := hd.unroll
  simp [advance, inBlock, inFlow, hgap, dropStale, freshKey, unrollTo, hts, his]

theorem startOf_name {c : Char} (hc : isNameChar c = true) (hh : c ≠ '-') (column : ℕ)
    (rest : List Char) : startOf false column (c :: rest) = .plain := by
  have hne : ∀ d, isNameChar d = false → c ≠ d := fun d hd => ne_of_isNameChar hc hd
  have hi : isIndicator c = false := by
    rw [Bool.eq_false_iff, Ne, isIndicator_iff]
    intro hmem
    have hall : ∀ d ∈ [',', '[', ']', '{', '}', '#', '&', '*', '!', '|', '>', '\'', '"', '%', '@',
      '`'], isNameChar d = false := by simp [isNameChar]
    exact hne c (hall c hmem) rfl
  have hm : ∀ d, c ≠ d → isMark d (c :: rest) = false := by
    intro d hd
    unfold isMark
    split <;> simp_all
  simp [startOf, hne '%' (by decide), hm '-' hh, hm '.' (hne '.' (by decide)), hh,
    hne '?' (by decide), hne ':' (by decide), hi, isWord_of_isNameChar hc]

def opened (n : ℕ) (is : List ℕ) : List ℕ := if is.head? = some n then is else n :: is

@[simp] theorem opened_self (n : ℕ) (is : List ℕ) : opened n (n :: is) = n :: is := if_pos rfl

def keyTokens (n : ℕ) (is : List ℕ) (key : List Char) : List Token :=
  .value :: .scalar (String.ofList key) .plain :: .key ::
    (if is.head? = some n then [] else [.blockMappingStart])

theorem startOf_colon {column : ℕ} (h : column ≠ 0) {rest : List Char}
    (hrest : endsWord rest = true) : startOf false column (':' :: rest) = .value := by
  simp only [startOf, h, hrest]
  simp

/-- Before the colon of a key, where a mark may still be put before it. -/
def atColon (i l n : ℕ) (key rest : List Char) (ts : List Token) (is : List ℕ) : Scan :=
  ⟨⟨i + key.length, l, n + key.length⟩, ':' :: rest, .scalar (String.ofList key) .plain :: ts,
    some ⟨is.head? = some n, ts.length, ⟨i, l, n⟩⟩, [], is, false⟩

section AtColon

variable {i l n : ℕ} {key rest : List Char} {ts : List Token} {is : List ℕ}

theorem fetch_key (hkey : IsName key) (hrest : endsWord rest = true) :
    (inBlock ⟨i, l, n⟩ (key ++ ':' :: rest) ts is true).fetch =
      some (atColon i l n key rest ts is) := by
  have hplain := fun indent => plain_name indent hkey ⟨i, l, n⟩ hrest
  obtain ⟨hne, hhead, hall⟩ := hkey
  obtain ⟨c, key, rfl⟩ := List.exists_cons_of_ne_nil hne
  have hstart := startOf_name (hall c List.mem_cons_self) (by simpa using hhead) n
    (key ++ ':' :: rest)
  simp only [List.cons_append, Place.right] at hplain
  simp [fetch, inBlock, inFlow, hstart, startKey, dropKey, hplain, atColon]

/-- A key that is short enough is still good at its colon. -/
theorem dropStale_atColon (hlen : key.length ≤ 1024) :
    (atColon i l n key rest ts is).dropStale = some (atColon i l n key rest ts is) := by
  have hstale : ¬ i + 1024 < i + key.length := by omega
  simp [dropStale, freshKey, KeyStart.isStale, atColon, hstale]

theorem advance_atColon (hlen : key.length ≤ 1024) (his : ∀ m ∈ is.head?, m ≤ n) :
    (atColon i l n key rest ts is).advance = some (atColon i l n key rest ts is) := by
  have hskip : skipGap (atColon i l n key rest ts is).inFlow false false
      ⟨i + key.length, l, n + key.length⟩ (':' :: rest) =
        (false, ⟨i + key.length, l, n + key.length⟩, ':' :: rest) :=
    skipGap_word false false _ (show BeginsWord ':' by decide) rest
  have hfresh : (atColon i l n key rest ts is).dropStale = some (atColon i l n key rest ts is) :=
    dropStale_atColon hlen
  have hunroll : unrollTo (n + key.length) (atColon i l n key rest ts is) =
      atColon i l n key rest ts is := by
    have hcolumns : ∀ m ∈ is.head?, m ≤ n + key.length :=
      fun m hm => (his m hm).trans (Nat.le_add_right _ _)
    obtain ⟨hts, his⟩ := (Dedent.none _ (atColon i l n key rest ts is).tokens hcolumns).unroll
    simp [unrollTo, inFlow, atColon] at hts his ⊢
    exact ⟨hts, his⟩
  simp only [advance, atColon] at hskip hfresh hunroll ⊢
  rw [hskip]
  simp only [hfresh, Option.map_some, hunroll]

/-- The colon puts the mark, and opens a mapping unless one is at the column of the key. -/
theorem fetch_atColon (hkey : IsName key) (hrest : endsWord rest = true)
    (his : ∀ m ∈ is.head?, m ≤ n) :
    (atColon i l n key rest ts is).fetch =
      some (inBlock ⟨i + key.length + 1, l, n + key.length + 1⟩ rest (keyTokens n is key ++ ts)
        (opened n is) false) := by
  have hpos : 0 < key.length := List.length_pos_iff.2 hkey.1
  have hstart := startOf_colon (show n + key.length ≠ 0 by omega) hrest
  have hle : is.head?.any (n ≤ ·) = decide (is.head? = some n) := by
    cases is with
    | nil => rfl
    | cons m is =>
      have := his m rfl
      simp
      omega
  have htwo : ts.length + 1 + 1 - ts.length = 2 := by omega
  simp only [fetch, inFlow, List.isEmpty_nil, Bool.not_true, hstart, value, roll, insert, take,
    allowKey, inBlock, atColon]
  by_cases hn : is.head? = some n
  · simp [hn, keyTokens, opened, Place.right]
  · simp [hle, hn, keyTokens, opened, Place.right, htwo]

end AtColon

/-- A key at the start of its line, with its colon. -/
theorem run_key {n : ℕ} {key : List Char} (hkey : IsName key) (hlen : key.length ≤ 1024)
    {rest : List Char} (hrest : endsWord rest = true) {p : Place} {cs : List Char}
    {is₀ is : List ℕ} {ts₀ ts : List Token} (hd : Dedent n is₀ ts₀ is ts) {k : Bool} {i l : ℕ}
    (hgap : skipGap false k false p cs = (true, ⟨i, l, n⟩, key ++ ':' :: rest)) :
    (inBlock p cs ts₀ is₀ k).run =
      (inBlock ⟨i + key.length + 1, l, n + key.length + 1⟩ rest (keyTokens n is key ++ ts)
        (opened n is) false).run := by
  have hpos : 0 < key.length := List.length_pos_iff.2 hkey.1
  have hlength : (key ++ ':' :: rest).length ≤ cs.length := by
    have h := length_skipGap_le false k false p cs
    rwa [hgap] at h
  rw [run_step (dropStale_inBlock ..) (advance_dedent hgap hd) (by simp [inBlock])
    (fetch_key hkey hrest) (by simp [inBlock, atColon] at hlength ⊢; omega)]
  exact run_step (dropStale_atColon hlen) (advance_atColon hlen hd.head_le) (by simp [atColon])
    (fetch_atColon hkey hrest hd.head_le) (by simp [atColon, inBlock])

/-- The value of a key, up to the line after it. -/
theorem run_value {n : ℕ} {v : List Char} {t : Token} (hv : IsValue n v t) {next : List Char}
    (hnext : NextLine n next) {p : Place} (hp : n ≤ p.column) (ts : List Token) (is : List ℕ) :
    ∃ q rest k, (inBlock p (' ' :: (v ++ next)) ts (n :: is) false).run =
      (inBlock q rest (t :: ts) (n :: is) k).run ∧ AtLine next k q rest := by
  have hright : n < p.right.column := Nat.lt_succ_of_le hp
  obtain ⟨q, rest, k, hfetch, hat⟩ := hv.fetch ts is hright hnext
  obtain ⟨c, tail, rfl, hc⟩ := hv.begins
  have hgap : skipGap false false false p (' ' :: (c :: tail ++ next)) =
      (false, p.right, c :: tail ++ next) := by
    rw [skipGap_space, List.cons_append, skipGap_word _ _ _ hc]
  refine ⟨q, rest, k, ?_, hat⟩
  have hlength := hat.length
  exact run_step (dropStale_inBlock ..) (advance_dedent hgap (.none _ _ (by simpa using hright.le)))
    (by simp [inBlock]) hfetch (by simp [inBlock]; omega)

end Scan

/-! ### Entries -/

/-- A key, how its value is written, and the scalar that this is. -/
structure Entry where
  key : List Char
  value : List Char
  text : String
  style : Style

namespace Entry

def token (e : Entry) : Token := .scalar e.text e.style

def lines (n : ℕ) (e : Entry) : List Char :=
  List.replicate n ' ' ++ (e.key ++ ':' :: ' ' :: e.value)

def tokens (e : Entry) : List Token :=
  [.key, .scalar (String.ofList e.key) .plain, .value, e.token]

/-- An entry that is scanned as it should be at column `n`. -/
structure IsEntry (n : ℕ) (e : Entry) : Prop where
  key : IsName e.key
  short : e.key.length ≤ 1024
  value : IsValue n e.value e.token

theorem IsEntry.nextLine {n : ℕ} {e : Entry} (he : IsEntry n e) (rest : List Char) :
    NextLine n (e.lines n ++ rest) := by
  obtain ⟨c, key, hkey, hc⟩ := he.key.exists_cons
  rw [lines, hkey, List.append_assoc]
  exact .line le_rfl hc

def ofText (n : ℕ) (key value : String) : Entry :=
  ⟨key.toList, endLine (writeScalar (n + 2) value.toList), value, styleFor value.toList⟩

theorem lines_ofText (n : ℕ) (key value : String) :
    (ofText n key value).lines n = writeEntry n key value := by
  rw [writeEntry, List.append_assoc, List.append_assoc]
  rfl

theorem isEntry_ofText (n : ℕ) {key : String} (hkey : IsName key.toList)
    (hlen : key.length ≤ 1024) (value : String) : (ofText n key value).IsEntry n := by
  refine ⟨hkey, by rwa [← String.length_toList] at hlen, ?_⟩
  have hvalue := isValue_writeScalar n value.toList
  rwa [String.ofList_toList] at hvalue

end Entry

theorem skipGap_entry {n : ℕ} {e : Entry} (he : e.IsEntry n) (rest : List Char) (i l : ℕ) :
    skipGap false true false ⟨i, l, 0⟩ (e.lines n ++ rest) =
      (true, ⟨i + n, l, n⟩, e.key ++ ':' :: ' ' :: (e.value ++ rest)) := by
  obtain ⟨c, key, hkey, hc⟩ := he.key.exists_cons
  rw [Entry.lines, hkey, List.append_assoc, skipGap_spaces]
  simp only [List.cons_append]
  rw [skipGap_word _ _ _ hc]
  simp [Place.right]

theorem Scan.head?_opened (n : ℕ) (is : List ℕ) : (opened n is).head? = some n := by
  unfold opened
  split
  · assumption
  · rfl

open Scan in
/-- One entry; it may open the mapping it is in. -/
theorem run_entry {n : ℕ} {e : Entry} (he : e.IsEntry n) {next : List Char}
    (hnext : NextLine n next) {p : Place} {cs : List Char} {k : Bool}
    (hat : AtLine (e.lines n ++ next) k p cs) {is₀ is : List ℕ} {ts₀ ts : List Token}
    (hd : Dedent n is₀ ts₀ is ts) :
    ∃ q rest k', (inBlock p cs ts₀ is₀ k).run =
      (inBlock q rest (e.token :: (keyTokens n is e.key ++ ts)) (opened n is) k').run ∧
        AtLine next k' q rest := by
  obtain ⟨i, l, hgap⟩ := hat.gap
  rw [skipGap_entry he] at hgap
  obtain ⟨is', his'⟩ : ∃ is', opened n is = n :: is' :=
    ⟨_, (List.cons_head?_tail (head?_opened n is)).symm⟩
  rw [run_key he.key he.short (by rfl) hd hgap, his']
  exact run_value he.value hnext (by simp only; omega) _ _

open Scan in
/-- Entries of a mapping that is open. -/
theorem run_entries {n : ℕ} {es : List Entry} (hes : ∀ e ∈ es, e.IsEntry n) {next : List Char}
    (hnext : NextLine n next) {p : Place} {cs : List Char} {k : Bool}
    (hat : AtLine (es.flatMap (·.lines n) ++ next) k p cs) (is : List ℕ) (ts : List Token) :
    ∃ q rest k', (inBlock p cs ts (n :: is) k).run =
      (inBlock q rest ((es.flatMap (·.tokens)).reverse ++ ts) (n :: is) k').run ∧
        AtLine next k' q rest := by
  induction es generalizing p cs k ts with
  | nil => exact ⟨p, cs, k, rfl, hat⟩
  | cons e es ih =>
    have he := hes e List.mem_cons_self
    have hes' : ∀ e ∈ es, e.IsEntry n := fun d hd => hes d (List.mem_cons_of_mem e hd)
    have hmore : NextLine n (es.flatMap (·.lines n) ++ next) := by
      cases es with
      | nil => exact hnext
      | cons d es =>
        rw [List.flatMap_cons, List.append_assoc]
        exact (hes' d List.mem_cons_self).nextLine _
    rw [List.flatMap_cons, List.append_assoc] at hat
    obtain ⟨q, rest, k', hrun, hat'⟩ :=
      run_entry he hmore hat (.none (n :: is) ts (by simp))
    obtain ⟨q', rest', k'', hrun', hat''⟩ := ih hes' hat' _
    refine ⟨q', rest', k'', ?_, hat''⟩
    rw [hrun, opened_self, hrun']
    simp [Entry.tokens, keyTokens]

open Scan in
/-- At the end of the text all mappings end. -/
theorem run_end {p : Place} {cs : List Char} {k : Bool} (hat : AtLine [] k p cs) (is : List ℕ)
    (ts : List Token) :
    (inBlock p cs ts is k).run =
      ts.reverse ++ (List.replicate is.length .blockEnd ++ [.streamEnd]) := by
  obtain ⟨i, l, hgap⟩ := hat.gap
  rw [skipGap] at hgap
  have hadvance : (inBlock p cs ts is k).advance =
      some (unrollTo 0 (inBlock ⟨i, l, 0⟩ [] ts is true)) := by
    simp [advance, inBlock, inFlow, hgap, dropStale, freshKey]
  have hcount : is.length - (is.takeWhile (0 < ·)).length + (is.takeWhile (0 < ·)).length =
      is.length := Nat.sub_add_cancel (List.takeWhile_prefix _).length_le
  have hfinish : (unrollTo 0 (inBlock ⟨i, l, 0⟩ [] ts is true)).finish = some
      ⟨⟨i, l, 0⟩, [], .streamEnd :: (List.replicate is.length .blockEnd ++ ts), none, [], [],
        true⟩ := by
    simp [unrollTo, inBlock, inFlow, finish, unrollAll, dropKey, push, ← List.append_assoc,
      hcount]
  have hrest : (unrollTo 0 (inBlock ⟨i, l, 0⟩ [] ts is true)).rest = [] := rfl
  rw [run, dropStale_inBlock]
  simp only [hadvance, hrest, hfinish, if_true]
  simp

/-! ### Documents -/

/-- A part of a document: an entry, or a key with entries of its own, two columns in. -/
inductive Part where
  | entry (e : Entry)
  | mapping (name : List Char) (es : List Entry)

namespace Part

def text : Part → List Char
  | entry e => e.lines 0
  | mapping name es => name ++ ':' :: '\n' :: es.flatMap (·.lines 2)

def tokens : Part → List Token
  | entry e => e.tokens
  | mapping name [] => [.key, .scalar (String.ofList name) .plain, .value]
  | mapping name (e :: es) =>
    [.key, .scalar (String.ofList name) .plain, .value, .blockMappingStart] ++
      (e :: es).flatMap (·.tokens) ++ [.blockEnd]

inductive IsPart : Part → Prop
  | entry {e : Entry} (h : e.IsEntry 0) : IsPart (entry e)
  | mapping {name : List Char} {es : List Entry} (hname : IsName name) (hlen : name.length ≤ 1024)
      (hes : ∀ e ∈ es, e.IsEntry 2) : IsPart (mapping name es)

def chars : Part → List Char
  | entry e => e.value
  | mapping _ es => es.flatMap (·.value)

theorem IsPart.nextLine {a : Part} (ha : a.IsPart) (rest : List Char) :
    NextLine 0 (a.text ++ rest) := by
  cases ha with
  | entry h => exact h.nextLine rest
  | mapping hname _ _ =>
    obtain ⟨c, key, hkey, hc⟩ := hname.exists_cons
    rw [text, hkey, List.cons_append, List.cons_append]
    exact .line (m := 0) le_rfl hc

end Part

open Scan in
/-- The mapping of a key, up to the line after it; then it is still open. -/
theorem run_mapping {e : Entry} {es : List Entry} (hes : ∀ d ∈ e :: es, d.IsEntry 2)
    {next : List Char} (hnext : NextLine 0 next) {p : Place} {cs : List Char} {k : Bool}
    (hat : AtLine ((e :: es).flatMap (·.lines 2) ++ next) k p cs) (is : List ℕ) (ts : List Token) :
    ∃ q rest k', (inBlock p cs ts (0 :: is) k).run =
      (inBlock q rest (((e :: es).flatMap (·.tokens)).reverse ++ .blockMappingStart :: ts)
        (2 :: 0 :: is) k').run ∧ AtLine next k' q rest := by
  have he := hes e List.mem_cons_self
  have hes' : ∀ d ∈ es, d.IsEntry 2 := fun d hd => hes d (List.mem_cons_of_mem e hd)
  have hnext' : NextLine 2 next := by
    cases hnext with
    | done => exact .done
    | line hm hc => exact .line (hm.trans (Nat.zero_le 2)) hc
  have hmore : NextLine 2 (es.flatMap (·.lines 2) ++ next) := by
    cases es with
    | nil => exact hnext'
    | cons d es =>
      rw [List.flatMap_cons, List.append_assoc]
      exact (hes' d List.mem_cons_self).nextLine _
  rw [List.flatMap_cons, List.append_assoc] at hat
  obtain ⟨q, rest, k', hrun, hat'⟩ :=
    run_entry he hmore hat (.none (0 :: is) ts (by simp))
  obtain ⟨q', rest', k'', hrun', hat''⟩ := run_entries hes' hnext' hat' (0 :: is)
    (e.token :: (keyTokens 2 (0 :: is) e.key ++ ts))
  refine ⟨q', rest', k'', ?_, hat''⟩
  rw [hrun]
  refine hrun'.trans ?_
  simp [Entry.tokens, keyTokens]

open Scan in
/-- One part of a document. Its mapping, if it has one, is open until the next part. -/
theorem run_part {a : Part} (ha : a.IsPart) {next : List Char} (hnext : NextLine 0 next)
    {p : Place} {cs : List Char} {k : Bool} (hat : AtLine (a.text ++ next) k p cs)
    {is₀ is : List ℕ} {ts₀ ts : List Token} (hd : Dedent 0 is₀ ts₀ is ts) :
    ∃ q rest k' is₁ ts₁, (inBlock p cs ts₀ is₀ k).run = (inBlock q rest ts₁ is₁ k').run ∧
      AtLine next k' q rest ∧ Dedent 0 is₁ ts₁ (opened 0 is)
        (a.tokens.reverse ++ ((if is.head? = some 0 then [] else [.blockMappingStart]) ++ ts)) := by
  have hsame : ∀ u, Dedent 0 (opened 0 is) u (opened 0 is) u :=
    fun u => .none _ _ (by simp [head?_opened])
  cases ha with
  | @entry e h =>
    obtain ⟨q, rest, k', hrun, hat'⟩ := run_entry h hnext hat hd
    refine ⟨q, rest, k', _, _, hrun, hat', ?_⟩
    convert hsame _ using 1
    simp [Part.tokens, Entry.tokens, keyTokens]
  | @mapping name es hname hlen hes =>
    obtain ⟨i, l, hgap⟩ := hat.gap
    have hword : skipGap false true false ⟨i, l, 0⟩ ((Part.mapping name es).text ++ next) =
        (true, ⟨i, l, 0⟩, name ++ ':' :: '\n' :: (es.flatMap (·.lines 2) ++ next)) := by
      obtain ⟨c, tail, hkey, hc⟩ := hname.exists_cons
      rw [Part.text, hkey, List.append_assoc]
      exact skipGap_word _ _ _ hc _
    have hrun := run_key hname hlen (by rfl) hd (hgap.trans hword)
    have hat' := atLine_newline (es.flatMap (·.lines 2) ++ next) false
      ⟨i + name.length + 1, l, 0 + name.length + 1⟩
    cases es with
    | nil =>
      refine ⟨_, _, _, _, _, hrun, hat', ?_⟩
      convert hsame _ using 1
      simp [Part.tokens, keyTokens]
    | cons e es =>
      obtain ⟨is', his'⟩ : ∃ is', opened 0 is = 0 :: is' :=
        ⟨_, (List.cons_head?_tail (head?_opened 0 is)).symm⟩
      rw [his'] at hrun hsame ⊢
      obtain ⟨q, rest, k', hrun', hat''⟩ :=
        run_mapping hes hnext hat' is' (keyTokens 0 is name ++ ts)
      -- Its mapping is still open there; the column of what follows ends it.
      refine ⟨q, rest, k', _, _, hrun.trans hrun', hat'', .close (by decide) ?_⟩
      convert hsame _ using 1
      simp [Part.tokens, Entry.tokens, keyTokens]

open Scan in
/-- Parts after the first one, up to the end of the text. -/
theorem run_parts {as : List Part} (has : ∀ a ∈ as, a.IsPart) {p : Place} {cs : List Char}
    {k : Bool} (hat : AtLine (as.flatMap Part.text) k p cs) {is₀ : List ℕ} {ts₀ ts : List Token}
    (hd : Dedent 0 is₀ ts₀ [0] ts) :
    (inBlock p cs ts₀ is₀ k).run =
      ts.reverse ++ (as.flatMap Part.tokens ++ [.blockEnd, .streamEnd]) := by
  induction as generalizing p cs k is₀ ts₀ ts with
  | nil =>
    have hall := congrArg List.reverse hd.atEnd
    rw [List.reverse_append, List.reverse_append, List.reverse_replicate,
      List.reverse_replicate] at hall
    rw [run_end hat, ← List.append_assoc, hall, List.append_assoc]
    rfl
  | cons a as ih =>
    have has' : ∀ b ∈ as, b.IsPart := fun b hb => has b (List.mem_cons_of_mem a hb)
    have hnext : NextLine 0 (as.flatMap Part.text) := by
      cases as with
      | nil => exact .done
      | cons b as => exact (has' b List.mem_cons_self).nextLine _
    obtain ⟨q, rest, k', is₁, ts₁, hrun, hat', hd'⟩ :=
      run_part (has a List.mem_cons_self) hnext hat hd
    rw [hrun, ih has' hat' hd']
    simp

theorem isPlainly_of_isNameChar {c : Char} (h : isNameChar c = true) : isPlainly c = true := by
  simp only [isNameChar, Char.isAlphanum, Char.isAlpha, Char.isUpper, Char.isLower, Char.isDigit,
    Bool.or_eq_true, Bool.and_eq_true, decide_eq_true_eq] at h
  have hrange : 0x20 ≤ c.toNat ∧ c.toNat ≤ 0x7E := by
    rcases h with (((⟨hl, hu⟩ | ⟨hl, hu⟩) | ⟨hl, hu⟩) | rfl) | rfl
    · exact ⟨le_trans (by decide) hl, le_trans hu (by decide)⟩
    · exact ⟨le_trans (by decide) hl, le_trans hu (by decide)⟩
    · exact ⟨le_trans (by decide) hl, le_trans hu (by decide)⟩
    · decide
    · decide
  simp [isPlainly, hrange]

theorem isPlainly_entry {n : ℕ} {e : Entry} (he : e.IsEntry n)
    (hall : ∀ c ∈ e.value, isPlainly c = true) : ∀ c ∈ e.lines n, isPlainly c = true := by
  have hmarks : isPlainly ':' = true ∧ isPlainly ' ' = true := by decide
  intro c hc
  simp only [Entry.lines, List.mem_append, List.mem_cons, List.mem_replicate] at hc
  rcases hc with ⟨-, rfl⟩ | hc | rfl | rfl | hc
  · exact hmarks.2
  · exact isPlainly_of_isNameChar (he.key.2.2 c hc)
  · exact hmarks.1
  · exact hmarks.2
  · exact hall c hc

theorem isPlainly_part {a : Part} (ha : a.IsPart) (hall : ∀ c ∈ a.chars, isPlainly c = true) :
    ∀ c ∈ a.text, isPlainly c = true := by
  cases ha with
  | entry h => exact isPlainly_entry h hall
  | @mapping name es hname _ hes =>
    have hmarks : isPlainly ':' = true ∧ isPlainly '\n' = true := by decide
    have hlines : ∀ e ∈ es, ∀ c ∈ e.lines 2, isPlainly c = true := fun e he =>
      isPlainly_entry (hes e he) fun c hc => hall c (List.mem_flatMap.2 ⟨e, he, hc⟩)
    intro c hc
    simp only [Part.text, List.mem_append, List.mem_cons, List.mem_flatMap] at hc
    rcases hc with hc | rfl | rfl | ⟨e, he, hc⟩
    · exact isPlainly_of_isNameChar (hname.2.2 c hc)
    · exact hmarks.1
    · exact hmarks.2
    · exact hlines e he c hc

open Scan in
/-- A text without a character that has no place in it is scanned from its start. -/
theorem tokens_eq_run {cs : List Char} (h : ∀ c ∈ cs, isPlainly c = true) :
    tokens cs = (inBlock .start cs [] [] true).run := by
  have hallowed : cs.all isAllowed = true :=
    List.all_eq_true.2 fun c hc => isAllowed_of_isPlainly (h c hc)
  have hmark : cs.head? ≠ some byteOrderMark := by
    intro hhead
    exact absurd (h _ (List.mem_of_head? hhead)) (by decide)
  rw [tokens, if_neg hmark, if_pos hallowed]
  rfl

open Scan in
/-- The tokens of a document with some parts. -/
theorem tokens_parts {as : List Part} (hne : as ≠ []) (has : ∀ a ∈ as, a.IsPart)
    (hall : ∀ a ∈ as, ∀ c ∈ a.chars, isPlainly c = true) :
    tokens (as.flatMap Part.text) =
      .blockMappingStart :: (as.flatMap Part.tokens ++ [.blockEnd, .streamEnd]) := by
  have hplainly : ∀ c ∈ as.flatMap Part.text, isPlainly c = true := by
    intro c hc
    obtain ⟨a, ha, hc⟩ := List.mem_flatMap.1 hc
    exact isPlainly_part (has a ha) (hall a ha) c hc
  rw [tokens_eq_run hplainly]
  -- The first part opens the mapping of the document, the others follow in it.
  obtain ⟨a, as, rfl⟩ := List.exists_cons_of_ne_nil hne
  have has' : ∀ b ∈ as, b.IsPart := fun b hb => has b (List.mem_cons_of_mem a hb)
  have hnext : NextLine 0 (as.flatMap Part.text) := by
    cases as with
    | nil => exact .done
    | cons b as => exact (has' b List.mem_cons_self).nextLine _
  obtain ⟨q, rest, k, is, ts, hrun, hat, hd⟩ := run_part (has a List.mem_cons_self) hnext
    (atLine_start 0 0 ((a :: as).flatMap Part.text)) (.none [] [] (by simp))
  refine hrun.trans ((run_parts has' hat hd).trans ?_)
  simp

open Scan in
/-- A key that is too long is a text of its own by the time of its colon, which then has no key. -/
theorem tokens_longKey {key : List Char} (hkey : IsName key) (hlong : 1024 < key.length)
    {rest : List Char} (hrest : endsWord rest = true) (hall : ∀ c ∈ rest, isPlainly c = true) :
    tokens (key ++ ':' :: rest) = [.scalar (String.ofList key) .plain] := by
  have hplainly : ∀ c ∈ key ++ ':' :: rest, isPlainly c = true := by
    intro c hc
    rcases List.mem_append.1 hc with hc | hc
    · exact isPlainly_of_isNameChar (hkey.2.2 c hc)
    · rcases List.mem_cons.1 hc with rfl | hc
      · decide
      · exact hall c hc
  rw [tokens_eq_run hplainly]
  let late : Scan := inBlock ⟨key.length, 0, key.length⟩ (':' :: rest)
    [.scalar (String.ofList key) .plain] [] false
  have hgap : skipGap false true false .start (key ++ ':' :: rest) =
      (true, .start, key ++ ':' :: rest) := by
    obtain ⟨c, tail, htail, hc⟩ := hkey.exists_cons
    rw [htail]
    exact skipGap_word _ _ _ hc _
  -- The key that might have been there is too far back, and none is needed at the start.
  have hstale : (atColon 0 0 0 key rest [] []).dropStale = some late := by
    simp [dropStale, freshKey, KeyStart.isStale, atColon, late, inBlock, hlong]
  have hadvance : late.advance = some late :=
    advance_dedent (skipGap_word _ _ _ (by decide) _) (.none _ _ (by simp))
  have hfetch : late.fetch = none := by
    have hstart := startOf_colon (show key.length ≠ 0 by omega) hrest
    simp [fetch, inFlow, late, inBlock, hstart, value, enter]
  have hlen : (':' :: rest).length < (key ++ ':' :: rest).length := by
    rw [List.length_append]
    omega
  have hkeyRun : (inBlock .start (key ++ ':' :: rest) [] [] true).run =
      (atColon 0 0 0 key rest [] []).run :=
    run_step (dropStale_inBlock ..) (advance_dedent hgap (.none _ _ (by simp))) (by simp [inBlock])
      (fetch_key hkey hrest) hlen
  rw [hkeyRun, run, hstale]
  have hmore : late.rest ≠ [] := List.cons_ne_nil _ _
  simp only [hadvance, hmore, if_false, hfetch]
  rfl

end NodeConfig.Yaml
