import Mathlib
import NodeConfig.Proofs.CommandLine.Grammar

namespace NodeConfig.CommandLine

variable {σ : Type} {ps : List (Parameter σ)} {s t u : Progress σ} {p : Parameter σ}
  {arg bs v : Bytes} {us vs : List (Use σ)}

namespace Progress

/-- Nothing is awaited, and more arguments may come. -/
structure Clean (s : Progress σ) : Prop where
  awaiting : s.awaiting = none
  trailing : s.trailing = false

def applyAll (s : Progress σ) (us : List (Use σ)) : Except UsageFault (Progress σ) :=
  us.foldlM (fun s u => s.apply u.1 u.2) s

theorem applyAll_cons {x : Use σ} : s.applyAll (x :: us) = .ok t ↔
    ∃ u, s.apply x.1 x.2 = .ok u ∧ u.applyAll us = .ok t := by
  rw [applyAll, List.foldlM_cons, Except.bind_eq_ok_iff]
  rfl

theorem applyAll_append : s.applyAll (us ++ vs) = .ok t ↔
    ∃ u, s.applyAll us = .ok u ∧ u.applyAll vs = .ok t := by
  rw [applyAll, List.foldlM_append, Except.bind_eq_ok_iff]
  rfl

theorem applyAll_singleton {x : Use σ} : s.applyAll [x] = s.apply x.1 x.2 := by
  rw [applyAll, List.foldlM_cons]
  cases s.apply x.1 x.2 <;> rfl

theorem apply_eq_ok_iff {v? : Option Bytes} : s.apply p v? = .ok t ↔
    p.shown ∉ s.given ∧ ∃ change, p.Changes v? change ∧
      t = { s with settings := change s.settings, given := p.shown :: s.given } := by
  constructor
  · intro h
    unfold apply at h
    split at h
    · cases h
    · next set htakes =>
      split_ifs at h with hgiven
      cases h
      exact ⟨by simpa using hgiven, set, .flag htakes _, rfl⟩
    · cases h
    · next set v htakes =>
      split_ifs at h with hgiven
      split at h
      · next change hchange =>
        cases h
        exact ⟨by simpa using hgiven, change, .value htakes hchange, rfl⟩
      · cases h
  · rintro ⟨hgiven, change, hchange, rfl⟩
    cases hchange with
    | flag h => simp [apply, h, hgiven]
    | value h hv => simp [apply, h, hv, hgiven]

theorem Clean.apply (h : s.Clean) {v? : Option Bytes} (ha : s.apply p v? = .ok t) : t.Clean := by
  obtain ⟨-, change, -, rfl⟩ := apply_eq_ok_iff.1 ha
  exact ⟨h.awaiting, h.trailing⟩

theorem Clean.applyAll (h : s.Clean) (ha : s.applyAll us = .ok t) : t.Clean := by
  induction us generalizing s with
  | nil => cases ha; exact h
  | cons x us ih =>
    obtain ⟨u, hu, ha⟩ := applyAll_cons.1 ha
    exact ih (h.apply hu) ha

theorem Clean.settle (h : s.Clean) : s.settle = .ok s := by
  rw [Progress.settle, h.awaiting]

theorem Clean.give (h : s.Clean) (p : Parameter σ) (v? : Option Bytes) :
    s.give p v? = s.apply p v? := by
  rw [Progress.give, h.settle]
  rfl

theorem Clean.await (h : s.Clean) (p : Parameter σ) :
    s.await p = .ok { s with awaiting := some (p, none) } := by
  rw [Progress.await, h.settle]
  rfl

end Progress

open Progress

/-! ### Long arguments -/

theorem splitEquals_plain (h : equals ∉ arg) : splitEquals arg = (arg, none) := by
  have hdrop : arg.dropWhile (· ≠ equals) = [] := by
    rw [List.dropWhile_eq_nil_iff]
    intro b hb
    simpa using ne_of_mem_of_not_mem hb h
  rw [splitEquals, hdrop]

theorem splitEquals_assigned (h : equals ∉ arg) (v : Bytes) :
    splitEquals (arg ++ equals :: v) = (arg, some v) := by
  have hne : ∀ b ∈ arg, decide (b ≠ equals) = true := fun b hb => by
    simpa using ne_of_mem_of_not_mem hb h
  rw [splitEquals, List.dropWhile_append_of_pos hne, List.takeWhile_append_of_pos hne]
  simp

theorem splitEquals_cases (arg : Bytes) : (equals ∉ arg ∧ splitEquals arg = (arg, none)) ∨
    ∃ name v, equals ∉ name ∧ arg = name ++ equals :: v ∧ splitEquals arg = (name, some v) := by
  by_cases h : equals ∈ arg
  · obtain ⟨name, v, rfl, hname⟩ := List.eq_append_cons_of_mem h
    exact .inr ⟨name, v, hname, rfl, splitEquals_assigned hname v⟩
  · exact .inl ⟨h, splitEquals_plain h⟩

inductive Step (ps : List (Parameter σ)) (s : Progress σ) : Bytes → Progress σ → Prop
  | whole {arg : Bytes} {us : List (Use σ)} {t : Progress σ} (h : Whole ps arg us)
      (ha : s.applyAll us = .ok t) : Step ps s arg t
  | opening {arg : Bytes} {us : List (Use σ)} {p : Parameter σ} {t : Progress σ}
      (h : Opening ps arg us p) (ha : s.applyAll us = .ok t) :
      Step ps s arg { t with awaiting := some (p, none) }
  | stop : Step ps s [hyphen, hyphen] { s with trailing := true }

theorem of_find_long {name : Bytes}
    (h : ps.find? (fun p => p.long.any fun l => Utf8.ofString l = name) = some p) :
    p ∈ ps ∧ ∃ l, p.long = some l ∧ Utf8.ofString l = name := by
  have hname := List.find?_some h
  exact ⟨List.mem_of_find?_eq_some h, by simpa [Option.any_eq_true] using hname⟩

theorem longArgument_sound (hs : s.Clean) (h : longArgument ps s arg = .ok t) :
    Step ps s (hyphen :: hyphen :: arg) t := by
  unfold longArgument at h
  obtain ⟨-, hsplit⟩ | ⟨name, v, -, rfl, hsplit⟩ := splitEquals_cases arg
  · rw [hsplit] at h
    dsimp only at h
    split at h
    · cases h
    next p hfind =>
    obtain ⟨hp, l, hl, rfl⟩ := of_find_long hfind
    cases htakes : p.takes with
    | help => simp [htakes, hs.give, Progress.apply] at h
    | flag set =>
      rw [htakes] at h
      refine .whole (.longFlag hp hl ⟨set, htakes⟩) ?_
      rwa [applyAll_singleton, ← hs.give]
    | value set =>
      rw [htakes, hs.await, Except.ok.injEq] at h
      subst h
      exact .opening (.long hp hl ⟨set, htakes⟩) rfl
  · rw [hsplit] at h
    dsimp only at h
    split at h
    · cases h
    next p hfind =>
    obtain ⟨hp, l, hl, rfl⟩ := of_find_long hfind
    cases htakes : p.takes with
    | help => rw [htakes] at h; cases h
    | flag set => rw [htakes] at h; cases h
    | value set =>
      rw [htakes] at h
      refine .whole (.longAssigned hp hl ⟨set, htakes⟩) ?_
      rwa [applyAll_singleton, ← hs.give]

/-! ### Letters -/

theorem shortArguments_letter (c : Char) (r : Bytes) :
    shortArguments ps s (Utf8.encodeChar c ++ r) =
      match ps.find? (·.short = some c) with
      | none => .error (.unknown ("-" ++ String.singleton c))
      | some p =>
        match p.takes with
        | .value _ =>
          match attachedValue r with
          | some v => s.give p (some v)
          | none => s.await p
        | _ =>
          match s.give p none with
          | .ok s => shortArguments ps s r
          | .error f => .error f := by
  obtain ⟨a, tail, henc, hhead⟩ := Utf8.head_encodeChar c r
  rw [henc, List.cons_append, shortArguments]
  split
  · next hh =>
    rw [hhead, Utf8.Head.char.injEq] at hh
    obtain ⟨rfl, rfl⟩ := hh
    rfl
  · next hh => exact absurd hhead (hh _ _)

/-- A flag is followed by the letters after it. -/
theorem shortArguments_flag {c : Char} (hfind : ps.find? (·.short = some c) = some p)
    (hflag : ∀ set, p.takes ≠ .value set) (r : Bytes) :
    shortArguments ps s (Utf8.encodeChar c ++ r) = .ok t ↔
      ∃ u, s.give p none = .ok u ∧ shortArguments ps u r = .ok t := by
  rw [shortArguments_letter, hfind]
  dsimp only
  split
  · next set htakes => exact absurd htakes (hflag set)
  · cases s.give p none <;> simp

theorem shortArguments_begin (h : shortArguments ps s bs = .ok t) :
    bs = [] ∨ ∃ c r, bs = Utf8.encodeChar c ++ r ∧ r.length < bs.length := by
  cases bs with
  | nil => exact .inl rfl
  | cons a rest =>
    rw [shortArguments] at h
    split at h
    · next c r hhead =>
      exact .inr ⟨c, r, (Utf8.encodeChar_of_head hhead).symm, Utf8.length_lt_of_head hhead⟩
    · cases h

theorem attachedValue_eq_none_iff : attachedValue bs = none ↔ bs = [] := by
  cases bs <;> simp [attachedValue]

theorem attachedValue_eq_some_iff : attachedValue bs = some v ↔
    (bs = v ∧ v ≠ [] ∧ v.head? ≠ some equals) ∨ bs = equals :: v := by
  cases bs with
  | nil =>
    refine ⟨nofun, ?_⟩
    rintro (⟨rfl, hne, -⟩ | h)
    · exact absurd rfl hne
    · cases h
  | cons b r =>
    rw [attachedValue, Option.some.injEq]
    split_ifs with hb
    · subst hb
      refine ⟨fun h => .inr (by rw [h]), ?_⟩
      rintro (⟨rfl, -, hhead⟩ | h)
      · exact absurd rfl hhead
      · exact (List.cons.inj h).2
    · refine ⟨fun h => .inl ⟨h, by rw [← h]; exact ⟨List.cons_ne_nil _ _, by simpa using hb⟩⟩, ?_⟩
      rintro (⟨h, -⟩ | h)
      · exact h
      · exact absurd (List.cons.inj h).1 hb

/-- Letters that are read are flags, or flags and a letter that takes the rest as its value or has
none yet. -/
theorem shortArguments_sound (hs : s.Clean) (h : shortArguments ps s bs = .ok t) :
    (∃ us, Flags ps bs us ∧ s.applyAll us = .ok t) ∨
      ∃ core us p u r, Cluster ps core us p ∧ bs = core ++ r ∧ s.applyAll us = .ok u ∧
        (match attachedValue r with
          | some v => u.apply p (some v)
          | none => .ok { u with awaiting := some (p, none) }) = .ok t := by
  induction hn : bs.length using Nat.strong_induction_on generalizing bs s with
  | h n ih =>
  obtain rfl | ⟨c, r, rfl, hlen⟩ := shortArguments_begin h
  · rw [shortArguments] at h
    cases h
    exact .inl ⟨[], .nil, rfl⟩
  cases hfind : ps.find? (·.short = some c) with
  | none =>
    rw [shortArguments_letter, hfind] at h
    cases h
  | some p =>
  have hp : p ∈ ps := List.mem_of_find?_eq_some hfind
  have hc : p.short = some c := by simpa using List.find?_some hfind
  by_cases hvalue : ∃ set, p.takes = .value set
  · obtain ⟨set, htakes⟩ := hvalue
    rw [shortArguments_letter, hfind] at h
    simp only [htakes, hs.give, hs.await] at h
    exact .inr ⟨Utf8.encodeChar c, [], p, s, r, .letters .nil hp hc ⟨set, htakes⟩, rfl, rfl, h⟩
  · obtain ⟨u, hu, h⟩ := (shortArguments_flag hfind (not_exists.1 hvalue) r).1 h
    rw [hs.give] at hu
    have hflag : p.IsFlag := by
      cases htakes : p.takes with
      | help => simp [htakes, Progress.apply] at hu
      | flag set => exact ⟨set, htakes⟩
      | value set => exact absurd ⟨set, htakes⟩ hvalue
    obtain ⟨us, hflags, ha⟩ | ⟨core, us, q, w, r', hcluster, rfl, ha, hq⟩ :=
      ih r.length (hn ▸ hlen) (hs.apply hu) h rfl
    · exact .inl ⟨_, .cons hp hc hflag hflags, applyAll_cons.2 ⟨u, hu, ha⟩⟩
    · obtain ⟨hflags, hq', hc', hv⟩ := hcluster
      refine .inr ⟨_, _, q, w, r', .letters (.cons hp hc hflag hflags) hq' hc' hv, by simp,
        applyAll_cons.2 ⟨u, hu, ha⟩, hq⟩

/-! ### One argument -/

theorem argument_stop (hs : s.trailing = false) :
    argument ps s [hyphen, hyphen] = .ok { s with trailing := true } := by
  simp [argument, hs]

theorem argument_long (hs : s.trailing = false) (hne : arg ≠ []) :
    argument ps s (hyphen :: hyphen :: arg) = longArgument ps s arg := by
  simp [argument, hs, hne]

theorem argument_short (hs : s.trailing = false) {b : UInt8} (hb : b ≠ hyphen) :
    argument ps s (hyphen :: b :: arg) = shortArguments ps s (b :: arg) := by
  simp [argument, hs, hb]

theorem Apart.cases (h : Apart arg) :
    arg = [] ∨ (∃ a, arg = [a]) ∨ ∃ a b rest, a ≠ hyphen ∧ arg = a :: b :: rest := by
  rcases arg with _ | ⟨a, _ | ⟨b, rest⟩⟩
  · exact .inl rfl
  · exact .inr (.inl ⟨a, rfl⟩)
  · refine .inr (.inr ⟨a, b, rest, ?_, rfl⟩)
    rintro rfl
    rcases h with h | h
    · exact h rfl
    · cases h

theorem argument_awaited (hs : s.trailing = false) (h : Apart arg)
    (hp : s.awaiting = some (p, none)) :
    argument ps s arg = .ok { s with awaiting := some (p, some arg) } := by
  obtain rfl | ⟨a, rfl⟩ | ⟨a, b, rest, ha, rfl⟩ := h.cases
  · simp [argument, hs, hp]
  · simp [argument, hs, hp]
  · simp [argument, hs, hp, ha]

theorem argument_unknown (hs : s.trailing = false) (h : Apart arg)
    (hawaiting : ∀ p, s.awaiting ≠ some (p, none)) :
    argument ps s arg = .error (.unknown (Utf8.lossy arg)) := by
  obtain rfl | ⟨a, rfl⟩ | ⟨a, b, rest, ha, rfl⟩ := h.cases
  · simp [argument, hs]
  · simp [argument, hs]
  · simp [argument, hs, ha]

theorem apart_or_option (arg : Bytes) :
    Apart arg ∨ arg = [hyphen, hyphen] ∨ (∃ rest, rest ≠ [] ∧ arg = hyphen :: hyphen :: rest) ∨
      ∃ b rest, b ≠ hyphen ∧ arg = hyphen :: b :: rest := by
  rcases arg with _ | ⟨a, _ | ⟨b, rest⟩⟩
  · exact .inl (.inl nofun)
  · by_cases ha : a = hyphen
    · exact .inl (.inr (by rw [ha]))
    · exact .inl (.inl (by simpa using ha))
  · by_cases ha : a = hyphen
    · subst ha
      by_cases hb : b = hyphen
      · subst hb
        cases rest with
        | nil => exact .inr (.inl rfl)
        | cons c rest => exact .inr (.inr (.inl ⟨_, List.cons_ne_nil _ _, rfl⟩))
      · exact .inr (.inr (.inr ⟨b, rest, hb, rfl⟩))
    · exact .inl (.inl (by simpa using ha))

theorem argument_sound (hs : s.Clean) (h : argument ps s arg = .ok t) : Step ps s arg t := by
  obtain hapart | rfl | ⟨rest, hne, rfl⟩ | ⟨b, rest, hb, rfl⟩ := apart_or_option arg
  · rw [argument_unknown hs.trailing hapart (by simp [hs.awaiting])] at h
    cases h
  · rw [argument_stop hs.trailing] at h
    cases h
    exact .stop
  · rw [argument_long hs.trailing hne] at h
    exact longArgument_sound hs h
  · rw [argument_short hs.trailing hb] at h
    obtain ⟨us, hflags, ha⟩ | ⟨core, us, p, u, r, hcluster, hbs, ha, hp⟩ :=
      shortArguments_sound hs h
    · exact .whole (.flags hflags (List.cons_ne_nil _ _)) ha
    · rw [hbs]
      cases hv : attachedValue r with
      | none =>
        rw [hv, Except.ok.injEq] at hp
        subst hp
        rw [attachedValue_eq_none_iff.1 hv, List.append_nil]
        exact .opening (.letters hcluster) ha
      | some v =>
        rw [hv] at hp
        have hall : s.applyAll (us ++ [(p, some v)]) = .ok t :=
          applyAll_append.2 ⟨u, ha, by rwa [applyAll_singleton]⟩
        obtain ⟨rfl, hne, hv⟩ | rfl := attachedValue_eq_some_iff.1 hv
        · exact .whole (.attached hcluster hne hv) hall
        · exact .whole (.assigned hcluster) hall

/-! ### Many arguments -/

def run (ps : List (Parameter σ)) (s : Progress σ) (args : List Bytes) :
    Except UsageFault (Progress σ) := do
  (← args.foldlM (argument ps) s).settle

variable {args : List Bytes}

theorem run_cons : run ps s (arg :: args) = .ok t ↔
    ∃ u, argument ps s arg = .ok u ∧ run ps u args = .ok t := by
  rw [run, List.foldlM_cons, bind_assoc, Except.bind_eq_ok_iff]
  rfl

/-- After the end of the parameters nothing may come. -/
theorem run_trailing (hs : s.trailing = true) : run ps s args = .ok t ↔
    args = [] ∧ s.settle = .ok t := by
  cases args with
  | nil =>
    rw [run, List.foldlM_nil]
    simp [bind, Except.bind, pure, Except.pure]
  | cons arg args =>
    have harg : argument ps s arg = .error (.unknown (Utf8.lossy arg)) := by
      simp [argument, hs]
    rw [run_cons]
    simp [harg]

theorem run_nil : run ps s [] = s.settle := rfl

section
variable (hsettle : ∀ u, s.settle = .ok u → u.Clean)
include hsettle

theorem give_settle {v? : Option Bytes} : s.give p v? = .ok t ↔
    ∃ u, s.settle = .ok u ∧ u.give p v? = .ok t := by
  rw [Progress.give, Except.bind_eq_ok_iff]
  refine exists_congr fun u => and_congr_right fun hu => ?_
  rw [(hsettle u hu).give]

theorem await_settle : s.await p = .ok t ↔ ∃ u, s.settle = .ok u ∧ u.await p = .ok t := by
  rw [Progress.await, Except.bind_eq_ok_iff]
  refine exists_congr fun u => and_congr_right fun hu => ?_
  rw [(hsettle u hu).await]
  rfl

theorem longArgument_settle : longArgument ps s arg = .ok t ↔
    ∃ u, s.settle = .ok u ∧ longArgument ps u arg = .ok t := by
  unfold longArgument
  obtain ⟨name, v?⟩ := splitEquals arg
  dsimp only
  cases ps.find? _ with
  | none => simp
  | some p =>
    dsimp only
    cases p.takes <;> cases v? <;>
      first
        | exact give_settle hsettle
        | exact await_settle hsettle
        | simp

theorem shortArguments_settle (hne : bs ≠ []) : shortArguments ps s bs = .ok t ↔
    ∃ u, s.settle = .ok u ∧ shortArguments ps u bs = .ok t := by
  by_cases hbegin : ∃ c r, bs = Utf8.encodeChar c ++ r
  · obtain ⟨c, r, rfl⟩ := hbegin
    cases hfind : ps.find? (·.short = some c) with
    | none => simp [shortArguments_letter, hfind]
    | some p =>
      by_cases hvalue : ∃ set, p.takes = .value set
      · obtain ⟨set, htakes⟩ := hvalue
        simp only [shortArguments_letter, hfind, htakes]
        cases attachedValue r with
        | none => exact await_settle hsettle
        | some v => exact give_settle hsettle
      · simp only [shortArguments_flag hfind (not_exists.1 hvalue), give_settle hsettle]
        constructor
        · rintro ⟨w, ⟨u, hu, hw⟩, h⟩
          exact ⟨u, hu, w, hw, h⟩
        · rintro ⟨u, hu, w, hw, h⟩
          exact ⟨w, ⟨u, hu, hw⟩, h⟩
  · have hnone : ∀ s : Progress σ, shortArguments ps s bs ≠ .ok t := by
      intro s h
      obtain h | ⟨c, r, h, -⟩ := shortArguments_begin h
      · exact hne h
      · exact hbegin ⟨c, r, h⟩
    simp [hnone]

end

/-- A clean state in which a parameter awaits its value, or has it and awaits to be applied. -/
def Progress.pending (s : Progress σ) (p : Parameter σ) (v? : Option Bytes) : Progress σ :=
  { s with awaiting := some (p, v?) }

theorem settle_pending (hs : s.Clean) {v? : Option Bytes} :
    (s.pending p v?).settle = s.apply p v? := by
  obtain ⟨settings, given, awaiting, trailing⟩ := s
  obtain rfl : awaiting = none := hs.awaiting
  rfl

theorem clean_of_settle_pending (hs : s.Clean) {v? : Option Bytes} :
    ∀ u, (s.pending p v?).settle = .ok u → u.Clean := by
  intro u hu
  rw [settle_pending hs] at hu
  exact hs.apply hu

theorem apply_trailing {v? : Option Bytes} :
    ({ s with trailing := true } : Progress σ).apply p v? = .ok t ↔
      ∃ u, s.apply p v? = .ok u ∧ t = { u with trailing := true } := by
  simp only [apply_eq_ok_iff]
  constructor
  · rintro ⟨hgiven, change, hchange, rfl⟩
    exact ⟨_, ⟨hgiven, change, hchange, rfl⟩, rfl⟩
  · rintro ⟨_, ⟨hgiven, change, hchange, rfl⟩, rfl⟩
    exact ⟨hgiven, change, hchange, rfl⟩

/-- A parameter whose value is awaited, or awaits to be applied, is settled before any argument that
is an option. -/
theorem argument_pending (hs : s.Clean) {v? : Option Bytes} (hapart : ¬Apart arg)
    (hstop : arg ≠ [hyphen, hyphen]) : argument ps (s.pending p v?) arg = .ok t ↔
      ∃ u, s.apply p v? = .ok u ∧ argument ps u arg = .ok t := by
  have hpending : (s.pending p v?).trailing = false := hs.trailing
  obtain h | h | ⟨rest, hne, rfl⟩ | ⟨b, rest, hb, rfl⟩ := apart_or_option arg
  · exact absurd h hapart
  · exact absurd h hstop
  · rw [argument_long hpending hne, longArgument_settle (clean_of_settle_pending hs),
      settle_pending hs]
    refine exists_congr fun u => and_congr_right fun hu => ?_
    rw [argument_long (hs.apply hu).trailing hne]
  · rw [argument_short hpending hb,
      shortArguments_settle (clean_of_settle_pending hs) (List.cons_ne_nil _ _), settle_pending hs]
    refine exists_congr fun u => and_congr_right fun hu => ?_
    rw [argument_short (hs.apply hu).trailing hb]

theorem run_stop (hs : s.Clean) : run ps s ([hyphen, hyphen] :: args) = .ok t ↔
    args = [] ∧ t = { s with trailing := true } := by
  have htrailing : ({ s with trailing := true } : Progress σ).settle =
      .ok { s with trailing := true } := by
    rw [Progress.settle, hs.awaiting]
  simp only [run_cons, argument_stop hs.trailing, Except.ok.injEq, exists_eq_left',
    run_trailing, htrailing]
  exact and_congr_right fun _ => eq_comm

theorem run_stop_pending (hs : s.Clean) {v? : Option Bytes} :
    run ps (s.pending p v?) ([hyphen, hyphen] :: args) = .ok t ↔
      args = [] ∧ ∃ u, s.apply p v? = .ok u ∧ t = { u with trailing := true } := by
  have htrailing : ({ s.pending p v? with trailing := true } : Progress σ).settle =
      ({ s with trailing := true } : Progress σ).apply p v? := by
    obtain ⟨settings, given, awaiting, trailing⟩ := s
    obtain rfl : awaiting = none := hs.awaiting
    rfl
  have hstop : argument ps (s.pending p v?) [hyphen, hyphen] =
      .ok { s.pending p v? with trailing := true } := argument_stop hs.trailing
  simp only [run_cons, hstop, Except.ok.injEq, exists_eq_left', run_trailing, htrailing,
    apply_trailing]

/-- A value is taken as if it were looked at before anything that follows it. -/
theorem run_value (hs : s.Clean) : run ps (s.pending p (some v)) args = .ok t ↔
    ∃ u, s.apply p (some v) = .ok u ∧ run ps u args = .ok t := by
  rcases args with _ | ⟨arg, args⟩
  · simp only [run_nil, settle_pending hs]
    constructor
    · intro ht
      exact ⟨t, ht, (hs.apply ht).settle⟩
    · rintro ⟨u, hu, ht⟩
      rw [(hs.apply hu).settle] at ht
      cases ht
      exact hu
  by_cases hapart : Apart arg
  · -- Neither state has a use for one more value.
    rw [run_cons]
    constructor
    · rintro ⟨w, hw, -⟩
      rw [argument_unknown (s := s.pending p (some v)) hs.trailing hapart
        (by simp [Progress.pending])] at hw
      cases hw
    · rintro ⟨u, hu, hrun⟩
      obtain ⟨w, hw, -⟩ := run_cons.1 hrun
      rw [argument_unknown (hs.apply hu).trailing hapart (by simp [(hs.apply hu).awaiting])] at hw
      cases hw
  by_cases hstop : arg = [hyphen, hyphen]
  · rw [hstop, run_stop_pending hs]
    constructor
    · rintro ⟨hargs, u, hu, ht⟩
      exact ⟨u, hu, (run_stop (hs.apply hu)).2 ⟨hargs, ht⟩⟩
    · rintro ⟨u, hu, ht⟩
      obtain ⟨hargs, ht⟩ := (run_stop (hs.apply hu)).1 ht
      exact ⟨hargs, u, hu, ht⟩
  · simp only [run_cons, argument_pending hs hapart hstop]
    exact ⟨fun ⟨w, ⟨u, hu, hw⟩, ht⟩ => ⟨u, hu, w, hw, ht⟩,
      fun ⟨u, hu, w, hw, ht⟩ => ⟨w, ⟨u, hu, hw⟩, ht⟩⟩

/-- What is awaited is the next argument. -/
theorem run_awaiting (hs : s.Clean) (hp : p.IsValued) :
    run ps (s.pending p none) args = .ok t ↔
      ∃ v rest u, args = v :: rest ∧ Apart v ∧ s.apply p (some v) = .ok u ∧
        run ps u rest = .ok t := by
  obtain ⟨set, htakes⟩ := hp
  have hnone : ∀ u, s.apply p none ≠ .ok u := by
    intro u hu
    simp [Progress.apply, htakes] at hu
  rcases args with _ | ⟨arg, args⟩
  · rw [run_nil, settle_pending hs]
    simp [hnone]
  have hothers : (∃ v rest u, arg :: args = v :: rest ∧ Apart v ∧ s.apply p (some v) = .ok u ∧
      run ps u rest = .ok t) ↔
        Apart arg ∧ ∃ u, s.apply p (some arg) = .ok u ∧ run ps u args = .ok t := by
    constructor
    · rintro ⟨v, rest, u, ⟨⟩, hv, hu, ht⟩
      exact ⟨hv, u, hu, ht⟩
    · rintro ⟨hv, u, hu, ht⟩
      exact ⟨arg, args, u, rfl, hv, hu, ht⟩
  rw [hothers]
  by_cases hapart : Apart arg
  · have hvalue : argument ps (s.pending p none) arg = .ok (s.pending p (some arg)) :=
      argument_awaited hs.trailing hapart rfl
    simp only [run_cons, hvalue, Except.ok.injEq, exists_eq_left', run_value hs, hapart, true_and]
  by_cases hstop : arg = [hyphen, hyphen]
  · rw [hstop, run_stop_pending hs]
    simp [hnone, Apart]
  · simp only [run_cons, argument_pending hs hapart hstop, hapart, false_and, iff_false]
    rintro ⟨w, ⟨u, hu, -⟩, -⟩
    exact hnone u hu

/-- Arguments are accepted if they spell out parameters that can be applied one after the other. -/
theorem spells_of_run (hs : s.Clean) (h : run ps s args = .ok t) : ∃ us u, Spells ps args us ∧
    s.applyAll us = .ok u ∧ t.settings = u.settings ∧ t.given = u.given := by
  induction hn : args.length using Nat.strong_induction_on generalizing args s with
  | h n ih =>
  rcases args with _ | ⟨arg, args⟩
  · rw [run_nil, hs.settle] at h
    cases h
    exact ⟨[], _, .nil, rfl, rfl, rfl⟩
  by_cases hstop : arg = [hyphen, hyphen]
  · subst hstop
    obtain ⟨rfl, rfl⟩ := (run_stop hs).1 h
    exact ⟨[], _, .stop, rfl, rfl, rfl⟩
  obtain ⟨u, harg, h⟩ := run_cons.1 h
  rw [List.length_cons] at hn
  cases argument_sound hs harg with
  | stop => exact absurd rfl hstop
  | whole hwhole ha =>
    obtain ⟨vs, w, hspells, hvs, hw⟩ := ih args.length (by omega) (hs.applyAll ha) h rfl
    exact ⟨_, w, .whole hwhole hspells, applyAll_append.2 ⟨u, ha, hvs⟩, hw⟩
  | @opening _ us p u hopening ha =>
    have hu := hs.applyAll ha
    obtain ⟨v, rest, u', rfl, hv, hu', h⟩ := (run_awaiting hu hopening.isValued).1 h
    rw [List.length_cons] at hn
    obtain ⟨vs, w, hspells, hvs, hw⟩ := ih rest.length (by omega) (hu.apply hu') h rfl
    exact ⟨_, w, .opening hopening hv hspells,
      applyAll_append.2 ⟨u, ha, applyAll_cons.2 ⟨u', hu', hvs⟩⟩, hw⟩

end NodeConfig.CommandLine
