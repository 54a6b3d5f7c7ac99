import Mathlib
import NodeConfig.Proofs.CommandLine.Parse

namespace NodeConfig.CommandLine

variable {σ : Type} {ps : List (Parameter σ)} {s t u : Progress σ} {p : Parameter σ}
  {arg bs v : Bytes} {us vs : List (Use σ)}

open Progress

namespace Progress

theorem applyAll_append_eq : s.applyAll (us ++ vs) = s.applyAll us >>= (·.applyAll vs) :=
  List.foldlM_append

theorem applyAll_cons_eq {x : Use σ} :
    s.applyAll (x :: us) = s.apply x.1 x.2 >>= (·.applyAll us) :=
  List.foldlM_cons

/-- Something may await to be applied; after that nothing is awaited. -/
structure Settling (s : Progress σ) : Prop where
  clean : ∀ u, s.settle = .ok u → u.Clean
  trailing : s.trailing = false

theorem Clean.settling (h : s.Clean) : s.Settling := by
  refine ⟨fun u hu => ?_, h.trailing⟩
  rw [h.settle] at hu
  cases hu
  exact h

theorem Clean.settling_pending (h : s.Clean) (p : Parameter σ) (v? : Option Bytes) :
    (s.pending p v?).Settling :=
  ⟨clean_of_settle_pending h, h.trailing⟩

theorem Settling.give (h : s.Settling) (p : Parameter σ) (v? : Option Bytes) :
    s.give p v? = s.settle >>= (·.give p v?) :=
  Except.bind_congr fun u hu => ((h.clean u hu).give p v?).symm

theorem Settling.await (h : s.Settling) (p : Parameter σ) :
    s.await p = s.settle >>= (·.await p) :=
  Except.bind_congr fun u hu => ((h.clean u hu).await p).symm

end Progress

/-! ### What an argument begins with -/

structure Begins (ps : List (Parameter σ)) (bs : Bytes) : Prop where
  letter : ∃ p ∈ ps, ∃ c r, p.short = some c ∧ bs = Utf8.encodeChar c ++ r

theorem Begins.append (h : Begins ps bs) (r : Bytes) : Begins ps (bs ++ r) := by
  obtain ⟨p, hp, c, r', hc, rfl⟩ := h.letter
  exact ⟨p, hp, c, r' ++ r, hc, List.append_assoc _ _ _⟩

theorem Flags.begins (h : Flags ps bs us) (hne : bs ≠ []) : Begins ps bs := by
  cases h with
  | nil => exact absurd rfl hne
  | cons hp hc _ _ => exact ⟨_, hp, _, _, hc, rfl⟩

theorem Cluster.begins (h : Cluster ps bs us p) : Begins ps bs := by
  obtain ⟨hflags, hp, hc, -⟩ := h
  rename_i bs
  by_cases hne : bs = []
  · exact ⟨_, hp, _, [], hc, by rw [hne, List.nil_append, List.append_nil]⟩
  · exact (hflags.begins hne).append _

theorem argument_letters (hps : WellNamed ps) (hs : s.trailing = false) (h : Begins ps bs) :
    argument ps s (hyphen :: bs) = shortArguments ps s bs := by
  obtain ⟨p, hp, c, r, hc, rfl⟩ := h.letter
  obtain ⟨a, tail, henc, ha⟩ := Utf8.encodeChar_begin c
  have hne : a ≠ hyphen := by
    rintro rfl
    rcases ha with ha | ⟨ha, -⟩
    · exact hps.ne_hyphen hp hc (Char.toNat_inj.1 ha.symm)
    · revert ha
      decide
  rw [henc, List.cons_append, argument_short hs hne]

/-! ### One argument, where nothing is awaited -/

/-- Flags are applied one after the other, whatever follows them. -/
theorem shortArguments_flags (hps : WellNamed ps) (h : Flags ps bs us) (hs : s.Clean) (r : Bytes) :
    shortArguments ps s (bs ++ r) = s.applyAll us >>= (shortArguments ps · r) := by
  induction h generalizing s with
  | nil => rfl
  | @cons p c bs us hp hc hf _ ih =>
    obtain ⟨set, htakes⟩ := hf
    rw [List.append_assoc, shortArguments_letter, hps.find_short hp hc, applyAll_cons_eq,
      bind_assoc]
    simp only [htakes, hs.give]
    cases hu : s.apply p none with
    | error f => rfl
    | ok u => exact ih (hs.apply hu)

theorem shortArguments_cluster (hps : WellNamed ps) (h : Cluster ps bs us p) (hs : s.Clean)
    (r : Bytes) :
    shortArguments ps s (bs ++ r) = s.applyAll us >>= fun t =>
      match attachedValue r with
      | some v => t.apply p (some v)
      | none => .ok (t.pending p none) := by
  obtain ⟨hflags, hp, hc, set, htakes⟩ := h
  rw [List.append_assoc, shortArguments_flags hps hflags hs]
  refine Except.bind_congr fun t ht => ?_
  have hclean := hs.applyAll ht
  rw [shortArguments_letter, hps.find_short hp hc]
  simp only [htakes, hclean.give, hclean.await]
  rfl

theorem argument_whole (hps : WellNamed ps) (hs : s.Clean) (h : Whole ps arg us) :
    argument ps s arg = s.applyAll us := by
  have hlast : ∀ {us : List (Use σ)} {p : Parameter σ} {v : Bytes},
      s.applyAll (us ++ [(p, some v)]) = s.applyAll us >>= fun t => t.apply p (some v) := by
    intro us p v
    rw [applyAll_append_eq]
    exact Except.bind_congr fun t _ => applyAll_singleton
  cases h with
  | @flags bs _ h hne =>
    have hread := shortArguments_flags hps h hs []
    rw [List.append_nil] at hread
    rw [argument_letters hps hs.trailing (h.begins hne), hread]
    have hend : ∀ t : Progress σ, shortArguments ps t [] = .ok t := fun t => by rw [shortArguments]
    simp only [hend]
    exact bind_pure (s.applyAll us)
  | attached h hne hv =>
    rw [argument_letters hps hs.trailing (h.begins.append _), shortArguments_cluster hps h hs,
      attachedValue_eq_some_iff.2 (.inl ⟨rfl, hne, hv⟩), hlast]
  | assigned h =>
    rw [argument_letters hps hs.trailing (h.begins.append _), shortArguments_cluster hps h hs,
      attachedValue_eq_some_iff.2 (.inr rfl), hlast]
  | longFlag hp hl hf =>
    obtain ⟨set, htakes⟩ := hf
    obtain ⟨hne, hequals⟩ := hps.word hp hl
    rw [argument_long hs.trailing hne, longArgument, splitEquals_plain hequals]
    simp only [hps.find_long hp hl, htakes, hs.give, applyAll_singleton]
  | longAssigned hp hl hv =>
    obtain ⟨set, htakes⟩ := hv
    obtain ⟨-, hequals⟩ := hps.word hp hl
    rw [argument_long hs.trailing (by simp), longArgument, splitEquals_assigned hequals]
    simp only [hps.find_long hp hl, htakes, hs.give, applyAll_singleton]

theorem argument_opening (hps : WellNamed ps) (hs : s.Clean) (h : Opening ps arg us p) :
    argument ps s arg = s.applyAll us >>= fun t => .ok (t.pending p none) := by
  cases h with
  | letters h =>
    have hread := shortArguments_cluster hps h hs []
    rw [List.append_nil, attachedValue_eq_none_iff.2 rfl] at hread
    rw [argument_letters hps hs.trailing h.begins, hread]
  | long hp hl hv =>
    obtain ⟨set, htakes⟩ := hv
    obtain ⟨hne, hequals⟩ := hps.word hp hl
    rw [argument_long hs.trailing hne, longArgument, splitEquals_plain hequals]
    simp only [hps.find_long hp hl, htakes, hs.await]
    rfl

/-! ### One argument, where something may await to be applied -/

/-- Before a letter is dealt with, what awaits is applied. -/
theorem shortArguments_settling (hps : WellNamed ps) (hs : s.Settling) (h : Begins ps bs) :
    shortArguments ps s bs = s.settle >>= (shortArguments ps · bs) := by
  obtain ⟨p, hp, c, r, hc, rfl⟩ := h.letter
  simp only [shortArguments_letter, hps.find_short hp hc]
  cases p.takes with
  | value set =>
    cases attachedValue r with
    | none => exact hs.await p
    | some v => exact hs.give p (some v)
  | help | flag set =>
    dsimp only
    rw [hs.give]
    cases s.settle <;> rfl

/-- The same of a name that is not given a value it does not take. -/
theorem longArgument_settling {name : Bytes} {v? : Option Bytes} (hs : s.Settling)
    (hsplit : splitEquals arg = (name, v?))
    (hfind : ps.find? (fun p => p.long.any fun l => Utf8.ofString l = name) = some p)
    (hfits : v?.isSome = true → p.IsValued) :
    longArgument ps s arg = s.settle >>= (longArgument ps · arg) := by
  unfold longArgument
  simp only [hsplit, hfind]
  cases htakes : p.takes <;> cases v?
  case value.none => exact hs.await p
  case help.none | flag.none => exact hs.give p none
  case value.some set v => exact hs.give p (some v)
  all_goals
    obtain ⟨set, hset⟩ := hfits rfl
    rw [htakes] at hset
    cases hset

theorem argument_letters_settling (hps : WellNamed ps) (hs : s.Settling) (h : Begins ps bs) :
    argument ps s (hyphen :: bs) = s.settle >>= (argument ps · (hyphen :: bs)) := by
  rw [argument_letters hps hs.trailing h, shortArguments_settling hps hs h]
  exact Except.bind_congr fun u hu => (argument_letters hps (hs.clean u hu).trailing h).symm

theorem argument_long_settling {name : Bytes} {v? : Option Bytes} (hs : s.Settling)
    (hne : arg ≠ []) (hsplit : splitEquals arg = (name, v?))
    (hfind : ps.find? (fun p => p.long.any fun l => Utf8.ofString l = name) = some p)
    (hfits : v?.isSome = true → p.IsValued) :
    argument ps s (hyphen :: hyphen :: arg) =
      s.settle >>= (argument ps · (hyphen :: hyphen :: arg)) := by
  rw [argument_long hs.trailing hne, longArgument_settling hs hsplit hfind hfits]
  exact Except.bind_congr fun u hu => (argument_long (hs.clean u hu).trailing hne).symm

theorem argument_whole_settling (hps : WellNamed ps) (hs : s.Settling) (h : Whole ps arg us) :
    argument ps s arg = s.settle >>= (·.applyAll us) := by
  have hsettled : argument ps s arg = s.settle >>= (argument ps · arg) := by
    cases h with
    | flags h hne => exact argument_letters_settling hps hs (h.begins hne)
    | attached h _ _ | assigned h => exact argument_letters_settling hps hs (h.begins.append _)
    | longFlag hp hl hf =>
      obtain ⟨hne, hequals⟩ := hps.word hp hl
      exact argument_long_settling hs hne (splitEquals_plain hequals) (hps.find_long hp hl) nofun
    | longAssigned hp hl hv =>
      obtain ⟨-, hequals⟩ := hps.word hp hl
      exact argument_long_settling hs (by simp) (splitEquals_assigned hequals _)
        (hps.find_long hp hl) fun _ => hv
  rw [hsettled]
  exact Except.bind_congr fun u hu => argument_whole hps (hs.clean u hu) h

theorem argument_opening_settling (hps : WellNamed ps) (hs : s.Settling)
    (h : Opening ps arg us p) : argument ps s arg =
      s.settle >>= fun u => u.applyAll us >>= fun t => .ok (t.pending p none) := by
  have hsettled : argument ps s arg = s.settle >>= (argument ps · arg) := by
    cases h with
    | letters h => exact argument_letters_settling hps hs h.begins
    | long hp hl hv =>
      obtain ⟨hne, hequals⟩ := hps.word hp hl
      exact argument_long_settling hs hne (splitEquals_plain hequals) (hps.find_long hp hl) nofun
  rw [hsettled]
  exact Except.bind_congr fun u hu => argument_opening hps (hs.clean u hu) h

/-! ### Whole lines -/

/-- What a line comes to: the settings, and which parameters were given. -/
def outcome (x : Except UsageFault (Progress σ)) : Except UsageFault (σ × List String) :=
  x.map fun t => (t.settings, t.given)

theorem outcome_bind_congr {α : Type} {x : Except UsageFault α}
    {f g : α → Except UsageFault (Progress σ)}
    (h : ∀ a, x = .ok a → outcome (f a) = outcome (g a)) :
    outcome (x >>= f) = outcome (x >>= g) := by
  cases x with
  | error e => rfl
  | ok a => exact h a rfl

variable {args : List Bytes}

theorem run_cons_eq : run ps s (arg :: args) = argument ps s arg >>= (run ps · args) := by
  rw [run, List.foldlM_cons, bind_assoc]
  rfl

/-- Two hyphens at the end leave what awaits to be applied as it is. -/
theorem outcome_stop (s : Progress σ) :
    outcome ({ s with trailing := true } : Progress σ).settle = outcome s.settle := by
  obtain ⟨settings, given, awaiting, trailing⟩ := s
  rcases awaiting with _ | ⟨p, v?⟩
  · rfl
  simp only [Progress.settle, Progress.apply]
  cases p.takes with
  | help => rfl
  | flag set => split_ifs <;> rfl
  | value set =>
    cases v? with
    | none => rfl
    | some v =>
      dsimp only
      split_ifs
      · rfl
      · cases set v <;> rfl

/-- By induction on how the arguments are spelled. What one argument leaves to be applied is applied
before the next, so each of them begins where nothing is awaited. -/
theorem outcome_run (hps : WellNamed ps) (h : Spells ps args us) (hs : s.Settling) :
    outcome (run ps s args) = outcome (s.settle >>= (·.applyAll us)) := by
  induction h generalizing s with
  | nil =>
    rw [run_nil]
    exact congrArg outcome (bind_pure s.settle).symm
  | stop =>
    rw [run_cons_eq, argument_stop hs.trailing]
    exact (outcome_stop s).trans (congrArg outcome (bind_pure s.settle).symm)
  | @whole arg args us vs hwhole _ ih =>
    rw [run_cons_eq, argument_whole_settling hps hs hwhole, bind_assoc]
    refine outcome_bind_congr fun u hu => ?_
    rw [applyAll_append_eq]
    refine outcome_bind_congr fun t ht => ?_
    have hclean := (hs.clean u hu).applyAll ht
    rw [ih hclean.settling, hclean.settle]
    rfl
  | @opening arg v args us vs p hopening hv _ ih =>
    rw [run_cons_eq, argument_opening_settling hps hs hopening, bind_assoc]
    refine outcome_bind_congr fun u hu => ?_
    rw [applyAll_append_eq, bind_assoc]
    refine outcome_bind_congr fun t ht => ?_
    have hclean := (hs.clean u hu).applyAll ht
    have hvalue : argument ps (t.pending p none) v = .ok (t.pending p (some v)) :=
      argument_awaited hclean.trailing hv rfl
    change outcome (run ps (t.pending p none) (v :: args)) = _
    rw [run_cons_eq, hvalue]
    refine (ih (hclean.settling_pending p (some v))).trans ?_
    rw [settle_pending hclean, applyAll_cons_eq]

def Progress.start (blank : σ) : Progress σ := ⟨blank, [], none, false⟩

theorem Progress.clean_start (blank : σ) : (Progress.start blank).Clean := ⟨rfl, rfl⟩

def complete (ps : List (Parameter σ)) (x : σ × List String) : Except UsageFault σ :=
  let missing := ps.filter fun p => p.required && !x.2.contains p.shown
  if missing.isEmpty then ps.foldlM (supply x.2) x.1 else .error (.missing (missing.map (·.shown)))

theorem parse_eq_complete (blank : σ) :
    parse ps blank args = outcome (run ps (.start blank) args) >>= complete ps := by
  rw [parse, run, ← bind_assoc]
  change run ps (.start blank) args >>= _ = outcome (run ps (.start blank) args) >>= complete ps
  cases run ps (.start blank) args <;> rfl

/-- A line that spells parameters comes to what they come to, or to the first fault among them. -/
theorem parse_spelled (hps : WellNamed ps) (blank : σ) (h : Spells ps args us) :
    parse ps blank args = outcome ((Progress.start blank).applyAll us) >>= complete ps := by
  have hclean := Progress.clean_start blank
  rw [parse_eq_complete, outcome_run hps h hclean.settling, hclean.settle]
  rfl

theorem complete_eq_ok_iff {x : σ × List String} {y : σ} : complete ps x = .ok y ↔
    (∀ p ∈ ps, p.required = true → p.shown ∈ x.2) ∧ ps.foldlM (supply x.2) x.1 = .ok y := by
  have hmissing : (ps.filter fun p => p.required && !x.2.contains p.shown).isEmpty = true ↔
      ∀ p ∈ ps, p.required = true → p.shown ∈ x.2 := by
    simp [List.filter_eq_nil_iff]
  rw [← hmissing, complete]
  split_ifs with h
  · exact ⟨fun hx => ⟨h, hx⟩, fun hx => hx.2⟩
  · exact ⟨nofun, fun hx => absurd hx.1 h⟩

/-- A command line is accepted if it spells out parameters that can be applied and misses none that
is required; the defaults then fill in the rest. -/
theorem parse_eq_ok_iff (hps : WellNamed ps) {blank x : σ} : parse ps blank args = .ok x ↔
    ∃ us u, Spells ps args us ∧ (Progress.start blank).applyAll us = .ok u ∧
      (∀ p ∈ ps, p.required = true → p.shown ∈ u.given) ∧
      ps.foldlM (supply u.given) u.settings = .ok x := by
  constructor
  · intro hx
    have hrun := hx
    rw [parse_eq_complete, Except.bind_eq_ok_iff] at hrun
    obtain ⟨y, hy, hcomplete⟩ := hrun
    obtain ⟨t, ht, rfl⟩ := Except.map_eq_ok_iff.1 hy
    obtain ⟨us, u, hspells, hus, hsettings, hgiven⟩ := spells_of_run (Progress.clean_start blank) ht
    rw [hsettings, hgiven] at hcomplete
    exact ⟨us, u, hspells, hus, complete_eq_ok_iff.1 hcomplete⟩
  · rintro ⟨us, u, hspells, hus, hcomplete⟩
    rw [parse_spelled hps blank hspells, hus]
    exact complete_eq_ok_iff.2 hcomplete

end NodeConfig.CommandLine
