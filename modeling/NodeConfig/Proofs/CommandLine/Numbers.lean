import Mathlib
import NodeConfig.Daemon
import NodeConfig.Proofs.CommandLine.Settings
import NodeConfig.Proofs.CommandLine.Exchange

namespace NodeConfig.CommandLine

variable {σ τ α : Type} {ps qs : List (Parameter σ)} {p q : Parameter σ} {s t u : Progress σ}
  {us : List (Use σ)} {args : List Bytes} {v? : Option Bytes} {change : σ → σ} {bits n : ℕ}

/-! ### Numbers in texts -/

inductive Numeral : List Char → ℤ → Prop
  | bare {ds : List Char} {n : ℕ} (h : DigitsOf ds n) : Numeral ds n
  | plus {ds : List Char} {n : ℕ} (h : DigitsOf ds n) : Numeral ('+' :: ds) n
  | minus {ds : List Char} {n : ℕ} (h : DigitsOf ds n) : Numeral ('-' :: ds) (-n)

theorem Unsigned.numeral {cs : List Char} (h : Unsigned cs n) : Numeral cs n := by
  cases h with
  | bare h => exact .bare h
  | plus h => exact .plus h

theorem Signed.numeral {cs : List Char} (h : Signed cs n) : Numeral cs n := by
  cases h with
  | unsigned h => exact h.numeral
  | minus h => exact Numeral.minus h

theorem DigitsOf.unique {cs : List Char} {m : ℕ} (h : DigitsOf cs n) (h' : DigitsOf cs m) :
    m = n := by
  cases h
  cases h'
  rfl

/-- Digits without a sign are read as what they denote and nothing else. -/
theorem DigitsOf.eq_of_signed {cs : List Char} {m : ℕ} (h : DigitsOf cs n) (h' : Signed cs m) :
    m = n := by
  cases h' with
  | unsigned h' =>
    cases h' with
    | bare h' => exact h.unique h'
    | plus _ => exact absurd rfl (h.head (by decide))
  | minus _ => exact absurd rfl (h.head (by decide))

/-- Values are read as numbers of so many bits. -/
structure Reads (bits : ℕ) (read : Bytes → Except ValueFault ℕ) : Prop where
  numeral {v : Bytes} {n : ℕ} (h : read v = .ok n) :
    ∃ s, v = Utf8.ofString s ∧ Numeral s.toList n ∧ n < 2 ^ bits
  accepts {s : String} {n : ℕ} (h : DigitsOf s.toList n) (hn : n < 2 ^ bits) :
    read (Utf8.ofString s) = .ok n
  rejects {s : String} {n : ℕ} (h : DigitsOf s.toList n) (hn : 2 ^ bits ≤ n) :
    read (Utf8.ofString s) = .error .rejected

theorem textValue_ofString (s : String) : textValue (Utf8.ofString s) = .ok s :=
  textValue_eq_ok_iff.2 rfl

theorem reads_longValue : Reads 64 longValue where
  numeral h := by
    obtain ⟨s, rfl, hs, hn⟩ := longValue_eq_ok_iff.1 h
    exact ⟨s, rfl, hs.numeral, hn⟩
  accepts h hn := longValue_eq_ok_iff.2 ⟨_, rfl, .bare h, hn⟩
  rejects {s n} h hn := by
    have hnone : unsigned? s.toList = none := by
      rw [Option.eq_none_iff_forall_ne_some]
      intro m hm
      obtain ⟨hs, hlt⟩ := unsigned?_eq_some_iff.1 hm
      have hmn := h.eq_of_signed (.unsigned hs)
      omega
    rw [longValue, textValue_ofString]
    simp only [bind, Except.bind, hnone]

theorem reads_shortValue (hbits : bits ≤ 63) : Reads bits (shortValue bits) where
  numeral h := by
    obtain ⟨s, rfl, hs, hn⟩ := (shortValue_eq_ok_iff hbits).1 h
    exact ⟨s, rfl, hs.numeral, hn⟩
  accepts h hn := (shortValue_eq_ok_iff hbits).2 ⟨_, rfl, .unsigned (.bare h), hn⟩
  rejects {s n} h hn := by
    have hnot : ∀ m, shortValue bits (Utf8.ofString s) ≠ .ok m := by
      intro m hm
      obtain ⟨s', hs', hm, hlt⟩ := (shortValue_eq_ok_iff hbits).1 hm
      obtain rfl := Utf8.ofString_injective hs'
      have hmn := h.eq_of_signed hm
      omega
    -- The text is read, so whatever is wrong is wrong with the number.
    rw [shortValue, textValue_ofString] at hnot ⊢
    simp only [bind, Except.bind] at hnot ⊢
    cases hz : signed? s.toList with
    | none => rfl
    | some z =>
      simp only [hz] at hnot ⊢
      split_ifs at hnot ⊢ with hrange
      · exact absurd rfl (hnot _)
      · rfl

/-! ### What parameters leave as it is -/

/-- Whatever it is given, a parameter does not bear on this. -/
def Parameter.Leaves (get : σ → α) (p : Parameter σ) : Prop :=
  ∀ v? change, p.Changes v? change → ∀ s, get (change s) = get s

theorem leaves_setter {β : Type} {get : σ → α} {read : Bytes → Except ValueFault β}
    {set : β → σ → σ} (htakes : p.takes = .value fun v => (read v).map set)
    (hset : ∀ b s, get (set b s) = get s) : p.Leaves get := by
  intro v? change hchange
  obtain ⟨-, b, -, -, rfl⟩ := changes_value htakes hchange
  exact hset b

theorem leaves_help {get : σ → α} : (help : Parameter σ).Leaves get := by
  rintro v? change (⟨h, -⟩ | ⟨h, -⟩) <;> cases h

theorem takes_within {β : Type} {read : Bytes → Except ValueFault β} {set : β → σ → σ}
    (htakes : p.takes = .value fun v => (read v).map set) (modify : (σ → σ) → τ → τ) :
    (p.within modify).takes = .value fun v => (read v).map (modify ∘ set) := by
  simp only [Parameter.within, htakes, Takes.value.injEq]
  funext v
  cases read v <;> rfl

theorem leaves_within {get : σ → α} {modify : (σ → σ) → τ → τ} (part : τ → σ)
    (hpart : ∀ f t, part (modify f t) = f (part t)) (hp : p.Leaves get) :
    (p.within modify).Leaves fun t => get (part t) := by
  intro v? change hchange t
  obtain ⟨f, hf, rfl⟩ := changes_within hchange
  dsimp only
  rw [hpart, hp v? f hf]

/-- What is not of that part it leaves as it is. -/
theorem leaves_outside {get : τ → α} {modify : (σ → σ) → τ → τ}
    (hget : ∀ f t, get (modify f t) = get t) : (p.within modify).Leaves get := by
  intro v? change hchange t
  obtain ⟨f, -, rfl⟩ := changes_within hchange
  exact hget f t

theorem leaves_option {m n : Name} (h : m ≠ n) :
    m.parameter.Leaves fun s => Settings.get s n := by
  intro v? change hchange s
  obtain ⟨x, -, rfl⟩ := changes_iff.1 hchange
  exact s.get_put_ne h.symm x

/-! ### Lines with one more parameter -/

namespace Progress

theorem given_applyAll (h : s.applyAll us = .ok t) :
    t.given = (us.map (·.1.shown)).reverse ++ s.given := by
  induction us generalizing s with
  | nil => cases h; rfl
  | cons x us ih =>
    obtain ⟨u, hu, h⟩ := applyAll_cons.1 h
    obtain ⟨-, change, -, rfl⟩ := apply_eq_ok_iff.1 hu
    rw [ih h]
    simp

/-- What was given once is not given again, so it stays as it was set. -/
theorem get_applyAll {get : σ → α} (hothers : ∀ q ∈ ps, q.shown ≠ p.shown → q.Leaves get)
    (hus : ∀ x ∈ us, x.1 ∈ ps) (hp : p.shown ∈ s.given) (h : s.applyAll us = .ok t) :
    get t.settings = get s.settings := by
  induction us generalizing s with
  | nil => cases h; rfl
  | cons x us ih =>
    obtain ⟨hx, hus⟩ := List.forall_mem_cons.1 hus
    obtain ⟨u, hu, h⟩ := applyAll_cons.1 h
    obtain ⟨hgiven, change, hchange, rfl⟩ := apply_eq_ok_iff.1 hu
    have hne : x.1.shown ≠ p.shown := fun heq => hgiven (heq ▸ hp)
    rw [ih hus (List.mem_cons_of_mem _ hp) h]
    exact hothers x.1 hx hne _ change hchange _

/-- Parameters can be applied one after the other if each can be applied and none is given twice. -/
theorem exists_applyAll_iff : (∃ t, s.applyAll us = .ok t) ↔ (us.map (·.1.shown)).Nodup ∧
    ∀ x ∈ us, x.1.shown ∉ s.given ∧ ∃ change, x.1.Changes x.2 change := by
  induction us generalizing s with
  | nil => exact ⟨fun _ => ⟨List.nodup_nil, nofun⟩, fun _ => ⟨s, rfl⟩⟩
  | cons x us ih =>
    rw [List.map_cons, List.nodup_cons, List.forall_mem_cons]
    constructor
    · rintro ⟨t, h⟩
      obtain ⟨u, hu, h⟩ := applyAll_cons.1 h
      obtain ⟨hgiven, change, hchange, rfl⟩ := apply_eq_ok_iff.1 hu
      obtain ⟨hnodup, hall⟩ := ih.1 ⟨t, h⟩
      refine ⟨⟨fun hmem => ?_, hnodup⟩, ⟨hgiven, change, hchange⟩, fun y hy => ?_⟩
      · obtain ⟨y, hy, heq⟩ := List.mem_map.1 hmem
        have hnew := (hall y hy).1
        rw [heq] at hnew
        exact hnew List.mem_cons_self
      · exact ⟨fun hmem => (hall y hy).1 (List.mem_cons_of_mem _ hmem), (hall y hy).2⟩
    · rintro ⟨⟨hfresh, hnodup⟩, ⟨hgiven, change, hchange⟩, hall⟩
      obtain ⟨u, hu⟩ : ∃ u, s.apply x.1 x.2 = .ok u :=
        ⟨_, apply_eq_ok_iff.2 ⟨hgiven, _, hchange, rfl⟩⟩
      have hnew : ∀ y ∈ us, y.1.shown ∉ u.given := by
        obtain ⟨-, -, -, rfl⟩ := apply_eq_ok_iff.1 hu
        intro y hy hmem
        rcases List.mem_cons.1 hmem with heq | hmem
        · exact hfresh (heq ▸ List.mem_map_of_mem hy)
        · exact (hall y hy).1 hmem
      obtain ⟨t, ht⟩ := ih.2 ⟨hnodup, fun y hy => ⟨hnew y hy, (hall y hy).2⟩⟩
      exact ⟨t, applyAll_cons.2 ⟨u, hu, ht⟩⟩

end Progress

open Progress

/-- Defaults can be supplied if each one that is needed is a value of its parameter. -/
theorem exists_supply_iff {given : List String} {x : σ} :
    (∃ y, qs.foldlM (supply given) x = .ok y) ↔ ∀ q ∈ qs, q.shown ∉ given →
      ∀ set text, q.takes = .value set → q.default? = some text →
        ∃ change, set (Utf8.ofString text) = .ok change := by
  induction qs generalizing x with
  | nil => exact ⟨fun _ => nofun, fun _ => ⟨x, rfl⟩⟩
  | cons q qs ih =>
    have hhead : (∃ z, supply given x q = .ok z) ↔ (q.shown ∉ given →
        ∀ set text, q.takes = .value set → q.default? = some text →
          ∃ change, set (Utf8.ofString text) = .ok change) := by
      unfold supply
      split
      · next set text htakes hdefault =>
        simp only [htakes, hdefault, Takes.value.injEq, Option.some.injEq, List.contains_iff_mem]
        by_cases hgiven : q.shown ∈ given
        · simp [hgiven]
        · cases hset : set (Utf8.ofString text) <;> simp_all
      · next hnot =>
        refine ⟨fun _ _ set text htakes hdefault => absurd hdefault (hnot set text htakes), ?_⟩
        exact fun _ => ⟨x, rfl⟩
    rw [List.foldlM_cons, List.forall_mem_cons, ← hhead]
    constructor
    · rintro ⟨y, hy⟩
      obtain ⟨z, hz, hy⟩ := Except.bind_eq_ok_iff.1 hy
      exact ⟨⟨z, hz⟩, ih.1 ⟨y, hy⟩⟩
    · rintro ⟨⟨z, hz⟩, hall⟩
      obtain ⟨y, hy⟩ := (ih (x := z)).2 hall
      exact ⟨y, Except.bind_eq_ok_iff.2 ⟨z, hz, hy⟩⟩

/-- Defaults do not replace what was given. -/
theorem get_supply {get : σ → α} (hothers : ∀ q ∈ ps, q.shown ≠ p.shown → q.Leaves get)
    {given : List String} (hp : p.shown ∈ given) (hqs : qs ⊆ ps) {x y : σ}
    (h : qs.foldlM (supply given) x = .ok y) : get y = get x := by
  induction qs generalizing x with
  | nil => cases h; rfl
  | cons q qs ih =>
    obtain ⟨hq, hqs⟩ := List.cons_subset.1 hqs
    obtain ⟨z, hz, h⟩ := Except.bind_eq_ok_iff.1 h
    rw [ih hqs h]
    unfold supply at hz
    split at hz
    · next set text htakes hdefault =>
      split_ifs at hz with hgiven
      · cases hz
        rfl
      · rw [List.contains_iff_mem] at hgiven
        split at hz
        · next change hchange =>
          cases hz
          have hne : q.shown ≠ p.shown := fun heq => hgiven (heq ▸ hp)
          exact hothers q hq hne _ change (.value htakes hchange) x
        · cases hz
    · cases hz
      rfl

/-! ### One option that is a number -/

structure NumberOption (σ : Type) where
  parameter : Parameter σ
  bits : ℕ
  get : σ → ℕ

namespace NumberOption

/-- Its value is read as a number and kept, and no other parameter bears on it. -/
structure Sole (o : NumberOption σ) (ps : List (Parameter σ)) : Prop where
  kept : ∃ read set, Reads o.bits read ∧ o.parameter.takes = .value (fun v => (read v).map set) ∧
    ∀ n s, o.get (set n s) = n
  others : ∀ q ∈ ps, q.shown ≠ o.parameter.shown → q.Leaves o.get

/-- How lines are read on which the option is given. -/
structure IsExact (o : NumberOption σ) (ps : List (Parameter σ)) (blank : σ)
    (read : List Bytes → Except UsageFault σ) : Prop where
  /-- What is accepted denotes the number that is kept, which is in range. -/
  sound {args : List Bytes} {us : List (Use σ)} {v : Bytes} {x : σ} (h : Spells ps args us)
    (hv : (o.parameter, some v) ∈ us) (hx : read args = .ok x) :
    ∃ s, v = Utf8.ofString s ∧ Numeral s.toList (o.get x) ∧ o.get x < 2 ^ o.bits
  /-- Digits of a number in range can be added to any line that is accepted without the option. -/
  accepts {args args' : List Bytes} {before after : List (Use σ)} {s : String} {n : ℕ} {y : σ}
    (h : Spells ps args (before ++ (o.parameter, some (Utf8.ofString s)) :: after))
    (h' : Spells ps args' (before ++ after)) (hy : read args' = .ok y)
    (hfresh : ∀ u ∈ before ++ after, u.1.shown ≠ o.parameter.shown)
    (hs : DigitsOf s.toList n) (hn : n < 2 ^ o.bits) :
    ∃ x, read args = .ok x ∧ o.get x = n
  /-- Digits of a number beyond it are the fault of the line, unless what is given before them is at
  fault, or gives the option already. -/
  rejects {args : List Bytes} {before after : List (Use σ)} {s : String} {n : ℕ} {u : Progress σ}
    (h : Spells ps args (before ++ (o.parameter, some (Utf8.ofString s)) :: after))
    (hu : (Progress.start blank).applyAll before = .ok u)
    (hfresh : ∀ u ∈ before, u.1.shown ≠ o.parameter.shown)
    (hs : DigitsOf s.toList n) (hn : 2 ^ o.bits ≤ n) :
    ∃ f, read args = .error f ∧
      f = .rejected o.parameter.shown (Utf8.lossy (Utf8.ofString s)) ∧ f.exitCode = 2

variable {o : NumberOption σ}

theorem Sole.isExact (ho : o.Sole ps) (hps : WellNamed ps) (blank : σ) :
    o.IsExact ps blank (parse ps blank) := by
  obtain ⟨⟨read, set, hread, htakes, hset⟩, hothers⟩ := ho
  have hchanges : ∀ {v change}, o.parameter.Changes (some v) change →
      ∃ n, read v = .ok n ∧ ∀ s, o.get (change s) = n := by
    rintro v change (⟨h, -⟩ | ⟨h, hv⟩)
    · rw [htakes] at h
      cases h
    · rw [htakes, Takes.value.injEq] at h
      subst h
      obtain ⟨n, hn, rfl⟩ := Except.map_eq_ok_iff.1 hv
      exact ⟨n, hn, hset n⟩
  -- On every line that is accepted the option is applied once, and then stays as it is.
  have hfinal : ∀ {args before after v x},
      Spells ps args (before ++ (o.parameter, some v) :: after) → parse ps blank args = .ok x →
        read v = .ok (o.get x) := by
    intro args before after v x h hx
    have hmem : ∀ u ∈ after, u.1 ∈ ps := fun u hu => (h.usable u (by simp [hu])).1
    rw [parse_spelled hps blank h, Except.bind_eq_ok_iff] at hx
    obtain ⟨y, hy, hx⟩ := hx
    obtain ⟨t, ht, rfl⟩ := Except.map_eq_ok_iff.1 hy
    obtain ⟨b, -, ht⟩ := applyAll_append.1 ht
    obtain ⟨c, hc, ht⟩ := applyAll_cons.1 ht
    obtain ⟨-, change, hchange, rfl⟩ := apply_eq_ok_iff.1 hc
    obtain ⟨n, hn, hget⟩ := hchanges hchange
    have hgiven : o.parameter.shown ∈ t.given := by
      rw [given_applyAll ht]
      simp
    obtain ⟨-, hx⟩ := complete_eq_ok_iff.1 hx
    rw [get_supply hothers hgiven (List.Subset.refl ps) hx,
      get_applyAll hothers hmem List.mem_cons_self ht, hget, hn]
  constructor
  case sound =>
    intro args us v x h hv hx
    obtain ⟨before, after, rfl⟩ := List.append_of_mem hv
    exact hread.numeral (hfinal h hx)
  case accepts =>
    intro args args' before after s n y h h' hy hfresh hs hn
    have hvalue := hread.accepts hs hn
    rw [parse_spelled hps blank h', Except.bind_eq_ok_iff] at hy
    obtain ⟨z, hz, hy⟩ := hy
    obtain ⟨t, ht, rfl⟩ := Except.map_eq_ok_iff.1 hz
    obtain ⟨hnodup, hall⟩ := exists_applyAll_iff.1 ⟨t, ht⟩
    obtain ⟨w, hw⟩ : ∃ w, (Progress.start blank).applyAll
        (before ++ (o.parameter, some (Utf8.ofString s)) :: after) = .ok w := by
      refine exists_applyAll_iff.2 ⟨?_, fun u hu => ?_⟩
      · rw [List.map_append, List.map_cons, List.nodup_middle, ← List.map_append]
        refine List.nodup_cons.2 ⟨fun hmem => ?_, hnodup⟩
        obtain ⟨u, hu, heq⟩ := List.mem_map.1 hmem
        exact hfresh u hu heq
      · rcases List.mem_cons.1 (List.perm_middle.mem_iff.1 hu) with rfl | hu
        · exact ⟨List.not_mem_nil, _, .value htakes (by rw [hvalue]; rfl)⟩
        · exact hall u hu
    have hmore : t.given ⊆ w.given := by
      rw [given_applyAll ht, given_applyAll hw]
      intro name
      simp only [List.map_append, List.map_cons, List.mem_append, List.mem_reverse, List.mem_cons]
      tauto
    obtain ⟨hrequired, hsupply⟩ := complete_eq_ok_iff.1 hy
    obtain ⟨x, hx⟩ := exists_supply_iff.2 fun q hq hnew =>
      exists_supply_iff.1 ⟨y, hsupply⟩ q hq fun hold => hnew (hmore hold)
    have hparse : parse ps blank args = .ok x := by
      rw [parse_spelled hps blank h, hw]
      exact complete_eq_ok_iff.2 ⟨fun q hq hreq => hmore (hrequired q hq hreq), hx⟩
    exact ⟨x, hparse, Except.ok.inj ((hfinal h hparse).symm.trans hvalue)⟩
  case rejects =>
    intro args before after s n u h hu hfresh hs hn
    have hfault : u.apply o.parameter (some (Utf8.ofString s)) =
        .error (.rejected o.parameter.shown (Utf8.lossy (Utf8.ofString s))) := by
      have hgiven : o.parameter.shown ∉ u.given := by
        rw [given_applyAll hu]
        simp only [List.mem_append, List.mem_reverse, List.mem_map, not_or]
        exact ⟨fun ⟨x, hx, heq⟩ => hfresh x hx heq, List.not_mem_nil⟩
      simp [Progress.apply, htakes, hgiven, hread.rejects hs hn, Except.map, ValueFault.at]
    refine ⟨_, ?_, rfl, rfl⟩
    rw [parse_spelled hps blank h, applyAll_append_eq, hu]
    change outcome ((u.apply o.parameter (some (Utf8.ofString s))) >>= _) >>= _ = _
    rw [hfault]
    rfl

/-! ### The options there are -/

def reloadDelay : NumberOption Settings :=
  ⟨Name.reloadDelay.parameter, 64, (·.options.reloadDelay)⟩

def reloadRetention : NumberOption Settings :=
  ⟨Name.reloadRetention.parameter, 32, (·.options.reloadRetention)⟩

def backupsNumber : NumberOption Settings :=
  ⟨Name.backupsNumber.parameter, 32, (·.options.backupsNumber)⟩

def ofSettings (o : NumberOption Settings) : NumberOption Launch where
  parameter := o.parameter.within fun f l => { l with settings := f l.settings }
  bits := o.bits
  get l := o.get l.settings

def port : NumberOption Launch := ⟨launchParameter "port", 16, (·.port)⟩

def notifyTimeout : NumberOption Launch :=
  ⟨launchParameter "notify-timeout", 64, (·.notifyTimeout)⟩

end NumberOption

open NumberOption

def settingsNumbers : List (NumberOption Settings) := [reloadDelay, reloadRetention, backupsNumber]

def launchNumbers : List (NumberOption Launch) :=
  settingsNumbers.map ofSettings ++ [port, notifyTimeout]

def launchDeclared : List (Parameter Launch) := launchParameters ++ [help]

example : launchNumbers.map (fun o => (o.parameter.long, o.bits)) =
    [(some "reload-delay", 64), (some "reload-retention", 32), (some "backups-number", 32),
      (some "port", 16), (some "notify-timeout", 64)] := rfl

/-- A parameter of the settings is one of their options or asks for help. -/
theorem leaves_declared {n : Name} {q : Parameter Settings} (hq : q ∈ declared)
    (hne : q.shown ≠ n.parameter.shown) : q.Leaves fun s => Settings.get s n := by
  rcases List.mem_append.1 hq with hq | hq
  · rw [settingsParameters_eq] at hq
    obtain ⟨m, -, rfl⟩ := List.mem_map.1 hq
    refine leaves_option ?_
    rintro rfl
    exact hne rfl
  · rw [List.mem_singleton.1 hq]
    exact leaves_help

theorem sole_settings {o : NumberOption Settings} (ho : o ∈ settingsNumbers) : o.Sole declared := by
  simp only [settingsNumbers, List.mem_cons, List.not_mem_nil, or_false] at ho
  obtain rfl | rfl | rfl := ho
  · exact ⟨⟨longValue, _, reads_longValue, takes_within rfl _, fun _ _ => rfl⟩,
      fun q hq hne => leaves_declared (n := .reloadDelay) hq hne⟩
  · exact ⟨⟨shortValue 32, _, reads_shortValue (by decide), takes_within rfl _, fun _ _ => rfl⟩,
      fun q hq hne => leaves_declared (n := .reloadRetention) hq hne⟩
  · exact ⟨⟨shortValue 32, _, reads_shortValue (by decide), takes_within rfl _, fun _ _ => rfl⟩,
      fun q hq hne => leaves_declared (n := .backupsNumber) hq hne⟩

def ownParameters : List (Parameter Launch) :=
  ["api-schema", "host", "port", "notify-timeout", "metrics-address"].map launchParameter

theorem mem_ownParameters {q : Parameter Launch} : q ∈ ownParameters ↔
    q = launchParameter "api-schema" ∨ q = launchParameter "host" ∨ q = launchParameter "port" ∨
      q = launchParameter "notify-timeout" ∨ q = launchParameter "metrics-address" := by
  simp [ownParameters]

/-- A parameter of the daemon is one of the settings, one of its own, or asks for help. -/
theorem launchDeclared_cases {q : Parameter Launch} (hq : q ∈ launchDeclared) :
    (∃ r ∈ declared, q = r.within fun f l => { l with settings := f l.settings }) ∨
      q ∈ ownParameters ∨ q = help := by
  rw [launchDeclared, launchParameters, List.append_assoc] at hq
  rcases List.mem_append.1 hq with hq | hq
  · obtain ⟨r, hr, rfl⟩ := List.mem_map.1 hq
    exact .inl ⟨r, List.mem_append_left _ hr, rfl⟩
  · rcases List.mem_append.1 hq with hq | hq
    · exact .inr (.inl hq)
    · exact .inr (.inr (List.mem_singleton.1 hq))

/-- Only their own parameters bear on the settings of the daemon, -/
theorem sole_ofSettings {o : NumberOption Settings} (ho : o.Sole declared) :
    o.ofSettings.Sole launchDeclared := by
  obtain ⟨⟨read, set, hread, htakes, hset⟩, hothers⟩ := ho
  refine ⟨⟨read, _, hread, takes_within htakes _, fun n l => hset n l.settings⟩, fun q hq hne => ?_⟩
  obtain ⟨r, hr, rfl⟩ | hq | rfl := launchDeclared_cases hq
  · exact leaves_within Launch.settings (fun _ _ => rfl) (hothers r hr hne)
  · obtain rfl | rfl | rfl | rfl | rfl := mem_ownParameters.1 hq <;>
      exact leaves_setter rfl fun _ _ => rfl
  · exact leaves_help

/-- and on each of its own numbers only one. -/
theorem sole_launch {o : NumberOption Launch} (ho : o ∈ launchNumbers) : o.Sole launchDeclared := by
  rcases List.mem_append.1 ho with ho | ho
  · obtain ⟨o', ho', rfl⟩ := List.mem_map.1 ho
    exact sole_ofSettings (sole_settings ho')
  simp only [List.mem_cons, List.not_mem_nil, or_false] at ho
  obtain rfl | rfl := ho
  · refine ⟨⟨shortValue 16, _, reads_shortValue (by decide), rfl, fun _ _ => rfl⟩,
      fun q hq hne => ?_⟩
    obtain ⟨r, -, rfl⟩ | hq | rfl := launchDeclared_cases hq
    · exact leaves_outside fun _ _ => rfl
    · obtain rfl | rfl | rfl | rfl | rfl := mem_ownParameters.1 hq
      case inr.inr.inl => exact absurd rfl hne
      all_goals exact leaves_setter rfl fun _ _ => rfl
    · exact leaves_help
  · refine ⟨⟨longValue, _, reads_longValue, rfl, fun _ _ => rfl⟩, fun q hq hne => ?_⟩
    obtain ⟨r, -, rfl⟩ | hq | rfl := launchDeclared_cases hq
    · exact leaves_outside fun _ _ => rfl
    · obtain rfl | rfl | rfl | rfl | rfl := mem_ownParameters.1 hq
      case inr.inr.inr.inl => exact absurd rfl hne
      all_goals exact leaves_setter rfl fun _ _ => rfl
    · exact leaves_help

/-- A launch has a port of 16 bits, whether one was given or not. -/
theorem launch_port_lt {args : List Bytes} {l : Launch} (hl : launch args = .ok l) :
    l.port < 2 ^ 16 := by
  let small : Launch → Launch → Prop := fun x _ => x.port < 2 ^ 16
  have hleaves : ∀ {q : Parameter Launch}, q.Leaves (·.port) → q.Keeps small := by
    intro q hq v? change hchange x y hx
    exact (hq v? change hchange x).trans_lt hx
  have hkeeps : ∀ q ∈ launchDeclared, q.Keeps small := by
    intro q hq
    obtain ⟨r, -, rfl⟩ | hq | rfl := launchDeclared_cases hq
    · exact hleaves (leaves_outside fun _ _ => rfl)
    · obtain rfl | rfl | rfl | rfl | rfl := mem_ownParameters.1 hq
      case inr.inr.inl =>
        intro v? change hchange x y _
        obtain ⟨v, n, -, hread, rfl⟩ := changes_value rfl hchange
        obtain ⟨-, -, -, hn⟩ := (reads_shortValue (by decide)).numeral hread
        exact hn
      all_goals exact hleaves (leaves_setter rfl fun _ _ => rfl)
    · exact hleaves leaves_help
  exact parse_keeps hkeeps (show (5555 : ℕ) < 2 ^ 16 by decide) hl

/-- Numbers neither wrap nor are misread, on either command line, in whatever way and among whatever
parameters they are given; and a fault of the line ends the daemon with the code of the fault. -/
theorem numbers_exact :
    (∀ o ∈ settingsNumbers, o.IsExact declared .blank settings) ∧
    (∀ o ∈ launchNumbers, o.IsExact launchDeclared { settings := .blank } launch) ∧
    ∀ args f, launch args = .error f → ∀ s hups, (Daemon.run s args hups).code = f.exitCode := by
  refine ⟨fun o ho => (sole_settings ho).isExact wellNamed_declared _,
    fun o ho => (sole_launch ho).isExact wellNamed_launch _, ?_⟩
  intro args f hf s hups
  rw [Daemon.run, Daemon.start, hf]

theorem port_mem : port.parameter ∈ launchDeclared := (launchParameter_mem "port" rfl).1

def schemaParameter : Parameter Launch := launchParameter "api-schema"

theorem schemaParameter_mem : schemaParameter ∈ launchDeclared :=
  (launchParameter_mem "api-schema" rfl).1

theorem spells_schema : Spells launchDeclared (["--api-schema", "x"].map Utf8.ofString)
    ([] ++ [(schemaParameter, some (Path.ofString "x"))]) :=
  .opening (.long schemaParameter_mem rfl ⟨_, rfl⟩) (.inl (by decide)) .nil

theorem spells_port {text : String} (htext : Apart (Utf8.ofString text)) :
    Spells launchDeclared (["--port", text, "--api-schema", "x"].map Utf8.ofString)
      ([] ++ (port.parameter, some (Utf8.ofString text)) ::
        ([] ++ [(schemaParameter, some (Path.ofString "x"))])) :=
  .opening (.long port_mem rfl ⟨_, rfl⟩) htext spells_schema

theorem spells_reloadDelay (v : Bytes) :
    Spells declared [hyphen :: ([] ++ Utf8.encodeChar 'd' ++ equals :: v)]
      ([] ++ (reloadDelay.parameter, some v) :: []) := by
  have hletter : Whole declared (hyphen :: ([] ++ Utf8.encodeChar 'd' ++ equals :: v))
      ([] ++ [(reloadDelay.parameter, some v)]) :=
    .assigned (.letters .nil (Name.parameter_mem .reloadDelay) rfl ⟨_, rfl⟩)
  have hline := Spells.whole hletter (.nil : Spells declared [] [])
  exact hline

/-- The largest numbers that are accepted and the smallest that are not, in sixteen bits and in
sixty-four. -/
theorem numbers_exact_edges :
    (∃ x, launch (["--port", "065535", "--api-schema", "x"].map Utf8.ofString) = .ok x ∧
      x.port = 65535) ∧
    (∃ f, launch (["--port", "65536", "--api-schema", "x"].map Utf8.ofString) = .error f ∧
      f.exitCode = 2 ∧ (Daemon.run ⟨⟨[]⟩, .fresh fun _ => ⟨0, 0, 0⟩, none, "", none⟩
        (["--port", "65536", "--api-schema", "x"].map Utf8.ofString) 0).code = 2) ∧
    (∃ x, settings (["-d=18446744073709551615"].map Utf8.ofString) = .ok x ∧
      x.options.reloadDelay = 18446744073709551615 ∧ x.options.reloadDelay < 2 ^ 64) ∧
    ∃ f, settings (["-d=18446744073709551616"].map Utf8.ofString) = .error f ∧ f.exitCode = 2 := by
  obtain ⟨hsettings, hlaunch, hcode⟩ := numbers_exact
  have hport := hlaunch port (List.mem_append_right _ List.mem_cons_self)
  have hdelay := hsettings reloadDelay List.mem_cons_self
  have hschema : launch (["--api-schema", "x"].map Utf8.ofString) =
      .ok { apiSchema := Path.ofString "x" } := by decide +kernel
  have hfresh : ∀ u ∈ [] ++ ([] ++ [(schemaParameter, some (Path.ofString "x"))]),
      u.1.shown ≠ port.parameter.shown := by decide
  refine ⟨?_, ?_, ?_, ?_⟩
  · have hdigits : DigitsOf "065535".toList 65535 :=
      (decimal?_eq_some_iff.1 (show decimal? 65535 _ = some _ by decide)).1
    exact hport.accepts (spells_port (.inl (by decide))) spells_schema hschema hfresh hdigits
      (by decide)
  · have hdigits : DigitsOf "65536".toList 65536 :=
      (decimal?_eq_some_iff.1 (show decimal? 65536 _ = some _ by decide)).1
    obtain ⟨f, hf, -, hexit⟩ := hport.rejects (spells_port (.inl (by decide))) rfl nofun hdigits
      (by decide)
    exact ⟨f, hf, hexit, (hcode _ f hf _ _).trans hexit⟩
  · have hdigits : DigitsOf "18446744073709551615".toList 18446744073709551615 :=
      (decimal?_eq_some_iff.1 (show decimal? 18446744073709551615 _ = some _ by decide)).1
    have hempty : settings [] = .ok {} := by decide +kernel
    obtain ⟨x, hx, hvalue⟩ := hdelay.accepts (spells_reloadDelay _) .nil hempty nofun hdigits
      (by decide)
    obtain ⟨-, -, -, hlt⟩ := hdelay.sound (spells_reloadDelay _) List.mem_cons_self hx
    exact ⟨x, hx, hvalue, hlt⟩
  · have hdigits : DigitsOf "18446744073709551616".toList 18446744073709551616 :=
      (decimal?_eq_some_iff.1 (show decimal? 18446744073709551616 _ = some _ by decide)).1
    obtain ⟨f, hf, -, hexit⟩ := hdelay.rejects (spells_reloadDelay _) rfl nofun hdigits (by decide)
    exact ⟨f, hf, hexit⟩

end NodeConfig.CommandLine
