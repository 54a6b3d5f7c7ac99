import Mathlib
import NodeConfig.CommandLine.Options
import NodeConfig.Proofs.CommandLine.Parse
import NodeConfig.Proofs.CommandLine.Value

namespace NodeConfig.CommandLine

variable {σ τ α β : Type}

def Together (R : α → α → Prop) : Except UsageFault α → Except UsageFault α → Prop
  | .ok a, .ok b => R a b
  | .error e, .error f => e.exitCode = f.exitCode
  | _, _ => False

theorem Together.bind {R : α → α → Prop} {S : β → β → Prop} {x y : Except UsageFault α}
    {f g : α → Except UsageFault β} (h : Together R x y)
    (hf : ∀ a b, R a b → Together S (f a) (g b)) : Together S (x >>= f) (y >>= g) := by
  cases x with
  | error e =>
    cases y with
    | error e' => exact h
    | ok b => exact h.elim
  | ok a =>
    cases y with
    | error e' => exact h.elim
    | ok b => exact hf a b h

theorem Together.cases {R : α → α → Prop} {x y : Except UsageFault α} (h : Together R x y) :
    (∃ e f, x = .error e ∧ y = .error f ∧ e.exitCode = f.exitCode) ∨
      ∃ a b, x = .ok a ∧ y = .ok b ∧ R a b := by
  cases x <;> cases y
  case error.error e f => exact .inl ⟨e, f, rfl, rfl, h⟩
  case ok.ok a b => exact .inr ⟨a, b, rfl, rfl, h⟩
  all_goals exact h.elim

theorem Together.mono {R S : α → α → Prop} {x y : Except UsageFault α} (h : Together R x y)
    (hRS : ∀ a b, R a b → S a b) : Together S x y := by
  cases x <;> cases y
  case ok.ok a b => exact hRS a b h
  all_goals exact h

/-- Whatever a parameter does, settings that compare compare after it. -/
def Parameter.Keeps (R : σ → σ → Prop) (p : Parameter σ) : Prop :=
  ∀ v? change, p.Changes v? change → ∀ x y, R x y → R (change x) (change y)

/-- A parameter takes both values, and settings that compare compare after them. -/
def Parameter.Exchanges (R : σ → σ → Prop) (p : Parameter σ) (v w : Bytes) : Prop :=
  ∃ set change change', p.takes = .value set ∧ set v = .ok change ∧ set w = .ok change' ∧
    ∀ x y, R x y → R (change x) (change' y)

inductive Awaiting (R : σ → σ → Prop) (ps : List (Parameter σ)) :
    Option (Parameter σ × Option Bytes) → Option (Parameter σ × Option Bytes) → Prop
  | none : Awaiting R ps none none
  | same {p : Parameter σ} (hp : p ∈ ps) (v? : Option Bytes) :
      Awaiting R ps (some (p, v?)) (some (p, v?))
  | exchanged {p : Parameter σ} {v w : Bytes} (h : p.Exchanges R v w) :
      Awaiting R ps (some (p, some v)) (some (p, some w))

structure Abreast (R : σ → σ → Prop) (ps : List (Parameter σ)) (s t : Progress σ) : Prop where
  settings : R s.settings t.settings
  given : t.given = s.given
  awaiting : Awaiting R ps s.awaiting t.awaiting
  trailing : t.trailing = s.trailing

section
variable {R : σ → σ → Prop} {ps : List (Parameter σ)} {p : Parameter σ} {s t : Progress σ}
  {v w : Bytes}

theorem Awaiting.openOnBoth {a? : Option (Parameter σ × Option Bytes)}
    (h : Awaiting R ps (some (p, .none)) a?) : a? = some (p, .none) := by
  cases h
  rfl

/-! ### One argument -/

theorem Abreast.apply (h : Abreast R ps s t) (hp : p.Keeps R) (v? : Option Bytes) :
    Together (Abreast R ps) (s.apply p v?) (t.apply p v?) := by
  have hgiven := h.given
  cases htakes : p.takes with
  | help => simp [Progress.apply, htakes, Together]
  | flag set =>
    simp only [Progress.apply, htakes, hgiven]
    split
    · rfl
    · exact ⟨hp v? set (.flag htakes v?) _ _ h.settings, rfl, h.awaiting, h.trailing⟩
  | value set =>
    cases v? with
    | none => simp [Progress.apply, htakes, Together]
    | some v =>
      simp only [Progress.apply, htakes, hgiven]
      split
      · rfl
      · cases hv : set v with
        | error f => rfl
        | ok change =>
          exact ⟨hp _ change (.value htakes hv) _ _ h.settings, rfl, h.awaiting, h.trailing⟩

theorem Abreast.apply_exchanged (h : Abreast R ps s t) (hp : p.Exchanges R v w) :
    Together (Abreast R ps) (s.apply p (some v)) (t.apply p (some w)) := by
  obtain ⟨set, change, change', htakes, hv, hw, hR⟩ := hp
  simp only [Progress.apply, htakes, h.given, hv, hw]
  split
  · rfl
  · exact ⟨hR _ _ h.settings, rfl, h.awaiting, h.trailing⟩

section
variable (hps : ∀ p ∈ ps, p.Keeps R)
include hps

theorem Abreast.settle (h : Abreast R ps s t) : Together (Abreast R ps) s.settle t.settle := by
  have hclear : Abreast R ps { s with awaiting := none } { t with awaiting := none } :=
    ⟨h.settings, h.given, .none, h.trailing⟩
  obtain ⟨settings, given, awaiting, trailing⟩ := s
  obtain ⟨settings', given', awaiting', trailing'⟩ := t
  cases h.awaiting with
  | none => exact h
  | same hp v? => exact hclear.apply (hps _ hp) v?
  | exchanged hv => exact hclear.apply_exchanged hv

theorem Abreast.give (h : Abreast R ps s t) (hp : p ∈ ps) (v? : Option Bytes) :
    Together (Abreast R ps) (s.give p v?) (t.give p v?) :=
  (h.settle hps).bind fun _ _ h => h.apply (hps p hp) v?

theorem Abreast.give_exchanged (h : Abreast R ps s t) (hp : p.Exchanges R v w) :
    Together (Abreast R ps) (s.give p (some v)) (t.give p (some w)) :=
  (h.settle hps).bind fun _ _ h => h.apply_exchanged hp

theorem Abreast.await (h : Abreast R ps s t) (hp : p ∈ ps) :
    Together (fun s t => Abreast R ps s t ∧ s.awaiting = some (p, none)) (s.await p) (t.await p) :=
  (h.settle hps).bind fun _ _ h => ⟨⟨h.settings, h.given, .same hp none, h.trailing⟩, rfl⟩

theorem Abreast.readLong (h : Abreast R ps s t) (arg : Bytes) :
    Together (Abreast R ps) (longArgument ps s arg) (longArgument ps t arg) := by
  unfold longArgument
  obtain ⟨name, v?⟩ := splitEquals arg
  dsimp only
  cases hfind : ps.find? fun p => p.long.any fun l => Utf8.ofString l = name with
  | none => rfl
  | some p =>
    have hp := List.mem_of_find?_eq_some hfind
    cases htakes : p.takes <;> cases v? <;> simp only [htakes]
    case value.none => exact (h.await hps hp).mono fun _ _ h => h.1
    case value.some v => exact h.give hps hp (some v)
    case help.none | flag.none => exact h.give hps hp none
    case help.some | flag.some => rfl

theorem Abreast.readShort (h : Abreast R ps s t) (arg : Bytes) :
    Together (Abreast R ps) (shortArguments ps s arg) (shortArguments ps t arg) := by
  induction hn : arg.length using Nat.strong_induction_on generalizing arg s t with
  | h n ih =>
  rcases arg with _ | ⟨a, rest⟩
  · rw [shortArguments, shortArguments]
    exact h
  rw [shortArguments, shortArguments]
  split
  · next c r hhead =>
    have hlen : r.length < n := hn ▸ Utf8.length_lt_of_head hhead
    cases hfind : ps.find? (·.short = some c) with
    | none => rfl
    | some p =>
      have hp := List.mem_of_find?_eq_some hfind
      have hrest : Together (Abreast R ps)
          (s.give p none >>= (shortArguments ps · r)) (t.give p none >>= (shortArguments ps · r)) :=
        (h.give hps hp none).bind fun _ _ h => ih _ hlen h r rfl
      dsimp only
      cases p.takes with
      | value set =>
        cases attachedValue r with
        | none => exact (h.await hps hp).mono fun _ _ h => h.1
        | some v => exact h.give hps hp (some v)
      | help | flag set =>
        cases hs : s.give p none <;> cases ht : t.give p none <;> rw [hs, ht] at hrest <;>
          exact hrest
  · rfl

theorem Abreast.read (h : Abreast R ps s t) (arg : Bytes) :
    Together (Abreast R ps) (argument ps s arg) (argument ps t arg) := by
  by_cases hs : s.trailing = true
  · have ht := h.trailing.trans hs
    simp [argument, hs, ht, Together]
  rw [Bool.not_eq_true] at hs
  have ht := h.trailing.trans hs
  obtain hapart | rfl | ⟨rest, hne, rfl⟩ | ⟨b, rest, hb, rfl⟩ := apart_or_option arg
  · obtain ⟨settings, given, awaiting, trailing⟩ := s
    obtain ⟨settings', given', awaiting', trailing'⟩ := t
    cases h.awaiting with
    | none | exchanged _ =>
      rw [argument_unknown hs hapart (by simp), argument_unknown ht hapart (by simp)]
      rfl
    | @same p hp v? =>
      cases v? with
      | none =>
        rw [argument_awaited hs hapart rfl, argument_awaited ht hapart rfl]
        exact ⟨h.settings, h.given, .same hp _, h.trailing⟩
      | some v =>
        rw [argument_unknown hs hapart (by simp), argument_unknown ht hapart (by simp)]
        rfl
  · rw [argument_stop hs, argument_stop ht]
    exact ⟨h.settings, h.given, h.awaiting, rfl⟩
  · rw [argument_long hs hne, argument_long ht hne]
    exact h.readLong hps rest
  · rw [argument_short hs hb, argument_short ht hb]
    exact h.readShort hps _

/-! ### One value in place of another -/

section
variable (hnamed : WellNamed ps) {l : String}
include hnamed

/-- A value that stands after an equals sign, -/
theorem Abreast.read_joined (h : Abreast R ps s t) (hp : p ∈ ps) (hl : p.long = some l)
    (hvw : p.Exchanges R v w) :
    Together (Abreast R ps)
      (argument ps s (hyphen :: hyphen :: (Utf8.ofString l ++ equals :: v)))
      (argument ps t (hyphen :: hyphen :: (Utf8.ofString l ++ equals :: w))) := by
  by_cases hs : s.trailing = true
  · have ht := h.trailing.trans hs
    simp [argument, hs, ht, Together, UsageFault.exitCode]
  rw [Bool.not_eq_true] at hs
  have ht := h.trailing.trans hs
  obtain ⟨-, hequals⟩ := hnamed.word hp hl
  obtain ⟨set, -, -, htakes, -⟩ := id hvw
  rw [argument_long hs (by simp), argument_long ht (by simp), longArgument,
    longArgument, splitEquals_assigned hequals, splitEquals_assigned hequals]
  simp only [hnamed.find_long hp hl, htakes]
  exact h.give_exchanged hps hvw

/-- and one that stands in an argument of its own. -/
theorem Abreast.read_apart (h : Abreast R ps s t) (hp : p ∈ ps) (hl : p.long = some l)
    (hvw : p.Exchanges R v w) (hv : Apart v) (hw : Apart w) :
    Together (Abreast R ps)
      (argument ps s (hyphen :: hyphen :: Utf8.ofString l) >>= fun s => argument ps s v)
      (argument ps t (hyphen :: hyphen :: Utf8.ofString l) >>= fun t => argument ps t w) := by
  by_cases hs : s.trailing = true
  · have ht := h.trailing.trans hs
    simp [argument, hs, ht, Together, bind, Except.bind]
  rw [Bool.not_eq_true] at hs
  have ht := h.trailing.trans hs
  obtain ⟨hne, hequals⟩ := hnamed.word hp hl
  obtain ⟨set, -, -, htakes, -⟩ := id hvw
  rw [argument_long hs hne, argument_long ht hne, longArgument,
    longArgument, splitEquals_plain hequals]
  simp only [hnamed.find_long hp hl, htakes]
  refine (h.await hps hp).bind fun s t hst => ?_
  obtain ⟨h, hs⟩ := hst
  by_cases htrailing : s.trailing = true
  · have ht := h.trailing.trans htrailing
    simp [argument, htrailing, ht, Together, UsageFault.exitCode]
  rw [Bool.not_eq_true] at htrailing
  have ht := h.trailing.trans htrailing
  rw [argument_awaited htrailing hv hs, argument_awaited ht hw (hs ▸ h.awaiting).openOnBoth]
  exact ⟨h.settings, h.given, .exchanged hvw, h.trailing⟩

end

/-! ### The whole line -/

theorem supply_together (given : List String) {x y : σ} (h : R x y) (hp : p ∈ ps) :
    Together R (supply given x p) (supply given y p) := by
  unfold supply
  split
  · next set text htakes hdefault =>
    split
    · exact h
    · cases hset : set (Utf8.ofString text) with
      | error f => rfl
      | ok change => exact hps p hp _ change (.value htakes hset) _ _ h
  · exact h

theorem supplyAll_together (given : List String) {qs : List (Parameter σ)} (hqs : qs ⊆ ps) {x y : σ}
    (h : R x y) :
    Together R (qs.foldlM (supply given) x) (qs.foldlM (supply given) y) := by
  induction qs generalizing x y with
  | nil => exact h
  | cons p qs ih =>
    obtain ⟨hp, hqs⟩ := List.cons_subset.1 hqs
    rw [List.foldlM_cons, List.foldlM_cons]
    exact (supply_together hps given h hp).bind fun _ _ h => ih hqs h

/-- Lines that are read side by side to their ends give settings that compare. -/
theorem parse_together {blank : σ} {args args' : List Bytes} (hblank : R blank blank)
    (h : ∀ s t, Abreast R ps s t →
      Together (Abreast R ps) (args.foldlM (argument ps) s)
        (args'.foldlM (argument ps) t)) :
    Together R (parse ps blank args) (parse ps blank args') := by
  have hstart : Abreast R ps ⟨blank, [], none, false⟩ ⟨blank, [], none, false⟩ :=
    ⟨hblank, rfl, .none, rfl⟩
  refine (h _ _ hstart).bind fun s t h => (h.settle hps).bind fun s t h => ?_
  dsimp only
  rw [h.given]
  split
  · exact supplyAll_together hps _ (List.Subset.refl ps) h.settings
  · rfl

/-- What holds before any parameter has its value, and is kept by all of them, holds of the settings
that a line gives. -/
theorem parse_keeps {blank x : σ} {args : List Bytes} (hblank : R blank blank)
    (hx : parse ps blank args = .ok x) : R x x := by
  have htogether : Together R (parse ps blank args) (parse ps blank args) := by
    apply parse_together hps hblank
    intro s t hst
    clear hx
    induction args generalizing s t with
    | nil => exact hst
    | cons arg args ih =>
      rw [List.foldlM_cons, List.foldlM_cons]
      exact (hst.read hps arg).bind ih
  rw [hx] at htogether
  exact htogether

end

end

/-! ### Values that say how and which events are logged -/

structure Settings.Alike (x y : Settings) : Prop where
  options : y.options = x.options
  file : y.logging.file = x.logging.file

structure Launch.Alike (x y : Launch) : Prop where
  settings : x.settings.Alike y.settings
  apiSchema : y.apiSchema = x.apiSchema
  host : y.host = x.host
  port : y.port = x.port
  notifyTimeout : y.notifyTimeout = x.notifyTimeout
  metricsAddress : y.metricsAddress = x.metricsAddress

namespace Launch.Alike

theorem refl (x : Launch) : x.Alike x := ⟨⟨rfl, rfl⟩, rfl, rfl, rfl, rfl, rfl⟩

theorem symm {x y : Launch} (h : x.Alike y) : y.Alike x :=
  ⟨⟨h.settings.options.symm, h.settings.file.symm⟩, h.apiSchema.symm, h.host.symm, h.port.symm,
    h.notifyTimeout.symm, h.metricsAddress.symm⟩

end Launch.Alike

inductive LogOption where
  | target | level | format

namespace LogOption

def name : LogOption → String
  | target => "log-to"
  | level => "log-level"
  | format => "log-format"

def Admits (v : Bytes) : LogOption → Prop
  | target => ∃ a, IsChoice targets v a
  | level => ∃ a, IsChoice levels v a
  | format => ∃ a, IsChoice formats v a

def argument (o : LogOption) : Bytes := hyphen :: hyphen :: Utf8.ofString o.name

end LogOption

/-- Two command lines differ only in valid values of such options, each after an equals sign or in
an argument of its own. -/
inductive Relogged : List Bytes → List Bytes → Prop
  | nil : Relogged [] []
  | same {args args' : List Bytes} (arg : Bytes) (h : Relogged args args') :
      Relogged (arg :: args) (arg :: args')
  | joined {v w : Bytes} {args args' : List Bytes} (o : LogOption) (hv : o.Admits v)
      (hw : o.Admits w) (h : Relogged args args') :
      Relogged ((o.argument ++ equals :: v) :: args) ((o.argument ++ equals :: w) :: args')
  | apart {v w : Bytes} {args args' : List Bytes} (o : LogOption) (hv : o.Admits v)
      (hw : o.Admits w) (h : Relogged args args') :
      Relogged (o.argument :: v :: args) (o.argument :: w :: args')

section
variable {R : σ → σ → Prop} {S : τ → τ → Prop} {p : Parameter σ} {v w : Bytes}

theorem keeps_setter {read : Bytes → Except ValueFault α} {set : α → σ → σ}
    (htakes : p.takes = .value fun v => (read v).map set)
    (hset : ∀ a x y, R x y → R (set a x) (set a y)) : p.Keeps R := by
  intro v? change hchange
  obtain ⟨-, a, -, -, rfl⟩ := changes_value htakes hchange
  exact hset a

theorem keeps_within {modify : (σ → σ) → τ → τ} (hp : p.Keeps R)
    (hmodify : ∀ f, (∀ x y, R x y → R (f x) (f y)) → ∀ x y, S x y → S (modify f x) (modify f y)) :
    (p.within modify).Keeps S := by
  intro v? change hchange
  obtain ⟨f, hf, rfl⟩ := changes_within hchange
  exact hmodify f (hp v? f hf)

end

theorem logParameters_keep {p : Parameter LogOptions} (hp : p ∈ logParameters) :
    p.Keeps fun x y => y.file = x.file := by
  simp only [logParameters, List.mem_cons, List.not_mem_nil, or_false] at hp
  obtain rfl | rfl | rfl | rfl := hp
  case inr.inl => exact keeps_setter rfl fun _ _ _ _ => rfl
  all_goals exact keeps_setter rfl fun _ _ _ h => h

theorem settingsParameters_keep {p : Parameter Settings} (hp : p ∈ settingsParameters) :
    p.Keeps Settings.Alike := by
  rcases List.mem_append.1 hp with hp | hp
  · obtain ⟨q, -, rfl⟩ := List.mem_map.1 hp
    refine keeps_within (R := Eq) (fun _ _ _ _ _ => congrArg _) fun f _ x y h => ?_
    exact ⟨congrArg f h.options, h.file⟩
  · obtain ⟨q, hq, rfl⟩ := List.mem_map.1 hp
    exact keeps_within (logParameters_keep hq) fun f hf x y h => ⟨h.options, hf _ _ h.file⟩

theorem launchParameters_keep : ∀ p ∈ launchParameters ++ [help], p.Keeps Launch.Alike := by
  intro p hp
  rw [launchParameters, List.append_assoc] at hp
  rcases List.mem_append.1 hp with hp | hp
  · obtain ⟨q, hq, rfl⟩ := List.mem_map.1 hp
    exact keeps_within (settingsParameters_keep hq) fun f hf x y h =>
      { h with settings := hf _ _ h.settings }
  · simp only [List.cons_append, List.nil_append, List.mem_cons, List.not_mem_nil, or_false] at hp
    obtain rfl | rfl | rfl | rfl | rfl | rfl := hp
    · exact keeps_setter rfl fun _ _ _ h => { h with apiSchema := rfl }
    · exact keeps_setter rfl fun _ _ _ h => { h with host := rfl }
    · exact keeps_setter rfl fun _ _ _ h => { h with port := rfl }
    · exact keeps_setter rfl fun _ _ _ h => { h with notifyTimeout := rfl }
    · exact keeps_setter rfl fun _ _ _ h => { h with metricsAddress := rfl }
    · rintro v? change (⟨h, -⟩ | ⟨h, -⟩) <;> cases h

theorem wellNamed_launch : WellNamed (launchParameters ++ [help]) where
  shorts := by decide
  longs := by decide
  letters := by decide
  words := by decide

def launchParameter (long : String) : Parameter Launch :=
  (launchParameters.find? (·.long = some long)).getD help

theorem launchParameter_mem (long : String)
    (h : (launchParameters.find? (·.long = some long)).isSome = true) :
    launchParameter long ∈ launchParameters ++ [help] ∧
      (launchParameter long).long = some long := by
  obtain ⟨p, hp⟩ := Option.isSome_iff_exists.1 h
  rw [launchParameter, hp, Option.getD_some]
  exact ⟨List.mem_append_left _ (List.mem_of_find?_eq_some hp), by simpa using List.find?_some hp⟩

section
variable {v w : Bytes} {args args' : List Bytes}

theorem exchanges_choice {choices : List (String × α)} {set : α → LogOptions → LogOptions} {a b : α}
    {p : Parameter Launch}
    (htakes : p.takes = .value fun v => (((choiceValue choices v).map set).map
      fun f (s : Settings) => { s with logging := f s.logging }).map
        fun f (l : Launch) => { l with settings := f l.settings })
    (hset : ∀ a o, (set a o).file = o.file) (hnodup : (choices.map Prod.fst).Nodup)
    (hv : IsChoice choices v a) (hw : IsChoice choices w b) : p.Exchanges Launch.Alike v w := by
  refine ⟨_, _, _, htakes, by rw [(choiceValue_eq_ok_iff hnodup).2 hv]; rfl,
    by rw [(choiceValue_eq_ok_iff hnodup).2 hw]; rfl, fun x y h => ?_⟩
  refine { h with settings := ⟨h.settings.options, ?_⟩ }
  exact (hset b _).trans (h.settings.file.trans (hset a _).symm)

theorem LogOption.exchanges (o : LogOption) (hv : o.Admits v) (hw : o.Admits w) :
    ∃ p ∈ launchParameters ++ [help], p.long = some o.name ∧ p.Exchanges Launch.Alike v w := by
  have hnamed : (launchParameters.find? (·.long = some o.name)).isSome = true := by
    cases o <;> rfl
  obtain ⟨hmem, hlong⟩ := launchParameter_mem o.name hnamed
  refine ⟨launchParameter o.name, hmem, hlong, ?_⟩
  cases o with
  | target | level | format =>
    obtain ⟨⟨a, hv⟩, b, hw⟩ := hv, hw
    exact exchanges_choice rfl (fun _ _ => rfl) (by decide) hv hw

theorem IsChoice.isApart {choices : List (String × α)} {a : α} (hv : IsChoice choices v a)
    (h : ∀ s ∈ choices.map Prod.fst, (Utf8.ofString s).head? ≠ some hyphen) : Apart v := by
  obtain ⟨s, rfl, hs⟩ := hv
  exact .inl (h s (List.mem_map_of_mem hs))

theorem LogOption.isApart (o : LogOption) (hv : o.Admits v) : Apart v := by
  cases o with
  | target | level | format =>
    obtain ⟨a, hv⟩ := hv
    exact hv.isApart (by decide)

theorem Relogged.abreast (h : Relogged args args') {s t : Progress Launch}
    (hst : Abreast Launch.Alike (launchParameters ++ [help]) s t) :
    Together (Abreast Launch.Alike (launchParameters ++ [help]))
      (args.foldlM (argument (launchParameters ++ [help])) s)
      (args'.foldlM (argument (launchParameters ++ [help])) t) := by
  induction h generalizing s t with
  | nil => exact hst
  | same arg _ ih =>
    rw [List.foldlM_cons, List.foldlM_cons]
    exact (hst.read launchParameters_keep arg).bind fun _ _ h => ih h
  | joined o hv hw _ ih =>
    obtain ⟨p, hp, hl, hvw⟩ := o.exchanges hv hw
    rw [List.foldlM_cons, List.foldlM_cons]
    exact (hst.read_joined launchParameters_keep wellNamed_launch hp hl hvw).bind
      fun _ _ h => ih h
  | apart o hv hw _ ih =>
    obtain ⟨p, hp, hl, hvw⟩ := o.exchanges hv hw
    simp only [List.foldlM_cons, ← bind_assoc]
    exact (hst.read_apart launchParameters_keep wellNamed_launch hp hl hvw (o.isApart hv)
      (o.isApart hw)).bind fun _ _ h => ih h

/-- Command lines that differ only in how they log are both understood, and describe launches that
are alike, or neither is, and the exit code is the same. -/
theorem Relogged.launch (h : Relogged args args') :
    Together Launch.Alike (launch args) (launch args') :=
  parse_together launchParameters_keep (.refl _) fun _ _ hst => h.abreast hst

end

end NodeConfig.CommandLine
