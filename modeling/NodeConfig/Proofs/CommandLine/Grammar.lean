import Mathlib
import NodeConfig.CommandLine.Parse
import NodeConfig.Proofs.Except
import NodeConfig.Proofs.Text.Utf8

namespace NodeConfig.CommandLine

variable {σ : Type}

namespace Parameter

def IsFlag (p : Parameter σ) : Prop := ∃ set, p.takes = .flag set

def IsValued (p : Parameter σ) : Prop := ∃ set, p.takes = .value set

end Parameter

inductive Parameter.Changes (p : Parameter σ) : Option Bytes → (σ → σ) → Prop
  | flag {set : σ → σ} (h : p.takes = .flag set) (v? : Option Bytes) : p.Changes v? set
  | value {set : Bytes → Except ValueFault (σ → σ)} {v : Bytes} {change : σ → σ}
      (h : p.takes = .value set) (hv : set v = .ok change) : p.Changes (some v) change

section
variable {α τ : Type} {p : Parameter σ} {v? : Option Bytes}

/-- A parameter with a value does what its setter does with what was read. -/
theorem changes_value {read : Bytes → Except ValueFault α} {set : α → σ → σ} {change : σ → σ}
    (htakes : p.takes = .value fun v => (read v).map set) (h : p.Changes v? change) :
    ∃ v a, v? = some v ∧ read v = .ok a ∧ change = set a := by
  rcases h with ⟨h, -⟩ | ⟨h, hv⟩
  · rw [htakes] at h
    cases h
  · rw [htakes, Takes.value.injEq] at h
    subst h
    obtain ⟨a, ha, rfl⟩ := Except.map_eq_ok_iff.1 hv
    exact ⟨_, a, rfl, ha, rfl⟩

/-- A parameter of a part of the settings does to the part what it does. -/
theorem changes_within {modify : (σ → σ) → τ → τ} {change : τ → τ}
    (h : (p.within modify).Changes v? change) : ∃ f, p.Changes v? f ∧ change = modify f := by
  rcases h with ⟨h, -⟩ | ⟨h, hv⟩
  · cases htakes : p.takes with
    | flag set =>
      simp only [Parameter.within, htakes, Takes.flag.injEq] at h
      exact ⟨set, .flag htakes _, h.symm⟩
    | help | value set => simp [Parameter.within, htakes] at h
  · cases htakes : p.takes with
    | value set =>
      simp only [Parameter.within, htakes, Takes.value.injEq] at h
      subst h
      obtain ⟨f, hf, rfl⟩ := Except.map_eq_ok_iff.1 hv
      exact ⟨f, .value htakes hf, rfl⟩
    | help | flag set => simp [Parameter.within, htakes] at h

end

abbrev Use (σ : Type) := Parameter σ × Option Bytes

section
variable (ps : List (Parameter σ))

inductive Flags : Bytes → List (Use σ) → Prop
  | nil : Flags [] []
  | cons {p : Parameter σ} {c : Char} {bs : Bytes} {us : List (Use σ)} (hp : p ∈ ps)
      (hc : p.short = some c) (hf : p.IsFlag) (h : Flags bs us) :
      Flags (Utf8.encodeChar c ++ bs) ((p, none) :: us)

/-- The letters of flags and after them the letter of a parameter with a value. -/
inductive Cluster : Bytes → List (Use σ) → Parameter σ → Prop
  | letters {p : Parameter σ} {c : Char} {bs : Bytes} {us : List (Use σ)} (h : Flags ps bs us)
      (hp : p ∈ ps) (hc : p.short = some c) (hv : p.IsValued) :
      Cluster (bs ++ Utf8.encodeChar c) us p

/-- An argument that leaves nothing open. One equals sign between a letter and a value belongs to
neither. -/
inductive Whole : Bytes → List (Use σ) → Prop
  | flags {bs : Bytes} {us : List (Use σ)} (h : Flags ps bs us) (hne : bs ≠ []) :
      Whole (hyphen :: bs) us
  | attached {bs v : Bytes} {us : List (Use σ)} {p : Parameter σ} (h : Cluster ps bs us p)
      (hne : v ≠ []) (hv : v.head? ≠ some equals) :
      Whole (hyphen :: (bs ++ v)) (us ++ [(p, some v)])
  | assigned {bs v : Bytes} {us : List (Use σ)} {p : Parameter σ} (h : Cluster ps bs us p) :
      Whole (hyphen :: (bs ++ equals :: v)) (us ++ [(p, some v)])
  | longFlag {p : Parameter σ} {l : String} (hp : p ∈ ps) (hl : p.long = some l) (hf : p.IsFlag) :
      Whole (hyphen :: hyphen :: Utf8.ofString l) [(p, none)]
  | longAssigned {p : Parameter σ} {l : String} {v : Bytes} (hp : p ∈ ps) (hl : p.long = some l)
      (hv : p.IsValued) :
      Whole (hyphen :: hyphen :: (Utf8.ofString l ++ equals :: v)) [(p, some v)]

/-- An argument whose last parameter takes the next one as its value. -/
inductive Opening : Bytes → List (Use σ) → Parameter σ → Prop
  | letters {bs : Bytes} {us : List (Use σ)} {p : Parameter σ} (h : Cluster ps bs us p) :
      Opening (hyphen :: bs) us p
  | long {p : Parameter σ} {l : String} (hp : p ∈ ps) (hl : p.long = some l) (hv : p.IsValued) :
      Opening (hyphen :: hyphen :: Utf8.ofString l) [] p

/-- A value in an argument of its own begins with no hyphen, unless it is one. -/
def Apart (v : Bytes) : Prop := v.head? ≠ some hyphen ∨ v = [hyphen]

/-- Arguments spell out the parameters that are given. Two hyphens may stand at the end. -/
inductive Spells : List Bytes → List (Use σ) → Prop
  | nil : Spells [] []
  | stop : Spells [[hyphen, hyphen]] []
  | whole {arg : Bytes} {args : List Bytes} {us vs : List (Use σ)} (h : Whole ps arg us)
      (ht : Spells args vs) : Spells (arg :: args) (us ++ vs)
  | opening {arg v : Bytes} {args : List Bytes} {us vs : List (Use σ)} {p : Parameter σ}
      (h : Opening ps arg us p) (hv : Apart v) (ht : Spells args vs) :
      Spells (arg :: v :: args) (us ++ (p, some v) :: vs)

/-- Parameters have names that tell them apart, and that are read as names. -/
structure WellNamed : Prop where
  shorts : (ps.filterMap (·.short)).Nodup
  longs : (ps.filterMap (·.long)).Nodup
  letters : '-' ∉ ps.filterMap (·.short)
  words : ∀ l ∈ ps.filterMap (·.long), l ≠ "" ∧ equals ∉ Utf8.ofString l

end

theorem Opening.isValued {ps : List (Parameter σ)} {arg : Bytes} {us : List (Use σ)}
    {p : Parameter σ} (h : Opening ps arg us p) : p.IsValued := by
  cases h with
  | letters h =>
    cases h with
    | letters _ _ _ hv => exact hv
  | long _ _ hv => exact hv

section
variable {ps : List (Parameter σ)} {arg : Bytes} {args : List Bytes} {us : List (Use σ)}
  {p : Parameter σ}

def Parameter.Usable (ps : List (Parameter σ)) (p : Parameter σ) : Prop :=
  p ∈ ps ∧ (p.IsFlag ∨ p.IsValued)

theorem Flags.usable (h : Flags ps arg us) : ∀ u ∈ us, u.1.Usable ps := by
  induction h with
  | nil => nofun
  | cons hp _ hf _ ih => exact List.forall_mem_cons.2 ⟨⟨hp, .inl hf⟩, ih⟩

theorem Cluster.usable (h : Cluster ps arg us p) : (∀ u ∈ us, u.1.Usable ps) ∧ p.Usable ps := by
  cases h with
  | letters h hp _ hv => exact ⟨h.usable, hp, .inr hv⟩

theorem Whole.usable (h : Whole ps arg us) : ∀ u ∈ us, u.1.Usable ps := by
  cases h with
  | flags h _ => exact h.usable
  | attached h _ _ | assigned h =>
    exact List.forall_mem_append.2 ⟨h.usable.1, List.forall_mem_singleton.2 h.usable.2⟩
  | longFlag hp _ hf => exact List.forall_mem_singleton.2 ⟨hp, .inl hf⟩
  | longAssigned hp _ hv => exact List.forall_mem_singleton.2 ⟨hp, .inr hv⟩

theorem Opening.usable (h : Opening ps arg us p) : (∀ u ∈ us, u.1.Usable ps) ∧ p.Usable ps := by
  cases h with
  | letters h => exact h.usable
  | long hp _ hv => exact ⟨nofun, hp, .inr hv⟩

theorem Spells.usable (h : Spells ps args us) : ∀ u ∈ us, u.1.Usable ps := by
  induction h with
  | nil | stop => nofun
  | whole h _ ih => exact List.forall_mem_append.2 ⟨h.usable, ih⟩
  | opening h _ _ ih =>
    exact List.forall_mem_append.2 ⟨h.usable.1, List.forall_mem_cons.2 ⟨h.usable.2, ih⟩⟩

end

theorem find?_of_nodup {α β : Type} [DecidableEq β] {f : α → Option β} {l : List α}
    (h : (l.filterMap f).Nodup) {a : α} (ha : a ∈ l) {b : β} (hb : f a = some b) :
    l.find? (fun x => f x = some b) = some a := by
  induction l with
  | nil => cases ha
  | cons x l ih =>
    rw [List.find?_cons]
    rcases List.mem_cons.1 ha with rfl | hmem
    · simp [hb]
    · have hx : f x ≠ some b := by
        intro hx
        rw [List.filterMap_cons_some hx, List.nodup_cons] at h
        exact h.1 (List.mem_filterMap.2 ⟨a, hmem, hb⟩)
      have hl : (l.filterMap f).Nodup := by
        rw [List.filterMap_cons] at h
        split at h
        · exact h
        · exact h.of_cons
      simp only [hx, decide_false]
      exact ih hl hmem

namespace WellNamed

variable {ps : List (Parameter σ)} {p : Parameter σ}

theorem find_short (h : WellNamed ps) {c : Char} (hp : p ∈ ps) (hc : p.short = some c) :
    ps.find? (·.short = some c) = some p :=
  find?_of_nodup h.shorts hp hc

theorem find_long (h : WellNamed ps) {l : String} (hp : p ∈ ps) (hl : p.long = some l) :
    ps.find? (fun p => p.long.any fun m => Utf8.ofString m = Utf8.ofString l) = some p := by
  have hnames : (fun p : Parameter σ => p.long.any fun m => Utf8.ofString m = Utf8.ofString l) =
      fun p : Parameter σ => p.long = some l := by
    funext p
    cases hm : p.long with
    | none => simp [hm]
    | some m => simp [hm, Utf8.ofString_injective.eq_iff]
  rw [hnames]
  exact find?_of_nodup h.longs hp hl

theorem ne_hyphen (h : WellNamed ps) {c : Char} (hp : p ∈ ps) (hc : p.short = some c) :
    c ≠ '-' := by
  rintro rfl
  exact h.letters (List.mem_filterMap.2 ⟨p, hp, hc⟩)

theorem word (h : WellNamed ps) {l : String} (hp : p ∈ ps) (hl : p.long = some l) :
    Utf8.ofString l ≠ [] ∧ equals ∉ Utf8.ofString l := by
  obtain ⟨hne, hequals⟩ := h.words l (List.mem_filterMap.2 ⟨p, hp, hl⟩)
  exact ⟨fun hempty => hne (Utf8.ofString_injective hempty), hequals⟩

end WellNamed

end NodeConfig.CommandLine
