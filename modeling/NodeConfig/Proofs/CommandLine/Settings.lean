import Mathlib
import NodeConfig.CommandLine.Options
import NodeConfig.Proofs.CommandLine.Spelled
import NodeConfig.Proofs.CommandLine.Value

namespace NodeConfig.CommandLine

inductive Name where
  | configFile | userlist | haproxyBin | reloadDelay | reloadCmd | restartCmd | reloadRetention
  | transactionDir | backupsNumber | masterRuntime | showSystemInfo | gitMode | gitSettingsFile
  | dataplaneConfig | logTo | logFile | logLevel | logFormat
  deriving DecidableEq

def Name.all : List Name :=
  [.configFile, .userlist, .haproxyBin, .reloadDelay, .reloadCmd, .restartCmd, .reloadRetention,
    .transactionDir, .backupsNumber, .masterRuntime, .showSystemInfo, .gitMode, .gitSettingsFile,
    .dataplaneConfig, .logTo, .logFile, .logLevel, .logFormat]

def Name.parameter (n : Name) : Parameter Settings := settingsParameters.getD n.ctorIdx help

def Name.Field : Name → Type
  | configFile | transactionDir | gitSettingsFile | logFile => Path
  | masterRuntime | dataplaneConfig => Option Path
  | userlist | haproxyBin => String
  | reloadCmd | restartCmd => Option String
  | reloadDelay | reloadRetention | backupsNumber => ℕ
  | showSystemInfo | gitMode => Bool
  | logTo => LogTarget
  | logLevel => Level
  | logFormat => LogFormat

namespace Settings

def get (s : Settings) : (n : Name) → n.Field
  | .configFile => s.options.configFile
  | .userlist => s.options.userlist
  | .haproxyBin => s.options.haproxyBin
  | .reloadDelay => s.options.reloadDelay
  | .reloadCmd => s.options.reloadCmd
  | .restartCmd => s.options.restartCmd
  | .reloadRetention => s.options.reloadRetention
  | .transactionDir => s.options.transactionDir
  | .backupsNumber => s.options.backupsNumber
  | .masterRuntime => s.options.masterRuntime
  | .showSystemInfo => s.options.showSystemInfo
  | .gitMode => s.options.gitMode
  | .gitSettingsFile => s.options.gitSettingsFile
  | .dataplaneConfig => s.options.dataplaneConfig
  | .logTo => s.logging.target
  | .logFile => s.logging.file
  | .logLevel => s.logging.level
  | .logFormat => s.logging.format

def put (s : Settings) : (n : Name) → n.Field → Settings
  | .configFile, x => { s with options := { s.options with configFile := x } }
  | .userlist, x => { s with options := { s.options with userlist := x } }
  | .haproxyBin, x => { s with options := { s.options with haproxyBin := x } }
  | .reloadDelay, x => { s with options := { s.options with reloadDelay := x } }
  | .reloadCmd, x => { s with options := { s.options with reloadCmd := x } }
  | .restartCmd, x => { s with options := { s.options with restartCmd := x } }
  | .reloadRetention, x => { s with options := { s.options with reloadRetention := x } }
  | .transactionDir, x => { s with options := { s.options with transactionDir := x } }
  | .backupsNumber, x => { s with options := { s.options with backupsNumber := x } }
  | .masterRuntime, x => { s with options := { s.options with masterRuntime := x } }
  | .showSystemInfo, x => { s with options := { s.options with showSystemInfo := x } }
  | .gitMode, x => { s with options := { s.options with gitMode := x } }
  | .gitSettingsFile, x => { s with options := { s.options with gitSettingsFile := x } }
  | .dataplaneConfig, x => { s with options := { s.options with dataplaneConfig := x } }
  | .logTo, x => { s with logging := { s.logging with target := x } }
  | .logFile, x => { s with logging := { s.logging with file := x } }
  | .logLevel, x => { s with logging := { s.logging with level := x } }
  | .logFormat, x => { s with logging := { s.logging with format := x } }

variable {s t : Settings} {n m : Name}

@[simp] theorem get_put_self (s : Settings) (n : Name) (x : n.Field) : (s.put n x).get n = x := by
  cases n <;> rfl

theorem get_put_ne (s : Settings) (h : m ≠ n) (x : n.Field) : (s.put n x).get m = s.get m := by
  cases n <;> cases m <;> first | rfl | exact absurd rfl h

theorem ext_get (h : ∀ n, s.get n = t.get n) : s = t := by
  obtain ⟨⟨_, _, _, _, _, _, _, _, _, _, _, _, _, _⟩, ⟨_, _, _, _⟩⟩ := s
  obtain ⟨⟨_, _, _, _, _, _, _, _, _, _, _, _, _, _⟩, ⟨_, _, _, _⟩⟩ := t
  simp only [Settings.mk.injEq, Options.mk.injEq, LogOptions.mk.injEq]
  exact ⟨⟨h .configFile, h .userlist, h .haproxyBin, h .reloadDelay, h .reloadCmd, h .restartCmd,
    h .reloadRetention, h .transactionDir, h .backupsNumber, h .masterRuntime, h .showSystemInfo,
    h .gitMode, h .gitSettingsFile, h .dataplaneConfig⟩,
    h .logTo, h .logFile, h .logLevel, h .logFormat⟩

end Settings

theorem settingsParameters_eq : settingsParameters = Name.all.map Name.parameter := rfl

theorem Name.mem_all (n : Name) : n ∈ Name.all := by
  cases n <;> decide

def declared : List (Parameter Settings) := settingsParameters ++ [help]

theorem Name.parameter_mem (n : Name) : n.parameter ∈ declared :=
  List.mem_append_left _ (settingsParameters_eq ▸ List.mem_map_of_mem n.mem_all)

theorem wellNamed_declared : WellNamed declared where
  shorts := by decide
  longs := by decide
  letters := by decide
  words := by decide

theorem shown_nodup : (Name.all.map fun n => n.parameter.shown).Nodup := by decide

/-! ### One option -/

def Valued {α : Type} (R : Bytes → α → Prop) (v? : Option Bytes) (x : α) : Prop :=
  ∃ v, v? = some v ∧ R v x

def Present {α : Type} (R : Bytes → α → Prop) (v? : Option Bytes) (x : Option α) : Prop :=
  ∃ a, Valued R v? a ∧ x = some a

def Name.Denotes : (n : Name) → Option Bytes → n.Field → Prop
  | configFile | transactionDir | gitSettingsFile | logFile => Valued IsPath
  | masterRuntime | dataplaneConfig => Present IsPath
  | userlist | haproxyBin => Valued IsText
  | reloadCmd | restartCmd => Present IsText
  | reloadDelay => Valued IsLong
  | reloadRetention | backupsNumber => Valued (IsShort 32)
  | showSystemInfo | gitMode => fun _ x => x = true
  | logTo => Valued (IsChoice targets)
  | logLevel => Valued (IsChoice levels)
  | logFormat => Valued (IsChoice formats)

section
variable {σ α : Type} {p : Parameter σ} {v? : Option Bytes} {change : σ → σ}

theorem changes_flag {put : Bool → σ → σ} (h : p.takes = .flag (put true)) :
    p.Changes v? change ↔ ∃ x, x = true ∧ change = put x := by
  constructor
  · rintro (⟨h', -⟩ | ⟨h', -⟩)
    · rw [h, Takes.flag.injEq] at h'
      exact ⟨true, rfl, h'.symm⟩
    · rw [h] at h'
      cases h'
  · rintro ⟨_, rfl, rfl⟩
    exact .flag h v?

/-- A parameter with a value changes settings as its setter does with what was read. -/
theorem changes_setter {read : Bytes → Except ValueFault α} {R : Bytes → α → Prop} {τ : Type}
    {set : α → τ → τ} {modify : (τ → τ) → σ → σ} {put : α → σ → σ}
    (hread : ∀ v a, read v = .ok a ↔ R v a)
    (h : p.takes = .value fun v => ((read v).map set).map modify)
    (hput : ∀ a, modify (set a) = put a) :
    p.Changes v? change ↔ ∃ a, Valued R v? a ∧ change = put a := by
  simp only [← hput]
  constructor
  · intro hchange
    obtain ⟨v, f, rfl, hf, rfl⟩ := changes_value h hchange
    obtain ⟨a, ha, rfl⟩ := Except.map_eq_ok_iff.1 hf
    exact ⟨a, ⟨v, rfl, (hread v a).1 ha⟩, rfl⟩
  · rintro ⟨a, ⟨v, rfl, ha⟩, rfl⟩
    exact .value h (by rw [(hread v a).2 ha]; rfl)

theorem changes_optional {read : Bytes → Except ValueFault α} {R : Bytes → α → Prop} {τ : Type}
    {set : α → τ → τ} {modify : (τ → τ) → σ → σ} {put : Option α → σ → σ}
    (hread : ∀ v a, read v = .ok a ↔ R v a)
    (h : p.takes = .value fun v => ((read v).map set).map modify)
    (hput : ∀ a, modify (set a) = put (some a)) :
    p.Changes v? change ↔ ∃ x, Present R v? x ∧ change = put x := by
  rw [changes_setter hread h hput]
  constructor
  · rintro ⟨a, ha, rfl⟩
    exact ⟨_, ⟨a, ha, rfl⟩, rfl⟩
  · rintro ⟨_, ⟨a, ha, rfl⟩, rfl⟩
    exact ⟨a, ha, rfl⟩

end

variable {n : Name} {v? : Option Bytes} {change : Settings → Settings}

/-- An option that is given puts what it denotes in place. -/
theorem changes_iff : n.parameter.Changes v? change ↔
    ∃ x : n.Field, n.Denotes v? x ∧ change = fun s => s.put n x := by
  have hpath : ∀ v a, pathValue v = .ok a ↔ IsPath v a := fun _ _ => pathValue_eq_ok_iff
  have htext : ∀ v a, textValue v = .ok a ↔ IsText v a := fun _ _ => textValue_eq_ok_iff
  have hlong : ∀ v a, longValue v = .ok a ↔ IsLong v a := fun _ _ => longValue_eq_ok_iff
  have hshort : ∀ v a, shortValue 32 v = .ok a ↔ IsShort 32 v a :=
    fun _ _ => shortValue_eq_ok_iff (by decide)
  have htargets : ∀ v a, choiceValue targets v = .ok a ↔ IsChoice targets v a :=
    fun _ _ => choiceValue_eq_ok_iff (by decide)
  have hlevels : ∀ v a, choiceValue levels v = .ok a ↔ IsChoice levels v a :=
    fun _ _ => choiceValue_eq_ok_iff (by decide)
  have hformats : ∀ v a, choiceValue formats v = .ok a ↔ IsChoice formats v a :=
    fun _ _ => choiceValue_eq_ok_iff (by decide)
  cases n with
  | configFile | transactionDir | gitSettingsFile | logFile =>
    exact changes_setter hpath rfl fun _ => rfl
  | masterRuntime | dataplaneConfig => exact changes_optional hpath rfl fun _ => rfl
  | userlist | haproxyBin => exact changes_setter htext rfl fun _ => rfl
  | reloadCmd | restartCmd => exact changes_optional htext rfl fun _ => rfl
  | reloadDelay => exact changes_setter hlong rfl fun _ => rfl
  | reloadRetention | backupsNumber => exact changes_setter hshort rfl fun _ => rfl
  | showSystemInfo | gitMode => exact changes_flag rfl
  | logTo => exact changes_setter htargets rfl fun _ => rfl
  | logLevel => exact changes_setter hlevels rfl fun _ => rfl
  | logFormat => exact changes_setter hformats rfl fun _ => rfl

/-! ### Defaults -/

/-- The default of each parameter is read as the value of a field that was not set. -/
theorem denotes_default {text : String} (h : n.parameter.default? = some text) :
    n.Denotes (some (Utf8.ofString text)) (({} : Settings).get n) := by
  cases n <;> cases h
  case configFile | transactionDir | gitSettingsFile | logFile =>
    exact ⟨_, rfl, by decide, rfl⟩
  case userlist | haproxyBin => exact ⟨_, rfl, rfl⟩
  case reloadDelay =>
    have hdigits : DigitsOf "5".toList 5 :=
      (decimal?_eq_some_iff.1 (show decimal? 9 _ = some _ by decide)).1
    exact ⟨_, rfl, _, rfl, .bare hdigits, by change 5 < 2 ^ 64; decide⟩
  case reloadRetention =>
    have hdigits : DigitsOf "1".toList 1 :=
      (decimal?_eq_some_iff.1 (show decimal? 9 _ = some _ by decide)).1
    exact ⟨_, rfl, _, rfl, .unsigned (.bare hdigits), by change 1 < 2 ^ 32; decide⟩
  case backupsNumber =>
    have hdigits : DigitsOf "0".toList 0 :=
      (decimal?_eq_some_iff.1 (show decimal? 9 _ = some _ by decide)).1
    exact ⟨_, rfl, _, rfl, .unsigned (.bare hdigits), by change 0 < 2 ^ 32; decide⟩
  case logTo =>
    exact ⟨_, rfl, _, rfl, show ("stdout", LogTarget.stdout) ∈ targets by decide⟩
  case logLevel =>
    exact ⟨_, rfl, _, rfl, show ("warning", Level.warn) ∈ levels by decide⟩
  case logFormat =>
    exact ⟨_, rfl, _, rfl, show ("text", LogFormat.text) ∈ formats by decide⟩

/-- A field whose parameter has no default is blank where it was not set. -/
theorem blank_get (h : n.parameter.default? = none) :
    Settings.blank.get n = ({} : Settings).get n := by
  cases n <;> first | rfl | cases h

theorem shown_injective {m : Name} (h : n.parameter.shown = m.parameter.shown) : n = m :=
  List.inj_on_of_nodup_map shown_nodup n.mem_all m.mem_all h

theorem isValued_of_default {text : String} (h : n.parameter.default? = some text) :
    n.parameter.IsValued := by
  cases n <;> first | exact ⟨_, rfl⟩ | cases h

/-- What an option has after the defaults. -/
def Settings.filled (g : List String) (s : Settings) (n : Name) : n.Field :=
  if n.parameter.default? = none ∨ n.parameter.shown ∈ g then s.get n else ({} : Settings).get n

theorem supply_parameter (g : List String) (s : Settings) (m : Name) :
    ∃ u, supply g s m.parameter = .ok u ∧ u.get m = s.filled g m ∧
      ∀ n, n ≠ m → u.get n = s.get n := by
  cases hdefault : m.parameter.default? with
  | none =>
    refine ⟨s, ?_, by rw [Settings.filled, if_pos (.inl hdefault)], fun _ _ => rfl⟩
    rw [supply, hdefault]
    cases m.parameter.takes <;> rfl
  | some text =>
    obtain ⟨set, htakes⟩ := isValued_of_default hdefault
    have hset : set (Utf8.ofString text) = .ok fun s => s.put m (({} : Settings).get m) := by
      cases changes_iff.2 ⟨_, denotes_default hdefault, rfl⟩ with
      | flag h =>
        rw [htakes] at h
        cases h
      | value h hv =>
        rw [htakes, Takes.value.injEq] at h
        rw [h, hv]
    simp only [supply, htakes, hdefault, hset, List.contains_iff_mem]
    by_cases hgiven : m.parameter.shown ∈ g
    · exact ⟨s, if_pos hgiven, by rw [Settings.filled, if_pos (.inr hgiven)], fun _ _ => rfl⟩
    · refine ⟨_, if_neg hgiven, ?_, fun n hn => s.get_put_ne hn _⟩
      rw [Settings.get_put_self, Settings.filled, if_neg (by simp [hdefault, hgiven])]

/-- Defaults fill in what was not given and has one. -/
theorem supply_all (g : List String) {ns : List Name} (hns : ns.Nodup) (s : Settings) :
    ∃ t, (ns.map Name.parameter).foldlM (supply g) s = .ok t ∧
      (∀ n ∈ ns, t.get n = s.filled g n) ∧ ∀ n, n ∉ ns → t.get n = s.get n := by
  induction ns generalizing s with
  | nil => exact ⟨s, rfl, nofun, fun _ _ => rfl⟩
  | cons m ns ih =>
    obtain ⟨hm, hns⟩ := List.nodup_cons.1 hns
    obtain ⟨u, hu, hfilled, hothers⟩ := supply_parameter g s m
    obtain ⟨t, ht, hin, hout⟩ := ih hns u
    refine ⟨t, ?_, fun n hn => ?_, fun n hn => ?_⟩
    · rw [List.map_cons, List.foldlM_cons, hu]
      exact ht
    · rcases List.mem_cons.1 hn with rfl | hn
      · rw [hout n hm, hfilled]
      · have hne : n ≠ m := fun hnm => hm (hnm ▸ hn)
        rw [hin n hn, Settings.filled, Settings.filled, hothers n hne]
    · rw [List.mem_cons, not_or] at hn
      rw [hout n hn.2, hothers n hn.1]

/-! ### All options -/

abbrev Setting := (n : Name) × n.Field

def Gives (u : Use Settings) (x : Setting) : Prop :=
  u.1 = x.1.parameter ∧ x.1.Denotes u.2 x.2

/-- Arguments spell out these options, in this order. -/
def Describes (args : List Bytes) (given : List Setting) : Prop :=
  ∃ us, Spells declared args us ∧ List.Forall₂ Gives us given

/-- What was given is in the settings, and for what was not, the default. -/
structure Settings.Holds (s : Settings) (given : List Setting) : Prop where
  mentioned {x : Setting} (hx : x ∈ given) : s.get x.1 = x.2
  others {n : Name} (hn : n ∉ given.map Sigma.fst) : s.get n = ({} : Settings).get n

theorem Settings.Holds.unique {s t : Settings} {given : List Setting} (hs : s.Holds given)
    (ht : t.Holds given) : s = t := by
  refine Settings.ext_get fun n => ?_
  by_cases hn : n ∈ given.map Sigma.fst
  · obtain ⟨x, hx, rfl⟩ := List.mem_map.1 hn
    rw [hs.mentioned hx, ht.mentioned hx]
  · rw [hs.others hn, ht.others hn]

theorem Settings.Holds.perm {s : Settings} {given given' : List Setting} (hs : s.Holds given)
    (h : given.Perm given') : s.Holds given' where
  mentioned hx := hs.mentioned (h.mem_iff.2 hx)
  others hn := hs.others fun hmem => hn ((h.map Sigma.fst).mem_iff.1 hmem)

/-- A parameter in use is that of an option; to ask for help is none. -/
theorem exists_name {p : Parameter Settings} (h : p.Usable declared) :
    ∃ n : Name, p = n.parameter := by
  obtain ⟨hp, htakes⟩ := h
  rcases List.mem_append.1 hp with hp | hp
  · rw [settingsParameters_eq] at hp
    obtain ⟨n, -, rfl⟩ := List.mem_map.1 hp
    exact ⟨n, rfl⟩
  · rw [List.mem_singleton] at hp
    subst hp
    obtain ⟨set, h⟩ | ⟨set, h⟩ := htakes <;> cases h

def putAll (s : Settings) (given : List Setting) : Settings :=
  given.foldl (fun s x => s.put x.1 x.2) s

theorem get_putAll_of_notMem {s : Settings} {given : List Setting} {n : Name}
    (h : n ∉ given.map Sigma.fst) : (putAll s given).get n = s.get n := by
  induction given generalizing s with
  | nil => rfl
  | cons x given ih =>
    rw [List.map_cons, List.mem_cons, not_or] at h
    rw [putAll, List.foldl_cons, ← putAll, ih h.2, s.get_put_ne h.1]

theorem get_putAll_of_mem {s : Settings} {given : List Setting} {x : Setting}
    (hnodup : (given.map Sigma.fst).Nodup) (h : x ∈ given) : (putAll s given).get x.1 = x.2 := by
  induction given generalizing s with
  | nil => cases h
  | cons y given ih =>
    rw [List.map_cons, List.nodup_cons] at hnodup
    rw [putAll, List.foldl_cons, ← putAll]
    rcases List.mem_cons.1 h with rfl | h
    · rw [get_putAll_of_notMem hnodup.1, Settings.get_put_self]
    · exact ih hnodup.2 h

/-- Parameters can be applied one after the other if each gives an option, and none twice. -/
theorem applyAll_iff {s t : Progress Settings} {us : List (Use Settings)}
    (hus : ∀ u ∈ us, ∃ n : Name, u.1 = n.parameter) : s.applyAll us = .ok t ↔
      ∃ given, List.Forall₂ Gives us given ∧ (given.map Sigma.fst).Nodup ∧
        (∀ x ∈ given, x.1.parameter.shown ∉ s.given) ∧
        t = { s with
          settings := putAll s.settings given
          given := (given.map fun x => x.1.parameter.shown).reverse ++ s.given } := by
  induction us generalizing s with
  | nil =>
    constructor
    · intro h
      cases h
      exact ⟨[], .nil, List.nodup_nil, nofun, rfl⟩
    · rintro ⟨_, ⟨⟩, -, -, rfl⟩
      rfl
  | cons u us ih =>
    obtain ⟨⟨n, hn⟩, hus⟩ := List.forall_mem_cons.1 hus
    rw [Progress.applyAll_cons]
    constructor
    · rintro ⟨w, hw, ht⟩
      obtain ⟨hgiven, change, hchange, rfl⟩ := Progress.apply_eq_ok_iff.1 hw
      rw [hn] at hgiven hchange
      obtain ⟨x, hx, rfl⟩ := changes_iff.1 hchange
      obtain ⟨given, hall, hnodup, hfresh, rfl⟩ := (ih hus).1 ht
      refine ⟨⟨n, x⟩ :: given, .cons ⟨hn, hx⟩ hall, ?_, ?_, ?_⟩
      · refine List.nodup_cons.2 ⟨fun hmem => ?_, hnodup⟩
        obtain ⟨y, hy, rfl⟩ := List.mem_map.1 hmem
        exact hfresh y hy (by rw [hn]; exact List.mem_cons_self)
      · refine List.forall_mem_cons.2 ⟨hgiven, fun y hy hmem => ?_⟩
        exact hfresh y hy (List.mem_cons_of_mem _ hmem)
      · simp [putAll, hn]
    · rintro ⟨_, hall, hnodup, hfresh, rfl⟩
      cases hall with
      | @cons _ x _ given hx hall =>
      obtain ⟨hp, hdenotes⟩ := hx
      rw [List.map_cons, List.nodup_cons] at hnodup
      obtain ⟨hgiven, hfresh⟩ := List.forall_mem_cons.1 hfresh
      refine ⟨_, Progress.apply_eq_ok_iff.2 ⟨hp ▸ hgiven, _,
        hp ▸ changes_iff.2 ⟨_, hdenotes, rfl⟩, rfl⟩, ?_⟩
      refine (ih hus).2 ⟨given, hall, hnodup.2, fun y hy hmem => ?_, ?_⟩
      · rcases List.mem_cons.1 hmem with hshown | hmem
        · rw [hp] at hshown
          exact hnodup.1 (shown_injective hshown ▸ List.mem_map_of_mem hy)
        · exact hfresh y hy hmem
      · simp [putAll, hp]

theorem shown_mem_iff {given : List Setting} :
    n.parameter.shown ∈ (given.map fun x => x.1.parameter.shown).reverse ++ [] ↔
      n ∈ given.map Sigma.fst := by
  simp only [List.append_nil, List.mem_reverse, List.mem_map]
  constructor
  · rintro ⟨x, hx, hshown⟩
    exact ⟨x, hx, shown_injective hshown⟩
  · rintro ⟨x, hx, rfl⟩
    exact ⟨x, hx, rfl⟩

/-- The defaults make of blank settings with the options that were given what they should be. -/
theorem holds_supplied {given : List Setting} (hnodup : (given.map Sigma.fst).Nodup) :
    ∃ s : Settings, s.Holds given ∧
      declared.foldlM (supply ((given.map fun x => x.1.parameter.shown).reverse ++ []))
        (putAll .blank given) = .ok s := by
  obtain ⟨s, hs, hfilled, -⟩ :=
    supply_all ((given.map fun x => x.1.parameter.shown).reverse ++ [])
      (show Name.all.Nodup by decide) (putAll .blank given)
  have hfilled : ∀ n, s.get n = _ := fun n => hfilled n n.mem_all
  refine ⟨s, ⟨fun {x} hx => ?_, fun {n} hn => ?_⟩, ?_⟩
  · have hmem := List.mem_map_of_mem hx (f := Sigma.fst)
    rw [hfilled, Settings.filled, if_pos (.inr (shown_mem_iff.2 hmem)),
      get_putAll_of_mem hnodup hx]
  · rw [hfilled, Settings.filled]
    split_ifs with h
    · have hdefault := h.resolve_right fun hmem => hn (shown_mem_iff.1 hmem)
      rw [get_putAll_of_notMem hn, blank_get hdefault]
    · rfl
  · rw [declared, settingsParameters_eq, List.foldlM_append, hs]
    rfl

/-- Arguments are accepted as settings if they spell out options, none twice, and the settings hold
those and defaults. -/
theorem settings_eq_ok_iff {args : List Bytes} {s : Settings} : settings args = .ok s ↔
    ∃ given, Describes args given ∧ (given.map Sigma.fst).Nodup ∧ s.Holds given := by
  rw [settings, ← declared, parse_eq_ok_iff wellNamed_declared]
  constructor
  · rintro ⟨us, u, hspells, hus, -, hs⟩
    obtain ⟨given, hall, hnodup, -, rfl⟩ :=
      (applyAll_iff fun u hu => exists_name (hspells.usable u hu)).1 hus
    obtain ⟨t, hholds, ht⟩ := holds_supplied hnodup
    cases hs.symm.trans ht
    exact ⟨given, ⟨us, hspells, hall⟩, hnodup, hholds⟩
  · rintro ⟨given, ⟨us, hspells, hall⟩, hnodup, hholds⟩
    obtain ⟨t, ht, hsupplied⟩ := holds_supplied hnodup
    obtain rfl := hholds.unique ht
    have hus : (⟨.blank, [], none, false⟩ : Progress Settings).applyAll us = .ok _ :=
      (applyAll_iff fun u hu => exists_name (hspells.usable u hu)).2
        ⟨given, hall, hnodup, fun _ _ => List.not_mem_nil, rfl⟩
    have hoptional : ∀ p ∈ declared, ¬p.required = true := by decide
    exact ⟨us, _, hspells, hus, fun p hp h => absurd h (hoptional p hp), hsupplied⟩

/-- Arguments are accepted exactly if they spell out options, each at most once and with a value
that it can have. The settings then hold what was given, and for the rest what `Options` and
`LogOptions` have by default. So neither the order nor the spelling of options matters. -/
theorem settings_grammar :
    (∀ (args : List Bytes) (s : Settings), settings args = .ok s ↔
      ∃ given, Describes args given ∧ (given.map Sigma.fst).Nodup ∧ s.Holds given) ∧
    ∀ (args args' : List Bytes) (given given' : List Setting), Describes args given →
      Describes args' given' → (given.map Sigma.fst).Nodup → given.Perm given' →
        ∃ s, s.Holds given ∧ settings args = .ok s ∧ settings args' = .ok s := by
  refine ⟨fun _ _ => settings_eq_ok_iff, fun args args' given given' h h' hnodup hperm => ?_⟩
  obtain ⟨s, hs, -⟩ := holds_supplied hnodup
  have hnodup' : (given'.map Sigma.fst).Nodup := (hperm.map Sigma.fst).nodup_iff.1 hnodup
  exact ⟨s, hs, settings_eq_ok_iff.2 ⟨given, h, hnodup, hs⟩,
    settings_eq_ok_iff.2 ⟨given', h', hnodup', hs.perm hperm⟩⟩

def clustered : List Bytes := ["-gcx"].map Utf8.ofString

def spelledOut : List Bytes := ["--config-file", "x", "--git-mode", "--"].map Utf8.ofString

theorem describes_clustered :
    Describes clustered [⟨.gitMode, true⟩, ⟨.configFile, Path.ofString "x"⟩] := by
  have hargs : clustered =
      [hyphen :: (Utf8.encodeChar 'g' ++ [] ++ Utf8.encodeChar 'c' ++ Path.ofString "x")] := by
    decide
  have hflags : Flags declared (Utf8.encodeChar 'g' ++ []) [(Name.gitMode.parameter, none)] :=
    .cons (Name.parameter_mem _) rfl ⟨_, rfl⟩ .nil
  have hcluster : Cluster declared (Utf8.encodeChar 'g' ++ [] ++ Utf8.encodeChar 'c') _
      Name.configFile.parameter := .letters hflags (Name.parameter_mem _) rfl ⟨_, rfl⟩
  rw [hargs]
  exact ⟨_, .whole (.attached hcluster (by decide) (by decide)) .nil,
    .cons ⟨rfl, rfl⟩ (.cons ⟨rfl, _, rfl, by decide, rfl⟩ .nil)⟩

theorem describes_spelledOut :
    Describes spelledOut [⟨.configFile, Path.ofString "x"⟩, ⟨.gitMode, true⟩] := by
  have hargs : spelledOut = [hyphen :: hyphen :: Utf8.ofString "config-file", Path.ofString "x",
      hyphen :: hyphen :: Utf8.ofString "git-mode", [hyphen, hyphen]] := by
    decide
  have hfile : Opening declared (hyphen :: hyphen :: Utf8.ofString "config-file") []
      Name.configFile.parameter := .long (Name.parameter_mem _) rfl ⟨_, rfl⟩
  have hgit : Whole declared (hyphen :: hyphen :: Utf8.ofString "git-mode")
      [(Name.gitMode.parameter, none)] := .longFlag (Name.parameter_mem _) rfl ⟨_, rfl⟩
  rw [hargs]
  exact ⟨_, .opening hfile (.inl (by decide)) (.whole hgit .stop),
    .cons ⟨rfl, _, rfl, by decide, rfl⟩ (.cons ⟨rfl, rfl⟩ .nil)⟩

theorem settings_grammar_respelled : ∃ s : Settings,
    settings clustered = .ok s ∧ settings spelledOut = .ok s ∧
      s.options.gitMode = true ∧ s.options.userlist = "controller" := by
  obtain ⟨s, hs, hclustered, hspelledOut⟩ := settings_grammar.2 _ _ _ _ describes_clustered
    describes_spelledOut (by decide) (List.Perm.swap _ _ _)
  exact ⟨s, hclustered, hspelledOut, hs.mentioned List.mem_cons_self,
    hs.others (n := .userlist) (by decide)⟩

end NodeConfig.CommandLine
