import Mathlib
import NodeConfig.Identity.Defaults
import NodeConfig.Proofs.Identity

namespace NodeConfig

namespace Stamp

/-- A name has hyphens in it. -/
theorem name_ne_empty (s : Stamp) (noise : ℕ) : s.name noise ≠ "" := by
  intro h
  have hchars := congrArg String.toList h
  rw [name, String.toList_ofList] at hchars
  have hmem : '-' ∈ s.nameChars noise := by simp [nameChars, List.intercalate]
  simp [hchars] at hmem

end Stamp

namespace NameSource

theorem mint_ne_empty (src : NameSource) : src.mint.1 ≠ "" := Stamp.name_ne_empty _ _

end NameSource

def TextField.fallback (name : String) : TextField → String
  | .mode => Identity.defaultMode
  | .certificatePath => Identity.defaultCertificatePath
  | .certificateKeyPath => Identity.defaultCertificateKeyPath
  | .name => name
  | _ => ""

/-- All defaults but the name are the same for every node. -/
theorem TextField.fallback_congr {f : TextField} (hf : f ≠ .name) (name name' : String) :
    f.fallback name = f.fallback name' := by
  cases f
  case name => exact absurd rfl hf
  all_goals rfl

namespace Identity

/-- No field is empty that a node cannot do without. -/
structure Complete (x : Identity) : Prop where
  mode : x.mode ≠ ""
  certificatePath : x.certificatePath ≠ ""
  certificateKeyPath : x.certificateKeyPath ≠ ""
  name : x.name ≠ ""

theorem fill_of_ne {x : Identity} {f : TextField} (h : x.get f ≠ "") (s : String) :
    x.fill f s = x := if_neg h

theorem get_fill (x : Identity) (f g : TextField) (s : String) :
    (x.fill f s).get g = if f = g ∧ x.get f = "" then s else x.get g := by
  unfold fill
  by_cases h : x.get f = ""
  · simp [h, get_set]
  · simp [h]

/-- The identity with the defaults that are the same for every node. -/
def filled (x : Identity) : Identity :=
  ((x.fill .mode defaultMode).fill .certificatePath defaultCertificatePath).fill
    .certificateKeyPath defaultCertificateKeyPath

theorem certFetched_fill (x : Identity) (f : TextField) (s : String) :
    (x.fill f s).certFetched = x.certFetched := by
  unfold fill
  split
  · exact certFetched_set x f s
  · rfl

theorem name_filled (x : Identity) : x.filled.name = x.name := by
  have h : x.filled.get .name = x.get .name := by simp [filled, get_fill]
  exact h

/-- A name is filled in as the other defaults are, and made only for an identity without one. -/
theorem withDefaults_eq (x : Identity) (names : NameSource) :
    (x.withDefaults names).identity = x.filled.fill .name names.mint.1 ∧
      (x.withDefaults names).names = if x.name = "" then names.mint.2 else names := by
  have hname := x.name_filled
  by_cases h : x.name = ""
  · rw [if_pos h]
    rw [h] at hname
    have hfill : x.filled.fill .name names.mint.1 = { x.filled with name := names.mint.1 } :=
      if_pos hname
    rw [hfill]
    rw [filled] at hname ⊢
    simp only [withDefaults, if_pos hname, and_self]
  · rw [if_neg h]
    rw [← hname] at h
    rw [fill_of_ne (f := .name) h]
    rw [filled] at h ⊢
    simp only [withDefaults, if_neg h, and_self]

/-- A field keeps its text unless that is empty. -/
theorem get_withDefaults (x : Identity) (names : NameSource) (f : TextField) :
    (x.withDefaults names).identity.get f =
      if x.get f = "" then f.fallback names.mint.1 else x.get f := by
  rw [(x.withDefaults_eq names).1]
  simp only [filled, get_fill]
  cases f <;> simp [TextField.fallback]

theorem certFetched_withDefaults (x : Identity) (names : NameSource) :
    (x.withDefaults names).identity.certFetched = x.certFetched := by
  rw [(x.withDefaults_eq names).1, filled]
  simp only [certFetched_fill]

/-- Nothing is counted, and nothing that happens is a warning. -/
theorem report_withDefaults (x : Identity) (names : NameSource) :
    (x.withDefaults names).report.counts = [] ∧
      ∀ e ∈ (x.withDefaults names).report.events, e.level = .info ∨ e.level = .debug := by
  by_cases hmode : x.mode = "" <;> by_cases hname : x.filled.name = "" <;>
    (rw [filled] at hname; simp [withDefaults, hmode, hname])

theorem get_withDefaults_ne_empty (x : Identity) (names : NameSource) {f : TextField}
    (hf : f.fallback names.mint.1 ≠ "") : (x.withDefaults names).identity.get f ≠ "" := by
  rw [get_withDefaults]
  split
  · exact hf
  · next h => exact h

/-- Defaults leave no field empty that a node cannot do without. -/
theorem complete_withDefaults (x : Identity) (names : NameSource) :
    (x.withDefaults names).identity.Complete where
  mode := x.get_withDefaults_ne_empty names (f := .mode) (show defaultMode ≠ "" by decide)
  certificatePath := x.get_withDefaults_ne_empty names (f := .certificatePath)
    (show defaultCertificatePath ≠ "" by decide)
  certificateKeyPath := x.get_withDefaults_ne_empty names (f := .certificateKeyPath)
    (show defaultCertificateKeyPath ≠ "" by decide)
  name := x.get_withDefaults_ne_empty names (f := .name) names.mint_ne_empty

/-- A complete identity stays as it is: no name is made, and nothing is reported. -/
theorem withDefaults_of_complete {x : Identity} (h : x.Complete) (names : NameSource) :
    x.withDefaults names = ⟨x, names, .nothing⟩ := by
  have hfilled : ((x.fill .mode defaultMode).fill .certificatePath defaultCertificatePath).fill
      .certificateKeyPath defaultCertificateKeyPath = x := by
    rw [fill_of_ne (f := .mode) h.mode, fill_of_ne (f := .certificatePath) h.certificatePath,
      fill_of_ne (f := .certificateKeyPath) h.certificateKeyPath]
  simp only [withDefaults, hfilled, if_neg h.mode, if_neg h.name]

end Identity

end NodeConfig
