import Mathlib
import NodeConfig.Identity

namespace NodeConfig

namespace Field

theorem ofKey?_key (f : Field) : ofKey? f.key = some f := by
  cases f with
  | text f => cases f <;> rfl
  | certFetched => rfl

theorem key_injective : Function.Injective key := by
  intro f g h
  have hf := ofKey?_key f
  rw [h, ofKey?_key] at hf
  exact (Option.some.inj hf).symm

theorem mem_all (f : Field) : f ∈ all := by
  cases f with
  | text f => cases f <;> decide
  | certFetched => decide

theorem nodup_all : all.Nodup := by decide

end Field

namespace Identity

theorem get_set (x : Identity) (f g : TextField) (s : String) :
    (x.set f s).get g = if f = g then s else x.get g := by
  cases f <;> cases g <;> rfl

@[simp] theorem certFetched_set (x : Identity) (f : TextField) (s : String) :
    (x.set f s).certFetched = x.certFetched := by
  cases f <;> rfl

/-- Texts and flag determine the identity. -/
theorem ext_get {x y : Identity} (ht : ∀ t, x.get t = y.get t)
    (hf : x.certFetched = y.certFetched) : x = y := by
  cases x
  cases y
  simp only [mk.injEq]
  exact ⟨ht .id, ht .mode, ht .bootstrapKey, ht .activeBootstrapKey, ht .token, ht .url, ht .port,
    ht .apiBasePath, ht .certificatePath, ht .certificateKeyPath, hf, ht .name, ht .status,
    ht .description⟩

def Agrees (x y : Identity) : Field → Prop
  | .text f => x.get f = y.get f
  | .certFetched => x.certFetched = y.certFetched

theorem Agrees.refl (x : Identity) (f : Field) : x.Agrees x f := by
  cases f with
  | text f => exact rfl
  | certFetched => exact rfl

theorem eq_of_agrees {x y : Identity} (h : ∀ f, x.Agrees y f) : x = y :=
  ext_get (fun t => h (.text t)) (h .certFetched)

theorem Agrees.trans {x y z : Identity} {f : Field} (h : x.Agrees y f) (h' : y.Agrees z f) :
    x.Agrees z f := by
  cases f with
  | text f => exact Eq.trans h h'
  | certFetched => exact Eq.trans h h'

theorem Agrees.symm {x y : Identity} {f : Field} (h : x.Agrees y f) : y.Agrees x f := by
  cases f with
  | text f => exact Eq.symm h
  | certFetched => exact Eq.symm h

def copy (x : Identity) (y : Identity) : Field → Identity
  | .text f => y.set f (x.get f)
  | .certFetched => { y with certFetched := x.certFetched }

theorem get_copy (x y : Identity) (f : Field) (t : TextField) :
    (x.copy y f).get t = if f = .text t then x.get t else y.get t := by
  cases f with
  | text f =>
    by_cases h : f = t
    · simp [copy, get_set, h]
    · simp [copy, get_set, h]
  | certFetched => cases t <;> rfl

theorem certFetched_copy (x y : Identity) (f : Field) :
    (x.copy y f).certFetched = if f = .certFetched then x.certFetched else y.certFetched := by
  cases f <;> simp [copy]

theorem agrees_copy (x y : Identity) (f : Field) : (x.copy y f).Agrees x f := by
  cases f with
  | text f => exact (get_copy x y _ f).trans (if_pos rfl)
  | certFetched => exact (certFetched_copy x y _).trans (if_pos rfl)

theorem agrees_copy_of_ne {f g : Field} (h : f ≠ g) (x y : Identity) :
    (x.copy y f).Agrees y g := by
  cases g with
  | text g => exact (get_copy x y f g).trans (if_neg h)
  | certFetched => exact (certFetched_copy x y f).trans (if_neg h)

theorem get_foldl_copy (x y : Identity) (fs : List Field) (t : TextField) :
    (fs.foldl x.copy y).get t = if .text t ∈ fs then x.get t else y.get t := by
  induction fs generalizing y with
  | nil => simp
  | cons f fs ih =>
    rw [List.foldl_cons, ih, get_copy]
    by_cases h : f = .text t
    · simp [h]
    · simp [h, Ne.symm h]

theorem certFetched_foldl_copy (x y : Identity) (fs : List Field) :
    (fs.foldl x.copy y).certFetched =
      if .certFetched ∈ fs then x.certFetched else y.certFetched := by
  induction fs generalizing y with
  | nil => simp
  | cons f fs ih =>
    rw [List.foldl_cons, ih, certFetched_copy]
    by_cases h : f = .certFetched
    · simp [h]
    · simp [h, Ne.symm h]

/-- All fields copied give the identity itself, whatever was there before. -/
theorem foldl_copy_all (x y : Identity) : Field.all.foldl x.copy y = x := by
  apply ext_get
  · intro t
    rw [get_foldl_copy, if_pos (Field.mem_all _)]
  · rw [certFetched_foldl_copy, if_pos (Field.mem_all _)]

end Identity

end NodeConfig
