import Mathlib
import NodeConfig.NodeName
import NodeConfig.Proofs.Text.Utf8

namespace NodeConfig

namespace Stamp

/-! ### Digits -/

theorem digitChar_lt : ∀ n < 16, ∀ m < n, Nat.digitChar m < Nat.digitChar n := by decide

/-- Digits of one width are in the order of their numbers; what follows them decides between
equal ones. -/
theorem hex_append_lt {width m n : ℕ} {cs ds : List Char} (hn : n < 16 ^ width)
    (h : m < n ∨ m = n ∧ cs < ds) : hex width m ++ cs < hex width n ++ ds := by
  induction width generalizing m n cs ds with
  | zero =>
    have hlt : cs < ds := by
      rcases h with h | h
      · omega
      · exact h.2
    exact hlt
  | succ width ih =>
    have hq : n / 16 < 16 ^ width := Nat.div_lt_of_lt_mul (by rwa [pow_succ'] at hn)
    simp only [hex, List.append_assoc, List.singleton_append]
    apply ih hq
    by_cases hm : m / 16 < n / 16
    · exact .inl hm
    · refine .inr ⟨by omega, List.cons_lt_cons_iff.2 ?_⟩
      rcases h with h | ⟨rfl, h⟩
      · exact .inl (digitChar_lt _ (Nat.mod_lt _ (by decide)) _ (by omega))
      · exact .inr ⟨rfl, h⟩

theorem group_lt {width m n : ℕ} {cs ds : List Char} (hn : n < 16 ^ width)
    (h : m < n ∨ m = n ∧ cs < ds) : hex width m ++ '-' :: cs < hex width n ++ '-' :: ds := by
  apply hex_append_lt hn
  exact h.imp_right fun ⟨he, hlt⟩ => ⟨he, List.cons_lt_cons_iff.2 (.inr ⟨rfl, hlt⟩)⟩

theorem hex_lt {width m n : ℕ} (hn : n < 16 ^ width) (h : m < n) : hex width m < hex width n := by
  have hlt : hex width m ++ [] < hex width n ++ [] := hex_append_lt hn (.inl h)
  rwa [List.append_nil, List.append_nil] at hlt

theorem nameChars_eq (s : Stamp) (noise : ℕ) :
    s.nameChars noise =
      hex 8 (s.millis / pow2 16) ++ '-' :: (hex 4 (s.millis % pow2 16) ++ '-' ::
        (hex 4 (7 * pow2 12 + s.counter / pow2 30 % pow2 12) ++ '-' ::
          (hex 4 (2 * pow2 14 + s.counter / pow2 16 % pow2 14) ++ '-' ::
            hex 12 (s.counter % pow2 16 * pow2 32 + noise % pow2 32)))) := by
  simp [nameChars, List.intercalate]

/-- A hexadecimal digit is a decimal one or a small letter up to `f`. -/
theorem digitChar_lower (n : ℕ) :
    n % 16 < 10 ∨ 'a' ≤ Nat.digitChar (n % 16) ∧ Nat.digitChar (n % 16) ≤ 'f' := by
  have h : ∀ d < 16, d < 10 ∨ 'a' ≤ Nat.digitChar d ∧ Nat.digitChar d ≤ 'f' := by decide
  exact h _ (Nat.mod_lt _ (by decide))

theorem version_digit (k : ℕ) : (7 * pow2 12 + k % pow2 12) / 16 / 16 / 16 % 16 = 7 := by
  rw [show pow2 12 = 4096 from rfl]
  omega

theorem variant_digit (k : ℕ) :
    8 ≤ (2 * pow2 14 + k % pow2 14) / 16 / 16 / 16 % 16 ∧
      (2 * pow2 14 + k % pow2 14) / 16 / 16 / 16 % 16 < 12 := by
  rw [show pow2 14 = 16384 from rfl]
  omega

/-- A name has its form whatever the stamp: numbers too large for their group lose the digits in
front. -/
theorem isNodeName_nameChars (s : Stamp) (noise : ℕ) : isNodeName (s.nameChars noise) = true := by
  have h := variant_digit (s.counter / pow2 16)
  rw [nameChars_eq]
  simp [hex, isNodeName, digitChar_lower, version_digit]
  omega

/-! ### Order -/

/-- One stamp comes before another: by the time, and at one time by the counter. -/
def Before (s t : Stamp) : Prop :=
  s.millis < t.millis ∨ s.millis = t.millis ∧ s.counter < t.counter

theorem Before.trans {s t u : Stamp} (h : s.Before t) (h' : t.Before u) : s.Before u := by
  unfold Before at *
  omega

theorem Before.millis_le {s t : Stamp} (h : s.Before t) : s.millis ≤ t.millis := by
  unfold Before at h
  omega

theorem before_next (s : Stamp) (r : Reading) : s.Before (s.next r) := by
  unfold next Before
  split_ifs with h1 h2
  · exact .inl h1
  · exact .inr ⟨rfl, Nat.lt_succ_self _⟩
  · exact .inl (Nat.lt_succ_self _)

theorem counter_seeded_lt (millis : ℕ) (r : Reading) : (seeded millis r).counter < pow2 41 :=
  Nat.mod_lt _ (Nat.two_pow_pos 41)

theorem counter_next_lt (s : Stamp) (r : Reading) : (s.next r).counter < pow2 42 := by
  have h : pow2 41 < pow2 42 := by decide
  unfold next
  split_ifs with h1 h2
  · exact (counter_seeded_lt _ _).trans h
  · exact h2
  · exact (counter_seeded_lt _ _).trans h

/-- The earlier of two stamps has the smaller name, with any noise in the two. The groups are
compared from the left: two for the time, then three for the counter. -/
theorem nameChars_lt {s t : Stamp} (h : s.Before t) (hm : t.millis < pow2 48)
    (hc : t.counter < pow2 42) (noise noise' : ℕ) : s.nameChars noise < t.nameChars noise' := by
  have h12 : pow2 12 = 4096 := rfl
  have h14 : pow2 14 = 16384 := rfl
  have h16 : pow2 16 = 65536 := rfl
  have h30 : pow2 30 = 1073741824 := rfl
  have h32 : pow2 32 = 4294967296 := rfl
  have h42 : pow2 42 = 4398046511104 := rfl
  have h48 : pow2 48 = 281474976710656 := rfl
  unfold Before at h
  rw [nameChars_eq, nameChars_eq]
  simp only [h12, h14, h16, h30, h32, h42, h48] at *
  apply group_lt (by omega)
  by_cases h1 : s.millis / 65536 < t.millis / 65536
  · exact .inl h1
  refine .inr ⟨by omega, group_lt (by omega) ?_⟩
  by_cases h2 : s.millis % 65536 < t.millis % 65536
  · exact .inl h2
  have he : s.millis = t.millis := by omega
  have hlt : s.counter < t.counter := by omega
  refine .inr ⟨by omega, group_lt (by omega) ?_⟩
  by_cases h3 : s.counter / 1073741824 < t.counter / 1073741824
  · exact .inl (by omega)
  refine .inr ⟨by omega, group_lt (by omega) ?_⟩
  by_cases h4 : s.counter / 65536 < t.counter / 65536
  · exact .inl (by omega)
  · exact .inr ⟨by omega, hex_lt (by omega) (by omega)⟩

theorem name_lt {s t : Stamp} (h : s.Before t) (hm : t.millis < pow2 48)
    (hc : t.counter < pow2 42) (noise noise' : ℕ) :
    Utf8.ofString (s.name noise) < Utf8.ofString (t.name noise') := by
  rw [Utf8.ofString_lt_iff, String.lt_iff_toList_lt, name, name, String.toList_ofList,
    String.toList_ofList]
  exact nameChars_lt h hm hc noise noise'

end Stamp

namespace NameSource

variable {src : NameSource} {n : ℕ} {name : String}

theorem mintMany_succ (src : NameSource) (n : ℕ) :
    src.mintMany (n + 1) =
      (src.mint.1 :: (src.mint.2.mintMany n).1, (src.mint.2.mintMany n).2) := rfl

theorem mint_last (src : NameSource) :
    src.mint.2.last = src.last.next (src.readings src.used) := rfl

theorem mint_name (src : NameSource) :
    src.mint.1 = src.mint.2.last.name (src.readings src.used).noise := rfl

theorem length_mintMany (src : NameSource) (n : ℕ) : (src.mintMany n).1.length = n := by
  induction n generalizing src with
  | zero => rfl
  | succ n ih => rw [mintMany_succ, List.length_cons, ih]

theorem millis_le_mintMany (src : NameSource) (n : ℕ) :
    src.last.millis ≤ (src.mintMany n).2.last.millis := by
  induction n generalizing src with
  | zero => exact le_rfl
  | succ n ih => exact (Stamp.before_next _ _).millis_le.trans (ih src.mint.2)

/-- A name that is made bears a stamp after the last one, at a time up to that of the last name. -/
theorem mem_mintMany (h : name ∈ (src.mintMany n).1) :
    ∃ t noise, name = Stamp.name t noise ∧ src.last.Before t ∧ t.counter < pow2 42 ∧
      t.millis ≤ (src.mintMany n).2.last.millis := by
  induction n generalizing src with
  | zero => exact absurd h List.not_mem_nil
  | succ n ih =>
    have hb : src.last.Before src.mint.2.last := Stamp.before_next _ _
    rw [mintMany_succ] at h ⊢
    rcases List.mem_cons.1 h with rfl | h
    · exact ⟨src.mint.2.last, _, mint_name src, hb, Stamp.counter_next_lt _ _,
        millis_le_mintMany src.mint.2 n⟩
    · obtain ⟨t, noise, hname, ht, hc, hm⟩ := ih h
      exact ⟨t, noise, hname, hb.trans ht, hc, hm⟩

theorem pairwise_mintMany (hm : (src.mintMany n).2.last.millis < pow2 48) :
    (src.mintMany n).1.Pairwise fun s t => Utf8.ofString s < Utf8.ofString t := by
  induction n generalizing src with
  | zero => exact .nil
  | succ n ih =>
    rw [mintMany_succ] at hm ⊢
    refine .cons ?_ (ih hm)
    intro name hname
    obtain ⟨t, noise, rfl, ht, hc, hle⟩ := mem_mintMany hname
    rw [mint_name]
    exact Stamp.name_lt ht (hle.trans_lt hm) hc _ _

/-! ### How far the time runs ahead of the clock -/

/-- The time is that of a clock up to `latest` and some steps of its own. A step is taken when the
counter is at its end, so that it costs the half of the counter that a fresh one leaves. -/
def Paced (latest : ℕ) (src : NameSource) : Prop :=
  ∃ steps, src.last.millis ≤ latest + steps ∧ steps * pow2 41 ≤ src.used ∧
    src.last.counter + steps * pow2 41 < pow2 41 + src.used

theorem paced_fresh (latest : ℕ) (readings : ℕ → Reading) :
    Paced latest (fresh readings) := by
  have h41 : 0 < pow2 41 := Nat.two_pow_pos 41
  refine ⟨0, Nat.zero_le _, (Nat.zero_mul _).le, ?_⟩
  show 0 + 0 * pow2 41 < pow2 41 + 0
  omega

theorem Paced.mint {latest : ℕ} (h : Paced latest src)
    (hr : (src.readings src.used).millis ≤ latest) : Paced latest src.mint.2 := by
  have h42 : pow2 42 = 2 * pow2 41 := rfl
  obtain ⟨steps, hm, hs, hc⟩ := h
  generalize hread : src.readings src.used = r at hr
  have hlast : src.mint.2.last = src.last.next r := by rw [mint_last, hread]
  have hused : src.mint.2.used = src.used + 1 := rfl
  have hseed : ∀ millis, (Stamp.seeded millis r).counter < pow2 41 :=
    fun millis => Stamp.counter_seeded_lt millis r
  unfold Paced
  rw [hlast, hused]
  unfold Stamp.next
  split_ifs with h1 h2
  · -- The clock has moved on: no step of the generator's own is left.
    have := hseed r.millis
    exact ⟨0, hr, by omega, by omega⟩
  · exact ⟨steps, hm, by omega, by show src.last.counter + 1 + _ < _; omega⟩
  · have := hseed (src.last.millis + 1)
    have hstep : (steps + 1) * pow2 41 = steps * pow2 41 + pow2 41 := Nat.succ_mul ..
    exact ⟨steps + 1, by show src.last.millis + 1 ≤ _; omega, by omega, by omega⟩

theorem Paced.mintMany {latest : ℕ} (h : Paced latest src)
    (hr : ∀ i < n, (src.readings (src.used + i)).millis ≤ latest) :
    Paced latest (src.mintMany n).2 := by
  induction n generalizing src with
  | zero => exact h
  | succ n ih =>
    rw [mintMany_succ]
    apply ih (h.mint (hr 0 (Nat.succ_pos n)))
    intro i hi
    show (src.readings (src.used + 1 + i)).millis ≤ latest
    rw [Nat.add_assoc, Nat.add_comm 1]
    exact hr (i + 1) (Nat.succ_lt_succ hi)

theorem used_mintMany (src : NameSource) (n : ℕ) :
    (src.mintMany n).2.used = src.used + n := by
  induction n generalizing src with
  | zero => rfl
  | succ n ih =>
    rw [mintMany_succ, ih]
    show src.used + 1 + n = src.used + (n + 1)
    omega

/-- The time of `n` names keeps to the 48 bits when the clock leaves a millisecond to spare for
every `2 ^ 41` of them. -/
theorem millis_mintMany_lt {readings : ℕ → Reading}
    (h : ∀ i < n, (readings i).millis + n / pow2 41 < pow2 48) :
    ((fresh readings).mintMany n).2.last.millis < pow2 48 := by
  have hspare : n / pow2 41 < pow2 48 := by
    cases n with
    | zero => decide
    | succ n => exact (Nat.le_add_left _ _).trans_lt (h 0 (Nat.succ_pos n))
  have hr : ∀ i < n, ((fresh readings).readings ((fresh readings).used + i)).millis ≤
      pow2 48 - 1 - n / pow2 41 := by
    intro i hi
    have := h i hi
    show (readings (0 + i)).millis ≤ _
    rw [Nat.zero_add]
    omega
  obtain ⟨steps, hm, hs, -⟩ := (paced_fresh _ readings).mintMany hr
  have hsteps : steps ≤ n / pow2 41 := by
    rw [used_mintMany] at hs
    exact (Nat.le_div_iff_mul_le (Nat.two_pow_pos 41)).2 (hs.trans_eq (Nat.zero_add n))
  omega

/-- Names made in one process have their form and ascend as bytes, so that no two are the same,
whatever the seeds and the noise and also where the clock stands still or goes back. The bound on
the last millisecond is the generator's assumption that the time in a name fits its 48 bits. It
holds when the readings leave a millisecond to spare for every `2 ^ 41` names, so fewer names than
that need nothing but readings of 48 bits. -/
theorem names_ascend (readings : ℕ → Reading) (n : ℕ) :
    let minted := (fresh readings).mintMany n
    minted.1.length = n ∧ (∀ name ∈ minted.1, isNodeName name.toList = true) ∧
      ((∀ i < n, (readings i).millis + n / pow2 41 < pow2 48) →
        minted.2.last.millis < pow2 48) ∧
      (minted.2.last.millis < pow2 48 →
        minted.1.Pairwise (fun s t => Utf8.ofString s < Utf8.ofString t) ∧ minted.1.Nodup) := by
  refine ⟨length_mintMany _ n, ?_, millis_mintMany_lt, ?_⟩
  · intro name hname
    obtain ⟨t, noise, rfl, -⟩ := mem_mintMany hname
    rw [Stamp.name, String.toList_ofList]
    exact Stamp.isNodeName_nameChars t noise
  · intro hm
    have hpair := pairwise_mintMany hm
    refine ⟨hpair, hpair.imp ?_⟩
    rintro s t hlt rfl
    exact List.lt_irrefl _ hlt

/-- The clock stands still and then goes back, with smaller noise each time. -/
theorem names_ascend_clock_back :
    let readings : ℕ → Reading := fun i => ⟨[7, 7, 5, 9].getD i 9, pow2 41 + 1, 300 - i⟩
    let minted := (fresh readings).mintMany 4
    (∀ i < 4, (readings i).millis + 4 / pow2 41 < pow2 48) ∧
      minted.1 =
        ["00000000-0007-7000-8000-00010000012c", "00000000-0007-7000-8000-00020000012b",
          "00000000-0007-7000-8000-00030000012a", "00000000-0009-7000-8000-000100000129"] ∧
      minted.1.Pairwise (fun s t => Utf8.ofString s < Utf8.ofString t) ∧ minted.1.Nodup := by
  intro readings minted
  have hr : ∀ i < 4, (readings i).millis + 4 / pow2 41 < pow2 48 := by decide
  obtain ⟨-, -, hspare, hascend⟩ := names_ascend readings 4
  exact ⟨hr, by decide, hascend (hspare hr)⟩

end NameSource

end NodeConfig
