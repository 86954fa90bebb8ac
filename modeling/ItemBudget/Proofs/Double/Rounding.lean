import ItemBudget.Decimal.Shortest
import ItemBudget.Proofs.Double.Packing

/-!
# Rounding to a double

Arithmetic and number texts are exact up to one rounding at the end. `rounded s v` is the double of
sign `s` nearest to a positive rational `v`: `v` is counted in units of `2 ^ quantum v`, and a half
goes to the even neighbour. The rounding of the format drops bits one by one and keeps two bits of
what it dropped; `Keeps` is the invariant of that, and `roundWithAccuracy_eq` is what comes of it.
-/

namespace ItemBudget.Double

open Float.Model (Format UnpackedFloat totalExponent)
open Float.Model.UnpackedFloat

/-! ## The nearest whole number -/

/-- The whole number nearest to a rational, a half to the even neighbour. -/
def roundEven (v : ℚ) : ℕ :=
  let n := ⌊v⌋₊
  if v < n + 1 / 2 then n else if n + 1 / 2 < v then n + 1 else n + n % 2

theorem roundEven_of_mem {v : ℚ} {n : ℕ} (hl : (n : ℚ) - 1 / 2 ≤ v) (hu : v ≤ n + 1 / 2)
    (htl : v = n - 1 / 2 → n % 2 = 0) (htu : v = n + 1 / 2 → n % 2 = 0) : roundEven v = n := by
  unfold roundEven
  rcases le_or_gt (n : ℚ) v with h | h
  · have hf : ⌊v⌋₊ = n := by
      rw [Nat.floor_eq_iff (le_trans (Nat.cast_nonneg n) h)]
      exact ⟨h, by linarith⟩
    rw [hf]
    rcases lt_or_eq_of_le hu with hlt | heq
    · rw [if_pos hlt]
    · rw [if_neg (by linarith), if_neg (by linarith), htu heq, Nat.add_zero]
  · rcases Nat.eq_zero_or_pos n with rfl | hn
    · have hf : ⌊v⌋₊ = 0 := Nat.floor_eq_zero.2 (by push_cast at h; linarith)
      rw [hf, if_pos (by push_cast at h ⊢; linarith)]
    · obtain ⟨k, rfl⟩ : ∃ k, n = k + 1 := ⟨n - 1, by omega⟩
      push_cast at hl h htl
      have hf : ⌊v⌋₊ = k := by
        rw [Nat.floor_eq_iff (by linarith [Nat.cast_nonneg (α := ℚ) k])]
        exact ⟨by linarith, h⟩
      rw [hf, if_neg (by linarith)]
      rcases lt_or_eq_of_le hl with hlt | heq
      · rw [if_pos (by linarith)]
      · have := htl heq.symm
        rw [if_neg (by linarith)]
        omega

theorem roundEven_of_close {v : ℚ} {n : ℕ} (hl : (n : ℚ) - 1 / 2 < v) (hu : v < n + 1 / 2) :
    roundEven v = n :=
  roundEven_of_mem hl.le hu.le (fun h => absurd h hl.ne') fun h => absurd h hu.ne

theorem roundEven_le {v : ℚ} {n : ℕ} (h : v < n) : roundEven v ≤ n := by
  rcases Nat.eq_zero_or_pos n with rfl | hn
  · have hf : ⌊v⌋₊ = 0 := Nat.floor_eq_zero.2 (by push_cast at h; linarith)
    unfold roundEven
    rw [hf, if_pos (by push_cast at h ⊢; linarith)]
  · have hf : ⌊v⌋₊ < n := (Nat.floor_lt' hn.ne').2 h
    have := Nat.mod_two_eq_zero_or_one ⌊v⌋₊
    simp only [roundEven]
    split_ifs <;> omega

theorem le_roundEven {v : ℚ} {n : ℕ} (h : (n : ℚ) ≤ v) : n ≤ roundEven v := by
  have hf : n ≤ ⌊v⌋₊ := Nat.le_floor h
  simp only [roundEven]
  split_ifs <;> omega

/-! ## Residual bits -/

/-- What a mantissa and its accuracy say of an exact value. -/
def Keeps (m : ℕ) (a : Accuracy) (v : ℚ) : Prop :=
  match a with
  | .exact => v = m
  | .inexact .lt => (m : ℚ) < v ∧ v < m + 1 / 2
  | .inexact .eq => v = m + 1 / 2
  | .inexact .gt => (m : ℚ) + 1 / 2 < v ∧ v < m + 1

theorem Keeps.le {m : ℕ} {a : Accuracy} {v : ℚ} (h : Keeps m a v) : (m : ℚ) ≤ v := by
  rcases a with _ | _ | _ | _ <;> simp only [Keeps] at h <;> linarith

theorem Keeps.lt {m : ℕ} {a : Accuracy} {v : ℚ} (h : Keeps m a v) : v < m + 1 := by
  rcases a with _ | _ | _ | _ <;> simp only [Keeps] at h <;> linarith

theorem Keeps.roundToNearestEven {m : ℕ} {a : Accuracy} {v : ℚ} (h : Keeps m a v) :
    a.roundToNearestEven m = roundEven v := by
  have hf : ⌊v⌋₊ = m :=
    (Nat.floor_eq_iff (le_trans (Nat.cast_nonneg m) h.le)).2 ⟨h.le, h.lt⟩
  unfold roundEven
  rw [hf]
  rcases a with _ | _ | _ | _ <;> simp only [Keeps] at h
  · rw [if_pos (by linarith)]; rfl
  · rw [if_pos h.2]; rfl
  · rw [if_neg (by linarith), if_neg (by linarith)]; rfl
  · rw [if_neg (by linarith), if_pos h.1]; rfl

theorem accuracy_ofMantissaAndAccuracy (m : ℕ) (a : Accuracy) :
    (ExtendedMantissa.ofMantissaAndAccuracy m a).accuracy = a := by
  rcases a with _ | _ | _ | _ <;> rfl

theorem mantissa_ofMantissaAndAccuracy (m : ℕ) (a : Accuracy) :
    (ExtendedMantissa.ofMantissaAndAccuracy m a).mantissa = m := by
  rcases a with _ | _ | _ | _ <;> rfl

/-- The last bit of the mantissa becomes the round bit. -/
theorem shiftRightOne_eq (k : ℕ) (b r s : Bool) :
    ExtendedMantissa.shiftRightOne ⟨2 * k + b.toNat, r, s⟩ = ⟨k, b, r || s⟩ := by
  have hk : (2 * k + b.toNat) / 2 = k := by cases b <;> simp; omega
  have hb : ((2 * k + b.toNat) % 2 != 0) = b := by cases b <;> simp [Nat.add_mod]
  simp only [ExtendedMantissa.shiftRightOne, hk, hb]

/-- Dropping one bit halves the value that is kept. -/
theorem Keeps.shiftRightOne {em : ExtendedMantissa} {v : ℚ}
    (h : Keeps em.mantissa em.accuracy v) :
    Keeps em.shiftRightOne.mantissa em.shiftRightOne.accuracy (v / 2) := by
  obtain ⟨m, r, s⟩ := em
  obtain ⟨k, b, rfl⟩ : ∃ (k : ℕ) (b : Bool), m = 2 * k + b.toNat :=
    ⟨m / 2, m % 2 == 1, by rcases Nat.mod_two_eq_zero_or_one m with h | h <;> simp [h] <;> omega⟩
  rw [shiftRightOne_eq]
  cases b <;> cases r <;> cases s <;>
    simp only [ExtendedMantissa.accuracy, Keeps, Bool.or_false, Bool.or_true, Bool.toNat_false,
      Bool.toNat_true, Nat.cast_add, Nat.cast_mul, Nat.cast_ofNat, Nat.cast_zero, Nat.cast_one]
      at h ⊢ <;>
    first | linarith | exact ⟨by linarith, by linarith⟩

theorem Keeps.shiftRight {em : ExtendedMantissa} {v : ℚ} (n : ℕ)
    (h : Keeps em.mantissa em.accuracy v) :
    Keeps (em >>> n).mantissa (em >>> n).accuracy (v / 2 ^ n) := by
  show Keeps (n.repeat ExtendedMantissa.shiftRightOne em).mantissa
    (n.repeat ExtendedMantissa.shiftRightOne em).accuracy _
  induction n with
  | zero => simpa [Nat.repeat] using h
  | succ n ih =>
    rw [Nat.repeat, pow_succ, ← div_div]
    exact ih.shiftRightOne

theorem two_zpow_pos (e : ℤ) : (0 : ℚ) < 2 ^ e := zpow_pos (by norm_num) e

theorem two_zpow_add (a b : ℤ) : (2 : ℚ) ^ (a + b) = 2 ^ a * 2 ^ b :=
  zpow_add₀ (by norm_num) a b

/-- Shifting to a greater exponent keeps the value. -/
theorem Keeps.shiftToExponent {m : ℕ} {a : Accuracy} {e t : ℤ} {v : ℚ}
    (h : Keeps m a (v / 2 ^ e)) (ht : e ≤ t) :
    (shiftToExponent m e a t).2 = t ∧
      Keeps (shiftToExponent m e a t).1.mantissa (shiftToExponent m e a t).1.accuracy
        (v / 2 ^ t) := by
  have hn : ((t - e).toNat : ℤ) = t - e := Int.toNat_of_nonneg (by omega)
  refine ⟨?_, ?_⟩
  · show e + ((t - e).toNat : ℤ) = t
    omega
  · have hv : v / 2 ^ t = v / 2 ^ e / 2 ^ (t - e).toNat := by
      rw [div_div, ← zpow_natCast, hn, ← two_zpow_add, add_sub_cancel]
    rw [hv]
    refine Keeps.shiftRight _ ?_
    rw [mantissa_ofMantissaAndAccuracy, accuracy_ofMantissaAndAccuracy]
    exact h

/-! ## The rounding of the format -/

/-- The exponent of the unit in which a positive rational is rounded. -/
def quantum (v : ℚ) : ℤ := max (Int.log 2 v - 52) (-1074)

/-- `n` units of `2 ^ t` in canonical form, when `n` has at most 53 bits or is the power after. -/
def settle (s : Sign) (n : ℕ) (t : ℤ) : UnpackedFloat :=
  if h : n = 0 then .zero s
  else if n = 2 ^ 53 then .finite s (2 ^ 52) (t + 1) (by norm_num)
  else .finite s n t (Nat.pos_of_ne_zero h)

/-- The double of sign `s` nearest to a positive rational, before the range is looked at. -/
def rounded (s : Sign) (v : ℚ) : UnpackedFloat :=
  settle s (roundEven (v / 2 ^ quantum v)) (quantum v)

theorem log_two_eq {v : ℚ} {k : ℤ} (hl : (2 : ℚ) ^ k ≤ v) (hu : v < 2 ^ (k + 1)) :
    Int.log 2 v = k := by
  have hv : 0 < v := lt_of_lt_of_le (two_zpow_pos k) hl
  apply le_antisymm
  · exact Int.lt_add_one_iff.1 ((Int.lt_zpow_iff_log_lt one_lt_two hv).1 (by exact_mod_cast hu))
  · exact (Int.zpow_le_iff_le_log one_lt_two hv).1 (by exact_mod_cast hl)

theorem two_zpow_log_le {v : ℚ} (hv : 0 < v) : (2 : ℚ) ^ Int.log 2 v ≤ v := by
  exact_mod_cast Int.zpow_log_le_self one_lt_two hv

theorem lt_two_zpow_log (v : ℚ) : v < 2 ^ (Int.log 2 v + 1) := by
  exact_mod_cast Int.lt_zpow_succ_log_self one_lt_two v

/-- The unit is found from the mantissa that stands for the value. -/
theorem targetExponent_eq {m : ℕ} {a : Accuracy} {e : ℤ} {v : ℚ} (hv : 0 < v)
    (h : Keeps m a (v / 2 ^ e)) (he : e ≤ quantum v) :
    Format.binary64.targetExponent (totalExponent m e) = quantum v := by
  have hp := two_zpow_pos e
  have hl : (m : ℚ) * 2 ^ e ≤ v := (le_div_iff₀ hp).1 h.le
  have hu : v < (m + 1) * 2 ^ e := (div_lt_iff₀ hp).1 h.lt
  show max ((m.log2 : ℤ) + 1 + e - 53) (-1074) = _
  rcases Nat.eq_zero_or_pos m with rfl | hm
  · -- a value below one unit of `2 ^ e` is rounded in the least unit there is
    have hlog : Int.log 2 v < e := by
      rw [← Int.lt_zpow_iff_log_lt one_lt_two hv]
      push_cast at hu ⊢
      linarith
    unfold quantum at he ⊢
    simp only [Nat.log2_zero]
    omega
  · have hb : m ≠ 0 := hm.ne'
    have h1 : ((2 ^ m.log2 : ℕ) : ℚ) ≤ m := Nat.cast_le.2 (Nat.log2_self_le hb)
    have h2 : (m : ℚ) + 1 ≤ ((2 ^ (m.log2 + 1) : ℕ) : ℚ) := by
      exact_mod_cast Nat.succ_le_of_lt Nat.lt_log2_self
    have hlog : Int.log 2 v = m.log2 + e := by
      apply log_two_eq
      · rw [two_zpow_add, zpow_natCast]
        push_cast at h1
        exact le_trans (mul_le_mul_of_nonneg_right h1 hp.le) hl
      · rw [show (m.log2 : ℤ) + e + 1 = (m.log2 + 1 : ℕ) + e by push_cast; ring, two_zpow_add,
          zpow_natCast]
        push_cast at h2
        exact lt_of_lt_of_le hu (mul_le_mul_of_nonneg_right h2 hp.le)
    unfold quantum
    omega

theorem div_quantum_lt {v : ℚ} : v / 2 ^ quantum v < ((2 ^ 53 : ℕ) : ℚ) := by
  rw [div_lt_iff₀ (two_zpow_pos _)]
  have h : Int.log 2 v + 1 ≤ 53 + quantum v := by unfold quantum; omega
  calc v < 2 ^ (Int.log 2 v + 1) := lt_two_zpow_log v
    _ ≤ 2 ^ (53 + quantum v) := zpow_le_zpow_right₀ one_le_two h
    _ = ((2 ^ 53 : ℕ) : ℚ) * 2 ^ quantum v := by rw [two_zpow_add]; norm_num

theorem shiftToExponent_of_le {n : ℕ} {t u : ℤ} (a : Accuracy) (h : u ≤ t) :
    (shiftToExponent n t a u).1.mantissa = n ∧ (shiftToExponent n t a u).2 = t := by
  have h0 : (u - t).toNat = 0 := by omega
  unfold shiftToExponent
  rw [h0]
  exact ⟨mantissa_ofMantissaAndAccuracy n a, add_zero t⟩

/-- After rounding at most one more bit goes out, and it is a zero. -/
theorem shiftToTargetExponent_settle (s : Sign) {n : ℕ} {t : ℤ} (hn : n ≤ 2 ^ 53)
    (ht : -1074 ≤ t) :
    (if h : (shiftToTargetExponent .binary64 n t .exact).1.mantissa = 0 then UnpackedFloat.zero s
      else .finite s (shiftToTargetExponent .binary64 n t .exact).1.mantissa
        (shiftToTargetExponent .binary64 n t .exact).2 (Nat.pos_of_ne_zero h)) = settle s n t := by
  have htarget : Format.binary64.targetExponent (totalExponent n t)
      = max ((n.log2 : ℤ) + 1 + t - 53) (-1074) := rfl
  unfold shiftToTargetExponent
  rw [htarget]
  rcases hn.lt_or_eq with hlt | rfl
  · have hlog : n.log2 < 53 := by
      rcases Nat.eq_zero_or_pos n with rfl | hp
      · simp
      · exact (Nat.log2_lt hp.ne').2 hlt
    obtain ⟨h1, h2⟩ := @shiftToExponent_of_le n t (max ((n.log2 : ℤ) + 1 + t - 53) (-1074))
      .exact (by omega)
    simp only [h1, h2, settle, hlt.ne, if_false]
  · have hlog : (2 ^ 53 : ℕ).log2 = 53 := Nat.log2_two_pow
    rw [hlog, show max (((53 : ℕ) : ℤ) + 1 + t - 53) (-1074) = t + 1 by omega]
    have h1 : (t + 1 - t).toNat = 1 := by omega
    simp only [shiftToExponent, h1]
    rfl

/-- **The rounding of the format is to the nearest**, whatever was kept of the value so far. -/
theorem roundWithAccuracy_eq (s : Sign) {m : ℕ} {a : Accuracy} {e : ℤ} {v : ℚ} (hv : 0 < v)
    (h : Keeps m a (v / 2 ^ e)) (he : e ≤ quantum v) :
    roundWithAccuracy .binary64 s m e a = rounded s v := by
  have ht := targetExponent_eq hv h he
  obtain ⟨h2, h1⟩ := h.shiftToExponent he
  have hr : (shiftToExponent m e a (quantum v)).1.roundedMantissa
      = roundEven (v / 2 ^ quantum v) := h1.roundToNearestEven
  have hs : shiftToTargetExponent .binary64 m e a = shiftToExponent m e a (quantum v) := by
    unfold shiftToTargetExponent
    rw [ht]
  unfold roundWithAccuracy rounded
  simp only [hs, hr, h2]
  exact shiftToTargetExponent_settle s (roundEven_le div_quantum_lt) (le_max_right _ _)

/-! ## The values that round to a double -/

/-- The rationals between the ends of an interval, the ends included when it is closed. -/
def Mem (i : Decimal.Interval) (v : ℚ) : Prop :=
  if i.closed then i.low * 2 ^ i.exponent ≤ v ∧ v ≤ i.high * 2 ^ i.exponent
  else i.low * 2 ^ i.exponent < v ∧ v < i.high * 2 ^ i.exponent

theorem Mem.le {i : Decimal.Interval} {v : ℚ} (h : Mem i v) :
    i.low * 2 ^ i.exponent ≤ v ∧ v ≤ i.high * 2 ^ i.exponent := by
  unfold Mem at h
  split at h
  · exact h
  · exact ⟨h.1.le, h.2.le⟩

theorem Mem.closed {i : Decimal.Interval} {v : ℚ} (h : Mem i v)
    (he : v = i.low * 2 ^ i.exponent ∨ v = i.high * 2 ^ i.exponent) : i.closed = true := by
  unfold Mem at h
  split at h
  · assumption
  · rcases he with rfl | rfl
    · exact absurd h.1 (lt_irrefl _)
    · exact absurd h.2 (lt_irrefl _)

theorem two_zpow_eq_four (q : ℤ) : (2 : ℚ) ^ q = 4 * 2 ^ (q - 2) := by
  rw [← add_sub_cancel 2 q, two_zpow_add, add_sub_cancel]
  norm_num

/-- The value is within half a unit of the double; at the ends the mantissa is even. -/
theorem mem_half {m : ℕ} {q : ℤ} (hm : 0 < m) {v : ℚ} (hv : Mem (Decimal.interval m q) v) :
    ((m : ℚ) - 1 / 2) * 2 ^ q ≤ v ∧ v ≤ (m + 1 / 2) * 2 ^ q ∧
      (v = (m - 1 / 2) * 2 ^ q → m % 2 = 0) ∧ (v = (m + 1 / 2) * 2 ^ q → m % 2 = 0) := by
  have hp := two_zpow_pos (q - 2)
  have hq := two_zpow_eq_four q
  have hlow : ((Decimal.interval m q).low : ℚ) = 4 * m - 2 ∨
      ((Decimal.interval m q).low : ℚ) = 4 * m - 1 := by
    simp only [Decimal.interval]
    split
    · right; rw [Nat.cast_sub (by omega)]; push_cast; ring
    · left; rw [Nat.cast_sub (by omega)]; push_cast; ring
  have hhigh : ((Decimal.interval m q).high : ℚ) = 4 * m + 2 := by
    simp only [Decimal.interval]; push_cast; ring
  have heven : (Decimal.interval m q).closed = true → m % 2 = 0 := of_decide_eq_true
  have hle := hv.le
  have hcl := hv.closed
  rw [hhigh, show (Decimal.interval m q).exponent = q - 2 from rfl] at hle hcl
  rw [hq]
  refine ⟨?_, by linarith, fun he => ?_, fun he => heven (hcl (.inr (by rw [he]; ring)))⟩
  · rcases hlow with h | h <;> rw [h] at hle <;> nlinarith
  · rcases hlow with h | h <;> rw [h] at hle hcl
    · exact heven (hcl (.inl (by rw [he]; ring)))
    · nlinarith

/-- The interval reaches half a unit to both sides, and a quarter below a power of two. -/
theorem mem_interval {m : ℕ} {q : ℤ} {a : ℚ} (hm : 0 < m) (hl : (m : ℚ) - 1 / 2 ≤ a)
    (hu : a ≤ m + 1 / 2) (htie : a = m + 1 / 2 ∨ a = m - 1 / 2 → m % 2 = 0)
    (hleast : m = 2 ^ 52 → -1074 < q → (m : ℚ) - 1 / 4 ≤ a) :
    Mem (Decimal.interval m q) (a * 2 ^ q) := by
  have hp := two_zpow_pos (q - 2)
  have hhigh : ((Decimal.interval m q).high : ℚ) = 4 * m + 2 := by
    simp only [Decimal.interval]
    push_cast
    ring
  rw [two_zpow_eq_four q, ← mul_assoc, mul_comm a 4]
  unfold Mem
  rw [hhigh, show (Decimal.interval m q).exponent = q - 2 from rfl]
  split
  · refine ⟨mul_le_mul_of_nonneg_right ?_ hp.le, mul_le_mul_of_nonneg_right (by linarith) hp.le⟩
    simp only [Decimal.interval]
    split_ifs with h
    · rw [Nat.cast_sub (by omega)]
      push_cast
      linarith [hleast h.1 h.2]
    · rw [Nat.cast_sub (by omega)]
      push_cast
      linarith
  · next hopen =>
    have hodd : m % 2 ≠ 0 := fun heven => hopen (decide_eq_true heven)
    have hlow : ((Decimal.interval m q).low : ℚ) = 4 * m - 2 := by
      simp only [Decimal.interval]
      rw [if_neg fun h => hodd (by rw [h.1]), Nat.cast_sub (by omega)]
      push_cast
      ring
    have hl' : (m : ℚ) - 1 / 2 < a := lt_of_le_of_ne hl fun h => hodd (htie (.inr h.symm))
    have hu' : a < m + 1 / 2 := lt_of_le_of_ne hu fun h => hodd (htie (.inl h))
    rw [hlow]
    exact ⟨mul_lt_mul_of_pos_right (by linarith) hp, mul_lt_mul_of_pos_right (by linarith) hp⟩

/-- What lies in the interval of a double is positive. -/
theorem pos_of_mem {m : ℕ} {q : ℤ} (hm : 0 < m) {v : ℚ} (hv : Mem (Decimal.interval m q) v) :
    0 < v := by
  have h1 : (1 : ℚ) ≤ m := by exact_mod_cast hm
  exact lt_of_lt_of_le (mul_pos (by linarith) (two_zpow_pos q)) (mem_half hm hv).1

/-- Below a power of two the doubles are twice as dense, and only the least double of a binade has
values there that round to it. They are within a quarter of its unit. -/
theorem least_of_quantum_lt {m : ℕ} {q : ℤ} (h : Canonical m q) {v : ℚ}
    (hv : Mem (Decimal.interval m q) v) (hq : quantum v < q) :
    m = 2 ^ 52 ∧ ((2 : ℚ) ^ 54 - 1) * 2 ^ (q - 2) ≤ v ∧ v < 2 ^ 54 * 2 ^ (q - 2) := by
  have hp := two_zpow_pos (q - 2)
  have hfull : 2 ^ 52 ≤ m := h.full.resolve_right (by unfold quantum at hq; omega)
  have hlog : v < 2 ^ (52 + q) := by
    have := (Int.lt_zpow_iff_log_lt one_lt_two (pos_of_mem h.pos hv) (x := 52 + q)).2
      (by unfold quantum at hq; omega)
    exact_mod_cast this
  rw [two_zpow_add, two_zpow_eq_four q] at hlog
  obtain rfl : m = 2 ^ 52 := by
    by_contra hne
    have : (2 : ℚ) ^ (52 : ℤ) + 1 ≤ m := by exact_mod_cast Nat.lt_of_le_of_ne hfull (Ne.symm hne)
    have hl := (mem_half h.pos hv).1
    rw [two_zpow_eq_four q] at hl
    nlinarith
  refine ⟨rfl, ?_, by norm_num at hlog ⊢; linarith⟩
  have hle := hv.le.1
  have hc : (Decimal.interval (2 ^ 52) q).low = 4 * 2 ^ 52 - 1 := by
    unfold quantum at hq
    simp only [Decimal.interval]
    exact if_pos ⟨rfl, by omega⟩
  rw [hc, show (Decimal.interval (2 ^ 52) q).exponent = q - 2 from rfl] at hle
  norm_num at hle ⊢
  exact hle

/-- A value below the binade of its double is rounded in the smaller unit, up to the double. -/
theorem rounded_below (s : Sign) {m : ℕ} {q : ℤ} (h : Canonical m q) {v : ℚ}
    (hv : Mem (Decimal.interval m q) v) (hq : quantum v < q) :
    rounded s v = .finite s m q h.pos := by
  obtain ⟨rfl, hlow, hhigh⟩ := least_of_quantum_lt h hv hq
  have hunit : (2 : ℚ) ^ (q - 1) = 2 * 2 ^ (q - 2) := by
    rw [show q - 1 = 1 + (q - 2) by ring, two_zpow_add, zpow_one]
  have hquantum : quantum v = q - 1 := by
    have : 51 + q ≤ Int.log 2 v := by
      rw [← Int.zpow_le_iff_le_log one_lt_two (pos_of_mem h.pos hv)]
      push_cast
      rw [two_zpow_add, two_zpow_eq_four q]
      have hp := two_zpow_pos (q - 2)
      norm_num at hlow ⊢
      linarith
    unfold quantum at hq ⊢
    omega
  have hround : roundEven (v / 2 ^ (q - 1)) = 2 ^ 53 := by
    have hp := two_zpow_pos (q - 1)
    apply roundEven_of_mem
    · rw [le_div_iff₀ hp, hunit]
      norm_num at hlow ⊢
      linarith
    · rw [div_le_iff₀ hp, hunit]
      have hp' := two_zpow_pos (q - 2)
      norm_num at hhigh ⊢
      linarith
    · intro _; rfl
    · intro _; rfl
  unfold rounded
  rw [hquantum, hround, settle, dif_neg (by norm_num), if_pos rfl, UnpackedFloat.finite.injEq]
  exact ⟨rfl, rfl, by omega⟩

/-- **A value of the interval around a double rounds to that double.** -/
theorem rounded_of_mem (s : Sign) {m : ℕ} {q : ℤ} (h : Canonical m q) {v : ℚ}
    (hv : Mem (Decimal.interval m q) v) : rounded s v = .finite s m q h.pos := by
  have hp := two_zpow_pos q
  have hm : (m : ℚ) + 1 ≤ 2 ^ (53 : ℤ) := by exact_mod_cast h.lt
  obtain ⟨hl, hu, htl, htu⟩ := mem_half h.pos hv
  have hlog : Int.log 2 v < 53 + q := by
    rw [← Int.lt_zpow_iff_log_lt one_lt_two (pos_of_mem h.pos hv)]
    push_cast
    rw [two_zpow_add]
    nlinarith
  have hle : quantum v ≤ q := by have := h.least; unfold quantum; omega
  rcases hle.lt_or_eq with hlt | heq
  · exact rounded_below s h hv hlt
  · unfold rounded
    have hr : roundEven (v / 2 ^ q) = m := by
      apply roundEven_of_mem
      · rwa [le_div_iff₀ hp]
      · rwa [div_le_iff₀ hp]
      · intro he; exact htl ((div_eq_iff hp.ne').1 he)
      · intro he; exact htu ((div_eq_iff hp.ne').1 he)
    have hm := h.lt
    rw [heq, hr]
    unfold settle
    rw [dif_neg h.pos.ne', if_neg (by omega)]

end ItemBudget.Double
