import ItemBudget.Proofs.Double.Rounding

/-!
# Decimal numbers as doubles

`nearest v` is the double nearest to a positive rational. Products and quotients of doubles are
nearest to the exact ones (`mul_finite`, `div_finite`), and a decimal number is read as the double
nearest to it: `toFloat_eq_nearest`. A small number is read by one division of two doubles that are
exact, any other one by a division or product of whole numbers, and a number out of range without
arithmetic; the value is the same in all three ways.
-/

namespace ItemBudget.Double

open Float.Model (Format UnpackedFloat totalExponent)
open Float.Model.UnpackedFloat

/-- The double nearest to a positive rational. -/
def nearest (v : ℚ) : Float := ofUnpacked (rounded .positive v)

/-! ## Products and quotients -/

/-- A product of two mantissas that together have 53 bits is rounded to the nearest. -/
theorem mul_finite (s t : Sign) {m n : ℕ} {e f : ℤ} (hm : 0 < m) (hn : 0 < n)
    (hmn : 2 ^ 52 ≤ m * n) :
    UnpackedFloat.mul .binary64 (.finite s m e hm) (.finite t n f hn)
      = rounded (s * t) (m * 2 ^ e * (n * 2 ^ f)) := by
  have hv : (m : ℚ) * 2 ^ e * (n * 2 ^ f) = (m * n : ℕ) * 2 ^ (e + f) := by
    rw [two_zpow_add]; push_cast; ring
  have hmn' : (2 : ℚ) ^ (52 : ℤ) ≤ (m * n : ℕ) := by exact_mod_cast hmn
  have hpos : (0 : ℚ) < (m * n : ℕ) := by exact_mod_cast Nat.mul_pos hm hn
  show roundWithAccuracy .binary64 (s * t) (m * n) (e + f) .exact = _
  rw [hv]
  apply roundWithAccuracy_eq
  · exact mul_pos hpos (two_zpow_pos _)
  · exact mul_div_cancel_right₀ _ (two_zpow_pos _).ne'
  · have : 52 + (e + f) ≤ Int.log 2 ((m * n : ℕ) * (2 : ℚ) ^ (e + f)) := by
      rw [← Int.zpow_le_iff_le_log one_lt_two (mul_pos hpos (two_zpow_pos _))]
      push_cast at hmn' ⊢
      rw [two_zpow_add]
      exact mul_le_mul_of_nonneg_right hmn' (two_zpow_pos _).le
    unfold quantum
    omega

theorem log_two_cast {m : ℕ} (hm : 0 < m) (e : ℤ) :
    Int.log 2 ((m : ℚ) * 2 ^ e) = totalExponent m e - 1 := by
  have h1 : ((2 ^ m.log2 : ℕ) : ℚ) ≤ m := Nat.cast_le.2 (Nat.log2_self_le hm.ne')
  have h2 : (m : ℚ) < ((2 ^ (m.log2 + 1) : ℕ) : ℚ) := Nat.cast_lt.2 Nat.lt_log2_self
  push_cast at h1 h2
  unfold totalExponent
  apply log_two_eq
  · rw [show (m.log2 : ℤ) + 1 + e - 1 = m.log2 + e by ring, two_zpow_add, zpow_natCast]
    exact mul_le_mul_of_nonneg_right h1 (two_zpow_pos e).le
  · rw [show (m.log2 : ℤ) + 1 + e - 1 + 1 = (m.log2 + 1 : ℕ) + e by push_cast; ring,
      two_zpow_add, zpow_natCast]
    exact mul_lt_mul_of_pos_right h2 (two_zpow_pos e)

/-- The remainder of a division tells how far the quotient is from the exact one. -/
theorem keeps_div (a : ℕ) {b : ℕ} (hb : 0 < b) :
    Keeps (a / b) (accuracyOfFraction (a % b) b) ((a : ℚ) / b) := by
  have hb' : (0 : ℚ) < b := by exact_mod_cast hb
  have hd : (a : ℚ) / b = ((a / b : ℕ) : ℚ) + ((a % b : ℕ) : ℚ) / b := by
    rw [div_eq_iff hb'.ne', add_mul, div_mul_cancel₀ _ hb'.ne']
    exact_mod_cast (Nat.div_add_mod' a b).symm
  have hlt : ((a % b : ℕ) : ℚ) / b < 1 := by
    rw [div_lt_one hb']; exact_mod_cast Nat.mod_lt a hb
  rw [hd]
  unfold accuracyOfFraction
  split
  · next h0 => simp [Keeps, h0]
  · next h0 =>
    have hpos : 0 < ((a % b : ℕ) : ℚ) / b :=
      div_pos (by exact_mod_cast Nat.pos_of_ne_zero h0) hb'
    rcases hc : compare (2 * (a % b)) b with _ | _ | _
    · have : ((a % b : ℕ) : ℚ) / b < 1 / 2 := by
        rw [div_lt_div_iff₀ hb' two_pos]
        exact_mod_cast (by have := Nat.compare_eq_lt.1 hc; omega : a % b * 2 < 1 * b)
      exact ⟨by linarith, by linarith⟩
    · have : ((a % b : ℕ) : ℚ) / b = 1 / 2 := by
        rw [div_eq_div_iff hb'.ne' two_ne_zero]
        exact_mod_cast (by have := Nat.compare_eq_eq.1 hc; omega : a % b * 2 = 1 * b)
      simp only [Keeps, this]
    · have : 1 / 2 < ((a % b : ℕ) : ℚ) / b := by
        rw [div_lt_div_iff₀ two_pos hb']
        exact_mod_cast (by have := Nat.compare_eq_gt.1 hc; omega : 1 * b < a % b * 2)
      exact ⟨by linarith, by linarith⟩

/-- A quotient is rounded to the nearest. -/
theorem div_finite (s t : Sign) {m n : ℕ} {e f : ℤ} (hm : 0 < m) (hn : 0 < n) :
    UnpackedFloat.div .binary64 (.finite s m e hm) (.finite t n f hn)
      = rounded (s / t) (m * 2 ^ e / (n * 2 ^ f)) := by
  have hm' : (0 : ℚ) < m := by exact_mod_cast hm
  have hn' : (0 : ℚ) < n := by exact_mod_cast hn
  have hx : (0 : ℚ) < m * 2 ^ e := mul_pos hm' (two_zpow_pos e)
  have hy : (0 : ℚ) < n * 2 ^ f := mul_pos hn' (two_zpow_pos f)
  have hv : (0 : ℚ) < m * 2 ^ e / (n * 2 ^ f) := div_pos hx hy
  -- the quotient is at least a power of two that is seen from the bits of both sides
  have hlog : totalExponent m e - totalExponent n f - 1 ≤
      Int.log 2 ((m : ℚ) * 2 ^ e / (n * 2 ^ f)) := by
    rw [← Int.zpow_le_iff_le_log one_lt_two hv, le_div_iff₀ hy]
    have h1 := two_zpow_log_le hx
    have h2 := lt_two_zpow_log ((n : ℚ) * 2 ^ f)
    rw [log_two_cast hm] at h1
    rw [log_two_cast hn, sub_add_cancel] at h2
    calc ((2 : ℕ) : ℚ) ^ (totalExponent m e - totalExponent n f - 1) * (n * 2 ^ f)
        ≤ 2 ^ (totalExponent m e - totalExponent n f - 1) * 2 ^ totalExponent n f := by
          push_cast
          exact mul_le_mul_of_nonneg_left h2.le (two_zpow_pos _).le
      _ = 2 ^ (totalExponent m e - 1) := by rw [← two_zpow_add]; congr 1; ring
      _ ≤ m * 2 ^ e := h1
  let T := min (e - f) (Format.binary64.targetExponent (totalExponent m e - totalExponent n f))
  have hT : T ≤ quantum (m * 2 ^ e / (n * 2 ^ f)) := by
    have : T ≤ max (totalExponent m e - totalExponent n f - 53) (-1074) := min_le_right _ _
    unfold quantum
    omega
  have hshift : ((e - f - T).toNat : ℤ) = e - f - T :=
    Int.toNat_of_nonneg (by have : T ≤ e - f := min_le_left _ _; omega)
  have hexact : (m : ℚ) * 2 ^ e / (n * 2 ^ f) / 2 ^ T = ((m <<< (e - f - T).toNat : ℕ) : ℚ) / n := by
    have he : (2 : ℚ) ^ e = 2 ^ (e - f - T) * 2 ^ f * 2 ^ T := by
      rw [← two_zpow_add, ← two_zpow_add]; congr 1; ring
    rw [Nat.shiftLeft_eq, Nat.cast_mul, Nat.cast_pow, Nat.cast_ofNat, ← zpow_natCast, hshift, he,
      div_div, div_eq_div_iff (mul_pos hy (two_zpow_pos T)).ne' hn'.ne']
    ring
  show roundWithAccuracy .binary64 (s / t) ((m <<< (e - f - T).toNat) / n) T
    (accuracyOfFraction ((m <<< (e - f - T).toNat) % n) n) = _
  exact roundWithAccuracy_eq _ hv (hexact ▸ keeps_div _ hn) hT

/-- A whole number of powers of two is rounded to the nearest. -/
theorem round_eq (s : Sign) {n : ℕ} (e : ℤ) (hn : 0 < n) :
    UnpackedFloat.round .binary64 s n e = rounded s (n * 2 ^ e) := by
  have hv : (0 : ℚ) < n * 2 ^ e := mul_pos (by exact_mod_cast hn) (two_zpow_pos e)
  have ht : Format.binary64.targetExponent (totalExponent n e) = quantum (n * 2 ^ e) := by
    unfold quantum
    rw [log_two_cast hn]
    show max (totalExponent n e - 53) (-1074) = _
    omega
  unfold UnpackedFloat.round decreaseExponent
  simp only [ht]
  apply roundWithAccuracy_eq s hv
  · have he : (2 : ℚ) ^ e = 2 ^ (e - quantum (n * 2 ^ e)).toNat
        * 2 ^ (e - ((e - quantum (n * 2 ^ e)).toNat : ℤ)) := by
      rw [← zpow_natCast, ← two_zpow_add]; congr 1; ring
    have hp := two_zpow_pos (e - ((e - quantum (n * 2 ^ e)).toNat : ℤ))
    show (n : ℚ) * 2 ^ e / 2 ^ (e - ((e - quantum (n * 2 ^ e)).toNat : ℤ))
      = ((n <<< (e - quantum (n * 2 ^ e)).toNat : ℕ) : ℚ)
    rw [Nat.shiftLeft_eq, div_eq_iff hp.ne', Nat.cast_mul, Nat.cast_pow, Nat.cast_ofNat, mul_assoc,
      ← he]
  · omega

/-! ## Exact doubles -/

theorem mem_center {m : ℕ} (q : ℤ) (hm : 0 < m) :
    Mem (Decimal.interval m q) (m * 2 ^ q) := by
  refine mem_interval hm (by linarith) (by linarith) ?_ fun _ _ => by linarith
  rintro (h | h)
  · linarith
  · linarith

theorem rounded_exact (s : Sign) {m : ℕ} {q : ℤ} (h : Canonical m q) :
    rounded s (m * 2 ^ q) = .finite s m q h.pos :=
  rounded_of_mem s h (mem_center q h.pos)

/-- The positive double that is a rational exactly. -/
def Exact (x : Float) (v : ℚ) : Prop :=
  ∃ (m : ℕ) (q : ℤ) (h : 0 < m), x.toModel.unpack = .finite .positive m q h ∧ v = m * 2 ^ q

theorem exact_nearest {m : ℕ} {q : ℤ} (h : Canonical m q) (hq : q ≤ maxExponent) :
    Exact (nearest (m * 2 ^ q)) (m * 2 ^ q) := by
  refine ⟨m, q, h.pos, ?_, rfl⟩
  unfold nearest
  rw [rounded_exact _ h, unpack_ofUnpacked _ h hq]

theorem Exact.div {x y : Float} {v w : ℚ} (hx : Exact x v) (hy : Exact y w) :
    x / y = nearest (v / w) := by
  obtain ⟨m, e, hm, hx, rfl⟩ := hx
  obtain ⟨n, f, hn, hy, rfl⟩ := hy
  show ofUnpacked (UnpackedFloat.div .binary64 x.toModel.unpack y.toModel.unpack) = _
  rw [hx, hy, div_finite]
  rfl

/-- Two mantissas that are not full have the least exponent, and a product of such may lose bits. -/
theorem Exact.mul {x y : Float} {v w : ℚ} (hx : Exact x v) (hy : Exact y w) :
    x * y = nearest (v * w) := by
  obtain ⟨m, e, hm, hx, rfl⟩ := hx
  obtain ⟨n, f, hn, hy, rfl⟩ := hy
  have hc := (canonical_of_unpack hx).1
  have hd := (canonical_of_unpack hy).1
  have hexact : (m : ℚ) * 2 ^ e * (n * 2 ^ f) = (m * n : ℕ) * 2 ^ (e + f) := by
    rw [two_zpow_add]; push_cast; ring
  have hpos : (0 : ℚ) < (m * n : ℕ) * 2 ^ (e + f) :=
    mul_pos (by exact_mod_cast Nat.mul_pos hm hn) (two_zpow_pos _)
  have hle : e + f ≤ quantum ((m * n : ℕ) * 2 ^ (e + f)) := by
    by_cases hfull : 2 ^ 52 ≤ m * n
    · have hlog : 52 + (e + f) ≤ Int.log 2 (((m * n : ℕ) : ℚ) * 2 ^ (e + f)) := by
        rw [← Int.zpow_le_iff_le_log one_lt_two hpos]
        push_cast
        rw [two_zpow_add]
        exact mul_le_mul_of_nonneg_right (by exact_mod_cast hfull) (two_zpow_pos _).le
      unfold quantum
      omega
    · have he : e = -1074 :=
        hc.full.resolve_left fun h => hfull (le_trans h (Nat.le_mul_of_pos_right m hn))
      have hf : f = -1074 :=
        hd.full.resolve_left fun h => hfull (le_trans h (Nat.le_mul_of_pos_left n hm))
      unfold quantum
      omega
  show ofUnpacked (UnpackedFloat.mul .binary64 x.toModel.unpack y.toModel.unpack) = _
  rw [hx, hy]
  show ofUnpacked (roundWithAccuracy .binary64 (.positive * .positive) (m * n) (e + f) .exact) = _
  rw [hexact]
  exact congrArg ofUnpacked
    (roundWithAccuracy_eq _ hpos (mul_div_cancel_right₀ _ (two_zpow_pos _).ne') hle)

/-- A number below `2 ^ 53` has a canonical form. -/
theorem exists_canonical {n : ℕ} (hn : 0 < n) (hlt : n < 2 ^ 53) :
    ∃ (m : ℕ) (q : ℤ), Canonical m q ∧ q ≤ maxExponent ∧ (n : ℚ) = m * 2 ^ q := by
  have hlog : n.log2 < 53 := (Nat.log2_lt hn.ne').2 hlt
  have hl := Nat.log2_self_le hn.ne'
  have hu : n < 2 ^ (n.log2 + 1) := Nat.lt_log2_self
  have h52 : 2 ^ (52 - n.log2) * 2 ^ n.log2 = 2 ^ 52 := by rw [← pow_add]; congr 1; omega
  have h53 : 2 ^ (52 - n.log2) * 2 ^ (n.log2 + 1) = 2 ^ 53 := by rw [← pow_add]; congr 1; omega
  have hp : 0 < 2 ^ (52 - n.log2) := Nat.two_pow_pos _
  refine ⟨2 ^ (52 - n.log2) * n, n.log2 - 52, ⟨Nat.mul_pos hp hn, ?_, by omega, .inl ?_⟩,
    by unfold maxExponent; omega, ?_⟩
  · rw [← h53]; exact Nat.mul_lt_mul_of_pos_left hu hp
  · rw [← h52]; exact Nat.mul_le_mul_left _ hl
  · have : (2 : ℚ) ^ (52 - n.log2) * 2 ^ ((n.log2 : ℤ) - 52) = 1 := by
      rw [← zpow_natCast, ← two_zpow_add, Nat.cast_sub (by omega)]
      norm_num
    push_cast
    rw [mul_right_comm, this, one_mul]

/-- A whole number of 64 bits is converted to the nearest double. -/
theorem toFloat_toUInt64 {n : ℕ} (hn : 0 < n) (hlt : n < 2 ^ 64) :
    n.toUInt64.toFloat = nearest n := by
  have h64 : n.toUInt64.toNat = n := by
    rw [Nat.toUInt64, UInt64.toNat_ofNat']
    omega
  have hround := round_eq .positive 0 hn
  rw [zpow_zero, mul_one] at hround
  show ofUnpacked (UnpackedFloat.normalize .binary64 (n.toUInt64.toNat : ℤ) 0 .positive) = _
  rw [h64]
  unfold UnpackedFloat.normalize
  rw [show compare (n : ℤ) 0 = .gt from Int.compare_eq_gt.2 (by omega)]
  exact congrArg ofUnpacked hround

theorem exact_toFloat {n : ℕ} (hn : 0 < n) (hlt : n < 2 ^ 53) : Exact n.toUInt64.toFloat n := by
  obtain ⟨m, q, hc, hq, hv⟩ := exists_canonical hn hlt
  rw [toFloat_toUInt64 hn (by omega), hv]
  exact exact_nearest hc hq

theorem exact_of_reading {x : Float} {m : ℕ} {q : ℤ} (hm : m ≠ 0)
    (h : Decimal.reading x = .finite false m q) : Exact x (m * 2 ^ q) := by
  unfold Decimal.reading at h
  split at h
  · cases h
  · cases h
  · injection h with _ h0 _
    exact absurd h0.symm hm
  · next s m' q' hm' hu =>
    injection h with hs h1 h2
    subst h1 h2
    cases s with
    | negative => cases hs
    | positive => exact ⟨m', q', hm', hu, rfl⟩

/-- The table of powers of ten holds `5 ^ e` moved to 53 bits. -/
theorem reading_powerOfTen : ∀ e : Fin Float.exactlyRepresentablePowersOfTen.size,
    Decimal.reading Float.exactlyRepresentablePowersOfTen[e]
      = .finite false (5 ^ e.val * 2 ^ (52 - (5 ^ e.val).log2))
          (e.val + (5 ^ e.val).log2 - 52) := by
  decide +kernel

/-- The powers of ten up to `10 ^ 22` are exact. -/
theorem exact_powerOfTen (e : Fin Float.exactlyRepresentablePowersOfTen.size) :
    Exact Float.exactlyRepresentablePowersOfTen[e] (10 ^ e.val) := by
  have he : e.val < 23 := e.isLt
  have hlog : (5 ^ e.val).log2 ≤ 52 := by
    have h5 : 5 ^ e.val ≤ 5 ^ 22 := Nat.pow_le_pow_right (by norm_num) (by omega)
    have hlt : 5 ^ e.val < 2 ^ 53 := lt_of_le_of_lt h5 (by norm_num)
    have := (Nat.log2_lt (Nat.pow_pos (by norm_num)).ne').2 hlt
    omega
  have hm : 5 ^ e.val * 2 ^ (52 - (5 ^ e.val).log2) ≠ 0 := by positivity
  have h := exact_of_reading hm (reading_powerOfTen e)
  have h2 : (2 : ℚ) ^ (52 - (5 ^ e.val).log2) * 2 ^ ((e.val : ℤ) + (5 ^ e.val).log2 - 52)
      = 2 ^ e.val := by
    rw [← zpow_natCast, ← two_zpow_add, Nat.cast_sub hlog, ← zpow_natCast]
    congr 1
    push_cast
    ring
  rw [Nat.cast_mul, Nat.cast_pow, Nat.cast_pow, mul_assoc, Nat.cast_ofNat, Nat.cast_ofNat, h2,
    ← mul_pow] at h
  norm_num at h
  exact h

/-! ## Out of range -/

/-- From `2 ^ 1024` on, the nearest double is the infinite one. -/
theorem nearest_of_ge {v : ℚ} (hv : (2 : ℚ) ^ (1024 : ℤ) ≤ v) :
    nearest v = ofUnpacked (.infinity .positive) := by
  have hpos : 0 < v := lt_of_lt_of_le (two_zpow_pos _) hv
  have hlog : 1024 ≤ Int.log 2 v :=
    (Int.zpow_le_iff_le_log one_lt_two hpos).1 (by rwa [Nat.cast_ofNat])
  have hq : quantum v = Int.log 2 v - 52 := by unfold quantum; omega
  have hround : roundEven (v / 2 ^ quantum v) ≠ 0 := by
    have h52 : (2 : ℚ) ^ (52 : ℤ) ≤ v / 2 ^ quantum v := by
      rw [le_div_iff₀ (two_zpow_pos _), ← two_zpow_add, hq, add_sub_cancel]
      exact two_zpow_log_le hpos
    have hfloor : 0 < ⌊v / 2 ^ quantum v⌋₊ := Nat.floor_pos.2 (le_trans (by norm_num) h52)
    simp only [roundEven]
    split_ifs <;> omega
  unfold nearest rounded settle
  rw [dif_neg hround]
  split
  · exact ofUnpacked_of_lt _ _ (by unfold maxExponent; omega)
  · exact ofUnpacked_of_lt _ _ (by unfold maxExponent; omega)

/-- Below half of the least double, the nearest double is zero. -/
theorem nearest_of_lt {v : ℚ} (hpos : 0 < v) (hv : v < 2 ^ (-1075 : ℤ)) :
    nearest v = ofUnpacked (.zero .positive) := by
  have hlog : Int.log 2 v < -1075 :=
    (Int.lt_zpow_iff_log_lt one_lt_two hpos).1 (by rwa [Nat.cast_ofNat])
  have hq : quantum v = -1074 := by unfold quantum; omega
  have hround : roundEven (v / 2 ^ (-1074 : ℤ)) = 0 := by
    have h2 : (2 : ℚ) ^ (-1075 : ℤ) = 1 / 2 * 2 ^ (-1074 : ℤ) := by
      rw [show (-1075 : ℤ) = -1 + -1074 by norm_num, two_zpow_add]; norm_num
    have hp := two_zpow_pos (-1074)
    have hx : 0 < v / 2 ^ (-1074 : ℤ) := div_pos hpos hp
    have hu : v / 2 ^ (-1074 : ℤ) < 1 / 2 := by rw [div_lt_iff₀ hp, ← h2]; exact hv
    apply roundEven_of_mem
    · rw [Nat.cast_zero]; linarith
    · rw [Nat.cast_zero]; linarith
    · intro _; rfl
    · intro _; rfl
  unfold nearest rounded
  rw [hq, hround]
  rfl

/-- The mantissa that rounding gives is in canonical form. -/
theorem rounded_cases (s : Sign) {v : ℚ} (hv : 0 < v) :
    rounded s v = .zero s ∨
      ∃ (m : ℕ) (q : ℤ) (h : Canonical m q), rounded s v = .finite s m q h.pos := by
  have hu : roundEven (v / 2 ^ quantum v) ≤ 2 ^ 53 := roundEven_le div_quantum_lt
  have hl : 2 ^ 52 ≤ roundEven (v / 2 ^ quantum v) ∨ quantum v = -1074 := by
    rcases le_or_gt (Int.log 2 v - 52) (-1074) with h | h
    · exact .inr (by unfold quantum; omega)
    · have hq : quantum v = Int.log 2 v - 52 := by unfold quantum; omega
      refine .inl (le_roundEven ?_)
      rw [hq, le_div_iff₀ (two_zpow_pos _)]
      calc ((2 ^ 52 : ℕ) : ℚ) * 2 ^ (Int.log 2 v - 52) = 2 ^ (52 + (Int.log 2 v - 52)) := by
            rw [two_zpow_add]; norm_num
        _ = 2 ^ Int.log 2 v := by rw [add_sub_cancel]
        _ ≤ v := two_zpow_log_le hv
  have hq : -1074 ≤ quantum v := by unfold quantum; omega
  unfold rounded settle
  split_ifs with h0 h53
  · exact .inl rfl
  · exact .inr ⟨2 ^ 52, quantum v + 1, ⟨by norm_num, by norm_num, by omega, .inl le_rfl⟩, rfl⟩
  · exact .inr ⟨_, quantum v, ⟨Nat.pos_of_ne_zero h0, by omega, hq, hl⟩, rfl⟩

/-- The double nearest to a positive number is finite without a sign, or infinite. -/
theorem reading_nearest {v : ℚ} (hv : 0 < v) :
    (∃ m q, Decimal.reading (nearest v) = .finite false m q) ∨
      nearest v = Decimal.infinity false := by
  unfold nearest
  rcases rounded_cases .positive hv with h | ⟨m, q, hc, h⟩
  · rw [h]
    exact .inl ⟨0, Decimal.minExponent, rfl⟩
  · rw [h]
    rcases le_or_gt q maxExponent with hq | hq
    · refine .inl ⟨m, q, ?_⟩
      unfold Decimal.reading
      rw [unpack_ofUnpacked .positive hc hq]
      rfl
    · exact .inr (by rw [ofUnpacked_of_lt _ _ hq, infinity_eq])

/-! ## Decimal numbers -/

/-- The rational that a decimal number is. -/
def value (d : Decimal) : ℚ := d.digits * 10 ^ d.exponent

theorem ten_zpow_pos (e : ℤ) : (0 : ℚ) < 10 ^ e := zpow_pos (by norm_num) e

theorem ten_zpow_natCast (n : ℕ) : (10 : ℚ) ^ (n : ℤ) = ((10 ^ n : ℕ) : ℚ) := by
  rw [zpow_natCast]; push_cast; rfl

/-- A negative power grows as its base falls. -/
theorem zpow_le_zpow_of_nonpos {a b : ℚ} {e : ℤ} (ha : 0 < a) (hab : a ≤ b) (he : e ≤ 0) :
    b ^ e ≤ a ^ e := by
  have h := zpow_le_zpow_left₀ (show 0 ≤ -e by omega) ha.le hab
  rw [zpow_neg, zpow_neg] at h
  exact (inv_le_inv₀ (zpow_pos ha e) (zpow_pos (lt_of_lt_of_le ha hab) e)).1 h

theorem ofScientific_eq {m : ℕ} (e : ℤ) (hm : 0 < m) :
    ofUnpacked (UnpackedFloat.ofScientific .binary64 m e) = nearest (m * 10 ^ e) := by
  have hm1 : (1 : ℚ) ≤ m := by exact_mod_cast hm
  have hp := ten_zpow_pos e
  unfold UnpackedFloat.ofScientific
  rw [dif_neg hm.ne']
  split_ifs with h1 h2 h3
  · have he : (2 : ℤ) ^ 11 < e := h1
    symm
    apply nearest_of_ge
    calc (2 : ℚ) ^ (1024 : ℤ) ≤ 2 ^ e := zpow_le_zpow_right₀ one_le_two (by omega)
      _ ≤ 10 ^ e := zpow_le_zpow_left₀ (by omega) (by norm_num) (by norm_num)
      _ ≤ m * 10 ^ e := le_mul_of_one_le_left hp.le hm1
  · have he : e < -((2 : ℤ) ^ 11 + m.log2) := h2
    have hm2 : (m : ℚ) < 2 ^ ((m.log2 : ℤ) + 1) := by
      rw [← Nat.cast_succ, zpow_natCast]
      exact_mod_cast Nat.lt_log2_self
    have h10 : (10 : ℚ) ^ e ≤ 2 ^ e :=
      zpow_le_zpow_of_nonpos (by norm_num) (by norm_num) (by omega)
    symm
    apply nearest_of_lt (mul_pos (by linarith) hp)
    calc (m : ℚ) * 10 ^ e ≤ m * 2 ^ e := mul_le_mul_of_nonneg_left h10 (by linarith)
      _ < 2 ^ ((m.log2 : ℤ) + 1) * 2 ^ e := mul_lt_mul_of_pos_right hm2 (two_zpow_pos e)
      _ = 2 ^ ((m.log2 : ℤ) + 1 + e) := (two_zpow_add _ _).symm
      _ ≤ 2 ^ (-1075 : ℤ) := zpow_le_zpow_right₀ one_le_two (by omega)
  · have hten : ((10 ^ e.toNat : ℕ) : ℚ) = 10 ^ e := by
      rw [← ten_zpow_natCast, Int.toNat_of_nonneg h3]
    have hshift : ((m <<< 53 : ℕ) : ℚ) * 2 ^ (-53 : ℤ) = m := by
      rw [Nat.shiftLeft_eq, Nat.cast_mul, mul_assoc]; norm_num
    have hbits : 2 ^ 52 ≤ m <<< 53 * 10 ^ e.toNat := by
      rw [Nat.shiftLeft_eq]
      have := Nat.mul_le_mul hm (Nat.pow_pos (show 0 < 10 by norm_num) (n := e.toNat))
      nlinarith
    have h := mul_finite .positive .positive (e := -53) (f := 0)
      (by rw [Nat.shiftLeft_eq]; positivity) (by positivity) hbits
    rw [hshift, hten, zpow_zero, mul_one] at h
    exact congrArg ofUnpacked h
  · have hten : ((10 ^ (-e).toNat : ℕ) : ℚ) = (10 ^ e)⁻¹ := by
      rw [← ten_zpow_natCast, Int.toNat_of_nonneg (by omega), zpow_neg]
    have h := div_finite .positive .positive (e := 0) (f := 0) hm
      (show 0 < 10 ^ (-e).toNat by positivity)
    rw [hten, zpow_zero, mul_one, mul_one, div_inv_eq_mul] at h
    exact congrArg ofUnpacked h

/-- A number in scientific notation is read as the nearest double. -/
theorem float_ofScientific {m : ℕ} (negative : Bool) (e : ℕ) (hm : 0 < m) :
    Float.ofScientific m negative e = nearest (m * 10 ^ (if negative then -(e : ℤ) else e)) := by
  unfold Float.ofScientific
  split
  · next h =>
    have hx := exact_toFloat hm h.1
    have hy := exact_powerOfTen ⟨e, show e < 23 by omega⟩
    cases negative with
    | true =>
      simp only [if_true, zpow_neg, zpow_natCast]
      rw [← div_eq_mul_inv]
      exact hx.div hy
    | false =>
      simp only [Bool.false_eq_true, if_false, zpow_natCast]
      exact hx.mul hy
  · cases negative with
    | true => exact ofScientific_eq _ hm
    | false => exact ofScientific_eq _ hm

/-- A number lies between the powers of ten that its number of digits tells. -/
theorem pow_length_digitsOf {n : ℕ} (hn : 0 < n) :
    10 ^ ((Decimal.digitsOf n).length - 1) ≤ n ∧ n < 10 ^ (Decimal.digitsOf n).length := by
  have hpos : 0 < (Decimal.digitsOf n).length := Nat.length_toDigits_pos
  refine ⟨?_, (Nat.length_toDigits_le_iff (by norm_num) hpos).1 le_rfl⟩
  rcases Nat.eq_zero_or_pos ((Decimal.digitsOf n).length - 1) with h | h
  · rw [h]; exact hn
  · have := (Nat.length_toDigits_le_iff (b := 10) (n := n) (by norm_num) h).not.1
      (by unfold Decimal.digitsOf at *; omega)
    omega

theorem le_value {d : Decimal} (hd : 0 < d.digits) :
    (10 : ℚ) ^ (((Decimal.digitsOf d.digits).length : ℤ) - 1 + d.exponent) ≤ value d := by
  have hlen : 0 < (Decimal.digitsOf d.digits).length := Nat.length_toDigits_pos
  have h : (10 : ℚ) ^ (((Decimal.digitsOf d.digits).length - 1 : ℕ) : ℤ) ≤ d.digits := by
    rw [ten_zpow_natCast]
    exact Nat.cast_le.2 (pow_length_digitsOf hd).1
  rw [Nat.cast_sub hlen, Nat.cast_one] at h
  rw [zpow_add₀ (by norm_num)]
  exact mul_le_mul_of_nonneg_right h (ten_zpow_pos _).le

theorem value_lt {d : Decimal} (hd : 0 < d.digits) :
    value d < (10 : ℚ) ^ (((Decimal.digitsOf d.digits).length : ℤ) + d.exponent) := by
  have h : (d.digits : ℚ) < 10 ^ ((Decimal.digitsOf d.digits).length : ℤ) := by
    rw [ten_zpow_natCast]
    exact Nat.cast_lt.2 (pow_length_digitsOf hd).2
  rw [zpow_add₀ (by norm_num)]
  exact mul_lt_mul_of_pos_right h (ten_zpow_pos _)

/-- **A decimal number is read as the double nearest to it.** -/
theorem toFloat_eq_nearest {d : Decimal} (hd : 0 < d.digits) : d.toFloat = nearest (value d) := by
  unfold Decimal.toFloat
  rw [if_neg hd.ne']
  simp only
  split_ifs with h1 h2 h3
  · rw [infinity_eq]
    symm
    apply nearest_of_ge
    have hbig : ((2 ^ 1024 : ℕ) : ℚ) ≤ ((10 ^ 310 : ℕ) : ℚ) := Nat.cast_le.2 (by decide +kernel)
    calc (2 : ℚ) ^ (1024 : ℤ) = ((2 ^ 1024 : ℕ) : ℚ) := by
          rw [Nat.cast_pow, Nat.cast_ofNat]; rfl
      _ ≤ ((10 ^ 310 : ℕ) : ℚ) := hbig
      _ = 10 ^ (310 : ℤ) := (ten_zpow_natCast 310).symm
      _ ≤ 10 ^ (((Decimal.digitsOf d.digits).length : ℤ) - 1 + d.exponent) :=
        zpow_le_zpow_right₀ (by norm_num) (by omega)
      _ ≤ value d := le_value hd
  · rw [zero_eq]
    symm
    apply nearest_of_lt (mul_pos (by exact_mod_cast hd) (ten_zpow_pos _))
    have hsmall : ((2 ^ 1075 : ℕ) : ℚ) ≤ ((10 ^ 330 : ℕ) : ℚ) := Nat.cast_le.2 (by decide +kernel)
    calc value d < 10 ^ (((Decimal.digitsOf d.digits).length : ℤ) + d.exponent) := value_lt hd
      _ ≤ 10 ^ (-330 : ℤ) := zpow_le_zpow_right₀ (by norm_num) (by omega)
      _ = ((10 ^ 330 : ℕ) : ℚ)⁻¹ := by rw [zpow_neg, ← ten_zpow_natCast]; rfl
      _ ≤ ((2 ^ 1075 : ℕ) : ℚ)⁻¹ := inv_anti₀ (by positivity) hsmall
      _ = 2 ^ (-1075 : ℤ) := by rw [zpow_neg, Nat.cast_pow, Nat.cast_ofNat]; rfl
  · rw [float_ofScientific _ _ hd, if_pos rfl, value]
    congr 3
    omega
  · rw [float_ofScientific _ _ hd, if_neg (by decide), value]
    congr 3
    omega

/-- What a decimal number is read as has no sign and is not NaN. -/
theorem reading_toFloat (d : Decimal) :
    (∃ m q, Decimal.reading d.toFloat = .finite false m q) ∨
      d.toFloat = Decimal.infinity false := by
  rcases Nat.eq_zero_or_pos d.digits with h | h
  · unfold Decimal.toFloat
    rw [if_pos h]
    exact .inl ⟨0, Decimal.minExponent, rfl⟩
  · rw [toFloat_eq_nearest h]
    exact reading_nearest (mul_pos (by exact_mod_cast h) (ten_zpow_pos _))

end ItemBudget.Double
