import ItemBudget.Proofs.Double.Signed

/-!
# Finite results

An operation on finite doubles gives a finite one exactly when the size of its exact result is below
`overflow` (`RoundsTo`). The whole part of a finite double is its floor, exactly (`toRat_wholePart`).
So sums, and roundings to hundredths, stay finite where the sizes are bounded, whatever the signs
are.
-/

namespace ItemBudget.Double

open Float.Model (UnpackedFloat)
open Float.Model.UnpackedFloat

variable {x y : Float} {v w : ℚ}

/-! ## Sizes of rounded results -/

/-- A double to which a result of a size is rounded, with one sign or the other. -/
structure RoundsTo (x : Float) (v : ℚ) : Prop where
  isFinite_iff : x.isFinite = true ↔ v < overflow
  size_eq : x.isFinite = true → size x = near v

theorem Rounds.roundsTo (h : Rounds x v) : RoundsTo x |v| := by
  have hlt : x.isFinite = true → |v| < overflow := by
    intro hx
    by_contra hle
    rw [eq_infinity (h.beyond (not_lt.1 hle)), isFinite_infinity] at hx
    cases hx
  refine ⟨⟨hlt, fun hv => (h.inRange hv).1⟩, fun hx => ?_⟩
  rw [← abs_toRat, (h.inRange (hlt hx)).2, abs_nearSigned]

theorem roundsTo_zero (s : Sign) : RoundsTo (ofUnpacked (.zero s)) 0 := by
  have h := (rounds_zero s).roundsTo
  rwa [abs_zero] at h

/-- The exact sum of two finite doubles is at most as great as both sizes together. -/
theorem roundsTo_add (hx : x.isFinite = true) (hy : y.isFinite = true) :
    ∃ v, 0 ≤ v ∧ v ≤ size x + size y ∧ RoundsTo (x + y) v := by
  refine ⟨_, abs_nonneg _, ?_, (rounds_add hx hy).roundsTo⟩
  rw [← abs_toRat, ← abs_toRat]
  exact abs_add_le _ _

theorem roundsTo_mul_hundred (hx : x.isFinite = true) : RoundsTo (x * 100.0) (size x * 100) := by
  have h := (rounds_mul_hundred hx).roundsTo
  rwa [abs_mul, abs_toRat, abs_of_pos (show (0 : ℚ) < 100 by norm_num)] at h

theorem roundsTo_div_hundred (hx : x.isFinite = true) : RoundsTo (x / 100.0) (size x / 100) := by
  have h := (rounds_div_hundred hx).roundsTo
  rwa [abs_div, abs_toRat, abs_of_pos (show (0 : ℚ) < 100 by norm_num)] at h

/-! ## Whole parts -/

theorem Stands.ne_neg_zero (h : Stands x v) : x ≠ -0.0 := by
  rintro rfl
  have hu : (-0.0 : Float).toModel.unpack = .zero .negative := by
    rw [neg_zero_eq]
    rfl
  rcases h with ⟨hx, -⟩ | ⟨m, q, hm, hx, -⟩
  · rw [hu] at hx
    cases hx
  · rw [hu] at hx
    cases hx

theorem cast_div_bounds {m u : ℕ} (hu : 0 < u) (hr : m % u ≠ 0) :
    ((m / u : ℕ) : ℚ) < m / u ∧ (m : ℚ) / u < (m / u : ℕ) + 1 := by
  have hpos : (0 : ℚ) < u := by exact_mod_cast hu
  have hdiv := Nat.div_add_mod m u
  have hlt := Nat.mod_lt m hu
  rw [lt_div_iff₀ hpos, div_lt_iff₀ hpos]
  constructor
  · have hnat : m / u * u < m := by
      rw [mul_comm]
      omega
    exact_mod_cast hnat
  · have hnat : m < (m / u + 1) * u := by
      rw [add_mul, one_mul, mul_comm]
      omega
    exact_mod_cast hnat

/-- A double that is no whole number is a fraction of its mantissa. -/
theorem value_of_mod_ne_zero {m : ℕ} {e : ℤ} (h : m % Nat.pow 2 (-e).toNat ≠ 0) :
    (m : ℚ) * 2 ^ e = m / (Nat.pow 2 (-e).toNat : ℕ) := by
  have he : e < 0 := by
    by_contra hle
    rw [show (-e).toNat = 0 by omega] at h
    exact h (Nat.mod_one m)
  rw [← cast_div_two_pow m e, show e.toNat = 0 by omega]
  exact congrArg (fun n : ℕ => (n : ℚ) / _) (Nat.mul_one m)

/-- **The whole part of a double is its floor.** -/
theorem toRat_wholePart (hx : x.isFinite = true) :
    (Decimal.wholePart x).isFinite = true ∧ toRat (Decimal.wholePart x) = ⌊toRat x⌋ := by
  unfold Decimal.wholePart Decimal.reading
  rcases unpack_of_isFinite hx with ⟨s, hu⟩ | ⟨s, m, e, hm, hu⟩
  · rw [hu]
    dsimp only
    rw [if_pos (Nat.zero_mod _), toRat_zero hu, Int.floor_zero, Int.cast_zero]
    exact ⟨hx, rfl⟩
  · have hunit : 0 < Nat.pow 2 (-e).toNat := Nat.two_pow_pos _
    have hlt : m / Nat.pow 2 (-e).toNat < 2 ^ 53 :=
      lt_of_le_of_lt (Nat.div_le_self _ _) (canonical_of_unpack hu).1.lt
    rw [hu]
    dsimp only
    split_ifs with hwhole hsign
    · -- a whole number of units
      obtain ⟨j, hj⟩ := Nat.dvd_of_mod_eq_zero hwhole
      have hvalue : (m : ℚ) * 2 ^ e = (j * Nat.pow 2 e.toNat : ℕ) := by
        have hne : ((Nat.pow 2 (-e).toNat : ℕ) : ℚ) ≠ 0 := by exact_mod_cast hunit.ne'
        rw [← cast_div_two_pow m e, hj, mul_assoc, Nat.cast_mul, mul_div_cancel_left₀ _ hne]
      rw [toRat_finite hu, hvalue, ← cast_apply, Int.floor_intCast]
      exact ⟨hx, rfl⟩
    · obtain ⟨hlow, hhigh⟩ := cast_div_bounds hunit hwhole
      have hstands := stands_ofNat (n := m / Nat.pow 2 (-e).toNat + 1) (by omega)
      obtain ⟨hfinite, hneg⟩ := neg_finite hstands.isFinite
      obtain rfl : s = .negative := by simpa using hsign
      refine ⟨hfinite, ?_⟩
      rw [hneg, hstands.toRat_eq, toRat_finite hu, value_of_mod_ne_zero hwhole]
      generalize m / Nat.pow 2 (-e).toNat = k at hlow hhigh ⊢
      have hfloor :
          ⌊signed .negative ((m : ℚ) / (Nat.pow 2 (-e).toNat : ℕ))⌋ = -((k + 1 : ℕ) : ℤ) := by
        rw [Int.floor_eq_iff, Int.cast_neg, Int.cast_natCast, Nat.cast_add, Nat.cast_one, signed]
        constructor
        · linarith
        · linarith
      rw [hfloor, Int.cast_neg, Int.cast_natCast]
    · obtain ⟨hlow, hhigh⟩ := cast_div_bounds hunit hwhole
      have hstands := stands_ofNat (n := m / Nat.pow 2 (-e).toNat) hlt.le
      obtain rfl : s = .positive := by
        cases s with
        | positive => rfl
        | negative => exact absurd rfl hsign
      refine ⟨hstands.isFinite, ?_⟩
      rw [hstands.toRat_eq, toRat_finite hu, value_of_mod_ne_zero hwhole]
      generalize m / Nat.pow 2 (-e).toNat = k at hlow hhigh ⊢
      have hfloor : ⌊signed .positive ((m : ℚ) / (Nat.pow 2 (-e).toNat : ℕ))⌋ = (k : ℤ) := by
        rw [Int.floor_eq_iff, Int.cast_natCast, signed]
        exact ⟨hlow.le, hhigh⟩
      rw [hfloor, Int.cast_natCast]

theorem wholePart_ne_neg_zero (hx : x ≠ -0.0) (hfinite : x.isFinite = true) :
    Decimal.wholePart x ≠ -0.0 := by
  unfold Decimal.wholePart Decimal.reading
  rcases unpack_of_isFinite hfinite with ⟨s, hu⟩ | ⟨s, m, e, hm, hu⟩
  · rw [hu]
    dsimp only
    rwa [if_pos (Nat.zero_mod _)]
  · have hlt : m / Nat.pow 2 (-e).toNat < 2 ^ 53 :=
      lt_of_le_of_lt (Nat.div_le_self _ _) (canonical_of_unpack hu).1.lt
    rw [hu]
    dsimp only
    split_ifs
    · exact hx
    · have hstands := stands_ofNat (n := m / Nat.pow 2 (-e).toNat + 1) (by omega)
      intro heq
      have hneg := (neg_finite hstands.isFinite).2
      have hzero : toRat (-0.0) = 0 := by
        rw [neg_zero_eq]
        rfl
      rw [heq, hzero, hstands.toRat_eq] at hneg
      push_cast at hneg
      linarith [Nat.cast_nonneg (α := ℚ) (m / Nat.pow 2 (-e).toNat)]
    · exact (stands_ofNat hlt.le).ne_neg_zero

/-- The whole part of a finite double is finite, and at most one greater in size. -/
theorem wholePart_bounds (hx : x.isFinite = true) :
    (Decimal.wholePart x).isFinite = true ∧ size (Decimal.wholePart x) ≤ size x + 1 := by
  obtain ⟨hfinite, hfloor⟩ := toRat_wholePart hx
  refine ⟨hfinite, ?_⟩
  have hle := Int.floor_le (toRat x)
  have hlt := Int.lt_floor_add_one (toRat x)
  obtain ⟨hlow, hhigh⟩ := abs_le.1 (le_refl |toRat x|)
  rw [← abs_toRat, ← abs_toRat, hfloor, abs_le]
  constructor
  · linarith
  · linarith

theorem wholePart_of_not_isFinite (hx : x.isFinite = false) : Decimal.wholePart x = x := by
  unfold Decimal.wholePart Decimal.reading
  rcases unpack_of_not_isFinite hx with hu | ⟨s, hu⟩
  · rw [hu]
  · rw [hu]

/-! ## Hundredths -/

/-- Before it is divided by hundred, a rounded double is a whole part or one more. -/
theorem round2_of_not_isFinite (hx : x.isFinite = false) : round2 x = x :=
  if_neg (by rw [hx]; exact Bool.false_ne_true)

theorem round2_cases (hx : x.isFinite = true) :
    ∃ y, round2 x = y / 100.0 ∧
      (y = Decimal.wholePart (x * 100.0) ∨ y = Decimal.wholePart (x * 100.0) + 1.0) := by
  unfold round2
  rw [if_pos hx]
  refine ⟨_, rfl, ?_⟩
  split
  · exact .inr rfl
  · exact .inl rfl

theorem isFinite_div_hundred_iff (y : Float) : (y / 100.0).isFinite = true ↔ y.isFinite = true := by
  cases hy : y.isFinite with
  | false =>
    rw [isFinite_div_hundred hy]
  | true =>
    refine iff_of_true ((roundsTo_div_hundred hy).isFinite_iff.2 ?_) rfl
    have hlt := size_lt y
    have hnn := size_nonneg y
    linarith

theorem isFinite_add_one_iff (y : Float) : (y + 1.0).isFinite = true ↔ y.isFinite = true := by
  cases hy : y.isFinite with
  | false => rw [not_isFinite_add (.inl hy)]
  | true =>
    obtain ⟨v, -, hv, hround⟩ := roundsTo_add hy stands_one.isFinite
    refine iff_of_true (hround.isFinite_iff.2 ?_) rfl
    rw [stands_one.size_eq] at hv
    exact hv.trans_lt (size_add_one_lt y)

theorem isFinite_wholePart_iff (y : Float) :
    (Decimal.wholePart y).isFinite = true ↔ y.isFinite = true := by
  cases hy : y.isFinite with
  | false => rw [wholePart_of_not_isFinite hy, hy]
  | true => exact iff_of_true (wholePart_bounds hy).1 rfl

/-- **A double is rounded to a finite one** exactly when hundred times it is still in the range. -/
theorem isFinite_round2_iff (x : Float) :
    (round2 x).isFinite = true ↔ x.isFinite = true ∧ size x * 100 < overflow := by
  cases hx : x.isFinite with
  | false =>
    rw [round2_of_not_isFinite hx, hx]
    simp
  | true =>
    have hscaled := (roundsTo_mul_hundred hx).isFinite_iff
    obtain ⟨y, hround, rfl | rfl⟩ := round2_cases hx
    · rw [hround, isFinite_div_hundred_iff, isFinite_wholePart_iff, hscaled]
      simp
    · rw [hround, isFinite_div_hundred_iff, isFinite_add_one_iff, isFinite_wholePart_iff, hscaled]
      simp

/-! ## Bounded sizes -/

section Bounds

variable {n k : ℕ}

theorem near_le (hn : n ≤ 2 ^ 53) (hv : 0 ≤ v) (h : v ≤ n * 2 ^ k) : near v ≤ n * 2 ^ k := by
  have hkeep := near_bits hn (show -1074 ≤ (k : ℤ) by omega)
  rw [zpow_natCast] at hkeep
  rw [← hkeep]
  exact near_mono hv h

theorem lt_overflow (hn : n ≤ 2 ^ 53) (hk : k ≤ 970) (h : v ≤ n * 2 ^ k) : v < overflow := by
  have hcast : (n : ℚ) ≤ 2 ^ 53 := by exact_mod_cast hn
  have hpow : (2 : ℚ) ^ k ≤ 2 ^ (970 : ℤ) := by
    rw [← zpow_natCast]
    exact zpow_le_zpow_right₀ one_le_two (by exact_mod_cast hk)
  have hp := two_zpow_pos 970
  calc v ≤ n * 2 ^ k := h
    _ ≤ 2 ^ 53 * 2 ^ (970 : ℤ) := mul_le_mul hcast hpow (by positivity) (by norm_num)
    _ < overflow := mul_lt_mul_of_pos_right (by norm_num) hp

theorem RoundsTo.bounds (h : RoundsTo x v) (hn : n ≤ 2 ^ 53) (hk : k ≤ 970) (hv : 0 ≤ v)
    (hle : v ≤ n * 2 ^ k) : x.isFinite = true ∧ size x ≤ n * 2 ^ k := by
  have hfinite := h.isFinite_iff.2 (lt_overflow hn hk hle)
  refine ⟨hfinite, ?_⟩
  rw [h.size_eq hfinite]
  exact near_le hn hv hle

theorem round2_bounds (hn : 100 * n + 2 ≤ 2 ^ 53) (hk : k ≤ 970) (hx : x.isFinite = true)
    (hsize : size x ≤ n * 2 ^ k) :
    (round2 x).isFinite = true ∧ size (round2 x) ≤ (n + 1 : ℕ) * 2 ^ k := by
  have hone : (1 : ℚ) ≤ 2 ^ k := one_le_pow₀ one_le_two
  have hnx := size_nonneg x
  obtain ⟨hscaled, hscale⟩ := (roundsTo_mul_hundred hx).bounds (n := 100 * n) (by omega) hk
    (by linarith) (by push_cast; linarith)
  obtain ⟨hwhole, hwhole_le⟩ := wholePart_bounds hscaled
  obtain ⟨y, hround, hy⟩ := round2_cases hx
  have hbounds : y.isFinite = true ∧ size y ≤ (100 * n + 2 : ℕ) * 2 ^ k := by
    push_cast at hscale
    rcases hy with rfl | rfl
    · exact ⟨hwhole, by push_cast; linarith⟩
    · obtain ⟨v, hv, hle, hadd⟩ := roundsTo_add hwhole stands_one.isFinite
      rw [stands_one.size_eq] at hle
      exact hadd.bounds hn hk hv (by push_cast; linarith)
  obtain ⟨hfinite, hle⟩ := hbounds
  have hny := size_nonneg y
  push_cast at hle
  rw [hround]
  exact (roundsTo_div_hundred hfinite).bounds (by omega) hk (by linarith) (by push_cast; linarith)

theorem foldl_bounds {xs : List Float} {j : ℕ} (hk : k ≤ 970)
    (hx : x.isFinite = true ∧ size x ≤ j * 2 ^ k)
    (hxs : ∀ y ∈ xs, y.isFinite = true ∧ size y ≤ n * 2 ^ k) (hj : j + xs.length * n ≤ 2 ^ 53) :
    (xs.foldl (· + ·) x).isFinite = true ∧
      size (xs.foldl (· + ·) x) ≤ (j + xs.length * n : ℕ) * 2 ^ k := by
  induction xs generalizing x j with
  | nil => simpa using hx
  | cons y ys ih =>
    obtain ⟨⟨hy, hys⟩, hxs⟩ := List.forall_mem_cons.1 hxs
    rw [List.length_cons, Nat.succ_mul] at hj ⊢
    obtain ⟨v, hv, hle, hadd⟩ := roundsTo_add hx.1 hy
    have hsum := hadd.bounds (n := j + n) (by omega) hk hv (by push_cast; linarith [hx.2])
    have htail := ih hsum hxs (by omega)
    rwa [show j + n + ys.length * n = j + (ys.length * n + n) by omega] at htail

end Bounds

/-- A sum is finite only when its terms are. -/
theorem isFinite_of_foldl {xs : List Float} (h : (xs.foldl (· + ·) x).isFinite = true) :
    x.isFinite = true ∧ ∀ y ∈ xs, y.isFinite = true := by
  induction xs generalizing x with
  | nil => exact ⟨h, fun y hy => nomatch hy⟩
  | cons y ys ih =>
    obtain ⟨hsum, hys⟩ := ih h
    have hterms : x.isFinite = true ∧ y.isFinite = true := by
      by_contra hnot
      rw [not_and_or, Bool.not_eq_true, Bool.not_eq_true] at hnot
      rw [not_isFinite_add hnot] at hsum
      cases hsum
    exact ⟨hterms.1, List.forall_mem_cons.2 ⟨hterms.2, hys⟩⟩

end ItemBudget.Double
