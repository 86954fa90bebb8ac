import ItemBudget.Proofs.Double.Hundredths

/-!
# Sums in another order

A running sum is rounded after every term, so it can depend on the order of its terms. Each rounding
moves the sum by at most `roundoff` of itself, and no term is too small for that (`near_error`), so
the sum stays within `(growth n - 1) * mass` of the exact one (`running_error`). In hundredths, the
sums in two orders are the same when they are exact, and also when the exact sum is further than the
error from every half hundredth (`OrderFree`); in general they differ by little more than the error
(`round2_running_close`).
-/

namespace ItemBudget.Double

open Float.Model (UnpackedFloat)
open Float.Model.UnpackedFloat

/-- The sum of doubles from left to right, from the positive zero. -/
def running (xs : List Float) : Float := xs.foldl (· + ·) 0.0

/-- The sum of the rationals that doubles stand for. -/
def exactSum (xs : List Float) : ℚ := (xs.map toRat).sum

/-- The sum of the sizes of doubles. -/
def mass (xs : List Float) : ℚ := (xs.map size).sum

/-- What `n` roundings can multiply a size by. -/
def growth (n : ℕ) : ℚ := (1 + roundoff) ^ n

/-- How far from the exact sum the running sum can be once hundred times it is rounded. -/
def drift (xs : List Float) : ℚ := (growth (xs.length + 1) - 1) * mass xs

variable {x y : Float} {xs ys : List Float} {v w : ℚ}

/-! ## One rounding -/

/-- A whole number of the least units of a double. -/
def OnGrid (v : ℚ) : Prop := ∃ n : ℤ, v = n * 2 ^ (-1074 : ℤ)

theorem onGrid_toRat (x : Float) : OnGrid (toRat x) := by
  obtain ⟨n, e, -, he, heq⟩ := exists_units x
  rw [heq]
  exact finer_units n he

theorem OnGrid.add (hv : OnGrid v) (hw : OnGrid w) : OnGrid (v + w) := by
  obtain ⟨m, rfl⟩ := hv
  obtain ⟨n, rfl⟩ := hw
  exact ⟨m + n, by rw [Int.cast_add, add_mul]⟩

theorem OnGrid.mul_hundred (hv : OnGrid v) : OnGrid (v * 100) := by
  obtain ⟨n, rfl⟩ := hv
  exact ⟨n * 100, by rw [Int.cast_mul, Int.cast_ofNat, mul_right_comm]⟩

/-- Rounding a whole number of units moves it by at most `roundoff` of itself. -/
theorem near_error (hv : OnGrid v) : |nearSigned v - v| ≤ roundoff * |v| := by
  have hnonneg : 0 ≤ roundoff * |v| := mul_nonneg roundoff_pos.le (abs_nonneg v)
  obtain ⟨n, rfl⟩ := hv
  rcases le_or_gt n.natAbs (2 ^ 53) with hn | hn
  · rwa [nearSigned_bits hn le_rfl, sub_self, abs_zero]
  · -- too many bits, hence of normal size
    generalize hw : (n : ℚ) * 2 ^ (-1074 : ℤ) = w at hnonneg ⊢
    have hnormal : Normal |w| := by
      right
      have hcast : (2 : ℚ) ^ 53 ≤ |(n : ℚ)| := by
        rw [← Int.cast_abs, Int.abs_eq_natAbs]
        exact_mod_cast hn.le
      rw [← hw, abs_mul, abs_of_pos (two_zpow_pos _)]
      calc (2 : ℚ) ^ (-1022 : ℤ) ≤ 2 ^ 53 * 2 ^ (-1074 : ℤ) := by
            rw [← zpow_natCast, ← two_zpow_add]
            exact zpow_le_zpow_right₀ one_le_two (by norm_num)
        _ ≤ |(n : ℚ)| * 2 ^ (-1074 : ℤ) := mul_le_mul_of_nonneg_right hcast (two_zpow_pos _).le
    obtain ⟨hl, hu⟩ := near_bounds hnormal
    rw [abs_nearSigned_sub, abs_le]
    constructor
    · linarith
    · linarith

/-! ## Exact sums -/

theorem exactSum_concat (xs : List Float) (x : Float) :
    exactSum (xs ++ [x]) = exactSum xs + toRat x := by
  rw [exactSum, List.map_append, List.sum_append, List.map_singleton, List.sum_singleton, exactSum]

theorem mass_concat (xs : List Float) (x : Float) : mass (xs ++ [x]) = mass xs + size x := by
  rw [mass, List.map_append, List.sum_append, List.map_singleton, List.sum_singleton, mass]

theorem exactSum_perm (h : xs.Perm ys) : exactSum ys = exactSum xs :=
  (h.map toRat).sum_eq.symm

theorem mass_perm (h : xs.Perm ys) : mass ys = mass xs :=
  (h.map size).sum_eq.symm

theorem drift_perm (h : xs.Perm ys) : drift ys = drift xs := by
  rw [drift, drift, mass_perm h, h.length_eq]

theorem mass_nonneg (xs : List Float) : 0 ≤ mass xs := by
  refine List.sum_nonneg fun v hv => ?_
  obtain ⟨x, -, rfl⟩ := List.mem_map.1 hv
  exact size_nonneg x

theorem abs_exactSum_le (xs : List Float) : |exactSum xs| ≤ mass xs := by
  induction xs using List.reverseRecOn with
  | nil => exact abs_zero.le
  | append_singleton xs x ih =>
    rw [exactSum_concat, mass_concat]
    exact (abs_add_le _ _).trans (add_le_add ih (abs_toRat x).le)

theorem one_le_growth (n : ℕ) : 1 ≤ growth n :=
  one_le_pow₀ (by linarith [roundoff_pos])

theorem growth_succ (n : ℕ) : growth (n + 1) = growth n * (1 + roundoff) := pow_succ _ n

/-! ## Running sums -/

theorem running_concat (xs : List Float) (x : Float) : running (xs ++ [x]) = running xs + x :=
  List.foldl_concat _ _ _ _

theorem running_ne_neg_zero (xs : List Float) : running xs ≠ -0.0 := by
  induction xs using List.reverseRecOn with
  | nil => exact zero_ne_neg_zero
  | append_singleton xs x ih =>
    rw [running_concat]
    exact add_ne_neg_zero ih x

/-- **A running sum is close to the exact one**, by a rounding for each term. -/
theorem running_error (hx : ∀ x ∈ xs, x.isFinite = true)
    (hroom : growth xs.length * mass xs < overflow) :
    (running xs).isFinite = true ∧
      |toRat (running xs) - exactSum xs| ≤ (growth xs.length - 1) * mass xs := by
  induction xs using List.reverseRecOn with
  | nil =>
    refine ⟨stands_zero.isFinite, ?_⟩
    show |toRat 0.0 - 0| ≤ _ * 0
    rw [stands_zero.toRat_eq, sub_zero, abs_zero, mul_zero]
  | append_singleton xs x ih =>
    have hlast : x.isFinite = true := hx x (List.mem_append_right _ (List.mem_singleton_self x))
    rw [List.length_append, List.length_singleton, growth_succ, mass_concat] at hroom ⊢
    rw [exactSum_concat, running_concat]
    have hu := roundoff_pos
    have hg := one_le_growth xs.length
    have hm := mass_nonneg xs
    have hs := size_nonneg x
    have hexact := abs_exactSum_le xs
    have hall : growth xs.length * (mass xs + size x) ≤
        growth xs.length * (1 + roundoff) * (mass xs + size x) :=
      mul_le_mul_of_nonneg_right (by nlinarith) (add_nonneg hm hs)
    obtain ⟨hfinite, herror⟩ := ih (fun y hy => hx y (List.mem_append_left _ hy)) (by nlinarith)
    -- the exact result of the last addition
    have habs : |toRat (running xs) + toRat x| ≤ growth xs.length * (mass xs + size x) := by
      have hsum : |toRat (running xs)| ≤ growth xs.length * mass xs := by
        have htri := abs_sub_abs_le_abs_sub (toRat (running xs)) (exactSum xs)
        linarith
      have htri := abs_add_le (toRat (running xs)) (toRat x)
      rw [abs_toRat x] at htri
      nlinarith
    obtain ⟨hlastfinite, heq⟩ := (rounds_add hfinite hlast).inRange (by linarith)
    refine ⟨hlastfinite, ?_⟩
    have hround := near_error ((onGrid_toRat (running xs)).add (onGrid_toRat x))
    rw [← heq] at hround
    calc |toRat (running xs + x) - (exactSum xs + toRat x)|
        = |(toRat (running xs + x) - (toRat (running xs) + toRat x))
            + (toRat (running xs) - exactSum xs)| := by ring_nf
      _ ≤ roundoff * |toRat (running xs) + toRat x| + (growth xs.length - 1) * mass xs :=
          (abs_add_le _ _).trans (add_le_add hround herror)
      _ ≤ (growth xs.length * (1 + roundoff) - 1) * (mass xs + size x) := by nlinarith

/-- Hundred times a running sum, rounded. -/
theorem scaled_error (hx : ∀ x ∈ xs, x.isFinite = true)
    (hroom : growth (xs.length + 1) * mass xs * 100 < overflow) :
    (running xs).isFinite = true ∧ (running xs * 100.0).isFinite = true ∧
      |toRat (running xs * 100.0) - exactSum xs * 100| ≤ drift xs * 100 := by
  rw [growth_succ] at hroom
  have hu := roundoff_pos
  have hg := one_le_growth xs.length
  have hm := mass_nonneg xs
  have hgm : growth xs.length * mass xs ≤ growth xs.length * (1 + roundoff) * mass xs :=
    mul_le_mul_of_nonneg_right (by nlinarith) hm
  have hgm0 : 0 ≤ growth xs.length * mass xs := mul_nonneg (by linarith) hm
  obtain ⟨hfinite, herror⟩ := running_error hx (by linarith)
  have habs : |toRat (running xs) * 100| ≤ growth xs.length * mass xs * 100 := by
    have htri := abs_sub_abs_le_abs_sub (toRat (running xs)) (exactSum xs)
    have hexact := abs_exactSum_le xs
    rw [abs_mul, abs_of_pos (show (0 : ℚ) < 100 by norm_num)]
    linarith
  obtain ⟨hscaled, heq⟩ := (rounds_mul_hundred hfinite).inRange (by linarith)
  have hround := near_error (onGrid_toRat (running xs)).mul_hundred
  rw [← heq] at hround
  refine ⟨hfinite, hscaled, ?_⟩
  calc |toRat (running xs * 100.0) - exactSum xs * 100|
      = |(toRat (running xs * 100.0) - toRat (running xs) * 100)
          + (toRat (running xs) - exactSum xs) * 100| := by ring_nf
    _ ≤ roundoff * |toRat (running xs) * 100| + (growth xs.length - 1) * mass xs * 100 := by
        refine (abs_add_le _ _).trans (add_le_add hround ?_)
        rw [abs_mul, abs_of_pos (show (0 : ℚ) < 100 by norm_num)]
        linarith
    _ ≤ drift xs * 100 := by
        unfold drift
        rw [growth_succ]
        nlinarith

/-- Where nothing is rounded the running sum is the exact one. -/
theorem running_exact {e : ℤ} (hl : -1074 ≤ e) (hu : e ≤ 970)
    (hx : ∀ x ∈ xs, x.isFinite = true ∧ ∃ n : ℤ, toRat x = n * 2 ^ e)
    (hroom : mass xs ≤ 2 ^ 53 * 2 ^ e) :
    (running xs).isFinite = true ∧ toRat (running xs) = exactSum xs ∧
      ∃ n : ℤ, exactSum xs = n * 2 ^ e := by
  induction xs using List.reverseRecOn with
  | nil => exact ⟨stands_zero.isFinite, stands_zero.toRat_eq, 0, by simp [exactSum]⟩
  | append_singleton xs x ih =>
    obtain ⟨hlast, n, hn⟩ := hx x (List.mem_append_right _ (List.mem_singleton_self x))
    have hexact := abs_exactSum_le (xs ++ [x])
    rw [mass_concat] at hroom hexact
    have hs := size_nonneg x
    obtain ⟨hfinite, heq, m, hm⟩ :=
      ih (fun y hy => hx y (List.mem_append_left _ hy)) (by linarith)
    have hsum : exactSum (xs ++ [x]) = (m + n : ℤ) * 2 ^ e := by
      rw [exactSum_concat, hm, hn]
      push_cast
      ring
    have hbits : (m + n).natAbs ≤ 2 ^ 53 := by
      rw [hsum, abs_mul, abs_of_pos (two_zpow_pos e)] at hexact
      have hle : |((m + n : ℤ) : ℚ)| ≤ 2 ^ 53 :=
        le_of_mul_le_mul_right (hexact.trans hroom) (two_zpow_pos e)
      rw [← Int.cast_abs, Int.abs_eq_natAbs] at hle
      exact_mod_cast hle
    have hround := rounds_add hfinite hlast
    rw [heq, ← exactSum_concat, hsum] at hround
    obtain ⟨hlastfinite, hlasteq⟩ := hround.inRange (abs_units_lt hbits hu)
    rw [nearSigned_bits hbits hl] at hlasteq
    rw [running_concat]
    exact ⟨hlastfinite, hlasteq.trans hsum.symm, m + n, hsum⟩

/-! ## Other orders -/

theorem add_symm (x y : Float) : x + y = y + x := by
  rw [add_eq_ofUnpacked, add_eq_ofUnpacked]
  refine congrArg ofUnpacked ?_
  cases x.toModel.unpack with
  | notANumber => cases y.toModel.unpack <;> rfl
  | infinity s =>
    cases y.toModel.unpack with
    | infinity t => cases s <;> cases t <;> rfl
    | _ => rfl
  | zero s =>
    cases y.toModel.unpack with
    | zero t => cases s <;> cases t <;> rfl
    | _ => rfl
  | finite s m e hm =>
    cases y.toModel.unpack with
    | finite t n f hn =>
      simp only [UnpackedFloat.add]
      rw [min_comm, Int.add_comm]
    | _ => rfl

theorem add_neg_zero (x : Float) : x + -0.0 = x :=
  (add_symm x _).trans (neg_zero_add x)

theorem zero_add_of_ne (h : x ≠ -0.0) : 0.0 + x = x :=
  (add_symm _ x).trans (add_zero_of_ne h)

/-- The sum of two doubles from zero does not depend on their order. -/
theorem running_swap (x y : Float) : running [y, x] = running [x, y] := by
  show 0.0 + y + x = 0.0 + x + y
  by_cases hx : x = -0.0
  · rw [hx, add_neg_zero, add_neg_zero]
  by_cases hy : y = -0.0
  · rw [hy, add_neg_zero, add_neg_zero]
  · rw [zero_add_of_ne hx, zero_add_of_ne hy, add_symm]

/-- Doubles whose sum in hundredths does not depend on their order: at most two, the same one again
and again, doubles that are added without rounding, or such that the exact sum is further from every
half hundredth than the running sums can be from it. -/
inductive OrderFree (xs : List Float) : Prop
  | few (h : xs.length ≤ 2)
  | alike (x : Float) (h : ∀ y ∈ xs, y = x)
  | exact (e : ℤ) (low : -1074 ≤ e) (high : e ≤ 970)
      (units : ∀ x ∈ xs, x.isFinite = true ∧ ∃ n : ℤ, toRat x = n * 2 ^ e)
      (room : mass xs ≤ 2 ^ 53 * 2 ^ e)
  | clear (finite : ∀ x ∈ xs, x.isFinite = true)
      (away : drift xs * 100 < |Int.fract (exactSum xs * 100) - 1 / 2|)

theorem floor_add_half_eq {u d : ℚ} (hclose : |v - u| ≤ d) (haway : d < |Int.fract u - 1 / 2|) :
    ⌊v + 1 / 2⌋ = ⌊u + 1 / 2⌋ := by
  obtain ⟨hl, hr⟩ := abs_le.1 hclose
  have h0 := Int.fract_nonneg u
  have h1 := Int.fract_lt_one u
  have hself := Int.self_sub_floor u
  rw [floor_add_half u, Int.floor_eq_iff]
  split_ifs with h
  · rw [abs_of_nonneg (by linarith)] at haway
    push_cast
    constructor
    · linarith
    · linarith
  · rw [abs_of_neg (by linarith)] at haway
    push_cast
    constructor
    · linarith
    · linarith

/-- Doubles with a small drift are far from the end of the range. -/
theorem room_of_drift (h : drift xs * 100 ≤ 1) :
    growth (xs.length + 1) * mass xs * 100 < overflow := by
  have hu := roundoff_pos
  have hm := mass_nonneg xs
  have hdrift : growth (xs.length + 1) * mass xs = drift xs + mass xs := by
    unfold drift
    ring
  have hmass : roundoff * mass xs ≤ drift xs := by
    have hg := one_le_growth xs.length
    refine mul_le_mul_of_nonneg_right ?_ hm
    rw [growth_succ]
    nlinarith
  have hsmall : mass xs * 100 ≤ 2 ^ 53 := by
    unfold roundoff at hmass
    linarith
  have hlarge := abs_units_lt (n := 2 ^ 53) (q := 1) (by norm_num) (by norm_num)
  norm_num at hlarge
  linarith

/-- Sums in two orders are the same in hundredths when their terms are `OrderFree`. -/
theorem OrderFree.round2_running (h : OrderFree xs) (hp : xs.Perm ys) :
    round2 (running ys) = round2 (running xs) := by
  cases h with
  | few h =>
    match xs, h with
    | [], _ => rw [hp.nil_eq]
    | [x], _ => rw [List.singleton_perm.1 hp]
    | [x, y], _ =>
      rcases List.pair_perm.1 hp with rfl | rfl
      · rfl
      · rw [running_swap]
  | alike x h =>
    rw [List.eq_replicate_of_mem h] at hp ⊢
    rw [List.replicate_perm.1 hp]
  | exact e low high units room =>
    obtain ⟨hx, hxe, -⟩ := running_exact low high units room
    have hunits : ∀ y ∈ ys, y.isFinite = true ∧ ∃ n : ℤ, toRat y = n * 2 ^ e :=
      fun y hy => units y (hp.mem_iff.2 hy)
    obtain ⟨hy, hye, -⟩ := running_exact low high hunits (by rwa [mass_perm hp])
    have heq : running ys = running xs :=
      eq_of_toRat hy hx (running_ne_neg_zero ys) (running_ne_neg_zero xs)
        (by rw [hye, hxe, exactSum_perm hp])
    rw [heq]
  | clear finite away =>
    have hsmall : |Int.fract (exactSum xs * 100) - 1 / 2| ≤ 1 := by
      have h0 := Int.fract_nonneg (exactSum xs * 100)
      have h1 := Int.fract_lt_one (exactSum xs * 100)
      rw [abs_le]
      constructor
      · linarith
      · linarith
    have hroom := room_of_drift (away.le.trans hsmall)
    obtain ⟨hx, hxs, hxe⟩ := scaled_error finite hroom
    have hfinite : ∀ y ∈ ys, y.isFinite = true := fun y hy => finite y (hp.mem_iff.2 hy)
    obtain ⟨hy, hys, hye⟩ := scaled_error hfinite (by rwa [mass_perm hp, hp.length_eq.symm])
    rw [exactSum_perm hp, drift_perm hp] at hye
    refine round2_congr hy hys hx hxs (running_ne_neg_zero ys) (running_ne_neg_zero xs) ?_
    rw [floor_add_half_eq hxe away, floor_add_half_eq hye away]

/-- **Sums in two orders** are the doubles of two whole numbers of hundredths that differ by little
more than the roundings. -/
theorem round2_running_close (hp : xs.Perm ys) (hx : ∀ x ∈ xs, x.isFinite = true)
    (hroom : growth (xs.length + 1) * mass xs * 100 < overflow) :
    ∃ j k : ℤ, toRat (round2 (running xs)) = nearSigned (j / 100) ∧
      toRat (round2 (running ys)) = nearSigned (k / 100) ∧ |(j - k : ℚ)| < 1 + drift xs * 200 := by
  obtain ⟨hxf, hxs, hxe⟩ := scaled_error hx hroom
  have hy : ∀ y ∈ ys, y.isFinite = true := fun y hy => hx y (hp.mem_iff.2 hy)
  obtain ⟨hyf, hys, hye⟩ := scaled_error hy (by rwa [mass_perm hp, hp.length_eq.symm])
  rw [exactSum_perm hp, drift_perm hp] at hye
  refine ⟨_, _, (toRat_round2 hxf hxs).2, (toRat_round2 hyf hys).2, ?_⟩
  generalize toRat (running xs * 100.0) = v at hxe ⊢
  generalize toRat (running ys * 100.0) = w at hye ⊢
  have hv := Int.floor_le (v + 1 / 2)
  have hv' := Int.lt_floor_add_one (v + 1 / 2)
  have hw := Int.floor_le (w + 1 / 2)
  have hw' := Int.lt_floor_add_one (w + 1 / 2)
  obtain ⟨hx1, hx2⟩ := abs_le.1 hxe
  obtain ⟨hy1, hy2⟩ := abs_le.1 hye
  rw [abs_lt]
  constructor
  · linarith
  · linarith

end ItemBudget.Double
