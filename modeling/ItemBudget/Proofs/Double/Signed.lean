import ItemBudget.Proofs.Double.Range

/-!
# Arithmetic with a sign

`toRat x` is the rational that a finite double stands for, its sign included. An operation on finite
doubles gives the double nearest to the exact result, or the infinity of its sign when the result is
out of range: `Rounds`, with one lemma for each operation. Finite doubles compare as their rationals
do (`lt_iff_toRat`), and only the two zeros stand for one rational (`eq_of_toRat`).
-/

namespace ItemBudget.Double

open Float.Model (UnpackedFloat)
open Float.Model.UnpackedFloat

/-- A rational with a sign. -/
def signed (s : Sign) (v : ℚ) : ℚ :=
  match s with
  | .positive => v
  | .negative => -v

/-- The rational that a finite double stands for. An infinity and NaN count as 0. -/
def toRat (x : Float) : ℚ :=
  match x.toModel.unpack with
  | .finite s m q _ => signed s (m * 2 ^ q)
  | _ => 0

/-- What a rational of either sign is rounded to, whatever its size. -/
def nearSigned (v : ℚ) : ℚ := if v < 0 then -near (-v) else near v

variable {x y : Float} {v w : ℚ}

/-! ## Signs -/

theorem abs_signed (s : Sign) (v : ℚ) : |signed s v| = |v| := by
  cases s with
  | positive => rfl
  | negative => exact abs_neg v

theorem signed_zero (s : Sign) : signed s 0 = 0 := by
  cases s with
  | positive => rfl
  | negative => exact neg_zero

theorem signed_mul (s : Sign) (v w : ℚ) : signed s (v * w) = signed s v * w := by
  cases s with
  | positive => rfl
  | negative => exact (neg_mul v w).symm

theorem natAbs_apply (s : Sign) (m : ℕ) : (s.apply (m : ℤ)).natAbs = m := by
  cases s with
  | positive => exact Int.natAbs_natCast m
  | negative => exact (Int.natAbs_neg _).trans (Int.natAbs_natCast m)

theorem cast_apply (s : Sign) (m : ℕ) : ((s.apply (m : ℤ) : ℤ) : ℚ) = signed s m := by
  cases s with
  | positive => exact Int.cast_natCast m
  | negative =>
    show ((-(m : ℤ) : ℤ) : ℚ) = -m
    rw [Int.cast_neg, Int.cast_natCast]

theorem signed_neg (s : Sign) (v : ℚ) : signed (-s) v = -signed s v := by
  cases s with
  | positive => rfl
  | negative => exact (neg_neg v).symm

theorem nearSigned_of_nonneg (hv : 0 ≤ v) : nearSigned v = near v :=
  if_neg (not_lt.2 hv)

theorem nearSigned_zero : nearSigned 0 = 0 := by
  rw [nearSigned_of_nonneg le_rfl, near_zero]

theorem nearSigned_neg (v : ℚ) : nearSigned (-v) = -nearSigned v := by
  rcases lt_trichotomy v 0 with h | rfl | h
  · rw [nearSigned_of_nonneg (by linarith), nearSigned, if_pos h, neg_neg]
  · rw [neg_zero, nearSigned_zero, neg_zero]
  · rw [nearSigned, if_pos (by linarith), neg_neg, nearSigned_of_nonneg h.le]

theorem nearSigned_signed (s : Sign) (hv : 0 ≤ v) : nearSigned (signed s v) = signed s (near v) := by
  cases s with
  | positive => exact nearSigned_of_nonneg hv
  | negative =>
    show nearSigned (-v) = -near v
    rw [nearSigned_neg, nearSigned_of_nonneg hv]

theorem abs_nearSigned (v : ℚ) : |nearSigned v| = near |v| := by
  rcases lt_or_ge v 0 with h | h
  · rw [nearSigned, if_pos h, abs_neg, abs_of_nonneg (near_nonneg _), abs_of_neg h]
  · rw [nearSigned_of_nonneg h, abs_of_nonneg (near_nonneg _), abs_of_nonneg h]

/-- Rounding moves a rational as far as its size. -/
theorem abs_nearSigned_sub (v : ℚ) : |nearSigned v - v| = abs (near |v| - |v|) := by
  rcases lt_or_ge v 0 with h | h
  · rw [nearSigned, if_pos h, abs_of_neg h, ← abs_neg]
    ring_nf
  · rw [nearSigned_of_nonneg h, abs_of_nonneg h]

/-- Rounding keeps the order on both sides of zero. -/
theorem nearSigned_mono (h : v ≤ w) : nearSigned v ≤ nearSigned w := by
  rcases lt_or_ge v 0 with hv | hv
  · rw [nearSigned, if_pos hv]
    rcases lt_or_ge w 0 with hw | hw
    · rw [nearSigned, if_pos hw]
      exact neg_le_neg (near_mono (by linarith) (by linarith))
    · rw [nearSigned_of_nonneg hw]
      linarith [near_nonneg (-v), near_nonneg w]
  · rw [nearSigned_of_nonneg hv, nearSigned_of_nonneg (hv.trans h)]
    exact near_mono hv h

/-- Rounding keeps a number of at most 53 bits, of either sign. -/
theorem nearSigned_bits {n q : ℤ} (hn : n.natAbs ≤ 2 ^ 53) (hq : -1074 ≤ q) :
    nearSigned (n * 2 ^ q) = n * 2 ^ q := by
  have hkeep := near_bits hn hq
  have hnonneg : (0 : ℚ) ≤ n.natAbs * 2 ^ q := mul_nonneg (Nat.cast_nonneg _) (two_zpow_pos q).le
  rcases Int.natAbs_eq n with h | h
  · rw [h, Int.cast_natCast, nearSigned_of_nonneg hnonneg, hkeep]
  · rw [h, Int.cast_neg, Int.cast_natCast, neg_mul, nearSigned_neg, nearSigned_of_nonneg hnonneg,
      hkeep]

theorem nearSigned_intCast {n : ℤ} (hn : n.natAbs ≤ 2 ^ 53) : nearSigned n = n := by
  have h := nearSigned_bits hn (show -1074 ≤ (0 : ℤ) by norm_num)
  rwa [zpow_zero, mul_one] at h

/-- A number of at most 53 bits is in range up to the greatest exponent. -/
theorem abs_units_lt {n q : ℤ} (hn : n.natAbs ≤ 2 ^ 53) (hq : q ≤ 970) :
    |(n : ℚ) * 2 ^ q| < overflow := by
  have hcast : |(n : ℚ)| ≤ 2 ^ 53 := by
    rw [← Int.cast_abs, Int.abs_eq_natAbs]
    exact_mod_cast hn
  rw [abs_mul, abs_of_pos (two_zpow_pos q)]
  calc |(n : ℚ)| * 2 ^ q ≤ 2 ^ 53 * 2 ^ (970 : ℤ) :=
        mul_le_mul hcast (zpow_le_zpow_right₀ one_le_two hq) (two_zpow_pos q).le (by norm_num)
    _ < overflow := mul_lt_mul_of_pos_right (by norm_num) (two_zpow_pos 970)

/-! ## The rational of a double -/

theorem toRat_finite {s : Sign} {m : ℕ} {q : ℤ} {hm : 0 < m}
    (h : x.toModel.unpack = .finite s m q hm) : toRat x = signed s (m * 2 ^ q) := by
  rw [toRat, h]

theorem toRat_zero {s : Sign} (h : x.toModel.unpack = .zero s) : toRat x = 0 := by
  rw [toRat, h]

theorem abs_toRat (x : Float) : |toRat x| = size x := by
  unfold toRat size
  cases x.toModel.unpack with
  | finite s m q hm =>
    have hnonneg : (0 : ℚ) ≤ m * 2 ^ q := mul_nonneg (Nat.cast_nonneg m) (two_zpow_pos q).le
    exact (abs_signed s _).trans (abs_of_nonneg hnonneg)
  | _ => exact abs_zero

theorem abs_toRat_lt (x : Float) : |toRat x| < overflow :=
  (abs_toRat x).trans_lt (size_lt x)

/-- A double is a whole number of units, each a power of two. -/
theorem exists_units (x : Float) :
    ∃ n e : ℤ, n.natAbs < 2 ^ 53 ∧ -1074 ≤ e ∧ toRat x = n * 2 ^ e := by
  unfold toRat
  cases hx : x.toModel.unpack with
  | finite s m q hm =>
    obtain ⟨hc, -⟩ := canonical_of_unpack hx
    refine ⟨s.apply m, q, ?_, hc.least, ?_⟩
    · rw [natAbs_apply]
      exact hc.lt
    · dsimp only
      rw [cast_apply, signed_mul]
  | _ => exact ⟨0, 0, by norm_num, by norm_num, by rw [Int.cast_zero, zero_mul]⟩

/-- A whole number of units is one of finer units. -/
theorem finer_units (n : ℤ) {e f : ℤ} (h : f ≤ e) : ∃ m : ℤ, (n : ℚ) * 2 ^ e = m * 2 ^ f := by
  obtain ⟨k, hk⟩ := Int.eq_ofNat_of_zero_le (sub_nonneg.2 h)
  refine ⟨n * 2 ^ k, ?_⟩
  rw [show e = (k : ℤ) + f by omega, two_zpow_add, zpow_natCast, ← mul_assoc, Int.cast_mul,
    Int.cast_pow, Int.cast_ofNat]

/-- A whole number of units from one on is a whole number. -/
theorem whole_of_units (n : ℤ) {e : ℤ} (h : 0 ≤ e) : ∃ m : ℤ, (n : ℚ) * 2 ^ e = m := by
  obtain ⟨m, hm⟩ := finer_units n h
  exact ⟨m, by rw [hm, zpow_zero, mul_one]⟩

theorem nearSigned_toRat (x : Float) : nearSigned (toRat x) = toRat x := by
  obtain ⟨n, e, hn, he, heq⟩ := exists_units x
  rw [heq]
  exact nearSigned_bits hn.le he

theorem Stands.toRat_eq (h : Stands x v) : toRat x = v := by
  rcases h with ⟨hx, rfl⟩ | ⟨m, q, hm, hx, rfl⟩
  · exact toRat_zero hx
  · exact toRat_finite hx

/-! ## Rounded results -/

theorem eq_infinity {s : Sign} (h : x.toModel.unpack = .infinity s) :
    x = ofUnpacked (.infinity s) := by
  rw [← h, ofUnpacked_unpack]

/-- The double nearest to a rational, or the infinity of its sign when it is out of range. -/
structure Rounds (x : Float) (v : ℚ) : Prop where
  inRange : |v| < overflow → x.isFinite = true ∧ toRat x = nearSigned v
  beyond : overflow ≤ |v| → x.toModel.unpack = .infinity (if v < 0 then .negative else .positive)

theorem rounds_zero (s : Sign) : Rounds (ofUnpacked (.zero s)) 0 where
  inRange _ := by
    rw [nearSigned_zero]
    cases s with
    | _ => exact ⟨rfl, rfl⟩
  beyond h := by
    rw [abs_zero] at h
    exact absurd overflow_pos (not_lt.2 h)

theorem rounds_rounded (s : Sign) (hv : 0 ≤ v) : Rounds (ofUnpacked (rounded s v)) (signed s v) := by
  rcases hv.lt_or_eq with hpos | rfl
  · have hnear := magnitude_rounded s v
    have habs : |signed s v| = v := (abs_signed s v).trans (abs_of_nonneg hv)
    constructor
    · intro hlt
      rw [habs, ← near_lt_iff hv, ← hnear] at hlt
      rw [nearSigned_signed s hv, ← hnear]
      rcases rounded_cases s hpos with hr | ⟨m, q, hc, hr⟩
      · rw [hr, show magnitude (.zero s) = 0 from rfl, signed_zero]
        cases s with
        | _ => exact ⟨rfl, rfl⟩
      · rw [hr] at hlt ⊢
        have hu := unpack_ofUnpacked s hc (hc.lt_iff.1 hlt)
        refine ⟨?_, toRat_finite hu⟩
        show (ofUnpacked _).toModel.unpack.isFinite = true
        rw [hu]
        rfl
    · intro hle
      rw [habs, ← not_lt, ← near_lt_iff hv, ← hnear] at hle
      rcases rounded_cases s hpos with hr | ⟨m, q, hc, hr⟩
      · rw [hr] at hle
        exact absurd (two_zpow_pos 1024) hle
      · rw [hr] at hle ⊢
        have hq : maxExponent < q := not_le.1 fun h => hle (hc.lt_iff.2 h)
        rw [ofUnpacked_of_lt s hc.pos hq]
        cases s with
        | positive => exact congrArg UnpackedFloat.infinity (if_neg (not_lt.2 hv)).symm
        | negative => exact congrArg UnpackedFloat.infinity (if_pos (neg_neg_of_pos hpos)).symm
  · rw [rounded, zero_div, roundEven_zero, signed_zero]
    exact rounds_zero s

theorem rounds_self (hx : x.isFinite = true) : Rounds x (toRat x) where
  inRange _ := ⟨hx, (nearSigned_toRat x).symm⟩
  beyond h := absurd (abs_toRat_lt x) (not_lt.2 h)

/-- What an unpacked form of a finite double stands for, before it is packed again. -/
theorem rounds_of_unpack {u : UnpackedFloat} (hx : x.isFinite = true) (hu : x.toModel.unpack = u) :
    Rounds (ofUnpacked u) (toRat x) := by
  rw [← hu, ofUnpacked_unpack]
  exact rounds_self hx

theorem rounds_round (s : Sign) {m : ℕ} (e : ℤ) (hm : 0 < m) :
    Rounds (ofUnpacked (UnpackedFloat.round .binary64 s m e)) (s.apply (m : ℤ) * 2 ^ e : ℚ) := by
  rw [round_eq s e hm, cast_apply, ← signed_mul]
  exact rounds_rounded s (mul_nonneg (Nat.cast_nonneg m) (two_zpow_pos e).le)

theorem rounds_normalize (n e : ℤ) :
    Rounds (ofUnpacked (UnpackedFloat.normalize .binary64 n e .positive)) (n * 2 ^ e) := by
  unfold UnpackedFloat.normalize
  rcases lt_trichotomy n 0 with hn | rfl | hn
  · have hsign : Sign.apply .negative ((-n).toNat : ℤ) = n := by
      rw [Int.toNat_of_nonneg (by omega)]
      exact neg_neg n
    have hround := rounds_round .negative (m := (-n).toNat) e (by omega)
    rw [hsign] at hround
    rwa [Int.compare_eq_lt.2 hn]
  · rw [Int.cast_zero, zero_mul]
    exact rounds_zero .positive
  · have hsign : Sign.apply .positive (n.toNat : ℤ) = n := Int.toNat_of_nonneg hn.le
    have hround := rounds_round .positive (m := n.toNat) e (by omega)
    rw [hsign] at hround
    rwa [Int.compare_eq_gt.2 hn]

/-! ## Operations -/

theorem cast_apply_shiftLeft (s : Sign) (m : ℕ) {e t : ℤ} (h : t ≤ e) :
    ((s.apply (m <<< (e - t).toNat : ℕ) : ℤ) : ℚ) * 2 ^ t = signed s (m * 2 ^ e) := by
  rw [cast_apply, ← signed_mul, cast_shiftLeft m h]

theorem rounds_add (hx : x.isFinite = true) (hy : y.isFinite = true) :
    Rounds (x + y) (toRat x + toRat y) := by
  rw [add_eq_ofUnpacked]
  rcases unpack_of_isFinite hx with ⟨s, hu⟩ | ⟨s, m, e, hm, hu⟩
  · rcases unpack_of_isFinite hy with ⟨t, hv⟩ | ⟨t, n, f, hn, hv⟩
    · rw [toRat_zero hu, toRat_zero hv, add_zero, hu, hv]
      cases s <;> cases t <;> exact rounds_zero _
    · rw [toRat_zero hu, zero_add, hu, hv]
      exact rounds_of_unpack hy hv
  · rcases unpack_of_isFinite hy with ⟨t, hv⟩ | ⟨t, n, f, hn, hv⟩
    · rw [toRat_zero hv, add_zero, hu, hv]
      exact rounds_of_unpack hx hu
    · -- both mantissas are written in the smaller unit
      have hsum := rounds_normalize (s.apply (m <<< (e - min e f).toNat : ℕ)
        + t.apply (n <<< (f - min e f).toNat : ℕ)) (min e f)
      rw [Int.cast_add, add_mul, cast_apply_shiftLeft s m (min_le_left e f),
        cast_apply_shiftLeft t n (min_le_right e f)] at hsum
      rw [toRat_finite hu, toRat_finite hv, hu, hv]
      exact hsum

theorem neg_eq_ofUnpacked (x : Float) : -x = ofUnpacked x.toModel.unpack.neg := rfl

theorem rounds_neg (hx : x.isFinite = true) : Rounds (-x) (-toRat x) := by
  rw [neg_eq_ofUnpacked]
  rcases unpack_of_isFinite hx with ⟨s, hu⟩ | ⟨s, m, e, hm, hu⟩
  · rw [toRat_zero hu, neg_zero, hu]
    exact rounds_zero (-s)
  · have hnonneg : (0 : ℚ) ≤ m * 2 ^ e := mul_nonneg (Nat.cast_nonneg m) (two_zpow_pos e).le
    have hround := rounds_rounded (-s) hnonneg
    rw [rounded_exact (-s) (canonical_of_unpack hu).1, signed_neg, ← toRat_finite hu] at hround
    rwa [hu]

theorem neg_finite (hx : x.isFinite = true) : (-x).isFinite = true ∧ toRat (-x) = -toRat x := by
  obtain ⟨hfinite, heq⟩ := (rounds_neg hx).inRange (by rw [abs_neg]; exact abs_toRat_lt x)
  rw [nearSigned_neg, nearSigned_toRat] at heq
  exact ⟨hfinite, heq⟩

theorem rounds_sub (hx : x.isFinite = true) (hy : y.isFinite = true) :
    Rounds (x - y) (toRat x - toRat y) := by
  have hdiff : x - y = ofUnpacked (UnpackedFloat.sub .binary64 x.toModel.unpack y.toModel.unpack) :=
    rfl
  rw [hdiff]
  rcases unpack_of_isFinite hx with ⟨s, hu⟩ | ⟨s, m, e, hm, hu⟩
  · rcases unpack_of_isFinite hy with ⟨t, hv⟩ | ⟨t, n, f, hn, hv⟩
    · rw [toRat_zero hu, toRat_zero hv, sub_zero, hu, hv]
      cases s <;> cases t <;> exact rounds_zero _
    · have hneg := rounds_neg hy
      rw [neg_eq_ofUnpacked, hv] at hneg
      rw [toRat_zero hu, zero_sub, hu, hv]
      exact hneg
  · rcases unpack_of_isFinite hy with ⟨t, hv⟩ | ⟨t, n, f, hn, hv⟩
    · rw [toRat_zero hv, sub_zero, hu, hv]
      exact rounds_of_unpack hx hu
    · have hsum := rounds_normalize (s.apply (m <<< (e - min e f).toNat : ℕ)
        - t.apply (n <<< (f - min e f).toNat : ℕ)) (min e f)
      rw [Int.cast_sub, sub_mul, cast_apply_shiftLeft s m (min_le_left e f),
        cast_apply_shiftLeft t n (min_le_right e f)] at hsum
      rw [toRat_finite hu, toRat_finite hv, hu, hv]
      exact hsum

theorem rounds_mul_hundred (hx : x.isFinite = true) : Rounds (x * 100.0) (toRat x * 100) := by
  have hprod : x * 100.0 = ofUnpacked (UnpackedFloat.mul .binary64 x.toModel.unpack
    (100.0 : Float).toModel.unpack) := rfl
  rw [hprod, unpack_hundred]
  rcases unpack_of_isFinite hx with ⟨s, hu⟩ | ⟨s, m, e, hm, hu⟩
  · rw [toRat_zero hu, zero_mul, hu]
    exact rounds_zero _
  · have hnonneg : (0 : ℚ) ≤ m * 2 ^ e := mul_nonneg (Nat.cast_nonneg m) (two_zpow_pos e).le
    have hvalue : ((7036874417766400 : ℕ) : ℚ) * 2 ^ (-46 : ℤ) = 100 := by norm_num
    rw [toRat_finite hu, hu, mul_finite s .positive hm _ (by omega), hvalue, ← signed_mul,
      show s * .positive = s by cases s <;> rfl]
    exact rounds_rounded s (mul_nonneg hnonneg (by norm_num))

theorem rounds_div_hundred (hx : x.isFinite = true) : Rounds (x / 100.0) (toRat x / 100) := by
  have hquot : x / 100.0 = ofUnpacked (UnpackedFloat.div .binary64 x.toModel.unpack
    (100.0 : Float).toModel.unpack) := rfl
  rw [hquot, unpack_hundred]
  rcases unpack_of_isFinite hx with ⟨s, hu⟩ | ⟨s, m, e, hm, hu⟩
  · rw [toRat_zero hu, zero_div, hu]
    exact rounds_zero _
  · have hnonneg : (0 : ℚ) ≤ m * 2 ^ e := mul_nonneg (Nat.cast_nonneg m) (two_zpow_pos e).le
    have hvalue : ((7036874417766400 : ℕ) : ℚ) * 2 ^ (-46 : ℤ) = 100 := by norm_num
    rw [toRat_finite hu, hu, div_finite s .positive hm, hvalue, div_eq_mul_inv, div_eq_mul_inv,
      ← signed_mul, show s / .positive = s by cases s <;> rfl]
    exact rounds_rounded s (mul_nonneg hnonneg (by norm_num))

/-! ## Comparisons -/

theorem compare_swap (v w : ℚ) : (compare v w).swap = compare (-v) (-w) := by
  rcases lt_trichotomy v w with h | rfl | h
  · rw [compare_lt_iff_lt.2 h, compare_gt_iff_gt.2 (neg_lt_neg h)]
    rfl
  · rw [compare_eq_iff_eq.2 rfl, compare_eq_iff_eq.2 rfl]
    rfl
  · rw [compare_gt_iff_gt.2 h, compare_lt_iff_lt.2 (neg_lt_neg h)]
    rfl

theorem compare_toRat (hx : x.isFinite = true) (hy : y.isFinite = true) :
    x.toModel.unpack.compare y.toModel.unpack = some (compare (toRat x) (toRat y)) := by
  have hpos : ∀ {m : ℕ} (e : ℤ), 0 < m → (0 : ℚ) < m * 2 ^ e :=
    fun e hm => mul_pos (by exact_mod_cast hm) (two_zpow_pos e)
  rcases unpack_of_isFinite hx with ⟨s, hu⟩ | ⟨s, m, e, hm, hu⟩
  · rcases unpack_of_isFinite hy with ⟨t, hv⟩ | ⟨t, n, f, hn, hv⟩
    · rw [toRat_zero hu, toRat_zero hv, hu, hv, compare_eq_iff_eq.2 rfl]
      rfl
    · rw [toRat_zero hu, toRat_finite hv, hu, hv]
      cases t with
      | positive => rw [compare_lt_iff_lt.2 (show 0 < signed .positive _ from hpos f hn)]; rfl
      | negative =>
        rw [compare_gt_iff_gt.2 (show signed .negative _ < 0 from neg_neg_of_pos (hpos f hn))]
        rfl
  · rcases unpack_of_isFinite hy with ⟨t, hv⟩ | ⟨t, n, f, hn, hv⟩
    · rw [toRat_finite hu, toRat_zero hv, hu, hv]
      cases s with
      | positive => rw [compare_gt_iff_gt.2 (show 0 < signed .positive _ from hpos e hm)]; rfl
      | negative =>
        rw [compare_lt_iff_lt.2 (show signed .negative _ < 0 from neg_neg_of_pos (hpos e hm))]
        rfl
    · have hcompare := compare_canonical (canonical_of_unpack hu).1 (canonical_of_unpack hv).1
      have hm' := hpos e hm
      have hn' := hpos f hn
      rw [toRat_finite hu, toRat_finite hv, hu, hv]
      cases s with
      | positive =>
        cases t with
        | positive => exact congrArg some hcompare
        | negative =>
          rw [compare_gt_iff_gt.2 (show signed .negative _ < signed .positive _ from
            (neg_neg_of_pos hn').trans hm')]
          rfl
      | negative =>
        cases t with
        | positive =>
          rw [compare_lt_iff_lt.2 (show signed .negative _ < signed .positive _ from
            (neg_neg_of_pos hm').trans hn')]
          rfl
        | negative =>
          show some ((compare e f).then (compare m n)).swap = some (compare (-_) (-_))
          rw [hcompare, compare_swap]

theorem lt_iff_toRat (hx : x.isFinite = true) (hy : y.isFinite = true) :
    x < y ↔ toRat x < toRat y :=
  lt_iff_of_compare (compare_toRat hx hy)

theorem le_iff_toRat (hx : x.isFinite = true) (hy : y.isFinite = true) :
    x ≤ y ↔ toRat x ≤ toRat y :=
  le_iff_of_compare (compare_toRat hx hy)

theorem beq_iff_toRat (hx : x.isFinite = true) (hy : y.isFinite = true) :
    (x == y) = true ↔ toRat x = toRat y := by
  have h : (x == y) = true ↔ x.toModel.unpack.compare y.toModel.unpack = some .eq :=
    beq_iff_eq (α := Option Ordering)
  rw [h, compare_toRat hx hy, Option.some_inj, compare_eq_iff_eq]

theorem not_lt_of_notANumber (hx : x.toModel.unpack = .notANumber) : ¬x < y := by
  have h : x < y ↔ (x.toModel.unpack.compare y.toModel.unpack == some .lt) = true :=
    decide_eq_true_iff
  rw [h, hx]
  exact Bool.false_ne_true

/-- An infinity is below the finite doubles or above them, by its sign. -/
theorem compare_infinity {s : Sign} (hx : x.toModel.unpack = .infinity s) (hy : y.isFinite = true) :
    x.toModel.unpack.compare y.toModel.unpack = some (compare (s.apply (1 : ℤ)) 0) := by
  rw [hx]
  rcases unpack_of_isFinite hy with ⟨t, hv⟩ | ⟨t, n, f, hn, hv⟩
  · rw [hv]
    cases s <;> rfl
  · rw [hv]
    cases s <;> rfl

theorem infinity_lt_iff {s : Sign} (hx : x.toModel.unpack = .infinity s) (hy : y.isFinite = true) :
    x < y ↔ s = .negative := by
  rw [lt_iff_of_compare (compare_infinity hx hy)]
  cases s with
  | negative => exact iff_of_true (by decide) rfl
  | positive => exact iff_of_false (by decide) nofun

theorem infinity_le_iff {s : Sign} (hx : x.toModel.unpack = .infinity s) (hy : y.isFinite = true) :
    x ≤ y ↔ s = .negative := by
  rw [le_iff_of_compare (compare_infinity hx hy)]
  cases s with
  | negative => exact iff_of_true (by decide) rfl
  | positive => exact iff_of_false (by decide) nofun

/-- Only the two zeros stand for one rational. -/
theorem eq_of_toRat (hx : x.isFinite = true) (hy : y.isFinite = true) (hx0 : x ≠ -0.0)
    (hy0 : y ≠ -0.0) (h : toRat x = toRat y) : x = y := by
  rcases eq_of_beq ((beq_iff_toRat hx hy).2 h) with heq | ⟨s, t, hu, hv⟩
  · exact heq
  · have hpositive : ∀ {z : Float} {r : Sign}, z ≠ -0.0 → z.toModel.unpack = .zero r → z = 0.0 := by
      intro z r hz hr
      rw [← ofUnpacked_unpack z, hr] at hz ⊢
      cases r with
      | positive => exact zero_eq.symm
      | negative => exact absurd neg_zero_eq.symm hz
    rw [hpositive hx0 hu, hpositive hy0 hv]

end ItemBudget.Double
