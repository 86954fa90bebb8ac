import ItemBudget.Decimal.Layout
import ItemBudget.Proofs.Double.Nearby

/-!
# Arithmetic without a sign

`Stands x v` says that a double is the rational `v` exactly and has no sign. Sums, differences,
products and quotients of such doubles are the doubles nearest to the exact ones, and they compare as
their rationals do. A double that may be too great for the format is bounded from below by
`AtLeast`, which the operations keep because rounding keeps the order.
-/

namespace ItemBudget.Double

open Float.Model (UnpackedFloat)
open Float.Model.UnpackedFloat

/-- The double without a sign that is a rational exactly. -/
def Stands (x : Float) (v : ℚ) : Prop :=
  x.toModel.unpack = .zero .positive ∧ v = 0 ∨ Exact x v

variable {x y : Float} {v w : ℚ}

theorem stands_zero : Stands 0.0 0 := by
  left
  rw [zero_eq]
  exact ⟨rfl, rfl⟩

theorem stands_one : Stands 1.0 1 :=
  .inr ⟨2 ^ 52, -52, by norm_num, rfl, by norm_num⟩

theorem Exact.pos (h : Exact x v) : 0 < v := by
  obtain ⟨m, q, hm, -, rfl⟩ := h
  exact mul_pos (by exact_mod_cast hm) (two_zpow_pos q)

namespace Stands

theorem nonneg (h : Stands x v) : 0 ≤ v := by
  rcases h with ⟨-, rfl⟩ | h
  · exact le_rfl
  · exact h.pos.le

theorem exact (h : Stands x v) (hv : 0 < v) : Exact x v := by
  rcases h with ⟨-, rfl⟩ | h
  · exact absurd hv (lt_irrefl 0)
  · exact h

theorem unpack_eq (h : Stands x v) : x.toModel.unpack = rounded .positive v := by
  rcases h with ⟨hx, rfl⟩ | ⟨m, q, hm, hx, rfl⟩
  · rw [hx, rounded, zero_div, roundEven_zero]
    rfl
  · rw [hx, rounded_exact .positive (canonical_of_unpack hx).1]

theorem eq_nearest (h : Stands x v) : x = nearest v := by
  rw [nearest, ← h.unpack_eq, ofUnpacked_unpack]

theorem near_eq (h : Stands x v) : near v = v := by
  rw [← magnitude_rounded .positive, ← h.unpack_eq]
  rcases h with ⟨hx, rfl⟩ | ⟨m, q, hm, hx, rfl⟩
  · rw [hx]; rfl
  · rw [hx]; rfl

theorem isNaN_eq_false (h : Stands x v) : x.isNaN = false := by
  show x.toModel.unpack.isNaN = false
  rcases h with ⟨hx, -⟩ | ⟨m, q, hm, hx, -⟩
  · rw [hx]; rfl
  · rw [hx]; rfl

end Stands

/-! ## Roundings in and out of the range -/

/-- A canonical double is below the limit exactly when its exponent is in the format's range. -/
theorem Canonical.lt_iff {m : ℕ} {q : ℤ} (h : Canonical m q) :
    (m : ℚ) * 2 ^ q < 2 ^ (1024 : ℤ) ↔ q ≤ maxExponent := by
  unfold maxExponent
  constructor
  · intro hlt
    by_contra hq
    have hfull : (2 : ℚ) ^ (52 : ℤ) ≤ m := by exact_mod_cast h.full.resolve_right (by omega)
    refine absurd hlt (not_lt.2 ?_)
    calc (2 : ℚ) ^ (1024 : ℤ) ≤ 2 ^ (52 + q) := zpow_le_zpow_right₀ one_le_two (by omega)
      _ = 2 ^ (52 : ℤ) * 2 ^ q := two_zpow_add _ _
      _ ≤ m * 2 ^ q := mul_le_mul_of_nonneg_right hfull (two_zpow_pos q).le
  · intro hq
    have hm : (m : ℚ) < 2 ^ (53 : ℤ) := by exact_mod_cast h.lt
    calc (m : ℚ) * 2 ^ q < 2 ^ (53 : ℤ) * 2 ^ q := mul_lt_mul_of_pos_right hm (two_zpow_pos q)
      _ = 2 ^ (53 + q) := (two_zpow_add _ _).symm
      _ ≤ 2 ^ (1024 : ℤ) := zpow_le_zpow_right₀ one_le_two (by omega)

theorem stands_nearest (hv : 0 ≤ v) (h : near v < 2 ^ (1024 : ℤ)) :
    Stands (nearest v) (near v) := by
  rcases hv.lt_or_eq with hpos | rfl
  · have hnear := magnitude_rounded .positive v
    unfold nearest
    rcases rounded_cases .positive hpos with hr | ⟨m, q, hc, hr⟩
    · rw [hr] at hnear ⊢
      rw [← hnear, ← zero_eq]
      exact stands_zero
    · rw [hr] at hnear ⊢
      rw [← hnear] at h ⊢
      exact .inr ⟨m, q, hc.pos, unpack_ofUnpacked .positive hc (hc.lt_iff.1 h), rfl⟩
  · have h0 : Stands 0.0 0 := stands_zero
    rw [near_zero, ← h0.eq_nearest]
    exact h0

theorem nearest_of_overflow (hv : 0 ≤ v) (h : 2 ^ (1024 : ℤ) ≤ near v) :
    nearest v = ofUnpacked (.infinity .positive) := by
  have hpos : 0 < v := by
    refine lt_of_le_of_ne hv ?_
    rintro rfl
    rw [near_zero] at h
    exact absurd (two_zpow_pos 1024) (not_lt.2 h)
  have hnear := magnitude_rounded .positive v
  unfold nearest
  rcases rounded_cases .positive hpos with hr | ⟨m, q, hc, hr⟩
  · rw [hr] at hnear
    rw [← hnear] at h
    exact absurd (two_zpow_pos 1024) (not_lt.2 h)
  · rw [hr] at hnear ⊢
    rw [← hnear] at h
    refine ofUnpacked_of_lt _ _ (not_le.1 fun hle => ?_)
    exact absurd h (not_le.2 (hc.lt_iff.2 hle))

/-- A number that rounding keeps is the double nearest to it. -/
theorem stands_of_near (hv : 0 ≤ v) (h : near v = v) (hlt : v < 2 ^ (1024 : ℤ)) :
    Stands (nearest v) v := by
  have hs := stands_nearest hv (by rwa [h])
  rwa [h] at hs

theorem ofNat_eq_nearest (n : ℕ) : Float.ofNat n = nearest n := by
  rcases Nat.eq_zero_or_pos n with rfl | hn
  · rw [Nat.cast_zero, ← stands_zero.eq_nearest]
    rfl
  · show Float.ofScientific n false 0 = nearest n
    rw [float_ofScientific false 0 hn, if_neg Bool.false_ne_true, Nat.cast_zero, zpow_zero, mul_one]

theorem stands_ofNat {n : ℕ} (hn : n ≤ 2 ^ 53) : Stands (Float.ofNat n) n := by
  have hcast : (n : ℚ) ≤ 2 ^ (53 : ℤ) := by exact_mod_cast hn
  have hlt : (2 : ℚ) ^ (53 : ℤ) < 2 ^ (1024 : ℤ) := zpow_lt_zpow_right₀ one_lt_two (by norm_num)
  rw [ofNat_eq_nearest]
  exact stands_of_near (Nat.cast_nonneg n) (near_natCast hn) (lt_of_le_of_lt hcast hlt)

/-! ## Operations -/

theorem cast_shiftLeft (m : ℕ) {e t : ℤ} (h : t ≤ e) :
    ((m <<< (e - t).toNat : ℕ) : ℚ) * 2 ^ t = m * 2 ^ e := by
  rw [Nat.shiftLeft_eq, Nat.cast_mul, Nat.cast_pow, Nat.cast_ofNat, ← zpow_natCast,
    Int.toNat_of_nonneg (by omega), mul_assoc, ← two_zpow_add, sub_add_cancel]

theorem normalize_of_pos {n : ℤ} (e : ℤ) (hn : 0 < n) :
    UnpackedFloat.normalize .binary64 n e .positive = rounded .positive (n * 2 ^ e) := by
  unfold UnpackedFloat.normalize
  rw [Int.compare_eq_gt.2 hn]
  have hcast : ((n.toNat : ℕ) : ℚ) = n := by exact_mod_cast Int.toNat_of_nonneg hn.le
  show UnpackedFloat.round .binary64 .positive n.toNat e = _
  rw [round_eq .positive e (by omega), hcast]

namespace Exact

theorem add (hx : Exact x v) (hy : Exact y w) : x + y = nearest (v + w) := by
  have hv := hx.pos
  have hw := hy.pos
  obtain ⟨m, e, hm, hx, rfl⟩ := hx
  obtain ⟨n, f, hn, hy, rfl⟩ := hy
  have h1 := cast_shiftLeft m (min_le_left e f)
  have h2 := cast_shiftLeft n (min_le_right e f)
  show ofUnpacked (UnpackedFloat.add .binary64 x.toModel.unpack y.toModel.unpack) = _
  rw [hx, hy]
  show ofUnpacked (UnpackedFloat.normalize .binary64 (((m <<< (e - min e f).toNat : ℕ) : ℤ)
    + ((n <<< (f - min e f).toNat : ℕ) : ℤ)) (min e f) .positive) = _
  generalize m <<< (e - min e f).toNat = a at h1 ⊢
  generalize n <<< (f - min e f).toNat = b at h2 ⊢
  rw [← h1] at hv
  have ha : 0 < a := by exact_mod_cast pos_of_mul_pos_left hv (two_zpow_pos _).le
  rw [normalize_of_pos (min e f) (by omega), ← h1, ← h2, nearest]
  push_cast
  rw [add_mul]

theorem sub (hx : Exact x v) (hy : Exact y w) (h : w ≤ v) : x - y = nearest (v - w) := by
  obtain ⟨m, e, hm, hx, rfl⟩ := hx
  obtain ⟨n, f, hn, hy, rfl⟩ := hy
  have h1 := cast_shiftLeft m (min_le_left e f)
  have h2 := cast_shiftLeft n (min_le_right e f)
  show ofUnpacked (UnpackedFloat.sub .binary64 x.toModel.unpack y.toModel.unpack) = _
  rw [hx, hy]
  show ofUnpacked (UnpackedFloat.normalize .binary64 (((m <<< (e - min e f).toNat : ℕ) : ℤ)
    - ((n <<< (f - min e f).toNat : ℕ) : ℤ)) (min e f) .positive) = _
  generalize m <<< (e - min e f).toNat = a at h1 ⊢
  generalize n <<< (f - min e f).toNat = b at h2 ⊢
  rw [← h1, ← h2] at h
  have hba : b ≤ a := by exact_mod_cast le_of_mul_le_mul_right h (two_zpow_pos _)
  rw [← h1, ← h2, ← sub_mul]
  rcases hba.lt_or_eq with hlt | rfl
  · rw [normalize_of_pos (min e f) (by omega), nearest]
    push_cast
    rfl
  · rw [sub_self, sub_self, zero_mul, ← stands_zero.eq_nearest, zero_eq]
    rfl

end Exact

namespace Stands

theorem add (hx : Stands x v) (hy : Stands y w) : x + y = nearest (v + w) := by
  have hsum : x + y = ofUnpacked (UnpackedFloat.add .binary64 x.toModel.unpack y.toModel.unpack) :=
    rfl
  rcases hx with ⟨hx, rfl⟩ | hx
  · rw [zero_add, ← hy.eq_nearest, hsum, hx]
    rcases hy with ⟨hy, -⟩ | ⟨n, f, hn, hy, -⟩
    · rw [hy]
      show ofUnpacked (.zero .positive) = y
      rw [← hy, ofUnpacked_unpack]
    · rw [hy]
      show ofUnpacked (.finite .positive n f hn) = y
      rw [← hy, ofUnpacked_unpack]
  · rcases hy with ⟨hy, rfl⟩ | hy
    · rw [add_zero, ← eq_nearest (.inr hx), hsum, hy]
      obtain ⟨m, e, hm, hx, -⟩ := hx
      rw [hx]
      show ofUnpacked (.finite .positive m e hm) = x
      rw [← hx, ofUnpacked_unpack]
    · exact hx.add hy

theorem sub (hx : Stands x v) (hy : Stands y w) (h : w ≤ v) : x - y = nearest (v - w) := by
  have hdiff : x - y = ofUnpacked (UnpackedFloat.sub .binary64 x.toModel.unpack y.toModel.unpack) :=
    rfl
  rcases hy with ⟨hy, rfl⟩ | hy
  · rw [sub_zero, ← hx.eq_nearest, hdiff, hy]
    rcases hx with ⟨hx, -⟩ | ⟨m, e, hm, hx, -⟩
    · rw [hx]
      show ofUnpacked (.zero .positive) = x
      rw [← hx, ofUnpacked_unpack]
    · rw [hx]
      show ofUnpacked (.finite .positive m e hm) = x
      rw [← hx, ofUnpacked_unpack]
  · exact (hx.exact (lt_of_lt_of_le hy.pos h)).sub hy h

theorem mul (hx : Stands x v) (hy : Stands y w) : x * y = nearest (v * w) := by
  have hprod : x * y = ofUnpacked (UnpackedFloat.mul .binary64 x.toModel.unpack y.toModel.unpack) :=
    rfl
  rcases hx with ⟨hx, rfl⟩ | hx
  · rw [zero_mul, ← stands_zero.eq_nearest, hprod, hx, zero_eq]
    rcases hy with ⟨hy, -⟩ | ⟨n, f, hn, hy, -⟩
    · rw [hy]; rfl
    · rw [hy]; rfl
  · rcases hy with ⟨hy, rfl⟩ | hy
    · rw [mul_zero, ← stands_zero.eq_nearest, hprod, hy, zero_eq]
      obtain ⟨m, e, hm, hx, -⟩ := hx
      rw [hx]
      rfl
    · exact hx.mul hy

theorem div (hx : Stands x v) (hy : Stands y w) (hw : 0 < w) : x / y = nearest (v / w) := by
  have hquot : x / y = ofUnpacked (UnpackedFloat.div .binary64 x.toModel.unpack y.toModel.unpack) :=
    rfl
  have hy' := hy.exact hw
  rcases hx with ⟨hx, rfl⟩ | hx
  · rw [zero_div, ← stands_zero.eq_nearest, hquot, hx, zero_eq]
    obtain ⟨n, f, hn, hy, -⟩ := hy'
    rw [hy]
    rfl
  · exact hx.div hy'

end Stands

/-! ## Readings -/

theorem Stands.reading (h : Stands x v) :
    ∃ (m : ℕ) (e : ℤ), Decimal.reading x = .finite false m e ∧ v = m * 2 ^ e := by
  unfold Decimal.reading
  rcases h with ⟨hx, rfl⟩ | ⟨m, e, hm, hx, rfl⟩
  · rw [hx]
    exact ⟨0, Decimal.minExponent, rfl, by rw [Nat.cast_zero, zero_mul]⟩
  · rw [hx]
    exact ⟨m, e, rfl, rfl⟩

theorem cast_div_two_pow (m : ℕ) (e : ℤ) :
    ((m * Nat.pow 2 e.toNat : ℕ) : ℚ) / (Nat.pow 2 (-e).toNat : ℕ) = m * 2 ^ e := by
  rcases le_total 0 e with h | h
  · obtain ⟨n, rfl⟩ := Int.eq_ofNat_of_zero_le h
    rw [Int.toNat_of_nonpos (show -(n : ℤ) ≤ 0 by omega)]
    simp
  · obtain ⟨n, hn⟩ := Int.eq_ofNat_of_zero_le (show 0 ≤ -e by omega)
    obtain rfl : e = -(n : ℤ) := by omega
    rw [Int.toNat_of_nonpos h]
    simp [div_eq_mul_inv]

/-- The rounded quotient of two numbers is the whole number nearest to the exact one. -/
theorem divNearest_eq (a : ℕ) {b : ℕ} (hb : 0 < b) : Decimal.divNearest a b = roundEven (a / b) := by
  have hb' : (0 : ℚ) < b := by exact_mod_cast hb
  have hsplit : (a : ℚ) / b = (a / b : ℕ) + ((a % b : ℕ) : ℚ) / b := by
    rw [div_eq_iff hb'.ne', add_mul, div_mul_cancel₀ _ hb'.ne']
    exact_mod_cast (Nat.div_add_mod' a b).symm
  have hrest : ∀ n : ℕ, n * b < 2 * (a % b) ↔ (n : ℚ) / 2 < ((a % b : ℕ) : ℚ) / b := by
    intro n
    rw [div_lt_div_iff₀ two_pos hb', ← Nat.cast_lt (α := ℚ)]
    push_cast
    ring_nf
  have hrest' : 2 * (a % b) < b ↔ ((a % b : ℕ) : ℚ) / b < 1 / 2 := by
    rw [div_lt_div_iff₀ hb' two_pos, ← Nat.cast_lt (α := ℚ)]
    push_cast
    ring_nf
  have hfloor : ⌊(a : ℚ) / b⌋₊ = a / b := Nat.floor_div_eq_div a b
  have h1 := hrest 1
  rw [one_mul, Nat.cast_one] at h1
  unfold Decimal.divNearest roundEven
  rw [hfloor]
  simp only [hrest', h1, hsplit]
  split_ifs <;> first | rfl | linarith | omega

/-! ## Comparisons -/

theorem lt_of_exponent_lt {m n : ℕ} {e f : ℤ} (hm : Canonical m e) (hn : Canonical n f)
    (h : e < f) : (m : ℚ) * 2 ^ e < n * 2 ^ f := by
  have hleast := hm.least
  have hfull : 2 ^ 52 ≤ n := hn.full.resolve_right (by omega)
  have hm' : (m : ℚ) < 2 ^ (53 : ℤ) := by exact_mod_cast hm.lt
  have hn' : (2 : ℚ) ^ (52 : ℤ) ≤ n := by exact_mod_cast hfull
  calc (m : ℚ) * 2 ^ e < 2 ^ (53 : ℤ) * 2 ^ e := mul_lt_mul_of_pos_right hm' (two_zpow_pos e)
    _ = 2 ^ (53 + e) := (two_zpow_add _ _).symm
    _ ≤ 2 ^ (52 + f) := zpow_le_zpow_right₀ one_le_two (by omega)
    _ = 2 ^ (52 : ℤ) * 2 ^ f := two_zpow_add _ _
    _ ≤ n * 2 ^ f := mul_le_mul_of_nonneg_right hn' (two_zpow_pos f).le

section Compare

variable {β : Type} [LinearOrder β]

/-- Mantissas and exponents compare as what they stand for in an order where a greater exponent is
more than the mantissas can make up for. -/
theorem compare_then {f : ℕ → ℤ → β} {m n : ℕ} {e e' : ℤ} (hlt : e < e' → f m e < f n e')
    (hgt : e' < e → f n e' < f m e) (hmono : StrictMono fun m => f m e) :
    (compare e e').then (compare m n) = compare (f m e) (f n e') := by
  rcases lt_trichotomy e e' with h | rfl | h
  · rw [compare_lt_iff_lt.2 h, compare_lt_iff_lt.2 (hlt h)]
    rfl
  · rw [compare_eq_iff_eq.2 rfl, ← cmp_eq_compare, ← cmp_eq_compare]
    exact (hmono.cmp_map_eq m n).symm
  · rw [compare_gt_iff_gt.2 h, compare_gt_iff_gt.2 (hgt h)]
    rfl

/-- Doubles that compare as the elements of an order are below each other as these are. -/
theorem lt_iff_of_compare {v w : β}
    (h : x.toModel.unpack.compare y.toModel.unpack = some (compare v w)) : x < y ↔ v < w := by
  have hlt : x < y ↔ (x.toModel.unpack.compare y.toModel.unpack == some .lt) = true :=
    decide_eq_true_iff
  rw [hlt, h, ← compare_lt_iff_lt]
  cases compare v w <;> decide

theorem le_iff_of_compare {v w : β}
    (h : x.toModel.unpack.compare y.toModel.unpack = some (compare v w)) : x ≤ y ↔ v ≤ w := by
  have hle : x ≤ y ↔ (x.toModel.unpack.compare y.toModel.unpack).any (·.isLE) = true :=
    decide_eq_true_iff
  rw [hle, h, ← compare_le_iff_le]
  cases compare v w <;> decide

end Compare

/-- Canonical forms are compared by their exponents first. -/
theorem compare_canonical {m n : ℕ} {e f : ℤ} (hm : Canonical m e) (hn : Canonical n f) :
    (compare e f).then (compare m n) = compare ((m : ℚ) * 2 ^ e) (n * 2 ^ f) := by
  have hmono : StrictMono fun m : ℕ => (m : ℚ) * 2 ^ e :=
    fun _ _ h => mul_lt_mul_of_pos_right (by exact_mod_cast h) (two_zpow_pos e)
  exact @compare_then ℚ _ (fun m e => m * 2 ^ e) m n e f (lt_of_exponent_lt hm hn)
    (lt_of_exponent_lt hn hm) hmono

namespace Stands

theorem compare_eq (hx : Stands x v) (hy : Stands y w) :
    x.toModel.unpack.compare y.toModel.unpack = some (compare v w) := by
  rcases hx with ⟨hx, rfl⟩ | hx
  · rcases hy with ⟨hy, rfl⟩ | hy
    · rw [hx, hy, compare_eq_iff_eq.2 rfl]
      rfl
    · rw [compare_lt_iff_lt.2 hy.pos]
      obtain ⟨n, f, hn, hy, -⟩ := hy
      rw [hx, hy]
      rfl
  · rcases hy with ⟨hy, rfl⟩ | hy
    · rw [compare_gt_iff_gt.2 hx.pos]
      obtain ⟨m, e, hm, hx, -⟩ := hx
      rw [hx, hy]
      rfl
    · obtain ⟨m, e, hm, hx, rfl⟩ := hx
      obtain ⟨n, f, hn, hy, rfl⟩ := hy
      rw [← compare_canonical (canonical_of_unpack hx).1 (canonical_of_unpack hy).1, hx, hy]
      rfl

theorem le_iff (hx : Stands x v) (hy : Stands y w) : x ≤ y ↔ v ≤ w :=
  le_iff_of_compare (hx.compare_eq hy)

theorem lt_iff (hx : Stands x v) (hy : Stands y w) : x < y ↔ v < w :=
  lt_iff_of_compare (hx.compare_eq hy)

end Stands

/-! ## Bounds from below -/

/-- The double has no sign and is at least a rational; it may be infinite. -/
def AtLeast (v : ℚ) (x : Float) : Prop :=
  x.toModel.unpack = .infinity .positive ∨ ∃ w, v ≤ w ∧ Stands x w

theorem atLeast_nearest (hv : 0 ≤ v) : AtLeast (near v) (nearest v) := by
  rcases lt_or_ge (near v) (2 ^ (1024 : ℤ)) with h | h
  · exact .inr ⟨near v, le_rfl, stands_nearest hv h⟩
  · left
    rw [nearest_of_overflow hv h]
    exact unpack_infinity _

theorem Stands.atLeast (h : Stands x v) : AtLeast v x := .inr ⟨v, le_rfl, h⟩

namespace AtLeast

theorem mono (h : AtLeast w x) (hv : v ≤ w) : AtLeast v x := by
  rcases h with h | ⟨u, hu, h⟩
  · exact .inl h
  · exact .inr ⟨u, hv.trans hu, h⟩

theorem add (hx : AtLeast v x) (hy : AtLeast w y) (hv : 0 ≤ v) (hw : 0 ≤ w) :
    AtLeast (near (v + w)) (x + y) := by
  have hsum : x + y = ofUnpacked (UnpackedFloat.add .binary64 x.toModel.unpack y.toModel.unpack) :=
    rfl
  rcases hx with hx | ⟨v', hv', hx⟩
  · left
    rw [hsum, hx]
    rcases hy with hy | ⟨w', -, ⟨hy, -⟩ | ⟨n, f, hn, hy, -⟩⟩
    · rw [hy]; exact unpack_infinity _
    · rw [hy]; exact unpack_infinity _
    · rw [hy]; exact unpack_infinity _
  · rcases hy with hy | ⟨w', hw', hy⟩
    · left
      rw [hsum, hy]
      rcases hx with ⟨hx, -⟩ | ⟨m, e, hm, hx, -⟩
      · rw [hx]; exact unpack_infinity _
      · rw [hx]; exact unpack_infinity _
    · rw [hx.add hy]
      have hle : near (v + w) ≤ near (v' + w') :=
        near_mono (add_nonneg hv hw) (add_le_add hv' hw')
      exact (atLeast_nearest (add_nonneg hx.nonneg hy.nonneg)).mono hle

theorem mul (hx : AtLeast v x) (hy : Stands y w) (hv : 0 ≤ v) (hw : 0 < w) :
    AtLeast (near (v * w)) (x * y) := by
  rcases hx with hx | ⟨v', hv', hx⟩
  · left
    obtain ⟨n, f, hn, hy, -⟩ := hy.exact hw
    show (ofUnpacked (UnpackedFloat.mul .binary64 x.toModel.unpack y.toModel.unpack)).toModel.unpack
      = _
    rw [hx, hy]
    exact unpack_infinity _
  · rw [hx.mul hy]
    have hle : near (v * w) ≤ near (v' * w) :=
      near_mono (mul_nonneg hv hw.le) (mul_le_mul_of_nonneg_right hv' hw.le)
    exact (atLeast_nearest (mul_nonneg hx.nonneg hw.le)).mono hle

end AtLeast

/-- An infinity is above every number. -/
theorem Stands.lt_infinity (hy : Stands y w) (hx : x.toModel.unpack = .infinity .positive) :
    y < x := by
  have hlt : y < x ↔ (y.toModel.unpack.compare x.toModel.unpack == some .lt) = true :=
    decide_eq_true_iff
  rw [hlt, hx]
  rcases hy with ⟨hy, -⟩ | ⟨n, f, hn, hy, -⟩
  · rw [hy]; rfl
  · rw [hy]; rfl

theorem isNaN_notANumber : (ofUnpacked .notANumber).toModel.unpack.isNaN = true := rfl

/-- An infinity times zero is not a number, and nothing added to it is. -/
theorem isNaN_add_infinity_mul {z : Float} (hx : Stands x v)
    (hy : y.toModel.unpack = .infinity .positive) (hz : Stands z 0) :
    (x + y * z).isNaN = true := by
  have hz' : z.toModel.unpack = .zero .positive := by
    rcases hz with ⟨hz, -⟩ | hz
    · exact hz
    · exact absurd hz.pos (lt_irrefl 0)
  have hprod : (y * z).toModel.unpack = .notANumber := by
    show (ofUnpacked (UnpackedFloat.mul .binary64 y.toModel.unpack z.toModel.unpack)).toModel.unpack
      = _
    rw [hy, hz']
    rfl
  show (ofUnpacked (UnpackedFloat.add .binary64 x.toModel.unpack
    (y * z).toModel.unpack)).toModel.unpack.isNaN = true
  rw [hprod]
  rcases hx with ⟨hx, -⟩ | ⟨m, e, hm, hx, -⟩
  · rw [hx]; exact isNaN_notANumber
  · rw [hx]; exact isNaN_notANumber

end ItemBudget.Double
