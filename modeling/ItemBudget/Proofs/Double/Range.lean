import ItemBudget.Decimal.Cost
import ItemBudget.Proofs.Double.Arithmetic
import ItemBudget.Proofs.Double.Zero

/-!
# Sizes and the edge of the range

The size of a double is its absolute value. A rational is in the range of doubles when it is below
`overflow`, the midpoint between the greatest double and the next power of two (`near_lt_iff`). What
is not finite stays so in a sum and in a quotient.
-/

namespace ItemBudget.Double

open Float.Model (UnpackedFloat)
open Float.Model.UnpackedFloat

/-- The absolute value of a finite double. -/
def size (x : Float) : ℚ := magnitude x.toModel.unpack

/-- The least size that is rounded to an infinity: `2 ^ 1024 - 2 ^ 970`. -/
def overflow : ℚ := (2 ^ 54 - 1) * 2 ^ (970 : ℤ)

variable {x y : Float} {v w : ℚ}

/-! ## The edge of the range -/

theorem overflow_pos : 0 < overflow := mul_pos (by norm_num) (two_zpow_pos 970)

/-- The midpoint is rounded up, to the even side. -/
theorem near_overflow : near overflow = 2 ^ (1024 : ℤ) := by
  have hc : Canonical (2 ^ 52) 972 := ⟨by norm_num, by norm_num, by norm_num, .inl le_rfl⟩
  have hmem : Mem (Decimal.interval (2 ^ 52) 972) overflow := by
    have hlow : (Decimal.interval (2 ^ 52) 972).low = 2 ^ 54 - 1 := rfl
    have hhigh : (Decimal.interval (2 ^ 52) 972).high = 2 ^ 54 + 2 := rfl
    unfold Mem overflow
    rw [if_pos (show (Decimal.interval (2 ^ 52) 972).closed = true from rfl), hlow, hhigh]
    exact ⟨mul_le_mul_of_nonneg_right (by norm_num) (two_zpow_pos 970).le,
      mul_le_mul_of_nonneg_right (by norm_num) (two_zpow_pos 970).le⟩
  have hpow : ((2 ^ 52 : ℕ) : ℚ) = 2 ^ (52 : ℤ) := by norm_num
  rw [near_of_mem hc hmem, hpow, ← two_zpow_add]
  rfl

theorem near_lt_iff (hv : 0 ≤ v) : near v < 2 ^ (1024 : ℤ) ↔ v < overflow := by
  have hc : Canonical (2 ^ 53 - 1) 971 :=
    ⟨by norm_num, by norm_num, by norm_num, .inl (by norm_num)⟩
  constructor
  · intro h
    by_contra hle
    have hmono := near_mono overflow_pos.le (not_lt.1 hle)
    rw [near_overflow] at hmono
    exact absurd h (not_lt.2 hmono)
  · intro h
    refine lt_of_le_of_lt ?_ (hc.lt_iff.2 le_rfl)
    -- the greatest double takes all that lies below the midpoint
    rcases le_total (((2 ^ 53 - 1 : ℕ) : ℚ) * 2 ^ (971 : ℤ)) v with hle | hle
    · refine (near_of_close hc ?_ ?_ fun hm => absurd hm (by norm_num)).le
      · exact (sub_lt_self _ (half_pos (two_zpow_pos 971))).trans_le hle
      · have h971 : (2 : ℚ) ^ (971 : ℤ) = 2 * 2 ^ (970 : ℤ) := by
          rw [← zpow_one_add₀ two_ne_zero]
          rfl
        unfold overflow at h
        rw [h971]
        generalize (2 : ℚ) ^ (970 : ℤ) = p at *
        norm_num at h ⊢
        linarith
    · have hmono := near_mono hv hle
      rwa [near_bits (by norm_num) (by norm_num)] at hmono

/-! ## Sizes -/

theorem size_nonneg (x : Float) : 0 ≤ size x := by
  unfold size
  cases x.toModel.unpack with
  | finite s m q hm => exact mul_nonneg (Nat.cast_nonneg m) (two_zpow_pos q).le
  | _ => exact le_rfl

/-- The greatest double is far from the edge. -/
theorem size_add_one_lt (x : Float) : size x + 1 < overflow := by
  have hp : (1 : ℚ) < 2 ^ (970 : ℤ) := one_lt_zpow₀ one_lt_two (by norm_num)
  have hle : size x ≤ (2 ^ 53 - 1) * 2 ^ (971 : ℤ) := by
    unfold size
    cases hx : x.toModel.unpack with
    | finite s m q hm =>
      obtain ⟨hc, hq⟩ := canonical_of_unpack hx
      have hm : (m : ℚ) ≤ 2 ^ 53 - 1 := by
        have hlt : (m : ℚ) + 1 ≤ 2 ^ 53 := by exact_mod_cast hc.lt
        linarith
      exact mul_le_mul hm (zpow_le_zpow_right₀ one_le_two hq) (two_zpow_pos q).le (by norm_num)
    | _ => exact mul_nonneg (by norm_num) (two_zpow_pos 971).le
  have hdouble : (2 : ℚ) ^ (971 : ℤ) = 2 * 2 ^ (970 : ℤ) := by
    rw [← zpow_one_add₀ two_ne_zero]
    rfl
  unfold overflow
  rw [hdouble] at hle
  clear hdouble
  generalize (2 : ℚ) ^ (970 : ℤ) = p at hp hle ⊢
  linarith

theorem size_lt (x : Float) : size x < overflow := by
  have h := size_add_one_lt x
  linarith

theorem one_lt_overflow : 1 < overflow := by
  have h := size_add_one_lt 0.0
  linarith [size_nonneg 0.0]

theorem Stands.isFinite (h : Stands x v) : x.isFinite = true := by
  show x.toModel.unpack.isFinite = true
  rcases h with ⟨hx, -⟩ | ⟨m, q, hm, hx, -⟩
  · rw [hx]
    rfl
  · rw [hx]
    rfl

theorem Stands.isInf_eq_false (h : Stands x v) : x.isInf = false := by
  change x.toModel.unpack.isInf = false
  rcases h with ⟨hx, -⟩ | ⟨m, q, hm, hx, -⟩
  · rw [hx]
    rfl
  · rw [hx]
    rfl

theorem Stands.size_eq (h : Stands x v) : size x = v := by
  rw [size, h.unpack_eq, magnitude_rounded, h.near_eq]

/-! ## Finite and not -/

theorem unpack_of_isFinite (hx : x.isFinite = true) :
    (∃ s, x.toModel.unpack = .zero s) ∨ ∃ s m q hm, x.toModel.unpack = .finite s m q hm := by
  have hfinite : x.toModel.unpack.isFinite = true := hx
  cases hu : x.toModel.unpack with
  | zero s => exact .inl ⟨s, rfl⟩
  | finite s m q hm => exact .inr ⟨s, m, q, hm, rfl⟩
  | _ =>
    rw [hu] at hfinite
    cases hfinite

theorem unpack_of_not_isFinite (hx : x.isFinite = false) :
    x.toModel.unpack = .notANumber ∨ ∃ s, x.toModel.unpack = .infinity s := by
  have hfinite : x.toModel.unpack.isFinite = false := hx
  cases hu : x.toModel.unpack with
  | notANumber => exact .inl rfl
  | infinity s => exact .inr ⟨s, rfl⟩
  | _ =>
    rw [hu] at hfinite
    cases hfinite

theorem isFinite_infinity (s : Sign) : (ofUnpacked (.infinity s)).isFinite = false := by
  cases s with
  | _ => rfl

theorem unpack_hundred :
    (100.0 : Float).toModel.unpack =
      .finite .positive 7036874417766400 (-46) (by norm_num) := by
  rfl

/-- A hundredth of what is not finite is not finite. -/
theorem isFinite_div_hundred (hx : x.isFinite = false) : (x / 100.0).isFinite = false := by
  have hquot : x / 100.0 = ofUnpacked (UnpackedFloat.div .binary64 x.toModel.unpack
    (100.0 : Float).toModel.unpack) := rfl
  rw [hquot, unpack_hundred]
  rcases unpack_of_not_isFinite hx with hu | ⟨s, hu⟩
  · rw [hu]
    show (ofUnpacked .notANumber).isFinite = false
    rfl
  · rw [hu]
    exact isFinite_infinity _

theorem not_isFinite_add (h : x.isFinite = false ∨ y.isFinite = false) :
    (x + y).isFinite = false := by
  have hsum := isFinite_add h
  rw [add_eq_ofUnpacked]
  generalize UnpackedFloat.add .binary64 x.toModel.unpack y.toModel.unpack = u at hsum ⊢
  cases u with
  | notANumber => rfl
  | infinity s => exact isFinite_infinity s
  | zero s => cases hsum
  | finite s m e hm => cases hsum

end ItemBudget.Double
