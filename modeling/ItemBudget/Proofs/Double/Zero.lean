import ItemBudget.Proofs.Double.Nearby

/-!
# The sign of zero

Adding the negative zero changes no double, and adding the positive zero changes only the negative
one. A sum whose first term is not the negative zero is not the negative zero (`add_ne_neg_zero`),
because no exact sum of the format's size rounds to zero. So a sum that starts from the positive zero
never comes to the negative one, and terms that are missing count as 0 in it (`sum_filterMap`). The
zeros are also the only two doubles that compare equal and differ (`eq_of_beq`).
-/

namespace ItemBudget.Double

open Float.Model (UnpackedFloat)
open Float.Model.UnpackedFloat

variable {x y : Float}

theorem neg_zero_eq : (-0.0 : Float) = ofUnpacked (.zero .negative) := by
  rfl

theorem unpack_neg_zero : (-0.0 : Float).toModel.unpack = .zero .negative := by
  rfl

theorem ne_neg_zero (h : x.toModel.unpack ≠ .zero .negative) : x ≠ -0.0 := by
  rintro rfl
  exact h unpack_neg_zero

theorem zero_ne_neg_zero : (0.0 : Float) ≠ -0.0 := by
  refine ne_neg_zero ?_
  rw [zero_eq]
  exact nofun

theorem add_eq_ofUnpacked (x y : Float) :
    x + y = ofUnpacked (UnpackedFloat.add .binary64 x.toModel.unpack y.toModel.unpack) :=
  rfl

theorem neg_zero_add (x : Float) : -0.0 + x = x := by
  rw [add_eq_ofUnpacked, unpack_neg_zero]
  conv_rhs => rw [← ofUnpacked_unpack x]
  cases x.toModel.unpack with
  | zero s => cases s <;> rfl
  | _ => rfl

/-- The positive zero is neutral but for the negative one. -/
theorem add_zero_of_ne (h : x ≠ -0.0) : x + 0.0 = x := by
  have hzero : (0.0 : Float).toModel.unpack = .zero .positive := by
    rw [zero_eq]
    rfl
  rw [add_eq_ofUnpacked, hzero]
  conv_rhs => rw [← ofUnpacked_unpack x]
  cases hx : x.toModel.unpack with
  | zero s =>
    cases s with
    | positive => rfl
    | negative =>
      apply absurd _ h
      rw [neg_zero_eq, ← hx, ofUnpacked_unpack]
  | _ => rfl

/-! ## Sums that are zero -/

theorem finite_ne_neg_zero (s : Sign) {m : ℕ} {q : ℤ} (h : Canonical m q) :
    ofUnpacked (.finite s m q h.pos) ≠ -0.0 := by
  refine ne_neg_zero ?_
  rcases le_or_gt q maxExponent with hq | hq
  · rw [unpack_ofUnpacked s h hq]
    exact nofun
  · rw [ofUnpacked_of_lt s h.pos hq, unpack_infinity]
    exact nofun

/-- Nothing of the format's size is rounded to zero. -/
theorem rounded_ne_neg_zero (s : Sign) {n : ℕ} {e : ℤ} (hn : 0 < n) (he : -1074 ≤ e) :
    ofUnpacked (rounded s (n * 2 ^ e)) ≠ -0.0 := by
  have hone : (2 : ℚ) ^ e ≤ n * 2 ^ e :=
    le_mul_of_one_le_left (two_zpow_pos e).le (by exact_mod_cast hn)
  have hpos : (0 : ℚ) < n * 2 ^ e := (two_zpow_pos e).trans_le hone
  rcases rounded_cases s hpos with hz | ⟨m, q, hc, hr⟩
  · have hnear : near ((2 : ℚ) ^ e) = 2 ^ e := by
      have := near_bits (n := 1) (by norm_num) he
      rwa [Nat.cast_one, one_mul] at this
    have hle : (2 : ℚ) ^ e ≤ near (n * 2 ^ e) := by
      rw [← hnear]
      exact near_mono (two_zpow_pos e).le (by rwa [hnear])
    rw [← magnitude_rounded s, hz] at hle
    exact absurd (two_zpow_pos e) hle.not_gt
  · rw [hr]
    exact finite_ne_neg_zero s hc

theorem normalize_ne_neg_zero (n : ℤ) {e : ℤ} (he : -1074 ≤ e) :
    ofUnpacked (UnpackedFloat.normalize .binary64 n e .positive) ≠ -0.0 := by
  unfold UnpackedFloat.normalize
  rcases lt_trichotomy n 0 with hn | rfl | hn
  · rw [Int.compare_eq_lt.2 hn]
    show ofUnpacked (UnpackedFloat.round .binary64 .negative (-n).toNat e) ≠ _
    rw [round_eq .negative e (by omega)]
    exact rounded_ne_neg_zero .negative (by omega) he
  · show ofUnpacked (.zero .positive) ≠ _
    exact zero_eq ▸ zero_ne_neg_zero
  · rw [Int.compare_eq_gt.2 hn]
    show ofUnpacked (UnpackedFloat.round .binary64 .positive n.toNat e) ≠ _
    rw [round_eq .positive e (by omega)]
    exact rounded_ne_neg_zero .positive (by omega) he

theorem not_finite_ne_neg_zero {u : UnpackedFloat} (h : u.isFinite = false) :
    ofUnpacked u ≠ -0.0 := by
  cases u with
  | notANumber => exact ne_neg_zero nofun
  | infinity s =>
    refine ne_neg_zero ?_
    rw [unpack_infinity]
    exact nofun
  | zero s => cases h
  | finite s m q hm => cases h

/-- A sum with a term that is no number or infinite is so too. -/
theorem isFinite_add {u v : UnpackedFloat} (h : u.isFinite = false ∨ v.isFinite = false) :
    (UnpackedFloat.add .binary64 u v).isFinite = false := by
  cases u with
  | notANumber => rfl
  | infinity s =>
    cases v with
    | infinity t => cases s <;> cases t <;> rfl
    | _ => rfl
  | zero s =>
    cases v with
    | notANumber => rfl
    | infinity t => rfl
    | _ => rcases h with h | h <;> cases h
  | finite s m q hm =>
    cases v with
    | notANumber => rfl
    | infinity t => rfl
    | _ => rcases h with h | h <;> cases h

/-- **A sum is not the negative zero** when its first term is not. -/
theorem add_ne_neg_zero (h : x ≠ -0.0) (y : Float) : x + y ≠ -0.0 := by
  rw [add_eq_ofUnpacked]
  by_cases hfinite : x.toModel.unpack.isFinite = false ∨ y.toModel.unpack.isFinite = false
  · exact not_finite_ne_neg_zero (isFinite_add hfinite)
  · have hx := ofUnpacked_unpack x
    cases hu : x.toModel.unpack with
    | notANumber => exact absurd (.inl (by rw [hu]; rfl)) hfinite
    | infinity s => exact absurd (.inl (by rw [hu]; rfl)) hfinite
    | zero s =>
      have hs : s = .positive := by
        cases s with
        | positive => rfl
        | negative => rw [hu, ← neg_zero_eq] at hx; exact absurd hx.symm h
      subst hs
      cases hv : y.toModel.unpack with
      | notANumber => exact absurd (.inr (by rw [hv]; rfl)) hfinite
      | infinity t => exact absurd (.inr (by rw [hv]; rfl)) hfinite
      | zero t =>
        have hsum : UnpackedFloat.add .binary64 (.zero .positive) (.zero t) = .zero .positive := by
          cases t <;> rfl
        rw [hsum, ← zero_eq]
        exact zero_ne_neg_zero
      | finite t n e hn => exact finite_ne_neg_zero t (canonical_of_unpack hv).1
    | finite s m q hm =>
      have hq := (canonical_of_unpack hu).1.least
      cases hv : y.toModel.unpack with
      | notANumber => exact absurd (.inr (by rw [hv]; rfl)) hfinite
      | infinity t => exact absurd (.inr (by rw [hv]; rfl)) hfinite
      | zero t => exact finite_ne_neg_zero s (canonical_of_unpack hu).1
      | finite t n e hn =>
        have he := (canonical_of_unpack hv).1.least
        exact normalize_ne_neg_zero _ (le_min hq he)

/-- Terms that are missing from a sum count as 0, when it does not start from the negative zero. -/
theorem sum_filterMap {α : Type} (f : α → Option Float) (hx : x ≠ -0.0) (as : List α) :
    (as.filterMap f).foldl (· + ·) x = (as.map fun a => (f a).getD 0.0).foldl (· + ·) x := by
  induction as generalizing x with
  | nil => rfl
  | cons a as ih =>
    rw [List.map_cons, List.foldl_cons]
    cases ha : f a with
    | none =>
      rw [List.filterMap_cons_none ha, Option.getD_none, add_zero_of_ne hx]
      exact ih hx
    | some y =>
      rw [List.filterMap_cons_some ha, Option.getD_some, List.foldl_cons]
      exact ih (add_ne_neg_zero hx y)

/-! ## Equal doubles -/

theorem eq_of_compare {u v : UnpackedFloat} (h : u.compare v = some .eq) :
    u = v ∨ ∃ s t, u = .zero s ∧ v = .zero t := by
  cases u with
  | notANumber => cases h
  | infinity s =>
    left
    cases v with
    | infinity t =>
      revert h
      cases s <;> cases t <;> simp [UnpackedFloat.compare, compare]
    | _ => cases s <;> cases h
  | zero s =>
    cases v with
    | notANumber => cases h
    | infinity t => cases t <;> cases h
    | zero t => exact .inr ⟨s, t, rfl, rfl⟩
    | finite t n f hn => cases t <;> cases h
  | finite s m e hm =>
    left
    cases v with
    | notANumber => cases h
    | infinity t => cases t <;> cases h
    | zero t => cases s <;> cases h
    | finite t n f hn =>
      cases s <;> cases t <;> simp [UnpackedFloat.compare, Ordering.then_eq_eq] at h <;> simp [h]

/-- Doubles that compare equal are the same, but for the two zeros. -/
theorem eq_of_beq (h : (x == y) = true) :
    x = y ∨ ∃ s t, x.toModel.unpack = .zero s ∧ y.toModel.unpack = .zero t := by
  have hcompare : x.toModel.unpack.compare y.toModel.unpack = some .eq :=
    (beq_iff_eq (α := Option Ordering)).1 h
  refine (eq_of_compare hcompare).imp_left fun hu => ?_
  rw [← ofUnpacked_unpack x, hu, ofUnpacked_unpack]

end ItemBudget.Double
