import ItemBudget.Decimal.Binary
import ItemBudget.Proofs.Double.Arithmetic
import Mathlib

/-!
# The order of the bits

Doubles have a total order by their bits (`Decimal.rank`). It tells any two apart, and on the
doubles above 0, the infinite one included, it is the order of the numbers: the bits of a greater
exponent are more than all that the mantissa can add.
-/

namespace ItemBudget.Double

open Float.Model (Format UnpackedFloat)
open Float.Model.UnpackedFloat
open Decimal (rank)

variable {x y : Float}

theorem rank_injective : Function.Injective rank := by
  intro x y h
  have hx := x.toBits.toNat_lt
  have hy := y.toBits.toNat_lt
  have hbits : x.toBits = y.toBits := by
    apply UInt64.toNat_inj.1
    simp only [rank, Nat.pow_eq] at h
    split_ifs at h <;> omega
  obtain ⟨⟨bits, hvalid⟩⟩ := x
  obtain ⟨⟨bits', hvalid'⟩⟩ := y
  cases hbits
  rfl

theorem rank_ofUnpacked (u : UnpackedFloat)
    (h : (UnpackedFloat.pack .binary64 u).toNat < 2 ^ 63) :
    rank (ofUnpacked u) = (UnpackedFloat.pack .binary64 u).toNat := by
  have hbits : (ofUnpacked u).toBits.toNat = (UnpackedFloat.pack .binary64 u).toNat := rfl
  simp only [rank, hbits]
  exact if_pos h

theorem rank_infinity (hx : x.toModel.unpack = .infinity .positive) :
    rank x = 2047 * 2 ^ 52 := by
  rw [← ofUnpacked_unpack x, hx]
  rfl

/-- The bits of a finite double without a sign are its exponent above its mantissa; what a full
mantissa has in its highest bit counts for one in the exponent. -/
theorem toNat_pack {m : ℕ} {q : ℤ} (h : Canonical m q) (hq : q ≤ maxExponent) :
    ((UnpackedFloat.pack .binary64 (.finite .positive m q h.pos)).toNat : ℤ) =
      (q + 1074) * 2 ^ 52 + m := by
  have hlt := h.lt
  have hleast := h.least
  have hfull := h.full
  have hsign : Sign.positive.toBitVec.toNat = 0 := rfl
  rw [pack_finite _ h.pos hleast hq]
  unfold maxExponent at hq
  split_ifs with hm
  · rw [toNat_packComponents, hsign, BitVec.toNat_ofNat, BitVec.toNat_ofNat]
    omega
  · rw [toNat_packComponents, hsign, BitVec.toNat_ofNat, BitVec.toNat_ofNat]
    omega

theorem rank_finite {m : ℕ} {q : ℤ} {hm : 0 < m}
    (hx : x.toModel.unpack = .finite .positive m q hm) : rank x = (q + 1074) * 2 ^ 52 + m := by
  obtain ⟨hc, hq⟩ := canonical_of_unpack hx
  have hbits := toNat_pack hc hq
  have hlt := hc.lt
  unfold maxExponent at hq
  rw [← ofUnpacked_unpack x, hx, rank_ofUnpacked _ (by omega), hbits]

/-! ## Doubles above 0 -/

theorem unpack_of_pos (h : 0.0 < x) : x.toModel.unpack = .infinity .positive ∨
    ∃ m q hm, x.toModel.unpack = .finite .positive m q hm := by
  have hlt : (UnpackedFloat.compare (.zero .positive) x.toModel.unpack == some .lt) = true :=
    decide_eq_true_iff.1 h
  cases hx : x.toModel.unpack with
  | notANumber => rw [hx] at hlt; cases hlt
  | infinity s =>
    cases s with
    | positive => exact .inl rfl
    | negative => rw [hx] at hlt; cases hlt
  | zero s => rw [hx] at hlt; cases hlt
  | finite s m q hm =>
    cases s with
    | positive => exact .inr ⟨m, q, hm, rfl⟩
    | negative => rw [hx] at hlt; cases hlt

theorem bits_lt_of_exponent_lt {m n : ℕ} {q e : ℤ} (hm : Canonical m q) (hn : Canonical n e)
    (h : q < e) : (q + 1074) * 2 ^ 52 + (m : ℤ) < (e + 1074) * 2 ^ 52 + n := by
  have hlt := hm.lt
  have hleast := hm.least
  have hfull := hn.full.resolve_right (by omega)
  omega

/-- Canonical forms compare as their bits do. -/
theorem compare_bits {m n : ℕ} {q e : ℤ} (hm : Canonical m q) (hn : Canonical n e) :
    (compare q e).then (compare m n) =
      compare ((q + 1074) * 2 ^ 52 + (m : ℤ)) ((e + 1074) * 2 ^ 52 + n) := by
  have hmono : StrictMono fun n : ℕ => (q + 1074) * 2 ^ 52 + (n : ℤ) :=
    fun _ _ h => Int.add_lt_add_left (Int.ofNat_lt.2 h) _
  exact @compare_then ℤ _ (fun n q => (q + 1074) * 2 ^ 52 + n) m n q e
    (bits_lt_of_exponent_lt hm hn) (bits_lt_of_exponent_lt hn hm) hmono

theorem compare_rank (hx : 0.0 < x) (hy : 0.0 < y) :
    x.toModel.unpack.compare y.toModel.unpack = some (compare (rank x) (rank y)) := by
  have hbound : ∀ {x : Float} {m : ℕ} {q : ℤ} {hm : 0 < m},
      x.toModel.unpack = .finite .positive m q hm → rank x < 2047 * 2 ^ 52 := by
    intro x m q hm h
    obtain ⟨hc, hq⟩ := canonical_of_unpack h
    have hlt := hc.lt
    unfold maxExponent at hq
    rw [rank_finite h]
    omega
  rcases unpack_of_pos hx with hu | ⟨m, q, hm, hu⟩ <;>
    rcases unpack_of_pos hy with hv | ⟨n, e, hn, hv⟩
  · rw [rank_infinity hu, rank_infinity hv, hu, hv, compare_eq_iff_eq.2 rfl]
    rfl
  · rw [rank_infinity hu, hu, hv, compare_gt_iff_gt.2 (hbound hv)]
    rfl
  · rw [rank_infinity hv, hu, hv, compare_lt_iff_lt.2 (hbound hu)]
    rfl
  · rw [rank_finite hu, rank_finite hv, hu, hv,
      ← compare_bits (canonical_of_unpack hu).1 (canonical_of_unpack hv).1]
    rfl

theorem rank_lt_iff (hx : 0.0 < x) (hy : 0.0 < y) : rank x < rank y ↔ x < y :=
  (lt_iff_of_compare (compare_rank hx hy)).symm

end ItemBudget.Double
