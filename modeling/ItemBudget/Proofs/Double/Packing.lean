import ItemBudget.Decimal.Basic
import ItemBudget.Decimal.Binary
import Mathlib

/-!
# The stored form of a double

A double is 64 bits, and its unpacked form is a sign, a mantissa and an exponent. `Canonical` says
which mantissas and exponents are stored: all 53 bits are used unless the exponent is the least one.
`unpack_pack` and `pack_unpack` say that the two forms determine each other, so a double is known
from what is read of it (`eq_of_reading`).
-/

namespace ItemBudget.Double

open Float.Model (Format UnpackedFloat)
open Float.Model.UnpackedFloat
open Decimal (reading)

/-! ## Fields of the bit pattern -/

theorem toNat_packComponents (s : Sign) (e : BitVec 11) (m : BitVec 52) :
    (packComponents .binary64 s e m).toNat
      = s.toBitVec.toNat * 2 ^ 63 + e.toNat * 2 ^ 52 + m.toNat := by
  have hm : m.toNat < 2 ^ 52 := m.isLt
  have he : e.toNat < 2 ^ 11 := e.isLt
  unfold packComponents
  rw [BitVec.toNat_append, BitVec.toNat_append, ← Nat.shiftLeft_add_eq_or_of_lt hm,
    ← Nat.shiftLeft_add_eq_or_of_lt he]
  simp only [Nat.shiftLeft_eq]
  ring

theorem toNat_unpackMantissa (b : BitVec 64) :
    (@unpackMantissa .binary64 b).toNat = b.toNat % 2 ^ 52 := by
  simp [unpackMantissa]

theorem toNat_unpackExponent (b : BitVec 64) :
    (@unpackExponent .binary64 b).toNat = b.toNat / 2 ^ 52 % 2 ^ 11 := by
  simp [unpackExponent, Nat.shiftRight_eq_div_pow]

theorem toNat_unpackSign (b : BitVec 64) :
    (@unpackSign .binary64 b).toNat = b.toNat / 2 ^ 63 := by
  have := b.isLt
  simp [unpackSign, Nat.shiftRight_eq_div_pow]
  omega

theorem toBitVec_ofBitVec (b : BitVec 1) : (Sign.ofBitVec b).toBitVec = b := by
  revert b; decide

theorem ofBitVec_toBitVec (s : Sign) : Sign.ofBitVec s.toBitVec = s := by
  cases s <;> rfl

theorem unpackSign_packComponents (s : Sign) (e : BitVec 11) (m : BitVec 52) :
    unpackSign (packComponents .binary64 s e m) = s.toBitVec := by
  have hm : m.toNat < 2 ^ 52 := m.isLt
  have he : e.toNat < 2 ^ 11 := e.isLt
  apply BitVec.eq_of_toNat_eq
  rw [toNat_unpackSign, toNat_packComponents]
  omega

/-- A bit pattern is its three fields. -/
theorem packComponents_unpack (b : BitVec 64) :
    packComponents .binary64 (Sign.ofBitVec (@unpackSign .binary64 b))
      (@unpackExponent .binary64 b) (@unpackMantissa .binary64 b) = b := by
  have := b.isLt
  apply BitVec.eq_of_toNat_eq
  rw [toNat_packComponents, toBitVec_ofBitVec, toNat_unpackSign, toNat_unpackExponent,
    toNat_unpackMantissa]
  omega

theorem toNat_implicit (m : BitVec 52) : (1#1 ++ m).toNat = 2 ^ 52 + m.toNat := by
  rw [BitVec.toNat_append, ← Nat.shiftLeft_add_eq_or_of_lt m.isLt]
  rfl

/-! ## Unpacking and packing -/

/-- What the fields of a bit pattern stand for. -/
theorem unpack_packComponents (s : Sign) (e : BitVec 11) (m : BitVec 52) :
    unpack .binary64 (packComponents .binary64 s e m) =
      if e = -1#11 then (if m = 0#52 then .infinity s else .notANumber)
      else if e = 0#11 then
        if hm : m = 0#52 then .zero s
        else .finite s m.toNat (-1074) (by simpa [BitVec.toNat_pos, BitVec.pos_iff_ne_zero])
      else .finite s (2 ^ 52 + m.toNat) (e.toNat - 1075) (by omega) := by
  unfold unpack
  simp only [unpackExponent_packComponents, unpackMantissa_packComponents,
    unpackSign_packComponents, ofBitVec_toBitVec]
  split
  · rfl
  · split
    · split
      · rfl
      · subst e; rfl
    · rw [UnpackedFloat.finite.injEq]
      exact ⟨rfl, toNat_implicit m, rfl⟩

/-- A mantissa and an exponent as they are stored. -/
structure Canonical (m : Nat) (q : Int) : Prop where
  pos : 0 < m
  lt : m < 2 ^ 53
  least : -1074 ≤ q
  full : 2 ^ 52 ≤ m ∨ q = -1074

/-- The greatest exponent of a finite double. -/
def maxExponent : Int := 971

theorem pack_finite (s : Sign) {m : Nat} {q : Int} (hm : 0 < m) (hl : -1074 ≤ q)
    (hq : q ≤ maxExponent) :
    UnpackedFloat.pack .binary64 (.finite s m q hm) =
      if 2 ^ 52 ≤ m ∧ m < 2 ^ 53 then
        packComponents .binary64 s (BitVec.ofNat 11 (q + 1075).toNat) (BitVec.ofNat 52 m)
      else packComponents .binary64 s 0#11 (BitVec.ofNat 52 m) := by
  have hlog : m.log2 + 1 = 53 ↔ 2 ^ 52 ≤ m ∧ m < 2 ^ 53 := by
    rw [← Nat.log2_eq_iff hm.ne']
    omega
  have hb : q + (1023 : Nat) + (52 : Nat) = q + 1075 := by omega
  unfold maxExponent at hq
  show (if 2 ^ 11 ≤ (q + (1023 : Nat) + (52 : Nat)).toNat + 1 then _
    else if m.log2 + 1 = 53 then
      packComponents .binary64 s (BitVec.ofNat 11 (q + (1023 : Nat) + (52 : Nat)).toNat) _
    else _) = _
  rw [hb, if_neg (by omega)]
  simp only [hlog]

/-- Beyond the greatest exponent an infinity is stored. -/
theorem pack_finite_of_lt (s : Sign) {m : Nat} {q : Int} (hm : 0 < m) (hq : maxExponent < q) :
    UnpackedFloat.pack .binary64 (.finite s m q hm) = packedInfinity .binary64 s := by
  unfold maxExponent at hq
  show (if 2 ^ 11 ≤ (q + (1023 : Nat) + (52 : Nat)).toNat + 1 then _ else _) = _
  rw [if_pos (by omega)]

/-- A finite double is unpacked as it was packed. -/
theorem unpack_pack {m : Nat} {q : Int} (s : Sign) (h : Canonical m q) (hq : q ≤ maxExponent) :
    unpack .binary64 (UnpackedFloat.pack .binary64 (.finite s m q h.pos)) = .finite s m q h.pos := by
  have hl := h.least
  have hm := h.lt
  rw [pack_finite s h.pos hl hq]
  unfold maxExponent at hq
  by_cases hn : 2 ^ 52 ≤ m
  · have he : (BitVec.ofNat 11 (q + 1075).toNat).toNat = (q + 1075).toNat := by
      rw [BitVec.toNat_ofNat, Nat.mod_eq_of_lt (by omega)]
    have h0 : BitVec.ofNat 11 (q + 1075).toNat ≠ 0#11 := fun h' => by
      have := congrArg BitVec.toNat h'
      rw [he, BitVec.toNat_zero] at this
      omega
    have h1 : BitVec.ofNat 11 (q + 1075).toNat ≠ -1#11 := fun h' => by
      have := congrArg BitVec.toNat h'
      rw [he, show (-1#11).toNat = 2047 from rfl] at this
      omega
    rw [if_pos ⟨hn, hm⟩, unpack_packComponents, if_neg h1, if_neg h0, UnpackedFloat.finite.injEq,
      BitVec.toNat_ofNat, he]
    exact ⟨rfl, by omega, by omega⟩
  · have hm' : (BitVec.ofNat 52 m).toNat = m := by
      rw [BitVec.toNat_ofNat, Nat.mod_eq_of_lt (by omega)]
    have h0 : BitVec.ofNat 52 m ≠ 0#52 := fun h' => by
      have := congrArg BitVec.toNat h'
      rw [hm', BitVec.toNat_zero] at this
      exact h.pos.ne' this
    rw [if_neg (by omega), unpack_packComponents, if_neg (by decide), if_pos rfl, dif_neg h0,
      UnpackedFloat.finite.injEq]
    exact ⟨rfl, hm', (h.full.resolve_left hn).symm⟩

/-- What is unpacked is canonical and within the range of the format. -/
theorem canonical_of_unpack {b : BitVec 64} {s : Sign} {m : Nat} {q : Int} {hm : 0 < m}
    (h : unpack .binary64 b = .finite s m q hm) : Canonical m q ∧ q ≤ maxExponent := by
  unfold maxExponent
  rw [← packComponents_unpack b, unpack_packComponents] at h
  have he : (@unpackExponent .binary64 b).toNat < 2 ^ 11 := BitVec.isLt _
  have hf : (@unpackMantissa .binary64 b).toNat < 2 ^ 52 := BitVec.isLt _
  generalize @unpackExponent .binary64 b = e at h he
  generalize @unpackMantissa .binary64 b = f at h hf
  split at h
  · split at h <;> cases h
  · next h1 =>
    have h1' : e.toNat ≠ 2047 := fun h => h1 (BitVec.eq_of_toNat_eq h)
    split at h
    · split at h
      · cases h
      · injection h with hs hm' hq
        subst hm' hq
        exact ⟨⟨hm, by omega, le_refl _, .inr rfl⟩, by omega⟩
    · next h0 =>
      have h0' : e.toNat ≠ 0 := fun h => h0 (BitVec.eq_of_toNat_eq h)
      injection h with hs hm' hq
      subst hm' hq
      exact ⟨⟨hm, by omega, by omega, .inl (by omega)⟩, by omega⟩

/-- A double is packed as it was unpacked. Only one bit pattern stands for NaN. -/
theorem pack_unpack (f : Float.Model) : Float.Model.pack f.unpack = f := by
  obtain ⟨⟨b⟩, hb⟩ := f
  simp only [Float.Model.pack, Float.Model.unpack, Float.Model.mk.injEq]
  congr 1
  have hnan := hb.eq_packedNaN
  simp only at hnan
  rw [← packComponents_unpack b] at hnan ⊢
  have he : (@unpackExponent .binary64 b).toNat < 2 ^ 11 := BitVec.isLt _
  have hf : (@unpackMantissa .binary64 b).toNat < 2 ^ 52 := BitVec.isLt _
  rw [unpackExponent_packComponents, unpackMantissa_packComponents] at hnan
  generalize @unpackExponent .binary64 b = e at hnan he ⊢
  generalize @unpackMantissa .binary64 b = m at hnan hf ⊢
  generalize Sign.ofBitVec (@unpackSign .binary64 b) = s at hnan ⊢
  rw [unpack_packComponents]
  split
  · split
    · subst e m; rfl
    · exact (hnan ‹_› ‹_›).symm
  · next h1 =>
    have h1' : e.toNat ≠ 2047 := fun h => h1 (BitVec.eq_of_toNat_eq h)
    split
    · split
      · subst e m; rfl
      · subst e
        rw [pack_finite s _ (by omega) (by unfold maxExponent; omega), if_neg (by omega),
          BitVec.ofNat_toNat, BitVec.setWidth_eq]
    · next h0 =>
      have h0' : e.toNat ≠ 0 := fun h => h0 (BitVec.eq_of_toNat_eq h)
      rw [pack_finite s _ (by omega) (by unfold maxExponent; omega), if_pos (by omega)]
      congr 1
      · apply BitVec.eq_of_toNat_eq
        rw [BitVec.toNat_ofNat]; omega
      · apply BitVec.eq_of_toNat_eq
        rw [BitVec.toNat_ofNat]; omega

/-! ## Readings -/

/-- The double that an unpacked form stands for. -/
def ofUnpacked (u : UnpackedFloat) : Float := .ofModel (.pack u)

theorem unpack_ofUnpacked {m : Nat} {q : Int} (s : Sign) (h : Canonical m q)
    (hq : q ≤ maxExponent) :
    (ofUnpacked (.finite s m q h.pos)).toModel.unpack = .finite s m q h.pos :=
  unpack_pack s h hq

theorem ofUnpacked_unpack (x : Float) : ofUnpacked x.toModel.unpack = x :=
  congrArg Float.ofModel (pack_unpack x.toModel)

theorem ofUnpacked_of_lt (s : Sign) {m : Nat} {q : Int} (hm : 0 < m) (hq : maxExponent < q) :
    ofUnpacked (.finite s m q hm) = ofUnpacked (.infinity s) := by
  unfold ofUnpacked Float.Model.pack
  simp only [pack_finite_of_lt s hm hq]
  rfl

theorem unpack_infinity (s : Sign) : (ofUnpacked (.infinity s)).toModel.unpack = .infinity s := by
  cases s with
  | _ => rfl

theorem infinity_eq : Decimal.infinity false = ofUnpacked (.infinity .positive) := by
  rfl

theorem zero_eq : (0.0 : Float) = ofUnpacked (.zero .positive) := by
  rfl

/-- A finite double without a sign is known from its mantissa and exponent. -/
theorem eq_of_reading {x : Float} {m : Nat} {q : Int} (h : reading x = .finite false m q) :
    m = 0 ∧ x = 0.0 ∨ ∃ hc : Canonical m q, q ≤ maxExponent ∧
      x = ofUnpacked (.finite .positive m q hc.pos) := by
  unfold reading at h
  split at h
  · cases h
  · cases h
  · next s hu =>
    injection h with hs hm hq
    cases s with
    | negative => cases hs
    | positive => exact .inl ⟨hm.symm, by rw [← ofUnpacked_unpack x, hu, zero_eq]⟩
  · next s m' q' hm' hu =>
    injection h with hs hm hq
    subst hm hq
    cases s with
    | negative => cases hs
    | positive =>
      obtain ⟨hc, hq⟩ := canonical_of_unpack hu
      exact .inr ⟨hc, hq, by rw [← ofUnpacked_unpack x, hu]⟩

end ItemBudget.Double
