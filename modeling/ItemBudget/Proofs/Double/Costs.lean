import ItemBudget.Proofs.Double.Digits
import ItemBudget.Proofs.Double.Hundredths
import ItemBudget.Proofs.Double.Text

/-!
# The text of a cost

A cost is the double nearest to a number of hundredths. Rounded to hundredths again it gives a
number whose nearest double is the cost (`near_places`): where doubles are finer than hundredths it
is the same number, and where they are coarser it is closer to the cost than half of their distance.
The text is these hundredths with a point before the last two digits (`fixed_two`), without the
zeros that end a fraction (`trimmed_eq`), so it is canonical and is read as the cost
(`costText_canonical`).
-/

namespace ItemBudget.Double

open Float.Model.UnpackedFloat (Sign)

/-! ## Hundredths again -/

/-- Where doubles are finer than hundredths, the hundredths are found again. -/
theorem roundEven_hundred_near {j : ℕ} (hj : (j : ℚ) / 100 < 2 ^ 46) :
    roundEven (100 * near (j / 100)) = j := by
  have hv : (0 : ℚ) ≤ j / 100 := by positivity
  obtain ⟨hl, hu⟩ := near_close (k := -7) (by norm_num) hv (by norm_num; linarith)
  norm_num at hl hu
  exact roundEven_of_close (by linarith) (by linarith)

/-- **The hundredths of a cost have it as the nearest double.** -/
theorem near_places (j : ℕ) :
    near (roundEven (100 * near (j / 100)) / 100) = near (j / 100) := by
  rcases lt_or_ge ((j : ℚ) / 100) (2 ^ 46) with hj | hj
  · rw [roundEven_hundred_near hj]
  · have hlow : (2 : ℚ) ^ 46 ≤ near (j / 100) := by
      have hkeep : near ((2 : ℚ) ^ 46) = 2 ^ 46 := by
        exact_mod_cast near_natCast (n := 2 ^ 46) (by norm_num)
      rw [← hkeep]
      exact near_mono (by norm_num) hj
    have hpos : (0 : ℚ) < 2 ^ 46 := by norm_num
    obtain ⟨m, q, hc, hnear⟩ := exists_canonical_near (hpos.trans_le hj) (hpos.trans_le hlow)
    rw [hnear] at hlow ⊢
    have hq : -6 ≤ q := by
      by_contra hlt
      have hm : (m : ℚ) < 2 ^ 53 := by exact_mod_cast hc.lt
      have hunit : (2 : ℚ) ^ q ≤ 2 ^ (-7 : ℤ) := zpow_le_zpow_right₀ one_le_two (by omega)
      have hp := two_zpow_pos q
      norm_num at hunit
      nlinarith
    have hp : (2 : ℚ) ^ (-6 : ℤ) ≤ 2 ^ q := zpow_le_zpow_right₀ one_le_two hq
    norm_num at hp
    obtain ⟨hl, hu⟩ := roundEven_bounds (show 0 ≤ 100 * ((m : ℚ) * 2 ^ q) by linarith)
    refine near_of_close hc (by linarith) (by linarith) fun hm => ?_
    rcases hq.lt_or_eq with hlt | rfl
    · have hp : (2 : ℚ) ^ (-5 : ℤ) ≤ 2 ^ q := zpow_le_zpow_right₀ one_le_two hlt
      norm_num at hp
      linarith
    · -- a power of two in this unit is whole
      subst hm
      have hwhole : 100 * (((2 ^ 52 : ℕ) : ℚ) * 2 ^ (-6 : ℤ)) = ((100 * 2 ^ 46 : ℕ) : ℚ) := by
        norm_num
      rw [hwhole, roundEven_natCast]
      norm_num

/-! ## Two digits -/

open Decimal (digitsOf signText)

/-- The digits of a number of hundredths, with a point before the last two. -/
def hundredthsText (n : ℕ) : List Char :=
  digitsOf (n / 100) ++ ['.', Nat.digitChar (n / 10 % 10), Nat.digitChar (n % 10)]

theorem padded_eq (n : ℕ) : List.replicate (3 - (digitsOf n).length) '0' ++ digitsOf n =
    digitsOf (n / 100) ++ [Nat.digitChar (n / 10 % 10), Nat.digitChar (n % 10)] := by
  unfold digitsOf
  rcases Nat.lt_or_ge n 10 with h10 | h10
  · rw [Nat.toDigits_of_lt_base h10, Nat.div_eq_of_lt (by omega : n < 100), Nat.div_eq_of_lt h10,
      Nat.mod_eq_of_lt h10]
    rfl
  · rw [Nat.toDigits_of_base_le (by norm_num) h10]
    rcases Nat.lt_or_ge n 100 with h100 | h100
    · rw [Nat.toDigits_of_lt_base (by omega : n / 10 < 10), Nat.div_eq_of_lt h100,
        Nat.mod_eq_of_lt (by omega : n / 10 < 10)]
      rfl
    · have hlen : 3 - (Nat.toDigits 10 (n / 10) ++ [Nat.digitChar (n % 10)]).length = 0 := by
        rw [Nat.toDigits_of_base_le (by norm_num) (by omega : 10 ≤ n / 10)]
        have hpos : 0 < (Nat.toDigits 10 (n / 10 / 10)).length := Nat.length_toDigits_pos
        simp only [List.length_append, List.length_singleton]
        omega
      rw [hlen, Nat.toDigits_of_base_le (by norm_num) (by omega : 10 ≤ n / 10),
        Nat.div_div_eq_div_mul]
      simp

theorem ofDigits_hundredths (n : ℕ) : Decimal.ofDigits
    (digitsOf (n / 100) ++ [Nat.digitChar (n / 10 % 10), Nat.digitChar (n % 10)]) = n := by
  rw [← padded_eq, ofDigits_append, ofDigits_replicate_zero, ofDigits_digitsOf, Nat.mul_zero,
    Nat.zero_add]

/-- With two places a double is written as its hundredths. -/
theorem fixed_two {x : Float} {negative : Bool} {m : ℕ} {q : ℤ}
    (h : Decimal.reading x = .finite negative m q) :
    (Decimal.fixed 2 x).toList =
      signText negative ++ hundredthsText (roundEven (100 * (m * 2 ^ q))) := by
  have hn : Decimal.divNearest (m * Nat.pow 2 q.toNat * Nat.pow 10 2) (Nat.pow 2 (-q).toNat) =
      roundEven (100 * (m * 2 ^ q)) := by
    have hunit : 0 < Nat.pow 2 (-q).toNat := Nat.pow_pos two_pos
    rw [divNearest_eq _ hunit, ← cast_div_two_pow, Nat.cast_mul, mul_div_right_comm, mul_comm]
    congr 2
  unfold Decimal.fixed Decimal.write
  rw [h, String.toList_ofList]
  dsimp only
  rw [hn]
  generalize roundEven (100 * ((m : ℚ) * 2 ^ q)) = n
  have hpad : List.replicate (2 + 1 - (digitsOf n).length) '0' ++ digitsOf n = _ := padded_eq n
  have hlen : (digitsOf (n / 100) ++
      [Nat.digitChar (n / 10 % 10), Nat.digitChar (n % 10)]).length - 2 =
        (digitsOf (n / 100)).length := by
    rw [List.length_append]
    rfl
  rw [hpad, hlen, List.take_left, List.drop_left, hundredthsText]

/-! ## Zeros that carry nothing -/

theorem dropEnd_concat (c d : Char) (cs : List Char) :
    Text.dropEnd c (cs ++ [d]) = if d = c then Text.dropEnd c cs else cs ++ [d] := by
  unfold Text.dropEnd
  rw [List.reverse_append, List.reverse_singleton, List.singleton_append, List.dropWhile_cons]
  simp only [beq_iff_eq]
  split_ifs
  · rfl
  · rw [List.reverse_cons, List.reverse_reverse]

/-- The digits of a whole number without zeros at its front. -/
structure IsWhole (ds : List Char) : Prop where
  nonempty : ds ≠ []
  digits : ∀ c ∈ ds, c.isDigit = true
  leading : ds.head? = some '0' → ds = ['0']

theorem isWhole_digitsOf (n : ℕ) : IsWhole (digitsOf n) where
  nonempty := Nat.toDigits_ne_nil
  digits _ := isDigit_of_mem_digitsOf
  leading hzero := by
    rcases Nat.eq_zero_or_pos n with rfl | hn
    · rfl
    · exact absurd hzero (head?_digitsOf hn)

/-- Nothing, or a point and one or two digits without a zero at their end. -/
inductive IsFraction : List Char → Prop
  | none : IsFraction []
  | one {d : Char} (digit : d.isDigit = true) (last : d ≠ '0') : IsFraction ['.', d]
  | two {c d : Char} (first : c.isDigit = true) (digit : d.isDigit = true) (last : d ≠ '0') :
    IsFraction ['.', c, d]

theorem isDigit_digitChar {n : ℕ} (h : n < 10) : (Nat.digitChar n).isDigit = true := by
  rw [Nat.isDigit_digitChar]
  exact decide_eq_true h

/-- Two digits after a point without the zeros at their end, and no point without digits. -/
def fraction (d₁ d₀ : Char) : List Char :=
  if d₀ = '0' then if d₁ = '0' then [] else ['.', d₁] else ['.', d₁, d₀]

section Trimming

variable {whole : List Char} {d₁ d₀ : Char} {n : ℕ}

theorem isFraction_fraction (h₁ : d₁.isDigit = true) (h₀ : d₀.isDigit = true) :
    IsFraction (fraction d₁ d₀) := by
  unfold fraction
  split_ifs with hd₀ hd₁
  · exact .none
  · exact .one h₁ hd₁
  · exact .two h₁ h₀ hd₀

/-- **The zeros at the end of a fraction are dropped, and none before the point.** -/
theorem trimmed_eq (sign : List Char) (hwhole : IsWhole whole) (h₁ : d₁.isDigit = true)
    (h₀ : d₀.isDigit = true) :
    Text.dropEnd '.' (Text.dropEnd '0' (sign ++ (whole ++ ['.', d₁, d₀]))) =
      sign ++ (whole ++ fraction d₁ d₀) := by
  have hpoint : ∀ {d : Char} (cs : List Char), d.isDigit = true →
      Text.dropEnd '.' (cs ++ [d]) = cs ++ [d] := by
    intro d cs hd
    rw [dropEnd_concat, if_neg (by rintro rfl; cases hd)]
  have htext : sign ++ (whole ++ ['.', d₁, d₀]) = sign ++ whole ++ ['.'] ++ [d₁] ++ [d₀] := by simp
  rw [htext, dropEnd_concat, fraction]
  split_ifs with hd₀ hd₁
  · -- the point goes too, and before it there is a digit
    obtain ⟨ds, d, rfl⟩ := (List.eq_nil_or_concat whole).resolve_left hwhole.nonempty
    rw [dropEnd_concat, if_pos hd₁, dropEnd_concat, if_neg (by decide), dropEnd_concat, if_pos rfl,
      List.append_nil, List.concat_eq_append, ← List.append_assoc]
    exact hpoint _ (hwhole.digits d (by simp))
  · rw [dropEnd_concat, if_neg hd₁, hpoint _ h₁]
    simp
  · rw [hpoint _ h₀]
    simp

/-- Zeros at the end of a fraction do not count. -/
theorem exists_positional_fraction (hwhole : IsWhole whole) (h₁ : d₁.isDigit = true)
    (h₀ : d₀.isDigit = true) (hn : Decimal.ofDigits (whole ++ [d₁, d₀]) = n) :
    ∃ d, Positional (whole ++ fraction d₁ d₀) d ∧ value d = n / 100 := by
  have hdigits : ∀ {ds : List Char}, (∀ d ∈ ds, d = d₁ ∨ d = d₀) → ∀ d ∈ ds, d.isDigit = true := by
    intro ds hds d hd
    rcases hds d hd with rfl | rfl
    · exact h₁
    · exact h₀
  unfold fraction
  split_ifs with hd₀ hd₁
  · subst hd₀ hd₁
    rw [ofDigits_append] at hn
    refine ⟨Decimal.ofParts whole [] 0, ?_, ?_⟩
    · rw [List.append_nil]
      exact .whole hwhole.nonempty hwhole.digits
    · rw [value_ofParts, List.append_nil, ← hn]
      have hzero : Decimal.ofDigits ['0', '0'] = 0 := rfl
      rw [hzero]
      norm_num
  · subst hd₀
    rw [List.append_cons, ofDigits_append] at hn
    refine ⟨Decimal.ofParts whole [d₁] 0, .point hwhole.nonempty hwhole.digits ?_, ?_⟩
    · exact hdigits (by simp)
    · rw [value_ofParts, ← hn]
      have hzero : Decimal.ofDigits ['0'] = 0 := rfl
      rw [hzero]
      norm_num
      ring
  · refine ⟨Decimal.ofParts whole [d₁, d₀] 0, .point hwhole.nonempty hwhole.digits ?_, ?_⟩
    · exact hdigits (by simp)
    · rw [value_ofParts, hn]
      norm_num
      ring

end Trimming

/-! ## The text of a cost -/

theorem readFloat?_signText {cs : List Char} {d : Decimal} (h : Positional cs d) (negative : Bool) :
    Decimal.readFloat? (signText negative ++ cs) = some (Decimal.signed negative d.toFloat) := by
  cases negative with
  | false => exact h.readFloat?_eq
  | true =>
    have hmagnitude : Decimal.readMagnitude? cs = some d.toFloat := by
      rw [Decimal.readMagnitude?, h.readUnsigned?_eq]
    show (Decimal.readMagnitude? cs).map (-·) = _
    rw [hmagnitude]
    rfl

theorem exists_reading {x : Float} (hx : x.isFinite = true) :
    ∃ (s : Sign) (m : ℕ) (q : ℤ), Decimal.reading x = .finite (s == .negative) m q ∧
      toRat x = signed s (m * 2 ^ q) := by
  unfold Decimal.reading
  rcases unpack_of_isFinite hx with ⟨s, hu⟩ | ⟨s, m, q, hm, hu⟩
  · refine ⟨s, 0, Decimal.minExponent, by rw [hu], ?_⟩
    rw [toRat_zero hu, Nat.cast_zero, zero_mul, signed_zero]
  · exact ⟨s, m, q, by rw [hu], toRat_finite hu⟩

theorem stands_toFloat_of_lt {d : Decimal} (h : value d < overflow) :
    Stands d.toFloat (near (value d)) := by
  rcases Nat.eq_zero_or_pos d.digits with h0 | hpos
  · have hvalue : value d = 0 := by rw [value, h0, Nat.cast_zero, zero_mul]
    rw [hvalue, near_zero, Decimal.toFloat, if_pos h0]
    exact stands_zero
  · have hv : 0 ≤ value d := mul_nonneg (Nat.cast_nonneg _) (ten_zpow_pos _).le
    rw [toFloat_eq_nearest hpos]
    exact stands_nearest hv ((near_lt_iff hv).2 h)

/-- The exact value of a cost is the double nearest to its hundredths. -/
theorem near_hundredths {x : Float} {s : Sign} {m : ℕ} {q : ℤ} (h : InHundredths x)
    (hx : toRat x = signed s (m * 2 ^ q)) :
    near (roundEven (100 * (m * 2 ^ q)) / 100) = m * 2 ^ q := by
  obtain ⟨-, k, hk⟩ := h
  have hnn : (0 : ℚ) ≤ m * 2 ^ q := mul_nonneg (Nat.cast_nonneg m) (two_zpow_pos q).le
  have habs : (m : ℚ) * 2 ^ q = near ((k.natAbs : ℕ) / 100) := by
    rw [hx] at hk
    have h := congrArg abs hk
    have hundred : |(100 : ℚ)| = 100 := abs_of_pos (by norm_num)
    rwa [abs_signed, abs_nearSigned, abs_of_nonneg hnn, abs_div, hundred, ← Int.cast_abs,
      Int.abs_eq_natAbs, Int.cast_natCast] at h
  rw [habs]
  exact near_places k.natAbs

/-- A sign or none, a whole number, and a fraction or none. -/
def IsCost (text : List Char) : Prop :=
  ∃ sign whole fraction, text = sign ++ (whole ++ fraction) ∧ (sign = [] ∨ sign = ['-']) ∧
    IsWhole whole ∧ IsFraction fraction

/-- The text that is left of two places is canonical, and is read as the number that it was made
from. -/
theorem exists_trimmed {x : Float} (h : InHundredths x) :
    ∃ text y, Text.dropEnd '.' (Text.dropEnd '0' (Decimal.fixed 2 x).toList) = text ∧
      IsCost text ∧ Decimal.readFloat? text = some y ∧ y.isFinite = true ∧ toRat y = toRat x := by
  obtain ⟨s, m, q, hreading, hvalue⟩ := exists_reading h.1
  have hnear := near_hundredths h hvalue
  rw [fixed_two hreading]
  generalize roundEven (100 * ((m : ℚ) * 2 ^ q)) = n at hnear ⊢
  have hwhole := isWhole_digitsOf (n / 100)
  have h₁ := isDigit_digitChar (Nat.mod_lt (n / 10) (by norm_num : 0 < 10))
  have h₀ := isDigit_digitChar (Nat.mod_lt n (by norm_num : 0 < 10))
  obtain ⟨d, hd, hd'⟩ := exists_positional_fraction hwhole h₁ h₀ (ofDigits_hundredths n)
  have hlt : value d < overflow := by
    have hsize : |toRat x| = m * 2 ^ q := by
      rw [hvalue, abs_signed, abs_of_nonneg (mul_nonneg (Nat.cast_nonneg m) (two_zpow_pos q).le)]
    have hself := abs_nearSigned (toRat x)
    rw [nearSigned_toRat, hsize] at hself
    have hin := abs_toRat_lt x
    rw [hsize, ← near_lt_iff (hsize ▸ abs_nonneg _), ← hself, ← hnear, ← hd'] at hin
    exact (near_lt_iff (mul_nonneg (Nat.cast_nonneg _) (ten_zpow_pos _).le)).1 hin
  have hstands := stands_toFloat_of_lt hlt
  rw [hd', hnear] at hstands
  refine ⟨_, _, trimmed_eq _ hwhole h₁ h₀, ⟨_, _, _, rfl, ?_, hwhole, isFraction_fraction h₁ h₀⟩,
    readFloat?_signText hd _, ?_⟩
  · cases s with
    | positive => exact .inl rfl
    | negative => exact .inr rfl
  · rw [hvalue]
    cases s with
    | positive => exact ⟨hstands.isFinite, hstands.toRat_eq⟩
    | negative =>
      obtain ⟨hfinite, hneg⟩ := neg_finite hstands.isFinite
      exact ⟨hfinite, hneg.trans (congrArg _ hstands.toRat_eq)⟩

/-- **The text of a cost is canonical and loses nothing.** It is never that of a negative zero, and
it is read as a double that compares equal to the cost. -/
theorem costText_canonical {x : Float} (h : (round2 x).isFinite = true) :
    IsCost (costText x).toList ∧ costText x ≠ "-0" ∧
      ∃ y, Decimal.readFloat? (costText x).toList = some y ∧ (y == round2 x) = true := by
  obtain ⟨text, y, htext, hcost, hread, hy, hvalue⟩ := exists_trimmed (inHundredths_round2 h)
  unfold costText
  rw [htext]
  dsimp only
  split_ifs with hzero
  · subst hzero
    have hminus : Decimal.readFloat? ['-', '0'] = some (-0.0) := by decide +kernel
    have hplain : Decimal.readFloat? "0".toList = some 0.0 := by decide +kernel
    obtain rfl : y = -0.0 := Option.some_inj.1 (hread.symm.trans hminus)
    refine ⟨⟨[], ['0'], [], rfl, .inl rfl, isWhole_digitsOf 0, .none⟩, by decide, 0.0, hplain, ?_⟩
    have hsame : toRat 0.0 = toRat (-0.0) :=
      stands_zero.toRat_eq.trans (toRat_zero unpack_neg_zero).symm
    exact (beq_iff_toRat rfl h).2 (hsame.trans hvalue)
  · rw [String.toList_ofList]
    refine ⟨hcost, ?_, y, hread, (beq_iff_toRat hy h).2 hvalue⟩
    intro heq
    refine hzero ?_
    rw [← String.toList_ofList (l := text), heq]
    rfl

/-- A cost above `2 ^ 46`, where neighbouring doubles are more than a hundredth apart. -/
theorem costText_of_coarse :
    let x : Float := 70368744177664.11
    costText x = "70368744177664.11" ∧ IsCost (costText x).toList ∧ costText x ≠ "-0" ∧
      ∃ y, Decimal.readFloat? (costText x).toList = some y ∧ (y == round2 x) = true := by
  intro x
  have h : (round2 x).isFinite = true := by decide +kernel
  exact ⟨by decide +kernel, costText_canonical h⟩

end ItemBudget.Double
