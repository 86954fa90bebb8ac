import ItemBudget.Json.Document
import ItemBudget.Proofs.Double.Digits
import ItemBudget.Proofs.Json.Numbers
import ItemBudget.Proofs.Json.Written

/-!
# The numerals of doubles

A double is written with a point or an exponent, so its numeral is read as a double again, and its
digits fit the significand. They are the shortest ones (`decimal_ofDecimal`), but for a whole number
that is written positionally: the zero after its point is one digit more.
-/

namespace ItemBudget

open Decimal (Numeral Style)
open Double
open Float.Model.UnpackedFloat (Sign)

/-- The decimal number that a numeral writes, without its sign. -/
def Decimal.Numeral.decimal (n : Numeral) : Decimal :=
  .ofParts n.whole n.fraction (n.exponent.getD 0)

namespace Json

/-! ## Reading digits -/

theorem ofDigits_cons (c : Char) (cs : List Char) :
    Decimal.ofDigits (c :: cs) = 10 ^ cs.length * Decimal.digitValue c + Decimal.ofDigits cs := by
  have h := ofDigits_append [c] cs
  rw [List.singleton_append] at h
  rw [h]
  congr 2
  show 10 * 0 + Decimal.digitValue c = _
  omega

/-- Digits that all fit are the digits of one number. -/
theorem fill_eq {significand : ℕ} {cs : List Char}
    (h : 10 ^ cs.length * significand + Decimal.ofDigits cs ≤ maxSignificand) :
    fill significand cs = (10 ^ cs.length * significand + Decimal.ofDigits cs, []) := by
  induction cs generalizing significand with
  | nil =>
    show (significand, []) = (1 * significand + 0, [])
    rw [one_mul, add_zero]
  | cons c cs ih =>
    have hstep : 10 ^ (c :: cs).length * significand + Decimal.ofDigits (c :: cs) =
        10 ^ cs.length * (10 * significand + Decimal.digitValue c) + Decimal.ofDigits cs := by
      rw [ofDigits_cons, List.length_cons, pow_succ]
      ring
    rw [hstep] at h ⊢
    have hfits : 10 * significand + Decimal.digitValue c ≤ maxSignificand :=
      (Nat.le_mul_of_pos_left _ (Nat.pow_pos (by norm_num))).trans ((Nat.le_add_right _ _).trans h)
    rw [fill, if_pos hfits, ih h]

theorem float?_of_room {n : Numeral} (h : n.decimal.digits ≤ maxSignificand) :
    float? n = (scaled? n.decimal.digits n.decimal.exponent).map (Decimal.signed n.negative) := by
  have hdigits : n.decimal.digits = 10 ^ n.fraction.length *
      (10 ^ n.whole.length * 0 + Decimal.ofDigits n.whole) + Decimal.ofDigits n.fraction := by
    rw [mul_zero, zero_add]
    exact ofDigits_append n.whole n.fraction
  rw [hdigits] at h ⊢
  have hwhole : 10 ^ n.whole.length * 0 + Decimal.ofDigits n.whole ≤ maxSignificand := by
    refine le_trans ?_ (le_trans (Nat.le_add_right _ _) h)
    exact Nat.le_mul_of_pos_left _ (Nat.pow_pos (by norm_num))
  rw [float?_eq, fill_eq hwhole, fill_eq h]
  have hexponent : (([] : List Char).length : ℤ)
      - (n.fraction.length - ([] : List Char).length : ℕ) + n.exponent.getD 0 =
      n.decimal.exponent := by
    show ((0 : ℕ) : ℤ) - (n.fraction.length : ℕ) + n.exponent.getD 0 =
      n.exponent.getD 0 - n.fraction.length
    omega
  rw [hexponent]

/-- A numeral with a point or an exponent is a double. -/
theorem number?_of_room {n : Numeral} (hwhole : n.isWhole = false)
    (h : n.decimal.digits ≤ maxSignificand) :
    Document.number? (Node.number n) =
      (scaled? n.decimal.digits n.decimal.exponent).map (Decimal.signed n.negative) := by
  show (number? n).map Number.toFloat = _
  simp only [number?, hwhole, Bool.false_and, Bool.false_eq_true, if_false, float?_of_room h,
    Option.map_map]
  rfl

/-! ## Laying out digits -/

section Layout

variable (least : ℤ) (negative : Bool) {d : Decimal}

theorem negative_ofDecimal : (Numeral.ofDecimal least negative d).negative = negative := by
  unfold Numeral.ofDecimal
  simp only
  split_ifs <;> rfl

/-- The sign is laid out on its own. -/
theorem decimal_signed (d : Decimal) : (Numeral.ofDecimal least negative d).decimal =
    (Numeral.ofDecimal least false d).decimal := by
  unfold Numeral.ofDecimal
  simp only
  split_ifs <;> rfl

theorem isWhole_ofDecimal : (Numeral.ofDecimal least negative d).isWhole = false := by
  have hlen : 0 < (Decimal.digitsOf d.digits).length := Nat.length_toDigits_pos
  unfold Numeral.ofDecimal Numeral.isWhole
  simp only
  split_ifs with h1 h2 h3
  · simp
  · simp
  · rw [Bool.and_eq_false_iff, List.isEmpty_eq_false_iff, ne_eq, List.drop_eq_nil_iff]
    omega
  · rw [Bool.and_eq_false_iff, List.isEmpty_eq_false_iff]
    exact .inl (List.append_ne_nil_of_right_ne_nil _ (List.length_pos_iff.1 hlen))

theorem standard_ofDecimal (hd : 0 < d.digits) :
    (Numeral.ofDecimal least negative d).Standard := by
  have hlen : 0 < (Decimal.digitsOf d.digits).length := Nat.length_toDigits_pos
  have hdigit : ∀ c ∈ Decimal.digitsOf d.digits, c.isDigit = true :=
    fun _ => isDigit_of_mem_digitsOf
  have hhead := head?_digitsOf hd
  unfold Numeral.ofDecimal
  simp only
  generalize Decimal.digitsOf d.digits = ds at *
  obtain ⟨c, cs, rfl⟩ := List.exists_cons_of_length_pos hlen
  have hzero : c ≠ '0' := fun h => hhead (by rw [h, List.head?_cons])
  split_ifs with h1 h2 h3
  · refine ⟨List.cons_ne_nil _ _, fun x hx => hdigit x (List.mem_of_mem_take hx), fun _ => ?_,
      fun x hx => hdigit x (List.mem_of_mem_drop hx)⟩
    exact le_rfl
  · refine ⟨List.cons_ne_nil _ _, fun x hx => ?_, fun h => ?_, fun x hx => ?_⟩
    · rcases List.mem_append.1 hx with h | h
      · exact hdigit x h
      · exact isDigit_of_mem_replicate h
    · exact absurd (Option.some_inj.1 h) hzero
    · rw [List.mem_singleton.1 hx]
      rfl
  · obtain ⟨k, hk⟩ : ∃ k, ((c :: cs).length + d.exponent - 1 + 1).toNat = k + 1 :=
      ⟨((c :: cs).length + d.exponent - 1).toNat, by omega⟩
    rw [hk]
    refine ⟨List.cons_ne_nil _ _, fun x hx => hdigit x (List.mem_of_mem_take hx), fun h => ?_,
      fun x hx => hdigit x (List.mem_of_mem_drop hx)⟩
    exact absurd (Option.some_inj.1 h) hzero
  · refine ⟨List.cons_ne_nil _ _, fun x hx => ?_, fun _ => le_rfl, fun x hx => ?_⟩
    · rw [List.mem_singleton.1 hx]
      rfl
    · rcases List.mem_append.1 hx with h | h
      · exact isDigit_of_mem_replicate h
      · exact hdigit x h

/-- A number of at most sixteen digits is a whole number if its exponent says so. -/
theorem exists_whole (hexponent : 0 ≤ d.exponent)
    (hlen : (Decimal.digitsOf d.digits).length + d.exponent ≤ 16) :
    ∃ n : ℕ, n < 10 ^ 16 ∧ value d = n ∧ d.digits * 10 ^ (d.exponent.toNat + 1) = 10 * n := by
  have hvalue : value d = (d.digits * 10 ^ d.exponent.toNat : ℕ) := by
    rw [value, Nat.cast_mul, ← ten_zpow_natCast, Int.toNat_of_nonneg hexponent]
  refine ⟨d.digits * 10 ^ d.exponent.toNat, ?_, hvalue, by ring⟩
  rcases Nat.eq_zero_or_pos d.digits with h0 | h0
  · rw [h0, zero_mul]
    norm_num
  · have hlt := value_lt h0
    rw [hvalue] at hlt
    have hle : (10 : ℚ) ^ (((Decimal.digitsOf d.digits).length : ℤ) + d.exponent) ≤
        10 ^ (16 : ℤ) := zpow_le_zpow_right₀ (by norm_num) hlen
    exact_mod_cast hlt.trans_le hle

/-- A point among the digits counts in the exponent. -/
theorem ofParts_split (digits k : ℕ) (exponent : ℤ) :
    Decimal.ofParts ((Decimal.digitsOf digits).take k) ((Decimal.digitsOf digits).drop k) exponent =
      ⟨digits, exponent - ((Decimal.digitsOf digits).length - k : ℕ)⟩ := by
  rw [Decimal.ofParts, List.take_append_drop, ofDigits_digitsOf, List.length_drop]

/-- The layout keeps the digits, and a whole number has a zero after its point. -/
theorem decimal_ofDecimal : (Numeral.ofDecimal least negative d).decimal = d ∨
    ∃ n : ℕ, n < 10 ^ 16 ∧ value d = n ∧
      (Numeral.ofDecimal least negative d).decimal = ⟨10 * n, -1⟩ := by
  have hlen : 0 < (Decimal.digitsOf d.digits).length := Nat.length_toDigits_pos
  unfold Numeral.ofDecimal
  simp only
  split_ifs with h1 h2 h3
  · refine .inl ((ofParts_split _ _ _).trans ?_)
    congr 1
    rw [Option.getD_some]
    omega
  · right
    simp only [Bool.or_eq_true, decide_eq_true_eq] at h1
    obtain ⟨n, hn, hvalue, heq⟩ := exists_whole h2 (by omega)
    refine ⟨n, hn, hvalue, ?_⟩
    rw [← heq, Numeral.decimal, Decimal.ofParts, ofDigits_append, ofDigits_append,
      ofDigits_digitsOf, ofDigits_replicate_zero, List.length_replicate]
    congr 1
    show 10 ^ 1 * (10 ^ d.exponent.toNat * d.digits + 0) + 0 = _
    ring
  · refine .inl ((ofParts_split _ _ _).trans ?_)
    congr 1
    rw [Option.getD_none]
    omega
  · left
    rw [Numeral.decimal, Decimal.ofParts, ofDigits_append, ofDigits_append, ofDigits_digitsOf,
      ofDigits_replicate_zero, List.length_append, List.length_replicate]
    cases d with
    | mk digits exponent =>
      have hzero : Decimal.ofDigits ['0'] = 0 := rfl
      rw [hzero]
      congr 1
      · ring
      · simp only [Option.getD_none] at *
        push_cast
        omega

end Layout

/-! ## The numeral of a double -/

/-- The decimal number that is written for `m · 2 ^ q`. -/
def written (m : ℕ) (q : ℤ) : Decimal :=
  (Numeral.ofDecimal floatStyle.least false (Decimal.shortest floatStyle.tie m q)).decimal

section Written

variable {m : ℕ} {q : ℤ}

theorem written_cases (m : ℕ) (q : ℤ) :
    written m q = Decimal.shortest .even m q ∨
      ∃ n : ℕ, n < 10 ^ 16 ∧ value (Decimal.shortest .even m q) = n ∧
        written m q = ⟨10 * n, -1⟩ :=
  decimal_ofDecimal (-5) false

theorem value_written (m : ℕ) (q : ℤ) :
    value (written m q) = value (Decimal.shortest .even m q) := by
  rcases written_cases m q with h | ⟨n, -, hvalue, h⟩
  · rw [h]
  · rw [h, hvalue, value]
    push_cast
    rw [zpow_neg_one]
    ring

theorem mem_written (h : Canonical m q) (hq : q ≤ maxExponent) :
    Mem (Decimal.interval m q) (value (written m q)) := by
  rw [value_written]
  exact mem_shortest .even h hq

theorem digits_written_le (h : Canonical m q) (hq : q ≤ maxExponent) :
    (written m q).digits ≤ maxSignificand := by
  show (written m q).digits ≤ 2 ^ 64 - 1
  have hlt := digits_shortest_lt .even h hq
  rcases written_cases m q with heq | ⟨n, hn, -, heq⟩
  · rw [heq]
    omega
  · rw [heq]
    show 10 * n ≤ 2 ^ 64 - 1
    omega

theorem exponent_written_bounds (h : Canonical m q) (hq : q ≤ maxExponent) :
    -346 ≤ (written m q).exponent ∧ (written m q).exponent ≤ 308 := by
  rcases written_cases m q with heq | ⟨n, -, -, heq⟩
  · rw [heq]
    exact exponent_shortest_bounds .even h hq
  · rw [heq]
    exact ⟨by norm_num, by norm_num⟩

end Written

variable {x : Float} {s : Sign} {m : ℕ} {q : ℤ} {hm : 0 < m}

theorem ofFloat_zero (hx : x.toModel.unpack = .zero s) :
    Node.ofFloat x = .number ⟨s == .negative, ['0'], ['0'], none⟩ := by
  simp only [Node.ofFloat, Numeral.ofFloat?, Decimal.reading, hx, if_true, Option.elim_some]

theorem ofFloat_finite (hx : x.toModel.unpack = .finite s m q hm) :
    Node.ofFloat x = .number (.ofDecimal floatStyle.least (s == .negative)
      (Decimal.shortest floatStyle.tie m q)) := by
  simp only [Node.ofFloat, Numeral.ofFloat?, Decimal.reading, hx, hm.ne', if_false,
    Option.elim_some]

theorem standard_ofFloat (x : Float) : (Node.ofFloat x).Standard := by
  cases hx : x.toModel.unpack with
  | notANumber =>
    simp only [Node.ofFloat, Numeral.ofFloat?, Decimal.reading, hx, Option.elim_none]
    exact .null
  | infinity s =>
    simp only [Node.ofFloat, Numeral.ofFloat?, Decimal.reading, hx, Option.elim_none]
    exact .null
  | zero s =>
    rw [ofFloat_zero hx]
    refine .number ⟨List.cons_ne_nil _ _, ?_, fun _ => le_rfl, ?_⟩
    · simp
    · simp
  | finite s m q hm =>
    obtain ⟨hc, hq⟩ := canonical_of_unpack hx
    rw [ofFloat_finite hx]
    refine .number (standard_ofDecimal _ _ ?_)
    exact digits_pos_of_value (pos_of_mem hm (mem_shortest .even hc hq))

theorem number?_ofFloat (hx : x.toModel.unpack = .finite s m q hm) :
    Document.number? (Node.ofFloat x) =
      (scaled? (written m q).digits (written m q).exponent).map
        (Decimal.signed (s == .negative)) := by
  obtain ⟨hc, hq⟩ := canonical_of_unpack hx
  have hdecimal := decimal_signed floatStyle.least (s == .negative)
    (Decimal.shortest floatStyle.tie m q)
  have hroom := digits_written_le hc hq
  unfold written at hroom ⊢
  rw [← hdecimal] at hroom ⊢
  rw [ofFloat_finite hx, number?_of_room (isWhole_ofDecimal _ _) hroom, negative_ofDecimal]

end Json

end ItemBudget
