import ItemBudget.Decimal.Reader
import ItemBudget.Proofs.Double.Shortest
import Mathlib.Data.List.TakeWhile

/-!
# The text of a double reads back

`plain` writes the shortest digits of a double, with zeros and a point where they are needed. The
text is digits with at most one point, and the number that it writes is read as the double it was
made from: `exists_plain`. What a text of digits and points is read as has no sign and is not NaN
(`exists_toFloat_of_readFloat?`, `reading_toFloat`).
-/

namespace ItemBudget.Double

open Float.Model (UnpackedFloat)
open Decimal (reading)

/-! ## Digits -/

theorem ofDigits_append (xs ys : List Char) :
    Decimal.ofDigits (xs ++ ys) = 10 ^ ys.length * Decimal.ofDigits xs + Decimal.ofDigits ys := by
  show Nat.ofDigitChars 10 (xs ++ ys) 0 = _
  rw [Nat.ofDigitChars_append, Nat.ofDigitChars_eq_ofDigitChars_zero]
  rfl

theorem ofDigits_replicate_zero (n : ℕ) : Decimal.ofDigits (List.replicate n '0') = 0 := by
  show Nat.ofDigitChars 10 (List.replicate n '0') 0 = 0
  rw [Nat.ofDigitChars_replicate_zero, Nat.mul_zero]

theorem ofDigits_digitsOf (n : ℕ) : Decimal.ofDigits (Decimal.digitsOf n) = n :=
  Nat.ofDigitChars_toDigits (by norm_num) (by norm_num)

theorem isDigit_of_mem_digitsOf {n : ℕ} {c : Char} (h : c ∈ Decimal.digitsOf n) :
    c.isDigit = true :=
  Nat.isDigit_of_mem_toDigits (by norm_num) (by norm_num) h

/-- The digits of a number that is not zero start with another digit. -/
theorem head?_digitsOf {n : ℕ} (hn : 0 < n) : (Decimal.digitsOf n).head? ≠ some '0' := by
  unfold Decimal.digitsOf
  induction n using Nat.strongRecOn with
  | ind n ih =>
    rcases Nat.lt_or_ge n 10 with hlt | hge
    · rw [Nat.toDigits_of_lt_base hlt, List.head?_cons, ne_eq, Option.some_inj,
        Nat.digitChar_eq_zero]
      exact hn.ne'
    · rw [Nat.toDigits_of_base_le (by norm_num) hge,
        List.head?_append_of_ne_nil _ Nat.toDigits_ne_nil]
      exact ih (n / 10) (by omega) (by omega)

theorem isDigit_of_mem_replicate {n : ℕ} {c : Char} (h : c ∈ List.replicate n '0') :
    c.isDigit = true := by
  rw [List.eq_of_mem_replicate h]
  rfl

theorem value_ofParts (whole fraction : List Char) :
    value (Decimal.ofParts whole fraction 0)
      = Decimal.ofDigits (whole ++ fraction) * 10 ^ (-(fraction.length : ℤ)) := by
  rw [value, Decimal.ofParts, zero_sub]

/-! ## Positional notation -/

/-- A text of digits, with a point and more digits after it or without, and the decimal number that
it writes. -/
inductive Positional : List Char → Decimal → Prop
  | whole {ds : List Char} (ne : ds ≠ []) (digits : ∀ c ∈ ds, c.isDigit = true) :
    Positional ds (Decimal.ofParts ds [] 0)
  | point {ds fs : List Char} (ne : ds ≠ []) (digits : ∀ c ∈ ds, c.isDigit = true)
    (fraction : ∀ c ∈ fs, c.isDigit = true) :
    Positional (ds ++ '.' :: fs) (Decimal.ofParts ds fs 0)

theorem exists_positional (d : Decimal) :
    ∃ d', Positional d.positional d' ∧ value d' = value d := by
  have hlen : 0 < (Decimal.digitsOf d.digits).length := Nat.length_toDigits_pos
  unfold Decimal.positional
  simp only
  split_ifs with h1 h2
  · refine ⟨_, .whole ?_ ?_, ?_⟩
    · exact List.append_ne_nil_of_left_ne_nil (List.length_pos_iff.1 hlen) _
    · intro c hc
      rcases List.mem_append.1 hc with h | h
      · exact isDigit_of_mem_digitsOf h
      · exact isDigit_of_mem_replicate h
    · rw [value_ofParts, List.append_nil, ofDigits_append, ofDigits_digitsOf,
        ofDigits_replicate_zero, List.length_replicate, List.length_nil, value]
      push_cast
      rw [mul_one, add_zero, mul_comm, ← zpow_natCast, Int.toNat_of_nonneg h1]
  · refine ⟨_, .point ?_ ?_ ?_, ?_⟩
    · intro h
      have := congrArg List.length h
      rw [List.length_take, List.length_nil] at this
      omega
    · exact fun c hc => isDigit_of_mem_digitsOf (List.mem_of_mem_take hc)
    · exact fun c hc => isDigit_of_mem_digitsOf (List.mem_of_mem_drop hc)
    · rw [value_ofParts, List.take_append_drop, ofDigits_digitsOf, List.length_drop, value]
      congr 2
      omega
  · refine ⟨_, @Positional.point ['0'] _ (List.cons_ne_nil _ _) ?_ ?_, ?_⟩
    · intro c hc
      rw [List.mem_singleton.1 hc]
      rfl
    · intro c hc
      rcases List.mem_append.1 hc with h | h
      · exact isDigit_of_mem_replicate h
      · exact isDigit_of_mem_digitsOf h
    · rw [value_ofParts, ofDigits_append, ofDigits_append, ofDigits_digitsOf,
        ofDigits_replicate_zero, List.length_append, List.length_replicate, value]
      have h0 : Decimal.ofDigits ['0'] = 0 := rfl
      rw [h0, Nat.mul_zero, Nat.zero_add, Nat.mul_zero, Nat.zero_add]
      congr 2
      push_cast
      omega

namespace Positional

variable {cs : List Char} {d : Decimal}

/-- The text starts with a digit. -/
theorem head (h : Positional cs d) : ∃ c r, cs = c :: r ∧ c.isDigit = true := by
  cases h with
  | whole ne digits =>
    obtain ⟨c, r, rfl⟩ := List.exists_cons_of_ne_nil ne
    exact ⟨c, r, rfl, digits c List.mem_cons_self⟩
  | point ne digits _ =>
    obtain ⟨c, r, rfl⟩ := List.exists_cons_of_ne_nil ne
    exact ⟨c, _, rfl, digits c List.mem_cons_self⟩

theorem digit_or_point (h : Positional cs d) {c : Char} (hc : c ∈ cs) :
    c.isDigit = true ∨ c = '.' := by
  cases h with
  | whole _ digits => exact .inl (digits c hc)
  | point _ digits fraction =>
    rcases List.mem_append.1 hc with h | h
    · exact .inl (digits c h)
    · rcases List.mem_cons.1 h with rfl | h
      · exact .inr rfl
      · exact .inl (fraction c h)

theorem count_point_le (h : Positional cs d) : cs.count '.' ≤ 1 := by
  have hzero : ∀ {ds : List Char}, (∀ c ∈ ds, c.isDigit = true) → ds.count '.' = 0 := by
    intro ds hds
    exact List.count_eq_zero.2 fun hp => by simpa using hds _ hp
  cases h with
  | whole _ digits => rw [hzero digits]; exact Nat.zero_le 1
  | point _ digits fraction =>
    rw [List.count_append, hzero digits, List.count_cons_self, hzero fraction]

theorem readUnsigned?_eq (h : Positional cs d) : Decimal.readUnsigned? cs = some d := by
  unfold Decimal.readUnsigned?
  cases h with
  | whole ne digits =>
    have ht : cs.takeWhile Char.isDigit = cs := List.takeWhile_eq_self_iff.2 digits
    have hd : cs.dropWhile Char.isDigit = [] := List.dropWhile_eq_nil_iff.2 digits
    have he : cs.isEmpty = false := by rwa [List.isEmpty_eq_false_iff]
    simp only [ht, hd, he, Bool.false_and, Bool.false_eq_true, if_false]
  | point ne digits fraction =>
    rename_i ds fs
    have ht : (ds ++ '.' :: fs).takeWhile Char.isDigit = ds := by
      rw [List.takeWhile_append_of_pos digits, List.takeWhile_cons_of_neg (by decide),
        List.append_nil]
    have hd : (ds ++ '.' :: fs).dropWhile Char.isDigit = '.' :: fs := by
      rw [List.dropWhile_append_of_pos digits, List.dropWhile_cons_of_neg (by decide)]
    have hf : fs.takeWhile Char.isDigit = fs := List.takeWhile_eq_self_iff.2 fraction
    have hn : fs.dropWhile Char.isDigit = [] := List.dropWhile_eq_nil_iff.2 fraction
    have he : ds.isEmpty = false := by rwa [List.isEmpty_eq_false_iff]
    simp only [ht, hd, hf, hn, he, Bool.false_and, Bool.false_eq_true, if_false]

end Positional

/-! ## Reading -/

theorem toLower_of_digit_or_point {c : Char} (h : c.isDigit = true ∨ c = '.') :
    c.toLower = c := by
  unfold Char.toLower
  refine dif_neg ?_
  rintro ⟨h1, h2⟩
  rcases h with h | rfl
  · simp only [Char.isDigit, Bool.and_eq_true, decide_eq_true_eq] at h
    exact absurd (UInt32.le_trans h1 h.2) (by decide)
  · revert h1; decide

/-- Only a sign keeps a text from being read as a magnitude. -/
theorem readFloat?_cons {c : Char} {cs : List Char} (hp : c ≠ '+') (hm : c ≠ '-') :
    Decimal.readFloat? (c :: cs) = Decimal.readMagnitude? (c :: cs) := by
  unfold Decimal.readFloat?
  split
  · next heq => exact absurd (List.cons.inj heq).1 hp
  · next heq => exact absurd (List.cons.inj heq).1 hm
  · rfl

theorem Positional.readFloat?_eq {cs : List Char} {d : Decimal} (h : Positional cs d) :
    Decimal.readFloat? cs = some d.toFloat := by
  obtain ⟨c, r, rfl, hc⟩ := h.head
  rw [readFloat?_cons (by rintro rfl; cases hc) (by rintro rfl; cases hc),
    Decimal.readMagnitude?, h.readUnsigned?_eq]

/-- A text of digits and points is no word, so what it is read as is a decimal number. -/
theorem exists_toFloat_of_readFloat? {cs : List Char} {x : Float}
    (hcs : ∀ c ∈ cs, c.isDigit = true ∨ c = '.') (h : Decimal.readFloat? cs = some x) :
    ∃ d : Decimal, x = d.toFloat := by
  have hword : ∀ w : String, (∀ c ∈ w.toList.head?, ¬(c.isDigit = true ∨ c = '.')) → w ≠ "" →
      String.ofList (cs.map Char.toLower) ≠ w := by
    rintro w hw hne rfl
    rw [String.toList_ofList] at hw
    cases cs with
    | nil => exact hne rfl
    | cons c r =>
      have hc := hcs c List.mem_cons_self
      exact hw _ rfl (by rwa [toLower_of_digit_or_point hc])
  have hmag : Decimal.readFloat? cs = Decimal.readMagnitude? cs := by
    cases cs with
    | nil => rfl
    | cons c r =>
      have hc := hcs c List.mem_cons_self
      exact readFloat?_cons (by rintro rfl; simp at hc) (by rintro rfl; simp at hc)
  rw [hmag, Decimal.readMagnitude?] at h
  split at h
  · next d _ =>
    cases h
    exact ⟨d, rfl⟩
  · simp only at h
    rw [if_neg, if_neg (hword _ (by simp) (by decide))] at h
    · cases h
    · intro h
      rcases Bool.or_eq_true_iff.1 h with h | h
      · exact hword _ (by simp) (by decide) (of_decide_eq_true h)
      · exact hword _ (by simp) (by decide) (of_decide_eq_true h)

/-- The text of a finite double without a sign is positional, and **reads back**. -/
theorem exists_plain {x : Float} {m : ℕ} {q : ℤ} (h : reading x = .finite false m q) :
    ∃ d, Positional (Decimal.plain x).toList d ∧ d.toFloat = x := by
  unfold Decimal.plain Decimal.write
  rw [h, String.toList_ofList]
  show ∃ d, Positional (if m = 0 then ['0'] else _) d ∧ _
  rcases eq_of_reading h with ⟨hm, rfl⟩ | ⟨hc, hq, rfl⟩
  · rw [if_pos hm]
    exact ⟨_, .whole (List.cons_ne_nil _ _) (by simp), by decide +kernel⟩
  · rw [if_neg hc.pos.ne']
    obtain ⟨d, hd, hv⟩ := exists_positional (Decimal.shortest .up m q)
    exact ⟨d, hd, toFloat_eq_of_value hc hq .up hv⟩

end ItemBudget.Double
