import ItemBudget.Json.Reader
import ItemBudget.Json.Writer
import ItemBudget.Proofs.Double.Text
import ItemBudget.Proofs.Formula.Lexing

/-!
# What is written is read

`compact` writes a text that `read?` takes as the same node, for every node that is `Standard`: its
strings and keys have texts and its numerals are as the grammar has them. `Reads` says what a reader
takes from the front of a text and what it leaves. A number and a word end where the text does not
go on, so a value is read back before anything that may follow a value (`Follows`).
-/

namespace ItemBudget

/-- A numeral as the grammar has it. -/
structure Decimal.Numeral.Standard (n : Decimal.Numeral) : Prop where
  nonempty : n.whole ≠ []
  whole : ∀ c ∈ n.whole, c.isDigit = true
  zero : n.whole.head? = some '0' → n.whole.length ≤ 1
  fraction : ∀ c ∈ n.fraction, c.isDigit = true

namespace Json

open Decimal (Numeral)
open Formula (Ends takeWhile_run dropWhile_run)
open Text (Taken skip)

/-- A node that some text writes with every string made of characters. -/
inductive Node.Standard : Node → Prop
  | null : Node.Standard .null
  | flag (b : Bool) : Node.Standard (.flag b)
  | number {n : Numeral} (h : n.Standard) : Node.Standard (.number n)
  | ofString (s : String) : Node.Standard (.ofString s)
  | array {es : List Node} (h : ∀ e ∈ es, Node.Standard e) : Node.Standard (.array es)
  | ofFields {fs : List (String × Node)} (h : ∀ f ∈ fs, Node.Standard f.2) :
    Node.Standard (.ofFields fs)

/-- A reader took a value from the front of a text and left the rest. -/
def Reads {α : Type} {cs : List Char} (r : Option (Taken α cs)) (a : α) (rest : List Char) : Prop :=
  ∃ h, r = some ⟨a, rest, h⟩

/-- What may follow a value. -/
def Follows (rest : List Char) : Prop := ∀ c ∈ rest.head?, c ∈ [',', ']', '}']

variable {α : Type} {c : Char} {cs rest : List Char}

theorem Follows.ends {p : Char → Bool} (h : Follows rest)
    (hp : ∀ c ∈ [',', ']', '}'], p c = false) : Ends p rest :=
  fun c hc => hp c (h c hc)

theorem follows_nil : Follows [] := fun _ h => nomatch h

theorem follows_cons (hc : c ∈ [',', ']', '}']) (cs : List Char) : Follows (c :: cs) := by
  intro d hd
  cases hd
  exact hc

/-! ## Strings -/

section Strings

variable {ps : List Piece} {s : List Char}

theorem ofHex?_hexDigit : ∀ n < 0x20,
    Text.ofHex? ['0', '0', hexDigit (n / 16), hexDigit n] = some n := by
  decide

/-- A code unit below the surrogates is a character by itself. -/
theorem chars?_unit {u : ℕ} (hu : u < 0x20) (hs : chars? ps = some s) :
    chars? (.unit u :: ps) = some (Char.ofNat u :: s) := by
  have hhigh : isHigh u = false := by
    rw [isHigh, Bool.and_eq_false_iff, decide_eq_false_iff_not]
    exact .inl (by omega)
  have hlow : isLow u = false := by
    rw [isLow, Bool.and_eq_false_iff, decide_eq_false_iff_not]
    exact .inl (by omega)
  match ps with
  | [] =>
    cases hs
    simp [chars?, hhigh, hlow]
  | .char c :: ps => simp [chars?.eq_def (.unit u :: _), hhigh, hlow, hs]
  | .unit v :: ps => simp [chars?.eq_def (.unit u :: _), hhigh, hlow, hs]

theorem reads_short {e : Char} (he : escaped? e = some c) (h : Reads (readPieces? cs) ps rest) :
    Reads (readPieces? ('\\' :: e :: cs)) (.char c :: ps) rest := by
  obtain ⟨_, h⟩ := h
  have hu : e ≠ 'u' := by
    rintro rfl
    cases he
  rw [readPieces?]
  · rw [he, h]
    exact ⟨_, rfl⟩
  · rintro _ _ _ _ _ rfl
    exact absurd rfl hu

theorem reads_unit {u : ℕ} {x y : Char} (hu : Text.ofHex? ['0', '0', x, y] = some u)
    (h : Reads (readPieces? cs) ps rest) :
    Reads (readPieces? ('\\' :: 'u' :: '0' :: '0' :: x :: y :: cs)) (.unit u :: ps) rest := by
  obtain ⟨_, h⟩ := h
  rw [readPieces?, hu, h]
  exact ⟨_, rfl⟩

theorem reads_plain (hq : c ≠ '"') (hb : c ≠ '\\') (hc : ¬ c.toNat < 0x20)
    (h : Reads (readPieces? cs) ps rest) : Reads (readPieces? (c :: cs)) (.char c :: ps) rest := by
  obtain ⟨_, h⟩ := h
  rw [readPieces?]
  · rw [if_neg hc, h]
    exact ⟨_, rfl⟩
  · exact hq
  · rintro _ _ _ _ _ rfl
    exact absurd rfl hb
  · rintro _ _ rfl
    exact absurd rfl hb

/-- A character is written by a letter, by its number, or as it is. -/
theorem escape_cases (c : Char) :
    (∃ e, escape c = ['\\', e] ∧ escaped? e = some c) ∨
    (escape c = ['\\', 'u', '0', '0', hexDigit (c.toNat / 16), hexDigit c.toNat] ∧
      c.toNat < 0x20) ∨
    (escape c = [c] ∧ c ≠ '"' ∧ c ≠ '\\' ∧ ¬ c.toNat < 0x20) := by
  unfold escape
  split_ifs with hquote hback h1 h2 h3 h4 h5 hcontrol
  · exact .inl ⟨_, rfl, by rw [hquote]; rfl⟩
  · exact .inl ⟨_, rfl, by rw [hback]; rfl⟩
  · exact .inl ⟨_, rfl, by rw [h1]; rfl⟩
  · exact .inl ⟨_, rfl, by rw [h2]; rfl⟩
  · exact .inl ⟨_, rfl, by rw [h3]; rfl⟩
  · exact .inl ⟨_, rfl, by rw [h4]; rfl⟩
  · exact .inl ⟨_, rfl, by rw [h5]; rfl⟩
  · exact .inr (.inl ⟨rfl, hcontrol⟩)
  · exact .inr (.inr ⟨rfl, hquote, hback, hcontrol⟩)

theorem reads_escape (c : Char) (hs : chars? ps = some s) (h : Reads (readPieces? cs) ps rest) :
    ∃ ps', chars? ps' = some (c :: s) ∧ Reads (readPieces? (escape c ++ cs)) ps' rest := by
  have hchar : chars? (.char c :: ps) = some (c :: s) := by
    rw [chars?, hs]
    rfl
  rcases escape_cases c with ⟨e, he, hc⟩ | ⟨he, hc⟩ | ⟨he, hquote, hback, hcontrol⟩
  · rw [he]
    exact ⟨_, hchar, reads_short hc h⟩
  · rw [he]
    have hunit := chars?_unit hc hs
    rw [Char.ofNat_toNat] at hunit
    exact ⟨_, hunit, reads_unit (ofHex?_hexDigit _ hc) h⟩
  · rw [he]
    exact ⟨_, hchar, reads_plain hquote hback hcontrol h⟩

theorem reads_pieces (s : List Char) (rest : List Char) :
    ∃ ps, chars? ps = some s ∧ Reads (readPieces? (s.flatMap escape ++ '"' :: rest)) ps rest := by
  induction s with
  | nil => exact ⟨[], rfl, Nat.lt_succ_self _, rfl⟩
  | cons c s ih =>
    obtain ⟨ps, hs, h⟩ := ih
    rw [List.flatMap_cons, List.append_assoc]
    exact reads_escape c hs h

/-- A quoted string is read as the string. -/
theorem reads_literal (s : String) (rest : List Char) :
    Reads (readLiteral? (s.toList.flatMap escape ++ '"' :: rest)) (some s) rest := by
  obtain ⟨ps, hs, _, h⟩ := reads_pieces s.toList rest
  refine ⟨‹_›, ?_⟩
  rw [readLiteral?, h, Option.map_some, Taken.map, hs, Option.map_some, String.ofList_toList]

end Strings

/-! ## Numbers -/

section Numbers

variable {n : Numeral}

theorem isEmpty_digitsOf (n : ℕ) : (Decimal.digitsOf n).isEmpty = false := by
  rw [List.isEmpty_eq_false_iff]
  exact List.length_pos_iff.1 Nat.length_toDigits_pos

/-- The numeral of a whole number is as the grammar has it. -/
theorem standard_digitsOf (negative : Bool) (n : ℕ) :
    (⟨negative, Decimal.digitsOf n, [], none⟩ : Numeral).Standard where
  nonempty := Nat.toDigits_ne_nil
  whole _ hc := Double.isDigit_of_mem_digitsOf hc
  zero hzero := by
    rcases Nat.eq_zero_or_pos n with rfl | hn
    · exact le_rfl
    · exact absurd hzero (Double.head?_digitsOf hn)
  fraction _ hc := nomatch hc

theorem readExponent?_text (e : Option ℤ) (hr : Follows rest) :
    readExponent? (e.elim [] (Numeral.exponentText true) ++ rest) = some (e, rest) := by
  cases e with
  | none =>
    cases rest with
    | nil => rfl
    | cons c cs =>
      have hc : (c = 'e' || c = 'E') = false :=
        hr.ends (p := fun c => c = 'e' || c = 'E') (by simp) c rfl
      simp only [Option.elim_none, List.nil_append, readExponent?, hc, Bool.false_eq_true, if_false]
  | some e =>
    have hdigits : Ends Char.isDigit rest := hr.ends (by simp)
    have htake := takeWhile_run (fun _ => Double.isDigit_of_mem_digitsOf (n := e.natAbs)) hdigits
    have hdrop := dropWhile_run (fun _ => Double.isDigit_of_mem_digitsOf (n := e.natAbs)) hdigits
    have hsign : Numeral.exponentText true e =
        'e' :: (if e < 0 then '-' else '+') :: Decimal.digitsOf e.natAbs := by
      unfold Numeral.exponentText
      split
      · rfl
      · rfl
    rw [Option.elim_some, hsign]
    by_cases he : e < 0
    · have hvalue : -(e.natAbs : ℤ) = e := by omega
      rw [if_pos he]
      simp only [List.cons_append, readExponent?, htake, hdrop, isEmpty_digitsOf,
        Double.ofDigits_digitsOf, hvalue]
      simp
    · have hvalue : (e.natAbs : ℤ) = e := by omega
      rw [if_neg he]
      simp only [List.cons_append, readExponent?, htake, hdrop, isEmpty_digitsOf,
        Double.ofDigits_digitsOf, hvalue]
      simp

/-- What follows the digits of a numeral. -/
theorem ends_exponent {p : Char → Bool} (hp : ∀ c ∈ ['e', ',', ']', '}'], p c = false)
    (e : Option ℤ) (hr : Follows rest) :
    Ends p (e.elim [] (Numeral.exponentText true) ++ rest) := by
  cases e with
  | none => exact hr.ends fun c hc => hp c (List.mem_cons_of_mem _ hc)
  | some e =>
    intro c hc
    cases hc
    exact hp 'e' (by decide)

theorem readFraction?_text (h : ∀ c ∈ n.fraction, c.isDigit = true) (hr : Follows rest) :
    readFraction? ((if n.fraction.isEmpty then [] else '.' :: n.fraction) ++
        (n.exponent.elim [] (Numeral.exponentText true) ++ rest)) =
      some (n.fraction, n.exponent.elim [] (Numeral.exponentText true) ++ rest) := by
  have hdigits : Ends Char.isDigit (n.exponent.elim [] (Numeral.exponentText true) ++ rest) :=
    ends_exponent (by simp) _ hr
  have hpoint : Ends (· = '.') (n.exponent.elim [] (Numeral.exponentText true) ++ rest) :=
    ends_exponent (by simp) _ hr
  generalize n.exponent.elim [] (Numeral.exponentText true) ++ rest = tail at hdigits hpoint ⊢
  cases hf : n.fraction.isEmpty with
  | true =>
    rw [if_pos rfl, List.isEmpty_iff.1 hf, List.nil_append]
    unfold readFraction?
    split
    · exact absurd (hpoint '.' rfl) (by decide)
    · rfl
  | false =>
    rw [if_neg Bool.false_ne_true, List.cons_append, readFraction?, takeWhile_run h hdigits,
      dropWhile_run h hdigits]
    simp only [hf, Bool.false_eq_true, if_false]

/-- The text of a numeral after its whole part does not go on with a digit. -/
theorem ends_whole (hr : Follows rest) :
    Ends Char.isDigit ((if n.fraction.isEmpty then [] else '.' :: n.fraction) ++
      (n.exponent.elim [] (Numeral.exponentText true) ++ rest)) := by
  split
  · exact ends_exponent (by simp) _ hr
  · intro c hc
    cases hc
    rfl

theorem render_eq (n : Numeral) (rest : List Char) :
    n.render true ++ rest = (if n.negative then ['-'] else []) ++ (n.whole ++
      ((if n.fraction.isEmpty then [] else '.' :: n.fraction) ++
        (n.exponent.elim [] (Numeral.exponentText true) ++ rest))) := by
  simp only [Numeral.render, List.append_assoc]

/-- A numeral starts with a digit or a sign. -/
theorem exists_head (h : n.Standard) :
    ∃ c cs, n.render true = c :: cs ∧ (c.isDigit = true ∨ c = '-') := by
  cases hn : n.negative with
  | true => exact ⟨_, _, by rw [Numeral.render, hn]; rfl, .inr rfl⟩
  | false =>
    obtain ⟨c, w, hw⟩ := List.exists_cons_of_ne_nil h.nonempty
    exact ⟨_, _, by rw [Numeral.render, hn, hw]; rfl, .inl (h.whole c (hw ▸ List.mem_cons_self))⟩

theorem readNumeral?_render (h : n.Standard) (hr : Follows rest) :
    readNumeral? (n.render true ++ rest) = some (n, rest) := by
  have hfraction := readFraction?_text h.fraction hr
  have hexponent := readExponent?_text n.exponent hr
  have hends : Ends Char.isDigit _ := ends_whole (n := n) hr
  rw [render_eq]
  generalize (if n.fraction.isEmpty then [] else '.' :: n.fraction) ++
    (n.exponent.elim [] (Numeral.exponentText true) ++ rest) = tail at hfraction hends ⊢
  have htake := takeWhile_run h.whole hends
  have hdrop := dropWhile_run h.whole hends
  have hempty : n.whole.isEmpty = false := by
    rw [List.isEmpty_eq_false_iff]
    exact h.nonempty
  have hzeros : (decide (n.whole.head? = some '0') && decide (1 < n.whole.length)) = false := by
    rw [Bool.and_eq_false_iff, decide_eq_false_iff_not, decide_eq_false_iff_not, ← not_and_or]
    exact fun hz => absurd (h.zero hz.1) (not_le.2 hz.2)
  unfold readNumeral?
  split
  next negative r hsign =>
  -- a whole part is not taken for a sign
  have hread : n.negative = negative ∧ n.whole ++ tail = r := by
    cases hn : n.negative with
    | true =>
      rw [hn] at hsign
      cases hsign
      exact ⟨rfl, rfl⟩
    | false =>
      rw [hn, if_neg Bool.false_ne_true, List.nil_append] at hsign
      split at hsign
      · next heq =>
        obtain ⟨c, w, hw⟩ := List.exists_cons_of_ne_nil h.nonempty
        rw [hw] at heq
        cases heq
        exact absurd (h.whole '-' (hw ▸ List.mem_cons_self)) (by decide)
      · cases hsign
        exact ⟨rfl, rfl⟩
  obtain ⟨rfl, rfl⟩ := hread
  simp [htake, hdrop, hempty, hzeros, hfraction, hexponent]

end Numbers

/-! ## One value -/

section Values

variable {n : Node} {es : List Node} {ms : List (Literal × Node)} {cs' cs'' r r' : List Char}

theorem reads_string {l : Literal} (h : Reads (readLiteral? cs) l rest) :
    Reads (readValue? ('"' :: cs)) (.text l) rest := by
  obtain ⟨_, h⟩ := h
  rw [readValue?, h]
  exact ⟨_, rfl⟩

theorem reads_empty_array (hs : skip isBlank cs = ']' :: rest) :
    Reads (readValue? ('[' :: cs)) (.array []) rest := by
  rw [readValue?]
  split
  · next r h =>
    cases hs.symm.trans h
    exact ⟨_, rfl⟩
  · next hne => exact absurd hs (hne rest)

theorem reads_array (hs : ∀ r, skip isBlank cs ≠ ']' :: r)
    (h : Reads (readElements? (skip isBlank cs)) es rest) :
    Reads (readValue? ('[' :: cs)) (.array es) rest := by
  obtain ⟨_, h⟩ := h
  rw [readValue?]
  split
  · next r heq => exact absurd heq (hs r)
  · rw [h]
    exact ⟨_, rfl⟩

theorem reads_empty_object (hs : skip isBlank cs = '}' :: rest) :
    Reads (readValue? ('{' :: cs)) (.object []) rest := by
  rw [readValue?]
  split
  · next r h =>
    cases hs.symm.trans h
    exact ⟨_, rfl⟩
  · next hne => exact absurd hs (hne rest)

theorem reads_object (hs : ∀ r, skip isBlank cs ≠ '}' :: r)
    (h : Reads (readMembers? (skip isBlank cs)) ms rest) :
    Reads (readValue? ('{' :: cs)) (.object ms) rest := by
  obtain ⟨_, h⟩ := h
  rw [readValue?]
  split
  · next r heq => exact absurd heq (hs r)
  · rw [h]
    exact ⟨_, rfl⟩

/-- A word is the longest run of letters. -/
theorem reads_word (word : List Char) (hc : c.isAlpha = true) (hw : ∀ c ∈ word, c.isAlpha = true)
    (hn : ofWord? (c :: word) = some n) (hr : Follows rest) :
    Reads (readValue? (c :: (word ++ rest))) n rest := by
  have hends : Ends Char.isAlpha rest := hr.ends (by simp)
  have hletters : ∀ d ∈ c :: word, d.isAlpha = true := List.forall_mem_cons.2 ⟨hc, hw⟩
  have htake : (c :: (word ++ rest)).takeWhile Char.isAlpha = c :: word :=
    takeWhile_run hletters hends
  have hdrop : skip Char.isAlpha (c :: (word ++ rest)) = rest := dropWhile_run hletters hends
  rw [readValue?]
  · rw [dif_pos hc, htake, hn, Option.map_some]
    refine ⟨?_, ?_⟩
    · rw [List.length_cons, List.length_append]
      omega
    · congr
  all_goals
    rintro rfl
    cases hc

theorem reads_number {m : Numeral} (h : m.Standard) (hr : Follows rest) :
    Reads (readValue? (m.render true ++ rest)) (.number m) rest := by
  have hread := readNumeral?_render h hr
  obtain ⟨c, cs, hcs, hc⟩ := exists_head h
  rw [hcs, List.cons_append] at hread ⊢
  have halpha : ¬ c.isAlpha = true := by
    intro halpha
    rcases hc with hc | rfl
    · have hname : Formula.startsName c = false :=
        Formula.startsName_of_numeral (by rw [Formula.isNumeral, hc, Bool.true_or])
      rw [Formula.startsName, halpha, Bool.true_or] at hname
      cases hname
    · cases halpha
  have hlength : rest.length < (c :: (cs ++ rest)).length := by
    rw [List.length_cons, List.length_append]
    omega
  rw [readValue?]
  · rw [dif_neg halpha, hread, Option.bind_some, dif_pos hlength]
    exact ⟨_, rfl⟩
  all_goals
    rintro rfl
    rcases hc with hc | hc
    · cases hc
    · cases hc

theorem readElements?_last (hv : Reads (readValue? cs) n r) (hs : skip isBlank r = ']' :: rest) :
    Reads (readElements? cs) [n] rest := by
  obtain ⟨_, hv⟩ := hv
  rw [readElements?, hv]
  dsimp only
  split
  · next heq =>
    cases hs.symm.trans heq
    exact ⟨_, rfl⟩
  · next heq => cases hs.symm.trans heq
  · next hne _ => exact absurd hs (hne rest)

theorem readElements?_more (hv : Reads (readValue? cs) n r) (hs : skip isBlank r = ',' :: cs')
    (h : Reads (readElements? (skip isBlank cs')) es rest) :
    Reads (readElements? cs) (n :: es) rest := by
  obtain ⟨_, hv⟩ := hv
  obtain ⟨_, h⟩ := h
  rw [readElements?, hv]
  dsimp only
  split
  · next heq => cases hs.symm.trans heq
  · next heq =>
    cases hs.symm.trans heq
    rw [h]
    exact ⟨_, rfl⟩
  · next hne => exact absurd hs (hne _)

theorem readMembers?_last {l : Literal} (hk : Reads (readLiteral? cs) l r)
    (hc : skip isBlank r = ':' :: cs') (hv : Reads (readValue? (skip isBlank cs')) n r')
    (hs : skip isBlank r' = '}' :: rest) :
    Reads (readMembers? ('"' :: cs)) [(l, n)] rest := by
  obtain ⟨_, hk⟩ := hk
  obtain ⟨_, hv⟩ := hv
  rw [readMembers?, hk]
  dsimp only
  split
  · next heq =>
    cases hc.symm.trans heq
    rw [hv]
    dsimp only
    split
    · next heq =>
      cases hs.symm.trans heq
      exact ⟨_, rfl⟩
    · next heq => cases hs.symm.trans heq
    · next hne _ => exact absurd hs (hne rest)
  · next hne => exact absurd hc (hne _)

theorem readMembers?_more {l : Literal} (hk : Reads (readLiteral? cs) l r)
    (hc : skip isBlank r = ':' :: cs') (hv : Reads (readValue? (skip isBlank cs')) n r')
    (hs : skip isBlank r' = ',' :: cs'') (h : Reads (readMembers? (skip isBlank cs'')) ms rest) :
    Reads (readMembers? ('"' :: cs)) ((l, n) :: ms) rest := by
  obtain ⟨_, hk⟩ := hk
  obtain ⟨_, hv⟩ := hv
  obtain ⟨_, h⟩ := h
  rw [readMembers?, hk]
  dsimp only
  split
  · next heq =>
    cases hc.symm.trans heq
    rw [hv]
    dsimp only
    split
    · next heq => cases hs.symm.trans heq
    · next heq =>
      cases hs.symm.trans heq
      rw [h]
      exact ⟨_, rfl⟩
    · next hne => exact absurd hs (hne _)
  · next hne => exact absurd hc (hne _)

/-- A text that starts with a value starts with no blank and no closing bracket. -/
theorem Reads.head (h : Reads (readValue? cs) n rest) :
    ∃ c cs', cs = c :: cs' ∧ isBlank c = false ∧ c ≠ ']' := by
  obtain ⟨_, h⟩ := h
  cases cs with
  | nil => simp [readValue?] at h
  | cons c cs =>
    refine ⟨c, cs, rfl, ?_, ?_⟩
    · by_contra hc
      simp only [isBlank, Bool.not_eq_false, Bool.or_eq_true, decide_eq_true_eq] at hc
      rcases hc with ((rfl | rfl) | rfl) | rfl
      all_goals simp [readValue?, readNumeral?] at h
    · rintro rfl
      simp [readValue?, readNumeral?] at h

end Values

/-! ## Nodes -/

section Nodes

variable {n : Node} {es : List Node} {fs : List (String × Node)}

/-- The text of a node is read as the node, whatever follows. -/
def Node.ReadsBack (n : Node) : Prop :=
  ∀ rest, Follows rest → Reads (readValue? (render n ++ rest)) n rest

theorem Node.ReadsBack.head (h : n.ReadsBack) :
    ∃ c cs, render n = c :: cs ∧ isBlank c = false ∧ c ≠ ']' := by
  have hread := h [] follows_nil
  rw [List.append_nil] at hread
  exact hread.head

theorem skip_cons (hc : isBlank c = false) (cs : List Char) : skip isBlank (c :: cs) = c :: cs :=
  List.dropWhile_cons_of_neg (Bool.eq_false_iff.1 hc)

theorem Node.ReadsBack.skip_eq (h : n.ReadsBack) (cs : List Char) :
    skip isBlank (render n ++ cs) = render n ++ cs := by
  obtain ⟨c, _, hn, hc, -⟩ := h.head
  rw [hn]
  exact skip_cons hc _

theorem Node.ReadsBack.skipped (h : n.ReadsBack) (hr : Follows rest) :
    Reads (readValue? (skip isBlank (render n ++ rest))) n rest := by
  rw [h.skip_eq]
  exact h rest hr

/-- Texts joined by commas, but for the first one. -/
def continued (texts : List (List Char)) : List Char := texts.flatMap (',' :: ·)

theorem joined_cons (t : List Char) (texts : List (List Char)) :
    joined [','] (t :: texts) = t ++ continued texts := by
  induction texts generalizing t with
  | nil => exact (List.append_nil t).symm
  | cons u texts ih =>
    rw [joined, ih, List.append_assoc]
    rfl

theorem reads_elements {e : Node} (he : e.ReadsBack) (hes : ∀ e ∈ es, e.ReadsBack)
    (rest : List Char) :
    Reads (readElements? (render e ++ (continued (renderElements es) ++ ']' :: rest)))
      (e :: es) rest := by
  induction es generalizing e with
  | nil => exact readElements?_last (he _ (follows_cons (by simp) rest)) (skip_cons rfl rest)
  | cons e' es ih =>
    have hmore := ih (hes e' List.mem_cons_self) fun x hx => hes x (List.mem_cons_of_mem _ hx)
    rw [renderElements, continued, List.flatMap_cons, List.append_assoc, List.cons_append]
    refine readElements?_more (he _ (follows_cons (by simp) _)) (skip_cons rfl _) ?_
    rwa [(hes e' List.mem_cons_self).skip_eq]

theorem Node.ReadsBack.array (h : ∀ e ∈ es, e.ReadsBack) : (Node.array es).ReadsBack := by
  intro rest hr
  cases es with
  | nil => exact reads_empty_array (skip_cons rfl rest)
  | cons e es =>
    obtain ⟨he, hes⟩ := List.forall_mem_cons.1 h
    obtain ⟨c, cs, hc, -, hclose⟩ := he.head
    have htext : render (.array (e :: es)) ++ rest =
        '[' :: (render e ++ (continued (renderElements es) ++ ']' :: rest)) := by
      rw [render, renderElements, joined_cons]
      simp only [List.cons_append, List.append_assoc, List.nil_append]
    rw [htext]
    refine reads_array (fun r => ?_) ?_
    · rw [he.skip_eq, hc]
      rintro ⟨⟩
      exact hclose rfl
    · rw [he.skip_eq]
      exact reads_elements he hes rest

/-- The members of an object whose keys have texts. -/
def named (fs : List (String × Node)) : List (Literal × Node) := fs.map fun f => (some f.1, f.2)

/-- The text of a member after the quote that opens its key. -/
def memberTail (f : String × Node) : List Char :=
  f.1.toList.flatMap escape ++ '"' :: ':' :: render f.2

theorem renderMembers_cons (f : String × Node) (fs : List (String × Node)) :
    renderMembers (named (f :: fs)) = ('"' :: memberTail f) :: renderMembers (named fs) := by
  simp [named, renderMembers, renderLiteral, quoted, memberTail]

theorem reads_members {f : String × Node} (hf : f.2.ReadsBack) (hfs : ∀ f ∈ fs, f.2.ReadsBack)
    (rest : List Char) :
    Reads (readMembers? ('"' :: (memberTail f ++
      (continued (renderMembers (named fs)) ++ '}' :: rest)))) (named (f :: fs)) rest := by
  induction fs generalizing f with
  | nil =>
    rw [memberTail, List.append_assoc, List.cons_append, List.cons_append]
    exact readMembers?_last (reads_literal _ _) (skip_cons rfl _)
      (hf.skipped (follows_cons (by simp) rest)) (skip_cons rfl rest)
  | cons g fs ih =>
    obtain ⟨hg, hfs⟩ := List.forall_mem_cons.1 hfs
    rw [renderMembers_cons, continued, List.flatMap_cons, memberTail, List.append_assoc,
      List.append_assoc, List.cons_append, List.cons_append, List.cons_append]
    refine readMembers?_more (reads_literal _ _) (skip_cons rfl _)
      (hf.skipped (follows_cons (by simp) _)) (skip_cons rfl _) ?_
    rw [List.cons_append, skip_cons rfl]
    exact ih hg hfs

theorem Node.ReadsBack.ofFields (h : ∀ f ∈ fs, f.2.ReadsBack) : (Node.ofFields fs).ReadsBack := by
  intro rest hr
  cases fs with
  | nil => exact reads_empty_object (skip_cons rfl rest)
  | cons f fs =>
    obtain ⟨hf, hfs⟩ := List.forall_mem_cons.1 h
    have htext : render (.ofFields (f :: fs)) ++ rest =
        '{' :: '"' :: (memberTail f ++ (continued (renderMembers (named fs)) ++ '}' :: rest)) := by
      rw [Node.ofFields, render, ← named, renderMembers_cons, joined_cons]
      simp only [List.cons_append, List.append_assoc, List.nil_append]
    rw [htext]
    refine reads_object (fun r => ?_) ?_
    · rw [skip_cons rfl]
      rintro ⟨⟩
    · rw [skip_cons rfl]
      exact reads_members hf hfs rest

theorem Node.Standard.readsBack (h : n.Standard) : n.ReadsBack := by
  induction h with
  | null =>
    intro rest hr
    exact reads_word ['u', 'l', 'l'] (by decide) (by simp) rfl hr
  | flag b =>
    intro rest hr
    cases b with
    | true => exact reads_word ['r', 'u', 'e'] (by decide) (by simp) rfl hr
    | false => exact reads_word ['a', 'l', 's', 'e'] (by decide) (by simp) rfl hr
  | number h =>
    intro rest hr
    exact reads_number h hr
  | ofString s =>
    intro rest hr
    have htext : render (.ofString s) ++ rest =
        '"' :: (s.toList.flatMap escape ++ '"' :: rest) := by
      simp [Node.ofString, render, renderLiteral, quoted]
    rw [htext]
    exact reads_string (reads_literal s rest)
  | array h ih => exact .array ih
  | ofFields h ih => exact .ofFields ih

/-- **What is written is read**: the compact text of a standard node is read as that node. -/
theorem read?_compact (h : n.Standard) : read? (compact n) = some n := by
  have hread : Reads (readValue? (skip isBlank (compact n).toList)) n [] := by
    rw [compact, String.toList_ofList]
    have hend := h.readsBack.skipped follows_nil
    rwa [List.append_nil] at hend
  obtain ⟨_, hread⟩ := hread
  rw [read?, hread]
  rfl

end Nodes

end Json

end ItemBudget
