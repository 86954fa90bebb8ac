import ItemBudget.Proofs.Double.Text
import ItemBudget.Proofs.Formula.Acceptance
import Mathlib

/-!
# The written form of a tree

The text of a tree is cut into the tokens of the tree (`lexes_render`), and these are a sum with the
same tree (`derives_tokens`). No tokens of the tree are fewer or less nested (`Derives.fits`), so
the written form is within the limits whenever some text of the tree is.
-/

namespace ItemBudget.Formula

open Decimal (reading)

/-! ## Trees that have a text -/

/-- A lower-case identifier. -/
def IsName (n : String) : Prop :=
  ∃ c cs, n.toList = c :: cs ∧ (c.isLower = true ∨ c = '_') ∧
    ∀ c ∈ cs, c.isLower = true ∨ c.isDigit = true ∨ c = '_'

/-- The double is finite and has no sign. -/
def IsUnsigned (x : Float) : Prop := ∃ m q, reading x = .finite false m q

/-- The numbers are finite and have no sign, and the variables are lower-case identifiers. -/
def Expr.Writable : Expr → Prop := Expr.Leaves IsUnsigned IsName

/-- A tree that stands for a phrase of the kind needs parentheses there. -/
def Expr.needsGroup (e : Expr) (ph : Phrase) : Bool := e.strength < ph.strength

/-- Tokens in parentheses when `group`. -/
def wrapped (group : Bool) (ts : List Token) : List Token :=
  if group then .opening :: (ts ++ [.closing]) else ts

/-- The tokens of the written tree. -/
def Expr.tokens : Expr → List Token
  | .number x => [.number x]
  | .var n => [.name n]
  | .neg e => .op .sub :: wrapped (e.needsGroup .operand) e.tokens
  | .binary o l r =>
    wrapped (l.needsGroup o.leftPhrase) l.tokens
      ++ .op o :: wrapped (r.needsGroup o.rightPhrase) r.tokens

/-- How deep the written tree is nested. -/
def Expr.nesting : Expr → Nat
  | .number _ => 0
  | .var _ => 0
  | .neg e => e.nesting + (e.needsGroup .operand).toNat + 1
  | .binary o l r =>
    max (l.nesting + (l.needsGroup o.leftPhrase).toNat)
      (r.nesting + (r.needsGroup o.rightPhrase).toNat + o.steps)

theorem render_binary (o : BinaryOp) (l r : Expr) :
    (Expr.binary o l r).render = grouped (l.needsGroup o.leftPhrase) l.render
      ++ ' ' :: o.symbol :: ' ' :: grouped (r.needsGroup o.rightPhrase) r.render := by
  have hl : (l.strength < o.strength || (o = .pow && l.strength = o.strength))
      = l.needsGroup o.leftPhrase := by
    rw [Bool.eq_iff_iff]
    simp only [Expr.needsGroup, Bool.or_eq_true, Bool.and_eq_true, decide_eq_true_eq]
    cases o <;> simp [BinaryOp.strength, BinaryOp.leftPhrase, Phrase.strength]
    omega
  have hr : (r.strength < o.strength || (!decide (o = .pow) && r.strength = o.strength))
      = r.needsGroup o.rightPhrase := by
    rw [Bool.eq_iff_iff]
    simp only [Expr.needsGroup, Bool.or_eq_true, Bool.and_eq_true, decide_eq_true_eq]
    cases o <;> simp [BinaryOp.strength, BinaryOp.rightPhrase, Phrase.strength] <;> omega
  rw [Expr.render, hl, hr]

/-! ## The tokens of the text -/

/-- A text as part of a longer one: before a space, a closing parenthesis or the end it gives these
tokens. -/
def LexesAs (cs : List Char) (ts : List Token) : Prop :=
  ∀ ⦃rest us⦄, (∀ c ∈ rest.head?, c = ' ' ∨ c = ')') → Lexes rest us →
    Lexes (cs ++ rest) (ts ++ us)

theorem ends_of_boundary {p : Char → Bool} {rest : List Char} (hs : p ' ' = false)
    (hc : p ')' = false) (h : ∀ c ∈ rest.head?, c = ' ' ∨ c = ')') : Ends p rest := by
  intro c hrest
  rcases h c hrest with rfl | rfl
  · exact hs
  · exact hc

theorem Lexes.symbol {c : Char} {t : Token} {rest : List Char} {us : List Token}
    (hc : Token.ofSymbol? c = some t) (h : Lexes rest us) : Lexes (c :: rest) (t :: us) :=
  .token (.symbol hc) h

theorem lexesAs_number {x : Float} (h : IsUnsigned x) :
    LexesAs (Decimal.plain x).toList [.number x] := by
  intro rest us hrest hlex
  obtain ⟨m, q, h⟩ := h
  obtain ⟨d, hd, hx⟩ := Double.exists_plain h
  obtain ⟨c, run, hcs, hc⟩ := hd.head
  have hnum : ∀ c' ∈ c :: run, isNumeral c' = true := by
    intro c' hc'
    rw [← hcs] at hc'
    rcases hd.digit_or_point hc' with h | rfl
    · unfold isNumeral; rw [h]; rfl
    · rfl
  have hread : readLiteral? (c :: run) = some x := by
    unfold readLiteral?
    rw [← hcs, if_pos hd.count_point_le, hd.readFloat?_eq, hx]
  rw [hcs]
  exact .token (.number (hnum c List.mem_cons_self)
    (fun c' hc' => hnum c' (List.mem_cons_of_mem c hc'))
    (ends_of_boundary rfl rfl hrest) hread) hlex

theorem class_of_lower {c : Char} (h : c.isLower = true ∨ c.isDigit = true ∨ c = '_') :
    continuesName c = true ∧ c.toLower = c := by
  rcases h with h | h | rfl
  · refine ⟨?_, Char.toLower_eq_of_not_isUpper (Char.not_isUpper_of_isLower h)⟩
    simp only [continuesName, Char.isAlphanum, Char.isAlpha, h, Bool.or_true, Bool.true_or]
  · refine ⟨?_, Double.toLower_of_digit_or_point (.inl h)⟩
    simp only [continuesName, Char.isAlphanum, h, Bool.or_true, Bool.true_or]
  · decide

theorem lexesAs_name {n : String} (h : IsName n) : LexesAs n.toList [.name n] := by
  intro rest us hrest hlex
  obtain ⟨c, cs, hn, hc, hcs⟩ := h
  have hfirst : startsName c = true := by
    rcases hc with h | rfl
    · simp only [startsName, Char.isAlpha, h, Bool.or_true, Bool.true_or]
    · rfl
  have hlower : (c :: cs).map Char.toLower = c :: cs := by
    refine (List.map_congr_left fun c' hc' => ?_).trans (List.map_id _)
    rcases List.mem_cons.1 hc' with rfl | hc'
    · exact (class_of_lower (hc.imp_right .inr)).2
    · exact (class_of_lower (hcs c' hc')).2
  have hs := Starts.name hfirst (fun c' hc' => (class_of_lower (hcs c' hc')).1)
    (ends_of_boundary rfl rfl hrest)
  rw [hlower, ← hn, String.ofList_toList] at hs
  rw [hn]
  exact .token hs hlex

theorem lexesAs_grouped (g : Bool) {cs : List Char} {ts : List Token} (h : LexesAs cs ts) :
    LexesAs (grouped g cs) (wrapped g ts) := by
  cases g with
  | false => exact h
  | true =>
    intro rest us hrest hlex
    have hclose := Lexes.symbol (c := ')') rfl hlex
    have hinner := h (by rintro _ ⟨⟩; exact .inr rfl) hclose
    show Lexes ('(' :: (cs ++ [')'] ++ rest)) (.opening :: (ts ++ [.closing] ++ us))
    rw [List.append_assoc, List.append_assoc]
    exact .symbol rfl hinner

/-- The text of a tree gives the tokens of the tree. -/
theorem lexes_render {e : Expr} (h : e.Writable) : LexesAs e.render e.tokens := by
  induction e with
  | number x => exact lexesAs_number h
  | var n => exact lexesAs_name h
  | neg e ih =>
    intro rest us hrest hlex
    exact .symbol rfl (lexesAs_grouped _ (ih h) hrest hlex)
  | binary o l r ihl ihr =>
    intro rest us hrest hlex
    have hr := lexesAs_grouped (r.needsGroup o.rightPhrase) (ihr h.2) hrest hlex
    have ho := Lexes.symbol (ofSymbol?_symbol o) (.gap (c := ' ') rfl hr)
    have hl := lexesAs_grouped (l.needsGroup o.leftPhrase) (ihl h.1)
      (by rintro _ ⟨⟩; exact .inl rfl) (.gap (c := ' ') rfl ho)
    rw [render_binary, Expr.tokens, List.append_assoc, List.append_assoc]
    exact hl

/-! ## The tree of the tokens -/

/-- The kind of phrase that a tree is written as. -/
def Expr.phrase : Expr → Phrase
  | .number _ => .atom
  | .var _ => .atom
  | .neg _ => .operand
  | .binary o _ _ => o.phrase

theorem strength_expr_phrase (e : Expr) : e.phrase.strength = e.strength := by
  cases e with
  | binary o l r => exact o.strength_phrase
  | _ => rfl

variable {ph : Phrase} {d : Nat} {ts : List Token} {e : Expr}

/-- A tree in parentheses, where it needs them, is a phrase of the kind. -/
theorem Derives.wrapped (h : Derives e.phrase d ts e) (ph : Phrase) :
    Derives ph (d + (e.needsGroup ph).toNat) (wrapped (e.needsGroup ph) ts) e := by
  cases hg : e.needsGroup ph with
  | false =>
    refine h.weaken ?_
    rw [strength_expr_phrase]
    exact Nat.le_of_not_lt (of_decide_eq_false hg)
  | true =>
    have hsum : Derives .sum d ts e := h.weaken (by cases e.phrase <;> decide)
    exact (Derives.group hsum).weaken (by cases ph <;> decide)

/-- The tokens of a tree are a phrase of this tree. -/
theorem derives_tokens (e : Expr) : Derives e.phrase e.nesting e.tokens e := by
  induction e with
  | number x => exact .number x
  | var n => exact .name n
  | neg e ih => exact .neg (ih.wrapped .operand)
  | binary o l r ihl ihr => exact .binary (ihl.wrapped o.leftPhrase) (ihr.wrapped o.rightPhrase)

/-! ## The written form is the least one -/

/-- The written form of the tree, as a phrase of the kind, has no more than this many tokens and
is nested no deeper than this. -/
def Fits (ph : Phrase) (d n : Nat) (e : Expr) : Prop :=
  (wrapped (e.needsGroup ph) e.tokens).length ≤ n ∧ e.nesting + (e.needsGroup ph).toNat ≤ d

theorem length_wrapped (g : Bool) (ts : List Token) :
    (wrapped g ts).length = ts.length + 2 * g.toNat := by
  cases g with
  | false => rfl
  | true =>
    rw [wrapped, if_pos rfl, List.length_cons, List.length_append]
    rfl

theorem toNat_needsGroup_le {ph' : Phrase} (e : Expr) (hle : ph'.strength ≤ ph.strength) :
    (e.needsGroup ph').toNat ≤ (e.needsGroup ph).toNat := by
  refine Bool.toNat_le_toNat fun h => ?_
  exact decide_eq_true (Nat.lt_of_lt_of_le (of_decide_eq_true h) hle)

theorem Fits.weaken {ph' : Phrase} {n : Nat} (h : Fits ph d n e)
    (hle : ph'.strength ≤ ph.strength) : Fits ph' d n e := by
  have hg := toNat_needsGroup_le e hle
  unfold Fits at h ⊢
  rw [length_wrapped] at h ⊢
  omega

/-- A tree needs no parentheses for the kind of phrase that it is. -/
theorem needsGroup_of_le (h : ph.strength ≤ e.strength) : e.needsGroup ph = false :=
  decide_eq_false (Nat.not_lt.2 h)

theorem Fits.binary {o : BinaryOp} {d d' n n' : Nat} {a b : Expr}
    (ha : Fits o.leftPhrase d n a) (hb : Fits o.rightPhrase d' n' b) :
    Fits o.phrase (max d (d' + o.steps)) (n + (n' + 1)) (.binary o a b) := by
  have hg : (Expr.binary o a b).needsGroup o.phrase = false :=
    needsGroup_of_le (Nat.le_of_eq o.strength_phrase)
  unfold Fits at ha hb ⊢
  rw [hg, Expr.tokens, Expr.nesting, length_wrapped, List.length_append, List.length_cons]
  simp only [Bool.toNat_false]
  omega

/-- **No tokens of a tree are fewer or less nested than those of its written form.** -/
theorem Derives.fits (h : Derives ph d ts e) : Fits ph d ts.length e := by
  have strength_pos : ∀ e : Expr, 1 ≤ e.strength := by
    intro e
    rw [← strength_expr_phrase]
    cases e.phrase <;> decide
  induction h with
  | number x => exact ⟨Nat.le_refl 1, Nat.le_refl 0⟩
  | name n => exact ⟨Nat.le_refl 1, Nat.le_refl 0⟩
  | @group d ts e _ ih =>
    -- the parentheses of the group pay for those that the tree needs as an atom
    have hg : e.needsGroup .sum = false := needsGroup_of_le (strength_pos e)
    have hle := Bool.toNat_le (e.needsGroup .atom)
    unfold Fits at ih ⊢
    rw [length_wrapped] at ih ⊢
    rw [hg] at ih
    rw [List.length_cons, List.length_append]
    simp only [Bool.toNat_false, List.length_singleton] at ih ⊢
    omega
  | @neg d ts e _ ih =>
    have hg : e.neg.needsGroup .operand = false := needsGroup_of_le (Nat.le_refl 4)
    unfold Fits at ih ⊢
    rw [hg, Expr.tokens, Expr.nesting, length_wrapped, List.length_cons, List.length_cons]
    simp only [Bool.toNat_false]
    omega
  | power _ _ iha ihb =>
    rw [List.length_append, List.length_cons]
    exact Fits.binary (o := .pow) iha ihb
  | @product o d d' ts us a b op _ _ iha ihb =>
    rw [List.length_append, List.length_cons]
    cases o with
    | mul => exact Fits.binary (o := .mul) iha ihb
    | div => exact Fits.binary (o := .div) iha ihb
    | _ => cases op
  | @sum o d d' ts us a b op _ _ iha ihb =>
    rw [List.length_append, List.length_cons]
    cases o with
    | add => exact Fits.binary (o := .add) iha ihb
    | sub => exact Fits.binary (o := .sub) iha ihb
    | _ => cases op
  | ofAtom _ ih => exact ih.weaken (by decide)
  | ofOperand _ ih => exact ih.weaken (by decide)
  | ofPower _ ih => exact ih.weaken (by decide)
  | ofProduct _ ih => exact ih.weaken (by decide)

/-! ## Reading the written form -/

theorem lexes_text {e : Expr} (h : e.Writable) : Lexes e.text.toList e.tokens := by
  have hl := @lexes_render e h [] [] (fun _ hc => nomatch hc) .nil
  rw [List.append_nil, List.append_nil] at hl
  rwa [Expr.text, String.toList_ofList]

theorem tokens_ne_nil (e : Expr) : e.tokens ≠ [] := by
  cases e with
  | binary o l r => exact List.append_ne_nil_of_right_ne_nil _ (List.cons_ne_nil _ _)
  | _ => exact List.cons_ne_nil _ _

/-- The text of a tree that has one is read as this tree, when it is within the limits. -/
theorem ofText?_text {e : Expr} (h : e.Writable) (hlen : e.tokens.length ≤ maxTokens)
    (hdepth : e.nesting ≤ maxDepth) : ofText? e.text = .ok ⟨some e⟩ :=
  ofText?_some_iff.2 ⟨e.tokens, e.nesting, lexes_text h, List.length_pos_iff.2 (tokens_ne_nil e),
    hlen, hdepth, (derives_tokens e).weaken (by cases e.phrase <;> decide)⟩

/-- **Reading undoes writing**: a tree of finite numbers and lower-case identifiers is read back
from its text, when the text has few enough tokens and nothing in it is nested too deeply. -/
theorem text_reads_back {e : Expr} (h : e.Writable)
    (htokens : ∀ ts, Lexes e.text.toList ts → ts.length ≤ maxTokens)
    (hnesting : ∀ ts d, Lexes e.text.toList ts → Derives .sum d ts e → d ≤ maxDepth) :
    ofText? e.text = .ok ⟨some e⟩ := by
  have hsum : Derives .sum e.nesting e.tokens e :=
    (derives_tokens e).weaken (by cases e.phrase <;> decide)
  exact ofText?_text h (htokens _ (lexes_text h)) (hnesting _ _ (lexes_text h) hsum)

/-- The text of `(min + 2.5) * -max` is read back. -/
theorem product_text_reads_back :
    let e : Expr :=
      .binary .mul (.binary .add (.var "min") (.number 2.5)) (.neg (.var "max"))
    ofText? e.text = .ok ⟨some e⟩ := by
  intro e
  have hw : e.Writable :=
    ⟨⟨⟨'m', ['i', 'n'], rfl, by decide, by simp [Char.isLower]⟩,
      ⟨5629499534213120, -51, by decide +kernel⟩⟩,
      ⟨'m', ['a', 'x'], rfl, by decide, by simp [Char.isLower]⟩⟩
  have hlen : ∀ ts, Lexes e.text.toList ts → ts.length = 8 := fun ts hts => by
    rw [hts.unique (lexes_text hw)]
    rfl
  refine text_reads_back hw (fun ts hts => ?_) (fun ts d hts hd => ?_)
  · rw [hlen ts hts]; decide
  · have hlt := hd.depth_lt
    rw [hlen ts hts] at hlt
    exact Nat.le_of_lt (Nat.lt_trans hlt (by decide))

end ItemBudget.Formula
