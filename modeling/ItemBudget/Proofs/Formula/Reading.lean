import ItemBudget.Proofs.Formula.Grammar
import ItemBudget.Proofs.Outcome
import Mathlib.Tactic.Common

/-!
# What the readers read

`Reads` is what the readers do with a list of tokens, and each of them has an equation for it. What
is read is derived, from no more nesting than there is room for (`Reads.derived`), and what is
derived is read (`Derives.reads`).
-/

namespace ItemBudget.Formula

/-! ## What the readers do -/

/-- The reader of a phrase, with `k` nesting levels open, gives the tree `e` and leaves `r`. An atom
is an operand that does not start with a minus sign. -/
def Reads (ph : Phrase) (k : Nat) (ts : List Placed) (e : Expr) (r : List Placed) : Prop :=
  match ph with
  | .sum => ∃ h, readSum k ts = .ok ⟨e, r, h⟩
  | .product => ∃ h, readProduct k ts = .ok ⟨e, r, h⟩
  | .power => ∃ h, readPower k ts = .ok ⟨e, r, h⟩
  | .operand => ∃ h, readOperand k ts = .ok ⟨e, r, h⟩
  | .atom => (∃ h, readOperand k ts = .ok ⟨e, r, h⟩) ∧ ∀ t ∈ ts.head?, t.token ≠ .op .sub

theorem forall_head {p : Placed → Prop} {t : Placed} {us : List Placed} (h : p t) :
    ∀ u ∈ (t :: us).head?, p u := by
  rintro _ ⟨⟩
  exact h

/-- If an operator is next, it has the property. -/
def NextOp (p : BinaryOp → Prop) (r : List Placed) : Prop :=
  ∀ t ∈ r.head?, ∀ o, t.token = .op o → p o

theorem nextOp_nil (p : BinaryOp → Prop) : NextOp p [] := fun _ h => nomatch h

theorem nextOp_cons {p : BinaryOp → Prop} {t : Placed} {r : List Placed} :
    NextOp p (t :: r) ↔ ∀ o, t.token = .op o → p o := by
  constructor
  · exact fun h => h t rfl
  · exact fun h => forall_head h

theorem nextOp_op {p : BinaryOp → Prop} {o : BinaryOp} {i : Nat} {r : List Placed} :
    NextOp p (⟨.op o, i⟩ :: r) ↔ p o := by
  rw [nextOp_cons]
  exact ⟨fun h => h o rfl, fun h _ ho => by cases ho; exact h⟩

/-- No operator is next that belongs to a phrase of the kind. -/
def Stops (ph : Phrase) : List Placed → Prop := NextOp fun o => o.strength < ph.strength

/-- The reader of the further parts of a chain whose parts so far are `a` gives the tree `e` and
leaves `r`. A phrase that is no chain has no further parts. -/
def ReadsOn (ph : Phrase) (k : Nat) (a : Expr) (ts : List Placed) (e : Expr) (r : List Placed) :
    Prop :=
  match ph with
  | .sum => ∃ h, readSumTail k a ts = .ok (e, ⟨r, h⟩)
  | .product => ∃ h, readProductTail k a ts = .ok (e, ⟨r, h⟩)
  | _ => Stops ph ts ∧ e = a ∧ r = ts

variable {ph : Phrase} {k : Nat} {ts r : List Placed} {e : Expr}

theorem Reads.shorter (h : Reads ph k ts e r) : r.length < ts.length := by
  cases ph with
  | sum => exact h.1
  | product => exact h.1
  | power => exact h.1
  | operand => exact h.1
  | atom => exact h.1.1

/-- What the readers of further parts give: the tree of the chain, and the tokens they left. -/
abbrev Further (ts : List Placed) : Type := Expr × { s : List Placed // s.length ≤ ts.length }

/-- Both kinds of chains are read as a first part and the further ones. -/
theorem read_parts {part : Except Fault (Parsed ts)}
    {tail : Expr → (us : List Placed) → Except Fault (Further us)} :
    (∃ h, (do
      let p ← part
      let q ← tail p.tree p.rest
      return Parsed.mk q.1 q.2.1 (Nat.lt_of_le_of_lt q.2.2 p.shorter) :
        Except Fault (Parsed ts)) = .ok ⟨e, r, h⟩) ↔
    ∃ a s, (∃ h, part = .ok ⟨a, s, h⟩) ∧ ∃ h, tail a s = .ok (e, ⟨r, h⟩) := by
  constructor
  · rintro ⟨h, hr⟩
    obtain ⟨p, hp, hr⟩ := bind_eq_ok.1 hr
    obtain ⟨q, hq, hr⟩ := bind_eq_ok.1 hr
    cases hr
    exact ⟨p.tree, p.rest, ⟨p.shorter, hp⟩, ⟨q.2.2, hq⟩⟩
  · rintro ⟨a, s, ⟨ha, hp⟩, ⟨hs, hq⟩⟩
    exact ⟨Nat.lt_of_le_of_lt hs ha, bind_eq_ok.2 ⟨_, hp, bind_eq_ok.2 ⟨_, hq, rfl⟩⟩⟩

theorem reads_chain (hp : ph.IsChain) :
    Reads ph k ts e r ↔ ∃ a s, Reads ph.part k ts a s ∧ ReadsOn ph k a s e r := by
  rcases hp with rfl | rfl
  · unfold Reads
    rw [readSum]
    exact read_parts
  · unfold Reads
    rw [readProduct]
    exact read_parts

/-- No operator is next. -/
theorem nextOp_of_forall_ne {prop : BinaryOp → Prop} (h : ∀ o i us, r ≠ ⟨.op o, i⟩ :: us) :
    NextOp prop r := by
  intro t ht o ho
  obtain ⟨us, rfl⟩ := List.head?_eq_some_iff.1 ht
  exact (h o t.pos us (ho ▸ rfl)).elim

/-- Both kinds of chains go on after an operator that joins their parts, and only there. -/
theorem readsOn_parts {joins : BinaryOp → Bool}
    {part : (us : List Placed) → Except Fault (Parsed us)}
    {tail : Expr → (us : List Placed) → Except Fault (Further us)}
    (hop : ∀ a o i us, tail a (⟨.op o, i⟩ :: us) =
      if joins o then (do
        let p ← part us
        let q ← tail (.binary o a p.tree) p.rest
        return (q.1, ⟨q.2.1, Nat.le_trans q.2.2 (Nat.le_of_lt (Nat.lt_succ_of_lt p.shorter))⟩))
      else .ok (a, ⟨_, Nat.le_refl _⟩))
    (hstop : ∀ a ts, (∀ o i us, ts ≠ ⟨.op o, i⟩ :: us) → tail a ts = .ok (a, ⟨ts, Nat.le_refl _⟩))
    {a : Expr} :
    (∃ h, tail a ts = .ok (e, ⟨r, h⟩)) ↔
      (∃ o i us b s, ts = ⟨.op o, i⟩ :: us ∧ joins o = true ∧ (∃ h, part us = .ok ⟨b, s, h⟩) ∧
        ∃ h, tail (.binary o a b) s = .ok (e, ⟨r, h⟩)) ∨
      (NextOp (fun o => ¬joins o = true) ts ∧ e = a ∧ r = ts) := by
  by_cases hts : ∃ o i us, ts = ⟨.op o, i⟩ :: us
  · obtain ⟨o, i, us, rfl⟩ := hts
    rw [hop, nextOp_op]
    by_cases ho : joins o = true
    · rw [if_pos ho]
      constructor
      · rintro ⟨h, hr⟩
        obtain ⟨p, hp, hr⟩ := bind_eq_ok.1 hr
        obtain ⟨q, hq, hr⟩ := bind_eq_ok.1 hr
        cases hr
        exact .inl ⟨o, i, us, p.tree, p.rest, rfl, ho, ⟨p.shorter, hp⟩, ⟨q.2.2, hq⟩⟩
      · rintro (⟨_, _, _, b, s, ⟨⟩, -, ⟨hb, hp⟩, ⟨hs, hq⟩⟩ | ⟨hn, -⟩)
        · refine ⟨?_, bind_eq_ok.2 ⟨_, hp, bind_eq_ok.2 ⟨_, hq, rfl⟩⟩⟩
          exact Nat.le_trans hs (Nat.le_of_lt (Nat.lt_succ_of_lt hb))
        · exact absurd ho hn
    · rw [if_neg ho]
      constructor
      · rintro ⟨h, hr⟩
        cases hr
        exact .inr ⟨ho, rfl, rfl⟩
      · rintro (⟨_, _, _, _, _, ⟨⟩, ho', -⟩ | ⟨-, rfl, rfl⟩)
        · exact absurd ho' ho
        · exact ⟨Nat.le_refl _, rfl⟩
  · have hne : ∀ o i us, ts ≠ ⟨.op o, i⟩ :: us := fun o i us h => hts ⟨o, i, us, h⟩
    rw [hstop a ts hne]
    constructor
    · rintro ⟨h, hr⟩
      cases hr
      exact .inr ⟨nextOp_of_forall_ne hne, rfl, rfl⟩
    · rintro (⟨o, i, us, _, _, rfl, -⟩ | ⟨-, rfl, rfl⟩)
      · exact absurd rfl (hne o i us)
      · exact ⟨Nat.le_refl _, rfl⟩

theorem readsOn_chain (hp : ph.IsChain) {a : Expr} :
    ReadsOn ph k a ts e r ↔
      (∃ o i us b s, ts = ⟨.op o, i⟩ :: us ∧ o.strength = ph.strength ∧ Reads ph.part k us b s ∧
        ReadsOn ph k (.binary o a b) s e r) ∨
      (NextOp (fun o => o.strength ≠ ph.strength) ts ∧ e = a ∧ r = ts) := by
  rcases hp with rfl | rfl
  · have h := @readsOn_parts ts r e BinaryOp.isSum (readProduct k) (readSumTail k)
      (fun a o i us => by rw [readSumTail])
      (fun a ts hts => by
        unfold readSumTail
        split
        · exact absurd rfl (hts _ _ _)
        · rfl) a
    simp only [isSum_iff] at h
    exact h
  · have h := @readsOn_parts ts r e BinaryOp.isProduct (readPower k) (readProductTail k)
      (fun a o i us => by rw [readProductTail])
      (fun a ts hts => by
        unfold readProductTail
        split
        · exact absurd rfl (hts _ _ _)
        · rfl) a
    simp only [isProduct_iff] at h
    exact h

theorem stops_power_iff : Stops .power r ↔ ∀ i us, r ≠ ⟨.op .pow, i⟩ :: us := by
  constructor
  · rintro h i us rfl
    exact absurd (nextOp_op.1 h) (Nat.lt_irrefl 3)
  · intro h
    rcases r with _ | ⟨⟨t, i⟩, us⟩
    · exact nextOp_nil _
    · rw [Stops, nextOp_cons]
      rintro o rfl
      cases o with
      | pow => exact absurd rfl (h i us)
      | _ => decide

theorem reads_power :
    Reads .power k ts e r ↔ ∃ a s, Reads .operand k ts a s ∧
      ((∃ i us b, s = ⟨.op .pow, i⟩ :: us ∧ k < maxDepth ∧ Reads .power (k + 1) us b r ∧
        e = .binary .pow a b) ∨ Stops .power s ∧ e = a ∧ r = s) := by
  constructor
  · rintro ⟨h, hr⟩
    rw [readPower] at hr
    obtain ⟨p, hp, hr⟩ := bind_eq_ok.1 hr
    refine ⟨p.tree, p.rest, ⟨p.shorter, hp⟩, ?_⟩
    split at hr
    · next i us hs =>
      split_ifs at hr with hk
      obtain ⟨q, hq, hr⟩ := bind_eq_ok.1 hr
      cases hr
      exact .inl ⟨i, us, q.tree, hs, hk, ⟨q.shorter, hq⟩, rfl⟩
    · next hne =>
      cases hr
      exact .inr ⟨stops_power_iff.2 hne, rfl, rfl⟩
  · rintro ⟨a, s, ⟨ha, hp⟩, ⟨i, us, b, rfl, hk, ⟨hb, hq⟩, rfl⟩ | ⟨hn, rfl, rfl⟩⟩
    · refine ⟨?_, ?_⟩
      · rw [List.length_cons] at ha; omega
      · rw [readPower]
        refine bind_eq_ok.2 ⟨_, hp, ?_⟩
        simp only
        rw [if_pos hk]
        exact bind_eq_ok.2 ⟨_, hq, rfl⟩
    · refine ⟨ha, ?_⟩
      rw [readPower]
      refine bind_eq_ok.2 ⟨_, hp, ?_⟩
      split
      · next i us hs => exact absurd hs (stops_power_iff.1 hn i us)
      · rfl

theorem reads_operand :
    Reads .operand k ts e r ↔
      (∃ i us a, ts = ⟨.op .sub, i⟩ :: us ∧ k < maxDepth ∧ Reads .operand (k + 1) us a r ∧
        e = .neg a) ∨ Reads .atom k ts e r := by
  constructor
  · intro h
    by_cases hs : ∀ t ∈ ts.head?, t.token ≠ .op .sub
    · exact .inr ⟨h, hs⟩
    · obtain ⟨h, hr⟩ := h
      rcases ts with _ | ⟨⟨t, i⟩, us⟩
      · exact absurd (fun _ h => nomatch h) hs
      · obtain rfl : t = .op .sub := by
          by_contra ht
          exact hs (forall_head ht)
        rw [readOperand] at hr
        split_ifs at hr with hk
        obtain ⟨p, hp, hr⟩ := bind_eq_ok.1 hr
        cases hr
        exact .inl ⟨i, us, p.tree, rfl, hk, ⟨p.shorter, hp⟩, rfl⟩
  · rintro (⟨i, us, a, rfl, hk, ⟨ha, hp⟩, rfl⟩ | ⟨h, -⟩)
    · refine ⟨Nat.lt_succ_of_lt ha, ?_⟩
      rw [readOperand, if_pos hk]
      exact bind_eq_ok.2 ⟨_, hp, rfl⟩
    · exact h

theorem reads_atom :
    Reads .atom k ts e r ↔
      (∃ x i, ts = ⟨.number x, i⟩ :: r ∧ e = .number x) ∨
      (∃ n i, ts = ⟨.name n, i⟩ :: r ∧ e = .var n) ∨
      (∃ i us j, ts = ⟨.opening, i⟩ :: us ∧ k < maxDepth ∧
        Reads .sum (k + 1) us e (⟨.closing, j⟩ :: r)) := by
  constructor
  · rintro ⟨⟨h, hr⟩, hs⟩
    rcases ts with _ | ⟨⟨t, i⟩, us⟩
    · rw [readOperand] at hr
      cases hr
    · cases t with
      | number x =>
        rw [readOperand] at hr
        cases hr
        exact .inl ⟨x, i, rfl, rfl⟩
      | name n =>
        rw [readOperand] at hr
        cases hr
        exact .inr (.inl ⟨n, i, rfl, rfl⟩)
      | op o =>
        have ho : o ≠ .sub := fun h => hs _ rfl (h ▸ rfl)
        rw [readOperand.eq_6 _ _ _ (by simp) (by simp) (by simpa using ho) (by simp)] at hr
        cases hr
      | opening =>
        rw [readOperand] at hr
        split_ifs at hr with hk
        obtain ⟨⟨a, s, hs⟩, hp, hr⟩ := bind_eq_ok.1 hr
        simp only at hr
        split at hr
        · cases hr
        · next j vs =>
          cases hr
          exact .inr (.inr ⟨i, us, j, rfl, hk, hs, hp⟩)
        · cases hr
      | closing =>
        rw [readOperand.eq_6 _ _ _ (by simp) (by simp) (by simp) (by simp)] at hr
        cases hr
  · rintro (⟨x, i, rfl, rfl⟩ | ⟨n, i, rfl, rfl⟩ | ⟨i, us, j, rfl, hk, ⟨h, hp⟩⟩)
    · exact ⟨⟨Nat.lt_succ_self _, by rw [readOperand]⟩, forall_head (by simp)⟩
    · exact ⟨⟨Nat.lt_succ_self _, by rw [readOperand]⟩, forall_head (by simp)⟩
    · refine ⟨⟨?_, ?_⟩, forall_head (by simp)⟩
      · rw [List.length_cons] at h ⊢; omega
      · rw [readOperand, if_pos hk]
        exact bind_eq_ok.2 ⟨_, hp, rfl⟩

/-! ## What is read is derived -/

/-- A phrase at the front of the tokens, with room for its nesting, and what follows it. -/
def Derived (ph : Phrase) (k : Nat) (ts : List Placed) (e : Expr) (r : List Placed) : Prop :=
  ∃ us d, ts = us ++ r ∧ Derives ph d (us.map Placed.token) e ∧ k + d ≤ maxDepth

theorem Derived.ofPart (ph : Phrase) (h : Derived ph.part k ts e r) : Derived ph k ts e r := by
  obtain ⟨us, d, hts, hd, hk⟩ := h
  exact ⟨us, d, hts, hd.ofPart, hk⟩

/-- The further parts of a chain extend it, when every part that is read is derived. -/
theorem ReadsOn.derived (hp : ph.IsChain) {n : Nat} {a : Expr} {s : List Placed}
    (ih : ∀ {us b r}, us.length < n → Reads ph.part k us b r → Derived ph.part k us b r)
    (hs : s.length ≤ n) (h : ReadsOn ph k a s e r) (ha : Derived ph k ts a s) :
    Derived ph k ts e r := by
  induction hm : s.length using Nat.strongRecOn generalizing a s with
  | ind m ihm =>
    rcases (readsOn_chain hp).1 h with ⟨o, i, us, b, s', rfl, ho, hb, hon⟩ | ⟨-, rfl, rfl⟩
    · rw [List.length_cons] at hs hm
      have hlt := hb.shorter
      obtain ⟨vs, d, rfl, hda, hka⟩ := ha
      obtain ⟨ws, d', rfl, hdb, hkb⟩ := ih (by omega) hb
      refine ihm _ (by omega) (by omega) hon ⟨vs ++ ⟨.op o, i⟩ :: ws, max d d', ?_, ?_, ?_⟩ rfl
      · rw [List.append_assoc, List.cons_append]
      · rw [List.map_append, List.map_cons]
        exact hda.chain hp ho hdb
      · omega
    · exact ha

/-- **What is read is derived**, from no more nesting than there is room for. -/
theorem Reads.derived (h : Reads ph k ts e r) (hk : k ≤ maxDepth) : Derived ph k ts e r := by
  -- a reader calls readers on fewer tokens, or one of a stronger phrase on the same ones
  induction hn : 6 * ts.length - ph.strength using Nat.strongRecOn generalizing ph k ts e r with
  | ind n ih =>
    have hlt := h.shorter
    have fewer : ∀ {ph' k' us b s}, us.length < ts.length → k' ≤ maxDepth →
        Reads ph' k' us b s → Derived ph' k' us b s := by
      intro ph' k' us b s hus hk' hb
      have h1 : ph.strength ≤ 5 := by cases ph <;> decide
      have h2 : 1 ≤ ph'.strength := by cases ph' <;> decide
      exact ih _ (by omega) hb hk' rfl
    have stronger : ∀ {ph' b s}, ph.strength < ph'.strength → Reads ph' k ts b s →
        Derived ph' k ts b s := by
      intro ph' b s hph hb
      have h1 : ph'.strength ≤ 5 := by cases ph' <;> decide
      exact ih _ (by omega) hb hk rfl
    have chain : ph.IsChain → Derived ph k ts e r := by
      intro hp
      obtain ⟨a, s, ha, hon⟩ := (reads_chain hp).1 h
      have hs := ha.shorter
      refine hon.derived hp (fun hu hb => fewer (Nat.lt_trans hu hs) hk hb) (Nat.le_refl _) ?_
      exact (stronger (by rcases hp with rfl | rfl <;> decide) ha).ofPart ph
    cases ph with
    | sum => exact chain (.inl rfl)
    | product => exact chain (.inr rfl)
    | power =>
      obtain ⟨a, s, ha, hs⟩ := reads_power.1 h
      have hd := stronger (by decide) ha
      rcases hs with ⟨i, us, b, rfl, hk', hb, rfl⟩ | ⟨-, rfl, rfl⟩
      · have hlen := ha.shorter
        rw [List.length_cons] at hlen
        obtain ⟨vs, d, rfl, hda, hka⟩ := hd
        obtain ⟨ws, d', rfl, hdb, hkb⟩ := fewer (by omega) hk' hb
        refine ⟨vs ++ ⟨.op .pow, i⟩ :: ws, max d (d' + 1), ?_, ?_, ?_⟩
        · rw [List.append_assoc, List.cons_append]
        · rw [List.map_append, List.map_cons]
          exact .power hda hdb
        · omega
      · exact hd.ofPart .power
    | operand =>
      rcases reads_operand.1 h with ⟨i, us, a, rfl, hk', ha, rfl⟩ | ha
      · obtain ⟨vs, d, rfl, hda, hka⟩ := fewer (Nat.lt_succ_self _) hk' ha
        refine ⟨⟨.op .sub, i⟩ :: vs, d + 1, rfl, ?_, by omega⟩
        rw [List.map_cons]
        exact .neg hda
      · exact (stronger (by decide) ha).ofPart .operand
    | atom =>
      rcases reads_atom.1 h with ⟨x, i, rfl, rfl⟩ | ⟨x, i, rfl, rfl⟩ | ⟨i, us, j, rfl, hk', he⟩
      · exact ⟨[⟨.number x, i⟩], 0, rfl, .number x, hk⟩
      · exact ⟨[⟨.name x, i⟩], 0, rfl, .name x, hk⟩
      · obtain ⟨vs, d, rfl, hd, hkd⟩ := fewer (Nat.lt_succ_self _) hk' he
        refine ⟨⟨.opening, i⟩ :: (vs ++ [⟨.closing, j⟩]), d + 1, ?_, ?_, by omega⟩
        · rw [List.cons_append, List.append_assoc, List.cons_append, List.nil_append]
        · rw [List.map_cons, List.map_append, List.map_singleton]
          exact .group hd

/-! ## What is derived is read -/

theorem ReadsOn.stop (h : Stops ph r) : ReadsOn ph k e r e r := by
  have chain : ph.IsChain → ReadsOn ph k e r e r := fun hp =>
    (readsOn_chain hp).2 (.inr ⟨fun t ht o ho => Nat.ne_of_lt (h t ht o ho), rfl, rfl⟩)
  cases ph with
  | sum => exact chain (.inl rfl)
  | product => exact chain (.inr rfl)
  | power => exact ⟨h, rfl, rfl⟩
  | operand => exact ⟨h, rfl, rfl⟩
  | atom => exact ⟨h, rfl, rfl⟩

/-- The reader gets to where a phrase ends, and goes on from there with its tree. -/
def Reaches (ph : Phrase) (d : Nat) (ts : List Token) (e : Expr) : Prop :=
  ∀ ⦃k ps r e' r'⦄, ps.map Placed.token = ts → k + d ≤ maxDepth →
    NextOp (fun o => o.strength ≤ ph.strength) r → ReadsOn ph k e r e' r' →
    Reads ph k (ps ++ r) e' r'

variable {d d' : Nat} {us vs : List Token} {a b : Expr}

/-- Where no operator of its strength follows, the phrase is read. -/
theorem Reaches.reads {ps : List Placed} (h : Reaches ph d us e) (hps : ps.map Placed.token = us)
    (hk : k + d ≤ maxDepth) (hr : Stops ph r) : Reads ph k (ps ++ r) e r :=
  h hps hk (fun t ht o ho => Nat.le_of_lt (hr t ht o ho)) (.stop hr)

theorem stops_of_lt (h : 3 < ph.strength) : Stops ph r :=
  fun _ _ o _ => Nat.lt_of_le_of_lt (strength_le o) h

theorem Reaches.chain_part (hp : ph.IsChain) (h : Reaches ph.part d us e) :
    Reaches ph d us e := by
  intro k ps r e' r' hps hk hr hon
  refine (reads_chain hp).2 ⟨e, r, h.reads hps hk fun t ht o ho => ?_, hon⟩
  have := hr t ht o ho
  rcases hp with rfl | rfl <;> exact Nat.lt_succ_of_le this

theorem Reaches.chain {o : BinaryOp} (hp : ph.IsChain) (ho : o.strength = ph.strength)
    (ha : Reaches ph d us a) (hb : Reaches ph.part d' vs b) :
    Reaches ph (max d d') (us ++ .op o :: vs) (.binary o a b) := by
  intro k ps r e' r' hts hk hr hon
  obtain ⟨ps, qs, rfl, hps, hts⟩ := List.map_eq_append_iff.1 hts
  obtain ⟨⟨t, i⟩, qs, rfl, rfl, hqs⟩ := List.map_eq_cons_iff.1 hts
  rw [List.append_assoc, List.cons_append]
  refine ha hps (by omega) (nextOp_op.2 (Nat.le_of_eq ho)) ?_
  refine (readsOn_chain hp).2 (.inl ⟨o, i, qs ++ r, b, r, rfl, ho, ?_, hon⟩)
  refine hb.reads hqs (by omega) fun t ht o ho => ?_
  have := hr t ht o ho
  rcases hp with rfl | rfl <;> exact Nat.lt_succ_of_le this

theorem Derives.reaches (h : Derives ph d us e) : Reaches ph d us e := by
  -- a chain derives its parts from the left and is read from the left: the reader of the further
  -- parts, which `Reaches` carries along, takes over where the derivation of the left part ends
  induction h with
  | number x =>
    rintro k ps r _ _ hps hk - ⟨-, rfl, rfl⟩
    obtain ⟨⟨t, i⟩, rfl, rfl⟩ := List.map_eq_singleton_iff.1 hps
    exact reads_atom.2 (.inl ⟨x, i, rfl, rfl⟩)
  | name n =>
    rintro k ps r _ _ hps hk - ⟨-, rfl, rfl⟩
    obtain ⟨⟨t, i⟩, rfl, rfl⟩ := List.map_eq_singleton_iff.1 hps
    exact reads_atom.2 (.inr (.inl ⟨n, i, rfl, rfl⟩))
  | group _ ih =>
    rintro k ps r _ _ hts hk - ⟨-, rfl, rfl⟩
    obtain ⟨⟨t, i⟩, us, rfl, rfl, hus⟩ := List.map_eq_cons_iff.1 hts
    obtain ⟨ps, qs, rfl, hps, hqs⟩ := List.map_eq_append_iff.1 hus
    obtain ⟨⟨t, j⟩, rfl, rfl⟩ := List.map_eq_singleton_iff.1 hqs
    rw [List.cons_append, List.append_assoc]
    refine reads_atom.2 (.inr (.inr ⟨i, _, j, rfl, by omega, ih.reads hps (by omega) ?_⟩))
    exact nextOp_cons.2 fun o ho => nomatch ho
  | ofAtom _ ih =>
    rintro k ps r _ _ hps hk - ⟨-, rfl, rfl⟩
    exact reads_operand.2 (.inr (ih.reads hps hk (stops_of_lt (by decide))))
  | neg _ ih =>
    rintro k ps r _ _ hts hk - ⟨hr, rfl, rfl⟩
    obtain ⟨⟨t, i⟩, ps, rfl, rfl, hps⟩ := List.map_eq_cons_iff.1 hts
    exact reads_operand.2 (.inl ⟨i, _, _, rfl, by omega, ih.reads hps (by omega) hr, rfl⟩)
  | ofOperand _ ih =>
    rintro k ps r _ _ hps hk - ⟨hr, rfl, rfl⟩
    exact reads_power.2 ⟨_, _, ih.reads hps hk (stops_of_lt (by decide)), .inr ⟨hr, rfl, rfl⟩⟩
  | power _ _ iha ihb =>
    rintro k ps r _ _ hts hk - ⟨hr, rfl, rfl⟩
    obtain ⟨ps, qs, rfl, hps, hts⟩ := List.map_eq_append_iff.1 hts
    obtain ⟨⟨t, i⟩, qs, rfl, rfl, hqs⟩ := List.map_eq_cons_iff.1 hts
    rw [List.append_assoc, List.cons_append]
    refine reads_power.2 ⟨_, _, iha.reads hps (by omega) (stops_of_lt (by decide)), .inl ?_⟩
    exact ⟨i, _, _, rfl, by omega, ihb.reads hqs (by omega) hr, rfl⟩
  | ofPower _ ih => exact ih.chain_part (.inr rfl)
  | product op _ _ iha ihb => exact iha.chain (.inr rfl) (isProduct_iff.1 op) ihb
  | ofProduct _ ih => exact ih.chain_part (.inl rfl)
  | sum op _ _ iha ihb => exact iha.chain (.inl rfl) (isSum_iff.1 op) ihb

/-- **What is derived is read**, when there is room for its nesting and no operator follows that
would belong to it. -/
theorem Derives.reads {ps : List Placed} (h : Derives ph d (ps.map Placed.token) e)
    (hk : k + d ≤ maxDepth) (hr : Stops ph r) : Reads ph k (ps ++ r) e r :=
  h.reaches.reads rfl hk hr

/-- Tokens are read whole when they are derived, from no more nesting than there is room for. -/
theorem reads_whole_iff (hk : k ≤ maxDepth) :
    Reads ph k ts e [] ↔ ∃ d, k + d ≤ maxDepth ∧ Derives ph d (ts.map Placed.token) e := by
  constructor
  · intro h
    obtain ⟨us, d, rfl, hd, hkd⟩ := h.derived hk
    rw [List.append_nil]
    exact ⟨d, hkd, hd⟩
  · rintro ⟨d, hkd, h⟩
    have hread := h.reads hkd (nextOp_nil _)
    rwa [List.append_nil] at hread

end ItemBudget.Formula
