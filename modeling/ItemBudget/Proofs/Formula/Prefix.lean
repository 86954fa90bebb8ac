import ItemBudget.Proofs.Formula.Grammar

/-!
# How a formula can begin

Tokens are viable when more tokens can make them a sum. One reading from the left tells it
(`viable_iff_scan`), and tells a sum (`sentence_iff_scan`): all that matters is whether an operand
must come next and how many groups are open. So a sum and its beginnings are told without a tree,
and nesting as deep as it may be.
-/

namespace ItemBudget.Formula

/-- The tokens of a sum, however deep it is nested. -/
def Sentence (ts : List Token) : Prop := ∃ d e, Derives .sum d ts e

/-- Tokens that a sum can begin with. -/
def Viable (ts : List Token) : Prop := ∃ us, Sentence (ts ++ us)

/-! ## Reading once from the left -/

/-- What is known between two tokens. -/
structure Place where
  /-- An operand must come; otherwise one has just ended. -/
  wants : Bool
  /-- The number of open groups. -/
  groups : Nat
deriving DecidableEq

namespace Place

/-- Where a formula begins. -/
def start : Place := ⟨true, 0⟩

/-- The place after a token, or none when it cannot stand here. -/
def step : Place → Token → Option Place
  | ⟨true, n⟩, .number _ => some ⟨false, n⟩
  | ⟨true, n⟩, .name _ => some ⟨false, n⟩
  | ⟨true, n⟩, .op .sub => some ⟨true, n⟩
  | ⟨true, n⟩, .opening => some ⟨true, n + 1⟩
  | ⟨false, n⟩, .op _ => some ⟨true, n⟩
  | ⟨false, n + 1⟩, .closing => some ⟨false, n⟩
  | _, _ => none

/-- The place after some tokens. -/
def scan : Place → List Token → Option Place
  | p, [] => some p
  | p, t :: ts => (p.step t).bind (·.scan ts)

variable {p q : Place} {t : Token} {ts us : List Token}

@[simp]
theorem scan_nil (p : Place) : p.scan [] = some p := rfl

@[simp]
theorem scan_cons (p : Place) (t : Token) (ts : List Token) :
    p.scan (t :: ts) = (p.step t).bind (·.scan ts) := rfl

theorem scan_append (p : Place) (ts us : List Token) :
    p.scan (ts ++ us) = (p.scan ts).bind (·.scan us) := by
  induction ts generalizing p with
  | nil => rfl
  | cons t ts ih =>
    cases h : p.step t with
    | none => simp [h]
    | some q => simp [h, ih]

end Place

/-- A phrase takes the place of an operand and closes the groups that it opens. -/
theorem Derives.scan {ph : Phrase} {d : Nat} {ts : List Token} {e : Expr}
    (h : Derives ph d ts e) (n : Nat) : Place.scan ⟨true, n⟩ ts = some ⟨false, n⟩ := by
  induction h generalizing n with
  | number | name => rfl
  | group _ ih => simp [Place.step, Place.scan_append, ih]
  | neg _ ih => simp [Place.step, ih]
  | power _ _ iha ihb | product _ _ _ iha ihb | sum _ _ _ iha ihb =>
    simp [Place.step, Place.scan_append, iha, ihb]
  | ofAtom _ ih | ofOperand _ ih | ofPower _ ih | ofProduct _ ih => exact ih n

/-! ## From a place back to the grammar -/

/-- A phrase goes on with an operator that binds at least as strongly and one more operand: they
join its last part. -/
theorem Derives.extend {ph : Phrase} {d d' : Nat} {ts us : List Token} {e e' : Expr}
    {o : BinaryOp} (h : Derives ph d ts e) (ho : ph.strength ≤ o.strength)
    (hus : Derives .operand d' us e') : ∃ d e, Derives ph d (ts ++ .op o :: us) e := by
  have whole : ∀ {ph d ts e}, ph.IsChain → ph.strength = o.strength → Derives ph d ts e →
      ∃ d e, Derives ph d (ts ++ .op o :: us) e := by
    intro ph d ts e hp heq hts
    have hpart : Derives ph.part d' us e' := hus.weaken (by rcases hp with rfl | rfl <;> decide)
    exact ⟨_, _, hts.chain hp heq.symm hpart⟩
  have hle := strength_le o
  induction h with
  | number | name | group | ofAtom | neg =>
    -- no operator joins atoms or operands
    simp only [Phrase.strength] at ho
    omega
  | ofOperand operand =>
    obtain rfl : o = .pow := by
      cases o <;> simp_all [Phrase.strength, BinaryOp.strength]
    exact ⟨_, _, .power operand (.ofOperand hus)⟩
  | power base _ _ ih =>
    obtain ⟨d, e, h⟩ := ih ho
    rw [List.append_assoc]
    exact ⟨_, _, .power base h⟩
  | ofPower power ih =>
    rcases Nat.eq_or_lt_of_le ho with heq | hlt
    · exact whole (.inr rfl) heq (.ofPower power)
    · obtain ⟨d, e, h⟩ := ih hlt
      exact ⟨_, _, .ofPower h⟩
  | product op left right _ ih =>
    rcases Nat.eq_or_lt_of_le ho with heq | hlt
    · exact whole (.inr rfl) heq (.product op left right)
    · obtain ⟨d, e, h⟩ := ih hlt
      rw [List.append_assoc]
      exact ⟨_, _, .product op left h⟩
  | ofProduct product ih =>
    rcases Nat.eq_or_lt_of_le ho with heq | hlt
    · exact whole (.inl rfl) heq (.ofProduct product)
    · obtain ⟨d, e, h⟩ := ih hlt
      exact ⟨_, _, .ofProduct h⟩
  | sum op left right _ ih =>
    rcases Nat.eq_or_lt_of_le ho with heq | hlt
    · exact whole (.inl rfl) heq (.sum op left right)
    · obtain ⟨d, e, h⟩ := ih hlt
      rw [List.append_assoc]
      exact ⟨_, _, .sum op left h⟩

/-- Tokens that any operand completes to a sum. -/
def Wanting (ts : List Token) : Prop :=
  ∀ ⦃d us e⦄, Derives .operand d us e → Sentence (ts ++ us)

theorem wanting_nil : Wanting [] := by
  intro d us e hus
  exact ⟨d, e, .ofProduct (.ofPower (.ofOperand hus))⟩

variable {ts us outer inner : List Token} {n : Nat} {p : Place}

theorem Wanting.minus (h : Wanting ts) : Wanting (ts ++ [.op .sub]) := by
  intro d us e hus
  rw [List.append_assoc]
  exact h (.neg hus)

theorem Sentence.wanting (h : Sentence ts) (o : BinaryOp) : Wanting (ts ++ [.op o]) := by
  obtain ⟨d, e, h⟩ := h
  intro d' us e' hus
  have hpos : Phrase.sum.strength ≤ o.strength := by cases o <;> decide
  rw [List.append_assoc]
  exact h.extend hpos hus

theorem Wanting.atom (h : Wanting ts) {d : Nat} {e : Expr} (hus : Derives .atom d us e) :
    Sentence (ts ++ us) :=
  h (.ofAtom hus)

theorem Wanting.group (h : Wanting ts) (hin : Sentence inner) :
    Sentence (ts ++ .opening :: (inner ++ [.closing])) := by
  obtain ⟨d, e, hin⟩ := hin
  exact h.atom (.group hin)

/-- Tokens that end with the parenthesis of the innermost of `n` open groups. -/
inductive Opens : Nat → List Token → Prop
  | none : Opens 0 []
  | group {n : Nat} {outer ts : List Token} (before : Opens n outer) (wanting : Wanting ts) :
    Opens (n + 1) (outer ++ (ts ++ [.opening]))

/-- The tokens that lead to a place: those up to the innermost open group, and in it a sum, or what
an operand completes to one. -/
inductive Leads : List Token → Place → Prop
  | wants {n : Nat} {outer inner : List Token} (opens : Opens n outer) (wanting : Wanting inner) :
    Leads (outer ++ inner) ⟨true, n⟩
  | ended {n : Nat} {outer inner : List Token} (opens : Opens n outer) (sum : Sentence inner) :
    Leads (outer ++ inner) ⟨false, n⟩

theorem leads_start : Leads [] .start := .wants .none wanting_nil

theorem Leads.step {t : Token} {q : Place} (h : Leads ts p) (hstep : p.step t = some q) :
    Leads (ts ++ [t]) q := by
  cases h with
  | wants hout hin =>
    rw [List.append_assoc]
    cases t with
    | number x =>
      obtain rfl := Option.some.inj hstep
      exact .ended hout (hin.atom (.number x))
    | name n =>
      obtain rfl := Option.some.inj hstep
      exact .ended hout (hin.atom (.name n))
    | op o =>
      cases o with
      | sub =>
        obtain rfl := Option.some.inj hstep
        exact .wants hout hin.minus
      | _ => cases hstep
    | opening =>
      obtain rfl := Option.some.inj hstep
      rw [← List.append_nil (_ ++ _)]
      exact .wants (.group hout hin) wanting_nil
    | closing => cases hstep
  | ended hout hin =>
    rw [List.append_assoc]
    cases t with
    | op o =>
      obtain rfl := Option.some.inj hstep
      exact .wants hout (hin.wanting o)
    | closing =>
      -- the group that ends is an operand of the one around it
      cases hout with
      | none => cases hstep
      | group hout hwant =>
        obtain rfl := Option.some.inj hstep
        have hsum := hwant.group hin
        simpa using Leads.ended hout hsum
    | _ => cases hstep

theorem Leads.scan {q : Place} (h : Leads ts p) (hscan : p.scan us = some q) :
    Leads (ts ++ us) q := by
  induction us generalizing ts p with
  | nil =>
    obtain rfl := Option.some.inj hscan
    rwa [List.append_nil]
  | cons t us ih =>
    obtain ⟨p', hstep, hrest⟩ := Option.bind_eq_some_iff.1 hscan
    have hall := ih (h.step hstep) hrest
    rwa [List.append_assoc] at hall

theorem leads_of_scan (h : Place.start.scan ts = some p) : Leads ts p :=
  leads_start.scan h

/-! ## What can still become a sum -/

/-- The open groups can be closed. -/
theorem Opens.close (h : Opens n outer) (hin : Sentence inner) : Viable (outer ++ inner) := by
  induction h generalizing inner with
  | none => exact ⟨[], by rwa [List.append_nil]⟩
  | group _ hwant ih =>
    obtain ⟨us, hus⟩ := ih (hwant.group hin)
    exact ⟨.closing :: us, by simpa using hus⟩

theorem Leads.viable (h : Leads ts p) : Viable ts := by
  cases h with
  | wants hout hin =>
    obtain ⟨us, hus⟩ := hout.close (hin.atom (.number 0.0))
    exact ⟨.number 0.0 :: us, by simpa using hus⟩
  | ended hout hin => exact hout.close hin

theorem Leads.sentence (h : Leads ts ⟨false, 0⟩) : Sentence ts := by
  cases h with
  | ended hout hin =>
    cases hout with
    | none => exact hin

theorem Sentence.scan (h : Sentence ts) : Place.start.scan ts = some ⟨false, 0⟩ := by
  obtain ⟨d, e, h⟩ := h
  exact h.scan 0

/-- **A sum is told by one reading.** -/
theorem sentence_iff_scan : Sentence ts ↔ Place.start.scan ts = some ⟨false, 0⟩ :=
  ⟨Sentence.scan, fun h => (leads_of_scan h).sentence⟩

/-- **A sum can begin with what one reading gets through.** -/
theorem viable_iff_scan : Viable ts ↔ ∃ p, Place.start.scan ts = some p := by
  constructor
  · rintro ⟨us, h⟩
    have hscan := h.scan
    rw [Place.scan_append] at hscan
    obtain ⟨p, hp, -⟩ := Option.bind_eq_some_iff.1 hscan
    exact ⟨p, hp⟩
  · rintro ⟨p, hp⟩
    exact (leads_of_scan hp).viable

end ItemBudget.Formula
