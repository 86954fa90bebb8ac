import ItemBudget.Formula.Basic
import ItemBudget.Proofs.Formula.Lexing
import ItemBudget.Proofs.Formula.Prefix
import ItemBudget.Proofs.Formula.Reading

/-!
# Where a text stops being a formula

The readers take tokens from the left and give up at the first that no formula allows. What they
say of the tokens is put in the terms of a reading without a tree (`Place.scan`): a fault is a
`Mistake` in the tokens, and a reader that ends well has taken a phrase and left what cannot belong
to it. Each reader starts after tokens that are already read, in groups that are already open, so
both are said relative to a place.

Nesting that is too deep is a fault that the grammar does not know, and nothing is said of it.
-/

namespace ItemBudget.Formula

variable {p q : Place} {ph ph' : Phrase} {ts us : List Placed} {fault : Fault}

/-- What a fault of a reader says of the tokens after a place. -/
def Mistake (p : Place) (ts : List Placed) : Fault → Prop
  | .unexpectedToken found pos => ∃ before t after q, ts = before ++ t :: after ∧
      t.token.text = found ∧ t.pos = pos ∧ p.scan (before.map Placed.token) = some q ∧
      q.step t.token = none
  | .unexpectedEnd => ∃ n, p.scan (ts.map Placed.token) = some ⟨true, n⟩
  | .unbalancedParens => ∃ n, p.groups < n ∧ p.scan (ts.map Placed.token) = some ⟨false, n⟩
  | .tooDeep => True
  | _ => False

/-- What a reader of a phrase does with the tokens after a place: it takes the phrase and leaves
what cannot belong to it, or its fault is a mistake in the tokens. -/
def Answers (p : Place) (ph : Phrase) (ts : List Placed) : Except Fault (List Placed) → Prop
  | .ok rest => (∃ us, ts = us ++ rest ∧
      p.scan (us.map Placed.token) = some ⟨false, p.groups⟩) ∧ Stops ph rest
  | .error fault => Mistake p ts fault

/-- Nothing but an operator can follow a phrase, or the end of its group. -/
theorem step_eq_none {t : Placed} {n : ℕ} (hstops : Stops .sum (t :: ts))
    (hclosing : t.token = .closing → n = 0) : Place.step ⟨false, n⟩ t.token = none := by
  rw [Stops, nextOp_cons] at hstops
  cases ht : t.token with
  | op o =>
    have hlt := hstops o ht
    cases o <;> exact absurd hlt (by decide)
  | closing =>
    obtain rfl := hclosing ht
    rfl
  | _ => rfl

/-- A mistake is one in more tokens, when those before it can be read. -/
theorem Mistake.after (us : List Placed) (h : Mistake q ts fault)
    (hscan : p.scan (us.map Placed.token) = some q)
    (hgroups : p.groups ≤ q.groups) : Mistake p (us ++ ts) fault := by
  cases fault with
  | unexpectedToken found pos =>
    obtain ⟨before, t, after, q', rfl, hfound, hpos, hbefore, ht⟩ := h
    refine ⟨us ++ before, t, after, q', by rw [List.append_assoc], hfound, hpos, ?_, ht⟩
    rw [List.map_append, Place.scan_append, hscan, Option.bind_some, hbefore]
  | unexpectedEnd =>
    obtain ⟨n, h⟩ := h
    refine ⟨n, ?_⟩
    rw [List.map_append, Place.scan_append, hscan, Option.bind_some, h]
  | unbalancedParens =>
    obtain ⟨n, hn, h⟩ := h
    refine ⟨n, Nat.lt_of_le_of_lt hgroups hn, ?_⟩
    rw [List.map_append, Place.scan_append, hscan, Option.bind_some, h]
  | tooDeep => trivial
  | _ => exact h

theorem Answers.after {r : Except Fault (List Placed)} (us : List Placed) (h : Answers q ph ts r)
    (hscan : p.scan (us.map Placed.token) = some q) (hgroups : q.groups = p.groups) :
    Answers p ph (us ++ ts) r := by
  cases r with
  | error fault => exact Mistake.after us h hscan (Nat.le_of_eq hgroups.symm)
  | ok rest =>
    obtain ⟨⟨vs, rfl, hvs⟩, hstops⟩ := h
    refine ⟨⟨us ++ vs, by rw [List.append_assoc], ?_⟩, hstops⟩
    rw [List.map_append, Place.scan_append, hscan, Option.bind_some, hvs, hgroups]

theorem map_bind_pure {α β : Type} {x : Except Fault α} {f : α → β} {rest : β → List Placed} :
    (x >>= fun a => pure (f a)).map rest = x.map fun a => rest (f a) := by
  cases x <;> rfl

/-- A reader and then another one on what it left. -/
theorem Answers.bind {α β : Type} {x : Except Fault α} {f : α → Except Fault β}
    {rest : α → List Placed} {rest' : β → List Placed} (h : Answers p ph ts (x.map rest))
    (hf : ∀ a, Stops ph (rest a) →
      Answers ⟨false, p.groups⟩ ph' (rest a) ((f a).map rest')) :
    Answers p ph' ts ((x >>= f).map rest') := by
  cases x with
  | error fault => exact h
  | ok a =>
    obtain ⟨⟨us, rfl, hus⟩, hstops⟩ := h
    exact (hf a hstops).after us hus rfl

/-- Two readers whose results are put together. -/
theorem Answers.pair {α γ : Type} {β : α → Type} {x : Except Fault α}
    {f : (a : α) → Except Fault (β a)} {g : (a : α) → β a → γ} {rest : α → List Placed}
    {rest' : γ → List Placed} (h : Answers p ph ts (x.map rest))
    (hf : ∀ a, Stops ph (rest a) →
      Answers ⟨false, p.groups⟩ ph' (rest a) ((f a).map fun b => rest' (g a b))) :
    Answers p ph' ts ((x >>= fun a => f a >>= fun b => pure (g a b)).map rest') := by
  refine h.bind fun a ha => ?_
  rw [map_bind_pure]
  exact hf a ha

/-- A chain ends where no operator of its strength is next. -/
theorem Answers.stop (hp : ph.IsChain) (hnext : NextOp (fun o => o.strength ≠ ph.strength) ts)
    (hpart : Stops ph.part ts) {n : ℕ} : Answers ⟨false, n⟩ ph ts (.ok ts) := by
  refine ⟨⟨[], rfl, rfl⟩, fun t ht o ho => ?_⟩
  have hne := hnext t ht o ho
  have hle := hpart t ht o ho
  rcases hp with rfl | rfl <;> simp only [Phrase.part, Phrase.strength] at hne hle ⊢ <;> omega

/-- A group ends with a closing parenthesis after its sum. -/
theorem answers_group {k n i : ℕ} (hk : k < maxDepth)
    (h : Answers ⟨true, n + 1⟩ .sum us ((readSum (k + 1) us).map Parsed.rest)) :
    Answers ⟨true, n⟩ .operand (⟨.opening, i⟩ :: us)
      ((readOperand k (⟨.opening, i⟩ :: us)).map Parsed.rest) := by
  rw [readOperand, if_pos hk]
  cases hread : readSum (k + 1) us with
  | error fault =>
    rw [hread] at h
    exact Mistake.after [⟨.opening, i⟩] h rfl (Nat.le_succ n)
  | ok a =>
    rw [hread] at h
    obtain ⟨⟨vs, hus, hvs⟩, hstops⟩ := h
    simp only [bind, Except.bind]
    split
    · next hrest =>
      rw [hrest, List.append_nil] at hus
      refine ⟨n + 1, Nat.lt_succ_self n, ?_⟩
      simpa [Place.step, hus] using hvs
    · next j ws hrest =>
      rw [hrest] at hus
      refine ⟨⟨⟨.opening, i⟩ :: (vs ++ [⟨.closing, j⟩]), by simp [hus], ?_⟩,
        stops_of_lt (by decide)⟩
      simp [Place.step, Place.scan_append, hvs]
    · next t ws hne hrest =>
      rw [hrest] at hus hstops
      refine ⟨⟨.opening, i⟩ :: vs, t, ws, ⟨false, n + 1⟩, by simp [hus], rfl, rfl, ?_, ?_⟩
      · simpa [Place.step] using hvs
      · exact step_eq_none hstops fun ht => (hne t.pos (by cases t; cases ht; rfl)).elim

/-- Every reader answers: by induction on their calls, with any number of groups already open. -/
theorem answers_readSum (k n : ℕ) (ts : List Placed) :
    Answers ⟨true, n⟩ .sum ts ((readSum k ts).map Parsed.rest) := by
  refine (readSum.mutual_induct
    (fun k ts => ∀ n, Answers ⟨true, n⟩ .sum ts ((readSum k ts).map Parsed.rest))
    (fun k a ts => ∀ n, Stops .product ts →
      Answers ⟨false, n⟩ .sum ts ((readSumTail k a ts).map (·.2.1)))
    (fun k ts => ∀ n, Answers ⟨true, n⟩ .product ts ((readProduct k ts).map Parsed.rest))
    (fun k a ts => ∀ n, Stops .power ts →
      Answers ⟨false, n⟩ .product ts ((readProductTail k a ts).map (·.2.1)))
    (fun k ts => ∀ n, Answers ⟨true, n⟩ .power ts ((readPower k ts).map Parsed.rest))
    (fun k ts => ∀ n, Answers ⟨true, n⟩ .operand ts ((readOperand k ts).map Parsed.rest))
    ?sum ?sumOn ?sumOther ?sumStop ?product ?productOn ?productOther ?productStop ?power
    ?none ?number ?name ?minus ?minusDeep ?group ?groupDeep ?other).1 k ts n
  case sum =>
    intro k ts hp ht n
    rw [readSum]
    exact (hp n).pair fun a => ht a n
  case sumOn =>
    intro k a o i us ho hp ht n hstops
    rw [readSumTail, if_pos ho]
    exact Answers.after [⟨.op o, i⟩] ((hp n).pair fun a => ht a n) rfl rfl
  case sumOther =>
    intro k a o i us ho n hstops
    rw [readSumTail, if_neg ho]
    exact .stop (.inl rfl) (nextOp_op.2 (mt isSum_iff.2 ho)) hstops
  case sumStop =>
    intro k a ts hts n hstops
    rw [readSumTail]
    · exact .stop (.inl rfl) (nextOp_of_forall_ne hts) hstops
    · exact hts
  case product =>
    intro k ts hp ht n
    rw [readProduct]
    exact (hp n).pair fun a => ht a n
  case productOn =>
    intro k a o i us ho hp ht n hstops
    rw [readProductTail, if_pos ho]
    exact Answers.after [⟨.op o, i⟩] ((hp n).pair fun a => ht a n) rfl rfl
  case productOther =>
    intro k a o i us ho n hstops
    rw [readProductTail, if_neg ho]
    exact .stop (.inr rfl) (nextOp_op.2 (mt isProduct_iff.2 ho)) hstops
  case productStop =>
    intro k a ts hts n hstops
    rw [readProductTail]
    · exact .stop (.inr rfl) (nextOp_of_forall_ne hts) hstops
    · exact hts
  case power =>
    intro k ts hp hexp n
    rw [readPower]
    refine (hp n).bind fun a ha => ?_
    split
    · next i us hrest =>
      split_ifs
      · have hpow := (hexp a i us hrest n).after (p := ⟨false, n⟩) [⟨.op .pow, i⟩] rfl rfl
        rw [List.singleton_append, ← hrest] at hpow
        rw [map_bind_pure]
        exact hpow
      · trivial
    · next hne => exact ⟨⟨[], rfl, rfl⟩, stops_power_iff.2 hne⟩
  case none =>
    intro k n
    rw [readOperand]
    exact ⟨n, rfl⟩
  case number =>
    intro k x i us n
    rw [readOperand]
    exact ⟨⟨[⟨.number x, i⟩], rfl, rfl⟩, stops_of_lt (by decide)⟩
  case name =>
    intro k x i us n
    rw [readOperand]
    exact ⟨⟨[⟨.name x, i⟩], rfl, rfl⟩, stops_of_lt (by decide)⟩
  case minus =>
    intro k i us hk hp n
    rw [readOperand, if_pos hk, map_bind_pure]
    exact (hp n).after [⟨.op .sub, i⟩] rfl rfl
  case minusDeep =>
    intro k i us hk n
    rw [readOperand, if_neg hk]
    trivial
  case group =>
    intro k i us hk hs n
    exact answers_group hk (hs (n + 1))
  case groupDeep =>
    intro k i us hk n
    rw [readOperand, if_neg hk]
    trivial
  case other =>
    intro k t us hnumber hname hminus hopening n
    rw [readOperand]
    · refine ⟨[], t, us, ⟨true, n⟩, rfl, rfl, rfl, rfl, ?_⟩
      obtain ⟨token, i⟩ := t
      cases token with
      | number x => exact (hnumber x i rfl).elim
      | name x => exact (hname x i rfl).elim
      | op o =>
        cases o with
        | sub => exact (hminus i rfl).elim
        | _ => rfl
      | opening => exact (hopening i rfl).elim
      | closing => rfl
    all_goals assumption

/-- A fault of the whole is a mistake in the tokens, or a parenthesis too many after a sum. -/
theorem readAll_eq_error (h : readAll ts = .error fault) :
    Mistake .start ts fault ∨ fault = .unbalancedParens ∧ ∃ before i after,
      ts = before ++ ⟨.closing, i⟩ :: after ∧
        Place.start.scan (before.map Placed.token) = some ⟨false, 0⟩ := by
  have hsum := answers_readSum 0 0 ts
  rcases bind_eq_error.1 h with hread | ⟨a, hread, h⟩
  · rw [hread] at hsum
    exact .inl hsum
  · rw [hread] at hsum
    obtain ⟨⟨us, hts, hus⟩, hstops⟩ := hsum
    change ts = us ++ a.rest at hts
    change Stops .sum a.rest at hstops
    split at h
    · cases h
    · next i ws hrest =>
      cases h
      exact .inr ⟨rfl, us, i, ws, hrest ▸ hts, hus⟩
    · next t ws hne hrest =>
      cases h
      rw [hrest] at hts hstops
      refine .inl ⟨us, t, ws, ⟨false, 0⟩, hts, rfl, rfl, hus, ?_⟩
      exact step_eq_none hstops fun _ => rfl

/-! ## What the faults say -/

variable {source : String}

/-- A fault of reading is one of the tokens, or the text is cut into tokens and they have it. -/
theorem ofText?_eq_error (h : ofText? source = .error fault) :
    ((∃ c i, fault = .invalidCharacter c i) ∨ (∃ literal, fault = .invalidNumber literal) ∨
      fault = .tooLong) ∨ ∃ ts, tokens source = .ok ts ∧ readAll ts = .error fault := by
  rcases bind_eq_error.1 (map_eq_error.1 h) with hts | ⟨ts, hts, h⟩
  · exact .inl (tokensFrom_eq_error hts)
  · split at h
    · cases h
    · rcases bind_eq_error.1 h with hread | ⟨e, -, h⟩
      · exact .inr ⟨ts, hts, hread⟩
      · cases h

/-- Tokens that end after a sum in an open group. -/
theorem exists_open_group {ts : List Token} {n : ℕ} (hn : 0 < n)
    (h : Place.start.scan ts = some ⟨false, n⟩) :
    ∃ before inner, ts = before ++ .opening :: inner ∧ Sentence inner := by
  cases leads_of_scan h with
  | @ended _ outer inner hout hin =>
    cases hout with
    | none => exact absurd hn (Nat.lt_irrefl 0)
    | @group _ outer ts _ _ => exact ⟨outer ++ ts, inner, by simp, hin⟩

theorem not_viable {ts : List Token} {t : Token} (h : Place.start.scan ts = some p)
    (ht : p.step t = none) : ¬Viable (ts ++ [t]) := by
  rw [viable_iff_scan, Place.scan_append, h]
  simp [ht]

/-- **A fault of reading points at the first mistake.** An unexpected token stands at its position,
after tokens that a formula can begin with and that with it no formula begins with. At an unexpected
end the tokens can go on and are no formula. Where parentheses are unbalanced the tokens end after a
formula in an open group, or the first that cannot stand where it does is a closing parenthesis
after a formula. -/
theorem faults_point_at_mistake (source : String) :
    (∀ found pos, ofText? source = .error (.unexpectedToken found pos) →
      ∃ before t after, tokens source = .ok (before ++ t :: after) ∧ t.token.text = found ∧
        t.pos = pos ∧ StandsIn source.toList t ∧ Viable (before.map Placed.token) ∧
        ¬Viable (before.map Placed.token ++ [t.token])) ∧
    (ofText? source = .error .unexpectedEnd →
      ∃ ts, tokens source = .ok ts ∧ Viable (ts.map Placed.token) ∧
        ¬Sentence (ts.map Placed.token)) ∧
    (ofText? source = .error .unbalancedParens →
      ∃ ts, tokens source = .ok ts ∧
        ((∃ before inner, ts.map Placed.token = before ++ .opening :: inner ∧ Sentence inner ∧
            Viable (ts.map Placed.token) ∧ ¬Sentence (ts.map Placed.token)) ∨
          ∃ before t after, ts = before ++ t :: after ∧ t.token = .closing ∧
            Sentence (before.map Placed.token) ∧
            ¬Viable (before.map Placed.token ++ [t.token]))) := by
  refine ⟨fun found pos h => ?_, fun h => ?_, fun h => ?_⟩
  · obtain h | ⟨ts, hts, h⟩ := ofText?_eq_error h
    · simp at h
    · obtain ⟨before, t, after, q, rfl, hfound, hpos, hscan, ht⟩ | ⟨h, -⟩ := readAll_eq_error h
      · have hstands := @standsIn_of_tokensFrom _ _ _ _ hts [] rfl t (by simp)
        exact ⟨before, t, after, hts, hfound, hpos, hstands, viable_iff_scan.2 ⟨q, hscan⟩,
          not_viable hscan ht⟩
      · cases h
  · obtain h | ⟨ts, hts, h⟩ := ofText?_eq_error h
    · simp at h
    · obtain ⟨n, hscan⟩ | ⟨h, -⟩ := readAll_eq_error h
      · refine ⟨ts, hts, viable_iff_scan.2 ⟨_, hscan⟩, fun hsum => ?_⟩
        rw [sentence_iff_scan, hscan] at hsum
        cases hsum
      · cases h
  · obtain h | ⟨ts, hts, h⟩ := ofText?_eq_error h
    · simp at h
    · obtain ⟨n, hn, hscan⟩ | ⟨-, before, i, after, rfl, hscan⟩ := readAll_eq_error h
      · obtain ⟨before, inner, htokens, hin⟩ := exists_open_group hn hscan
        refine ⟨ts, hts, .inl ⟨before, inner, htokens, hin, viable_iff_scan.2 ⟨_, hscan⟩, ?_⟩⟩
        intro hsum
        rw [sentence_iff_scan, hscan] at hsum
        cases hsum
        exact absurd hn (Nat.lt_irrefl 0)
      · refine ⟨_, hts, .inr ⟨before, ⟨.closing, i⟩, after, rfl, rfl, ?_, not_viable hscan rfl⟩⟩
        exact sentence_iff_scan.2 hscan

example : ofText? "2 * (weight + ) / 3" = .error (.unexpectedToken ")" 14) := by decide +kernel

end ItemBudget.Formula
