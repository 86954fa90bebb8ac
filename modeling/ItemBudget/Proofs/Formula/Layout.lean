import ItemBudget.Proofs.Formula.Normal

/-!
# Layout and letter case

A formula is read alike in any letter case: the tokens are the same, at the same positions, and so
are the faults (`tokensFrom_toLower`). Gaps between tokens are seen in the positions of faults only.
`Spaced` says that a text is another one with more gaps around its tokens; both have the same tokens
(`Spaced.lexes`), and the readers do with tokens at other positions what they do with these, up to
the position in a fault (`forgets_readSum`).
-/

namespace ItemBudget.Formula

/-! ## Letter case -/

section Case

variable {c : Char}

theorem class_of_startsName (h : startsName c = true) :
    isGap c = false ∧ Token.ofSymbol? c = none ∧ isNumeral c = false ∧ continuesName c = true := by
  refine ⟨?_, symbol_of_class (.inr h), ?_, continuesName_of_startsName h⟩
  · rw [Bool.eq_false_iff]
    intro hg
    rw [(class_of_gap hg).2.1] at h
    cases h
  · rw [Bool.eq_false_iff]
    intro hn
    rw [startsName_of_numeral hn] at h
    cases h

theorem startsName_toLower (h : startsName c = true) : startsName c.toLower = true := by
  rcases isLower_or_of_startsName h with hl | hl
  · simp only [startsName, Char.isAlpha, hl, Bool.or_true, Bool.true_or]
  · rw [hl]
    rfl

/-- Only characters that can start a name have a letter case. -/
theorem toLower_of_not_startsName (h : startsName c = false) : c.toLower = c := by
  refine Char.toLower_eq_of_not_isUpper ?_
  intro hu
  simp [startsName, Char.isAlpha, hu] at h

theorem toLower_of_numeral (h : isNumeral c = true) : c.toLower = c :=
  toLower_of_not_startsName (startsName_of_numeral h)

/-- A character is of the same classes in either case. -/
theorem class_toLower (c : Char) :
    isGap c.toLower = isGap c ∧ Token.ofSymbol? c.toLower = Token.ofSymbol? c ∧
      isNumeral c.toLower = isNumeral c ∧ startsName c.toLower = startsName c ∧
      continuesName c.toLower = continuesName c := by
  cases h : startsName c with
  | false =>
    rw [toLower_of_not_startsName h]
    exact ⟨rfl, rfl, rfl, h, rfl⟩
  | true =>
    have hl := startsName_toLower h
    obtain ⟨hg, hs, hn, hc⟩ := class_of_startsName h
    obtain ⟨hg', hs', hn', hc'⟩ := class_of_startsName hl
    rw [hg, hs, hn, hc, hg', hs', hn', hc']
    exact ⟨rfl, rfl, rfl, hl, rfl⟩

theorem toLower_toLower (c : Char) : c.toLower.toLower = c.toLower := by
  cases h : c.isUpper with
  | false =>
    have hlow : c.toLower = c :=
      Char.toLower_eq_of_not_isUpper (by rw [h]; exact Bool.false_ne_true)
    rw [hlow, hlow]
  | true =>
    refine Char.toLower_eq_of_not_isUpper (Char.not_isUpper_of_isLower ?_)
    rw [Char.isLower_toLower_eq_isAlpha, Char.isAlpha, h, Bool.true_or]

theorem takeWhile_toLower {p : Char → Bool} (hp : ∀ c : Char, p c.toLower = p c) (cs : List Char) :
    (cs.map Char.toLower).takeWhile p = (cs.takeWhile p).map Char.toLower := by
  rw [List.takeWhile_map]
  congr 2
  funext c
  exact hp c

theorem dropWhile_toLower {p : Char → Bool} (hp : ∀ c : Char, p c.toLower = p c) (cs : List Char) :
    (cs.map Char.toLower).dropWhile p = (cs.dropWhile p).map Char.toLower := by
  rw [List.dropWhile_map]
  congr 2
  funext c
  exact hp c

/-- A run of digits and points has no letter case. -/
theorem takeWhile_isNumeral_toLower (cs : List Char) :
    (cs.map Char.toLower).takeWhile isNumeral = cs.takeWhile isNumeral := by
  rw [takeWhile_toLower fun c => (class_toLower c).2.2.1]
  refine (List.map_congr_left fun c hc => ?_).trans (List.map_id _)
  exact toLower_of_numeral (List.mem_takeWhile_imp hc)

/-- In lower case the token at the front is the same, and what follows it is in lower case. -/
theorem lexeme_toLower (pos : ℕ) (c : Char) (cs : List Char) :
    (lexeme pos c.toLower (cs.map Char.toLower)).map (fun l => (l.token, l.rest)) =
      (lexeme pos c cs).map fun l => (l.token, l.rest.map Char.toLower) := by
  obtain ⟨-, hs, hn, ha, -⟩ := class_toLower c
  have hnumerals := takeWhile_isNumeral_toLower (c :: cs)
  have hafter := dropWhile_toLower (fun c => (class_toLower c).2.2.1) (c :: cs)
  have hletters := takeWhile_toLower (fun c => (class_toLower c).2.2.2.2) (c :: cs)
  have hrest := dropWhile_toLower (fun c => (class_toLower c).2.2.2.2) (c :: cs)
  rw [List.map_cons] at hnumerals hafter hletters hrest
  unfold lexeme
  rw [hs]
  cases hsymbol : Token.ofSymbol? c with
  | some t => rfl
  | none =>
    simp only [hn, ha]
    split_ifs with hnumeral hname
    · rw [hnumerals]
      cases readLiteral? ((c :: cs).takeWhile isNumeral) with
      | none => rfl
      | some x => exact congrArg Except.ok (Prod.ext rfl hafter)
    · refine congrArg Except.ok (Prod.ext ?_ hrest)
      show Token.name (String.ofList _) = Token.name (String.ofList _)
      rw [hletters, List.map_map]
      congr 3
      funext c
      exact toLower_toLower c
    · rw [toLower_of_not_startsName (Bool.eq_false_iff.2 hname)]
      rfl

/-- **Letter case carries no meaning**: in lower case a text has the same tokens at the same
positions, or the same fault. -/
theorem tokensFrom_toLower (pos room : ℕ) (cs : List Char) :
    tokensFrom pos room (cs.map Char.toLower) = tokensFrom pos room cs := by
  induction pos, room, cs using tokensFrom.induct with
  | case1 pos room => rw [List.map_nil]
  | case2 pos room c cs hgap ih =>
    rw [List.map_cons, tokensFrom, (class_toLower c).1, if_pos hgap, ih, tokensFrom, if_pos hgap]
  | case3 pos room c cs hgap ih =>
    rw [List.map_cons, tokensFrom, (class_toLower c).1, if_neg hgap, tokensFrom, if_neg hgap]
    have hlexeme := lexeme_toLower pos c cs
    cases hl : lexeme pos c cs with
    | error fault =>
      rw [hl] at hlexeme
      rw [map_eq_error.1 hlexeme]
      rfl
    | ok l =>
      rw [hl] at hlexeme
      obtain ⟨⟨token, rest, hrest⟩, hl', heq⟩ := map_eq_ok.1 hlexeme
      obtain ⟨rfl, rfl⟩ := Prod.mk.inj heq
      rw [hl']
      cases room with
      | zero => rfl
      | succ room =>
        show (tokensFrom
          (pos + ((cs.map Char.toLower).length + 1 - (l.rest.map Char.toLower).length))
          room (l.rest.map Char.toLower) >>= _) = (tokensFrom _ room l.rest >>= _)
        rw [List.length_map, List.length_map, ih l room]

theorem tokens_of_toLower {s s' : String}
    (h : s.toList.map Char.toLower = s'.toList.map Char.toLower) : tokens s' = tokens s := by
  unfold tokens
  rw [← tokensFrom_toLower, ← h, tokensFrom_toLower]

end Case

/-! ## Gaps -/

/-- The second text is the first one with gaps put before, between or after its tokens. -/
inductive Spaced : List Char → List Char → Prop
  | nil : Spaced [] []
  | put {c : Char} {cs cs' : List Char} (gap : isGap c = true) (rest : Spaced cs cs') :
    Spaced cs (c :: cs')
  | gap {c : Char} {cs cs' : List Char} (gap : isGap c = true) (rest : Spaced cs cs') :
    Spaced (c :: cs) (c :: cs')
  | token {c : Char} {run cs cs' : List Char} {t : Token} (first : Starts (c :: (run ++ cs)) t cs)
    (rest : Spaced cs cs') : Spaced (c :: (run ++ cs)) (c :: (run ++ cs'))

section Gaps

variable {c : Char} {run cs cs' : List Char} {t : Token}

/-- A text goes on as it did or with a gap. -/
theorem Spaced.head (h : Spaced cs cs') : ∀ c ∈ cs'.head?, isGap c = true ∨ c ∈ cs.head? := by
  cases h with
  | nil => exact fun c hc => nomatch hc
  | put gap => rintro c ⟨⟩; exact .inl gap
  | gap gap => rintro c ⟨⟩; exact .inl gap
  | token => exact fun c hc => .inr hc

theorem continuesName_of_gap (h : isGap c = true) : continuesName c = false := by
  simp only [isGap, Bool.or_eq_true, decide_eq_true_eq] at h
  rcases h with rfl | rfl <;> decide

theorem Ends.of_head {p : Char → Bool} (hp : ∀ c, isGap c = true → p c = false) (h : Ends p cs)
    (hhead : ∀ c ∈ cs'.head?, isGap c = true ∨ c ∈ cs.head?) : Ends p cs' :=
  fun c hc => (hhead c hc).elim (hp c) (h c)

/-- A token stays one when a gap follows it: a run ends at a gap too. -/
theorem Starts.move (h : Starts (c :: (run ++ cs)) t cs)
    (hhead : ∀ c ∈ cs'.head?, isGap c = true ∨ c ∈ cs.head?) :
    Starts (c :: (run ++ cs')) t cs' := by
  generalize hall : c :: (run ++ cs) = all at h
  cases h with
  | symbol symbol =>
    obtain ⟨rfl, hrun⟩ := List.cons.inj hall
    obtain rfl := List.append_left_eq_self.1 hrun
    exact .symbol symbol
  | number first numerals ends value =>
    obtain ⟨rfl, hrun⟩ := List.cons.inj hall
    obtain rfl := List.append_cancel_right hrun
    exact .number first numerals (ends.of_head (fun c hc => (class_of_gap hc).1) hhead) value
  | name first letters ends =>
    obtain ⟨rfl, hrun⟩ := List.cons.inj hall
    obtain rfl := List.append_cancel_right hrun
    exact .name first letters (ends.of_head (fun c => continuesName_of_gap) hhead)

/-- Gaps around the tokens change no token. -/
theorem Spaced.lexes (h : Spaced cs cs') : ∃ ts, Lexes cs ts ∧ Lexes cs' ts := by
  induction h with
  | nil => exact ⟨[], .nil, .nil⟩
  | put gap _ ih =>
    obtain ⟨ts, hts, hts'⟩ := ih
    exact ⟨ts, hts, .gap gap hts'⟩
  | gap gap _ ih =>
    obtain ⟨ts, hts, hts'⟩ := ih
    exact ⟨ts, .gap gap hts, .gap gap hts'⟩
  | token first rest ih =>
    obtain ⟨ts, hts, hts'⟩ := ih
    exact ⟨_ :: ts, .token first hts, .token (first.move rest.head) hts'⟩

/-- A text that is cut into tokens is cut into the same ones, at some positions, when gaps are put
around them. -/
theorem tokens_of_spaced {s s' : String} {ts : List Placed} (h : Spaced s.toList s'.toList)
    (hts : tokens s = .ok ts) :
    ∃ ts', tokens s' = .ok ts' ∧ ts'.map Placed.token = ts.map Placed.token := by
  obtain ⟨us, hus, hus'⟩ := h.lexes
  obtain ⟨hlexes, hroom⟩ := lexes_of_tokensFrom hts
  obtain rfl := hlexes.unique hus
  exact tokensFrom_of_lexes hus' 0 (by rwa [List.length_map])

end Gaps

/-! ## Positions -/

/-- The fault without its position. -/
def Fault.unplaced : Fault → Fault
  | .invalidCharacter c _ => .invalidCharacter c 0
  | .unexpectedToken found _ => .unexpectedToken found 0
  | fault => fault

/-- The token without its position. -/
def Placed.unplaced (t : Placed) : Placed := ⟨t.token, 0⟩

/-- The second outcome is the first one without positions: related results, or the fault without its
position. -/
inductive Forgets {α β : Type} (R : α → β → Prop) : Except Fault α → Except Fault β → Prop
  | ok {a : α} {b : β} (related : R a b) : Forgets R (.ok a) (.ok b)
  | error (fault : Fault) : Forgets R (.error fault) (.error fault.unplaced)

/-- A reader and then another one on what it left. -/
theorem Forgets.bind {α β γ δ : Type} {R : α → β → Prop} {S : γ → δ → Prop}
    {x : Except Fault α} {y : Except Fault β} {f : α → Except Fault γ} {g : β → Except Fault δ}
    (h : Forgets R x y) (hf : ∀ a b, R a b → Forgets S (f a) (g b)) :
    Forgets S (x >>= f) (y >>= g) := by
  cases h with
  | ok related => exact hf _ _ related
  | error fault => exact .error fault

/-- The same result, or the same fault without its position. -/
theorem Forgets.eq {α : Type} {x y : Except Fault α} (h : Forgets (fun a b => b = a) x y) :
    y = x.mapError Fault.unplaced := by
  cases h with
  | ok related => exact congrArg Except.ok related
  | error fault => rfl

/-- The same tree, and the same tokens left. -/
def Parsed.Unplaced {ts us : List Placed} (p : Parsed ts) (q : Parsed us) : Prop :=
  q.tree = p.tree ∧ q.rest = p.rest.map Placed.unplaced

/-- The same of a reader of further operands. -/
def Further.Unplaced {ts us : List Placed} (p : Further ts) (q : Further us) : Prop :=
  q.1 = p.1 ∧ q.2.1 = p.2.1.map Placed.unplaced

section Readers

variable {ts us : List Placed}

theorem exists_of_map_unplaced {t : Token} {i : ℕ}
    (h : ts.map Placed.unplaced = ⟨t, i⟩ :: us) :
    ∃ j vs, ts = ⟨t, j⟩ :: vs ∧ us = vs.map Placed.unplaced := by
  obtain ⟨⟨_, j⟩, vs, rfl, ht, rfl⟩ := List.map_eq_cons_iff.1 h
  obtain ⟨rfl, -⟩ := Placed.mk.inj ht
  exact ⟨j, vs, rfl, rfl⟩

theorem unplaced_ne_op (h : ∀ o i us, ts ≠ ⟨.op o, i⟩ :: us) (o : BinaryOp) (i : ℕ)
    (us : List Placed) : ts.map Placed.unplaced ≠ ⟨.op o, i⟩ :: us := fun hmap =>
  have ⟨j, vs, hts, _⟩ := exists_of_map_unplaced hmap
  h o j vs hts

/-- A reader of a first operand and then one of the further operands. -/
theorem Forgets.chain {x : Except Fault (Parsed ts)} {y : Except Fault (Parsed us)}
    (tail : Expr → (vs : List Placed) → Except Fault (Further vs)) {α β : Type}
    {f : (p : Parsed ts) → Further p.rest → α} {g : (q : Parsed us) → Further q.rest → β}
    {R : α → β → Prop} (h : Forgets Parsed.Unplaced x y)
    (htail : ∀ p : Parsed ts, Forgets Further.Unplaced (tail p.tree p.rest)
      (tail p.tree (p.rest.map Placed.unplaced)))
    (hfg : ∀ p q a b, Further.Unplaced a b → R (f p a) (g q b)) :
    Forgets R (x >>= fun p => tail p.tree p.rest >>= fun a => pure (f p a))
      (y >>= fun q => tail q.tree q.rest >>= fun b => pure (g q b)) := by
  refine h.bind fun p q hpq => ?_
  obtain ⟨tree, rest, shorter⟩ := q
  obtain ⟨rfl, rfl⟩ := hpq
  exact (htail p).bind fun a b hab => .ok (hfg p ⟨p.tree, _, shorter⟩ a b hab)

/-- The readers do with tokens without positions what they do with the tokens: by induction on
their calls. -/
theorem forgets_readSum (k : ℕ) (ts : List Placed) :
    Forgets Parsed.Unplaced (readSum k ts) (readSum k (ts.map Placed.unplaced)) := by
  refine (readSum.mutual_induct
    (fun k ts => Forgets Parsed.Unplaced (readSum k ts) (readSum k (ts.map Placed.unplaced)))
    (fun k a ts => Forgets Further.Unplaced (readSumTail k a ts)
      (readSumTail k a (ts.map Placed.unplaced)))
    (fun k ts => Forgets Parsed.Unplaced (readProduct k ts)
      (readProduct k (ts.map Placed.unplaced)))
    (fun k a ts => Forgets Further.Unplaced (readProductTail k a ts)
      (readProductTail k a (ts.map Placed.unplaced)))
    (fun k ts => Forgets Parsed.Unplaced (readPower k ts) (readPower k (ts.map Placed.unplaced)))
    (fun k ts => Forgets Parsed.Unplaced (readOperand k ts)
      (readOperand k (ts.map Placed.unplaced)))
    ?sum ?sumOn ?sumOther ?sumStop ?product ?productOn ?productOther ?productStop ?power
    ?none ?number ?name ?minus ?minusDeep ?group ?groupDeep ?other).1 k ts
  case sum =>
    intro k ts hp ht
    rw [readSum, readSum]
    exact hp.chain (readSumTail k) ht fun _ _ _ _ h => h
  case sumOn =>
    intro k a o i us ho hp ht
    rw [List.map_cons, Placed.unplaced, readSumTail, readSumTail, if_pos ho, if_pos ho]
    exact hp.chain (fun b => readSumTail k (.binary o a b)) ht fun _ _ _ _ h => h
  case sumOther =>
    intro k a o i us ho
    rw [List.map_cons, Placed.unplaced, readSumTail, readSumTail, if_neg ho, if_neg ho]
    exact .ok ⟨rfl, rfl⟩
  case sumStop =>
    intro k a ts hts
    rw [readSumTail, readSumTail]
    · exact .ok ⟨rfl, rfl⟩
    · exact unplaced_ne_op hts
    · exact hts
  case product =>
    intro k ts hp ht
    rw [readProduct, readProduct]
    exact hp.chain (readProductTail k) ht fun _ _ _ _ h => h
  case productOn =>
    intro k a o i us ho hp ht
    rw [List.map_cons, Placed.unplaced, readProductTail, readProductTail, if_pos ho, if_pos ho]
    exact hp.chain (fun b => readProductTail k (.binary o a b)) ht fun _ _ _ _ h => h
  case productOther =>
    intro k a o i us ho
    rw [List.map_cons, Placed.unplaced, readProductTail, readProductTail, if_neg ho, if_neg ho]
    exact .ok ⟨rfl, rfl⟩
  case productStop =>
    intro k a ts hts
    rw [readProductTail, readProductTail]
    · exact .ok ⟨rfl, rfl⟩
    · exact unplaced_ne_op hts
    · exact hts
  case power =>
    intro k ts hp hexp
    rw [readPower, readPower]
    refine hp.bind fun p q hpq => ?_
    obtain ⟨tree', rest', hrest'⟩ := q
    obtain ⟨rfl, rfl⟩ := hpq
    obtain ⟨tree, rest, hrest⟩ := p
    rcases rest with _ | ⟨⟨token, i⟩, us⟩
    · exact .ok ⟨rfl, rfl⟩
    · cases token with
      | op o =>
        cases o with
        | pow =>
          have hexp := hexp ⟨tree, _, hrest⟩ i us rfl
          simp only [List.map_cons, Placed.unplaced]
          split_ifs
          · exact hexp.bind fun b b' hb => .ok ⟨congrArg (Expr.binary .pow tree) hb.1, hb.2⟩
          · exact .error .tooDeep
        | _ => exact .ok ⟨rfl, rfl⟩
      | _ => exact .ok ⟨rfl, rfl⟩
  case none =>
    intro k
    rw [List.map_nil, readOperand]
    exact .error .unexpectedEnd
  case number =>
    intro k x i us
    rw [List.map_cons, Placed.unplaced, readOperand, readOperand]
    exact .ok ⟨rfl, rfl⟩
  case name =>
    intro k x i us
    rw [List.map_cons, Placed.unplaced, readOperand, readOperand]
    exact .ok ⟨rfl, rfl⟩
  case minus =>
    intro k i us hk hp
    rw [List.map_cons, Placed.unplaced, readOperand, readOperand, if_pos hk, if_pos hk]
    exact hp.bind fun p q hpq => .ok ⟨congrArg Expr.neg hpq.1, hpq.2⟩
  case minusDeep =>
    intro k i us hk
    rw [List.map_cons, Placed.unplaced, readOperand, readOperand, if_neg hk, if_neg hk]
    exact .error .tooDeep
  case group =>
    intro k i us hk hs
    rw [List.map_cons, Placed.unplaced, readOperand, readOperand, if_pos hk, if_pos hk]
    refine hs.bind fun p q hpq => ?_
    obtain ⟨tree', rest', hrest'⟩ := q
    obtain ⟨rfl, rfl⟩ := hpq
    obtain ⟨tree, rest, hrest⟩ := p
    rcases rest with _ | ⟨⟨token, i⟩, us⟩
    · exact .error .unbalancedParens
    · cases token with
      | closing => exact .ok ⟨rfl, rfl⟩
      | _ => exact .error (.unexpectedToken _ i)
  case groupDeep =>
    intro k i us hk
    rw [List.map_cons, Placed.unplaced, readOperand, readOperand, if_neg hk, if_neg hk]
    exact .error .tooDeep
  case other =>
    intro k t us hnumber hname hminus hopening
    obtain ⟨token, i⟩ := t
    rw [List.map_cons, Placed.unplaced, readOperand, readOperand]
    · exact .error (.unexpectedToken token.text i)
    · rintro x j ⟨⟩; exact hnumber x i rfl
    · rintro x j ⟨⟩; exact hname x i rfl
    · rintro j ⟨⟩; exact hminus i rfl
    · rintro j ⟨⟩; exact hopening i rfl
    · exact hnumber
    · exact hname
    · exact hminus
    · exact hopening

/-- Of tokens without positions the same tree is read, or the same fault without its position. -/
theorem readAll_unplaced (ts : List Placed) :
    readAll (ts.map Placed.unplaced) = (readAll ts).mapError Fault.unplaced := by
  refine Forgets.eq ((forgets_readSum 0 ts).bind fun p q hpq => ?_)
  obtain ⟨tree', rest', hrest'⟩ := q
  obtain ⟨rfl, rfl⟩ := hpq
  obtain ⟨tree, rest, hrest⟩ := p
  rcases rest with _ | ⟨⟨token, i⟩, us⟩
  · exact .ok rfl
  · cases token with
    | closing => exact .error .unbalancedParens
    | _ => exact .error (.unexpectedToken _ i)

/-- The same tokens at other positions are read alike, up to the position in a fault. -/
theorem readAll_congr {ts us : List Placed} (h : us.map Placed.token = ts.map Placed.token) :
    (readAll us).mapError Fault.unplaced = (readAll ts).mapError Fault.unplaced := by
  have hmap : ∀ vs : List Placed,
      vs.map Placed.unplaced = (vs.map Placed.token).map (Placed.mk · 0) := fun vs => by
    rw [List.map_map]
    rfl
  rw [← readAll_unplaced, ← readAll_unplaced, hmap, hmap, h]

end Readers

/-! ## The whole text -/

/-- Gaps put around the tokens change nothing but the position in a fault. -/
theorem ofText?_of_spaced {s s' : String} (hts : (tokens s).isOk = true)
    (h : Spaced s.toList s'.toList) :
    (ofText? s').mapError Fault.unplaced = (ofText? s).mapError Fault.unplaced := by
  cases hs : tokens s with
  | error fault =>
    rw [hs] at hts
    cases hts
  | ok ts =>
    obtain ⟨us, hs', htokens⟩ := tokens_of_spaced h hs
    have hread := readAll_congr htokens
    unfold ofText? parse
    rw [hs, hs']
    cases ts with
    | nil =>
      obtain rfl := List.map_eq_nil_iff.1 htokens
      rfl
    | cons t ts =>
      obtain ⟨u, us, rfl, -, -⟩ := List.map_eq_cons_iff.1 htokens
      have hformula : ∀ x : Except Fault Expr,
          ((x >>= fun e => pure (some e)).map Formula.mk).mapError Fault.unplaced =
            (x.mapError Fault.unplaced).map fun e => Formula.mk (some e) := by
        rintro (fault | e) <;> rfl
      exact (hformula _).trans ((congrArg _ hread).trans (hformula _).symm)

/-- **Layout and letter case carry no meaning.** Texts that differ in letter case only are read
alike, their faults and the positions included. Gaps put around the tokens of a text give the same
formula, or the same fault up to its position. -/
theorem layout_and_case_unseen :
    (∀ s s' : String, s.toList.map Char.toLower = s'.toList.map Char.toLower →
      ofText? s' = ofText? s) ∧
    ∀ s s' : String, (tokens s).isOk = true → Spaced s.toList s'.toList →
      (ofText? s').mapError Fault.unplaced = (ofText? s).mapError Fault.unplaced := by
  refine ⟨fun s s' h => ?_, fun s s' => ofText?_of_spaced⟩
  unfold ofText? parse
  rw [tokens_of_toLower h]

/-- Letters of the other case after a number that is none, and gaps around a token that cannot stand
where it does. -/
theorem layout_and_case_of_mistakes :
    ofText? "MAX + 1.2.3" = ofText? "max + 1.2.3" ∧
      ofText? "max + 1.2.3" = .error (.invalidNumber "1.2.3") ∧
      ofText? "max*)" = .error (.unexpectedToken ")" 4) ∧
      (ofText? "\tmax * )").mapError Fault.unplaced = .error (.unexpectedToken ")" 0) := by
  obtain ⟨hcase, hlayout⟩ := layout_and_case_unseen
  have hplain : ofText? "max*)" = .error (.unexpectedToken ")" 4) := by decide +kernel
  have hletters : ∀ c ∈ ['a', 'x'], continuesName c = true := List.all_eq_true.1 (by decide)
  have hends : Ends continuesName ['*', ')'] := by rintro c ⟨⟩; rfl
  have hname : Spaced ['m', 'a', 'x', '*', ')'] ['m', 'a', 'x', ' ', '*', ' ', ')'] :=
    @Spaced.token 'm' ['a', 'x'] _ _ _ (.name (by decide) hletters hends) (.put rfl
      (@Spaced.token '*' [] _ _ _ (.symbol rfl) (.put rfl
        (@Spaced.token ')' [] _ _ _ (.symbol rfl) .nil))))
  have hs : "max*)".toList = ['m', 'a', 'x', '*', ')'] := by decide +kernel
  have hs' : "\tmax * )".toList = ['\t', 'm', 'a', 'x', ' ', '*', ' ', ')'] := by decide +kernel
  have hspaced : Spaced "max*)".toList "\tmax * )".toList := by
    rw [hs, hs']
    exact .put rfl hname
  refine ⟨hcase _ _ (by decide +kernel), by decide +kernel, hplain, ?_⟩
  rw [hlayout _ _ (by decide +kernel) hspaced, hplain]
  rfl

end ItemBudget.Formula
