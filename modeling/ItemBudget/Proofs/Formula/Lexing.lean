import ItemBudget.Formula.Token
import ItemBudget.Proofs.Outcome
import Mathlib

/-!
# What the tokens of a text are

`Starts` says which token stands at the front of a text and what follows it: a symbol, or a number
or name as long as the text allows. `Lexes` cuts a whole text into tokens. The reader finds these
tokens and no others, and it refuses a text only for a character, for a number, or for having more
tokens than there is room for: `tokensFrom_iff`.
-/

namespace ItemBudget.Formula

/-! ## The tokens of a text -/

/-- A text does not go on with a class of characters. -/
def Ends (p : Char → Bool) (cs : List Char) : Prop := ∀ c ∈ cs.head?, p c = false

/-- A token at the front of a text, and what follows it. -/
inductive Starts : List Char → Token → List Char → Prop
  | symbol {c : Char} {t : Token} {cs : List Char} (symbol : Token.ofSymbol? c = some t) :
    Starts (c :: cs) t cs
  | number {c : Char} {run cs : List Char} {x : Float} (first : isNumeral c = true)
    (numerals : ∀ c ∈ run, isNumeral c = true) (ends : Ends isNumeral cs)
    (value : readLiteral? (c :: run) = some x) : Starts (c :: (run ++ cs)) (.number x) cs
  | name {c : Char} {run cs : List Char} (first : startsName c = true)
    (letters : ∀ c ∈ run, continuesName c = true) (ends : Ends continuesName cs) :
    Starts (c :: (run ++ cs)) (.name (String.ofList ((c :: run).map Char.toLower))) cs

/-- A text cut into its tokens, with gaps around them. -/
inductive Lexes : List Char → List Token → Prop
  | nil : Lexes [] []
  | gap {c : Char} {cs : List Char} {ts : List Token} (gap : isGap c = true) (rest : Lexes cs ts) :
    Lexes (c :: cs) ts
  | token {cs rest : List Char} {t : Token} {ts : List Token} (first : Starts cs t rest)
    (rest : Lexes rest ts) : Lexes cs (t :: ts)

/-! ## Character classes -/

section Classes

variable {c : Char}

theorem class_of_symbol {t : Token} (h : Token.ofSymbol? c = some t) :
    isGap c = false ∧ isNumeral c = false ∧ startsName c = false := by
  unfold Token.ofSymbol? at h
  split at h <;> first | decide | cases h

theorem symbol_of_class (h : isNumeral c = true ∨ startsName c = true) :
    Token.ofSymbol? c = none := by
  rw [Option.eq_none_iff_forall_ne_some]
  intro t ht
  obtain ⟨-, hn, ha⟩ := class_of_symbol ht
  rw [hn, ha] at h
  exact h.elim Bool.false_ne_true Bool.false_ne_true

theorem class_of_gap (h : isGap c = true) :
    isNumeral c = false ∧ startsName c = false ∧ Token.ofSymbol? c = none := by
  simp only [isGap, Bool.or_eq_true, decide_eq_true_eq] at h
  rcases h with rfl | rfl <;> decide

theorem startsName_of_numeral (h : isNumeral c = true) : startsName c = false := by
  simp only [isNumeral, Bool.or_eq_true, decide_eq_true_eq] at h
  rcases h with h | rfl
  · have hne : c ≠ '_' := by rintro rfl; cases h
    simp only [Char.isDigit, ge_iff_le, Bool.and_eq_true, decide_eq_true_eq] at h
    have h9 : c.val.toNat ≤ 57 := UInt32.le_iff_toNat_le.1 h.2
    simp only [startsName, Char.isAlpha, Char.isUpper, Char.isLower, ge_iff_le, hne,
      decide_false, Bool.or_false, Bool.or_eq_false_iff, Bool.and_eq_false_iff,
      decide_eq_false_iff_not, UInt32.le_iff_toNat_le]
    exact ⟨fun h => absurd (le_trans h.1 h9) (by decide),
      .inl fun h => absurd (le_trans h h9) (by decide)⟩
  · decide

theorem continuesName_of_startsName (h : startsName c = true) : continuesName c = true := by
  simp only [startsName, continuesName, Char.isAlphanum, Bool.or_eq_true] at h ⊢
  rcases h with h | h
  · exact .inl (.inl h)
  · exact .inr h

end Classes

/-! ## Runs -/

section Runs

variable {p : Char → Bool} {run cs : List Char}

theorem ends_nil (p : Char → Bool) : Ends p [] := fun _ h => nomatch h

theorem ends_dropWhile (p : Char → Bool) (cs : List Char) : Ends p (cs.dropWhile p) := by
  intro c hc
  have := List.head?_dropWhile_not p cs
  rw [Option.mem_def] at hc
  rw [hc] at this
  simpa using this

theorem takeWhile_run (hrun : ∀ c ∈ run, p c = true) (hends : Ends p cs) :
    (run ++ cs).takeWhile p = run := by
  rw [List.takeWhile_append_of_pos hrun]
  cases cs with
  | nil => rw [List.takeWhile_nil, List.append_nil]
  | cons c cs =>
    rw [List.takeWhile_cons_of_neg (Bool.eq_false_iff.1 (hends c rfl)), List.append_nil]

theorem dropWhile_run (hrun : ∀ c ∈ run, p c = true) (hends : Ends p cs) :
    (run ++ cs).dropWhile p = cs := by
  rw [List.dropWhile_append_of_pos hrun]
  cases cs with
  | nil => rfl
  | cons c cs => rw [List.dropWhile_cons_of_neg (Bool.eq_false_iff.1 (hends c rfl))]

end Runs

/-! ## One token -/

/-- The reader of one token finds a token that starts the text. -/
theorem starts_of_lexeme {pos : Nat} {c : Char} {cs : List Char} {l : Lexeme (c :: cs)}
    (h : lexeme pos c cs = .ok l) : Starts (c :: cs) l.token l.rest := by
  unfold lexeme at h
  split at h
  · next t ht =>
    cases h
    exact .symbol ht
  · split_ifs at h with hn ha
    · simp only [List.takeWhile_cons_of_pos hn] at h
      split at h
      · next x hx =>
        cases h
        have hs := Starts.number hn (fun _ => List.mem_takeWhile_imp) (ends_dropWhile _ cs) hx
        rwa [List.takeWhile_append_dropWhile, ← List.dropWhile_cons_of_pos hn] at hs
      · cases h
    · cases h
      have hc := continuesName_of_startsName ha
      have hs := @Starts.name c (cs.takeWhile continuesName) _ ha
        (fun _ => List.mem_takeWhile_imp) (ends_dropWhile continuesName cs)
      rwa [List.takeWhile_append_dropWhile, ← List.dropWhile_cons_of_pos hc,
        ← List.takeWhile_cons_of_pos hc] at hs

/-- The token that starts a text is the one that the reader finds. -/
theorem lexeme_of_starts {c : Char} {cs rest : List Char} {t : Token}
    (h : Starts (c :: cs) t rest) (pos : Nat) :
    ∃ hs, lexeme pos c cs = .ok ⟨t, rest, hs⟩ := by
  unfold lexeme
  cases h with
  | symbol symbol => exact ⟨Nat.lt_succ_self _, by rw [symbol]⟩
  | number first numerals ends value =>
    rename_i run x
    have hs : Token.ofSymbol? c = none := symbol_of_class (.inl first)
    have ht : (c :: (run ++ rest)).takeWhile isNumeral = c :: run := by
      rw [List.takeWhile_cons_of_pos first, takeWhile_run numerals ends]
    have hd : (c :: (run ++ rest)).dropWhile isNumeral = rest := by
      rw [List.dropWhile_cons_of_pos first, dropWhile_run numerals ends]
    refine ⟨?_, ?_⟩
    · rw [List.length_cons, List.length_append]; omega
    · simp only [hs, dif_pos first, ht, hd, value]
  | name first letters ends =>
    rename_i run
    have hs : Token.ofSymbol? c = none := symbol_of_class (.inr first)
    have hn : isNumeral c ≠ true := fun h => by
      rw [startsName_of_numeral h] at first; cases first
    have hc := continuesName_of_startsName first
    have ht : (c :: (run ++ rest)).takeWhile continuesName = c :: run := by
      rw [List.takeWhile_cons_of_pos hc, takeWhile_run letters ends]
    have hd : (c :: (run ++ rest)).dropWhile continuesName = rest := by
      rw [List.dropWhile_cons_of_pos hc, dropWhile_run letters ends]
    refine ⟨?_, ?_⟩
    · rw [List.length_cons, List.length_append]; omega
    · simp only [hs, dif_neg hn, dif_pos first, ht, hd]

theorem Starts.exists_cons {cs rest : List Char} {t : Token} (h : Starts cs t rest) :
    ∃ c cs', cs = c :: cs' := by
  cases h <;> exact ⟨_, _, rfl⟩

/-- A gap starts no token. -/
theorem gap_of_starts {c : Char} {cs rest : List Char} {t : Token}
    (h : Starts (c :: cs) t rest) : isGap c = false := by
  rw [Bool.eq_false_iff]
  intro hg
  obtain ⟨hn, ha, hs⟩ := class_of_gap hg
  cases h with
  | symbol symbol => rw [hs] at symbol; cases symbol
  | number first => rw [hn] at first; cases first
  | name first => rw [ha] at first; cases first

/-! ## The whole text -/

/-- What the reader gives is the text cut into tokens, no more than there is room for. -/
theorem lexes_of_tokensFrom {pos room : Nat} {cs : List Char} {ps : List Placed}
    (h : tokensFrom pos room cs = .ok ps) :
    Lexes cs (ps.map Placed.token) ∧ ps.length ≤ room := by
  induction pos, room, cs using tokensFrom.induct generalizing ps with
  | case1 pos room =>
    rw [tokensFrom] at h
    cases h
    exact ⟨.nil, Nat.zero_le room⟩
  | case2 pos room c cs hgap ih =>
    rw [tokensFrom, if_pos hgap] at h
    obtain ⟨hl, hlen⟩ := ih h
    exact ⟨.gap hgap hl, hlen⟩
  | case3 pos room c cs hgap ih =>
    rw [tokensFrom, if_neg hgap] at h
    obtain ⟨l, hl, h⟩ := bind_eq_ok.1 h
    cases room with
    | zero => cases h
    | succ room =>
      obtain ⟨qs, hqs, h⟩ := bind_eq_ok.1 h
      cases h
      obtain ⟨hlex, hlen⟩ := ih l room hqs
      exact ⟨.token (starts_of_lexeme hl) hlex, Nat.succ_le_succ hlen⟩

/-- A text that can be cut into tokens for which there is room is read as these tokens. -/
theorem tokensFrom_of_lexes {cs : List Char} {ts : List Token} (h : Lexes cs ts) :
    ∀ (pos : Nat) {room : Nat}, ts.length ≤ room →
      ∃ ps, tokensFrom pos room cs = .ok ps ∧ ps.map Placed.token = ts := by
  induction h with
  | nil =>
    intro pos room _
    exact ⟨[], by rw [tokensFrom], rfl⟩
  | gap gap _ ih =>
    intro pos room hroom
    obtain ⟨ps, hps, hts⟩ := ih (pos + 1) hroom
    exact ⟨ps, by rw [tokensFrom, if_pos gap, hps], hts⟩
  | @token cs rest t ts first _ ih =>
    intro pos room hroom
    obtain ⟨c, cs, rfl⟩ := first.exists_cons
    obtain ⟨room, rfl⟩ := Nat.exists_eq_succ_of_ne_zero (Nat.ne_zero_of_lt hroom)
    obtain ⟨hs, hl⟩ := lexeme_of_starts first pos
    obtain ⟨ps, hps, hts⟩ :=
      ih (pos + (cs.length + 1 - rest.length)) (Nat.le_of_succ_le_succ hroom)
    refine ⟨⟨t, pos⟩ :: ps, ?_, by rw [List.map_cons, hts]⟩
    rw [tokensFrom, if_neg (Bool.eq_false_iff.1 (gap_of_starts first)), hl]
    exact bind_eq_ok.2 ⟨_, rfl, bind_eq_ok.2 ⟨ps, hps, rfl⟩⟩

/-- **The tokens that are read are the tokens of the text**, and reading them needs no more than
the room for them. -/
theorem tokensFrom_iff {pos room : Nat} {cs : List Char} {ts : List Token} :
    (tokensFrom pos room cs).map (List.map Placed.token) = .ok ts ↔
      Lexes cs ts ∧ ts.length ≤ room := by
  rw [map_eq_ok]
  constructor
  · rintro ⟨ps, hps, rfl⟩
    rw [List.length_map]
    exact lexes_of_tokensFrom hps
  · rintro ⟨hl, hlen⟩
    exact tokensFrom_of_lexes hl pos hlen

/-- A text is cut into tokens in one way. -/
theorem Lexes.unique {cs : List Char} {ts us : List Token} (h : Lexes cs ts) (h' : Lexes cs us) :
    ts = us := by
  have ht := (@tokensFrom_iff 0).2 ⟨h, Nat.le_max_left ts.length us.length⟩
  have hu := (@tokensFrom_iff 0).2 ⟨h', Nat.le_max_right ts.length us.length⟩
  rw [ht] at hu
  exact Except.ok.inj hu

/-- A text of digits and points is a number when it has a value. -/
theorem lexes_numerals {run : List Char} {x : Float} (hne : run ≠ [])
    (hrun : ∀ c ∈ run, isNumeral c = true) (hx : readLiteral? run = some x) :
    Lexes run [.number x] := by
  obtain ⟨c, run, rfl⟩ := List.exists_cons_of_ne_nil hne
  obtain ⟨hc, hrun⟩ := List.forall_mem_cons.1 hrun
  have hs := Starts.number hc hrun (ends_nil _) hx
  rw [List.append_nil] at hs
  exact .token hs .nil

/-- A text without tokens is gaps only. -/
theorem lexes_nil_iff {cs : List Char} : Lexes cs [] ↔ ∀ c ∈ cs, isGap c = true := by
  constructor
  · intro h
    generalize hts : ([] : List Token) = ts at h
    induction h with
    | nil => exact fun c hc => nomatch hc
    | gap gap _ ih => exact List.forall_mem_cons.2 ⟨gap, ih hts⟩
    | token => cases hts
  · intro h
    induction cs with
    | nil => exact .nil
    | cons c cs ih =>
      obtain ⟨hc, hcs⟩ := List.forall_mem_cons.1 h
      exact .gap hc (ih hcs)

/-! ## Operators -/

section Operators

variable {o : BinaryOp}

theorem ofSymbol?_symbol (o : BinaryOp) : Token.ofSymbol? o.symbol = some (.op o) := by
  cases o <;> rfl

theorem eq_symbol_of_op {c : Char} (h : Token.ofSymbol? c = some (.op o)) : o.symbol = c := by
  unfold Token.ofSymbol? at h
  split at h <;> cases h <;> rfl

theorem class_of_operator (o : BinaryOp) :
    isGap o.symbol = false ∧ isNumeral o.symbol = false ∧ continuesName o.symbol = false := by
  cases o <;> decide

theorem not_mem_run {p : Char → Bool} {c : Char} {run : List Char} (hc : p c = false)
    (hrun : ∀ c ∈ run, p c = true) : c ∉ run := fun h => by
  rw [hrun c h] at hc
  cases hc

/-- An operator's character is a token of its own. -/
theorem Starts.symbol_mem_iff {cs rest : List Char} {t : Token} (h : Starts cs t rest) :
    o.symbol ∈ cs ↔ t = .op o ∨ o.symbol ∈ rest := by
  obtain ⟨-, hn, hc⟩ := class_of_operator o
  -- a number or a name takes a run of characters, and no operator's character is among them
  have past : ∀ {run : List Char}, o.symbol ∉ run →
      (o.symbol ∈ run ++ rest ↔ o.symbol ∈ rest) := by
    intro run hrun
    rw [List.mem_append, or_iff_right hrun]
  cases h with
  | @symbol c t _ symbol =>
    have hop : o.symbol = c ↔ t = .op o := by
      constructor
      · rintro rfl
        rw [ofSymbol?_symbol] at symbol
        exact (Option.some.inj symbol).symm
      · rintro rfl
        exact eq_symbol_of_op symbol
    rw [List.mem_cons, hop]
  | @number c run _ x first numerals _ _ =>
    rw [← List.cons_append, past (not_mem_run hn (List.forall_mem_cons.2 ⟨first, numerals⟩))]
    exact (or_iff_right nofun).symm
  | @name c run _ first letters _ =>
    have hfirst := continuesName_of_startsName first
    rw [← List.cons_append, past (not_mem_run hc (List.forall_mem_cons.2 ⟨hfirst, letters⟩))]
    exact (or_iff_right nofun).symm

/-- The operators among the tokens are those whose characters stand in the text. -/
theorem Lexes.op_mem_iff {cs : List Char} {ts : List Token} (h : Lexes cs ts) :
    .op o ∈ ts ↔ o.symbol ∈ cs := by
  induction h with
  | nil => simp
  | @gap c cs ts gap _ ih =>
    have hne : o.symbol ≠ c := by
      rintro rfl
      rw [(class_of_operator o).1] at gap
      cases gap
    rw [List.mem_cons, or_iff_right hne, ih]
  | token first _ ih => rw [first.symbol_mem_iff, List.mem_cons, ih, eq_comm]

end Operators

/-! ## Positions and faults -/

section Positions

variable {c : Char} {cs rest : List Char} {t : Token}

theorem utf8Size_of_le {d : Char} (h : c.val ≤ d.val) (hd : d.val ≤ 127) : c.utf8Size = 1 :=
  Char.utf8Size_eq_one_iff.2 (UInt32.le_trans h hd)

theorem utf8Size_of_isDigit (h : c.isDigit = true) : c.utf8Size = 1 := by
  simp only [Char.isDigit, ge_iff_le, Bool.and_eq_true, decide_eq_true_eq] at h
  exact utf8Size_of_le (d := '9') h.2 (by decide)

theorem utf8Size_of_isAlpha (h : c.isAlpha = true) : c.utf8Size = 1 := by
  simp only [Char.isAlpha, Char.isUpper, Char.isLower, ge_iff_le, Bool.or_eq_true,
    Bool.and_eq_true, decide_eq_true_eq] at h
  rcases h with h | h
  · exact utf8Size_of_le (d := 'Z') h.2 (by decide)
  · exact utf8Size_of_le (d := 'z') h.2 (by decide)

theorem utf8Size_of_numeral (h : isNumeral c = true) : c.utf8Size = 1 := by
  simp only [isNumeral, Bool.or_eq_true, decide_eq_true_eq] at h
  rcases h with h | rfl
  · exact utf8Size_of_isDigit h
  · rfl

theorem utf8Size_of_continuesName (h : continuesName c = true) : c.utf8Size = 1 := by
  simp only [continuesName, Char.isAlphanum, Bool.or_eq_true, decide_eq_true_eq] at h
  rcases h with (h | h) | rfl
  · exact utf8Size_of_isAlpha h
  · exact utf8Size_of_isDigit h
  · rfl

theorem utf8Size_of_symbol (h : Token.ofSymbol? c = some t) : c.utf8Size = 1 := by
  unfold Token.ofSymbol? at h
  split at h <;> first | rfl | cases h

theorem utf8Size_of_gap (h : isGap c = true) : c.utf8Size = 1 := by
  simp only [isGap, Bool.or_eq_true, decide_eq_true_eq] at h
  rcases h with rfl | rfl <;> rfl

theorem utf8Len_eq_length (h : ∀ c ∈ cs, c.utf8Size = 1) : String.utf8Len cs = cs.length := by
  induction cs with
  | nil => rfl
  | cons c cs ih =>
    obtain ⟨hc, hcs⟩ := List.forall_mem_cons.1 h
    rw [String.utf8Len_cons, ih hcs, hc, List.length_cons]

/-- A token takes one byte for each of its characters. -/
theorem Starts.exists_run (h : Starts cs t rest) :
    ∃ run, cs = run ++ rest ∧ String.utf8Len run = cs.length - rest.length := by
  have width : ∀ run : List Char, (∀ c ∈ run, c.utf8Size = 1) →
      String.utf8Len run = (run ++ rest).length - rest.length := by
    intro run hrun
    rw [utf8Len_eq_length hrun, List.length_append, Nat.add_sub_cancel]
  cases h with
  | symbol symbol =>
    exact ⟨[_], rfl, width _ (List.forall_mem_singleton.2 (utf8Size_of_symbol symbol))⟩
  | number first numerals _ _ =>
    refine ⟨_ :: _, rfl, width _ (List.forall_mem_cons.2 ⟨utf8Size_of_numeral first, ?_⟩)⟩
    exact fun c hc => utf8Size_of_numeral (numerals c hc)
  | name first letters _ =>
    have hfirst := utf8Size_of_continuesName (continuesName_of_startsName first)
    refine ⟨_ :: _, rfl, width _ (List.forall_mem_cons.2 ⟨hfirst, ?_⟩)⟩
    exact fun c hc => utf8Size_of_continuesName (letters c hc)

/-- The token stands in the text where its position says. -/
def StandsIn (cs : List Char) (t : Placed) : Prop :=
  ∃ before rest after, cs = before ++ rest ∧ String.utf8Len before = t.pos ∧
    Starts rest t.token after

/-- Positions are byte offsets. -/
theorem standsIn_of_tokensFrom {pos room : Nat} {ps : List Placed}
    (h : tokensFrom pos room cs = .ok ps) {before : List Char}
    (hpos : String.utf8Len before = pos) : ∀ t ∈ ps, StandsIn (before ++ cs) t := by
  induction pos, room, cs using tokensFrom.induct generalizing ps before with
  | case1 pos room =>
    rw [tokensFrom] at h
    cases h
    exact fun t ht => nomatch ht
  | case2 pos room c cs hgap ih =>
    rw [tokensFrom, if_pos hgap] at h
    have hgaps : String.utf8Len (before ++ [c]) = pos + 1 := by
      simp [hpos, utf8Size_of_gap hgap]
    have := ih h hgaps
    rwa [List.append_assoc] at this
  | case3 pos room c cs hgap ih =>
    rw [tokensFrom, if_neg hgap] at h
    obtain ⟨l, hl, h⟩ := bind_eq_ok.1 h
    cases room with
    | zero => cases h
    | succ room =>
      obtain ⟨qs, hqs, h⟩ := bind_eq_ok.1 h
      cases h
      have hstarts := starts_of_lexeme hl
      obtain ⟨run, hrun, hwidth⟩ := hstarts.exists_run
      have hnext : String.utf8Len (before ++ run) = pos + (cs.length + 1 - l.rest.length) := by
        rw [String.utf8Len_append, hpos, hwidth, List.length_cons]
      have hrest := ih l room hqs hnext
      rw [List.append_assoc, ← hrun] at hrest
      exact List.forall_mem_cons.2 ⟨⟨before, _, _, rfl, hpos, hstarts⟩, hrest⟩

theorem lexeme_eq_error {pos : Nat} {fault : Fault} (h : lexeme pos c cs = .error fault) :
    (∃ c i, fault = .invalidCharacter c i) ∨ ∃ literal, fault = .invalidNumber literal := by
  unfold lexeme at h
  split at h
  · cases h
  · split_ifs at h
    · simp only at h
      split at h
      · cases h
      · cases h
        exact .inr ⟨_, rfl⟩
    · cases h
      exact .inl ⟨_, _, rfl⟩

/-- Cutting a text into tokens fails at a character, at a number or for the number of tokens. -/
theorem tokensFrom_eq_error {pos room : Nat} {fault : Fault}
    (h : tokensFrom pos room cs = .error fault) :
    (∃ c i, fault = .invalidCharacter c i) ∨ (∃ literal, fault = .invalidNumber literal) ∨
      fault = .tooLong := by
  induction pos, room, cs using tokensFrom.induct with
  | case1 pos room =>
    rw [tokensFrom] at h
    cases h
  | case2 pos room c cs hgap ih =>
    rw [tokensFrom, if_pos hgap] at h
    exact ih h
  | case3 pos room c cs hgap ih =>
    rw [tokensFrom, if_neg hgap] at h
    rcases bind_eq_error.1 h with hl | ⟨l, -, h⟩
    · rcases lexeme_eq_error hl with hc | hn
      · exact .inl hc
      · exact .inr (.inl hn)
    · cases room with
      | zero =>
        cases h
        exact .inr (.inr rfl)
      | succ room =>
        rcases bind_eq_error.1 h with hqs | ⟨qs, -, h⟩
        · exact ih l room hqs
        · cases h

end Positions

end ItemBudget.Formula
