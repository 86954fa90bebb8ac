import ItemBudget.Proofs.Formula.Normal

/-!
# The limits of a written form

A formula's text may be any text of its tree, with parentheses that nothing asks for and numbers
that are too great for a double. The written form has no more tokens than the text that was read,
and wherever the tokens of that text are read with some nesting levels to open, those of the written
form are read with as many (`text_within_limits`). So a formula that was read is never refused for
the length or the nesting of its written form.
-/

namespace ItemBudget.Formula

variable {source : String} {e : Expr} {n : ℕ} {ps : List Placed}

/-- The tokens are read whole with no more than this many nesting levels to open. -/
def ReadsWithin (n : ℕ) (ps : List Placed) : Prop := ∃ e, Reads .sum (maxDepth - n) ps e []

theorem readsWithin_iff (hn : n ≤ maxDepth) :
    ReadsWithin n ps ↔ ∃ e d, d ≤ n ∧ Derives .sum d (ps.map Placed.token) e := by
  unfold ReadsWithin
  simp only [reads_whole_iff (Nat.sub_le maxDepth n)]
  constructor
  · rintro ⟨e, d, hd, h⟩
    exact ⟨e, d, by omega, h⟩
  · rintro ⟨e, d, hd, h⟩
    exact ⟨e, d, by omega, h⟩

/-- Tokens have one tree. -/
theorem tree_unique {e' : Expr} {d : ℕ} (h : readAll ps = .ok e) (hd : d ≤ maxDepth)
    (h' : Derives .sum d (ps.map Placed.token) e') : e' = e := by
  have hread : readAll ps = .ok e' := readAll_iff.2 ⟨d, hd, h'⟩
  exact Except.ok.inj (hread.symm.trans h)

/-- The text of a tree that was read is cut into the tokens of the tree that it is read as. -/
theorem tokens_text (h : e.Readable) (hlen : e.tokens.length ≤ maxTokens) :
    ∃ qs, tokens e.text = .ok qs ∧ qs.map Placed.token = e.respelled.tokens := by
  rw [← map_eq_ok, ← text_respelled]
  refine tokens_iff.2 ⟨lexes_text (writable_respelled h), ?_⟩
  rwa [length_tokens_respelled]

/-- Tokens of a tree leave room for those of its written form. -/
theorem ReadsWithin.respelled {qs : List Placed} (hn : n ≤ maxDepth) (h : ReadsWithin n ps)
    (hread : readAll ps = .ok e) (hqs : qs.map Placed.token = e.respelled.tokens) :
    ReadsWithin n qs := by
  obtain ⟨e', d, hd, hder⟩ := (readsWithin_iff hn).1 h
  obtain rfl := tree_unique hread (hd.trans hn) hder
  have hnesting : e'.respelled.nesting ≤ n := by
    rw [nesting_respelled]
    exact (Nat.le_add_right _ _).trans (hder.fits.2.trans hd)
  refine (readsWithin_iff hn).2 ⟨e'.respelled, e'.respelled.nesting, hnesting, ?_⟩
  rw [hqs]
  exact (derives_tokens e'.respelled).weaken (by cases e'.respelled.phrase <;> decide)

/-- **The written form stays within the limits.** It is cut into no more tokens than the text, it is
read with as few nesting levels to open, and so it is never refused. -/
theorem text_within_limits (h : ofText? source = .ok ⟨some e⟩) :
    ∃ ps qs, tokens source = .ok ps ∧ tokens e.text = .ok qs ∧ qs.length ≤ ps.length ∧
      (∀ n ≤ maxDepth, ReadsWithin n ps → ReadsWithin n qs) ∧
      ∀ fault, ofText? e.text ≠ .error fault := by
  obtain ⟨t, hparse, ht⟩ := map_eq_ok.1 h
  cases ht
  obtain ⟨ps, hps, hparse⟩ := bind_eq_ok.1 hparse
  split at hparse
  · cases hparse
  obtain ⟨e, hread, he⟩ := bind_eq_ok.1 hparse
  cases he
  obtain ⟨d, -, hder⟩ := readAll_iff.1 hread
  have hlen : e.tokens.length ≤ ps.length := by
    have hfits := hder.fits.1
    rw [length_wrapped, List.length_map] at hfits
    exact (Nat.le_add_right _ _).trans hfits
  have hroom : ps.length ≤ maxTokens := (lexes_of_tokensFrom hps).2
  obtain ⟨qs, hqs, htokens⟩ := tokens_text (readable_of_ofText? h) (hlen.trans hroom)
  refine ⟨ps, qs, hps, hqs, ?_, fun n hn hn' => hn'.respelled hn hread htokens, fun fault => ?_⟩
  · rwa [← List.length_map (f := Placed.token), htokens, length_tokens_respelled]
  · have hagain : ofText? e.text = .ok ⟨some e.respelled⟩ := @ofText?_text_eq source ⟨some e⟩ h
    rw [hagain]
    exact nofun

/-- As many signs as there are nesting levels, before a group that nothing asks for. -/
theorem signs_within_limits :
    let source := String.ofList (List.replicate 63 '-' ++ "(min)".toList)
    let e := Expr.neg^[63] (.var "min")
    ofText? source = .ok ⟨some e⟩ ∧ ∃ ps qs, tokens source = .ok ps ∧ ps.length = 66 ∧
      tokens e.text = .ok qs ∧ qs.length ≤ ps.length ∧ (ReadsWithin 63 ps → ReadsWithin 63 qs) := by
  intro source e
  have hread : ofText? source = .ok ⟨some e⟩ := by decide +kernel
  obtain ⟨ps, qs, hps, hqs, hlen, hwithin, -⟩ := text_within_limits hread
  have hlength : (tokens source).map List.length = .ok 66 := by decide +kernel
  rw [hps] at hlength
  exact ⟨hread, ps, qs, hps, Except.ok.inj hlength, hqs, hlen, hwithin 63 (by decide)⟩

end ItemBudget.Formula
