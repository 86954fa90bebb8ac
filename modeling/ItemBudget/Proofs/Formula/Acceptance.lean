import ItemBudget.Formula.Basic
import ItemBudget.Proofs.Formula.Lexing
import ItemBudget.Proofs.Formula.Reading

/-!
# Which texts are formulas

A text is read as a tree when its tokens are a sum with that tree, not too many and not too deeply
nested (`ofText?_some_iff`), and as the empty formula when it has no tokens (`ofText?_none_iff`).
-/

namespace ItemBudget.Formula

theorem readAll_iff {ps : List Placed} {e : Expr} :
    readAll ps = .ok e ↔ ∃ d, d ≤ maxDepth ∧ Derives .sum d (ps.map Placed.token) e := by
  have hwhole := @reads_whole_iff .sum 0 ps e (Nat.zero_le maxDepth)
  simp only [Nat.zero_add] at hwhole
  rw [← hwhole]
  constructor
  · intro h
    obtain ⟨⟨a, r, hr⟩, hp, h⟩ := bind_eq_ok.1 h
    simp only at h
    split at h
    · cases h
      exact ⟨hr, hp⟩
    · cases h
    · cases h
  · rintro ⟨hr, hp⟩
    exact bind_eq_ok.2 ⟨_, hp, rfl⟩

theorem tokens_iff {source : String} {ts : List Token} :
    (tokens source).map (List.map Placed.token) = .ok ts ↔
      Lexes source.toList ts ∧ ts.length ≤ maxTokens :=
  tokensFrom_iff

/-- A text has a tree when its tokens have it. -/
theorem ofText?_some_iff {source : String} {e : Expr} :
    ofText? source = .ok ⟨some e⟩ ↔ ∃ ts d, Lexes source.toList ts ∧ 1 ≤ ts.length ∧
      ts.length ≤ maxTokens ∧ d ≤ maxDepth ∧ Derives .sum d ts e := by
  constructor
  · intro h
    obtain ⟨t, h, ht⟩ := map_eq_ok.1 h
    cases ht
    obtain ⟨ps, hps, h⟩ := bind_eq_ok.1 h
    split at h
    · cases h
    · next hne =>
      obtain ⟨e, he, h⟩ := bind_eq_ok.1 h
      cases h
      obtain ⟨hl, hlen⟩ := tokens_iff.1 (map_eq_ok.2 ⟨ps, hps, rfl⟩)
      obtain ⟨d, hd, hder⟩ := readAll_iff.1 he
      refine ⟨_, d, hl, ?_, hlen, hd, hder⟩
      rw [List.length_map]
      exact List.length_pos_iff.2 hne
  · rintro ⟨ts, d, hl, hpos, hlen, hd, hder⟩
    obtain ⟨ps, hps, rfl⟩ := map_eq_ok.1 (tokens_iff.2 ⟨hl, hlen⟩)
    refine map_eq_ok.2 ⟨some e, bind_eq_ok.2 ⟨ps, hps, ?_⟩, rfl⟩
    split
    · exact absurd hpos (by decide)
    · exact bind_eq_ok.2 ⟨e, readAll_iff.2 ⟨d, hd, hder⟩, rfl⟩

/-- A text has no tree when it has no tokens. -/
theorem ofText?_none_iff {source : String} :
    ofText? source = .ok ⟨none⟩ ↔ Lexes source.toList [] := by
  constructor
  · intro h
    obtain ⟨t, h, ht⟩ := map_eq_ok.1 h
    cases ht
    obtain ⟨ps, hps, h⟩ := bind_eq_ok.1 h
    split at h
    · exact (tokens_iff.1 (map_eq_ok.2 ⟨[], hps, rfl⟩)).1
    · obtain ⟨e, -, h⟩ := bind_eq_ok.1 h
      cases h
  · intro h
    obtain ⟨ps, hps, hnil⟩ := map_eq_ok.1 (tokens_iff.2 ⟨h, Nat.zero_le _⟩)
    obtain rfl := List.map_eq_nil_iff.1 hnil
    exact map_eq_ok.2 ⟨none, bind_eq_ok.2 ⟨[], hps, rfl⟩, rfl⟩

/-- **The readable texts are those of the grammar.** -/
theorem accepts_iff_derives (source : String) :
    (∀ e, ofText? source = .ok ⟨some e⟩ ↔ ∃ ts d, Lexes source.toList ts ∧ 1 ≤ ts.length ∧
      ts.length ≤ maxTokens ∧ d ≤ maxDepth ∧ Derives .sum d ts e) ∧
    (ofText? source = .ok ⟨none⟩ ↔ ∀ c ∈ source.toList, c = ' ' ∨ c = '\t') := by
  refine ⟨fun e => ofText?_some_iff, ?_⟩
  rw [ofText?_none_iff, lexes_nil_iff]
  simp only [isGap, Bool.or_eq_true, decide_eq_true_eq]

end ItemBudget.Formula
