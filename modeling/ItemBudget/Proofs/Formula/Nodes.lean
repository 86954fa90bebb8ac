import ItemBudget.Proofs.Formula.Acceptance
import ItemBudget.Proofs.Formula.Evaluation

/-!
# Nodes and tokens

A tree is gone through from left to right, each operator between its operands. What stands at its
nodes are then the tokens that it was read from, less the parentheses (`Derives.map_root_nodes`). So
the leaves are the numbers and names of the text, every operator of the text has one inner node, and
variables and faults of an evaluation come in the order of the text (`tree_mirrors_tokens`).
-/

namespace ItemBudget.Formula

/-! ## Nodes -/

namespace Expr

/-- A number or a variable. -/
def isLeaf : Expr → Bool
  | number _ | var _ => true
  | neg _ | binary _ _ _ => false

/-- The nodes of a tree from left to right: a sign before its operand, an operator between its
operands. -/
def nodes : Expr → List Expr
  | number x => [number x]
  | var n => [var n]
  | neg e => neg e :: e.nodes
  | binary o l r => l.nodes ++ binary o l r :: r.nodes

/-- The token at the root of a tree. -/
def root : Expr → Token
  | number x => .number x
  | var n => .name n
  | neg _ => .op .sub
  | binary o _ _ => .op o

end Expr

namespace Token

/-- A number or a name. -/
def isOperand : Token → Bool
  | number _ | name _ => true
  | _ => false

/-- An operator or a sign. -/
def isOperator : Token → Bool
  | op _ => true
  | _ => false

/-- The token stands at a node; a parenthesis does not. -/
def isNode (t : Token) : Bool := t.isOperand || t.isOperator

/-- The text of a name. -/
def name? : Token → Option String
  | name n => some n
  | _ => none

end Token

variable {ph : Phrase} {d : Nat} {ts : List Token} {e : Expr}

theorem isOperand_root (e : Expr) : e.root.isOperand = e.isLeaf := by
  cases e <;> rfl

theorem isOperator_root (e : Expr) : e.root.isOperator = !e.isLeaf := by
  cases e <;> rfl

/-- **The nodes of a tree are the tokens of its phrase**, less the parentheses. -/
theorem Derives.map_root_nodes (h : Derives ph d ts e) :
    e.nodes.map Expr.root = ts.filter Token.isNode := by
  induction h with
  | number x => rfl
  | name n => rfl
  | group _ ih => simp [ih, Token.isNode, Token.isOperand, Token.isOperator]
  | neg _ ih => simp [Expr.nodes, Expr.root, ih, Token.isNode, Token.isOperator]
  | power _ _ iha ihb | product _ _ _ iha ihb | sum _ _ _ iha ihb =>
    simp [Expr.nodes, Expr.root, iha, ihb, Token.isNode, Token.isOperator]
  | ofAtom _ ih | ofOperand _ ih | ofPower _ ih | ofProduct _ ih => exact ih

/-- A kind of nodes that the token at the root tells is a kind of tokens. -/
theorem Derives.map_root_filter_nodes (h : Derives ph d ts e) {p : Expr → Bool} {q : Token → Bool}
    (hp : ∀ e : Expr, q e.root = p e) (hq : ∀ t, q t = true → t.isNode = true) :
    (e.nodes.filter p).map Expr.root = ts.filter q := by
  obtain rfl : q ∘ Expr.root = p := funext hp
  rw [← List.filter_map, h.map_root_nodes, List.filter_filter]
  refine List.filter_congr fun t _ => ?_
  cases ht : q t with
  | false => rfl
  | true => rw [hq t ht]; rfl

theorem Derives.length_nodes_le (h : Derives ph d ts e) : e.nodes.length ≤ ts.length := by
  calc
    e.nodes.length = (ts.filter Token.isNode).length := by rw [← h.map_root_nodes, List.length_map]
    _ ≤ ts.length := List.length_filter_le _ _

theorem occurrences_eq (e : Expr) :
    e.occurrences = (e.nodes.map Expr.root).filterMap Token.name? := by
  induction e with
  | number x => rfl
  | var n => rfl
  | neg e ih => rw [Expr.occurrences, Expr.nodes, List.map_cons, List.filterMap_cons_none rfl, ih]
  | binary o l r ihl ihr =>
    rw [Expr.occurrences, Expr.nodes, List.map_append, List.map_cons, List.filterMap_append,
      List.filterMap_cons_none rfl, ihl, ihr]

/-- The variables of a tree are the names of its phrase. -/
theorem Derives.occurrences_eq (h : Derives ph d ts e) :
    e.occurrences = ts.filterMap Token.name? := by
  rw [Formula.occurrences_eq, h.map_root_nodes, List.filterMap_filter]
  refine List.filterMap_congr fun t _ => ?_
  cases t <;> rfl

/-! ## Operators of a text -/

theorem isLeaf_eq_false_iff : e.isLeaf = false ↔ ∃ o, .op o ∈ e.nodes.map Expr.root := by
  cases e with
  | number x => simp [Expr.isLeaf, Expr.nodes, Expr.root]
  | var n => simp [Expr.isLeaf, Expr.nodes, Expr.root]
  | neg e => exact ⟨fun _ => ⟨.sub, List.mem_cons_self⟩, fun _ => rfl⟩
  | binary o l r =>
    refine ⟨fun _ => ⟨o, ?_⟩, fun _ => rfl⟩
    rw [Expr.nodes, List.map_append, List.map_cons]
    exact List.mem_append_right _ List.mem_cons_self

/-- A tree is no bare leaf just when its phrase has an operator. -/
theorem Derives.isLeaf_eq_false_iff (h : Derives ph d ts e) :
    e.isLeaf = false ↔ ∃ o, .op o ∈ ts := by
  simp [Formula.isLeaf_eq_false_iff, h.map_root_nodes, Token.isNode, Token.isOperator]

theorem hasOperator_iff {source : String} :
    hasOperator source = true ↔ ∃ o : BinaryOp, o.symbol ∈ source.toList := by
  unfold hasOperator
  simp only [List.any_eq_true, Bool.or_eq_true, decide_eq_true_eq]
  constructor
  · rintro ⟨c, hc, (((rfl | rfl) | rfl) | rfl) | rfl⟩
    · exact ⟨.add, hc⟩
    · exact ⟨.sub, hc⟩
    · exact ⟨.mul, hc⟩
    · exact ⟨.div, hc⟩
    · exact ⟨.pow, hc⟩
  · rintro ⟨o, ho⟩
    exact ⟨o.symbol, ho, by cases o <;> simp [BinaryOp.symbol]⟩

/-- A text has an operator's character just when its tree is no bare leaf. -/
theorem hasOperator_iff_isLeaf_eq_false {source : String} (h : ofText? source = .ok ⟨some e⟩) :
    hasOperator source = true ↔ e.isLeaf = false := by
  obtain ⟨ts, d, hl, -, -, -, hder⟩ := ofText?_some_iff.1 h
  simp only [hasOperator_iff, hder.isLeaf_eq_false_iff, hl.op_mem_iff]

/-! ## Variables in order -/

/-- The list holds what is in `all`, each once, in the order of the first appearances there. -/
structure FirstAppearances (all list : List String) : Prop where
  mem_iff : ∀ n, n ∈ list ↔ n ∈ all
  ordered : list.Pairwise fun m n => all.idxOf m < all.idxOf n

theorem eraseDups_concat (all : List String) (n : String) :
    (all ++ [n]).eraseDups = if n ∈ all then all.eraseDups else all.eraseDups ++ [n] := by
  rw [List.eraseDups_append]
  by_cases hn : n ∈ all
  · simp [List.removeAll, hn]
  · simp [List.removeAll, hn, List.eraseDups_cons]

theorem firstAppearances_eraseDups (all : List String) : FirstAppearances all all.eraseDups := by
  refine ⟨fun n => List.mem_eraseDups, ?_⟩
  -- names come one after another, and where earlier ones have their first places does not change
  induction all using List.reverseRecOn with
  | nil => exact List.Pairwise.nil
  | append_singleton all n ih =>
    have hbefore : all.eraseDups.Pairwise
        fun m m' => (all ++ [n]).idxOf m < (all ++ [n]).idxOf m' := by
      refine ih.imp_of_mem fun {m m'} hm hm' hlt => ?_
      rwa [List.idxOf_append_of_mem (List.mem_eraseDups.1 hm),
        List.idxOf_append_of_mem (List.mem_eraseDups.1 hm')]
    rw [eraseDups_concat]
    split_ifs with hn
    · exact hbefore
    · rw [List.pairwise_append]
      refine ⟨hbefore, List.pairwise_singleton _ _, fun m hm m' hm' => ?_⟩
      obtain rfl := List.mem_singleton.1 hm'
      rw [List.mem_eraseDups] at hm
      rw [List.idxOf_append_of_mem hm, List.idxOf_append_of_notMem hn]
      exact Nat.lt_add_right _ (List.idxOf_lt_length_iff.2 hm)

/-- The name is the first of the names that has no value. -/
def FirstUnbound (vars : Bindings) (names : List String) (n : String) : Prop :=
  ∃ before after, names = before ++ n :: after ∧ (∀ m ∈ before, vars m ≠ none) ∧ vars n = none

/-- A fault of a tree names its first variable without a value. -/
theorem eval_eq_error_iff_firstUnbound {vars : Bindings} {fault : Fault} :
    e.eval vars = .error fault ↔
      ∃ n, FirstUnbound vars e.occurrences n ∧ fault = .unknownVariable n := by
  rw [Expr.eval_eq_error_iff, Option.map_eq_some_iff]
  refine exists_congr fun n => and_congr ?_ eq_comm
  rw [List.find?_eq_some_iff_append]
  constructor
  · rintro ⟨hn, before, after, hnames, hbefore⟩
    refine ⟨before, after, hnames, fun m hm hnone => ?_, Option.isNone_iff_eq_none.1 hn⟩
    have := hbefore m hm
    simp [hnone] at this
  · rintro ⟨before, after, hnames, hbefore, hn⟩
    refine ⟨Option.isNone_iff_eq_none.2 hn, before, after, hnames, fun m hm => ?_⟩
    simpa [Option.isSome_iff_ne_none] using hbefore m hm

theorem isOk_eval_eq_false_iff {vars : Bindings} :
    (e.eval vars).isOk = false ↔ ∃ n ∈ e.occurrences, vars n = none := by
  rw [← Bool.not_eq_true, Expr.eval_isOk_iff]
  simp

/-! ## The text and its tree -/

/-- **The tree mirrors the text.** Its leaves are the numbers and names, and its inner nodes the
operators, in the order of the text. So there are no more nodes than a text may have tokens, and the
tree is a bare leaf just when the text has no operator. Its variables are the names in the order in
which they first appear, and it has a value when all names do: its fault is the first without. -/
theorem tree_mirrors_tokens {source : String} (h : ofText? source = .ok ⟨some e⟩) :
    ∃ ps, tokens source = .ok ps ∧
      let ts := ps.map Placed.token
      let names := ts.filterMap Token.name?
      (e.nodes.filter Expr.isLeaf).map Expr.root = ts.filter Token.isOperand ∧
      (e.nodes.filter (!·.isLeaf)).map Expr.root = ts.filter Token.isOperator ∧
      e.nodes.length ≤ maxTokens ∧
      (hasOperator source = true ↔ e.isLeaf = false) ∧
      FirstAppearances names (vars ⟨some e⟩) ∧
      ∀ bindings : Bindings,
        ((e.eval bindings).isOk = false ↔ ∃ n ∈ names, bindings n = none) ∧
        ∀ fault, e.eval bindings = .error fault ↔
          ∃ n, FirstUnbound bindings names n ∧ fault = .unknownVariable n := by
  obtain ⟨ts, d, hl, -, hlen, -, hder⟩ := ofText?_some_iff.1 h
  obtain ⟨ps, hps, rfl⟩ := map_eq_ok.1 (tokens_iff.2 ⟨hl, hlen⟩)
  have hoperator := hasOperator_iff_isLeaf_eq_false h
  refine ⟨ps, hps, ?_, ?_, hder.length_nodes_le.trans hlen, hoperator, ?_, ?_⟩
  · exact hder.map_root_filter_nodes isOperand_root fun t ht => by rw [Token.isNode, ht]; rfl
  · exact hder.map_root_filter_nodes isOperator_root fun t ht => by
      rw [Token.isNode, ht, Bool.or_true]
  · rw [← hder.occurrences_eq]
    exact firstAppearances_eraseDups e.occurrences
  · intro bindings
    rw [← hder.occurrences_eq]
    exact ⟨isOk_eval_eq_false_iff, fun fault => eval_eq_error_iff_firstUnbound⟩

/-- A name is at a leaf for each of its places in the text, and a variable once. -/
theorem signed_product_mirrors_tokens :
    let source := "-(Min + 2.5) * max ^ min"
    let e : Expr := .binary .mul (.neg (.binary .add (.var "min") (.number 2.5)))
      (.binary .pow (.var "max") (.var "min"))
    ofText? source = .ok ⟨some e⟩ ∧
    (e.nodes.filter Expr.isLeaf).map Expr.root =
      [.name "min", .number 2.5, .name "max", .name "min"] ∧
    (e.nodes.filter (!·.isLeaf)).map Expr.root = [.op .sub, .op .add, .op .mul, .op .pow] ∧
    FirstAppearances ["min", "max", "min"] (vars ⟨some e⟩) ∧
    ∀ bindings : Bindings, bindings "min" = some 1.0 → bindings "max" = none →
      e.eval bindings = .error (.unknownVariable "max") := by
  intro source e
  have hread : ofText? source = .ok ⟨some e⟩ := by decide +kernel
  obtain ⟨ps, hps, hleaves, hinner, -, -, hvars, heval⟩ := tree_mirrors_tokens hread
  have hts : (tokens source).map (List.map Placed.token) = .ok [.op .sub, .opening, .name "min",
      .op .add, .number 2.5, .closing, .op .mul, .name "max", .op .pow, .name "min"] := by
    decide +kernel
  rw [hps] at hts
  replace hts := Except.ok.inj hts
  rw [hts] at hleaves hinner hvars heval
  refine ⟨hread, hleaves, hinner, hvars, fun bindings hmin hmax => ?_⟩
  refine ((heval bindings).2 _).2 ⟨"max", ⟨["min"], ["min"], rfl, ?_, hmax⟩, rfl⟩
  rw [List.forall_mem_singleton, hmin]
  exact Option.some_ne_none 1.0

end ItemBudget.Formula
