import ItemBudget.Journal.Query
import ItemBudget.Journal.Report
import ItemBudget.Proofs.Journal.Tail
import ItemBudget.Proofs.Table
import Mathlib

/-!
# What a report says

A report counts in four ways: the actions record by record, the actors in a table that grows with
each record, the items by sorting and leaving out repetitions, and the text by ranking the actors.
All four count the records that a query selects. The table of the actors holds for each how often it
occurs (`perm_tallied`), and the items are those that occur, each once (`perm_items`). The ranking
sorts by a total order on actors with a number, so the text does not tell in which order a table
yields them (`ranking_eq_of_perm`).
-/

namespace ItemBudget.Journal

/-! ## Counting names -/

section Tally

variable (names : List String)

theorem tallied_concat (last : String) :
    tallied (names ++ [last]) = tally (tallied names) last := by
  rw [tallied, List.foldl_append]
  rfl

theorem get?_tallied (name : String) :
    (tallied names).get? name =
      if names.count name = 0 then none else some (names.count name) := by
  induction names using List.reverseRecOn with
  | nil => rfl
  | append_singleton names last ih =>
    rw [tallied_concat, tally, Table.get?_insert]
    by_cases hname : name = last
    · subst hname
      rw [if_pos rfl, ih, List.count_append, List.count_singleton_self, if_neg (Nat.succ_ne_zero _)]
      split_ifs with hcount
      · rw [hcount]
        rfl
      · rfl
    · rw [if_neg hname, ih, List.count_append, List.count_singleton,
        beq_eq_false_iff_ne.2 (Ne.symm hname)]
      rfl

theorem mem_tallied {name : String} {n : ℕ} :
    (name, n) ∈ (tallied names).entries ↔ 0 < n ∧ n = names.count name := by
  rw [Table.mem_entries_iff, get?_tallied]
  split_ifs with hcount
  · simp only [false_iff, hcount]
    omega
  · rw [Option.some_inj]
    omega

/-- The table of the names has each of them once, with the number of its places. -/
theorem perm_tallied :
    (tallied names).entries.Perm (names.dedup.map fun name => (name, names.count name)) := by
  have hnodup : (names.dedup.map fun name => (name, names.count name)).Nodup :=
    names.nodup_dedup.map fun a b hab => (Prod.mk.inj hab).1
  refine (List.perm_ext_iff_of_nodup (Table.nodup _).of_map hnodup).2 fun ⟨name, n⟩ => ?_
  rw [mem_tallied, List.mem_map]
  constructor
  · rintro ⟨hpos, rfl⟩
    exact ⟨name, List.mem_dedup.2 (List.count_pos_iff.1 hpos), rfl⟩
  · rintro ⟨_, hname, ⟨⟩⟩
    exact ⟨List.count_pos_iff.2 (List.mem_dedup.1 hname), rfl⟩

theorem sum_tallied : ((tallied names).entries.map Prod.snd).sum = names.length := by
  rw [((perm_tallied names).map Prod.snd).sum_eq, List.map_map]
  exact names.sum_map_count_dedup_eq_length

end Tally

/-! ## Leaving out repetitions -/

section Repeats

theorem mem_withoutRepeats {α : Type} [DecidableEq α] {xs : List α} {x : α} :
    x ∈ withoutRepeats xs ↔ x ∈ xs := by
  fun_induction withoutRepeats xs with
  | case1 a xs ih => simp [ih]
  | case2 a b xs hne ih => simp [ih]
  | case3 => rfl

/-- In order, equal elements stand side by side, and one of them is left. -/
theorem pairwise_withoutRepeats {xs : List ItemId} (h : xs.Pairwise (· ≤ ·)) :
    (withoutRepeats xs).Pairwise (· < ·) := by
  fun_induction withoutRepeats xs with
  | case1 a xs ih => exact ih h.of_cons
  | case2 a b xs hne ih =>
    obtain ⟨ha, hrest⟩ := List.pairwise_cons.1 h
    refine List.pairwise_cons.2 ⟨fun x hx => ?_, ih hrest⟩
    have hab : a < b := Nat.lt_of_le_of_ne (ha b List.mem_cons_self) hne
    rcases List.mem_cons.1 (mem_withoutRepeats.1 hx) with rfl | hx
    · exact hab
    · exact Nat.lt_of_lt_of_le hab ((List.pairwise_cons.1 hrest).1 x hx)
  | case3 xs hshort =>
    match xs with
    | [] => exact .nil
    | [a] => exact List.pairwise_singleton _ a
    | a :: b :: xs => exact (hshort a b xs rfl).elim

end Repeats

namespace History

variable (h : History)

/-- The items of a history are those with a record, each once. -/
theorem perm_items : h.items.Perm (h.records.map (·.item)).dedup := by
  have hsorted := List.pairwise_mergeSort' (· ≤ ·) (h.records.map (·.item))
  refine (List.perm_ext_iff_of_nodup (pairwise_withoutRepeats hsorted).nodup
    (List.nodup_dedup _)).2 fun item => ?_
  rw [mem_withoutRepeats, List.mem_mergeSort, List.mem_dedup]

theorem changes_summary (item : ItemId) :
    (h.summary item).changes = (h.records.map (·.item)).count item := by
  rw [List.count, List.countP_map]
  exact List.countP_eq_length_filter.symm

/-! ## Queries with one criterion -/

theorem length_query_action (action : Action) :
    (h.query { Query.any with action := some action }).length = h.count action := by
  rw [query, count, List.countP_eq_length_filter]
  congr 2
  funext r
  simp [Query.selects, Query.any, eq_comm]

theorem length_query_actor (actor : String) :
    (h.query { Query.any with actor := some actor }).length =
      (h.records.map (·.actor)).count actor := by
  rw [query, List.count, List.countP_map, List.countP_eq_length_filter]
  congr 2
  funext r
  simp [Query.selects, Query.any, Bool.beq_eq_decide_eq, eq_comm]

end History

/-! ## Ranking -/

namespace Report

theorem ranksBefore_iff {a b : String × ℕ} :
    ranksBefore a b ↔ b.2 < a.2 ∨ a.2 = b.2 ∧ a.1 ≤ b.1 := by
  simp [ranksBefore]

theorem ranksBefore_trans (a b c : String × ℕ) (hab : ranksBefore a b) (hbc : ranksBefore b c) :
    ranksBefore a c := by
  rw [ranksBefore_iff] at hab hbc ⊢
  rcases hab with hab | ⟨hab, hab'⟩ <;> rcases hbc with hbc | ⟨hbc, hbc'⟩
  · exact .inl (hbc.trans hab)
  · exact .inl (hbc ▸ hab)
  · exact .inl (hab ▸ hbc)
  · exact .inr ⟨hab.trans hbc, String.le_trans hab' hbc'⟩

theorem ranksBefore_total (a b : String × ℕ) : ranksBefore a b || ranksBefore b a := by
  rw [Bool.or_eq_true, ranksBefore_iff, ranksBefore_iff]
  rcases Nat.lt_trichotomy a.2 b.2 with hlt | heq | hgt
  · exact .inr (.inl hlt)
  · exact (String.le_total a.1 b.1).imp (fun h => .inr ⟨heq, h⟩) fun h => .inr ⟨heq.symm, h⟩
  · exact .inl (.inl hgt)

theorem ranksBefore_antisymm {a b : String × ℕ} (hab : ranksBefore a b) (hba : ranksBefore b a) :
    a = b := by
  rw [ranksBefore_iff] at hab hba
  rcases hab with hab | ⟨heq, hab⟩ <;> rcases hba with hba | ⟨heq', hba⟩
  · omega
  · omega
  · omega
  · exact Prod.ext (String.le_antisymm hab hba) heq

theorem pairwise_ranking (r : Report) : r.ranking.Pairwise fun a b => ranksBefore a b :=
  List.pairwise_mergeSort ranksBefore_trans ranksBefore_total r.actors

theorem perm_ranking (r : Report) : r.ranking.Perm r.actors := List.mergeSort_perm _ _

/-- The ranking does not tell in which order the actors came. -/
theorem ranking_eq_of_perm {r r' : Report} (h : r.actors.Perm r'.actors) :
    r.ranking = r'.ranking :=
  List.Perm.eq_of_pairwise (fun _ _ _ _ => ranksBefore_antisymm) (pairwise_ranking r)
    (pairwise_ranking r') ((perm_ranking r).trans (h.trans (perm_ranking r').symm))

/-- Where every name stands once, no two actors rank alike. -/
theorem strict_ranking (r : Report) (h : (r.actors.map Prod.fst).Nodup) :
    r.ranking.Pairwise fun a b => b.2 < a.2 ∨ a.2 = b.2 ∧ a.1 < b.1 := by
  have hnames : r.ranking.Pairwise fun a b => a.1 ≠ b.1 :=
    List.pairwise_map.1 (((perm_ranking r).map Prod.fst).nodup_iff.2 h)
  refine ((pairwise_ranking r).and hnames).imp fun ⟨hab, hne⟩ => ?_
  rcases ranksBefore_iff.1 hab with hlt | ⟨heq, hle⟩
  · exact .inl hlt
  · exact .inr ⟨heq, lt_of_le_of_ne hle hne⟩

/-! ## The text -/

theorem text_eq (r : Report) :
    r.text = { r with actors := [] }.text ++ String.join (r.actorLines.map (· ++ "\n")) := by
  have hheading : { r with actors := [] }.lines = r.heading := List.append_nil _
  rw [text, text, hheading, lines, List.map_append, String.join_append]

theorem ranking_eq_nil_iff (r : Report) : r.ranking = [] ↔ r.actors = [] := by
  rw [← List.length_eq_zero_iff, (perm_ranking r).length_eq, List.length_eq_zero_iff]

theorem join_actorLines (r : Report) :
    String.join (r.actorLines.map (· ++ "\n")) =
      if r.ranking = [] then ""
      else "\nChanges by actor:\n" ++
        String.join (r.ranking.map fun a => s!"  {a.1}: {a.2}\n") := by
  simp only [ranking_eq_nil_iff]
  by_cases h : r.actors = []
  · simp [actorLines, h]
  · rw [actorLines, if_neg (mt List.isEmpty_iff.1 h), if_neg h, List.map_append, List.map_map,
      String.join_append]
    congr 1

/-- The text of a report says the same in whatever order its actors come. -/
theorem text_of_perm {r : Report} {actors : List (String × ℕ)} (h : actors.Perm r.actors) :
    { r with actors }.text = { r with actors := [] }.text ++
      if r.ranking = [] then ""
      else "\nChanges by actor:\n" ++
        String.join (r.ranking.map fun a => s!"  {a.1}: {a.2}\n") := by
  rw [text_eq, join_actorLines, ranking_eq_of_perm h]

end Report

namespace History

/-- **A report agrees with the queries.** Its total is the sum of the actions and of the actors'
changes, each of these numbers is the number of records that a query for the action or the actor
alone selects, and the actors are those with a record, each once. The items are those with a change
in their summary, and these changes sum up to the total. In whatever order the actors come, the text
lists each once, those with more changes first, and of equal numbers by name. -/
theorem report_agrees_with_queries (h : History) :
    h.report.stats.total = (h.query Query.any).length ∧
    h.report.stats.created + h.report.stats.updated + h.report.stats.deleted =
      h.report.stats.total ∧
    (h.report.actors.map Prod.snd).sum = h.report.stats.total ∧
    h.report.stats.created = (h.query { Query.any with action := some .created }).length ∧
    h.report.stats.updated = (h.query { Query.any with action := some .updated }).length ∧
    h.report.stats.deleted = (h.query { Query.any with action := some .deleted }).length ∧
    (∀ actor n, (actor, n) ∈ h.report.actors ↔
      0 < n ∧ n = (h.query { Query.any with actor := some actor }).length) ∧
    (h.report.actors.map Prod.fst).Nodup ∧
    (∃ ids : Finset ItemId, (∀ id, id ∈ ids ↔ 0 < (h.summary id).changes) ∧
      h.report.items = ids.card ∧ ∑ id ∈ ids, (h.summary id).changes = h.report.stats.total) ∧
    ∃ ranked : List (String × ℕ), ranked.Perm h.report.actors ∧
      ranked.Pairwise (fun a b => b.2 < a.2 ∨ a.2 = b.2 ∧ a.1 < b.1) ∧
      ∀ actors, actors.Perm h.report.actors →
        { h.report with actors }.text = { h.report with actors := [] }.text ++
          if ranked = [] then ""
          else "\nChanges by actor:\n" ++
            String.join (ranked.map fun a => s!"  {a.1}: {a.2}\n") := by
  have hactors : h.report.actors.Perm (tallied (h.records.map (·.actor))).entries :=
    List.mergeSort_perm _ _
  have htotal : h.report.stats.total = h.records.length := rfl
  have hnodup : (h.report.actors.map Prod.fst).Nodup :=
    (hactors.map Prod.fst).nodup_iff.2 (Table.nodup _)
  refine ⟨?total, countP_actions h.records, ?sum, (h.length_query_action _).symm,
    (h.length_query_action _).symm, (h.length_query_action _).symm, ?actor, hnodup, ?items,
    h.report.ranking, h.report.perm_ranking, h.report.strict_ranking hnodup,
    fun _ => Report.text_of_perm⟩
  case total =>
    have hall : h.query Query.any = h.records := List.filter_eq_self.2 fun r _ => rfl
    rw [hall, htotal]
  case sum =>
    rw [(hactors.map Prod.snd).sum_eq, sum_tallied, List.length_map, htotal]
  case actor =>
    intro actor n
    rw [hactors.mem_iff, mem_tallied, length_query_actor]
  case items =>
    refine ⟨(h.records.map (·.item)).toFinset, fun id => ?_, ?_, ?_⟩
    · rw [List.mem_toFinset, changes_summary, List.count_pos_iff]
    · rw [List.card_toFinset]
      exact h.perm_items.length_eq
    · simp only [changes_summary]
      rw [List.sum_toFinset_count_eq_length, List.length_map, htotal]

end History

end ItemBudget.Journal
