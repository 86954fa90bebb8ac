import ItemBudget.Journal.Query
import ItemBudget.Proofs.Double.Order
import ItemBudget.Proofs.Journal.Tail
import Mathlib

/-!
# The largest increases

The records that raised a cost are sorted by the bits of what they raised it by, and the first of
them are taken. Above 0 the order of the bits is that of the numbers. The sort is stable: the
records of one increase stay as they are in the history (`filter_mergeSort`). So it puts the records
in one strict order, in which each tops those after it (`Tops`), and what is cut off is topped by
what is taken.
-/

namespace ItemBudget.Journal

open Decimal (rank)
open Double (rank_injective rank_lt_iff)

/-- A stable sort leaves elements that it holds for equal in their order. -/
theorem filter_mergeSort {α : Type} {le : α → α → Bool} {p : α → Bool} {xs : List α}
    (htrans : ∀ a b c, le a b → le b c → le a c) (htotal : ∀ a b, le a b || le b a)
    (h : ∀ a b, p a → p b → le a b) : (xs.mergeSort le).filter p = xs.filter p := by
  have hsorted : (xs.filter p).Pairwise (le · ·) :=
    List.pairwise_of_forall_mem_list fun a ha b hb =>
      h a b (List.mem_filter.1 ha).2 (List.mem_filter.1 hb).2
  have hsub := (List.sublist_mergeSort htrans htotal hsorted List.filter_sublist).filter p
  simp only [List.filter_filter, Bool.and_self] at hsub
  exact (hsub.eq_of_length ((List.mergeSort_perm xs le).filter p).length_eq.symm).symm

theorem rank_trans (a b c : Record) (hab : decide (rank b.delta ≤ rank a.delta))
    (hbc : decide (rank c.delta ≤ rank b.delta)) : decide (rank c.delta ≤ rank a.delta) := by
  rw [decide_eq_true_eq] at hab hbc ⊢
  exact hbc.trans hab

theorem rank_total (a b : Record) :
    decide (rank b.delta ≤ rank a.delta) || decide (rank a.delta ≤ rank b.delta) := by
  rw [Bool.or_eq_true, decide_eq_true_eq, decide_eq_true_eq]
  exact le_total _ _

/-- The record raised the cost by more, or by as much and earlier. -/
def Tops (a b : Record) : Prop := b.delta < a.delta ∨ a.delta = b.delta ∧ a.seq < b.seq

namespace History

variable {h : History}

theorem mem_rankedIncreases {r : Record} :
    r ∈ h.rankedIncreases ↔ r ∈ h.records ∧ 0.0 < r.delta := by
  rw [rankedIncreases, List.mem_mergeSort, increases, List.mem_filter, decide_eq_true_iff]

theorem length_rankedIncreases :
    h.rankedIncreases.length = h.records.countP (0.0 < ·.delta) := by
  rw [rankedIncreases, List.length_mergeSort, increases, List.countP_eq_length_filter]

theorem nodup_rankedIncreases (hsorted : h.records.Pairwise (·.seq < ·.seq)) :
    h.rankedIncreases.Nodup := by
  have hnodup : h.records.Nodup := by
    refine hsorted.imp ?_
    rintro a _ hlt rfl
    exact Nat.lt_irrefl a.seq hlt
  exact (List.mergeSort_perm h.increases _).nodup_iff.2 (hnodup.filter _)

/-- The records of one increase stay in the order of the history. -/
theorem filter_rankedIncreases (d : Float) :
    h.rankedIncreases.filter (·.delta = d) = h.increases.filter (·.delta = d) := by
  refine filter_mergeSort rank_trans rank_total fun a b ha hb => ?_
  rw [decide_eq_true_eq] at ha hb ⊢
  rw [ha, hb]

/-- Each of the ranked records tops those after it. -/
theorem pairwise_rankedIncreases (hsorted : h.records.Pairwise (·.seq < ·.seq)) :
    h.rankedIncreases.Pairwise Tops := by
  have hranked : h.rankedIncreases.Pairwise fun a b => rank b.delta ≤ rank a.delta :=
    (List.pairwise_mergeSort rank_trans rank_total h.increases).imp of_decide_eq_true
  rw [List.pairwise_iff_forall_sublist]
  intro a b hab
  have ha := (mem_rankedIncreases.1 (hab.subset List.mem_cons_self)).2
  have hb := (mem_rankedIncreases.1 (hab.subset (List.mem_cons_of_mem _ List.mem_cons_self))).2
  rcases (List.pairwise_iff_forall_sublist.1 hranked hab).lt_or_eq with hlt | heq
  · exact .inl ((rank_lt_iff hb ha).1 hlt)
  · have hdelta : a.delta = b.delta := rank_injective heq.symm
    have hsame : (h.rankedIncreases.filter (·.delta = a.delta)).Pairwise (·.seq < ·.seq) := by
      rw [filter_rankedIncreases]
      exact (hsorted.filter _).filter _
    have hseq := List.pairwise_iff_forall_sublist.1 (List.pairwise_filter.1 hsame) hab
    exact .inr ⟨hdelta, hseq (decide_eq_true rfl) (decide_eq_true hdelta.symm)⟩

/-- **The largest increases are the top of a strict order.** Whatever was recorded, the records that
come first are as many as were asked for or all that raised a cost; each of them tops those after it
and those left out, by its increase or, of equal increases, by being the earlier one, and none comes
twice. Asking for fewer gives the first of them. -/
theorem largest_increases_are_top (limit : Option ℕ) (calls : List Call) (n : ℕ) :
    ∃ h, (run limit calls).history = h ∧ h.records.Pairwise (·.seq < ·.seq) ∧
      (h.largestIncreases n).length = min n (h.records.countP (0.0 < ·.delta)) ∧
      (∀ r ∈ h.largestIncreases n, r ∈ h.records ∧ 0.0 < r.delta) ∧
      (h.largestIncreases n).Pairwise Tops ∧ (h.largestIncreases n).Nodup ∧
      (∀ r ∈ h.records, 0.0 < r.delta → r ∉ h.largestIncreases n →
        ∀ s ∈ h.largestIncreases n, Tops s r) ∧
      ∀ m ≤ n, h.largestIncreases m <+: h.largestIncreases n := by
  have hsorted := (follows_run limit calls).sorted
  have htops := pairwise_rankedIncreases hsorted
  refine ⟨_, rfl, hsorted, ?length, ?members, htops.sublist (List.take_sublist _ _), ?nodup, ?left,
    ?fewer⟩
  case length =>
    rw [largestIncreases, List.length_take, length_rankedIncreases]
  case members =>
    intro r hr
    exact mem_rankedIncreases.1 (List.mem_of_mem_take hr)
  case nodup =>
    exact (nodup_rankedIncreases hsorted).sublist (List.take_sublist n _)
  case left =>
    intro r hr hpos hout s hs
    rw [← List.take_append_drop n (rankedIncreases _)] at htops
    have hdrop : r ∈ (run limit calls).history.rankedIncreases.drop n := by
      have hmem := mem_rankedIncreases.2 ⟨hr, hpos⟩
      rw [← List.take_append_drop n (rankedIncreases _), List.mem_append] at hmem
      exact hmem.resolve_left hout
    exact (List.pairwise_append.1 htops).2.2 s hs r hdrop
  case fewer =>
    intro m hmn
    exact List.take_prefix_take_left hmn

end History

end ItemBudget.Journal
