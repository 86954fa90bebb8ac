import ItemBudget.Journal.Query
import ItemBudget.Proofs.Workshop.Steps

/-!
# The costs on record

The ledger of a run holds the record of every step, and the history keeps its end
(`Path.history_eq`). So every kept record shows the costs that its step found and left, under the
configuration of that step. Where no configuration came since, the item still costs what its last
record says (`Path.after_eq`), and so one record of an item ends with the cost with which the next
one starts.
-/

namespace ItemBudget.Workshop

open Journal (Record History latest)

/-- The records of steps, whether or not the history keeps them. -/
def ledger (ps : List Step) : List Record := ps.filterMap Step.record?

variable {s s' : Store} {ps : List Step} {p : Step} {r : Record}

theorem ledger_append (ps qs : List Step) : ledger (ps ++ qs) = ledger ps ++ ledger qs :=
  List.filterMap_append

theorem ledger_cons (p : Step) (ps : List Step) :
    ledger (p :: ps) = p.record?.toList ++ ledger ps := by
  unfold ledger
  cases h : p.record? with
  | none => rw [List.filterMap_cons_none h]; rfl
  | some r => rw [List.filterMap_cons_some h]; rfl

theorem mem_ledger : r ∈ ledger ps ↔ ∃ p ∈ ps, p.record? = some r := List.mem_filterMap

/-! ## The history and the ledger -/

namespace Path

/-- The history keeps the end of what it held and what was added. -/
theorem history_eq (h : Path s ps s') {rs : List Record}
    (hrs : s.history.records = latest s.history.limit rs) :
    s'.history.limit = s.history.limit ∧
      s'.history.records = latest s.history.limit (rs ++ ledger ps) := by
  induction h generalizing rs with
  | nil => exact ⟨rfl, by rw [hrs]; exact congrArg _ (List.append_nil rs).symm⟩
  | @cons p ps s s' effect _ ih =>
    rw [ledger_cons]
    cases hr : p.record? with
    | none =>
      rw [← effect.history_of_none hr] at hrs ⊢
      exact ih hrs
    | some r =>
      have hhistory := effect.history_of_some hr
      have hseq : (⟨r.toChange, p.store.history.nextSeq, r.time⟩ : Record) = r := by
        rw [← Step.seq_eq hr]
      have hlimit : s.history.limit = p.store.history.limit := by rw [hhistory]; rfl
      have hrecords : s.history.records = latest s.history.limit (rs ++ [r]) := by
        rw [hlimit, hhistory, History.record, hseq, hrs, Journal.latest_latest_append]
      rw [← hlimit, Option.toList_some, ← List.append_assoc]
      exact ih hrecords

/-- Records are numbered in their order, from the next number of the history on. -/
theorem sorted (h : Path s ps s') :
    (ledger ps).Pairwise (·.seq < ·.seq) ∧ ∀ r ∈ ledger ps, s.history.nextSeq ≤ r.seq := by
  induction h with
  | nil => exact ⟨.nil, fun _ h => nomatch h⟩
  | @cons p ps s s' effect _ ih =>
    obtain ⟨hsorted, hnext⟩ := ih
    rw [ledger_cons]
    cases hr : p.record? with
    | none =>
      rw [effect.history_of_none hr] at hnext
      exact ⟨hsorted, hnext⟩
    | some r =>
      rw [effect.history_of_some hr, History.nextSeq_record] at hnext
      have hseq := Step.seq_eq hr
      refine ⟨List.pairwise_cons.2 ⟨fun x hx => ?_, hsorted⟩, List.forall_mem_cons.2 ⟨?_, ?_⟩⟩
      · rw [hseq]; exact hnext x hx
      · exact Nat.le_of_eq hseq.symm
      · intro x hx; exact Nat.le_of_succ_le (hnext x hx)

/-- A record has both sides, but for the one before a creation and the one after a deletion. -/
theorem sides (h : Path s ps s') (hr : r ∈ ledger ps) :
    (r.before.isSome = true ↔ r.action ≠ .created) ∧
      (r.after.isSome = true ↔ r.action ≠ .deleted) := by
  induction h with
  | nil => cases hr
  | cons effect _ ih =>
    rw [ledger_cons, List.mem_append, Option.mem_toList] at hr
    rcases hr with hr | hr
    · exact effect.sides r hr
    · exact ih hr

end Path

/-! ## Records in a row -/

section Rows

variable {rs kept : List Record} {x r' : Record}

/-- What comes later than a kept record is kept. -/
theorem mem_of_later (hsorted : rs.Pairwise (·.seq < ·.seq)) (hkept : kept <:+ rs) (hr : r ∈ kept)
    (hx : x ∈ rs) (hlt : r.seq < x.seq) : x ∈ kept := by
  obtain ⟨dropped, rfl⟩ := hkept
  rcases List.mem_append.1 hx with hx | hx
  · have hgt := (List.pairwise_append.1 hsorted).2.2 x hx r hr
    omega
  · exact hx

/-- Nothing stands between two records in a row. -/
theorem not_between (hsorted : rs.Pairwise (·.seq < ·.seq)) (hrow : [r, r'] <:+: rs) (hx : x ∈ rs)
    (hr : r.seq < x.seq) (hr' : x.seq < r'.seq) : False := by
  obtain ⟨as, bs, rfl⟩ := hrow
  simp only [List.pairwise_append, List.mem_append, List.mem_cons, List.not_mem_nil, or_false]
    at hsorted hx
  obtain ⟨⟨-, -, has⟩, -, hbs⟩ := hsorted
  rcases hx with (hx | rfl | rfl) | hx
  · have hlt := has x hx r (.inl rfl)
    omega
  · omega
  · omega
  · have hlt := hbs r' (.inr (.inr rfl)) x hx
    omega

/-- Nothing comes after the last record. -/
theorem not_after_last (hsorted : rs.Pairwise (·.seq < ·.seq)) (hlast : rs.getLast? = some r)
    (hx : x ∈ rs) (hr : r.seq < x.seq) : False := by
  obtain ⟨as, rfl⟩ := List.getLast?_eq_some_iff.1 hlast
  rcases List.mem_append.1 hx with hx | hx
  · have hlt := (List.pairwise_append.1 hsorted).2.2 x hx r (List.mem_singleton_self r)
    omega
  · rw [List.mem_singleton.1 hx] at hr
    omega

end Rows

/-! ## What a record says of the store after its step -/

theorem after_eq_of_effect (effect : Effect p s) (hr : p.record? = some r) :
    r.after = (s.item? r.item).map fun item => (budget item s.config).used := by
  have htarget : p.target? = some r.item := by rw [Step.target?, hr, Option.map_some]
  rw [effect.item?, if_pos htarget, effect.config, Step.configured?_of_record? hr]
  exact Step.after_eq hr

namespace Path

variable {before between after : List Step} {q : Step} {r' x : Record}

theorem later (h : Path s (before ++ p :: after) s') (hr : p.record? = some r)
    (hx : x ∈ ledger after) : r.seq < x.seq := by
  have hsorted := h.sorted.1
  rw [ledger_append, ledger_cons, hr] at hsorted
  exact (List.pairwise_cons.1 (List.pairwise_append.1 hsorted).2.1).1 x hx

/-- An item that no step touched and no step repriced costs what its last record says. -/
theorem after_eq (h : Path s (before ++ p :: after) s') (hr : p.record? = some r)
    (htarget : ∀ y ∈ after, y.target? ≠ some r.item)
    (hconfig : ∀ y ∈ after, y.configured? = none) :
    r.after = (s'.item? r.item).map fun item => (budget item s'.config).used := by
  obtain ⟨-, m, effect, rest⟩ := h.at_step
  obtain ⟨hitem, hc⟩ := rest.frame htarget hconfig
  rw [hitem, hc]
  exact after_eq_of_effect effect hr

/-- Steps that leave no kept record of an item do not touch it. -/
theorem untouched {kept : List Record} (h : Path s (before ++ p :: (between ++ after)) s')
    (hkept : kept <:+ ledger (before ++ p :: (between ++ after))) (hr : p.record? = some r)
    (hmem : r ∈ kept) (hnone : ∀ x ∈ ledger between, x ∈ kept → x.item ≠ r.item) :
    ∀ y ∈ between, y.target? ≠ some r.item := by
  intro y hy htarget
  obtain ⟨x, hx, hitem⟩ := Option.map_eq_some_iff.1 htarget
  have hbetween : x ∈ ledger between := mem_ledger.2 ⟨y, hy, hx⟩
  have hlater : x ∈ ledger (between ++ after) := by
    rw [ledger_append]
    exact List.mem_append_left _ hbetween
  have hall : x ∈ ledger (before ++ p :: (between ++ after)) := by
    rw [ledger_append, ledger_cons]
    exact List.mem_append_right _ (List.mem_append_right _ hlater)
  exact hnone x hbetween (mem_of_later h.sorted.1 hkept hmem hall (h.later hr hlater)) hitem

section Kept

variable {history : History} {id : ItemId}

theorem mem_recordsFor_of_item (hr : r ∈ history.recordsFor id) (hx : x ∈ history.records)
    (hitem : x.item = r.item) : x ∈ history.recordsFor id := by
  have hid := (List.mem_filter.1 hr).2
  refine List.mem_filter.2 ⟨hx, ?_⟩
  rw [hitem]
  exact hid

theorem sorted_recordsFor (h : Path s ps s') (hkept : history.records <:+ ledger ps) :
    (history.recordsFor id).Pairwise (·.seq < ·.seq) :=
  (h.sorted.1.sublist hkept.sublist).sublist List.filter_sublist

/-- Between two records of an item in a row, no step touches the item. -/
theorem untouched_of_row (h : Path s (before ++ p :: (between ++ q :: after)) s')
    (hkept : history.records <:+ ledger (before ++ p :: (between ++ q :: after)))
    (hr : p.record? = some r) (hr' : q.record? = some r')
    (hrow : [r, r'] <:+: history.recordsFor id) :
    ∀ y ∈ between, y.target? ≠ some r.item := by
  have hmem : r ∈ history.recordsFor id := hrow.subset List.mem_cons_self
  refine h.untouched hkept hr (List.mem_filter.1 hmem).1 fun x hx hxkept hxitem => ?_
  -- a record between the two steps would stand between the two records
  have hlt : r.seq < x.seq := h.later hr (by rw [ledger_append]; exact List.mem_append_left _ hx)
  have hlt' : x.seq < r'.seq := by
    have hall := h.sorted.1
    rw [ledger_append, ledger_cons, ledger_append, ledger_cons, hr'] at hall
    have hlast := (List.pairwise_append.1 hall).2.1
    have hrest := (List.pairwise_append.1 hlast).2.1
    exact (List.pairwise_append.1 hrest).2.2 x hx r' List.mem_cons_self
  exact not_between (h.sorted_recordsFor hkept) hrow (mem_recordsFor_of_item hmem hxkept hxitem)
    hlt hlt'

/-- After the last record of an item, no step touches the item. -/
theorem untouched_of_last (h : Path s (before ++ p :: after) s')
    (hkept : history.records <:+ ledger (before ++ p :: after)) (hr : p.record? = some r)
    (hlast : history.latestFor? id = some r) : ∀ y ∈ after, y.target? ≠ some r.item := by
  have hmem : r ∈ history.recordsFor id := history.mem_recordsFor_of_latestFor? hlast
  rw [History.latestFor?_eq] at hlast
  have hsorted : (history.recordsFor id).Pairwise (·.seq < ·.seq) := h.sorted_recordsFor hkept
  rw [← List.append_nil after] at h hkept
  refine h.untouched hkept hr (List.mem_filter.1 hmem).1 fun x hx hxkept hxitem => ?_
  rw [List.append_nil] at h
  exact not_after_last hsorted hlast (mem_recordsFor_of_item hmem hxkept hxitem) (h.later hr hx)

end Kept

end Path

/-! ## Runs -/

/-- **The costs on record** are those of the items that a change found and stored, under one
configuration; so records of an item in a row agree, and the last one with the budget. -/
theorem records_show_costs (config : BudgetConfig) (maxHistory : Option Nat)
    (limiter : Option RateLimit.Limiter) (definitions : Option AttributeBook)
    (calls : List (Call × Clock)) :
    let w : Workshop := ⟨.empty config maxHistory, limiter, definitions⟩
    let s := (run w calls).workshop.store
    (∀ r ∈ s.history.records, ∃ p ∈ steps w calls, p.record? = some r ∧
      r.before = (p.store.item? r.item).map (fun item => (budget item p.store.config).used) ∧
      r.after = (p.event.saved? r.item).map (fun item => (budget item p.store.config).used) ∧
      (r.before.isSome = true ↔ r.action ≠ .created) ∧
      (r.after.isSome = true ↔ r.action ≠ .deleted)) ∧
    (∀ before p between q after r r' id,
      steps w calls = before ++ p :: (between ++ q :: after) →
      p.record? = some r → q.record? = some r' → [r, r'] <:+: s.history.recordsFor id →
      (∀ y ∈ between, y.configured? = none) → r.after = r'.before) ∧
    ∀ before p after r id item, steps w calls = before ++ p :: after → p.record? = some r →
      s.history.latestFor? id = some r → s.item? id = some item →
      (∀ y ∈ after, y.configured? = none) →
      ∃ b, s.budget id = .ok b ∧ (s.history.summary id).current = some b.used := by
  intro w s
  have hpath : Path w.store (steps w calls) s := path_steps w calls (free_empty config maxHistory)
  have hempty : w.store.history.records = latest w.store.history.limit [] := by
    cases maxHistory with
    | none => rfl
    | some n => exact List.drop_nil.symm
  have hrecords : s.history.records = latest maxHistory (ledger (steps w calls)) :=
    (hpath.history_eq hempty).2
  have hkept : s.history.records <:+ ledger (steps w calls) := by
    rw [hrecords]
    exact Journal.latest_isSuffixOf _ _
  refine ⟨fun r hr => ?_, ?_, ?_⟩
  · have hledger := hkept.subset hr
    obtain ⟨p, hp, hpr⟩ := mem_ledger.1 hledger
    exact ⟨p, hp, hpr, Step.before_eq hpr, Step.after_eq hpr, hpath.sides hledger⟩
  · intro before p between q after r r' id hsteps hr hr' hrow hconfig
    rw [hsteps] at hpath hkept
    have hitem : r'.item = r.item := by
      have hid := (List.mem_filter.1 (hrow.subset List.mem_cons_self)).2
      have hid' := (List.mem_filter.1 (hrow.subset (List.mem_cons_of_mem _ List.mem_cons_self))).2
      rw [of_decide_eq_true hid, of_decide_eq_true hid']
    have huntouched := hpath.untouched_of_row hkept hr hr' hrow
    rw [← List.cons_append, ← List.append_assoc] at hpath
    rw [hpath.at_step.1.after_eq hr huntouched hconfig, Step.before_eq hr', hitem]
  · intro before p after r id item hsteps hr hlast hitem hconfig
    rw [hsteps] at hpath hkept
    have huntouched := hpath.untouched_of_last hkept hr hlast
    have hafter := hpath.after_eq hr huntouched hconfig
    have hmem := s.history.mem_recordsFor_of_latestFor? hlast
    have hid := of_decide_eq_true (List.mem_filter.1 hmem).2
    rw [hid, hitem] at hafter
    refine ⟨s.budgetOf item, ?_, ?_⟩
    · rw [Store.budget, hitem]
    · rw [History.summary, hlast]
      exact hafter

end ItemBudget.Workshop
