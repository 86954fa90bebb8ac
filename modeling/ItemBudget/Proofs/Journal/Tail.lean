import Mathlib.Data.List.DropRight
import ItemBudget.Journal.History

/-!
# What a history holds

A history that records and is cleared in any order holds the end of the log of everything it
recorded: of what came after the last clearing, as much as its limit allows. So its numbers have no
gap, and bisection finds every record that is there.
-/

namespace ItemBudget.Journal

/-! ## Records by their numbers -/

section Bisection

variable {rs : List Record} {r : Record} {seq : Nat}

theorem seq_le (h : rs.Pairwise (·.seq < ·.seq)) {i j : Nat} (hij : i ≤ j) (hj : j < rs.length) :
    rs[i].seq ≤ rs[j].seq := by
  rcases Nat.lt_or_eq_of_le hij with hlt | rfl
  · exact Nat.le_of_lt (List.pairwise_iff_getElem.1 h i j (by omega) hj hlt)
  · exact Nat.le_refl _

theorem bisect_eq_some_iff (h : rs.Pairwise (·.seq < ·.seq)) :
    bisect seq rs = some r ↔ r ∈ rs ∧ r.seq = seq := by
  fun_induction bisect seq rs with
  | case1 rs hlen hhalf hlt ih =>
    rw [ih (h.sublist (List.take_sublist _ _))]
    refine ⟨fun ⟨hr, hseq⟩ => ⟨List.mem_of_mem_take hr, hseq⟩, ?_⟩
    rintro ⟨hr, hseq⟩
    obtain ⟨i, hi, rfl⟩ := List.getElem_of_mem hr
    -- what stands at the middle or after it has too great a number
    have hi' : i < rs.length / 2 := by
      by_contra hge
      have := seq_le h (Nat.le_of_not_lt hge) hi
      omega
    exact ⟨List.mem_take_iff_getElem.2 ⟨i, by omega, rfl⟩, hseq⟩
  | case2 rs hlen hhalf hge ih =>
    rw [ih (h.sublist (List.drop_sublist _ _))]
    refine ⟨fun ⟨hr, hseq⟩ => ⟨List.mem_of_mem_drop hr, hseq⟩, ?_⟩
    rintro ⟨hr, hseq⟩
    obtain ⟨i, hi, rfl⟩ := List.getElem_of_mem hr
    -- what stands before the middle has too small a number
    have hi' : rs.length / 2 ≤ i := by
      by_contra hlt
      have := List.pairwise_iff_getElem.1 h i (rs.length / 2) hi hhalf (Nat.lt_of_not_le hlt)
      omega
    refine ⟨List.mem_drop_iff_getElem.2 ⟨i - rs.length / 2, by omega, ?_⟩, hseq⟩
    congr 1
    omega
  | case3 rs hlen =>
    match rs with
    | [] => simp
    | [x] =>
      rw [List.head?_cons, Option.filter_eq_some_iff, List.mem_singleton, Option.some_inj,
        decide_eq_true_iff, eq_comm (a := x)]
    | _ :: _ :: _ => simp at hlen

theorem bisect_eq_none_iff (h : rs.Pairwise (·.seq < ·.seq)) :
    bisect seq rs = none ↔ ∀ r ∈ rs, r.seq ≠ seq := by
  simp only [Option.eq_none_iff_forall_ne_some, ne_eq, bisect_eq_some_iff h, not_and]

end Bisection

namespace History

/-! ## Runs -/

/-- What changes a history. -/
inductive Call where
  | record (change : Change) (time : Time.Instant)
  | clear

def Call.recorded? : Call → Option (Change × Time.Instant)
  | .record change time => some (change, time)
  | .clear => none

/-- A history and the numbers it has given out. -/
structure Trace where
  numbers : List Nat
  history : History

def Trace.call (t : Trace) : Call → Trace
  | .record change time =>
    let (seq, history) := t.history.append change time
    ⟨t.numbers ++ [seq], history⟩
  | .clear => ⟨t.numbers, t.history.clear⟩

def run (limit : Option Nat) (calls : List Call) : Trace :=
  calls.foldl Trace.call ⟨[], .empty limit⟩

/-- All that was recorded, numbered from 1. -/
def log (calls : List Call) : List Record :=
  (calls.filterMap Call.recorded?).mapIdx fun i (change, time) => ⟨change, i + 1, time⟩

/-- How many records were made since the last clearing. -/
def sinceClear (calls : List Call) : Nat := (calls.rtakeWhile (·.recorded?.isSome)).length

/-- How many of `n` records are kept under a limit. -/
def kept (limit : Option Nat) (n : Nat) : Nat := limit.elim n (min · n)

section Log

variable (calls : List Call) (change : Change) (time : Time.Instant)

theorem log_record : log (calls ++ [.record change time]) =
    log calls ++ [⟨change, (log calls).length + 1, time⟩] := by
  simp [log, Call.recorded?, List.mapIdx_concat]

theorem length_log_record :
    (log (calls ++ [.record change time])).length = (log calls).length + 1 := by
  rw [log_record, List.length_append, List.length_singleton]

theorem log_clear : log (calls ++ [.clear]) = log calls := by
  simp [log, List.filterMap_cons, Call.recorded?]

theorem sinceClear_record : sinceClear (calls ++ [.record change time]) = sinceClear calls + 1 := by
  rw [sinceClear, List.rtakeWhile_concat_pos _ _ _ rfl, List.length_append]
  rfl

theorem sinceClear_clear : sinceClear (calls ++ [.clear]) = 0 := by
  rw [sinceClear, List.rtakeWhile_concat_neg _ _ _ (by simp [Call.recorded?])]
  rfl

theorem sinceClear_le : sinceClear calls ≤ (log calls).length := by
  induction calls using List.reverseRecOn with
  | nil => exact Nat.le_refl _
  | append_singleton calls c ih =>
    cases c with
    | record change time =>
      rw [sinceClear_record, length_log_record]
      exact Nat.succ_le_succ ih
    | clear =>
      rw [sinceClear_clear]
      exact Nat.zero_le _

theorem seq_log : (log calls).map (·.seq) = List.range' 1 (log calls).length := by
  induction calls using List.reverseRecOn with
  | nil => rfl
  | append_singleton calls c ih =>
    cases c with
    | record change time =>
      rw [length_log_record, log_record, List.map_append, ih, List.range'_concat,
        List.map_singleton, Nat.one_mul, Nat.add_comm 1]
    | clear => rw [log_clear, ih]

end Log

/-! ## The end of the log -/

section Follows

variable {limit : Option Nat} {calls : List Call} {t : Trace}

theorem kept_le (limit : Option Nat) (n : Nat) : kept limit n ≤ n := by
  cases limit with
  | none => exact Nat.le_refl _
  | some m => exact Nat.min_le_right m n

theorem latest_rtake {α : Type} {n : Nat} {xs : List α} (hn : n ≤ xs.length) :
    latest limit (xs.rtake n) = xs.rtake (kept limit n) := by
  cases limit with
  | none => rfl
  | some m =>
    simp only [latest, kept, List.rtake, Option.elim_some, List.drop_drop, List.length_drop]
    congr 1
    omega

/-- The history of a trace holds the end of the log of the calls. -/
structure Follows (limit : Option Nat) (calls : List Call) (t : Trace) : Prop where
  numbers_eq : t.numbers = List.range' 1 (log calls).length
  limit_eq : t.history.limit = limit
  records_eq : t.history.records = (log calls).rtake (kept limit (sinceClear calls))
  nextSeq_eq : t.history.nextSeq = (log calls).length + 1

theorem Follows.record (h : Follows limit calls t) (change : Change) (time : Time.Instant) :
    Follows limit (calls ++ [.record change time]) (t.call (.record change time)) where
  numbers_eq := by
    simp only [Trace.call, append]
    rw [h.numbers_eq, h.nextSeq_eq, length_log_record, List.range'_concat, Nat.one_mul,
      Nat.add_comm 1]
  limit_eq := h.limit_eq
  records_eq := by
    simp only [Trace.call, append, History.record]
    rw [h.limit_eq, h.records_eq, h.nextSeq_eq, ← latest_rtake (sinceClear_le calls),
      latest_latest_append, ← List.rtake_concat_succ, ← log_record, ← sinceClear_record,
      latest_rtake (sinceClear_le _)]
  nextSeq_eq := by
    simp only [Trace.call, append, nextSeq_record]
    rw [h.nextSeq_eq, length_log_record]

theorem Follows.clear (h : Follows limit calls t) :
    Follows limit (calls ++ [.clear]) (t.call .clear) where
  numbers_eq := by rw [log_clear]; exact h.numbers_eq
  limit_eq := h.limit_eq
  records_eq := by
    have hkept : kept limit 0 = 0 := Nat.le_zero.1 (kept_le limit 0)
    rw [sinceClear_clear, hkept, List.rtake_zero]
    rfl
  nextSeq_eq := by rw [log_clear]; exact h.nextSeq_eq

theorem follows_run (limit : Option Nat) (calls : List Call) :
    Follows limit calls (run limit calls) := by
  induction calls using List.reverseRecOn with
  | nil =>
    refine ⟨rfl, rfl, ?_, rfl⟩
    simp [run, empty, log, List.rtake]
  | append_singleton calls c ih =>
    rw [run, List.foldl_append]
    cases c with
    | record change time => exact ih.record change time
    | clear => exact ih.clear

/-- The numbers of the kept records end with the last number given out. -/
theorem Follows.seq_records (h : Follows limit calls t) :
    t.history.records.map (·.seq) =
      List.range' ((log calls).length - t.history.size + 1) t.history.size := by
  have hle := (kept_le limit _).trans (sinceClear_le calls)
  have hsize : t.history.size = kept limit (sinceClear calls) := by
    rw [size, h.records_eq, List.rtake, List.length_drop]
    omega
  rw [hsize, h.records_eq, List.rtake, List.map_drop, seq_log, List.drop_range']
  congr 1 <;> omega

theorem Follows.sorted (h : Follows limit calls t) :
    t.history.records.Pairwise (·.seq < ·.seq) := by
  apply List.pairwise_map.1
  rw [h.seq_records]
  exact List.pairwise_lt_range'

theorem Follows.get_eq_ok_iff (h : Follows limit calls t) {seq : Nat} {r : Record} :
    t.history.get seq = .ok r ↔ r ∈ t.history.records ∧ r.seq = seq := by
  rw [← bisect_eq_some_iff h.sorted, History.get]
  cases bisect seq t.history.records <;> simp

theorem Follows.get_eq_error_iff (h : Follows limit calls t) {seq : Nat} :
    t.history.get seq = .error ⟨seq⟩ ↔ ∀ r ∈ t.history.records, r.seq ≠ seq := by
  rw [← bisect_eq_none_iff h.sorted, History.get]
  cases bisect seq t.history.records <;> simp

theorem countP_actions (rs : List Record) :
    rs.countP (·.action = .created) + rs.countP (·.action = .updated) +
      rs.countP (·.action = .deleted) = rs.length := by
  induction rs with
  | nil => rfl
  | cons r rs ih =>
    rw [List.length_cons, ← ih]
    cases hr : r.action <;> simp [hr] <;> omega

theorem Follows.firstSeq_lastSeq (h : Follows limit calls t) :
    (t.history.records = [] ∧ t.history.stats.firstSeq = none ∧ t.history.stats.lastSeq = none) ∨
      ∃ a b, t.history.stats.firstSeq = some a ∧ t.history.stats.lastSeq = some b ∧ a ≤ b ∧
        t.history.stats.total = b - a + 1 := by
  simp only [stats]
  cases hsize : t.history.size with
  | zero =>
    left
    simp [List.length_eq_zero_iff.1 hsize]
  | succ n =>
    right
    rw [← List.head?_map, ← List.getLast?_map, h.seq_records, hsize, List.head?_range',
      List.getLast?_range']
    refine ⟨_, _, rfl, rfl, ?_, ?_⟩ <;> omega

/-- **What a history holds is the end of the log.** Whatever is recorded and cleared, the numbers
given out are 1, 2, 3 and so on, the records are the last of those made since the last clearing,
each is found by its number, and the statistics count them. -/
theorem run_holds_tail (limit : Option Nat) (calls : List Call) :
    ∃ h, run limit calls = ⟨List.range' 1 (log calls).length, h⟩ ∧
      h.records = (log calls).rtake (kept limit (sinceClear calls)) ∧
      sinceClear calls ≤ (log calls).length ∧
      (∀ seq r, h.get seq = .ok r ↔ r ∈ h.records ∧ r.seq = seq) ∧
      (∀ seq, h.get seq = .error ⟨seq⟩ ↔ ∀ r ∈ h.records, r.seq ≠ seq) ∧
      (∀ item, h.latestFor? item = (h.recordsFor item).getLast?) ∧
      h.stats.created + h.stats.updated + h.stats.deleted = h.stats.total ∧
      h.stats.total = h.records.length ∧
      ((h.records = [] ∧ h.stats.firstSeq = none ∧ h.stats.lastSeq = none) ∨
        ∃ a b, h.stats.firstSeq = some a ∧ h.stats.lastSeq = some b ∧ a ≤ b ∧
          h.stats.total = b - a + 1) := by
  have h := follows_run limit calls
  refine ⟨(run limit calls).history, ?_, h.records_eq, sinceClear_le calls,
    fun _ _ => h.get_eq_ok_iff, fun _ => h.get_eq_error_iff, latestFor?_eq _,
    countP_actions _, rfl, h.firstSeq_lastSeq⟩
  rw [← h.numbers_eq]

end Follows

end History

end ItemBudget.Journal
