import ItemBudget.Journal.Export
import ItemBudget.Proofs.Double.Text
import ItemBudget.Proofs.Journal.Tail
import Mathlib

/-!
# The lines of an export

The text of a history shows each record in a line, with the actor's name as it is. What a cost or a
time is shown as is a word: it has neither a blank nor a line feed (`Solid`). So what follows the
actor in a line is a fixed number of words, which are found from its end whatever the name is, and
what comes before it is found from its start (`Record.identity_eq_of_shown`).

Only a line feed in a name breaks this: a name can close its own line and open another one, which
shows a record that the history does not have (`forged_actor_shows_two_records`).
-/

namespace ItemBudget.Journal

/-! ## Words -/

/-- Characters that neither end a word nor a line. -/
def Solid (cs : List Char) : Prop := ∀ c ∈ cs, c ≠ ' ' ∧ c ≠ '\n'

section Solid

variable {cs ds : List Char} {c : Char}

@[simp] theorem solid_nil : Solid [] := nofun

@[simp] theorem solid_cons : Solid (c :: cs) ↔ (c ≠ ' ' ∧ c ≠ '\n') ∧ Solid cs := List.forall_mem_cons

@[simp] theorem solid_append : Solid (cs ++ ds) ↔ Solid cs ∧ Solid ds := List.forall_mem_append

theorem Solid.subset (h : Solid ds) (hsub : cs ⊆ ds) : Solid cs := fun c hc => h c (hsub hc)

theorem Solid.blank_notMem (h : Solid cs) : ' ' ∉ cs := fun hmem => (h _ hmem).1 rfl

theorem Solid.count_break (h : Solid cs) : cs.count '\n' = 0 :=
  List.count_eq_zero.2 fun hmem => (h _ hmem).2 rfl

theorem solid_of_digits (h : ∀ c ∈ cs, c.isDigit = true) : Solid cs := by
  intro c hc
  have hdigit := h c hc
  constructor <;> rintro rfl <;> exact absurd hdigit (by decide)

@[simp] theorem solid_digitsOf (n : ℕ) : Solid (Decimal.digitsOf n) :=
  solid_of_digits fun _ => Double.isDigit_of_mem_digitsOf

@[simp] theorem solid_zeros (n : ℕ) : Solid (List.replicate n '0') :=
  solid_of_digits fun _ => Double.isDigit_of_mem_replicate

@[simp] theorem solid_signText (negative : Bool) : Solid (Decimal.signText negative) := by
  cases negative <;> simp [Decimal.signText]

theorem solid_write {x : Float} {finite : ℕ → ℤ → List Char} (h : ∀ m q, Solid (finite m q)) :
    Solid (Decimal.write x finite).toList := by
  rw [Decimal.write, String.toList_ofList]
  split
  · simp
  · simp
  · simp [h]

theorem solid_with_point (h : Solid cs) (n : ℕ) : Solid (cs.take n ++ '.' :: cs.drop n) :=
  solid_append.2 ⟨h.subset (List.take_subset _ _),
    solid_cons.2 ⟨by decide, h.subset (List.drop_subset _ _)⟩⟩

theorem solid_fixed (places : ℕ) (x : Float) : Solid (Decimal.fixed places x).toList :=
  solid_write fun _ _ => solid_with_point (by simp) _

theorem dropEnd_subset : Text.dropEnd c cs ⊆ cs := by
  intro d hd
  rw [Text.dropEnd, List.mem_reverse] at hd
  exact List.mem_reverse.1 ((List.dropWhile_sublist _).subset hd)

@[simp] theorem solid_costText (x : Float) : Solid (costText x).toList := by
  have htext := ((solid_fixed 2 (round2 x)).subset (@dropEnd_subset _ '0')).subset
    (@dropEnd_subset _ '.')
  rw [costText]
  generalize Text.dropEnd '.' _ = text at htext ⊢
  split_ifs
  · simp
  · rwa [String.toList_ofList]

@[simp] theorem solid_sideText (cost : Option Float) : Solid (sideText cost).toList := by
  cases cost with
  | none => simp [sideText]
  | some x => simp [sideText]

@[simp] theorem solid_deltaText (delta : Float) : Solid (deltaText delta).toList := by
  rw [deltaText]
  split_ifs <;> simp

@[simp] theorem solid_padded (width n : ℕ) : Solid (Time.padded width n) :=
  solid_append.2 ⟨solid_zeros _, solid_digitsOf n⟩

@[simp] theorem solid_yearText (year : ℤ) : Solid (Time.yearText year) := by
  unfold Time.yearText
  split_ifs <;> simp

@[simp] theorem solid_fractionText (nanos : ℕ) : Solid (Time.fractionText nanos) := by
  unfold Time.fractionText
  split_ifs <;> simp

@[simp] theorem solid_time (t : Time.Instant) : Solid t.text.toList := by
  rw [Time.Instant.text, String.toList_ofList, Time.Instant.render]
  simp

end Solid

/-! ## Taking a line apart -/

section Cuts

variable {α : Type} {c : α} {xs xs' ys ys' : List α}

/-- The first place of a separator cuts a list in one way. -/
theorem cut_first (hx : c ∉ xs) (hx' : c ∉ xs') (h : xs ++ c :: ys = xs' ++ c :: ys') :
    xs = xs' ∧ ys = ys' := by
  induction xs generalizing xs' with
  | nil =>
    cases xs' with
    | nil => exact ⟨rfl, (List.cons.inj h).2⟩
    | cons x xs' => exact (hx' ((List.cons.inj h).1 ▸ List.mem_cons_self)).elim
  | cons x xs ih =>
    cases xs' with
    | nil => exact (hx ((List.cons.inj h).1 ▸ List.mem_cons_self)).elim
    | cons x' xs' =>
      obtain ⟨rfl, htail⟩ := List.cons.inj h
      rw [List.mem_cons, not_or] at hx hx'
      obtain ⟨rfl, rfl⟩ := ih hx.2 hx'.2 htail
      exact ⟨rfl, rfl⟩

/-- So does the last place. -/
theorem cut_last (hy : c ∉ ys) (hy' : c ∉ ys') (h : xs ++ c :: ys = xs' ++ c :: ys') :
    xs = xs' ∧ ys = ys' := by
  have hrev := congrArg List.reverse h
  simp only [List.reverse_append, List.reverse_cons, List.append_assoc, List.singleton_append]
    at hrev
  obtain ⟨hys, hxs⟩ := cut_first (mt List.mem_reverse.1 hy) (mt List.mem_reverse.1 hy') hrev
  exact ⟨List.reverse_injective hxs, List.reverse_injective hys⟩

end Cuts

/-- Words, each after a blank. -/
def spaced (ws : List (List Char)) : List Char := ws.flatMap (' ' :: ·)

/-- As many words at the end of a line are there in one way. -/
theorem spaced_inj {cs cs' : List Char} {ws ws' : List (List Char)} (hlen : ws.length = ws'.length)
    (hws : ∀ w ∈ ws, Solid w) (hws' : ∀ w ∈ ws', Solid w)
    (h : cs ++ spaced ws = cs' ++ spaced ws') : cs = cs' ∧ ws = ws' := by
  induction ws using List.reverseRecOn generalizing ws' with
  | nil =>
    obtain rfl := List.length_eq_zero_iff.1 hlen.symm
    exact ⟨by simpa [spaced] using h, rfl⟩
  | append_singleton ws w ih =>
    obtain rfl | ⟨us, u, rfl⟩ := ws'.eq_nil_or_concat'
    · simp at hlen
    · simp only [spaced, List.flatMap_append, List.flatMap_singleton, ← List.append_assoc] at h
      obtain ⟨hfront, rfl⟩ :=
        cut_last (hws w (by simp)).blank_notMem (hws' u (by simp)).blank_notMem h
      have hlen' : ws.length = us.length := by simpa using hlen
      obtain ⟨rfl, rfl⟩ := ih hlen' (fun w hw => hws w (by simp [hw]))
        (fun u hu => hws' u (by simp [hu])) hfront
      exact ⟨rfl, rfl⟩

namespace Record

variable (r : Record)

/-- The number and the item of a record, and what was done, up to the actor. -/
def opening : List Char :=
  "  #".toList ++ (Decimal.digitsOf r.seq ++ ' ' :: ((itemIdText r.item).toList ++
    ' ' :: (r.action.name.toList ++ ' ' :: "by ".toList)))

/-- The words after the actor. -/
def closing : List (List Char) :=
  [(sideText r.before).toList, "->".toList, (sideText r.after).toList,
    '(' :: ((deltaText r.delta).toList ++ [')']), [], "at".toList, r.time.text.toList]

theorem length_closing : r.closing.length = 7 := rfl

theorem toList_shown :
    r.shown.toList = r.opening ++ r.actor.toList ++ [':'] ++ spaced r.closing := by
  simp [shown, opening, closing, spaced, Decimal.digitsOf, Nat.repr, toString]

theorem solid_closing : ∀ w ∈ r.closing, Solid w := by
  simp [closing]

theorem solid_name (action : Action) : Solid action.name.toList := by
  cases action <;> simp [Action.name]

theorem solid_item (item : ItemId) : Solid (itemIdText item).toList := by
  have hdigits : (toString item).toList = Decimal.digitsOf item := String.toList_ofList
  rw [itemIdText, String.toList_append, hdigits]
  simp

/-- Only the actor can hold a line feed. -/
theorem count_shown : r.shown.toList.count '\n' = r.actor.toList.count '\n' := by
  have hopening : r.opening.count '\n' = 0 := by
    simp [opening, (solid_digitsOf _).count_break, (solid_name _).count_break,
      (solid_item _).count_break]
  have hclosing : (spaced r.closing).count '\n' = 0 := by
    rw [spaced, List.count_flatMap, List.sum_eq_zero_iff]
    intro n hn
    obtain ⟨w, hw, rfl⟩ := List.mem_map.1 hn
    simp [(r.solid_closing w hw).count_break]
  simp [toList_shown, List.count_append, hopening, hclosing]

/-- What the line of a record says of it beside the costs and the time. -/
def identity : ℕ × ItemId × Action × String := (r.seq, r.item, r.action, r.actor)

theorem digitsOf_injective : Function.Injective Decimal.digitsOf :=
  Function.LeftInverse.injective Double.ofDigits_digitsOf

theorem itemIdText_injective : Function.Injective itemIdText := by
  intro m n h
  exact Nat.repr_injective ((String.append_right_inj _).1 h)

theorem name_injective : Function.Injective Action.name := by
  intro a b h
  cases a <;> cases b <;> first | rfl | exact absurd h (by decide)

/-- A line tells whose record it is, whatever the actors are called. -/
theorem identity_eq_of_shown {r r' : Record} (h : r.shown = r'.shown) :
    r.identity = r'.identity := by
  have hlist := congrArg String.toList h
  rw [toList_shown, toList_shown] at hlist
  have hlen : r.closing.length = r'.closing.length := r.length_closing.trans r'.length_closing.symm
  -- from the end: what follows the actor is a fixed number of words
  obtain ⟨hfront, -⟩ := spaced_inj hlen r.solid_closing r'.solid_closing hlist
  have hnamed := (List.append_left_inj _).1 hfront
  simp only [opening, List.append_assoc, List.append_cancel_left_eq, List.cons_append] at hnamed
  -- from the start: the words before the actor
  obtain ⟨hseq, hnamed⟩ :=
    cut_first (solid_digitsOf _).blank_notMem (solid_digitsOf _).blank_notMem hnamed
  obtain ⟨hitem, hnamed⟩ :=
    cut_first (solid_item _).blank_notMem (solid_item _).blank_notMem hnamed
  obtain ⟨haction, hnamed⟩ :=
    cut_first (solid_name _).blank_notMem (solid_name _).blank_notMem hnamed
  have hactor := (List.append_right_inj _).1 hnamed
  rw [identity, identity, digitsOf_injective hseq,
    itemIdText_injective (String.toList_injective hitem),
    name_injective (String.toList_injective haction), String.toList_injective hactor]

theorem map_identity_eq_of_shown {rs rs' : List Record} (h : rs.map shown = rs'.map shown) :
    rs.map identity = rs'.map identity := by
  induction rs generalizing rs' with
  | nil =>
    rw [List.map_eq_nil_iff.1 h.symm]
  | cons r rs ih =>
    obtain ⟨r', rs', rfl, hr, hrs⟩ := List.map_eq_cons_iff.1 h.symm
    rw [List.map_cons, List.map_cons, identity_eq_of_shown hr.symm, ih hrs.symm]

end Record

/-! ## Lines -/

/-- The text is made of the lines: each is followed by a line feed and holds none. -/
def IsLines (text : String) (lines : List String) : Prop :=
  text = String.join (lines.map (· ++ "\n")) ∧ ∀ l ∈ lines, '\n' ∉ l.toList

/-- A text is made of lines in one way. -/
theorem IsLines.unique {text : String} {ls ls' : List String} (h : IsLines text ls)
    (h' : IsLines text ls') : ls = ls' := by
  obtain ⟨heq, hls⟩ := h
  obtain ⟨heq', hls'⟩ := h'
  rw [heq] at heq'
  clear heq
  induction ls generalizing ls' with
  | nil =>
    cases ls' with
    | nil => rfl
    | cons l' ls' => simpa using congrArg String.toList heq'
  | cons l ls ih =>
    cases ls' with
    | nil => simpa using congrArg String.toList heq'
    | cons l' ls' =>
      rw [List.forall_mem_cons] at hls hls'
      have hlist := congrArg String.toList heq'
      simp only [List.map_cons, String.join_cons, String.toList_append, List.append_assoc] at hlist
      obtain ⟨hl, hrest⟩ := cut_first hls.1 hls'.1 hlist
      rw [String.toList_injective hl, ih hls.2 (String.toList_injective hrest) hls'.2]

namespace History

variable (h h' : History)

theorem recordLines_eq :
    h.recordLines = String.join ((h.records.map Record.shown).map (· ++ "\n")) := by
  rw [recordLines, List.map_map]
  rfl

theorem isLines_recordLines_iff :
    IsLines h.recordLines (h.records.map Record.shown) ↔
      ∀ r ∈ h.records, '\n' ∉ r.actor.toList := by
  rw [IsLines, ← recordLines_eq, List.forall_mem_map, eq_self_iff_true, true_and]
  refine forall₂_congr fun r _ => ?_
  rw [← List.count_eq_zero, Record.count_shown, List.count_eq_zero]

theorem count_recordLines : h.recordLines.toList.count '\n' =
    h.records.length + (h.records.map fun r => r.actor.toList.count '\n').sum := by
  have hline : ∀ r : Record, r.line.toList.count '\n' = r.actor.toList.count '\n' + 1 := by
    intro r
    rw [Record.line, String.toList_append, List.count_append, Record.count_shown]
    rfl
  rw [recordLines, String.toList_join, List.count_flatMap, List.map_map]
  simp only [Function.comp_def, hline, List.sum_map_add, List.map_const', List.sum_replicate,
    smul_eq_mul, mul_one]
  exact Nat.add_comm _ _

/-- **The lines of an export.** The section of the records has a line feed for each record and each
line feed in an actor's name. Its lines are those of the records, one for each in their order,
exactly when no name holds a line feed; and then the section tells how many records there are, and
the number, the item, the action and the actor of each. -/
theorem record_lines_tell_records :
    h.recordLines.toList.count '\n' =
      h.records.length + (h.records.map fun r => r.actor.toList.count '\n').sum ∧
    (IsLines h.recordLines (h.records.map Record.shown) ↔
      ∀ r ∈ h.records, '\n' ∉ r.actor.toList) ∧
    ((∀ r ∈ h.records ++ h'.records, '\n' ∉ r.actor.toList) → h.recordLines = h'.recordLines →
      h.records.map Record.identity = h'.records.map Record.identity) := by
  refine ⟨h.count_recordLines, h.isLines_recordLines_iff, fun hactors heq => ?_⟩
  rw [List.forall_mem_append] at hactors
  have hlines := h.isLines_recordLines_iff.2 hactors.1
  have hlines' := h'.isLines_recordLines_iff.2 hactors.2
  rw [← heq] at hlines'
  exact Record.map_identity_eq_of_shown (hlines.unique hlines')

/-- A name that shows what follows it in its record's line, and the line of another record up to
that one's name. -/
def forgedActor : String :=
  "ana: - -> 36 (+36)  at 2024-03-01T12:00:00+00:00\n  #2 item:2 created by bo"

/-- One record of the forged actor is shown as two records of two actors are. -/
theorem forged_actor_shows_two_records :
    ∃ one two,
      (run none [.record ⟨1, .created, forgedActor, none, some 36⟩ ⟨1709294400, 0⟩]).history = one ∧
      (run none [.record ⟨1, .created, "ana", none, some 36⟩ ⟨1709294400, 0⟩,
        .record ⟨2, .created, "bo", none, some 36⟩ ⟨1709294400, 0⟩]).history = two ∧
      one.recordLines = two.recordLines ∧ one.size = 1 ∧ two.size = 2 := by
  refine ⟨_, _, rfl, rfl, ?_, ?_, ?_⟩
  · decide +kernel
  · decide
  · decide

end History

end ItemBudget.Journal
