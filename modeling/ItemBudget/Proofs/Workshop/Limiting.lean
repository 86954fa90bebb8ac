import ItemBudget.Proofs.RateLimit.Safety
import ItemBudget.Proofs.Workshop.Refusal

/-!
# Limits in a workshop

A refusal always tells the actor a time to wait. A call of a workshop uses its limiter at most
twice, by a sweep and a check, or not at all, so the limiter of a workshop stays `Guarded` in every
run, and with it the answers. The main theorem puts this beside what holds of a limiter by itself.
-/

namespace ItemBudget.Workshop

open RateLimit

variable {w : Workshop} {actor : String} {now : Clock} {c : Call} {limit : Limit}

/-- The limiter of a workshop, if there is one, has a limit in range and buckets that hold it. -/
def Guarded (w : Workshop) : Prop :=
  ∀ l, w.limiter = some l → l.limit.InRange ∧ l.Sound

/-! ## Letting in -/

/-- An actor is let in or refused by a check after a sweep. -/
theorem letIn_eq {l : Limiter} (hw : w.limiter = some l) (actor : String) (now : Clock) :
    w.letIn actor now =
      let r := (l.sweepAbove sweepAbove now.steady).2.check actor now.steady
      (match r.1 with
        | .allowed _ _ => .ok ()
        | .limited wait _ => .error (.rateLimited actor wait), { w with limiter := some r.2 }) := by
  cases w
  cases hw
  rfl

theorem Guarded.sweepAbove (h : w.Guarded) {l : Limiter} (hw : w.limiter = some l) (now : Clock) :
    (l.sweepAbove sweepAbove now.steady).2.limit.InRange ∧
      (l.sweepAbove sweepAbove now.steady).2.Sound := by
  obtain ⟨hrange, hsound⟩ := h l hw
  have hlimit := l.limit_call now.steady (.sweepAbove Workshop.sweepAbove)
  exact ⟨by rwa [← hlimit] at hrange, hsound.call hrange now.steady (.sweepAbove _)⟩

theorem Guarded.letIn (h : w.Guarded) (actor : String) (now : Clock) :
    (w.letIn actor now).2.Guarded := by
  intro l hl
  cases hw : w.limiter with
  | none =>
    have hsame := (w.sameRules_letIn actor now).2
    rw [hl, hw] at hsame
    cases hsame
  | some l₀ =>
    rw [letIn_eq hw] at hl
    cases hl
    obtain ⟨hrange, hsound⟩ := h.sweepAbove hw now
    exact ⟨hrange, hsound.call hrange now.steady (.check actor)⟩

/-- Whoever is not let in is told a time to wait. -/
theorem Guarded.isSome_wait (h : w.Guarded) {other : String} {wait : Option Time.Nanos}
    (he : (w.letIn actor now).1 = .error (.rateLimited other wait)) : wait.isSome = true := by
  cases hw : w.limiter with
  | none =>
    unfold Workshop.letIn at he
    rw [hw] at he
    cases he
  | some l =>
    obtain ⟨hrange, hsound⟩ := h.sweepAbove hw now
    rw [letIn_eq hw] at he
    dsimp only at he
    split at he
    · cases he
    · next hv =>
      cases he
      exact hsound.isSome_wait hrange hv

/-! ## Calls -/

theorem guarded_new (hl : limit.InRange) (hw : w.limiter = some (.new limit)) : w.Guarded := by
  intro l hlim
  cases hw.symm.trans hlim
  exact ⟨hl, Limiter.sound_new limit⟩

/-- A call asks the limiter for one actor or leaves it. -/
theorem limiter_call (w : Workshop) (now : Clock) (c : Call) :
    (∃ actor, (w.call now c).2.limiter = (w.letIn actor now).2.limiter) ∨
      (w.call now c).2.limiter = w.limiter := by
  cases c with
  | create actor item => exact .inl ⟨actor, limiter_change⟩
  | update actor id item => exact .inl ⟨actor, limiter_change⟩
  | delete actor id => exact .inl ⟨actor, limiter_change⟩
  | setConfig actor config =>
    rw [call, setConfig]
    cases Formula.validate config.expression with
    | error fault => exact .inr rfl
    | ok u => exact .inl ⟨actor, limiter_change⟩
  | _ => exact .inr rfl

theorem Guarded.call (h : w.Guarded) (now : Clock) (c : Call) : (w.call now c).2.Guarded := by
  intro l hl
  rcases w.limiter_call now c with ⟨actor, hc⟩ | hc
  · exact h.letIn actor now l (hc ▸ hl)
  · exact h l (hc ▸ hl)

/-- A call that is refused for its rate is told a time to wait. -/
theorem Guarded.reply (h : w.Guarded) {actor : String} {wait : Option Time.Nanos}
    (hr : (w.call now c).1 = .error (.rateLimited actor wait)) : wait.isSome = true := by
  rcases call_error hr with ⟨asked, he⟩ | ⟨id, he⟩ | ⟨⟨fault, he⟩, -⟩
  · exact h.isSome_wait he
  · cases he
  · cases he

theorem Guarded.run (h : w.Guarded) (calls : List (Call × Clock)) :
    (Workshop.run w calls).workshop.Guarded := by
  induction calls using List.reverseRecOn with
  | nil => exact h
  | append_singleton calls c ih =>
    rw [run_append]
    exact ih.call c.2 c.1

theorem Guarded.replies (h : w.Guarded) (calls : List (Call × Clock)) {e : Event}
    (he : e ∈ (Workshop.run w calls).events) {actor : String} {wait : Option Time.Nanos}
    (hr : e.reply = .error (.rateLimited actor wait)) : wait.isSome = true := by
  induction calls using List.reverseRecOn with
  | nil => cases he
  | append_singleton calls c ih =>
    rw [run_append, Trace.extend, List.mem_append, List.mem_singleton] at he
    rcases he with he | rfl
    · exact ih he
    · exact (h.run calls).reply hr

/-- **Limits hold**: after any uses of a limiter, whatever its limit and at any times, each bucket
has from 0 tokens to the number of requests, was last used at the latest check of its client since
it was made, and tells a wait; a check that is allowed leaves less than the number of requests, and
one that is limited is told a wait. So no call of a workshop with that limit is refused without
one. -/
theorem limits_hold (hl : limit.InRange) :
    (∀ uses : List (Limiter.Use × Time.Nanos),
      let l := (Limiter.new limit).afterUses uses
      (∀ client b, l.buckets.get? client = some b →
        (0.0 ≤ b.tokens ∧ b.tokens ≤ Float.ofNat limit.requests) ∧ b.wait?.isSome = true ∧
        ∃ earlier time later, uses = earlier ++ (.call (.check client), time) :: later ∧
          Limiter.Made limit client earlier time later ∧
          b.updated = (Limiter.checkTimes client later).foldl max time) ∧
      ∀ client now,
        (∀ n requests, (l.check client now).1 = .allowed n requests → n < limit.requests) ∧
        ∀ wait requests,
          (l.check client now).1 = .limited wait requests → wait.isSome = true) ∧
    ∀ w : Workshop, w.limiter = some (.new limit) → ∀ calls, ∀ e ∈ (run w calls).events,
      ∀ actor wait, e.reply = .error (.rateLimited actor wait) → wait.isSome = true := by
  refine ⟨fun uses => ?_, fun w hw calls e he actor wait hr =>
    (guarded_new hl hw).replies calls he hr⟩
  have hsound := Limiter.sound_afterUses hl uses
  have hlimit := Limiter.limit_afterUses (.new limit) uses
  have hrange : ((Limiter.new limit).afterUses uses).limit.InRange := by rwa [hlimit]
  refine ⟨fun client b hb => ?_, fun client now => ⟨fun n _ hn => ?_, fun wait _ hwait => ?_⟩⟩
  · obtain ⟨τ, hτ⟩ := hsound client b hb
    rw [hlimit] at hτ
    obtain ⟨earlier, time, later, huses, hmade, hupdated⟩ := Limiter.exists_made hb
    exact ⟨hτ.tokens_bounds hl, hτ.isSome_wait? hl, earlier, time, later, huses, hmade,
      hupdated.symm⟩
  · have hless := hsound.remaining_lt hrange hn
    rwa [hlimit] at hless
  · exact hsound.isSome_wait hrange hwait

/-- One request in no time at all, and then one at an earlier time: the bucket is empty and tells a
wait. -/
theorem limits_hold_for_one_request :
    let uses : List (Limiter.Use × Time.Nanos) :=
      [(.call (.check "ana"), 9), (.sweep 0, 3), (.call (.check "bo"), 40)]
    let l := (Limiter.new ⟨1, 0⟩).afterUses uses
    ∃ b, l.buckets.get? "ana" = some b ∧ b.tokens ≤ Float.ofNat 1 ∧ b.wait?.isSome = true ∧
      (l.check "ana" 5).1 = .limited (some 1000000000) 1 ∧
      (some 1000000000 : Option Time.Nanos).isSome = true := by
  intro uses l
  have hl : Limit.InRange ⟨1, 0⟩ := ⟨by decide, by decide⟩
  obtain ⟨hbuckets, hchecks⟩ := (limits_hold hl).1 uses
  have hstored : (l.buckets.get? "ana").isSome = true := by decide +kernel
  obtain ⟨b, hb⟩ := Option.isSome_iff_exists.1 hstored
  obtain ⟨⟨-, htokens⟩, hwait, -⟩ := hbuckets "ana" b hb
  have hlimited : (l.check "ana" 5).1 = .limited (some 1000000000) 1 := by decide +kernel
  exact ⟨b, hb, htokens, hwait, hlimited, (hchecks "ana" 5).2 _ _ hlimited⟩

end ItemBudget.Workshop
