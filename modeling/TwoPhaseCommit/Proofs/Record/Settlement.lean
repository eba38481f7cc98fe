import TwoPhaseCommit.Proofs.Record.Outcome
import TwoPhaseCommit.Proofs.Record.RoundTrip

/- Decisions as time goes by, and what it is to settle one. An outcome that is reached stays
   (`ruling_of_le`), and time alone makes one difference: a vote that is open times out at its deadline
   (`ruling_of_open`). To settle a record is to write down the outcome, and nothing else is written
   (`Settled.changed_iff`). From then on no clock makes a difference any more, not even one that is
   behind (`Settled.stands`). `settles_for_good` puts this together. -/
namespace TwoPhaseCommit.Record
variable {r : Record} {now later : Int64} {o : Outcome} {d : Decision} {s : Settlement}

/-! ## As time goes by -/

/-- The outcome that is reached at one second is the outcome at every later one. -/
theorem ruling_of_le (h : r.ruling now = some o) (hle : now ≤ later) : r.ruling later = some o := by
  unfold ruling at h ⊢
  split at h
  · next full => rw [if_pos full, h]
  · next partly =>
    rw [if_neg partly]
    split at h
    · next opposed => rw [if_pos opposed, h]
    · next unopposed =>
      rw [if_neg unopposed]
      -- only this last rule looks at the clock
      split at h
      · next passed => rw [if_pos (Int64.le_trans passed hle), h]
      · cases h

/-- The ballots of an open vote decide it at no second, so its deadline does. -/
theorem ruling_of_open (h : r.ruling now = none) (t : Int64) :
    r.ruling t = if r.deadline ≤ t then some .timedOut else none := by
  unfold ruling at h ⊢
  split at h
  · cases h
  · next partly =>
    split at h
    · cases h
    · next unopposed => rw [if_neg partly, if_neg unopposed]

theorem resolve_of_frozen (frozen : r.frozen = some d) (t : Int64) : r.resolve t = d := by
  rw [resolve, frozen]

theorem resolve_of_ruling (unfrozen : r.frozen = none) (ruling : r.ruling now = some o) :
    r.resolve now = o.decision := by
  rw [resolve, unfrozen, ruling]

theorem resolve_of_open (unfrozen : r.frozen = none) (ruling : r.ruling now = none) :
    r.resolve now = .pending := by
  rw [resolve, unfrozen, ruling]

/-- A final decision that is told is told at every later second. -/
theorem Settled.resolve_of_le (settled : r.Settled now s) (final : s.decision.isTerminal = true)
    (hle : now ≤ later) : r.resolve later = s.decision := by
  cases settled with
  | final frozen => exact resolve_of_frozen frozen later
  | ruled unfrozen ruling => exact resolve_of_ruling unfrozen (ruling_of_le ruling hle)
  | pending => cases final

/-- A decision that is told is final, or it is pending and the vote is open. -/
theorem Settled.final_or_open (settled : r.Settled now s) : s.decision.isTerminal = true ∨
    s = ⟨.pending, false, r⟩ ∧ r.frozen = none ∧ r.ruling now = none := by
  cases settled with
  | final frozen => exact .inl (isTerminal_of_frozen frozen)
  | @ruled o => exact .inl o.isTerminal_decision
  | pending unfrozen ruling => exact .inr ⟨rfl, unfrozen, ruling⟩

theorem Settled.of_pending (settled : r.Settled now s) (pending : s.decision.kind = .pending) :
    s = ⟨.pending, false, r⟩ ∧ r.frozen = none ∧ r.ruling now = none := by
  refine settled.final_or_open.resolve_left fun final => ?_
  rw [Decision.isTerminal, pending] at final
  cases final

/-- Whatever the record holds as its text, no decision of unknown kind is told. -/
theorem Settled.kind_ne_unknown (settled : r.Settled now s) : s.decision.kind ≠ .unknown := by
  intro unknown
  rcases settled.final_or_open with final | ⟨rfl, -⟩
  · rw [Decision.isTerminal, unknown] at final
    cases final
  · cases unknown

/-- Where a pending decision is told, it is told at every second before the deadline, and at the others
    the vote has timed out. -/
theorem Settled.resolve_of_pending (settled : r.Settled now s) (pending : s.decision.kind = .pending)
    (t : Int64) : t < r.deadline ∧ r.resolve t = .pending ∨
      r.deadline ≤ t ∧ r.resolve t = Outcome.timedOut.decision := by
  obtain ⟨-, unfrozen, ruling⟩ := settled.of_pending pending
  have atDeadline := ruling_of_open ruling t
  split at atDeadline
  · next passed => exact .inr ⟨passed, resolve_of_ruling unfrozen atDeadline⟩
  · next early => exact .inl ⟨Int64.not_le.1 early, resolve_of_open unfrozen atDeadline⟩

/-! ## Settling -/

/-- A change is told exactly if there is one. -/
theorem Settled.changed_iff (settled : r.Settled now s) : s.changed = true ↔ s.record ≠ r := by
  cases settled with
  | final | pending => simp
  | @ruled o unfrozen =>
    refine iff_of_true rfl fun (same : r.freeze o = r) => ?_
    -- the settled record has a final decision, which this one had not
    have frozen : (r.freeze o).frozen = none := by rw [same, unfrozen]
    rw [frozen_freeze] at frozen
    cases frozen

/-- A pending decision is not written down. -/
theorem Settled.record_of_pending (settled : r.Settled now s) (pending : s.decision.kind = .pending) :
    s.record = r := by
  rw [(settled.of_pending pending).1]

/-- A final decision that is told stands: at every second, also at earlier ones, the settled record
    tells it, and to settle it again changes nothing. -/
theorem Settled.stands (settled : r.Settled now s) (final : s.decision.isTerminal = true) (t : Int64) :
    s.record.resolve t = s.decision ∧ s.record.settle t = ⟨s.decision, false, s.record⟩ := by
  have frozen : s.record.frozen = some s.decision := (settled.frozen_iff _).2 ⟨rfl, final⟩
  exact ⟨resolve_of_frozen frozen t, settle_of_frozen frozen t⟩

/-- Whatever a record holds, a decision that is final stays the same as time goes by, one that is
    pending stays pending up to the deadline and is a timeout from then on, and none is of unknown kind.
    To settle a record is to tell the decision of that second. It reports a change exactly if the record
    is another one, and so are its bytes; cohorts, deadline and ballots stay as they are. If the decision
    is final, the record tells it from then on at every second, and settling it changes nothing any more;
    if it is pending, the record is left alone. -/
theorem settles_for_good (r : Record) (now : Int64) :
    (∀ later, now ≤ later →
      ((r.resolve now).isTerminal = true → r.resolve later = r.resolve now) ∧
      ((r.resolve now).kind = .pending → later < r.deadline ∧ r.resolve later = .pending ∨
        r.deadline ≤ later ∧ r.resolve later = Outcome.timedOut.decision)) ∧
    (r.resolve now).kind ≠ .unknown ∧
    (r.settle now).decision = r.resolve now ∧
    ((r.settle now).changed = true ↔ (r.settle now).record ≠ r) ∧
    ((r.settle now).changed = true ↔ (r.settle now).record.toBytes ≠ r.toBytes) ∧
    ((r.settle now).record.cohortCount = r.cohortCount ∧
      (r.settle now).record.deadline = r.deadline ∧ (r.settle now).record.votes = r.votes) ∧
    ((r.settle now).decision.isTerminal = true → ∀ t,
      (r.settle now).record.resolve t = (r.settle now).decision ∧
      (r.settle now).record.settle t = ⟨(r.settle now).decision, false, (r.settle now).record⟩) ∧
    ((r.settle now).decision.kind = .pending → (r.settle now).record = r) := by
  have settled : r.Settled now (r.settle now) := r.settled now
  have changed : (r.settle now).changed = true ↔ (r.settle now).record ≠ r := settled.changed_iff
  refine ⟨?time, ?known, decision_settle r now, changed, ?bytes, settled.frame, settled.stands,
    settled.record_of_pending⟩
  case time =>
    intro later hle
    rw [← decision_settle]
    exact ⟨fun final => settled.resolve_of_le final hle,
      fun pending => settled.resolve_of_pending pending later⟩
  case known =>
    rw [← decision_settle]
    exact settled.kind_ne_unknown
  case bytes => rw [changed, ne_eq, ne_eq, toBytes_inj]

/-- A record that holds the text of a pending decision and the commit of a cohort nobody expects. It is
    pending before its deadline and left alone. Once it is settled at the deadline, it has timed out
    also for a clock that is behind. -/
theorem settles_for_good_of_pending_text :
    let r : Record := { new 2 10 with
      votes := .ofList [(7, .commit)], decision := "1 of 2", length_decision := by decide }
    let late := (r.settle 10).record
    (5 : Int64) ≤ 9 ∧ (r.resolve 5).kind = .pending ∧ r.resolve 9 = .pending ∧ (r.settle 5).record = r ∧
    (10 : Int64) ≤ 20 ∧ (r.resolve 10).isTerminal = true ∧ r.resolve 20 = Outcome.timedOut.decision ∧
    late.toBytes ≠ r.toBytes ∧ late.resolve 5 = Outcome.timedOut.decision ∧
    late.settle 5 = ⟨Outcome.timedOut.decision, false, late⟩ := by
  intro r late
  obtain ⟨earlyTime, -, earlyTold, -, -, -, -, untouched⟩ := settles_for_good r 5
  obtain ⟨lateTime, -, lateTold, -, bytes, -, stands, -⟩ := settles_for_good r 10
  have pending : (r.resolve 5).kind = .pending := by decide
  have timedOut : r.resolve 10 = Outcome.timedOut.decision := by decide
  have final : (r.resolve 10).isTerminal = true := by decide
  have stillOpen : r.resolve 9 = .pending := by
    rcases (earlyTime 9 (by decide)).2 pending with ⟨-, told⟩ | ⟨passed, -⟩
    · exact told
    · exact absurd passed (by decide)
  have stayed : r.resolve 20 = Outcome.timedOut.decision :=
    ((lateTime 20 (by decide)).1 final).trans timedOut
  rw [lateTold, timedOut] at stands
  exact ⟨by decide, pending, stillOpen, untouched (by rw [earlyTold, pending]), by decide, final, stayed,
    bytes.1 (by decide), stands (by decide) 5⟩

end TwoPhaseCommit.Record
