import TwoPhaseCommit.Proofs.Coordinator.Registration

/- What a change of a stored record does on the ledger. `Revision.Asks` lists the requests of such a
   call and `Revision.Ends` its endings, each with what the call must have seen before; `update_obeys`
   says that there are no others, whatever the ledger answers. In every attempt the record is read
   afresh, the clock is looked at afresh, and at most one write is made, which is the change of the
   record that was read. -/
namespace TwoPhaseCommit
namespace Revision
variable {α : Type}

/-- What a call that changes the record of `id` may ask for, having seen `v`. -/
inductive Asks (policy : RetryPolicy) (id : String) (change : Coordinator.Change α) (v : View) :
    Request → Prop where
  | read (fresh : v = .start v.lost) (left : v.lost < policy.attempts) :
    Asks policy id change v (.ledger (.read id))
  | now {bytes : Bytes} {r : Record} (left : v.lost < policy.attempts)
    (read : v.read = some (.ok (some bytes))) (record : Record.ofBytes bytes = .ok r)
    (once : v.now = none) (unwritten : v.write = none) : Asks policy id change v .now
  | swap {bytes : Bytes} {r r' : Record} {t : Int64} {a : α} (left : v.lost < policy.attempts)
    (holds : v.Holds bytes r t) (unwritten : v.write = none)
    (changes : change r t = .ok (a, r')) (differs : r'.toBytes ≠ bytes) :
    Asks policy id change v (.ledger (.swap id bytes r'.toBytes))
  | pause (lost : v = .start v.lost) (left : v.lost < policy.attempts) :
    Asks policy id change v (.pause (policy.delay v.lost))
  /-- After a lost write, and when all is done. -/
  | log (event : Event) (quiet : v.read = none ∨ ∃ bytes, v.read = some (.ok (some bytes))) :
    Asks policy id change v (.log event)

/-- How a call that changes the record of `id` may end, having seen `v`. -/
inductive Ends (policy : RetryPolicy) (activity : Activity) (id : String)
    (change : Coordinator.Change α) (v : View) : Except Error α → Prop where
  /-- The change makes no difference to the record that was read, and nothing is written. -/
  | kept {bytes : Bytes} {r r' : Record} {t : Int64} {a : α} (left : v.lost < policy.attempts)
    (holds : v.Holds bytes r t) (unwritten : v.write = none)
    (changes : change r t = .ok (a, r')) (same : r'.toBytes = bytes) :
    Ends policy activity id change v (.ok a)
  /-- The changed record is stored. -/
  | stored {bytes : Bytes} {r r' : Record} {t : Int64} {a : α} (left : v.lost < policy.attempts)
    (holds : v.Holds bytes r t) (written : v.write = some (.ok true))
    (changes : change r t = .ok (a, r')) : Ends policy activity id change v (.ok a)
  /-- The record that was read does not admit the change. -/
  | refused {bytes : Bytes} {r : Record} {t : Int64} {f : Refusal} (left : v.lost < policy.attempts)
    (holds : v.Holds bytes r t) (unwritten : v.write = none) (refuses : change r t = .error f) :
    Ends policy activity id change v (.error f.error)
  | flawed {bytes : Bytes} {flaw : Record.Flaw} (left : v.lost < policy.attempts)
    (read : v.read = some (.ok (some bytes))) (flawed : Record.ofBytes bytes = .error flaw)
    (unwritten : v.write = none) : Ends policy activity id change v (.error flaw.error)
  | missing (left : v.lost < policy.attempts) (read : v.read = some (.ok none))
    (unwritten : v.write = none) :
    Ends policy activity id change v (.error (Refusal.notRegistered id).error)
  /-- The read fails. -/
  | unread {e : Error} (left : v.lost < policy.attempts) (read : v.read = some (.error e))
    (unwritten : v.write = none) : Ends policy activity id change v (.error e)
  /-- The write fails otherwise than by losing. -/
  | unwritten {bytes : Bytes} {r : Record} {t : Int64} {e : Error} (left : v.lost < policy.attempts)
    (holds : v.Holds bytes r t) (write : v.write = some (.error e)) (kind : e.kind ≠ .conflict) :
    Ends policy activity id change v (.error e)
  | exhausted (lost : v = .start policy.attempts) :
    Ends policy activity id change v (.error (Refusal.contention activity id).error)

/-- A call that succeeds answers with what the change of the record it read gives. -/
theorem Ends.of_ok {policy : RetryPolicy} {activity : Activity} {id : String}
    {change : Coordinator.Change α} {v : View} {a : α}
    (h : Ends policy activity id change v (.ok a)) :
    ∃ bytes r t r', v.Holds bytes r t ∧ change r t = .ok (a, r') ∧
      (v.write = none ∧ r'.toBytes = bytes ∨ v.write = some (.ok true)) := by
  cases h with
  | kept left holds unwritten changes same =>
    exact ⟨_, _, _, _, holds, changes, .inl ⟨unwritten, same⟩⟩
  | stored left holds written changes => exact ⟨_, _, _, _, holds, changes, .inr written⟩

end Revision

namespace Coordinator
open Revision
variable {α : Type}

theorem revise_obeys (c : Coordinator) (activity : Activity) (id : String) (change : Change α) :
    ∀ (left lost : Nat), lost + left = c.retry.attempts →
    (c.revise activity id change left (lost + 1)).Obeys (Asks c.retry id change)
      (Ends c.retry activity id change) (.start lost) := by
  -- the attempts that are lost and those that are left always add up to those allowed
  intro left
  induction left with
  | zero =>
    intro lost hl
    exact ⟨.log _ (.inl rfl), fun _ => .exhausted (by rw [← hl]; rfl)⟩
  | succ left ih =>
    intro lost hl
    have hlt : lost < c.retry.attempts := by omega
    -- a lost write is logged, perhaps waited for, and followed by the next attempt
    have again : ∀ (e : Event), (do
        Call.log e
        c.backOff (lost + 1) left
        c.revise activity id change left (lost + 1 + 1) : Call (Except Error α)).Obeys
          (Asks c.retry id change) (Ends c.retry activity id change) (.start (lost + 1)) := by
      intro e
      refine ⟨.log e (.inl rfl), fun _ => ?_⟩
      apply c.backOff_obeys
      · intro hleft
        have hlt' : lost + 1 < c.retry.attempts := by omega
        exact .pause rfl hlt'
      · exact ih (lost + 1) (by omega)
    rw [revise]
    refine ⟨.read rfl hlt, fun x => ?_⟩
    match x with
    | .error e => exact .unread hlt rfl rfl
    | .ok none => exact .missing hlt rfl rfl
    | .ok (some bytes) =>
      simp only [Call.bind, Call.pure_eq]
      cases hr : Record.ofBytes bytes with
      | error flaw => exact .flawed hlt rfl hr rfl
      | ok r =>
        refine ⟨.now hlt rfl hr rfl rfl, fun t => ?_⟩
        have holds : View.Holds ⟨lost, some (.ok (some bytes)), some t, none⟩ bytes r t :=
          ⟨rfl, hr, rfl⟩
        simp only [Call.bind]
        cases hc : change r t with
        | error f => exact .refused hlt holds rfl hc
        | ok p =>
          obtain ⟨a, r'⟩ := p
          dsimp only
          split
          · next same => exact .kept hlt holds rfl hc same
          · next differs =>
            refine ⟨.swap hlt holds rfl hc differs, fun y => ?_⟩
            match y with
            | .ok .swapped => exact .stored hlt ⟨rfl, hr, rfl⟩ rfl hc
            | .ok .conflict => exact again _
            | .error ⟨kind, reason⟩ =>
              cases kind with
              | conflict => exact again _
              | _ => exact .unwritten hlt ⟨rfl, hr, rfl⟩ rfl (by simp)

theorem update_obeys (c : Coordinator) (activity : Activity) (id : String) (change : Change α) :
    (c.update activity id change).Obeys (Asks c.retry id change)
      (Ends c.retry activity id change) (.start 0) :=
  c.revise_obeys activity id change c.retry.attempts 0 (Nat.zero_add _)

end Coordinator
end TwoPhaseCommit
