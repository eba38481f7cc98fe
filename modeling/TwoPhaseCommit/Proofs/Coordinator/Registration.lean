import TwoPhaseCommit.Coordinator
import TwoPhaseCommit.Proofs.Call.View

/- What the registration of a transaction does on the ledger: it creates one value, in attempts, and
   reads nothing. `register_obeys` lists its requests and its endings. The wait between two attempts,
   `backOff_obeys`, is that of every loop over attempts. -/
namespace TwoPhaseCommit
namespace Registration

/-- What a call that stores `value` under `id` may ask for, having seen `v`. -/
inductive Asks (policy : RetryPolicy) (id : String) (value : Bytes) (v : View) : Request → Prop where
  | create (fresh : v = .start v.lost) (left : v.lost < policy.attempts) :
    Asks policy id value v (.ledger (.create id value))
  | pause (lost : v = .start v.lost) (left : v.lost < policy.attempts) :
    Asks policy id value v (.pause (policy.delay v.lost))
  /-- Not after a create that was denied. -/
  | log (event : Event) (unread : v.read = none) (granted : v.write ≠ some (.ok false)) :
    Asks policy id value v (.log event)

/-- How a call that stores a value under `id` may end, having seen `v`. -/
inductive Ends (policy : RetryPolicy) (id : String) (v : View) : Except Error Unit → Prop where
  | created (left : v.lost < policy.attempts) (unread : v.read = none)
    (written : v.write = some (.ok true)) : Ends policy id v (.ok ())
  | occupied (left : v.lost < policy.attempts) (unread : v.read = none)
    (refused : v.write = some (.ok false)) :
    Ends policy id v (.error (Refusal.alreadyRegistered id).error)
  /-- The write fails otherwise than by losing. -/
  | unwritten {e : Error} (left : v.lost < policy.attempts) (unread : v.read = none)
    (write : v.write = some (.error e)) (kind : e.kind ≠ .conflict) : Ends policy id v (.error e)
  | exhausted (lost : v = .start policy.attempts) :
    Ends policy id v (.error (Refusal.contention .startVoting id).error)

end Registration

namespace Coordinator
open Registration

/-- After attempt number `lost` a call that has `left` attempts more asks for nothing but the pause
    before it goes on, and if there are none it does not pause. -/
theorem backOff_obeys {α : Type} {asks : View → Request → Prop} {ends : View → α → Prop}
    (c : Coordinator) {lost left : Nat} {next : Call α}
    (pauses : left ≠ 0 → asks (.start lost) (.pause (c.retry.delay lost)))
    (h : next.Obeys asks ends (.start lost)) :
    (c.backOff lost left >>= fun _ => next).Obeys asks ends (.start lost) := by
  rw [backOff]
  split
  · exact h
  · next hleft => exact ⟨pauses hleft, fun _ => h⟩

theorem register_obeys (c : Coordinator) (id : String) (cohorts : Int32) (deadline : Int64)
    (value : Bytes) : ∀ (left lost : Nat), lost + left = c.retry.attempts →
    (c.register id cohorts deadline value left (lost + 1)).Obeys (Asks c.retry id value)
      (Ends c.retry id) (.start lost) := by
  -- the attempts that are lost and those that are left always add up to those allowed
  intro left
  induction left with
  | zero =>
    intro lost hl
    exact ⟨.log _ rfl nofun, fun _ => .exhausted (by rw [← hl]; rfl)⟩
  | succ left ih =>
    intro lost hl
    have hlt : lost < c.retry.attempts := by omega
    refine ⟨.create rfl hlt, fun x => ?_⟩
    match x with
    | .ok .created => exact ⟨.log _ rfl nofun, fun _ => .created hlt rfl rfl⟩
    | .ok .occupied => exact .occupied hlt rfl rfl
    | .error ⟨kind, reason⟩ =>
      cases kind with
      | conflict =>
        refine ⟨.log _ rfl nofun, fun _ => ?_⟩
        apply c.backOff_obeys
        · intro hleft
          have hlt' : lost + 1 < c.retry.attempts := by omega
          exact .pause rfl hlt'
        · exact ih (lost + 1) (by omega)
      | _ => exact .unwritten hlt rfl rfl (by simp)

end Coordinator
end TwoPhaseCommit
