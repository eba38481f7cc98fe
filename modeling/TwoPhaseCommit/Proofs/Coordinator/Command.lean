import TwoPhaseCommit.Proofs.Coordinator.Registration
import TwoPhaseCommit.Proofs.Coordinator.Revision

/- The calls that can be made on a coordinator, as data. `Command.call_obeys` says what each of them
   does on the ledger, whatever the ledger answers: `objection` is why a command is turned down
   before the ledger is asked anything, `target` the transaction whose record it changes, and
   `change` what becomes of that record. -/
namespace TwoPhaseCommit

/-- A call to make on a coordinator. -/
inductive Command where
  | startVoting (c : Coordinator) (id : String) (cohorts : Int32) (deadline : Int64)
  | vote (c : Coordinator) (id : String) (cohort : Int32) (b : Ballot)
  | decision (c : Coordinator) (id : String)
  | heartbeat (c : Coordinator)

namespace Command

/-- What a command is answered with when it succeeds. -/
@[reducible] def Answer : Command → Type
  | .startVoting .. => Unit
  | .vote .. => VoteEffect
  | .decision .. => Decision
  | .heartbeat _ => Bool

/-- The call that carries a command out. -/
def call : (o : Command) → Call (Except Error o.Answer)
  | .startVoting c id cohorts deadline => c.startVoting id cohorts deadline
  | .vote c id cohort b => c.vote id cohort b
  | .decision c id => c.decision id
  | .heartbeat _ => Coordinator.heartbeat

/-- How often the command tries to write, and how long it waits in between. -/
def policy : Command → RetryPolicy
  | .startVoting c .. | .vote c .. | .decision c _ | .heartbeat c => c.retry

/-- Why the command is turned down by its arguments alone. -/
def objection : Command → Option Refusal
  | .startVoting _ id cohorts _ =>
    if id = "" then some .emptyId else if cohorts < 1 then some (.cohortCount cohorts) else none
  | .vote _ id cohort _ =>
    if id = "" then some .emptyId else if cohort < 0 then some (.negativeCohort cohort) else none
  | .decision _ id => if id = "" then some .emptyId else none
  | .heartbeat _ => none

/-- A registration is admitted only for some cohorts. -/
theorem one_le_of_admitted {c : Coordinator} {id : String} {n : Int32} {d : Int64}
    (admitted : objection (.startVoting c id n d) = none) : 1 ≤ n := by
  rw [objection] at admitted
  split at admitted
  · cases admitted
  · split at admitted
    · cases admitted
    · next hn => exact Int32.not_lt.1 hn

/-- The transaction whose record a command changes. -/
def target : Command → Option String
  | .vote _ id .. | .decision _ id => some id
  | .startVoting .. | .heartbeat _ => none

/-- What a command that gives up says it was doing. A heartbeat does not write. -/
def activity? : Command → Option Activity
  | .startVoting .. => some .startVoting
  | .vote .. => some .vote
  | .decision .. => some .resolveDecision
  | .heartbeat _ => none

/-- What a command does to a record that is stored: a second registration is refused, and a heartbeat
    has nothing to do with it. -/
def change : (o : Command) → Coordinator.Change o.Answer
  | .startVoting _ id .. => fun _ _ => .error (.alreadyRegistered id)
  | .vote _ _ cohort b => fun r now => r.applyVote cohort.toUInt32 b now
  | .decision .. => fun r now => .ok ((r.settle now).decision, (r.settle now).record)
  | .heartbeat _ => fun r _ => .ok (true, r)

/-- What a command may ask for, having seen `v`. -/
inductive Asks : Command → View → Request → Prop where
  | register {c : Coordinator} {id : String} {cohorts : Int32} {deadline : Int64} {v : View}
    {r : Request} (admitted : objection (.startVoting c id cohorts deadline) = none)
    (h : Registration.Asks c.retry id (Record.new cohorts.toUInt32 deadline).toBytes v r) :
    Asks (.startVoting c id cohorts deadline) v r
  | revise {o : Command} {id : String} {v : View} {r : Request} (admitted : o.objection = none)
    (target : o.target = some id) (h : Revision.Asks o.policy id o.change v r) : Asks o v r
  | beat (c : Coordinator) : Asks (.heartbeat c) (.start 0) (.ledger .heartbeat)
  | warn (c : Coordinator) (e : Error) : Asks (.heartbeat c) (.start 0) (.log (.heartbeatFailed e))

/-- How a command may end, having seen `v`. -/
inductive Ends : (o : Command) → View → Except Error o.Answer → Prop where
  | objected {o : Command} {f : Refusal} (objection : o.objection = some f) :
    Ends o (.start 0) (.error f.error)
  | registered {c : Coordinator} {id : String} {cohorts : Int32} {deadline : Int64} {v : View}
    {a : Except Error Unit} (admitted : objection (.startVoting c id cohorts deadline) = none)
    (h : Registration.Ends c.retry id v a) : Ends (.startVoting c id cohorts deadline) v a
  | revised {o : Command} {id : String} {activity : Activity} {v : View}
    {a : Except Error o.Answer} (admitted : o.objection = none) (target : o.target = some id)
    (named : o.activity? = some activity)
    (h : Revision.Ends o.policy activity id o.change v a) : Ends o v a
  | beaten (c : Coordinator) (alive : Bool) : Ends (.heartbeat c) (.start 0) (.ok alive)
  | unreachable (c : Coordinator) (reason : String) :
    Ends (.heartbeat c) (.start 0) (.error ⟨.unavailable, reason⟩)

/-- A command that changes a record and succeeds answers with what the change of the record it has
    read gives. -/
theorem Ends.of_ok {o : Command} {v : View} {a : o.Answer} {id : String} (h : o.Ends v (.ok a))
    (target : o.target = some id) : ∃ bytes r t r', v.Holds bytes r t ∧ o.change r t = .ok (a, r') ∧
      (v.write = none ∧ r'.toBytes = bytes ∨ v.write = some (.ok true)) := by
  cases h with
  | registered | beaten => cases target
  | revised _ _ _ h => exact h.of_ok

theorem startVoting_obeys (c : Coordinator) (id : String) (cohorts : Int32) (deadline : Int64) :
    (c.startVoting id cohorts deadline).Obeys (Asks (.startVoting c id cohorts deadline))
      (Ends (.startVoting c id cohorts deadline)) (.start 0) := by
  rw [Coordinator.startVoting]
  split
  · next hid => exact Ends.objected (by rw [objection, if_pos hid])
  · next hid =>
    split
    · next hn => exact Ends.objected (by rw [objection, if_neg hid, if_pos hn])
    · next hn =>
      have ho : objection (.startVoting c id cohorts deadline) = none := by
        rw [objection, if_neg hid, if_neg hn]
      exact (c.register_obeys id cohorts deadline _ c.retry.attempts 0 (Nat.zero_add _)).mono
        (fun _ _ h => .register ho h) fun _ _ h => .registered ho h

/-- A command that changes a record and then notes in the log what it answers. -/
theorem update_log_obeys {o : Command} {c : Coordinator} {id : String} {activity : Activity}
    {f : Except Error o.Answer → Call (Except Error o.Answer)} {event : o.Answer → Event}
    (ho : o.objection = none) (hp : o.policy = c.retry) (ht : o.target = some id)
    (ha : o.activity? = some activity)
    (hok : ∀ a, f (.ok a) = .ask (.log (event a)) fun _ => .done (.ok a))
    (herror : ∀ e, f (.error e) = .done (.error e)) :
    (c.update activity id o.change >>= f).Obeys o.Asks o.Ends (.start 0) := by
  refine Call.Obeys.bind (fun v a h => ?_) ((c.update_obeys activity id o.change).mono
    (fun v r h => Asks.revise ho ht (hp ▸ h)) fun _ _ h => h)
  have he : o.Ends v a := .revised ho ht ha (hp ▸ h)
  match a with
  | .ok a =>
    obtain ⟨bytes, _, _, _, holds, _⟩ := h.of_ok
    rw [hok]
    exact ⟨.revise ho ht (.log _ (.inr ⟨bytes, holds.read⟩)), fun _ => he⟩
  | .error e =>
    rw [herror]
    exact he

theorem vote_obeys (c : Coordinator) (id : String) (cohort : Int32) (b : Ballot) :
    (c.vote id cohort b).Obeys (Asks (.vote c id cohort b)) (Ends (.vote c id cohort b))
      (.start 0) := by
  rw [Coordinator.vote]
  split
  · next hid => exact Ends.objected (by rw [objection, if_pos hid])
  · next hid =>
    split
    · next hk => exact Ends.objected (by rw [objection, if_neg hid, if_pos hk])
    · next hk =>
      have ho : objection (.vote c id cohort b) = none := by
        rw [objection, if_neg hid, if_neg hk]
      exact update_log_obeys ho rfl rfl rfl (fun _ => rfl) fun _ => rfl

theorem decision_obeys (c : Coordinator) (id : String) :
    (c.decision id).Obeys (Asks (.decision c id)) (Ends (.decision c id)) (.start 0) := by
  rw [Coordinator.decision]
  split
  · next hid => exact Ends.objected (by rw [objection, if_pos hid])
  · next hid =>
    have ho : objection (.decision c id) = none := by rw [objection, if_neg hid]
    exact update_log_obeys ho rfl rfl rfl (fun _ => rfl) fun _ => rfl

theorem heartbeat_obeys (c : Coordinator) :
    Coordinator.heartbeat.Obeys (Asks (.heartbeat c)) (Ends (.heartbeat c)) (.start 0) := by
  refine ⟨.beat c, fun x => ?_⟩
  match x with
  | .ok alive => exact Ends.beaten c alive
  | .error ⟨kind, reason⟩ =>
    cases kind with
    | unavailable => exact Ends.unreachable c reason
    | _ => exact ⟨.warn c _, fun _ => Ends.unreachable c _⟩

/-- Whatever answers it gets, the call of a command makes only the requests of that command and ends
    only as that command ends. -/
theorem call_obeys : ∀ (o : Command), o.call.Obeys o.Asks o.Ends (.start 0)
  | .startVoting c id cohorts deadline => startVoting_obeys c id cohorts deadline
  | .vote c id cohort b => vote_obeys c id cohort b
  | .decision c id => decision_obeys c id
  | .heartbeat c => heartbeat_obeys c

end Command
end TwoPhaseCommit
