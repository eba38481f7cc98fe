import TwoPhaseCommit.Proofs.Coordinator.Command
import TwoPhaseCommit.Proofs.Record.WellFormed

/- What the commands do to a record. `Changed` lists it, and the lemmas after it say what stays as it
   is (`frozen_of_change`, `keysBelow_of_change`, `wellFormed_of_change`), how a decision can become final
   (`freezes_of_change`) and how it can stay open (`open_of_change`). `atOnce` is the command as one
   step on its record, with nobody else around. -/
namespace TwoPhaseCommit.Command

/-- What a command makes of record `r` at second `t`: its answer, and the record after that. -/
inductive Changed (r : Record) (t : Int64) : (o : Command) → o.Answer → Record → Prop where
  | voted {c : Coordinator} {id : String} {k : Int32} {b : Ballot} {e : VoteEffect} {r' : Record}
    (expected : k.toUInt32 < r.cohortCount) (voted : r.Voted k.toUInt32 b t e r') :
    Changed r t (.vote c id k b) e r'
  | settled {c : Coordinator} {id : String} {s : Record.Settlement} (settled : r.Settled t s) :
    Changed r t (.decision c id) s.decision s.record

variable {o : Command} {r r' : Record} {t : Int64} {a : o.Answer} {id : String} {D : Decision}

theorem changed_of_change (target : o.target = some id) (changes : o.change r t = .ok (a, r')) :
    Changed r t o a r' := by
  cases o with
  | startVoting | heartbeat => cases target
  | vote c id' k b =>
    obtain ⟨expected, voted⟩ := Record.voted_of_applyVote changes
    exact .voted expected voted
  | decision c id' =>
    cases changes
    exact .settled (r.settled t)

/-- A final decision stays. -/
theorem frozen_of_change (target : o.target = some id) (changes : o.change r t = .ok (a, r'))
    (frozen : r.frozen = some D) : r'.frozen = some D := by
  cases changed_of_change target changes with
  | voted _ voted => exact voted.frozen frozen
  | settled settled => exact settled.frozen frozen

/-- The number of cohorts and the deadline stay, and only expected cohorts have a ballot. -/
theorem keysBelow_of_change (target : o.target = some id) (changes : o.change r t = .ok (a, r')) :
    r'.cohortCount = r.cohortCount ∧ r'.deadline = r.deadline ∧
      (r.votes.KeysBelow r.cohortCount.toNat → r'.votes.KeysBelow r.cohortCount.toNat) := by
  cases changed_of_change target changes with
  | voted expected voted =>
    obtain ⟨hcount, hdeadline, hvotes⟩ := voted.frame
    refine ⟨hcount, hdeadline, fun keys => ?_⟩
    rw [hvotes]
    exact keys.insert (UInt32.lt_iff_toNat_lt.1 expected) _
  | settled settled =>
    obtain ⟨hcount, hdeadline, hvotes⟩ := settled.frame
    refine ⟨hcount, hdeadline, fun keys => ?_⟩
    rw [hvotes]
    exact keys

theorem wellFormed_of_change (target : o.target = some id) (changes : o.change r t = .ok (a, r'))
    (wf : r.WellFormed) : r'.WellFormed := by
  cases changed_of_change target changes with
  | voted expected voted => exact wf.vote expected voted
  | settled settled => exact wf.settle settled

/-- A change that makes a decision final gives the outcome of the record it finds, or it is an early
    ballot that makes a full house of commits. -/
theorem freezes_of_change (target : o.target = some id) (changes : o.change r t = .ok (a, r'))
    (unfrozen : r.frozen = none) (frozen : r'.frozen = some D) :
    (∃ c k b, o = .vote c id k b ∧ k.toUInt32 < r.cohortCount ∧ t < r.deadline ∧
      r' = (r.mark k.toUInt32 b).freeze .committed ∧ r'.commitVotes = r.cohortCount.toNat) ∨
    ∃ u, D = u.decision ∧ r.ruling t = some u := by
  cases changed_of_change target changes with
  | voted expected voted =>
    cases target
    cases voted with
    | late | counted => rw [Record.frozen_mark, unfrozen] at frozen; cases frozen
    | overdue _ _ ruling =>
      rw [Record.frozen_mark, Record.frozen_freeze] at frozen
      exact .inr ⟨_, (Option.some.inj frozen).symm, ruling⟩
    | last _ early ruling =>
      exact .inl ⟨_, _, _, rfl, expected, early, rfl, Record.commitVotes_of_ruling ruling⟩
  | settled settled =>
    cases settled with
    | final | pending => rw [unfrozen] at frozen; cases frozen
    | ruled _ ruling =>
      rw [Record.frozen_freeze] at frozen
      exact .inr ⟨_, (Option.some.inj frozen).symm, ruling⟩

/-- A change that leaves the decision open puts down an early ballot, which makes no full house of
    commits, or it is a look at the decision, which leaves the record as it is. -/
theorem open_of_change (target : o.target = some id) (changes : o.change r t = .ok (a, r'))
    (unfrozen : r'.frozen = none) :
    (∃ c k b, o = .vote c id k b ∧ t < r.deadline ∧ r' = r.mark k.toUInt32 b ∧
      r'.commitVotes ≠ r.cohortCount.toNat) ∨ (∃ c, o = .decision c id) ∧ r' = r := by
  cases changed_of_change target changes with
  | voted _ voted =>
    cases target
    cases voted with
    | late frozen => rw [Record.frozen_mark, frozen] at unfrozen; cases unfrozen
    | overdue | last => simp at unfrozen
    | counted _ early ruling =>
      exact .inl ⟨_, _, _, rfl, early, rfl, fun hc => ruling (Record.ruling_of_commitVotes t hc)⟩
  | settled settled =>
    cases target
    cases settled with
    | final | pending => exact .inr ⟨⟨_, rfl⟩, rfl⟩
    | ruled => simp at unfrozen

/-! ## Carrying out a command at once -/

/-- A command carried out at once on the record of its transaction, at second `t`: what it answers,
    and the record after that. -/
def atOnce (o : Command) (r : Record) (t : Int64) : Except Error o.Answer × Record :=
  match o.change r t with
  | .ok (a, r') => (.ok a, r')
  | .error f => (.error f.error, r)

/-- Arguments that a command is turned down for are invalid ones. -/
theorem kind_of_objection {f : Refusal} (objection : o.objection = some f) :
    f.kind = .invalidArgument := by
  cases o with
  | startVoting | vote =>
    rw [Command.objection] at objection
    split at objection
    · cases objection
      rfl
    · split at objection
      · cases objection
        rfl
      · cases objection
  | decision =>
    rw [Command.objection] at objection
    split at objection
    · cases objection
      rfl
    · cases objection
  | heartbeat => cases objection

theorem kind_of_refused {f : Refusal} (target : o.target = some id)
    (refuses : o.change r t = .error f) : f.kind = .invalidArgument := by
  cases o with
  | startVoting | heartbeat => cases target
  | decision => cases refuses
  | vote c id' k b =>
    simp only [change, Record.applyVote] at refuses
    split at refuses
    · cases refuses
      rfl
    · split at refuses
      · cases refuses
      · split at refuses <;> cases refuses

theorem atOnce_of_ok (changes : o.change r t = .ok (a, r')) : o.atOnce r t = (.ok a, r') := by
  rw [atOnce, changes]

theorem atOnce_of_error {f : Refusal} (refuses : o.change r t = .error f) :
    o.atOnce r t = (.error f.error, r) := by
  rw [atOnce, refuses]

/-- Giving up is no answer of a command that is carried out at once. -/
theorem atOnce_ne_contention {id' : String} (target : o.target = some id) (activity : Activity) :
    (o.atOnce r t).1 ≠ .error (Refusal.contention activity id').error := by
  cases hc : o.change r t with
  | ok p => rw [atOnce_of_ok hc]; nofun
  | error f =>
    rw [atOnce_of_error hc]
    intro he
    have hk : f.kind = .unavailable := congrArg Error.kind (Except.error.inj he)
    rw [kind_of_refused target hc] at hk
    cases hk

theorem atOnce_not_refused (target : o.target = some id) (admitted : o.objection = none) :
    ¬ ((∃ f, o.objection = some f ∧ (o.atOnce r t).1 = .error f.error) ∨
      ∃ activity, (o.atOnce r t).1 = .error (Refusal.contention activity id).error) := by
  intro hrefused
  obtain ⟨f, objection, -⟩ | ⟨activity, he⟩ := hrefused
  · rw [admitted] at objection
    cases objection
  · exact atOnce_ne_contention target activity he

end TwoPhaseCommit.Command
