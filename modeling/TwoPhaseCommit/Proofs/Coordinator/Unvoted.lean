import TwoPhaseCommit.Proofs.Coordinator.Attempts
import TwoPhaseCommit.Proofs.Coordinator.Sequence

/- A transaction on which nobody votes. Its record stays as it was registered until somebody asks for
   the decision at the deadline or later, and is timed out from then on (`Record.Unvoted`). Whatever
   else is done on the ledger leaves it so (`play_unvoted`), and a question is answered by comparing
   the clock with the deadline (`run_decision`). -/
namespace TwoPhaseCommit

/-! ## The record -/

namespace Record
variable {n : UInt32} {d t : Int64} {r : Record}

theorem ruling_new (hn : n ≠ 0) (d now : Int64) :
    (new n d).ruling now = if d ≤ now then some .timedOut else none := by
  have house : ¬ (new n d).commitVotes = (new n d).cohortCount.toNat :=
    fun h => hn (UInt32.toNat_inj.1 h.symm)
  have abort : ¬ (new n d).hasAbortVote = true := nofun
  rw [ruling, if_neg house, if_neg abort]
  rfl

theorem settle_new (hn : n ≠ 0) (d now : Int64) : (new n d).settle now =
    if d ≤ now then ⟨Outcome.timedOut.decision, true, (new n d).freeze .timedOut⟩
    else ⟨.pending, false, new n d⟩ := by
  simp only [settle, frozen_new, ruling_new hn]
  by_cases due : d ≤ now
  · rw [if_pos due, if_pos due]
  · rw [if_neg due, if_neg due]

/-- A record of a transaction on which nobody has voted, and of which nobody has asked after
    second `t`. -/
inductive Unvoted (n : UInt32) (d t : Int64) : Record → Prop where
  | untouched : Unvoted n d t (new n d)
  | timedOut (due : d ≤ t) : Unvoted n d t ((new n d).freeze .timedOut)

namespace Unvoted

theorem settle (h : Unvoted n d t r) (hn : n ≠ 0) {now : Int64} (le : now ≤ t) :
    Unvoted n d t (r.settle now).record := by
  cases h with
  | untouched =>
    rw [settle_new hn]
    split
    · next due => exact .timedOut (Int64.le_trans due le)
    · exact .untouched
  | timedOut due =>
    rw [settle_of_frozen (frozen_freeze ..)]
    exact .timedOut due

theorem decision (h : Unvoted n d t r) (hn : n ≠ 0) :
    (r.settle t).decision = if d ≤ t then Outcome.timedOut.decision else .pending := by
  cases h with
  | untouched =>
    rw [settle_new hn]
    split <;> rfl
  | timedOut due => rw [settle_of_frozen (frozen_freeze ..), if_pos due]

end Unvoted
end Record

/-! ## The ledger -/

/-- The record of `id` is one on which nobody has voted. -/
def Ledger.Unvoted (l : Ledger) (id : String) (n : UInt32) (d t : Int64) : Prop :=
  ∃ r : Record, l.read id = some r.toBytes ∧ r.Unvoted n d t

/-- It is no vote on `id`, and the clock does not get past second `t`. -/
structure Turn.Idle (x : Turn) (id : String) (t : Int64) : Prop where
  silent : ∀ c k b, x.command ≠ .vote c id k b
  early : ∀ heard, x.second heard ≤ t

section
variable {l : Ledger} {id : String} {n : UInt32} {d t : Int64}

/-- Only a question about `id` can make a difference to its record, and it can only make the decision
    final that is due. -/
theorem Command.Leaves.unvoted {o : Command} {a : o.Answer} {l' : Ledger} {heard : List Exchange}
    (leaves : Leaves l heard o a l') (silent : ∀ c k b, o ≠ .vote c id k b)
    (early : ∀ now, (⟨.now, now⟩ : Exchange) ∈ heard → now ≤ t) (hn : n ≠ 0)
    (h : l.Unvoted id n d t) : l'.Unvoted id n d t := by
  obtain ⟨r, hread, hr⟩ := h
  by_cases about : o.transaction = some id
  · cases leaves with
    | kept | beaten => exact ⟨r, hread, hr⟩
    | registered absent =>
      cases about
      rw [absent] at hread
      cases hread
    | @revised _ _ bytes r₁ _ now _ target read record seen changes =>
      obtain rfl := Option.some.inj ((transaction_of_target target).symm.trans about)
      obtain rfl : r.toBytes = bytes := Option.some.inj (hread.symm.trans read)
      rw [Record.ofBytes_toBytes] at record
      cases record
      cases o with
      | startVoting | heartbeat => cases target
      | vote c id' k b =>
        cases target
        exact absurd rfl (silent c k b)
      | decision c id' =>
        cases changes
        refine ⟨_, ?_, hr.settle hn (early now seen)⟩
        rw [Ledger.read_put, if_pos rfl]
  · exact ⟨r, (leaves.read_of_ne about).trans hread, hr⟩

theorem Turn.Idle.unvoted {x : Turn} (idle : x.Idle id t) (hn : n ≠ 0) (h : l.Unvoted id n d t) :
    (x.on l).after.Unvoted id n d t := by
  obtain ⟨a, s, hrun, hon, herror, hok⟩ := x.on_cases l
  rw [hon]
  cases a with
  | error e =>
    rw [herror e rfl]
    exact h
  | ok answer =>
    refine (hok answer rfl).unvoted idle.silent (fun now seen => ?_) hn h
    obtain hs | ⟨heard, rfl⟩ := Call.shown_of_run _ _ hrun seen
    · cases hs
    · exact idle.early heard

theorem play_unvoted (hn : n ≠ 0) (turns : List Turn) (idle : ∀ x ∈ turns, x.Idle id t)
    (h : l.Unvoted id n d t) : (play l turns).2.Unvoted id n d t := by
  induction turns generalizing l with
  | nil => exact h
  | cons x xs ih =>
    have hx : (x.on l).after.Unvoted id n d t := (idle x List.mem_cons_self).unvoted hn h
    exact ih (fun y hy => idle y (List.mem_cons_of_mem x hy)) hx

/-- A question is answered by the deadline alone, if the clock was never past it before. -/
theorem Ledger.Unvoted.run_decision (h : l.Unvoted id n d t) (hn : n ≠ 0) (hid : id ≠ "")
    {p : Script} (calm : p.Contested 0 t) (c : Coordinator) (heard : List Exchange) :
    ∃ s, (c.decision id).run p.environment ⟨l, heard⟩ =
      (some (.ok (if d ≤ t then Outcome.timedOut.decision else .pending)), s) := by
  obtain ⟨r, hread, hr⟩ := h
  have admitted : (Command.decision c id).objection = none := by
    rw [Command.objection, if_neg hid]
  obtain ⟨c', activity, event, -, -, hcall⟩ := Command.call_of_target admitted rfl
  obtain ⟨s, hrun⟩ := calm.run_update c' activity hread (Record.ofBytes_toBytes r)
    (show (Command.decision c id).change r t = .ok ((r.settle t).decision, _) from rfl) heard
  obtain ⟨heard', hnote, -⟩ := Command.run_note p event (.ok (r.settle t).decision) s
  refine ⟨⟨s.ledger, heard'⟩, ?_⟩
  rw [← hr.decision hn]
  exact (congrArg (Call.run p.environment · _) hcall).trans ((Call.run_bind hrun).trans hnote)

end
end TwoPhaseCommit
