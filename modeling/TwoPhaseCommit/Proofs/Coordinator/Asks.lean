import TwoPhaseCommit.Proofs.Call.Conversation
import TwoPhaseCommit.Proofs.Coordinator.Command

/- What a request of a command, or its end, tells about what its call has seen. -/
namespace TwoPhaseCommit.Command
variable {o : Command} {v : View}

theorem Asks.unwritten {x : Exchange} (h : o.Asks v x.request) (hw : x.isWrite = true) :
    v.lost < o.policy.attempts ∧ v.write = none := by
  obtain ⟨r, y⟩ := x
  cases h with
  | register _ h =>
    cases h with
    | create fresh left => exact ⟨left, by rw [fresh]; rfl⟩
    | pause | log => exact absurd hw (by simp [Exchange.isWrite])
  | revise _ _ h =>
    cases h with
    | swap left _ unwritten => exact ⟨left, unwritten⟩
    | read | now | pause | log => exact absurd hw (by simp [Exchange.isWrite])
  | beat | warn => exact absurd hw (by simp [Exchange.isWrite])

/-- After a read that failed a command asks for nothing more. -/
theorem Asks.read_ne_error {r : Request} (h : o.Asks v r) (e : Error) :
    v.read ≠ some (.error e) := by
  intro he
  cases h with
  | register _ h =>
    cases h with
    | create fresh => rw [fresh] at he; cases he
    | pause lost => rw [lost] at he; cases he
    | log _ unread => rw [unread] at he; cases he
  | revise _ _ h =>
    cases h with
    | read fresh => rw [fresh] at he; cases he
    | now _ read => rw [read] at he; cases he
    | swap _ holds => rw [holds.read] at he; cases he
    | pause lost => rw [lost] at he; cases he
    | log _ quiet =>
      rcases quiet with quiet | ⟨bytes, quiet⟩ <;> rw [quiet] at he <;> cases he
  | beat | warn => cases he

/-- A command that has only lost so far does not look at the clock. -/
theorem Asks.ne_now {lost : Nat} (h : o.Asks (.start lost) .now) : False := by
  cases h with
  | register _ h => cases h
  | revise _ _ h =>
    cases h with
    | now _ read => cases read

theorem Asks.target_of_read {id : String} (h : o.Asks v (.ledger (.read id))) :
    o.target = some id := by
  cases h with
  | register _ h => cases h
  | revise _ target h =>
    cases h with
    | read => exact target

theorem Asks.swap_of_isWrite {x : Exchange} {id : String} (h : o.Asks v x.request)
    (target : o.target = some id) (hw : x.isWrite = true) :
    ∃ bytes new, x.request = .ledger (.swap id bytes new) := by
  obtain ⟨r, a⟩ := x
  cases h with
  | register => cases target
  | revise _ ht h =>
    rw [ht] at target
    cases target
    cases h with
    | swap => exact ⟨_, _, rfl⟩
    | read | now | pause | log => cases hw
  | beat | warn => cases target

theorem Asks.create_of_isWrite {c : Coordinator} {id : String} {n : Int32} {d : Int64}
    {x : Exchange} (h : (startVoting c id n d).Asks v x.request) (hw : x.isWrite = true) :
    x.request = .ledger (.create id (Record.new n.toUInt32 d).toBytes) := by
  obtain ⟨r, a⟩ := x
  cases h with
  | register _ h =>
    cases h with
    | create => rfl
    | pause | log => cases hw
  | revise _ target => cases target

/-- A registration that was denied has no more to ask for. -/
theorem Asks.ne_denied {c : Coordinator} {id : String} {n : Int32} {d : Int64} {r : Request}
    (h : (startVoting c id n d).Asks v r) : v.write ≠ some (.ok false) := by
  cases h with
  | register _ h =>
    cases h with
    | create fresh => rw [fresh]; nofun
    | pause lost => rw [lost]; nofun
    | log _ _ granted => exact granted
  | revise _ target => cases target

theorem Ends.of_denied {c : Coordinator} {id : String} {n : Int32} {d : Int64}
    {a : Except Error Unit} (h : (startVoting c id n d).Ends v a)
    (denied : v.write = some (.ok false)) : a = .error (Refusal.alreadyRegistered id).error := by
  cases h with
  | objected => cases denied
  | revised _ target => cases target
  | registered _ h =>
    cases h with
    | occupied => rfl
    | created _ _ written => rw [written] at denied; cases denied
    | unwritten _ _ write => rw [write] at denied; cases denied
    | exhausted lost => rw [lost] at denied; cases denied

theorem Asks.target_of_swap {id : String} {bytes new : Bytes}
    (h : o.Asks v (.ledger (.swap id bytes new))) : o.target = some id := by
  cases h with
  | register _ h => cases h
  | revise _ target h =>
    cases h with
    | swap => exact target

/-- A swap stores the change of the record that was read, at the second that was seen, where that is
    another record. -/
theorem Asks.of_swap {id : String} {bytes new : Bytes} (h : o.Asks v (.ledger (.swap id bytes new))) :
    ∃ r r' t a, v.Holds bytes r t ∧ o.change r t = .ok (a, r') ∧ new = r'.toBytes ∧ new ≠ bytes := by
  cases h with
  | register _ h => cases h
  | revise _ _ h =>
    cases h with
    | swap _ holds _ changes differs => exact ⟨_, _, _, _, holds, changes, rfl, differs⟩

/-- After its write a call that has not lost asks for nothing but a line in the log. -/
theorem Asks.log_of_write {r : Request} {y : Except Error Bool} (h : o.Asks v r)
    (hw : v.write = some y) : ∃ e, r = .log e := by
  cases h with
  | register _ h =>
    cases h with
    | create fresh => rw [fresh] at hw; cases hw
    | pause lost => rw [lost] at hw; cases hw
    | log e => exact ⟨e, rfl⟩
  | revise _ _ h =>
    cases h with
    | read fresh => rw [fresh] at hw; cases hw
    | now _ _ _ _ unwritten => rw [unwritten] at hw; cases hw
    | swap _ _ unwritten => rw [unwritten] at hw; cases hw
    | pause lost => rw [lost] at hw; cases hw
    | log e => exact ⟨e, rfl⟩
  | beat => cases hw
  | warn => cases hw

/-- A call that has read something in its current attempt asks the ledger for a write, if for
    anything. -/
theorem Asks.isWrite_of_read {x : Exchange} {y : Except Error (Option Bytes)}
    (h : o.Asks v x.request) (hx : x.isOnLedger = true) (hr : v.read = some y) :
    x.isWrite = true := by
  obtain ⟨r, a⟩ := x
  cases h with
  | register _ h =>
    cases h with
    | create => rfl
    | pause | log => cases hx
  | revise _ _ h =>
    cases h with
    | read fresh => rw [fresh] at hr; cases hr
    | swap => rfl
    | now | pause | log => cases hx
  | beat | warn => cases hr

end TwoPhaseCommit.Command
