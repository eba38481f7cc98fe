import TwoPhaseCommit.Proofs.Coordinator.Asks

/- Who gets to see a conflict. A write that loses against another one is tried again or, with the last
   attempt, turned into a failure of the kind `unavailable`. A read that fails with a conflict is not
   tried again: its error is what the caller gets. `conflict_only_from_read` says so for every command,
   every policy and every conversation. -/
namespace TwoPhaseCommit

theorem Refusal.kind_ne_conflict (f : Refusal) : f.error.kind ≠ .conflict := by
  cases f <;> simp [Refusal.error, Refusal.kind]

namespace Command
variable {o : Command} {v : View}

/-! ## What an ending tells about the view -/

/-- Among the endings of a command only a failed read is one in a conflict. -/
theorem Ends.read_of_conflict {a : Except Error o.Answer} (h : o.Ends v a) {reason : String}
    (ha : a = .error ⟨.conflict, reason⟩) : v.read = some (.error ⟨.conflict, reason⟩) := by
  have refused : ∀ f : Refusal,
      (Except.error f.error : Except Error o.Answer) ≠ .error ⟨.conflict, reason⟩ := by
    intro f hf
    exact f.kind_ne_conflict (congrArg Error.kind (Except.error.inj hf))
  cases h with
  | objected => exact absurd ha (refused _)
  | beaten | unreachable => cases ha
  | registered _ h =>
    cases h with
    | created => cases ha
    | occupied | exhausted => exact absurd ha (refused _)
    | unwritten _ _ _ kind =>
      cases ha
      exact absurd rfl kind
  | revised _ _ _ h =>
    cases h with
    | kept | stored | flawed => cases ha
    | refused | missing | exhausted => exact absurd ha (refused _)
    | unread _ read =>
      rw [read, Except.error.inj ha]
    | unwritten _ _ _ kind =>
      cases ha
      exact absurd rfl kind

/-- After a read that failed a command ends in the error of that read. -/
theorem Ends.of_read_error {a : Except Error o.Answer} (h : o.Ends v a) {e : Error}
    (he : v.read = some (.error e)) : a = .error e := by
  cases h with
  | objected | beaten | unreachable => cases he
  | registered _ h =>
    cases h with
    | created _ unread | occupied _ unread | unwritten _ unread => rw [unread] at he; cases he
    | exhausted lost => rw [lost] at he; cases he
  | revised _ _ _ h =>
    cases h with
    | kept _ holds | stored _ holds | refused _ holds | unwritten _ holds =>
      rw [holds.read] at he
      cases he
    | flawed _ read | missing _ read => rw [read] at he; cases he
    | unread _ read =>
      rw [read] at he
      cases he
      rfl
    | exhausted lost => rw [lost] at he; cases he

/-- A command that ends right after a lost write has made all its attempts, and says so. -/
theorem Ends.of_lost {lost : Nat} {a : Except Error o.Answer} (h : o.Ends (.start (lost + 1)) a) :
    lost + 1 = o.policy.attempts ∧
      ∃ activity id, a = .error (Refusal.contention activity id).error := by
  generalize hv : View.start (lost + 1) = v at h
  have hr : v.read = none := by rw [← hv]; rfl
  have hw : v.write = none := by rw [← hv]; rfl
  cases h with
  | objected | beaten | unreachable => cases hv
  | registered _ h =>
    cases h with
    | created _ _ written => rw [hw] at written; cases written
    | occupied _ _ refused => rw [hw] at refused; cases refused
    | unwritten _ _ write => rw [hw] at write; cases write
    | exhausted lost =>
      rw [lost] at hv
      exact ⟨congrArg View.lost hv, _, _, rfl⟩
  | revised _ _ _ h =>
    cases h with
    | kept _ holds | stored _ holds | refused _ holds | unwritten _ holds =>
      rw [holds.read] at hr
      cases hr
    | flawed _ read | missing _ read | unread _ read =>
      rw [read] at hr
      cases hr
    | exhausted lost =>
      rw [lost] at hv
      exact ⟨congrArg View.lost hv, _, _, rfl⟩

/-! ## Conversations -/

variable {t : List Exchange} {c : Call (Except Error o.Answer)}

/-- Of all writes of a command but the last one is known that they lost, and there are not more than
    its policy allows. -/
theorem countP_isWrite (h : o.call.Conversation t c) :
    t.countP Exchange.isWrite ≤ (View.after t).lost + (if (View.after t).write = none then 0 else 1) ∧
      (View.after t).lost + (if (View.after t).write = none then 0 else 1) ≤ o.policy.attempts := by
  induction t generalizing c with
  | nil => exact ⟨Nat.le_refl _, Nat.zero_le _⟩
  | cons x t ih =>
    obtain ⟨ha, c', h'⟩ := (call_obeys o).asks_head h
    obtain ⟨hle, hatt⟩ := ih h'
    -- a write is made only while the current attempt has none and is one of those allowed
    rw [View.after]
    cases hw : x.isWrite with
    | false =>
      obtain ⟨hl, hwr⟩ := View.see_of_not_write hw (View.after t)
      rw [List.countP_cons_of_neg (by simp [hw]), hl, hwr]
      exact ⟨hle, hatt⟩
    | true =>
      obtain ⟨hlost, hnone⟩ := ha.unwritten hw
      rw [if_pos hnone] at hle
      rw [List.countP_cons_of_pos hw]
      cases hl : x.isLoss with
      | true =>
        rw [View.see_of_loss hl]
        simp only [View.start, if_true]
        omega
      | false =>
        obtain ⟨hs, hne⟩ := View.see_of_won hw hl (View.after t)
        rw [hs, if_neg hne]
        omega

/-- A command whose last word with the ledger is a lost write has seen nothing since. -/
theorem after_of_lost (h : o.call.Conversation t c) {x : Exchange}
    (hx : t.find? Exchange.isOnLedger = some x) (hl : x.isLoss = true) :
    ∃ lost, View.after t = .start (lost + 1) := by
  induction t generalizing c with
  | nil => cases hx
  | cons y t ih =>
    obtain ⟨ha, c', h'⟩ := (call_obeys o).asks_head h
    rw [List.find?_cons] at hx
    rw [View.after]
    split at hx
    · cases hx
      exact ⟨_, View.see_of_loss hl _⟩
    · next hy =>
      -- since then there was nothing on the ledger, and without a record no look at the clock
      obtain ⟨lost, ht⟩ := ih h' hx
      refine ⟨lost, ?_⟩
      obtain ⟨r, z⟩ := y
      cases r with
      | ledger q => exact absurd hy (by simp [Exchange.isOnLedger])
      | now =>
        rw [ht] at ha
        exact ha.ne_now.elim
      | pause | log => exact ht

/-- The error of a read that a command got is the last thing it heard. -/
theorem head?_of_read_error (h : o.call.Conversation t c) {e : Error}
    (he : (View.after t).read = some (.error e)) :
    ∃ id, o.target = some id ∧ t.head? = some ⟨.ledger (.read id), .error e⟩ := by
  cases t with
  | nil => cases he
  | cons x t =>
    obtain ⟨ha, _⟩ := (call_obeys o).asks_head h
    rcases View.read_see he with ⟨id, rfl⟩ | hr
    · exact ⟨id, ha.target_of_read, rfl⟩
    · exact absurd hr (ha.read_ne_error e)

/-- A heartbeat asks the ledger once, and unless that succeeds it fails as unavailable. -/
theorem of_heartbeat {a : Except Error Bool}
    (h : Coordinator.heartbeat.Conversation t (.done a)) :
    ∃ x, t.find? Exchange.isOnLedger = some ⟨.ledger .heartbeat, x⟩ ∧
      ((∃ alive, x = .ok alive) ∨ ∃ message, a = .error ⟨.unavailable, message⟩) := by
  obtain ⟨-, hc⟩ | ⟨x, t', rfl, h'⟩ := Call.Conversation.of_ask h
  · cases hc
  · refine ⟨x, ?_⟩
    match x, h' with
    | .ok alive, h' =>
      obtain ⟨rfl, -⟩ := Call.Conversation.of_done h'
      exact ⟨rfl, .inl ⟨alive, rfl⟩⟩
    | .error ⟨kind, m⟩, h' =>
      cases kind with
      | unavailable =>
        obtain ⟨rfl, ha⟩ := Call.Conversation.of_done h'
        exact ⟨rfl, .inr ⟨m, Call.done.inj ha⟩⟩
      | _ =>
        -- the failure goes to the log before it is passed on
        obtain ⟨-, hc⟩ | ⟨_, t', rfl, hlog⟩ := Call.Conversation.of_ask h'
        · cases hc
        · obtain ⟨rfl, ha⟩ := Call.Conversation.of_done hlog
          exact ⟨rfl, .inr ⟨_, Call.done.inj ha⟩⟩

theorem of_heartbeat_conflict {a : Except Error o.Answer} (h : o.call.Conversation t (.done a))
    {reason : String} (hx : t.find? Exchange.isOnLedger =
      some ⟨.ledger .heartbeat, .error ⟨.conflict, reason⟩⟩) :
    ∃ message, a = .error ⟨.unavailable, message⟩ := by
  obtain ⟨v, hv⟩ := (call_obeys o).asks_mem h (List.mem_of_find?_eq_some hx)
  cases hv with
  | register _ hv => cases hv
  | revise _ _ hv => cases hv
  | beat c =>
    obtain ⟨x, hf, hok | hfail⟩ := of_heartbeat h
    · obtain ⟨alive, rfl⟩ := hok
      rw [hf] at hx
      cases hx
    · exact hfail

/-- A command ends in a conflict exactly if it asked for the record of its transaction and the ledger
    failed with that conflict. Of its writes there are no more than its policy allows, and one that
    loses is followed by another call on the ledger unless it is the last allowed one; then the
    command ends in a failure of the kind `unavailable`. So does a heartbeat that meets a conflict. -/
theorem conflict_only_from_read (o : Command) {t : List Exchange} {a : Except Error o.Answer}
    (h : o.call.Conversation t (.done a)) :
    (∀ reason, a = .error ⟨.conflict, reason⟩ ↔
      ∃ id, o.target = some id ∧
        t.head? = some ⟨.ledger (.read id), .error ⟨.conflict, reason⟩⟩) ∧
    t.countP Exchange.isWrite ≤ o.policy.attempts ∧
    (∀ x, t.find? Exchange.isOnLedger = some x → x.isLoss = true →
      t.countP Exchange.isLoss = o.policy.attempts ∧
        ∃ activity id, a = .error (Refusal.contention activity id).error) ∧
    ∀ reason, t.find? Exchange.isOnLedger =
        some ⟨.ledger .heartbeat, .error ⟨.conflict, reason⟩⟩ →
      ∃ message, a = .error ⟨.unavailable, message⟩ := by
  have hends : o.Ends (.after t) a := (call_obeys o).after h
  refine ⟨?_, ?_, ?_, fun _ => of_heartbeat_conflict h⟩
  · intro reason
    constructor
    · intro ha
      exact head?_of_read_error h (hends.read_of_conflict ha)
    · intro hlast
      obtain ⟨id, -, ht⟩ := hlast
      cases t with
      | nil => cases ht
      | cons x t =>
        cases ht
        exact hends.of_read_error rfl
  · have hwrites := countP_isWrite h
    omega
  · intro x hx hl
    obtain ⟨lost, hv⟩ := after_of_lost h hx hl
    rw [hv] at hends
    rw [← View.lost_after, hv]
    exact hends.of_lost

/-- A policy that allows one attempt. -/
def onceOnly : RetryPolicy := ⟨1, .ofSeconds 0, .ofSeconds 0⟩

/-- A registration whose only write loses ends in a failure of the kind `unavailable`. -/
theorem unavailable_of_lost_create :
    let lost : Exchange := ⟨.ledger (.create "a" (Record.new 1 0).toBytes), .error ⟨.conflict, "busy"⟩⟩
    let told : Exchange := ⟨.log (.registrationConflict "a" 1 "busy"), ()⟩
    let gaveUp : Exchange := ⟨.log (.gaveUp .startVoting "a" 1), ()⟩
    (startVoting ⟨onceOnly⟩ "a" 1 0).call.Conversation [gaveUp, told, lost]
        (.done (.error (Refusal.contention .startVoting "a").error)) ∧
      [gaveUp, told, lost].countP Exchange.isLoss = onceOnly.attempts ∧
      ∀ reason, (Except.error (Refusal.contention .startVoting "a").error : Except Error Unit) ≠
        .error ⟨.conflict, reason⟩ := by
  intro lost told gaveUp
  have h₁ : (startVoting ⟨onceOnly⟩ "a" 1 0).call.Conversation [lost] (.ask told.request fun _ =>
      .ask gaveUp.request fun _ => .done (.error (Refusal.contention .startVoting "a").error)) :=
    .cons _ .nil
  have h₂ : (startVoting ⟨onceOnly⟩ "a" 1 0).call.Conversation [told, lost]
      (.ask gaveUp.request fun _ => .done (.error (Refusal.contention .startVoting "a").error)) :=
    .cons () h₁
  have h : (startVoting ⟨onceOnly⟩ "a" 1 0).call.Conversation [gaveUp, told, lost]
      (.done (.error (Refusal.contention .startVoting "a").error)) :=
    .cons () h₂
  obtain ⟨hconflict, -, hlost, -⟩ := conflict_only_from_read _ h
  refine ⟨h, (hlost lost rfl rfl).1, ?_⟩
  intro reason he
  obtain ⟨id, hid, -⟩ := (hconflict reason).1 he
  cases hid

/-- A vote gets to see the conflict that the read of its record met. -/
theorem vote_sees_conflict_of_read :
    ¬ ∀ (o : Command) (t : List Exchange) (a : Except Error o.Answer) (reason : String),
      o.call.Conversation t (.done a) → a ≠ .error ⟨.conflict, reason⟩ := by
  intro h
  refine h (vote ⟨onceOnly⟩ "a" 0 .commit)
    [⟨.ledger (.read "a"), .error ⟨.conflict, "busy"⟩⟩] _ "busy" ?_ rfl
  exact .cons _ .nil

end Command
end TwoPhaseCommit
