import TwoPhaseCommit.Adapter.Service
import TwoPhaseCommit.CommandLine
import TwoPhaseCommit.Proofs.Coordinator.Unvoted

/- The window of a vote whose request does not say when it closes. It opens when the service looks at
   the clock, and its end is one addition of 64-bit numbers later, which comes out before the window
   opens if the sum is too large for them (`toInt_windowEnd`). So a question about a transaction on which
   nobody votes is answered by the window exactly as long as its end can be told
   (`pending_within_window`), and a window of 2 ^ 64 - 1 seconds is over when it opens. -/
namespace TwoPhaseCommit
open Proto

/-! ## The end of a window -/

section
variable {now t : Int64}

theorem toInt_toInt64 (w : UInt64) : w.toInt64.toInt = (w.toNat : Int).bmod UInt64.size := by
  rw [Int64.toInt, UInt64.toBitVec_toInt64, BitVec.toInt_eq_toNat_bmod]
  rfl

/-- The end of a window of `w` seconds is `w` seconds later, or wraps around once if that is after the
    last second there is. -/
theorem toInt_windowEnd (hnow : 0 ≤ now) (w : UInt64) : (now + w.toInt64).toInt =
    if now.toInt + w.toNat ≤ Int64.maxValue.toInt then now.toInt + w.toNat
    else now.toInt + w.toNat - UInt64.size := by
  have h0 : 0 ≤ now.toInt := Int64.le_iff_toInt_le.1 hnow
  have h1 : now.toInt ≤ Int64.maxValue.toInt := Int64.le_iff_toInt_le.1 now.le_maxValue
  have hw : w.toNat < UInt64.size := w.toNat_lt
  have hsize : (UInt64.size : Int) = 2 * (Int64.maxValue.toInt + 1) := rfl
  have hsum : (now + w.toInt64).toInt = (now.toInt + w.toNat).bmod UInt64.size := by
    rw [Int64.toInt_add, toInt_toInt64, Int.add_bmod_bmod]
  rw [hsum]
  split
  · next fits => exact Int.bmod_eq_of_le (by omega) (by omega)
  · next wraps =>
    calc (now.toInt + w.toNat).bmod UInt64.size
        = (now.toInt + w.toNat - UInt64.size).bmod UInt64.size := (Int.sub_bmod_right ..).symm
      _ = now.toInt + w.toNat - UInt64.size := Int.bmod_eq_of_le (by omega) (by omega)

theorem le_windowEnd_iff (hnow : 0 ≤ now) (w : UInt64) :
    now ≤ now + w.toInt64 ↔ now.toInt + w.toNat ≤ Int64.maxValue.toInt := by
  have hw : w.toNat < UInt64.size := w.toNat_lt
  rw [Int64.le_iff_toInt_le, toInt_windowEnd hnow]
  split <;> omega

theorem windowEnd_le_iff (hnow : 0 ≤ now) (w : UInt64) (le : now ≤ t) : now + w.toInt64 ≤ t ↔
    ¬ (t.toInt - now.toInt < w.toNat ∧ now.toInt + w.toNat ≤ Int64.maxValue.toInt) := by
  have hw : w.toNat < UInt64.size := w.toNat_lt
  have hle : now.toInt ≤ t.toInt := Int64.le_iff_toInt_le.1 le
  rw [Int64.le_iff_toInt_le, toInt_windowEnd hnow]
  split <;> omega

end

/-! ## Registration -/

namespace Command
variable {c : Coordinator} {id : String} {n : Int32} {d : Int64}

/-- A registration does not look at the clock. -/
theorem seen_of_registration {p : Script} {s s' : Scene} {x : Option (Except Error Unit)}
    (hrun : (startVoting c id n d).call.run p.environment s = (x, s')) {t : Int64}
    (seen : (⟨.now, t⟩ : Exchange) ∈ s'.heard) : (⟨.now, t⟩ : Exchange) ∈ s.heard := by
  have keeps : ∀ (v : View) (s₁ : Scene) (r : Request),
      ((⟨.now, t⟩ : Exchange) ∈ s₁.heard → (⟨.now, t⟩ : Exchange) ∈ s.heard) →
      (startVoting c id n d).Asks v r →
      (⟨.now, t⟩ : Exchange) ∈ (p.next s₁ r).heard → (⟨.now, t⟩ : Exchange) ∈ s.heard := by
    intro v s₁ r h asks hseen
    obtain hx | hseen := List.mem_cons.1 hseen
    · cases asks with
      | revise _ target => cases target
      | register _ asks => cases asks <;> cases hx
    · exact h hseen
  obtain ⟨a, v, s₂, hrun₂, -, h⟩ := (startVoting c id n d).call_obeys.run p keeps (fun h => h)
  rw [hrun] at hrun₂
  cases hrun₂
  exact h seen

theorem Leaves.read_of_registration {l l' : Ledger} {heard : List Exchange}
    (leaves : Leaves l heard (.startVoting c id n d) () l') :
    l'.read id = some (Record.new n.toUInt32 d).toBytes := by
  cases leaves with
  | kept target | revised target => cases target
  | registered => rw [Ledger.read_put, if_pos rfl]

end Command

namespace Service
variable {s : Service} {q : StartVotingRequest} {p : Script} {l : Ledger} {scene : Scene}

/-- A registration that is accepted has stored a new record. Its deadline is the end of the window
    that opens at the only second that was seen. -/
theorem registered_of_accepted (unnamed : q.timeoutTime = none)
    (accepted : (s.startVoting q).run p.environment ⟨l, []⟩ = (some (.ok {}), scene)) :
    ∃ now, (∀ t, (⟨.now, t⟩ : Exchange) ∈ scene.heard → t = now) ∧ q.transactionId ≠ "" ∧
      q.cohorts.toUInt32 ≠ 0 ∧ scene.ledger.read q.transactionId =
        some (Record.new q.cohorts.toUInt32 (now + s.window.seconds.toInt64)).toBytes := by
  have quiet : [(⟨.now, p.second [⟨.log (.receivedStart q.transactionId), ()⟩]⟩ : Exchange),
      ⟨.log (.receivedStart q.transactionId), ()⟩].filter Exchange.isStore = [] := rfl
  generalize hnow : p.second [⟨.log (.receivedStart q.transactionId), ()⟩] = now at quiet
  obtain ⟨a, s', hrun, -, hok⟩ := Command.run_cases_of_quiet p l
    (.startVoting s.coordinator q.transactionId q.cohorts (now + s.window.seconds.toInt64)) quiet
  have hservice : (s.startVoting q).run p.environment ⟨l, []⟩ =
      (some (reply (fun _ => {}) a), s') := by
    subst hnow
    simp only [Service.startVoting, Service.deadline, unnamed]
    exact Call.run_bind hrun
  rw [accepted] at hservice
  cases a with
  | error e => cases hservice
  | ok answer =>
    cases hservice
    have sound := Command.not_malformed_of_run hrun
    have hn : 1 ≤ q.cohorts := Int32.not_lt.1 fun few => sound (.noCohorts few)
    refine ⟨now, ?_, fun empty => sound (.emptyId (congrArg some empty)), ?_,
      (hok () rfl).read_of_registration⟩
    · intro t seen
      obtain hx | hx := List.mem_cons.1 (Command.seen_of_registration hrun seen)
      · cases hx
        rfl
      · cases List.mem_singleton.1 hx
    · intro hzero
      have hpos := (Record.toNat_toUInt32_of_pos hn).1
      rw [hzero] at hpos
      cases hpos

/-- A question is answered with the decision that the coordinator tells. -/
theorem run_getVotingDecision {id : String} {d : Decision} {s' : Scene}
    (hrun : (s.coordinator.decision id).run p.environment
      ⟨l, [⟨.log (.receivedQuestion id), ()⟩]⟩ = (some (.ok d), s')) :
    (s.getVotingDecision ⟨id⟩).run p.environment ⟨l, []⟩ =
      (some (.ok ⟨d.kind.number, d.reason⟩), s') := by
  rw [Service.getVotingDecision]
  exact Call.run_bind hrun

/-- A registration that names no deadline and is accepted at second `now` opens a window. The deadline
    is before `now` exactly if the end of the window is too late for 64 bits. While nobody votes a
    question is answered with the pending decision if the window is open and its end is not too late,
    and with a timeout otherwise, whatever else was done in between. -/
theorem pending_within_window {now : Int64} (unnamed : q.timeoutTime = none)
    (accepted : (s.startVoting q).run p.environment ⟨l, []⟩ = (some (.ok {}), scene))
    (seen : (⟨.now, now⟩ : Exchange) ∈ scene.heard) (hnow : 0 ≤ now) :
    (∃ r, scene.ledger.record? q.transactionId = some r ∧
      (now ≤ r.deadline ↔ now.toInt + s.window.seconds.toNat ≤ Int64.maxValue.toInt)) ∧
    ∀ t turns, now ≤ t → (∀ x ∈ turns, x.Idle q.transactionId t) → ∃ scene',
      (s.getVotingDecision ⟨q.transactionId⟩).run (Script.undisturbed fun _ => t).environment
          ⟨(play scene.ledger turns).2, []⟩ =
        (some (.ok (if t.toInt - now.toInt < s.window.seconds.toNat ∧
            now.toInt + s.window.seconds.toNat ≤ Int64.maxValue.toInt
          then ⟨DecisionKind.pending.number, Decision.pending.reason⟩
          else ⟨DecisionKind.abort.number, Outcome.timedOut.decision.reason⟩)), scene') := by
  obtain ⟨now', only, hid, hn, hread⟩ := registered_of_accepted unnamed accepted
  obtain rfl : now = now' := only now seen
  refine ⟨⟨_, Ledger.record?_of_toBytes hread, le_windowEnd_iff hnow _⟩, ?_⟩
  intro t turns le idle
  have unvoted := play_unvoted hn turns idle ⟨_, hread, .untouched⟩
  obtain ⟨scene', hrun⟩ := unvoted.run_decision hn hid (Script.undisturbed_contested t) s.coordinator
    [⟨.log (.receivedQuestion q.transactionId), ()⟩]
  refine ⟨scene', (run_getVotingDecision hrun).trans ?_⟩
  by_cases within : t.toInt - now.toInt < s.window.seconds.toNat ∧
      now.toInt + s.window.seconds.toNat ≤ Int64.maxValue.toInt
  · rw [if_pos within, if_neg fun due => (windowEnd_le_iff hnow _ le).1 due within]
    rfl
  · rw [if_neg within, if_pos ((windowEnd_le_iff hnow _ le).2 within)]
    rfl

/-- The service with a window of half a minute. -/
def halfMinute : Service := ⟨⟨.standard⟩, .ofSeconds 30⟩

/-- A window that opens at second 100 is open at second 129 and over at second 130, also if somebody
    asks in between. -/
theorem pending_within_window_of_thirty : ∃ scene,
    (halfMinute.startVoting ⟨"a", none, 2⟩).run (Script.undisturbed fun _ => 100).environment
        ⟨.empty, []⟩ = (some (.ok {}), scene) ∧
      (⟨.now, (100 : Int64)⟩ : Exchange) ∈ scene.heard ∧
      (∃ scene', (halfMinute.getVotingDecision ⟨"a"⟩).run
        (Script.undisturbed fun _ => 129).environment
          ⟨(play scene.ledger [⟨.decision ⟨.standard⟩ "a", fun _ => 110⟩]).2, []⟩ =
        (some (.ok ⟨1, "Awaiting votes."⟩), scene')) ∧
      ∃ scene', (halfMinute.getVotingDecision ⟨"a"⟩).run
        (Script.undisturbed fun _ => 130).environment
          ⟨(play scene.ledger [⟨.decision ⟨.standard⟩ "a", fun _ => 110⟩]).2, []⟩ =
        (some (.ok ⟨3, "Timed out before sufficient votes collected."⟩), scene') := by
  have accepted : ((halfMinute.startVoting ⟨"a", none, 2⟩).run
      (Script.undisturbed fun _ => 100).environment ⟨.empty, []⟩).1 = some (.ok {}) := rfl
  have seen : (⟨.now, (100 : Int64)⟩ : Exchange) ∈ ((halfMinute.startVoting ⟨"a", none, 2⟩).run
      (Script.undisturbed fun _ => 100).environment ⟨.empty, []⟩).2.heard :=
    .tail _ (.tail _ (.head _))
  have idle : ∀ t, 110 ≤ t → ∀ x ∈ [(⟨.decision ⟨.standard⟩ "a", fun _ => 110⟩ : Turn)],
      x.Idle "a" t := by
    intro t ht x hx
    cases List.mem_singleton.1 hx
    exact ⟨nofun, fun _ => ht⟩
  obtain ⟨-, answers⟩ :=
    pending_within_window (s := halfMinute) rfl (Prod.ext accepted rfl) seen (by decide)
  exact ⟨_, Prod.ext accepted rfl, seen, answers 129 _ (by decide) (idle 129 (by decide)),
    answers 130 _ (by decide) (idle 130 (by decide))⟩

/-- The service with the longest window that the command line takes. -/
def endless : Service := ⟨⟨.standard⟩, .ofSeconds 18446744073709551615⟩

/-- The longest window is over when it opens. -/
theorem timedOut_as_it_opens :
    CommandLine.parse ["--default-vote-timeout", "18446744073709551615"] =
        .ok { Config.standard with voteWindow := endless.window } ∧
      (1700000000 - 1700000000 : Int) < endless.window.seconds.toNat ∧
      ∃ scene scene', (endless.startVoting ⟨"a", none, 1⟩).run
          (Script.undisturbed fun _ => 1700000000).environment ⟨.empty, []⟩ =
            (some (.ok {}), scene) ∧
        (endless.getVotingDecision ⟨"a"⟩).run
          (Script.undisturbed fun _ => 1700000000).environment ⟨scene.ledger, []⟩ =
            (some (.ok ⟨3, "Timed out before sufficient votes collected."⟩), scene') := by
  have accepted : ((endless.startVoting ⟨"a", none, 1⟩).run
      (Script.undisturbed fun _ => 1700000000).environment ⟨.empty, []⟩).1 = some (.ok {}) := rfl
  exact ⟨rfl, by decide, _, _, Prod.ext accepted rfl, Prod.ext rfl rfl⟩

end Service
end TwoPhaseCommit
