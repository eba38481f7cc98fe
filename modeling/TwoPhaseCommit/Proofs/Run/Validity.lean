import TwoPhaseCommit.Proofs.Run.Agreement

/- Validity. A decision does not become final without grounds (`validity`): a commit only through the
   last missing commit ballot of a cohort, cast before the deadline, and with the latest ballots of
   all others commits cast before the deadline as well; an abort only over an abort ballot; a timeout
   only after the deadline, with a ballot still missing. What carries this is `Tallied`: while the
   decision is open, the ballots in the record are those that the steps so far have put there, all of
   them early, and they are no full house of commits. -/
namespace TwoPhaseCommit

/-- The ballot that step `m` after the steps `h` puts down in the record of `id`: the cohort, the
    ballot and the second that the call saw. A ballot that is there already is not written again. -/
def ballotPut (l₀ : Ledger) (id : String) (h : List Moment) (m : Moment) :
    Option (UInt32 × Ballot × Int64) :=
  match progress m.call h with
  | .underway (.vote _ id' k b) v =>
    if id' = id ∧ m.ledger.read id ≠ (ledgerAfter l₀ h).read id then
      v.now.map fun t => (k.toUInt32, b, t)
    else none
  | _ => none

/-- The last ballot that the steps `h` have put down for cohort `k` of `id`, and its second. -/
def lastBallot (l₀ : Ledger) (id : String) (k : UInt32) : List Moment → Option (Ballot × Int64)
  | [] => none
  | m :: h => match ballotPut l₀ id h m with
    | some (j, b, t) => if j = k then some (b, t) else lastBallot l₀ id k h
    | none => lastBallot l₀ id k h

/-- Step `m` after the steps `h` registers transaction `id` with `n` cohorts and deadline `d`. -/
structure Registers (l₀ : Ledger) (id : String) (n : Int32) (d : Int64) (h : List Moment)
    (m : Moment) : Prop where
  command : ∃ c v, progress m.call h = .underway (.startVoting c id n d) v
  absent : (ledgerAfter l₀ h).read id = none
  stored : m.ledger.read id ≠ none

/-- Step `m` after the steps `h` makes decision `D` on `id` final. -/
structure Freezes (l₀ : Ledger) (id : String) (D : Decision) (h : List Moment) (m : Moment) :
    Prop where
  unfrozen : (ledgerAfter l₀ h).frozen? id = none
  frozen : m.ledger.frozen? id = some D

/-- What must be the case for step `m` after the steps `h` to make an outcome final, for transaction
    `id` with `n` cohorts and deadline `d`. -/
def Grounds (l₀ : Ledger) (id : String) (n : Int32) (d : Int64) (h : List Moment) (m : Moment) :
    Outcome → Prop
  | .committed =>
    (∃ c k b v t, progress m.call h = .underway (.vote c id k b) v ∧ v.now = some t ∧ t < d) ∧
      ∀ k < n.toUInt32, ∃ t, lastBallot l₀ id k (m :: h) = some (.commit, t) ∧ t < d
  | .cohortAborted =>
    ∃ r, (ledgerAfter l₀ h).record? id = some r ∧ ∃ k < n.toUInt32, r.ballot k = some .abort
  | .timedOut =>
    (∃ o v t, progress m.call h = .underway o v ∧ o.target = some id ∧ v.now = some t ∧ d ≤ t) ∧
      ∃ r, (ledgerAfter l₀ h).record? id = some r ∧ (∀ k, r.ballot k ≠ some .abort) ∧
        ∃ k < n.toUInt32, r.ballot k = none

/-! ## The ballots in an open record -/

section
variable {l₀ : Ledger} {id : String} {h : List Moment} {m : Moment}

theorem lastBallot_of_none (hm : ballotPut l₀ id h m = none) (k : UInt32) :
    lastBallot l₀ id k (m :: h) = lastBallot l₀ id k h := by
  rw [lastBallot, hm]

theorem lastBallot_of_some {j : UInt32} {b : Ballot} {t : Int64}
    (hm : ballotPut l₀ id h m = some (j, b, t)) (k : UInt32) :
    lastBallot l₀ id k (m :: h) = if j = k then some (b, t) else lastBallot l₀ id k h := by
  rw [lastBallot, hm]

theorem ballotPut_of_same (same : m.ledger.read id = (ledgerAfter l₀ h).read id) :
    ballotPut l₀ id h m = none := by
  rw [ballotPut]
  split
  · rw [if_neg fun hc => hc.2 same]
  · rfl

theorem ballotPut_of_vote {c : Coordinator} {k : Int32} {b : Ballot} {v : View} {t : Int64}
    (underway : progress m.call h = .underway (.vote c id k b) v) (now : v.now = some t)
    (differs : m.ledger.read id ≠ (ledgerAfter l₀ h).read id) :
    ballotPut l₀ id h m = some (k.toUInt32, b, t) := by
  rw [ballotPut, underway]
  dsimp only
  rw [if_pos ⟨rfl, differs⟩, now]
  rfl

theorem ballotPut_of_decision {c : Coordinator} {v : View}
    (underway : progress m.call h = .underway (.decision c id) v) :
    ballotPut l₀ id h m = none := by
  rw [ballotPut, underway]

end

/-- The record `r` of `id` fits what the steps `h` have done to it since it was registered with `n`
    cohorts and deadline `d`. -/
structure Tallied (l₀ : Ledger) (id : String) (n : Int32) (d : Int64) (h : List Moment)
    (r : Record) : Prop where
  cohortCount : r.cohortCount = n.toUInt32
  deadline : r.deadline = d
  keys : r.votes.KeysBelow r.cohortCount.toNat
  incomplete : r.frozen = none → r.commitVotes ≠ r.cohortCount.toNat
  ballots : r.frozen = none → ∀ k b, r.ballot k = some b →
    ∃ t, lastBallot l₀ id k h = some (b, t) ∧ t < d

theorem cohortCount_ne_zero {c : Coordinator} {id : String} {n : Int32} {d : Int64}
    (admitted : Command.objection (.startVoting c id n d) = none) : n.toUInt32.toNat ≠ 0 := by
  have hn := (Record.toNat_toUInt32_of_pos (Command.one_le_of_admitted admitted)).1
  omega

namespace Tallied
variable {l₀ : Ledger} {id : String} {n : Int32} {d : Int64} {h : List Moment} {m : Moment}
  {r : Record}

/-- A new record fits. -/
theorem of_registers (occurs : Occurs .unreliable l₀ h m) (registers : Registers l₀ id n d h m) :
    ∃ r, m.ledger.record? id = some r ∧ r.frozen = none ∧ Tallied l₀ id n d (m :: h) r := by
  obtain ⟨⟨c, v, command⟩, absent, stored⟩ := registers
  have effect := occurs.effect id
  rw [absent] at effect
  generalize hs : m.ledger.read id = stored' at effect
  cases effect with
  | same => exact absurd hs stored
  | registers underway admitted =>
    rw [command] at underway
    cases underway
    refine ⟨_, Ledger.record?_of_toBytes hs, Record.frozen_new .., ?_⟩
    constructor
    case cohortCount | deadline => rfl
    case keys => exact SortedMap.KeysBelow.empty _
    case incomplete =>
      intro _
      exact (cohortCount_ne_zero admitted).symm
    case ballots =>
      intro _ k b hb
      cases hb

/-- An early ballot that is put down now is the last one of its cohort, the others stay. -/
theorem ballots_mark (tallied : Tallied l₀ id n d h r) (unfrozen : r.frozen = none) {k : UInt32}
    {b : Ballot} {t : Int64} (hput : ballotPut l₀ id h m = some (k, b, t)) (early : t < r.deadline)
    {j : UInt32} {b' : Ballot} (hb : (r.mark k b).ballot j = some b') :
    ∃ t', lastBallot l₀ id j (m :: h) = some (b', t') ∧ t' < d := by
  rw [lastBallot_of_some hput]
  rw [Record.ballot_mark] at hb
  split at hb
  · next hj =>
    rw [if_pos hj.symm, ← Option.some.inj hb]
    exact ⟨t, rfl, tallied.deadline ▸ early⟩
  · next hj =>
    rw [if_neg (Ne.symm hj)]
    exact tallied.ballots unfrozen j b' hb

/-- A step leaves a record that fits. -/
theorem step (occurs : Occurs .unreliable l₀ h m) (hr : (ledgerAfter l₀ h).record? id = some r)
    (tallied : Tallied l₀ id n d h r) :
    ∃ r', m.ledger.record? id = some r' ∧ Tallied l₀ id n d (m :: h) r' := by
  rcases occurs.record?_cases hr with
    same | ⟨differs, o, v, bytes, t, a, r', underway, target, holds, changes, hr'⟩
  · refine ⟨r, (Ledger.record?_congr same).trans hr, { tallied with ballots := ?_ }⟩
    -- where the value stays, no ballot is put down
    intro hf k b hb
    rw [lastBallot_of_none (ballotPut_of_same same)]
    exact tallied.ballots hf k b hb
  · obtain ⟨hcount, hdeadline, hkeys⟩ := Command.keysBelow_of_change target changes
    refine ⟨r', hr', ?_⟩
    constructor
    case cohortCount => exact hcount.trans tallied.cohortCount
    case deadline => exact hdeadline.trans tallied.deadline
    case keys =>
      rw [hcount]
      exact hkeys tallied.keys
    case incomplete =>
      intro hf
      obtain ⟨c, k, b, -, -, -, hne⟩ | ⟨-, rfl⟩ := Command.open_of_change target changes hf
      · rw [hcount]
        exact hne
      · exact tallied.incomplete hf
    case ballots =>
      intro hf j b hb
      obtain ⟨c, k, b', rfl, early, rfl, -⟩ | ⟨⟨c, rfl⟩, rfl⟩ :=
        Command.open_of_change target changes hf
      · exact tallied.ballots_mark hf (ballotPut_of_vote underway holds.now differs) early hb
      · rw [lastBallot_of_none (ballotPut_of_decision underway)]
        exact tallied.ballots hf j b hb

/-- A record that fits does not come to a final decision without grounds. -/
theorem grounds (occurs : Occurs .unreliable l₀ h m) (hr : (ledgerAfter l₀ h).record? id = some r)
    (tallied : Tallied l₀ id n d h r) {D : Decision} (freezes : Freezes l₀ id D h m) :
    ∃ o : Outcome, D = o.decision ∧ Grounds l₀ id n d h m o := by
  obtain ⟨unfrozen, frozen⟩ := freezes
  rcases occurs.record?_cases hr with
    same | ⟨differs, o, v, bytes, t, a, r', underway, target, holds, changes, hr'⟩
  · rw [Ledger.frozen?, Ledger.record?_congr same] at frozen
    rw [Ledger.frozen?, frozen] at unfrozen
    cases unfrozen
  · rw [Ledger.frozen?_of_record? hr] at unfrozen
    rw [Ledger.frozen?_of_record? hr'] at frozen
    obtain ⟨-, -, hkeys⟩ := Command.keysBelow_of_change target changes
    obtain ⟨c, k, b, rfl, -, early, rfl, full⟩ | ⟨u, rfl, ruling⟩ :=
      Command.freezes_of_change target changes unfrozen frozen
    · rw [Record.frozen_freeze] at frozen
      refine ⟨.committed, (Option.some.inj frozen).symm,
        ⟨c, k, b, v, t, underway, holds.now, tallied.deadline ▸ early⟩, ?_⟩
      intro j hj
      have hlt : j.toNat < r.cohortCount.toNat := by
        rw [tallied.cohortCount]
        exact UInt32.lt_iff_toNat_lt.1 hj
      have hcommit : (r.mark k.toUInt32 b).ballot j = some .commit :=
        Record.ballot_of_fullHouse (hkeys tallied.keys) full hlt
      exact tallied.ballots_mark unfrozen (ballotPut_of_vote underway holds.now differs) early hcommit
    · refine ⟨u, rfl, ?_⟩
      -- an open record is no full house, so the commit is not the outcome of the record as it was
      cases u with
      | committed => exact absurd (Record.commitVotes_of_ruling ruling) (tallied.incomplete unfrozen)
      | cohortAborted =>
        obtain ⟨k, hk⟩ := Record.exists_ballot_of_hasAbortVote (Record.hasAbortVote_of_ruling ruling)
        have hlt := tallied.keys k .abort hk
        rw [tallied.cohortCount] at hlt
        exact ⟨r, hr, k, UInt32.lt_iff_toNat_lt.2 hlt, hk⟩
      | timedOut =>
        obtain ⟨hc, ha, passed⟩ := Record.of_ruling_timedOut ruling
        obtain ⟨k, hlt, hk⟩ := Record.exists_ballot_eq_none tallied.keys hc ha
        rw [tallied.cohortCount] at hlt
        exact ⟨⟨o, v, t, underway, target, holds.now, tallied.deadline ▸ passed⟩, r, hr,
          Record.ballot_ne_abort ha, k, UInt32.lt_iff_toNat_lt.2 hlt, hk⟩

end Tallied

/-! ## Runs -/

namespace Chronicle
variable {l₀ : Ledger} {id : String} {n : Int32} {d : Int64} {h s : List Moment} {m : Moment}
  {D : Decision}

theorem tallied (hc : Chronicle .unreliable l₀ h) (hs : m :: s <:+ h)
    (registers : Registers l₀ id n d s m) :
    ∃ r, (ledgerAfter l₀ h).record? id = some r ∧ Tallied l₀ id n d h r := by
  induction hc with
  | nil => cases List.suffix_nil.1 hs
  | cons past next ih =>
    rcases List.suffix_cons_iff.1 hs with he | hs
    · cases he
      obtain ⟨r, hr, -, tallied⟩ := Tallied.of_registers next registers
      exact ⟨r, hr, tallied⟩
    · obtain ⟨r, hr, tallied⟩ := ih hs
      exact tallied.step next hr

/-- A decision that is final has been made final by some step. -/
theorem exists_freezes (hc : Chronicle .unreliable l₀ h) (hs : s <:+ h)
    (unfrozen : (ledgerAfter l₀ s).frozen? id = none)
    (frozen : (ledgerAfter l₀ h).frozen? id = some D) :
    ∃ m p, m :: p <:+ h ∧ Freezes l₀ id D p m := by
  induction hc with
  | nil =>
    rw [List.suffix_nil.1 hs, frozen] at unfrozen
    cases unfrozen
  | @cons h m past next ih =>
    rcases List.suffix_cons_iff.1 hs with rfl | hs
    · rw [frozen] at unfrozen
      cases unfrozen
    · cases hf : (ledgerAfter l₀ h).frozen? id with
      | none => exact ⟨m, h, List.suffix_refl _, hf, frozen⟩
      | some D' =>
        obtain rfl : D' = D := Option.some.inj ((next.frozen? hf).symm.trans frozen)
        obtain ⟨m', p, hp, freezes⟩ := ih hs hf
        exact ⟨m', p, hp.trans (List.suffix_cons m h), freezes⟩

/-- Nothing is final when a transaction is registered, nor before. -/
theorem not_frozen_of_registers (hc : Chronicle .unreliable l₀ (m :: h))
    (registers : Registers l₀ id n d h m) (hs : s <:+ m :: h) :
    (ledgerAfter l₀ s).frozen? id = none := by
  cases hf : (ledgerAfter l₀ s).frozen? id with
  | none => rfl
  | some D =>
    have frozen := hc.frozen?_of_suffix hs hf
    obtain ⟨r, hr, unfrozen, -⟩ :=
      Tallied.of_registers (hc.occurs (List.suffix_refl _)) registers
    rw [ledgerAfter, Ledger.frozen?_of_record? hr, unfrozen] at frozen
    cases frozen

end Chronicle

/-- Whatever decision on a registered transaction is final or told as final, some step has made it
    final, and every step that makes a decision final has grounds for it. -/
theorem validity {l₀ : Ledger} {h : List Moment} {w : World} (run : Run .unreliable l₀ h w)
    {id : String} {n : Int32} {d : Int64} {m₀ : Moment} {p₀ : List Moment} (hp₀ : m₀ :: p₀ <:+ h)
    (registers : Registers l₀ id n d p₀ m₀) :
    (∀ s D, s <:+ h →
      (ledgerAfter l₀ s).frozen? id = some D ∨ (∃ i, Tells s i id D ∧ D.isTerminal = true) →
      ∃ m p, m :: p <:+ s ∧ Freezes l₀ id D p m) ∧
    ∀ m p D, m :: p <:+ h → Freezes l₀ id D p m →
      ∃ o : Outcome, D = o.decision ∧ Grounds l₀ id n d p m o := by
  have hc : Chronicle .unreliable l₀ h := run.chronicle.1
  have unfrozen : ∀ s, s <:+ m₀ :: p₀ → (ledgerAfter l₀ s).frozen? id = none :=
    fun s hs => (hc.suffix hp₀).not_frozen_of_registers registers hs
  refine ⟨?_, ?_⟩
  · intro s D hs final
    have hcs : Chronicle .unreliable l₀ s := hc.suffix hs
    have frozen : (ledgerAfter l₀ s).frozen? id = some D := by
      rcases final with frozen | ⟨i, told, terminal⟩
      · exact frozen
      · exact hcs.frozen?_of_tells told terminal
    rcases List.suffix_or_suffix_of_suffix hs hp₀ with hsp | hps
    · rw [unfrozen s hsp] at frozen
      cases frozen
    · exact hcs.exists_freezes hps (unfrozen _ (List.suffix_refl _)) frozen
  · intro m p D hmp freezes
    -- a step that makes a decision final is later than the registration
    have early : m :: p <:+ m₀ :: p₀ → False := by
      intro hsp
      have hn := unfrozen _ hsp
      rw [ledgerAfter, freezes.frozen] at hn
      cases hn
    have hpp : m₀ :: p₀ <:+ p := by
      rcases List.suffix_or_suffix_of_suffix hmp hp₀ with hsp | hps
      · exact (early hsp).elim
      · rcases List.suffix_cons_iff.1 hps with he | hps
        · exact (early (he ▸ List.suffix_refl _)).elim
        · exact hps
    have hcp : Chronicle .unreliable l₀ p := hc.suffix ((List.suffix_cons m p).trans hmp)
    obtain ⟨r, hr, tallied⟩ := hcp.tallied hpp registers
    exact tallied.grounds (hc.occurs hmp) hr freezes

/-- A transaction of one cohort is registered, and the cohort votes for a commit in time. -/
theorem validity_of_last_vote : ∃ h w m₀ p₀, Run .unreliable .empty h w ∧ m₀ :: p₀ <:+ h ∧
    Registers .empty "a" 1 10 p₀ m₀ ∧
    (ledgerAfter .empty h).frozen? "a" = some Outcome.committed.decision ∧
    ∃ m p, m :: p <:+ h ∧ Grounds .empty "a" 1 10 p m .committed := by
  obtain ⟨h, w, m₀, p₀, run, hp₀, registers, stored⟩ : ∃ h w m₀ p₀, Run .unreliable .empty h w ∧
      m₀ :: p₀ <:+ h ∧ Registers .empty "a" 1 10 p₀ m₀ ∧ (ledgerAfter .empty h).read "a" =
        some (((Record.new 1 10).mark 0 .commit).freeze .committed).toBytes := by
    refine ⟨_, _, _, _, .step (.step (.step (.step (.step (.step (.step (.step .start
      (.begins 0 (.startVoting ⟨.standard⟩ "a" 1 10) rfl))
      (.hears 0 rfl (.faithful (.carriedOut (.create "a" _)))))
      (.hears 0 rfl (.faithful (.log _))))
      (.returns 0 rfl))
      (.begins 1 (.vote ⟨.standard⟩ "a" 0 .commit) rfl))
      (.hears 1 rfl (.faithful (.carriedOut (.read "a")))))
      (.hears 1 rfl (.faithful (.now 5))))
      (.hears 1 rfl (.faithful (.carriedOut (.swap "a" _ _)))),
      ⟨[_, _, _, _, _, _], rfl⟩, ⟨⟨_, _, rfl⟩, rfl, ?_⟩, rfl⟩
    intro hnone
    cases hnone
  have frozen : (ledgerAfter .empty h).frozen? "a" = some Outcome.committed.decision := by
    rw [Ledger.frozen?_of_record? (Ledger.record?_of_toBytes stored), Record.frozen_freeze]
  obtain ⟨final, grounds⟩ := validity run hp₀ registers
  obtain ⟨m, p, hmp, freezes⟩ := final h _ (List.suffix_refl h) (.inl frozen)
  obtain ⟨o, ho, hg⟩ := grounds m p _ hmp freezes
  exact ⟨h, w, m₀, p₀, run, hp₀, registers, frozen, m, p, hmp, Outcome.decision_injective ho ▸ hg⟩

end TwoPhaseCommit
