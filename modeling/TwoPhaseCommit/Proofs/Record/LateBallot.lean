import TwoPhaseCommit.Proofs.Record.History

/- Ballots that come too late. A ballot that is ignored is a question at the same second and then a
   note of the ballot (`applyVote_of_late`), so what becomes final is what that question is told.
   From then on two records that differ only in such a ballot are `Twins`: whatever is done to both,
   they answer alike and stay twins (`Twins.act`, `Twins.after`). `late_ballot_inert` puts this
   together. -/
namespace TwoPhaseCommit.Record
variable {r s : Record} {k : UInt32} {now : Int64} {d : Decision}

/-! ## A question and a note -/

/-- After the deadline a question is answered with a decision that is final from then on. -/
theorem frozen_settle_of_late (late : r.frozen ≠ none ∨ r.deadline ≤ now) :
    (r.settle now).record.frozen = some (r.settle now).decision := by
  have settled : r.Settled now (r.settle now) := r.settled now
  generalize r.settle now = q at settled
  cases settled with
  | final frozen => exact frozen
  | ruled => exact frozen_freeze _ _
  | pending unfrozen ruling =>
    rcases late with frozen | passed
    · exact absurd unfrozen frozen
    · obtain ⟨o, ho⟩ := exists_ruling passed
      rw [ruling] at ho
      cases ho

/-- A ballot that comes after the decision is final, or after the deadline, is put down in the record
    that a question at that second leaves. -/
theorem applyVote_of_late (expected : k < r.cohortCount)
    (late : r.frozen ≠ none ∨ r.deadline ≤ now) (b : Ballot) :
    r.applyVote k b now = .ok (.ignored, (r.settle now).record.mark k b) := by
  rw [applyVote, if_neg (UInt32.not_le.2 expected)]
  cases hf : r.frozen with
  | some d => rw [settle_of_frozen hf, Option.isSome_some, if_pos rfl]
  | none =>
    have passed : r.deadline ≤ now := late.resolve_left fun frozen => frozen hf
    obtain ⟨o, ho⟩ := exists_ruling passed
    rw [Option.isSome_none, if_neg Bool.false_ne_true, if_pos passed, freezeAt, settle, hf, ho]

/-- Only such ballots are ignored. -/
theorem late_of_ignored {b : Ballot} {r' : Record} (h : r.applyVote k b now = .ok (.ignored, r')) :
    k < r.cohortCount ∧ (r.frozen ≠ none ∨ r.deadline ≤ now) := by
  obtain ⟨expected, voted⟩ := voted_of_applyVote h
  refine ⟨expected, ?_⟩
  cases voted with
  | late frozen => exact .inl (by rw [frozen]; nofun)
  | overdue _ passed => exact .inr passed

/-- Putting it down there changes that ballot and no other. -/
theorem ballot_mark_settle (r : Record) (k : UInt32) (b : Ballot) (now : Int64) (j : UInt32) :
    ((r.settle now).record.mark k b).ballot j = if j = k then some b else r.ballot j := by
  obtain ⟨-, -, hvotes⟩ := (r.settled now).frame
  rw [ballot_mark, ballot, ballot, hvotes]

/-! ## Records that differ in one ballot -/

/-- Two records with the same final decision that differ at most in the ballot of cohort `k`. -/
structure Twins (k : UInt32) (r s : Record) : Prop where
  cohortCount : s.cohortCount = r.cohortCount
  deadline : s.deadline = r.deadline
  decision : s.decision = r.decision
  final : r.frozen ≠ none
  ballots : ∀ j, j ≠ k → s.ballot j = r.ballot j

theorem twins_mark (frozen : r.frozen = some d) (k : UInt32) (b b' : Ballot) :
    Twins k (r.mark k b) (r.mark k b') where
  cohortCount := rfl
  deadline := rfl
  decision := rfl
  final := by
    rw [frozen_mark, frozen]
    nofun
  ballots j hj := by rw [ballot_mark, ballot_mark, if_neg hj, if_neg hj]

/-- What an act does to a record whose decision is final. -/
theorem act_of_frozen (frozen : r.frozen = some d) (x : Act) : r.act x = match x with
    | .vote j b _ =>
      if r.cohortCount ≤ j then (.refused (.cohortOutOfRange j r.cohortCount), r)
      else (.voted .ignored, r.mark j b)
    | .settle _ => (.settled d false, r) := by
  cases x with
  | vote j b now =>
    dsimp only
    split
    · next hj => exact act_vote_of_le hj b now
    · next hj =>
      have late : r.frozen ≠ none ∨ r.deadline ≤ now := .inl (by rw [frozen]; nofun)
      rw [act, applyVote_of_late (UInt32.not_le.1 hj) late, settle_of_frozen frozen]
  | settle now => rw [act, settle_of_frozen frozen]

namespace Twins

theorem frozen (twins : Twins k r s) : s.frozen = r.frozen := by
  rw [Record.frozen, Record.frozen, twins.decision]

theorem mark (twins : Twins k r s) (j : UInt32) (b : Ballot) : Twins k (r.mark j b) (s.mark j b) where
  cohortCount := twins.cohortCount
  deadline := twins.deadline
  decision := twins.decision
  final := twins.final
  ballots i hi := by rw [ballot_mark, ballot_mark, twins.ballots i hi]

/-- Twins answer alike and stay twins. -/
theorem act (twins : Twins k r s) (x : Act) :
    (s.act x).1 = (r.act x).1 ∧ Twins k (r.act x).2 (s.act x).2 := by
  obtain ⟨d, hr⟩ := Option.ne_none_iff_exists'.1 twins.final
  have hs : s.frozen = some d := twins.frozen.trans hr
  rw [act_of_frozen hr, act_of_frozen hs]
  cases x with
  | settle now => exact ⟨rfl, twins⟩
  | vote j b now =>
    dsimp only
    rw [twins.cohortCount]
    split
    · exact ⟨rfl, twins⟩
    · exact ⟨rfl, twins.mark j b⟩

theorem after (twins : Twins k r s) (h : List Act) : Twins k (r.after h) (s.after h) := by
  induction h with
  | nil => exact twins
  | cons x h ih => exact (ih.act x).2

end Twins

/-! ## Late ballots -/

/-- After the deadline a ballot of an expected cohort is ignored, and it leaves the record that a
    question at that second leaves, with the ballot put down for the cohort and those of the others as
    they were; the decision that is final in it is the answer to that question. And where a ballot is
    ignored, its opposite would have been ignored too, with the same final decision, and the same answer
    to everything that is done after that. -/
theorem late_ballot_inert (r : Record) (k : UInt32) (b : Ballot) (now : Int64) :
    (k < r.cohortCount → r.deadline ≤ now →
      ∃ r', r.applyVote k b now = .ok (.ignored, r') ∧ r' = (r.settle now).record.mark k b ∧
        r'.ballot k = some b ∧ (∀ j, j ≠ k → r'.ballot j = r.ballot j) ∧
        r'.frozen = some (r.settle now).decision) ∧
    ∀ r', r.applyVote k b now = .ok (.ignored, r') → ∀ b' : Ballot, ∃ s',
      r.applyVote k b' now = .ok (.ignored, s') ∧ s'.frozen = r'.frozen ∧
      ∀ h : List Act, (s'.after h).frozen = (r'.after h).frozen ∧
        ∀ x, ((s'.after h).act x).1 = ((r'.after h).act x).1 := by
  constructor
  · intro expected passed
    refine ⟨_, applyVote_of_late expected (.inr passed) b, rfl, ?_, fun j hj => ?_, ?_⟩
    · rw [ballot_mark_settle, if_pos rfl]
    · rw [ballot_mark_settle, if_neg hj]
    · rw [frozen_mark]
      exact frozen_settle_of_late (.inr passed)
  · intro r' ignored b'
    obtain ⟨expected, late⟩ := late_of_ignored ignored
    have hr : r' = (r.settle now).record.mark k b := by
      rw [applyVote_of_late expected late] at ignored
      cases ignored
      rfl
    have twins : Twins k r' ((r.settle now).record.mark k b') := by
      rw [hr]
      exact twins_mark (frozen_settle_of_late late) k b b'
    refine ⟨_, applyVote_of_late expected late b', twins.frozen, fun h => ?_⟩
    exact ⟨(twins.after h).frozen, fun x => ((twins.after h).act x).1⟩

/-- A record that counts the commit of a cohort nobody expects is a full house, and the late abort of
    cohort 1 leaves it one. With a commit in its place, cohort 1 may vote again and all is answered as
    before. -/
theorem late_ballot_inert_of_stranger :
    let r : Record := { new 2 10 with votes := .ofList [(0, .commit), (7, .commit)] }
    let h : List Act := [.settle 3, .vote 1 .abort 4]
    ∃ r' s', r.applyVote 1 .abort 12 = .ok (.ignored, r') ∧
      r'.ballot 1 = some .abort ∧ r'.ballot 7 = some .commit ∧
      r'.frozen = some Outcome.committed.decision ∧ r.applyVote 1 .commit 12 = .ok (.ignored, s') ∧
      ((s'.after h).act (.settle 20)).1 = ((r'.after h).act (.settle 20)).1 := by
  intro r h
  obtain ⟨hlate, hinert⟩ := late_ballot_inert r 1 .abort 12
  obtain ⟨r', ignored, -, put, others, frozen⟩ := hlate (by decide) (by decide)
  obtain ⟨s', ignored', -, alike⟩ := hinert r' ignored .commit
  have committed : (r.settle 12).decision = Outcome.committed.decision := by decide
  rw [committed] at frozen
  exact ⟨r', s', ignored, put, others 7 (by decide), frozen, ignored', (alike h).2 _⟩

end TwoPhaseCommit.Record
