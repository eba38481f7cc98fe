import TwoPhaseCommit.Proofs.Record.Outcome

/- The history of a record. `after` carries out acts on a record, ballots and questions in any order,
   at any seconds, which need not ascend. `Reflects` says what the record holds and how it answers
   after that in terms of the acts alone: the votes are the latest ballots of the expected cohorts,
   the decision is open up to the first act that `Closes` the vote, and final from then on.
   `reflects_after` is the main statement; its invariant is `Fits`, which `Fits.act` keeps. -/
namespace TwoPhaseCommit.Record

/-- What can be done to a record, and the second at which it is done. -/
inductive Act where
  | vote (cohort : UInt32) (b : Ballot) (now : Int64)
  | settle (now : Int64)

/-- What an act is answered with. -/
inductive Reply where
  | refused (f : Refusal)
  | voted (e : VoteEffect)
  | settled (d : Decision) (changed : Bool)

/-- Carries out an act. A ballot that is refused leaves the record. -/
def act (r : Record) : Act → Reply × Record
  | .vote k b now => match r.applyVote k b now with
    | .ok (e, r') => (.voted e, r')
    | .error f => (.refused f, r)
  | .settle now => (.settled (r.settle now).decision (r.settle now).changed, (r.settle now).record)

/-- The record after acts, the latest first. -/
def after (r : Record) : List Act → Record
  | [] => r
  | x :: h => ((r.after h).act x).2

/-! ## What acts come to -/

/-- The latest ballot that cohort `k` has cast, where the cohorts below `n` are expected. -/
def latest (n k : UInt32) : List Act → Option Ballot
  | [] => none
  | .vote j b _ :: h => if j = k ∧ j < n then some b else latest n k h
  | .settle _ :: h => latest n k h

/-- Some cohort stands for an abort. -/
def Opposed (n : UInt32) (h : List Act) : Prop := ∃ k, latest n k h = some .abort

/-- Without a full house of commits the vote ends with an abort, or by its deadline. -/
def FallsTo (n : UInt32) (h : List Act) : Outcome → Prop
  | .committed => False
  | .cohortAborted => Opposed n h
  | .timedOut => ¬ Opposed n h

/-- An act that ends the vote of `n` cohorts with deadline `d` after the acts `h`, and the outcome. -/
inductive Closes (n : UInt32) (d : Int64) (h : List Act) : Act → Outcome → Prop where
  /-- The ballot after which all expected cohorts stand for a commit. -/
  | filled {k : UInt32} {b : Ballot} {now : Int64} (expected : k < n) (early : now < d)
    (full : ∀ j < n, latest n j (.vote k b now :: h) = some .commit) :
    Closes n d h (.vote k b now) .committed
  /-- A ballot after the deadline does not count for the outcome. -/
  | overdue {k : UInt32} {b : Ballot} {now : Int64} {o : Outcome} (expected : k < n)
    (passed : d ≤ now) (falls : FallsTo n h o) : Closes n d h (.vote k b now) o
  | asked {now : Int64} {o : Outcome} (due : d ≤ now ∨ Opposed n h) (falls : FallsTo n h o) :
    Closes n d h (.settle now) o

/-- None of the acts ends the vote. -/
def Awaits (n : UInt32) (d : Int64) (h : List Act) : Prop :=
  ∀ x p o, x :: p <:+ h → ¬ Closes n d p x o

/-- The vote has been ended by one of the acts, the first that could, with the outcome `o`. -/
def ClosedBy (n : UInt32) (d : Int64) (h : List Act) (o : Outcome) : Prop :=
  ∃ x p, x :: p <:+ h ∧ Awaits n d p ∧ Closes n d p x o

/-- What the acts `h` make of a new record of `n` cohorts with deadline `d`. -/
structure Fits (n : UInt32) (d : Int64) (h : List Act) (r : Record) : Prop where
  cohortCount : r.cohortCount = n
  deadline : r.deadline = d
  ballots : ∀ k, r.ballot k = latest n k h
  unfrozen : Awaits n d h → r.frozen = none
  /-- While the vote is open, it is no full house of commits. -/
  incomplete : Awaits n d h → r.commitVotes ≠ r.cohortCount.toNat
  frozen : ∀ o, ClosedBy n d h o → r.frozen = some o.decision

/-- What record `r` holds, and how it answers next, told by the acts `h` since it was new. -/
structure Reflects (n : UInt32) (d : Int64) (h : List Act) (r : Record) : Prop
    extends Fits n d h r where
  /-- A ballot of a cohort that is not expected changes nothing. -/
  refused : ∀ k b now, n ≤ k →
    ∃ f, f.kind = .invalidArgument ∧ r.act (.vote k b now) = (.refused f, r)
  counted : ∀ k b now, k < n → r.frozen = none ∧ now < d →
    (r.act (.vote k b now)).1 = .voted .counted
  ignored : ∀ k b now, k < n → ¬ (r.frozen = none ∧ now < d) →
    (r.act (.vote k b now)).1 = .voted .ignored
  /-- A question that does not end the vote, and comes before the act that does. -/
  pending : ∀ now, Awaits n d (.settle now :: h) →
    (r.act (.settle now)).1 = .settled .pending false
  /-- The question that ends it. -/
  closing : ∀ now o, Awaits n d h → Closes n d h (.settle now) o →
    (r.act (.settle now)).1 = .settled o.decision true
  /-- A question after that. -/
  final : ∀ now o, ClosedBy n d h o → (r.act (.settle now)).1 = .settled o.decision false

section
variable {n k j : UInt32} {d now : Int64} {b : Ballot} {h : List Act} {x : Act} {o : Outcome}

theorem latest_vote_of_lt (hk : k < n) (b : Ballot) (now : Int64) (j : UInt32) (h : List Act) :
    latest n j (.vote k b now :: h) = if j = k then some b else latest n j h := by
  simp [latest, hk, eq_comm]

theorem latest_vote_of_le (hk : n ≤ k) (b : Ballot) (now : Int64) (j : UInt32) (h : List Act) :
    latest n j (.vote k b now :: h) = latest n j h := by
  rw [latest, if_neg fun hj => UInt32.not_lt.2 hk hj.2]

theorem lt_of_latest (hb : latest n k h = some b) : k < n := by
  induction h with
  | nil => cases hb
  | cons x h ih =>
    cases x with
    | settle now => exact ih hb
    | vote j b' now =>
      rw [latest] at hb
      split at hb
      · next hj => rw [← hj.1]; exact hj.2
      · exact ih hb

theorem awaits_nil (n : UInt32) (d : Int64) : Awaits n d [] :=
  fun _ _ _ hs => absurd (List.suffix_nil.1 hs) (by simp)

theorem awaits_cons : Awaits n d (x :: h) ↔ Awaits n d h ∧ ∀ o, ¬ Closes n d h x o := by
  constructor
  · intro ha
    exact ⟨fun y p o hs => ha y p o (hs.trans (List.suffix_cons x h)),
      fun o => ha x h o (List.suffix_refl _)⟩
  · intro ha y p o hs
    rcases List.suffix_cons_iff.1 hs with he | hs
    · cases he
      exact ha.2 o
    · exact ha.1 y p o hs

/-- The act that ends the vote is the last one, or one before. -/
theorem closedBy_cons : ClosedBy n d (x :: h) o ↔
    (Awaits n d h ∧ Closes n d h x o) ∨ ClosedBy n d h o := by
  constructor
  · intro hc
    obtain ⟨y, p, hs, ha, hy⟩ := hc
    rcases List.suffix_cons_iff.1 hs with he | hs
    · cases he
      exact .inl ⟨ha, hy⟩
    · exact .inr ⟨y, p, hs, ha, hy⟩
  · intro hc
    obtain ⟨ha, hx⟩ | ⟨y, p, hs, ha, hy⟩ := hc
    · exact ⟨x, h, List.suffix_refl _, ha, hx⟩
    · exact ⟨y, p, hs.trans (List.suffix_cons x h), ha, hy⟩

end

/-! ## The record keeps up with the acts -/

namespace Fits
variable {n k : UInt32} {d now : Int64} {b : Ballot} {h : List Act} {o : Outcome} {r : Record}

theorem keys (fits : Fits n d h r) : r.votes.KeysBelow r.cohortCount.toNat := by
  intro k b hb
  rw [fits.cohortCount]
  exact UInt32.lt_iff_toNat_lt.1 (lt_of_latest ((fits.ballots k).symm.trans hb))

theorem hasAbortVote_iff (fits : Fits n d h r) : r.hasAbortVote = true ↔ Opposed n h := by
  rw [Record.hasAbortVote_iff]
  exact exists_congr fun k => by rw [fits.ballots k]

/-- The outcome of an open record at a second is the one that its vote falls to. -/
theorem ruling_iff (fits : Fits n d h r) (awaits : Awaits n d h) :
    r.ruling now = some o ↔ (d ≤ now ∨ Opposed n h) ∧ FallsTo n h o := by
  rw [ruling, if_neg (fits.incomplete awaits), fits.deadline]
  by_cases ha : Opposed n h
  · rw [if_pos (fits.hasAbortVote_iff.2 ha)]
    cases o <;> simp [FallsTo, ha]
  · rw [if_neg fun hr => ha (fits.hasAbortVote_iff.1 hr)]
    split
    · next hd => cases o <;> simp [FallsTo, ha, hd]
    · next hd => cases o <;> simp [ha, hd]

theorem closes_settle_iff (fits : Fits n d h r) (awaits : Awaits n d h) :
    Closes n d h (.settle now) o ↔ r.ruling now = some o := by
  rw [fits.ruling_iff awaits]
  constructor
  · intro closes
    cases closes with
    | asked due falls => exact ⟨due, falls⟩
  · intro hr
    exact .asked hr.1 hr.2

theorem ballots_mark (fits : Fits n d h r) (hk : k < n) (b : Ballot) (now : Int64) (j : UInt32) :
    (r.mark k b).ballot j = latest n j (.vote k b now :: h) := by
  rw [ballot_mark, latest_vote_of_lt hk, fits.ballots]

/-- A ballot makes a full house of commits in the record exactly if it does so among the acts. -/
theorem fullHouse_mark_iff (fits : Fits n d h r) (hk : k < n) (b : Ballot) (now : Int64) :
    (r.mark k b).commitVotes = r.cohortCount.toNat ↔
      ∀ j < n, latest n j (.vote k b now :: h) = some .commit := by
  have hkn : k.toNat < r.cohortCount.toNat := by
    rw [fits.cohortCount]
    exact UInt32.lt_iff_toNat_lt.1 hk
  have keys : (r.mark k b).votes.KeysBelow (r.mark k b).cohortCount.toNat := fits.keys.insert hkn b
  constructor
  · intro full j hj
    rw [← fits.ballots_mark hk b now j]
    refine ballot_of_fullHouse keys full ?_
    rw [mark, fits.cohortCount]
    exact UInt32.lt_iff_toNat_lt.1 hj
  · intro full
    refine fullHouse_of_ballots keys fun j hj => ?_
    rw [fits.ballots_mark hk b now j]
    refine full j (UInt32.lt_iff_toNat_lt.2 ?_)
    rw [← fits.cohortCount]
    exact hj

/-- What has to be shown of the record after one more act. -/
theorem cons {x : Act} {r' : Record} (fits : Fits n d h r)
    (cohortCount : r'.cohortCount = r.cohortCount) (deadline : r'.deadline = r.deadline)
    (ballots : ∀ k, r'.ballot k = latest n k (x :: h))
    (keeps : ∀ D, r.frozen = some D → r'.frozen = some D)
    (awaiting : Awaits n d (x :: h) → r'.frozen = none ∧ r'.commitVotes ≠ r.cohortCount.toNat)
    (closing : ∀ o, Awaits n d h → Closes n d h x o → r'.frozen = some o.decision) :
    Fits n d (x :: h) r' where
  cohortCount := cohortCount.trans fits.cohortCount
  deadline := deadline.trans fits.deadline
  ballots := ballots
  unfrozen awaits := (awaiting awaits).1
  incomplete awaits := cohortCount ▸ (awaiting awaits).2
  frozen o closed := by
    rcases closedBy_cons.1 closed with ⟨awaits, closes⟩ | closed
    · exact closing o awaits closes
    · exact keeps _ (fits.frozen o closed)

theorem settle (fits : Fits n d h r) (now : Int64) :
    Fits n d (.settle now :: h) (r.settle now).record := by
  have settled : r.Settled now (r.settle now) := r.settled now
  obtain ⟨hcount, hdeadline, hvotes⟩ := settled.frame
  apply fits.cons hcount hdeadline
  case ballots =>
    intro k
    rw [ballot, hvotes]
    exact fits.ballots k
  case keeps => exact fun D => settled.frozen
  case awaiting =>
    intro awaits
    obtain ⟨awaits, not_closes⟩ := awaits_cons.1 awaits
    cases hr : r.ruling now with
    | some o => exact absurd ((fits.closes_settle_iff awaits).2 hr) (not_closes o)
    | none =>
      simp only [Record.settle, fits.unfrozen awaits, hr]
      exact ⟨trivial, fits.incomplete awaits⟩
  case closing =>
    intro o awaits closes
    rw [fits.closes_settle_iff awaits] at closes
    simp only [Record.settle, fits.unfrozen awaits, closes]
    exact r.frozen_freeze o

theorem vote {e : VoteEffect} {r' : Record} (fits : Fits n d h r) (hk : k < n)
    (voted : r.Voted k b now e r') : Fits n d (.vote k b now :: h) r' := by
  obtain ⟨hcount, hdeadline, hvotes⟩ := voted.frame
  have full := fits.fullHouse_mark_iff hk b now
  apply fits.cons hcount hdeadline
  case ballots =>
    intro j
    rw [ballot, hvotes]
    exact fits.ballots_mark hk b now j
  case keeps => exact fun D => voted.frozen
  case awaiting =>
    intro awaits
    obtain ⟨awaits, not_closes⟩ := awaits_cons.1 awaits
    cases voted with
    | late frozen =>
      rw [fits.unfrozen awaits] at frozen
      cases frozen
    | overdue _ passed ruling =>
      rw [fits.deadline] at passed
      exact absurd (.overdue hk passed ((fits.ruling_iff awaits).1 ruling).2) (not_closes _)
    | last _ early ruling =>
      rw [fits.deadline] at early
      exact absurd (.filled hk early (full.1 (commitVotes_of_ruling ruling))) (not_closes _)
    | counted unfrozen _ ruling => exact ⟨unfrozen, fun hc => ruling (ruling_of_commitVotes now hc)⟩
  case closing =>
    intro o awaits closes
    have unfrozen := fits.unfrozen awaits
    cases closes with
    | filled _ early hfull =>
      rw [← fits.deadline] at early
      cases voted with
      | late frozen => rw [unfrozen] at frozen; cases frozen
      | overdue _ passed => exact absurd early (Int64.not_lt.2 passed)
      | last => exact frozen_freeze _ _
      | counted _ _ ruling => exact absurd (ruling_of_commitVotes now (full.2 hfull)) ruling
    | overdue _ passed falls =>
      have hruling : r.ruling now = some o := (fits.ruling_iff awaits).2 ⟨.inl passed, falls⟩
      rw [← fits.deadline] at passed
      cases voted with
      | late frozen => rw [unfrozen] at frozen; cases frozen
      | overdue _ _ ruling =>
        obtain rfl := Option.some.inj (ruling.symm.trans hruling)
        rw [frozen_mark, frozen_freeze]
      | last _ early | counted _ early => exact absurd early (Int64.not_lt.2 passed)

end Fits

/-! ## Acts one at a time -/

section
variable {r : Record} {k : UInt32}

theorem act_vote_of_lt (hk : k < r.cohortCount) (b : Ballot) (now : Int64) :
    ∃ e r', r.act (.vote k b now) = (.voted e, r') ∧ r.Voted k b now e r' := by
  obtain ⟨⟨e, r'⟩, hp⟩ := exists_applyVote hk b now
  refine ⟨e, r', ?_, (voted_of_applyVote hp).2⟩
  rw [act, hp]

theorem act_vote_of_le (hk : r.cohortCount ≤ k) (b : Ballot) (now : Int64) :
    r.act (.vote k b now) = (.refused (.cohortOutOfRange k r.cohortCount), r) := by
  rw [act, applyVote, if_pos hk]

end

/-- One more act leaves a record that is what comes of the acts. -/
theorem Fits.act {n : UInt32} {d : Int64} {h : List Act} {r : Record} (fits : Fits n d h r)
    (x : Act) : Fits n d (x :: h) (r.act x).2 := by
  cases x with
  | settle now => exact fits.settle now
  | vote k b now =>
    by_cases hk : k < n
    · obtain ⟨e, r', hact, voted⟩ := act_vote_of_lt (fits.cohortCount ▸ hk) b now
      rw [hact]
      exact fits.vote hk voted
    · have hle : n ≤ k := UInt32.not_lt.1 hk
      have no_close : ∀ o, ¬ Closes n d h (.vote k b now) o := by
        intro o closes
        cases closes with
        | filled expected | overdue expected => exact hk expected
      rw [act_vote_of_le (fits.cohortCount ▸ hle)]
      refine fits.cons rfl rfl ?_ (fun _ frozen => frozen) ?_ ?_
      · intro j
        rw [latest_vote_of_le hle]
        exact fits.ballots j
      · intro awaits
        have awaits := (awaits_cons.1 awaits).1
        exact ⟨fits.unfrozen awaits, fits.incomplete awaits⟩
      · exact fun o _ closes => absurd closes (no_close o)

theorem fits_new {n : UInt32} (hn : 1 ≤ n) (d : Int64) : Fits n d [] (new n d) where
  cohortCount := rfl
  deadline := rfl
  ballots _ := rfl
  unfrozen _ := frozen_new n d
  incomplete _ := by
    intro hc
    have h0 : 0 = n.toNat := hc
    have h1 : 1 ≤ n.toNat := UInt32.le_iff_toNat_le.1 hn
    omega
  frozen o closed := by
    obtain ⟨x, p, hs, -⟩ := closed
    cases List.suffix_nil.1 hs

theorem fits_after {n : UInt32} (hn : 1 ≤ n) (d : Int64) (h : List Act) :
    Fits n d h ((new n d).after h) := by
  induction h with
  | nil => exact fits_new hn d
  | cons x h ih => exact ih.act x

/-- Whatever is done to a new record, and at whatever seconds, what it holds and how it answers is
    told by what has been done. -/
theorem reflects_after {n : UInt32} (hn : 1 ≤ n) (d : Int64) (h : List Act) :
    Reflects n d h ((new n d).after h) := by
  have fits : Fits n d h ((new n d).after h) := fits_after hn d h
  generalize (new n d).after h = r at fits
  apply Reflects.mk fits
  case refused =>
    intro k b now hk
    exact ⟨_, rfl, act_vote_of_le (fits.cohortCount ▸ hk) b now⟩
  case counted =>
    intro k b now hk early
    obtain ⟨e, r', hact, voted⟩ := act_vote_of_lt (fits.cohortCount ▸ hk) b now
    rw [hact, voted.counted_iff.2 (fits.deadline ▸ early)]
  case ignored =>
    intro k b now hk late
    obtain ⟨e, r', hact, voted⟩ := act_vote_of_lt (fits.cohortCount ▸ hk) b now
    rw [hact]
    cases e with
    | ignored => rfl
    | counted => exact absurd (fits.deadline ▸ voted.counted_iff.1 rfl) late
  case pending =>
    intro now awaits
    obtain ⟨awaits, not_closes⟩ := awaits_cons.1 awaits
    cases hr : r.ruling now with
    | some o => exact absurd ((fits.closes_settle_iff awaits).2 hr) (not_closes o)
    | none => simp only [act, Record.settle, fits.unfrozen awaits, hr]
  case closing =>
    intro now o awaits closes
    rw [fits.closes_settle_iff awaits] at closes
    simp only [act, Record.settle, fits.unfrozen awaits, closes]
  case final =>
    intro now o closed
    simp only [act, Record.settle, fits.frozen o closed]

/-- Two commits in time make the commit final. A late abort is written down, and a question asked with
    the clock set back is answered with the commit. -/
theorem reflects_after_late_abort :
    let r := (new 2 10).after [.vote 1 .abort 12, .vote 1 .commit 6, .vote 0 .commit 5]
    r.ballot 1 = some .abort ∧ r.frozen = some Outcome.committed.decision ∧
      (r.act (.settle 3)).1 = .settled Outcome.committed.decision false := by
  have reflects := reflects_after (by decide : (1 : UInt32) ≤ 2) 10
    [.vote 1 .abort 12, .vote 1 .commit 6, .vote 0 .commit 5]
  have awaits : Awaits 2 10 [.vote 0 .commit 5] := by
    refine awaits_cons.2 ⟨awaits_nil 2 10, ?_⟩
    intro o closes
    cases closes with
    | filled _ _ full => exact absurd (full 1 (by decide)) (by decide)
    | overdue _ passed => exact absurd passed (by decide)
  have full : ∀ j < (2 : UInt32), latest 2 j [.vote 1 .commit 6, .vote 0 .commit 5] = some .commit := by
    intro j hj
    obtain rfl | rfl : j = 0 ∨ j = 1 := by grind
    · rfl
    · rfl
  have closed : ClosedBy 2 10 [.vote 1 .abort 12, .vote 1 .commit 6, .vote 0 .commit 5] .committed :=
    ⟨_, _, List.suffix_cons _ _, awaits, .filled (by decide) (by decide) full⟩
  exact ⟨reflects.ballots 1, reflects.frozen _ closed, reflects.final 3 _ closed⟩

end TwoPhaseCommit.Record
