import TwoPhaseCommit.Proofs.SortedMap.Entries
import TwoPhaseCommit.Record

/- How a record comes to its decision. `Voted` and `Settled` list what the two operations can do, and
   `voted_of_applyVote` and `settled` say that they do nothing else. `ballot_of_fullHouse` and
   `exists_ballot_eq_none` tell what the count of commits means for single cohorts. -/
namespace TwoPhaseCommit.Record

theorem isTerminal_of_frozen {r : Record} {d : Decision} (h : r.frozen = some d) :
    d.isTerminal = true := by
  rw [frozen] at h
  split at h
  · next ht => rw [← Option.some.inj h]; exact ht
  · cases h

@[simp] theorem frozen_freeze (r : Record) (o : Outcome) : (r.freeze o).frozen = some o.decision := by
  simp [frozen, freeze]

@[simp] theorem frozen_mark (r : Record) (k : UInt32) (b : Ballot) : (r.mark k b).frozen = r.frozen :=
  rfl

@[simp] theorem frozen_new (n : UInt32) (d : Int64) : (new n d).frozen = none := by
  have ht : (Decision.decode openText).isTerminal = false := by decide
  simp [frozen, new, ht]

theorem ballot_mark (r : Record) (k j : UInt32) (b : Ballot) :
    (r.mark k b).ballot j = if j = k then some b else r.ballot j :=
  SortedMap.get?_insert r.votes k j b

/-! ## The outcome at a second -/

theorem commitVotes_of_ruling {r : Record} {now : Int64} (h : r.ruling now = some .committed) :
    r.commitVotes = r.cohortCount.toNat := by
  unfold ruling at h
  split at h
  · assumption
  · split at h
    · cases h
    · split at h <;> cases h

theorem ruling_of_commitVotes {r : Record} (now : Int64) (h : r.commitVotes = r.cohortCount.toNat) :
    r.ruling now = some .committed :=
  if_pos h

theorem hasAbortVote_of_ruling {r : Record} {now : Int64}
    (h : r.ruling now = some .cohortAborted) : r.hasAbortVote = true := by
  unfold ruling at h
  split at h
  · cases h
  · split at h
    · assumption
    · split at h <;> cases h

theorem of_ruling_timedOut {r : Record} {now : Int64} (h : r.ruling now = some .timedOut) :
    r.commitVotes ≠ r.cohortCount.toNat ∧ r.hasAbortVote = false ∧ r.deadline ≤ now := by
  unfold ruling at h
  split at h
  · cases h
  · next hc =>
    split at h
    · cases h
    · next ha =>
      split at h
      · next hd => exact ⟨hc, by simpa using ha, hd⟩
      · cases h

theorem exists_ruling {r : Record} {now : Int64} (h : r.deadline ≤ now) :
    ∃ o, r.ruling now = some o := by
  simp only [ruling, if_pos h]
  split
  · exact ⟨_, rfl⟩
  · split <;> exact ⟨_, rfl⟩

theorem exists_ballot_of_hasAbortVote {r : Record} (h : r.hasAbortVote = true) :
    ∃ k, r.ballot k = some .abort :=
  (SortedMap.mem_values_iff r.votes).1 (List.contains_iff_mem.1 h)

theorem ballot_ne_abort {r : Record} (h : r.hasAbortVote = false) (k : UInt32) :
    r.ballot k ≠ some .abort := by
  intro hk
  have ha : r.hasAbortVote = true :=
    List.contains_iff_mem.2 ((SortedMap.mem_values_iff r.votes).2 ⟨k, hk⟩)
  rw [h] at ha
  cases ha

theorem hasAbortVote_iff {r : Record} : r.hasAbortVote = true ↔ ∃ k, r.ballot k = some .abort := by
  constructor
  · exact exists_ballot_of_hasAbortVote
  · intro h
    obtain ⟨k, hk⟩ := h
    cases ha : r.hasAbortVote with
    | true => rfl
    | false => exact absurd hk (ballot_ne_abort ha k)

/-! ## Counting commits -/

variable {r : Record}

theorem commitVotes_le_size (r : Record) : r.commitVotes ≤ r.votes.size := by
  rw [← SortedMap.length_values]
  exact List.count_le_length

/-- In a full house of commits every expected cohort stands for a commit. -/
theorem ballot_of_fullHouse (hk : r.votes.KeysBelow r.cohortCount.toNat)
    (h : r.commitVotes = r.cohortCount.toNat) {k : UInt32} (hlt : k.toNat < r.cohortCount.toNat) :
    r.ballot k = some .commit := by
  -- there are no more ballots than cohorts, so a full house leaves no room for another ballot
  have hsize : r.votes.size = r.cohortCount.toNat := by
    apply Nat.le_antisymm hk.size_le
    calc r.cohortCount.toNat = r.commitVotes := h.symm
      _ ≤ r.votes.size := r.commitVotes_le_size
  have hcount : r.votes.values.count .commit = r.votes.values.length := by
    rw [SortedMap.length_values, hsize]
    exact h
  obtain ⟨b, hb⟩ := hk.exists_get?_of_full hsize hlt
  have hcommit : Ballot.commit = b :=
    List.count_eq_length.1 hcount b ((SortedMap.mem_values_iff r.votes).2 ⟨k, hb⟩)
  rw [hcommit]
  exact hb

/-- If every expected cohort stands for a commit, and nobody else has voted, the house is full. -/
theorem fullHouse_of_ballots (hk : r.votes.KeysBelow r.cohortCount.toNat)
    (h : ∀ k : UInt32, k.toNat < r.cohortCount.toNat → r.ballot k = some .commit) :
    r.commitVotes = r.cohortCount.toNat := by
  have hall : ∀ b ∈ r.votes.values, Ballot.commit = b := by
    intro b hb
    obtain ⟨k, hkb⟩ := (SortedMap.mem_values_iff r.votes).1 hb
    have hcommit : r.votes.get? k = some .commit := h k (hk k b hkb)
    exact Option.some.inj (hcommit.symm.trans hkb)
  have hsize : ¬ r.votes.size < r.cohortCount.toNat := by
    intro hlt
    obtain ⟨k, hkn, hnone⟩ :=
      SortedMap.exists_get?_eq_none (Nat.le_of_lt r.cohortCount.toNat_lt) hlt
    have hcommit : r.votes.get? k = some .commit := h k hkn
    rw [hnone] at hcommit
    cases hcommit
  have hle : r.votes.size ≤ r.cohortCount.toNat := hk.size_le
  rw [commitVotes, List.count_eq_length.2 hall, SortedMap.length_values]
  omega

/-- Without a full house of commits and without an abort, some expected cohort has not voted. -/
theorem exists_ballot_eq_none (hk : r.votes.KeysBelow r.cohortCount.toNat)
    (hc : r.commitVotes ≠ r.cohortCount.toNat) (ha : r.hasAbortVote = false) :
    ∃ k : UInt32, k.toNat < r.cohortCount.toNat ∧ r.ballot k = none := by
  have hall : ∀ b ∈ r.votes.values, Ballot.commit = b := by
    intro b hb
    obtain ⟨k, hkb⟩ := (SortedMap.mem_values_iff r.votes).1 hb
    cases b with
    | commit => rfl
    | abort => exact absurd hkb (ballot_ne_abort ha k)
  have hcount : r.commitVotes = r.votes.size := by
    rw [commitVotes, List.count_eq_length.2 hall, SortedMap.length_values]
  have hle : r.votes.size ≤ r.cohortCount.toNat := hk.size_le
  exact SortedMap.exists_get?_eq_none (Nat.le_of_lt r.cohortCount.toNat_lt) (by omega)

/-! ## What the operations do -/

/-- What settling a record gives. -/
inductive Settled (r : Record) (now : Int64) : Settlement → Prop where
  /-- The decision was final before. -/
  | final {d : Decision} (frozen : r.frozen = some d) : Settled r now ⟨d, false, r⟩
  | ruled {o : Outcome} (unfrozen : r.frozen = none) (ruling : r.ruling now = some o) :
    Settled r now ⟨o.decision, true, r.freeze o⟩
  | pending (unfrozen : r.frozen = none) (ruling : r.ruling now = none) :
    Settled r now ⟨.pending, false, r⟩

theorem settled (r : Record) (now : Int64) : r.Settled now (r.settle now) := by
  rw [settle]
  split
  · next hf => exact .final hf
  · next hf =>
    split
    · next hr => exact .ruled hf hr
    · next hr => exact .pending hf hr

theorem settle_of_frozen {d : Decision} (frozen : r.frozen = some d) (now : Int64) :
    r.settle now = ⟨d, false, r⟩ := by
  rw [settle, frozen]

/-- Settling tells the decision at that second. -/
theorem decision_settle (r : Record) (now : Int64) : (r.settle now).decision = r.resolve now := by
  rw [settle, resolve]
  split
  · rfl
  · split <;> rfl

/-- A decision is told as final exactly if it is final in the settled record. -/
theorem Settled.frozen_iff {now : Int64} {s : Settlement} (h : r.Settled now s) (d : Decision) :
    s.record.frozen = some d ↔ s.decision = d ∧ d.isTerminal = true := by
  cases h with
  | final frozen =>
    rw [frozen, Option.some.injEq]
    constructor
    · intro he
      exact ⟨he, he ▸ isTerminal_of_frozen frozen⟩
    · intro hd
      exact hd.1
  | @ruled o =>
    rw [frozen_freeze, Option.some.injEq]
    constructor
    · intro he
      exact ⟨he, he ▸ o.isTerminal_decision⟩
    · intro hd
      exact hd.1
  | pending unfrozen =>
    -- the pending decision is not final
    rw [unfrozen]
    constructor
    · intro he
      cases he
    · intro hd
      obtain ⟨rfl, hd⟩ := hd
      cases hd

/-- Settling a record leaves all but the decision. -/
theorem Settled.frame {now : Int64} {s : Settlement} (h : r.Settled now s) :
    s.record.cohortCount = r.cohortCount ∧ s.record.deadline = r.deadline ∧
      s.record.votes = r.votes := by
  cases h with
  | final | ruled | pending => exact ⟨rfl, rfl, rfl⟩

theorem Settled.frozen {now : Int64} {s : Settlement} {d : Decision} (h : r.Settled now s)
    (frozen : r.frozen = some d) : s.record.frozen = some d := by
  cases h with
  | final => exact frozen
  | ruled unfrozen | pending unfrozen => rw [unfrozen] at frozen; cases frozen

/-- The reason that a text gives is no longer than the text. -/
theorem length_reason_decode_le (s : String) :
    (Utf8.encode (Decision.decode s).reason).length ≤ (Utf8.encode s).length := by
  rw [Decision.decode, Utf8.encode, Utf8.encode]
  split
  · exact Nat.zero_le _
  · next c rest hs =>
    rw [hs, String.toList_ofList, List.flatMap_cons, List.length_append]
    omega

/-- The reason of a decision that is told has a length of 64 bits, like the text of a record. -/
theorem Settled.length_reason {now : Int64} {s : Settlement} (h : r.Settled now s) :
    (Utf8.encode s.decision.reason).length < UInt64.size := by
  cases h with
  | @final d frozen =>
    rw [Record.frozen] at frozen
    split at frozen
    · rw [← Option.some.inj frozen]
      exact Nat.lt_of_le_of_lt (length_reason_decode_le _) r.length_decision
    · cases frozen
  | @ruled o =>
    have hlt := Nat.lt_of_le_of_lt (length_reason_decode_le _) (length_encode_outcome o)
    rwa [Decision.decode_encode] at hlt
  | pending =>
    show (Utf8.encode Decision.pending.reason).length < UInt64.size
    decide

/-- What became of a ballot of cohort `k`, and the record with it. -/
inductive Voted (r : Record) (k : UInt32) (b : Ballot) (now : Int64) : VoteEffect → Record → Prop where
  /-- The decision was final before. -/
  | late {d : Decision} (frozen : r.frozen = some d) : Voted r k b now .ignored (r.mark k b)
  /-- The deadline has passed, and the outcome is made final without the ballot. -/
  | overdue {o : Outcome} (unfrozen : r.frozen = none) (passed : r.deadline ≤ now)
    (ruling : r.ruling now = some o) : Voted r k b now .ignored ((r.freeze o).mark k b)
  /-- The ballot makes a full house of commits. -/
  | last (unfrozen : r.frozen = none) (early : now < r.deadline)
    (ruling : (r.mark k b).ruling now = some .committed) :
    Voted r k b now .counted ((r.mark k b).freeze .committed)
  | counted (unfrozen : r.frozen = none) (early : now < r.deadline)
    (ruling : (r.mark k b).ruling now ≠ some .committed) : Voted r k b now .counted (r.mark k b)

/-- An accepted ballot is one of an expected cohort. -/
theorem voted_of_applyVote {k : UInt32} {b : Ballot} {now : Int64} {e : VoteEffect} {r' : Record}
    (h : r.applyVote k b now = .ok (e, r')) : k < r.cohortCount ∧ r.Voted k b now e r' := by
  unfold applyVote at h
  split at h
  · cases h
  · next hk =>
    refine ⟨UInt32.not_le.1 hk, ?_⟩
    split at h
    · next hf =>
      obtain ⟨d, hd⟩ := Option.isSome_iff_exists.1 hf
      cases h
      exact .late hd
    · next hf =>
      have hn : r.frozen = none := by simpa using hf
      split at h
      · next hd =>
        obtain ⟨o, ho⟩ := exists_ruling hd
        rw [freezeAt, ho] at h
        cases h
        exact .overdue hn hd ho
      · next hd =>
        have early : now < r.deadline := Int64.not_le.1 hd
        dsimp only at h
        split at h
        · next hr => cases h; exact .last hn early hr
        · next hr => cases h; exact .counted hn early hr

theorem exists_applyVote {k : UInt32} (hk : k < r.cohortCount) (b : Ballot) (now : Int64) :
    ∃ p, r.applyVote k b now = .ok p := by
  rw [applyVote, if_neg (UInt32.not_le.2 hk)]
  split
  · exact ⟨_, rfl⟩
  · split <;> exact ⟨_, rfl⟩

section
variable {k : UInt32} {b : Ballot} {now : Int64} {e : VoteEffect} {r' : Record} {d : Decision}

/-- Beside its ballot and the decision a vote leaves the record. -/
theorem Voted.frame (h : r.Voted k b now e r') : r'.cohortCount = r.cohortCount ∧
    r'.deadline = r.deadline ∧ r'.votes = r.votes.insert k b := by
  cases h with
  | late | overdue | last | counted => exact ⟨rfl, rfl, rfl⟩

theorem Voted.frozen (h : r.Voted k b now e r') (frozen : r.frozen = some d) :
    r'.frozen = some d := by
  cases h with
  | late => exact frozen
  | overdue unfrozen | last unfrozen | counted unfrozen => rw [unfrozen] at frozen; cases frozen

/-- A ballot counts while the decision is open and the deadline has not passed. -/
theorem Voted.counted_iff (h : r.Voted k b now e r') :
    e = .counted ↔ r.frozen = none ∧ now < r.deadline := by
  cases h with
  | late frozen => simp [frozen]
  | overdue unfrozen passed => simp [Int64.not_lt.2 passed]
  | last unfrozen early | counted unfrozen early => simp [unfrozen, early]

end
end TwoPhaseCommit.Record
