import TwoPhaseCommit.Proofs.SortedMap.Entries
import TwoPhaseCommit.Record.Stored

/- The stored form of a record gives the record back (`ofBytes_toBytes_append`, whatever follows
   it), so records with one stored form are one record (`toBytes_inj`). This is what lets a ledger
   that compares bytes stand for one that compares records. -/
namespace TwoPhaseCommit.Record

theorem readNumber_write {w n : Nat} (t : Bytes) (h : n < LittleEndian.bound w) :
    readNumber w (LittleEndian.write w n ++ t) = .ok (n, t) := by
  rw [readNumber, LittleEndian.read_write w n t h]

theorem storedBallot_lt (b : Ballot) : storedBallot b < LittleEndian.bound 4 := by
  cases b <;> decide

theorem readVote_writeVote (v : UInt32 × Ballot) (t : Bytes) :
    readVote (writeVote v ++ t) = .ok (v, t) := by
  obtain ⟨cohort, b⟩ := v
  have hc : cohort.toNat < LittleEndian.bound 4 := cohort.toNat_lt
  rw [readVote, writeVote, List.append_assoc, readNumber_write _ hc]
  simp only [bind, Except.bind]
  rw [readNumber_write _ (storedBallot_lt b)]
  cases b <;> simp [storedBallot]

theorem readVotes_flatMap_writeVote : ∀ (l : List (UInt32 × Ballot))
    (m : SortedMap UInt32 Ballot) (t : Bytes),
    readVotes l.length m (l.flatMap writeVote ++ t) =
      .ok (l.foldl (fun m p => m.insert p.1 p.2) m, t)
  | [], _, _ => rfl
  | v :: rest, m, t => by
    rw [List.length_cons, List.flatMap_cons, List.append_assoc, readVotes, readVote_writeVote]
    exact readVotes_flatMap_writeVote rest (m.insert v.1 v.2) t

theorem readText_encode (s : String) (t : Bytes) :
    ∃ h, readText (Utf8.encode s).length (Utf8.encode s ++ t) = .ok ⟨s, h⟩ := by
  refine ⟨Nat.le_refl _, ?_⟩
  have hlen : ¬ (Utf8.encode s ++ t).length < (Utf8.encode s).length := by
    rw [List.length_append]
    omega
  have hd : Utf8.decode ((Utf8.encode s ++ t).take (Utf8.encode s).length) = .ok s := by
    rw [List.take_left, Utf8.decode_encode]
  rw [readText, if_neg hlen]
  split
  · next s' hs =>
    rw [hd] at hs
    cases hs
    rfl
  · next flaw hf =>
    rw [hd] at hf
    cases hf

theorem toInt64_ofNat_toNat (d : Int64) : (UInt64.ofNat d.toUInt64.toNat).toInt64 = d := by
  rw [UInt64.ofNat_toNat, Int64.toInt64_toUInt64]

/-- The bytes of a record, with its ballots as a list in any order. -/
def layout (cohortCount : UInt32) (deadline : Int64) (ballots : List (UInt32 × Ballot))
    (decision : String) : Bytes :=
  LittleEndian.write 4 cohortCount.toNat ++ LittleEndian.write 8 deadline.toUInt64.toNat ++
    LittleEndian.write 8 ballots.length ++ ballots.flatMap writeVote ++
    LittleEndian.write 8 (Utf8.encode decision).length ++ Utf8.encode decision

theorem toBytes_eq_layout (r : Record) :
    r.toBytes = layout r.cohortCount r.deadline r.votes.entries r.decision := rfl

/-- Ballots are read in any order, and what follows the text is left alone. -/
theorem ofBytes_layout_append (n : UInt32) (d : Int64) {l : List (UInt32 × Ballot)} {s : String}
    (hv : l.length < UInt64.size) (hs : (Utf8.encode s).length < UInt64.size) (t : Bytes) :
    ofBytes (layout n d l s ++ t) = .ok ⟨n, d, .ofList l, s, hs⟩ := by
  have hn : n.toNat < LittleEndian.bound 4 := n.toNat_lt
  have hd : d.toUInt64.toNat < LittleEndian.bound 8 := d.toUInt64.toNat_lt
  have hl : (Utf8.encode s).length < LittleEndian.bound 8 := hs
  have hread := LittleEndian.read_write 8 _ (Utf8.encode s ++ t) hl
  obtain ⟨_, htext⟩ := readText_encode s t
  simp only [ofBytes, layout, List.append_assoc, bind, Except.bind]
  rw [readNumber_write _ hn]
  dsimp only
  rw [readNumber_write _ hd]
  dsimp only
  rw [readNumber_write _ hv]
  dsimp only
  rw [readVotes_flatMap_writeVote]
  dsimp only
  split
  · next hr =>
    rw [hread] at hr
    cases hr
  · next length rest hr =>
    rw [hread] at hr
    cases hr
    rw [htext]
    simp only [UInt32.ofNat_toNat, toInt64_ofNat_toNat]
    rfl

/-- A record is read back from its stored form, and what follows that is left alone. -/
theorem ofBytes_toBytes_append (r : Record) (t : Bytes) : ofBytes (r.toBytes ++ t) = .ok r := by
  rw [toBytes_eq_layout, ofBytes_layout_append _ _ r.votes.size_lt r.length_decision]
  congr 2
  exact SortedMap.ofList_entries r.votes

@[simp] theorem ofBytes_toBytes (r : Record) : ofBytes r.toBytes = .ok r := by
  rw [← List.append_nil r.toBytes, ofBytes_toBytes_append]

theorem toBytes_inj {r s : Record} : r.toBytes = s.toBytes ↔ r = s := by
  constructor
  · intro h
    apply Except.ok.inj
    calc Except.ok r = ofBytes r.toBytes := (ofBytes_toBytes r).symm
      _ = ofBytes s.toBytes := by rw [h]
      _ = .ok s := ofBytes_toBytes s
  · intro h
    rw [h]

end TwoPhaseCommit.Record
