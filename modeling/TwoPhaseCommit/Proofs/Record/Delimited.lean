import TwoPhaseCommit.Proofs.Reader
import TwoPhaseCommit.Proofs.Record.RoundTrip

/- Which bytes hold a record. What a record is read from is a layout of its ballots, in some order
   and some of them perhaps replaced by later ones, and then anything (`exists_layout_of_ofBytes`).
   So a record is read alike whatever follows (`ofBytes_append`), its stored form is the shortest
   that holds it (`length_toBytes_le`), and no proper beginning of a stored form holds any record.
   `self_delimiting` puts this together. -/
namespace TwoPhaseCommit.Record

theorem readNumber_eq_ok_iff {w n : Nat} {bs t : Bytes} :
    readNumber w bs = .ok (n, t) ↔ n < LittleEndian.bound w ∧ bs = LittleEndian.write w n ++ t := by
  constructor
  · intro h
    rw [readNumber] at h
    split at h
    · next p hp =>
      cases h
      exact ⟨LittleEndian.read_lt hp, LittleEndian.eq_write_of_read hp⟩
    · cases h
  · intro h
    rw [h.2, readNumber_write t h.1]

/-! ## What is read was written -/

theorem eq_writeVote_of_readVote {v : UInt32 × Ballot} {bs t : Bytes}
    (h : readVote bs = .ok (v, t)) : bs = writeVote v ++ t := by
  obtain ⟨⟨cohort, rest⟩, hcohort, h₁⟩ := exists_of_bind_eq_ok h
  obtain ⟨⟨number, rest'⟩, hnumber, h₂⟩ := exists_of_bind_eq_ok h₁
  obtain ⟨hlt, rfl⟩ := readNumber_eq_ok_iff.1 hcohort
  obtain ⟨-, rfl⟩ := readNumber_eq_ok_iff.1 hnumber
  have hc : (UInt32.ofNat cohort).toNat = cohort := UInt32.toNat_ofNat_of_lt hlt
  dsimp only at h₂
  split at h₂
  · cases h₂
    rw [writeVote, hc, List.append_assoc, storedBallot]
  · cases h₂
    rw [writeVote, hc, List.append_assoc, storedBallot]
  · cases h₂

theorem exists_of_readVotes : ∀ {n : Nat} {m m' : SortedMap UInt32 Ballot} {bs t : Bytes},
    readVotes n m bs = .ok (m', t) → ∃ l : List (UInt32 × Ballot), l.length = n ∧
      bs = l.flatMap writeVote ++ t ∧ m' = l.foldl (fun m p => m.insert p.1 p.2) m
  | 0, m, m', bs, t, h => by
    cases h
    exact ⟨[], rfl, rfl, rfl⟩
  | n+1, m, m', bs, t, h => by
    obtain ⟨⟨v, rest⟩, hv, hrest⟩ := exists_of_bind_eq_ok h
    obtain ⟨l, rfl, rfl, hm⟩ := exists_of_readVotes hrest
    refine ⟨v :: l, rfl, ?_, hm⟩
    rw [eq_writeVote_of_readVote hv, List.flatMap_cons, List.append_assoc]

theorem eq_encode_of_readText {n : Nat} {bs : Bytes} {s : { s : String // (Utf8.encode s).length ≤ n }}
    (h : readText n bs = .ok s) : (Utf8.encode s.1).length = n ∧ ∃ t, bs = Utf8.encode s.1 ++ t := by
  rw [readText] at h
  split at h
  · cases h
  · next hn =>
    split at h
    · next s' hs =>
      cases h
      have ht := Utf8.decode_eq_ok_iff.1 hs
      dsimp only
      rw [← ht]
      refine ⟨?_, bs.drop n, (List.take_append_drop n bs).symm⟩
      rw [List.length_take]
      omega
    · cases h

/-- Only a layout of its ballots holds a record. -/
theorem exists_layout_of_ofBytes {b : Bytes} {r : Record} (h : ofBytes b = .ok r) :
    ∃ (l : List (UInt32 × Ballot)) (t : Bytes), l.length < UInt64.size ∧ r.votes = .ofList l ∧
      b = layout r.cohortCount r.deadline l r.decision ++ t := by
  obtain ⟨⟨n, b₁⟩, hreadn, h₁⟩ := exists_of_bind_eq_ok h
  obtain ⟨⟨d, b₂⟩, hreadd, h₂⟩ := exists_of_bind_eq_ok h₁
  obtain ⟨⟨count, b₃⟩, hreadc, h₃⟩ := exists_of_bind_eq_ok h₂
  obtain ⟨⟨votes, b₄⟩, hvotes, h₄⟩ := exists_of_bind_eq_ok h₃
  obtain ⟨hn, eb⟩ := readNumber_eq_ok_iff.1 hreadn
  obtain ⟨hd, eb₁⟩ := readNumber_eq_ok_iff.1 hreadd
  obtain ⟨hcount, eb₂⟩ := readNumber_eq_ok_iff.1 hreadc
  obtain ⟨l, hl, eb₃, hm⟩ := exists_of_readVotes hvotes
  dsimp only at eb₁ eb₂ eb₃ h₄
  split at h₄
  · cases h₄
  · next length b₅ hlength =>
    obtain ⟨s, hs, h₅⟩ := exists_of_bind_eq_ok h₄
    obtain ⟨hlen, t, eb₅⟩ := eq_encode_of_readText hs
    have eb₄ := LittleEndian.eq_write_of_read hlength
    have hn' : (UInt32.ofNat n).toNat = n := UInt32.toNat_ofNat_of_lt hn
    have hd' : (UInt64.ofNat d).toInt64.toUInt64.toNat = d := by
      rw [UInt64.toUInt64_toInt64]
      exact UInt64.toNat_ofNat_of_lt hd
    cases h₅
    refine ⟨l, t, hl ▸ hcount, hm, ?_⟩
    simp only [layout, hn', hd', hl, hlen, List.append_assoc]
    rw [eb, eb₁, eb₂, eb₃, eb₄, eb₅]

/-! ## A record ends where its bytes say -/

/-- What follows the bytes of a record is left alone, also where they are not its stored form. -/
theorem ofBytes_append {b : Bytes} {r : Record} (h : ofBytes b = .ok r) (t : Bytes) :
    ofBytes (b ++ t) = .ok r := by
  obtain ⟨l, t', hl, hvotes, hb⟩ := exists_layout_of_ofBytes h
  rw [hb, List.append_assoc, ofBytes_layout_append _ _ hl r.length_decision, ← hvotes]

theorem length_writeVote (v : UInt32 × Ballot) : (writeVote v).length = 8 := by
  simp [writeVote]

theorem length_layout (n : UInt32) (d : Int64) (l : List (UInt32 × Ballot)) (s : String) :
    (layout n d l s).length = 28 + 8 * l.length + (Utf8.encode s).length := by
  have hl : (l.flatMap writeVote).length = 8 * l.length := by
    induction l with
    | nil => rfl
    | cons v rest ih =>
      rw [List.flatMap_cons, List.length_append, length_writeVote, ih, List.length_cons]
      omega
  simp only [layout, List.length_append, LittleEndian.length_write, hl]
  omega

/-- No bytes that hold a record are fewer than those of its stored form. -/
theorem length_toBytes_le {b : Bytes} {r : Record} (h : ofBytes b = .ok r) :
    r.toBytes.length ≤ b.length := by
  obtain ⟨l, t, hl, hvotes, hb⟩ := exists_layout_of_ofBytes h
  have hsize : r.votes.entries.length ≤ l.length := by
    rw [hvotes]
    exact SortedMap.size_ofList_le l
  rw [hb, toBytes_eq_layout, List.length_append, length_layout, length_layout]
  omega

theorem ofBytes_ne_ok_of_cut {r r' : Record} {p : Bytes} (hp : p <+: r.toBytes)
    (hne : p ≠ r.toBytes) : ofBytes p ≠ .ok r' := by
  intro h
  obtain ⟨t, ht⟩ := hp
  have hr : r' = r := by
    apply Except.ok.inj
    rw [← ofBytes_append h t, ht, ofBytes_toBytes]
  have hlen : r.toBytes.length ≤ p.length := length_toBytes_le (hr ▸ h)
  exact hne (List.IsPrefix.eq_of_length_le ⟨t, ht⟩ hlen)

/-- The stored form of a record gives it back and leaves alone what follows, cut short it holds no
    record, and it belongs to one record only. A record that was read, from its stored form or from
    other bytes, has a stored form that is no longer than those bytes and is read as that record. -/
theorem self_delimiting (r : Record) :
    (∀ t, ofBytes (r.toBytes ++ t) = .ok r) ∧
    (∀ p, p <+: r.toBytes → p ≠ r.toBytes →
      ∃ f : Flaw, ofBytes p = .error f ∧ f.error.kind = .serialization) ∧
    (∀ s : Record, r.toBytes = s.toBytes ↔ r = s) ∧
    (∀ b, ofBytes b = .ok r → ofBytes r.toBytes = .ok r ∧ r.toBytes.length ≤ b.length) := by
  refine ⟨ofBytes_toBytes_append r, ?cut, fun _ => toBytes_inj, ?read⟩
  case cut =>
    intro p hp hne
    cases h : ofBytes p with
    | ok r' => exact absurd h (ofBytes_ne_ok_of_cut hp hne)
    | error f => exact ⟨f, rfl, rfl⟩
  case read =>
    intro b h
    exact ⟨ofBytes_toBytes r, length_toBytes_le h⟩

/-- The two ballots of one cohort in `b` are read as the later one. The stored form is eight bytes
    shorter, and without its last byte it holds no record. -/
theorem self_delimiting_of_replaced :
    let b := layout 2 60 [(1, .commit), (1, .abort)] openText
    let r : Record := { new 2 60 with votes := .ofList [(1, .abort)] }
    ofBytes b = .ok r ∧ ofBytes r.toBytes = .ok r ∧ r.toBytes.length ≤ b.length ∧
      ∃ f : Flaw, ofBytes r.toBytes.dropLast = .error f ∧ f.error.kind = .serialization := by
  intro b r
  have hb : ofBytes b = .ok r := by rfl
  have hne : r.toBytes.dropLast ≠ r.toBytes := by decide
  exact ⟨hb, ((self_delimiting r).2.2.2 b hb).1, ((self_delimiting r).2.2.2 b hb).2,
    (self_delimiting r).2.1 _ (List.dropLast_prefix _) hne⟩

end TwoPhaseCommit.Record
