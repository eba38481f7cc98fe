import TwoPhaseCommit.Proofs.Record.Delimited

/- The format of stored records. `Spells` says which bytes hold which record: the fields in their
   order, the ballots in any order and perhaps several for a cohort, and after that anything. `Flawed`
   says what is wrong with all other bytes: the first field that cannot be read decides. For every
   part of a record there is one lemma on when reading it fails, and `ofBytes_decides` puts them
   together: what reading gives is told by the bytes, whatever they are. -/
namespace TwoPhaseCommit.Record

/-- The bytes up to the ballots `l`, which are the first of `count`. -/
def opening (cohortCount : UInt32) (deadline : Int64) (count : Nat) (l : List (UInt32 × Ballot)) :
    Bytes :=
  LittleEndian.write 4 cohortCount.toNat ++ LittleEndian.write 8 deadline.toUInt64.toNat ++
    LittleEndian.write 8 count ++ l.flatMap writeVote

/-- The bytes hold the record: its number of cohorts, its deadline, ballots of which its votes are the
    latest for every cohort, its decision, and then anything. -/
def Spells (b : Bytes) (r : Record) : Prop :=
  ∃ (l : List (UInt32 × Ballot)) (t : Bytes), l.length < LittleEndian.bound 8 ∧
    b = opening r.cohortCount r.deadline l.length l ++
      LittleEndian.write 8 (Utf8.encode r.decision).length ++ Utf8.encode r.decision ++ t ∧
    ∀ k, r.ballot k = l.reverse.lookup k

/-- Bytes that begin with no ballot, and why. -/
inductive FlawedVote : Bytes → Flaw → Prop where
  | cut {t : Bytes} (short : t.length < 8) : FlawedVote t .cutNumber
  | unknown {k : UInt32} {number : Nat} {t : Bytes} (large : 2 ≤ number)
    (hnumber : number < LittleEndian.bound 4) :
    FlawedVote (LittleEndian.write 4 k.toNat ++ (LittleEndian.write 4 number ++ t)) (.ballot number)

/-- Bytes that begin with no text of `n` bytes, and why. -/
inductive FlawedText (n : Nat) (t : Bytes) : Flaw → Prop where
  | cut (short : t.length < n) : FlawedText n t .cutText
  | text {flaw : Utf8.Flaw} (enough : n ≤ t.length)
    (invalid : Utf8.decode (t.take n) = .error flaw) : FlawedText n t (.text flaw)

/-- Bytes that begin with no decision, and why. -/
inductive FlawedDecision : Bytes → Flaw → Prop where
  | cut {t : Bytes} (short : t.length < 8) : FlawedDecision t .cutNumber
  | text {n : Nat} {t : Bytes} {f : Flaw} (hn : n < LittleEndian.bound 8) (flawed : FlawedText n t f) :
    FlawedDecision (LittleEndian.write 8 n ++ t) f

/-- Bytes that hold no record, and what is wrong with the first field that cannot be read. -/
inductive Flawed : Bytes → Flaw → Prop where
  /-- There is no room for the numbers before the ballots. -/
  | cut {b : Bytes} (short : b.length < 20) : Flawed b .cutNumber
  | vote {n : UInt32} {d : Int64} {count : Nat} {l : List (UInt32 × Ballot)} {t : Bytes} {f : Flaw}
    (hcount : count < LittleEndian.bound 8) (more : l.length < count) (flawed : FlawedVote t f) :
    Flawed (opening n d count l ++ t) f
  | decision {n : UInt32} {d : Int64} {l : List (UInt32 × Ballot)} {t : Bytes} {f : Flaw}
    (hl : l.length < LittleEndian.bound 8) (flawed : FlawedDecision t f) :
    Flawed (opening n d l.length l ++ t) f

theorem length_lt_of_read {n : Nat} {bs t : Bytes} (s : { s : String // (Utf8.encode s).length ≤ n })
    (h : LittleEndian.read 8 bs = some (n, t)) : (Utf8.encode s.1).length < UInt64.size :=
  Nat.lt_of_le_of_lt s.2 (LittleEndian.read_lt h)

/-- Reads the last part of a record. -/
def readDecision (n : UInt32) (d : Int64) (votes : SortedMap UInt32 Ballot) (bs : Bytes) :
    Except Flaw Record :=
  match h : LittleEndian.read 8 bs with
  | none => .error .cutNumber
  | some (length, bs) => do
    let s ← readText length bs
    .ok ⟨n, d, votes, s.1, length_lt_of_read s h⟩

/-! ## When reading a part fails -/

theorem bind_eq_error_iff {ε α β : Type} {x : Except ε α} {f : α → Except ε β} {e : ε} :
    (x >>= f) = .error e ↔ x = .error e ∨ ∃ a, x = .ok a ∧ f a = .error e := by
  cases x with
  | error e' => simp [bind, Except.bind]
  | ok a => simp [bind, Except.bind]

theorem readNumber_eq_error_iff {w : Nat} {bs : Bytes} {f : Flaw} :
    readNumber w bs = .error f ↔ bs.length < w ∧ f = .cutNumber := by
  rw [readNumber, ← LittleEndian.read_eq_none_iff]
  cases LittleEndian.read w bs with
  | none => simp [eq_comm]
  | some p => simp

theorem flawedVote_of_readVote {bs : Bytes} {f : Flaw} (h : readVote bs = .error f) :
    FlawedVote bs f := by
  rcases bind_eq_error_iff.1 h with hcut | ⟨⟨cohort, rest⟩, hcohort, h₁⟩
  · obtain ⟨short, rfl⟩ := readNumber_eq_error_iff.1 hcut
    exact .cut (by omega)
  obtain ⟨hlt, rfl⟩ := readNumber_eq_ok_iff.1 hcohort
  rcases bind_eq_error_iff.1 h₁ with hcut | ⟨⟨number, rest'⟩, hnumber, h₂⟩
  · obtain ⟨short, rfl⟩ := readNumber_eq_error_iff.1 hcut
    refine .cut ?_
    rw [List.length_append, LittleEndian.length_write]
    omega
  obtain ⟨hlt', rfl⟩ := readNumber_eq_ok_iff.1 hnumber
  have hc : (UInt32.ofNat cohort).toNat = cohort := UInt32.toNat_ofNat_of_lt hlt
  dsimp only at h₂
  split at h₂
  · cases h₂
  · cases h₂
  · next h0 h1 =>
    cases h₂
    have hne0 : number ≠ 0 := h0
    have hne1 : number ≠ 1 := h1
    have large : 2 ≤ number := by omega
    rw [← hc]
    exact .unknown large hlt'

theorem readVote_eq_error_iff {bs : Bytes} {f : Flaw} :
    readVote bs = .error f ↔ FlawedVote bs f := by
  refine ⟨flawedVote_of_readVote, fun h => ?_⟩
  cases h with
  | cut short =>
    cases hr : readVote bs with
    | ok p =>
      -- eight bytes were read
      rw [eq_writeVote_of_readVote hr, List.length_append, length_writeVote] at short
      omega
    | error f =>
      cases flawedVote_of_readVote hr with
      | cut => rfl
      | unknown =>
        simp only [List.length_append, LittleEndian.length_write] at short
        omega
  | @unknown k number t large hnumber =>
    obtain ⟨m, rfl⟩ : ∃ m, number = m + 2 := ⟨number - 2, by omega⟩
    have hk : k.toNat < LittleEndian.bound 4 := k.toNat_lt
    simp only [readVote, readNumber_write _ hk, readNumber_write _ hnumber, bind, Except.bind]

theorem readVotes_eq_error_iff {f : Flaw} : ∀ {n : Nat} {m : SortedMap UInt32 Ballot} {bs : Bytes},
    readVotes n m bs = .error f ↔ ∃ (l : List (UInt32 × Ballot)) (t : Bytes), l.length < n ∧
      bs = l.flatMap writeVote ++ t ∧ FlawedVote t f
  | 0, m, bs => by simp [readVotes]
  | n+1, m, bs => by
    rw [readVotes, bind_eq_error_iff]
    constructor
    · rintro (hflawed | ⟨⟨v, rest⟩, hv, hrest⟩)
      · exact ⟨[], bs, Nat.succ_pos n, rfl, readVote_eq_error_iff.1 hflawed⟩
      · obtain ⟨l, t, hl, rfl, flawed⟩ := readVotes_eq_error_iff.1 hrest
        refine ⟨v :: l, t, Nat.succ_lt_succ hl, ?_, flawed⟩
        rw [eq_writeVote_of_readVote hv, List.flatMap_cons, List.append_assoc]
    · rintro ⟨l, t, hl, rfl, flawed⟩
      cases l with
      | nil => exact .inl (readVote_eq_error_iff.2 flawed)
      | cons v l =>
        rw [List.flatMap_cons, List.append_assoc]
        refine .inr ⟨_, readVote_writeVote v _, ?_⟩
        exact readVotes_eq_error_iff.2 ⟨l, t, Nat.lt_of_succ_lt_succ hl, rfl, flawed⟩

theorem readText_eq_error_iff {n : Nat} {bs : Bytes} {f : Flaw} :
    readText n bs = .error f ↔ FlawedText n bs f := by
  rw [readText]
  split
  · next short =>
    constructor
    · intro h
      cases h
      exact .cut short
    · intro h
      cases h with
      | cut => rfl
      | text enough => exact absurd short (Nat.not_lt.2 enough)
  · next enough =>
    split
    · next s hs =>
      constructor
      · intro h
        cases h
      · intro h
        cases h with
        | cut short => exact absurd short enough
        | text _ invalid =>
          rw [hs] at invalid
          cases invalid
    · next flaw hflaw =>
      constructor
      · intro h
        cases h
        exact .text (Nat.not_lt.1 enough) hflaw
      · intro h
        cases h with
        | cut short => exact absurd short enough
        | text _ invalid =>
          rw [hflaw] at invalid
          cases invalid
          rfl

theorem readDecision_eq_error_iff {n : UInt32} {d : Int64} {votes : SortedMap UInt32 Ballot}
    {bs : Bytes} {f : Flaw} : readDecision n d votes bs = .error f ↔ FlawedDecision bs f := by
  constructor
  · intro h
    rw [readDecision] at h
    split at h
    · next hr =>
      cases h
      exact .cut (LittleEndian.read_eq_none_iff.1 hr)
    · next length rest hr =>
      rcases bind_eq_error_iff.1 h with hf | ⟨s, -, hs⟩
      · rw [LittleEndian.eq_write_of_read hr]
        exact .text (LittleEndian.read_lt hr) (readText_eq_error_iff.1 hf)
      · cases hs
  · intro h
    rw [readDecision]
    cases h with
    | cut short =>
      rw [← LittleEndian.read_eq_none_iff] at short
      split
      · rfl
      · next hr =>
        rw [short] at hr
        cases hr
    | @text length t f hlength flawed =>
      have hread := LittleEndian.read_write 8 length t hlength
      split
      · next hr =>
        rw [hread] at hr
        cases hr
      · next hr =>
        rw [hread] at hr
        cases hr
        rw [bind_eq_error_iff]
        exact .inl (readText_eq_error_iff.2 flawed)

/-! ## Records -/

theorem opening_append (n : UInt32) (d : Int64) (count : Nat) (l : List (UInt32 × Ballot)) (t : Bytes) :
    opening n d count l ++ t = LittleEndian.write 4 n.toNat ++
      (LittleEndian.write 8 d.toUInt64.toNat ++
        (LittleEndian.write 8 count ++ (l.flatMap writeVote ++ t))) := by
  simp only [opening, List.append_assoc]

/-- Once its first three numbers are read, a record is its votes and its decision. -/
theorem ofBytes_opening (n : UInt32) (d : Int64) {count : Nat} (hcount : count < LittleEndian.bound 8)
    (l : List (UInt32 × Ballot)) (t : Bytes) : ofBytes (opening n d count l ++ t) =
      readVotes count .empty (l.flatMap writeVote ++ t) >>= fun p => readDecision n d p.1 p.2 := by
  have hn : n.toNat < LittleEndian.bound 4 := n.toNat_lt
  have hd : d.toUInt64.toNat < LittleEndian.bound 8 := d.toUInt64.toNat_lt
  have hofBytes : ofBytes (opening n d count l ++ t) =
      (readNumber 4 (opening n d count l ++ t) >>= fun p =>
        readNumber 8 p.2 >>= fun q =>
        readNumber 8 q.2 >>= fun s =>
        readVotes s.1 .empty s.2 >>= fun v =>
        readDecision (UInt32.ofNat p.1) (UInt64.ofNat q.1).toInt64 v.1 v.2) := rfl
  rw [hofBytes, opening_append, readNumber_write _ hn]
  simp only [bind, Except.bind]
  rw [readNumber_write _ hd]
  dsimp only
  rw [readNumber_write _ hcount]
  simp only [UInt32.ofNat_toNat, toInt64_ofNat_toNat]

theorem opening_nil_append (n : UInt32) (d : Int64) (count : Nat) (l : List (UInt32 × Ballot))
    (t : Bytes) : opening n d count [] ++ (l.flatMap writeVote ++ t) = opening n d count l ++ t := by
  rw [opening_append, opening_append, List.flatMap_nil, List.nil_append]

/-- Bytes with room for the numbers before the ballots begin with such numbers. -/
theorem exists_opening {b : Bytes} (h : 20 ≤ b.length) : ∃ n d count t,
    count < LittleEndian.bound 8 ∧ b = opening n d count [] ++ t := by
  obtain ⟨n, b₁, hn, rfl⟩ := LittleEndian.exists_eq_write (show 4 ≤ b.length by omega)
  rw [List.length_append, LittleEndian.length_write] at h
  obtain ⟨d, b₂, hd, rfl⟩ := LittleEndian.exists_eq_write (show 8 ≤ b₁.length by omega)
  rw [List.length_append, LittleEndian.length_write] at h
  obtain ⟨count, t, hcount, rfl⟩ := LittleEndian.exists_eq_write (show 8 ≤ b₂.length by omega)
  have hn' : (UInt32.ofNat n).toNat = n := UInt32.toNat_ofNat_of_lt hn
  have hd' : (UInt64.ofNat d).toInt64.toUInt64.toNat = d := by
    rw [UInt64.toUInt64_toInt64]
    exact UInt64.toNat_ofNat_of_lt hd
  refine ⟨UInt32.ofNat n, (UInt64.ofNat d).toInt64, count, t, hcount, ?_⟩
  rw [opening_append, hn', hd', List.flatMap_nil, List.nil_append]

/-- Where there is no room for the numbers before the ballots, one of them is cut. -/
theorem eq_cutNumber_of_short {b : Bytes} {f : Flaw} (short : b.length < 20)
    (h : ofBytes b = .error f) : f = .cutNumber := by
  rcases bind_eq_error_iff.1 h with hcut | ⟨⟨n, b₁⟩, hn, h₁⟩
  · exact (readNumber_eq_error_iff.1 hcut).2
  rcases bind_eq_error_iff.1 h₁ with hcut | ⟨⟨d, b₂⟩, hd, h₂⟩
  · exact (readNumber_eq_error_iff.1 hcut).2
  rcases bind_eq_error_iff.1 h₂ with hcut | ⟨⟨count, b₃⟩, hcount, -⟩
  · exact (readNumber_eq_error_iff.1 hcut).2
  rw [(readNumber_eq_ok_iff.1 hn).2, (readNumber_eq_ok_iff.1 hd).2,
    (readNumber_eq_ok_iff.1 hcount).2] at short
  simp only [List.length_append, LittleEndian.length_write] at short
  omega

theorem flawed_of_ofBytes {b : Bytes} {f : Flaw} (h : ofBytes b = .error f) : Flawed b f := by
  by_cases short : b.length < 20
  · rw [eq_cutNumber_of_short short h]
    exact .cut short
  · obtain ⟨n, d, count, t, hcount, rfl⟩ := exists_opening (Nat.not_lt.1 short)
    rw [ofBytes_opening n d hcount, List.flatMap_nil, List.nil_append, bind_eq_error_iff] at h
    rcases h with hvotes | ⟨⟨votes, t'⟩, hvotes, hdecision⟩
    · obtain ⟨l, t', more, rfl, flawed⟩ := readVotes_eq_error_iff.1 hvotes
      rw [opening_nil_append]
      exact .vote hcount more flawed
    · obtain ⟨l, rfl, rfl, -⟩ := exists_of_readVotes hvotes
      rw [opening_nil_append]
      exact .decision hcount (readDecision_eq_error_iff.1 hdecision)

theorem ofBytes_of_flawed {b : Bytes} {f : Flaw} (h : Flawed b f) : ofBytes b = .error f := by
  cases h with
  | cut short =>
    cases hb : ofBytes b with
    | ok r =>
      obtain ⟨l, t, -, -, rfl⟩ := exists_layout_of_ofBytes hb
      rw [List.length_append, length_layout] at short
      omega
    | error f => rw [eq_cutNumber_of_short short hb]
  | @vote n d count l t f hcount more flawed =>
    rw [ofBytes_opening n d hcount, bind_eq_error_iff]
    exact .inl (readVotes_eq_error_iff.2 ⟨l, t, more, rfl, flawed⟩)
  | @decision n d l t f hl flawed =>
    rw [ofBytes_opening n d hl, bind_eq_error_iff]
    exact .inr ⟨_, readVotes_flatMap_writeVote l .empty t, readDecision_eq_error_iff.2 flawed⟩

/-- Among ballots that are put down one after the other the last one of a cohort stands. -/
theorem get?_foldl_insert (k : UInt32) : ∀ (l : List (UInt32 × Ballot)) (m : SortedMap UInt32 Ballot),
    (l.foldl (fun m p => m.insert p.1 p.2) m).get? k = (l.reverse.lookup k).or (m.get? k)
  | [], m => rfl
  | (j, b) :: l, m => by
    have hj : List.lookup k [(j, b)] = if k = j then some b else none := by
      by_cases hk : k = j
      · rw [if_pos hk, hk, List.lookup_cons_self]
      · rw [if_neg hk, List.lookup_cons, beq_false_of_ne hk]
        rfl
    rw [List.foldl_cons, get?_foldl_insert k l, List.reverse_cons, List.lookup_append, hj,
      SortedMap.get?_insert, Option.or_assoc]
    split
    · rfl
    · rfl

theorem spells_iff {b : Bytes} {r : Record} : Spells b r ↔ ofBytes b = .ok r := by
  have latest : ∀ (l : List (UInt32 × Ballot)) (k : UInt32),
      (SortedMap.ofList l).get? k = l.reverse.lookup k := by
    intro l k
    rw [SortedMap.ofList, get?_foldl_insert, SortedMap.get?_empty, Option.or_none]
  constructor
  · intro h
    obtain ⟨l, t, hl, rfl, hvotes⟩ := h
    have hr : r.votes = .ofList l := SortedMap.ext_get? fun k => (hvotes k).trans (latest l k).symm
    refine (ofBytes_layout_append r.cohortCount r.deadline hl r.length_decision t).trans ?_
    rw [← hr]
  · intro h
    obtain ⟨l, t, hl, hvotes, rfl⟩ := exists_layout_of_ofBytes h
    refine ⟨l, t, hl, rfl, fun k => ?_⟩
    rw [ballot, hvotes, latest]

/-- Bytes are read as a record exactly if they spell it, and otherwise the first field that cannot be
    read tells the error, which is one of the kind `serialization`. -/
theorem ofBytes_decides (b : Bytes) :
    (∀ r, ofBytes b = .ok r ↔ Spells b r) ∧
    (∀ f, ofBytes b = .error f ↔ Flawed b f) ∧
    ((∃ r, Spells b r) ∨ (¬ ∃ r, Spells b r) ∧
      ∃ f : Flaw, Flawed b f ∧ f.error.kind = .serialization) := by
  refine ⟨fun r => spells_iff.symm, fun f => ⟨flawed_of_ofBytes, ofBytes_of_flawed⟩, ?_⟩
  cases hb : ofBytes b with
  | ok r => exact .inl ⟨r, spells_iff.2 hb⟩
  | error f =>
    refine .inr ⟨?_, f, flawed_of_ofBytes hb, rfl⟩
    rintro ⟨r, hr⟩
    rw [spells_iff.1 hr] at hb
    cases hb

/-- A count of ballots that no memory could hold fails where the bytes end. -/
example : ofBytes (opening 1 60 18446744073709551615 [(0, .abort), (0, .commit)] ++ [7, 0]) =
    .error .cutNumber := by
  rfl

end TwoPhaseCommit.Record
