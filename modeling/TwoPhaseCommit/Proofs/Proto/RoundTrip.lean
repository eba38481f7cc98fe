import TwoPhaseCommit.Proofs.Proto.Grammar
import TwoPhaseCommit.Proto.Message
import TwoPhaseCommit.Utf8.RoundTrip

/- Messages survive the wire. A value is read back from what was written for it, whatever follows
   (`Scalar.Reads`), and so is a field, which leaves a message as it is when nothing was written
   (`Field.Carries`). The bytes of several fields do one after the other what each of them does
   (`Schema.Merges.append`). So a message that is read into another one of its type is merged with it,
   and read into an empty one it is the message that was written (`decode_encode`). A text is
   carried if its length fits into the 64 bits that announce it. -/
namespace TwoPhaseCommit.Proto

/-! ## Keys and values -/

theorem readVarint_write {n : Nat} (h : n < UInt64.size) (t : Bytes) :
    readVarint (Varint.write n ++ t) = .ok (n, t) := by
  rw [readVarint, Varint.read_write n t h]

theorem isVarint_write {n : Nat} (h : n < UInt64.size) : IsVarint (Varint.write n) n := by
  obtain ⟨v, hv, e⟩ := readVarint_eq_ok_iff.1 (readVarint_write h [])
  rw [List.append_nil, List.append_nil] at e
  rwa [e]

theorem isKey_writeKey {field : Nat} (w : WireType) (pos : field ≠ 0)
    (small : field * 8 + w.number < UInt32.size) : IsKey (writeKey field w) field w :=
  ⟨isVarint_write (Nat.lt_trans small (by decide)), pos, small⟩

theorem length_writeUpTo_le : ∀ (k n : Nat), (Varint.writeUpTo k n).length ≤ k + 1
  | 0, _ => Nat.le_refl _
  | k+1, n => by
    have ih := length_writeUpTo_le k (n / 128)
    rw [Varint.writeUpTo]
    split
    · simp
    · rw [List.length_cons]
      omega

theorem length_write_le (n : Nat) : (Varint.write n).length ≤ 10 := length_writeUpTo_le 9 n

/-- A value is read back from what is written for it, and what follows that is left alone. -/
def Scalar.Reads {α : Type} (s : Scalar α) (a : α) : Prop :=
  ∀ t, s.read (s.write a ++ t) = .ok (a, t)

theorem Scalar.int64_reads (n : Int64) : Scalar.int64.Reads n := by
  intro t
  simp only [Scalar.int64]
  rw [readVarint_write n.toUInt64.toNat_lt]
  simp only [bind, Except.bind, pure, Except.pure, UInt64.ofNat_toNat, Int64.toInt64_toUInt64]

/-- The low half of a number that was widened is the number. -/
theorem toInt32_ofNat_widened (n : Int32) :
    (UInt32.ofNat n.toInt64.toUInt64.toNat).toInt32 = n := by
  apply Int32.toBitVec_inj.1
  calc BitVec.ofNat 32 n.toInt64.toBitVec.toNat = n.toInt64.toBitVec.setWidth 32 :=
        BitVec.ofNat_toNat ..
    _ = n.toInt64.toBitVec.signExtend 32 :=
        (BitVec.signExtend_eq_setWidth_of_le _ (by decide)).symm
    _ = n.toBitVec := congrArg Int32.toBitVec n.toInt32_toInt64

theorem Scalar.int32_reads (n : Int32) : Scalar.int32.Reads n := by
  intro t
  simp only [Scalar.int32]
  rw [readVarint_write n.toInt64.toUInt64.toNat_lt]
  simp only [bind, Except.bind, pure, Except.pure, toInt32_ofNat_widened]

theorem Scalar.bool_reads (b : Bool) : Scalar.bool.Reads b := by
  intro t
  have hb : (if b then 1 else 0 : Nat) < UInt64.size := by cases b <;> decide
  simp only [Scalar.bool]
  rw [readVarint_write hb]
  cases b <;> rfl

theorem Scalar.read_string_eq_ok_iff {bs t : Bytes} {s : String} :
    Scalar.string.read bs = .ok (s, t) ↔ takeDelimited bs = .ok (Utf8.encode s, t) := by
  constructor
  · intro h
    obtain ⟨⟨text, rest⟩, htake, htext⟩ := exists_of_bind_eq_ok h
    dsimp only at htext
    split at htext
    · next s' hs =>
      cases htext
      rw [htake, Utf8.decode_eq_ok_iff.1 hs]
    · cases htext
  · intro h
    simp only [Scalar.string, h, bind, Except.bind, Utf8.decode_encode]

theorem Scalar.string_reads {s : String} (h : (Utf8.encode s).length < UInt64.size) :
    Scalar.string.Reads s := by
  intro t
  refine Scalar.read_string_eq_ok_iff.2 (takeDelimited_eq_ok_iff.2 ⟨_, isVarint_write h, ?_⟩)
  exact List.append_assoc ..

/-! ## Fields -/

variable {M N α : Type}

/-- What field `f` of the message `m` writes is read into `m₀` as `m₁`, whatever follows. Where it
    writes nothing, `m₀` stays. -/
def Field.Carries (f : Field M) (depth : Nat) (m m₀ m₁ : M) : Prop :=
  f.write m = [] ∧ m₁ = m₀ ∨ ∃ value, f.write m = writeKey f.number f.wire ++ value ∧
    ∀ t, f.read depth m₀ (value ++ t) = .ok (m₁, t)

theorem Field.read_scalar_eq_ok_iff [DecidableEq α] {number : Nat} {name : String} {s : Scalar α}
    {get : M → α} {set : M → α → M} {depth : Nat} {m m' : M} {bs t : Bytes} :
    (Field.scalar number name s get set).read depth m bs = .ok (m', t) ↔
      ∃ a, s.read bs = .ok (a, t) ∧ m' = set m a := by
  simp only [Field.scalar]
  cases hread : s.read bs with
  | error c => simp
  | ok p =>
    obtain ⟨a, rest⟩ := p
    constructor
    · intro h
      cases h
      exact ⟨a, rfl, rfl⟩
    · rintro ⟨b, hb, rfl⟩
      cases hb
      rfl

/-- The later one of two values, if it is not zero. -/
def latter [DecidableEq α] (zero a b : α) : α := if b = zero then a else b

theorem latter_zero [DecidableEq α] (zero b : α) : latter zero zero b = b := by
  rw [latter]
  split
  · next h => exact h.symm
  · rfl

/-- A plain value replaces the one that is there, unless it is zero. -/
theorem Field.carries_scalar [DecidableEq α] {number : Nat} {name : String} {s : Scalar α}
    {get : M → α} {set : M → α → M} {m m₀ : M} (reads : s.Reads (get m)) (depth : Nat)
    (idle : set m₀ (get m₀) = m₀) : (Field.scalar number name s get set).Carries depth m m₀
      (set m₀ (latter s.zero (get m₀) (get m))) := by
  by_cases hz : get m = s.zero
  · refine .inl ⟨?_, ?_⟩
    · simp only [Field.scalar]
      exact if_pos hz
    · rw [latter, if_pos hz, idle]
  · refine .inr ⟨s.write (get m), ?_, fun t => ?_⟩
    · simp only [Field.scalar]
      exact if_neg hz
    · rw [latter, if_neg hz]
      exact Field.read_scalar_eq_ok_iff.2 ⟨get m, reads t, rfl⟩

/-- A value of at most ten bytes, behind its key. -/
theorem Field.length_write_scalar_le [DecidableEq α] {number : Nat} {name : String} {s : Scalar α}
    {get : M → α} {set : M → α → M} (m : M) (h : ∀ a, (s.write a).length ≤ 10) :
    ((Field.scalar number name s get set).write m).length ≤ 20 := by
  have hkey : (writeKey number s.wire).length ≤ 10 := length_write_le _
  have hvalue := h (get m)
  simp only [Field.scalar]
  split
  · simp
  · rw [List.length_append]
    omega

/-! ## Several fields -/

/-- Reading the bytes `bs` into the message `m` gives `m'` and leaves what follows to be read into
    that. There is fuel left for every byte that follows if there was for all of them. -/
def Schema.Merges (s : Schema M) (depth : Nat) (bs : Bytes) (m m' : M) : Prop :=
  ∀ (limit fuel : Nat) (t : Bytes), limit ≤ t.length → bs.length ≤ fuel →
    ∃ fuel', fuel ≤ fuel' + bs.length ∧
      s.mergeFields depth limit fuel m (bs ++ t) = s.mergeFields depth limit fuel' m' t

namespace Schema
variable {s : Schema M} {depth : Nat}

theorem Merges.nil (m : M) : s.Merges depth [] m m := fun _ fuel _ _ _ => ⟨fuel, Nat.le_refl _, rfl⟩

theorem Merges.append {bs bs' : Bytes} {m m' m'' : M} (h : s.Merges depth bs m m')
    (h' : s.Merges depth bs' m' m'') : s.Merges depth (bs ++ bs') m m'' := by
  intro limit fuel t hlimit hfuel
  rw [List.length_append] at hfuel
  have hlimit' : limit ≤ (bs' ++ t).length := by
    rw [List.length_append]
    omega
  obtain ⟨fuel₁, hf₁, e₁⟩ := h limit fuel (bs' ++ t) hlimit' (by omega)
  obtain ⟨fuel₂, hf₂, e₂⟩ := h' limit fuel₁ t hlimit (by omega)
  refine ⟨fuel₂, ?_, ?_⟩
  · rw [List.length_append]
    omega
  · rw [List.append_assoc, e₁, e₂]

/-- A key and a value that is read into the message. -/
theorem merges_field {k v : Bytes} {number : Nat} {w : WireType} {m m' : M} (key : IsKey k number w)
    (value : ∀ t, s.merge depth m number w (v ++ t) = .ok (m', t)) :
    s.Merges depth (k ++ v) m m' := by
  intro limit fuel t hlimit hfuel
  have hkey := key.length_pos
  rw [List.length_append] at hfuel
  obtain ⟨fuel, rfl⟩ : ∃ n, fuel = n + 1 := ⟨fuel - 1, by omega⟩
  refine ⟨fuel, ?_, ?_⟩
  · rw [List.length_append]
    omega
  · have hmore : ¬ (k ++ v ++ t).length ≤ limit := by
      simp only [List.length_append]
      omega
    rw [mergeFields, if_neg hmore, List.append_assoc, key.readKey]
    dsimp only
    rw [value t]
    rfl

/-- A value is passed over if its field is not listed. Otherwise the field reads it, from its own
    layout. -/
theorem merge_eq_ok_iff {m m' : M} {number : Nat} {w : WireType} {bs t : Bytes} :
    s.merge depth m number w bs = .ok (m', t) ↔
      (s.fields.find? (fun g => g.number == number) = none ∧ skip depth number w bs = .ok t ∧ m' = m) ∨
      ∃ f, s.fields.find? (fun g => g.number == number) = some f ∧ w = f.wire ∧
        f.read depth m bs = .ok (m', t) := by
  rw [merge]
  cases s.fields.find? (fun g => g.number == number) with
  | none =>
    cases skip depth number w bs with
    | error c => simp
    | ok rest => simp [and_comm, eq_comm]
  | some f =>
    dsimp only
    constructor
    · intro h
      refine .inr ⟨f, rfl, ?_⟩
      by_cases hw : w = f.wire
      · rw [if_pos hw] at h
        cases hread : f.read depth m bs with
        | error e =>
          rw [hread] at h
          cases h
        | ok p =>
          rw [hread] at h
          cases h
          exact ⟨hw, rfl⟩
      · rw [if_neg hw] at h
        cases h
    · rintro (⟨hf, -⟩ | ⟨g, hg, rfl, hread⟩)
      · cases hf
      · cases hg
        rw [if_pos rfl, hread]
        rfl

/-- A field is read by its own schema as it is carried. -/
theorem merges_write {f : Field M} {m m₀ m₁ : M} (carries : f.Carries depth m m₀ m₁)
    (listed : s.fields.find? (fun g => g.number == f.number) = some f) (pos : f.number ≠ 0)
    (small : f.number * 8 + f.wire.number < UInt32.size) : s.Merges depth (f.write m) m₀ m₁ := by
  obtain ⟨hnil, rfl⟩ | ⟨value, hwrite, hread⟩ := carries
  · rw [hnil]
    exact .nil m₁
  · rw [hwrite]
    exact merges_field (isKey_writeKey f.wire pos small) fun t =>
      merge_eq_ok_iff.2 (.inr ⟨f, listed, rfl, hread t⟩)

/-- When all bytes have been read the message is done. -/
theorem mergeFields_end {limit : Nat} {t : Bytes} (hlimit : t.length ≤ limit) (fuel : Nat) (m : M) :
    s.mergeFields depth limit fuel m t = .ok (m, t) := by
  cases fuel with
  | zero => rfl
  | succ fuel => rw [mergeFields, if_pos hlimit]

theorem decode_of_merges {bs : Bytes} {m : M} (h : s.Merges nesting bs s.zero m) :
    s.decode bs = .ok m := by
  obtain ⟨fuel, -, e⟩ := h 0 bs.length [] (Nat.le_refl _) (Nat.le_refl _)
  have hend : s.mergeFields nesting 0 fuel m [] = .ok (m, []) :=
    mergeFields_end (t := []) (Nat.le_refl 0) fuel m
  rw [List.append_nil, hend] at e
  rw [decode, e]
  rfl

end Schema

/-- A message inside a message, behind its length, is read into the one that is there, or into an
    empty one. -/
theorem Field.read_message {number : Nat} {name : String} {s : Schema N} {get : M → Option N}
    {set : M → N → M} {m : M} {n : N} {depth : Nat} {l body : Bytes} (len : IsVarint l body.length)
    (merges : s.Merges depth body ((get m).getD s.zero) n) (t : Bytes) :
    (Field.message number name s get set).read (depth + 1) m (l ++ (body ++ t)) =
      .ok (set m n, t) := by
  have hmore : ¬ (body ++ t).length < body.length := by
    rw [List.length_append]
    omega
  have hrest : (body ++ t).length - body.length = t.length := by
    rw [List.length_append, Nat.add_sub_cancel_left]
  obtain ⟨fuel, -, e⟩ := merges t.length (body ++ t).length t (Nat.le_refl _) (by
    rw [List.length_append]
    omega)
  rw [Schema.mergeFields_end (Nat.le_refl _)] at e
  simp only [Field.message]
  rw [if_neg (Nat.succ_ne_zero depth), len.readVarint]
  dsimp only
  rw [if_neg hmore, hrest, Nat.add_sub_cancel, e]
  simp only [bind, Except.bind, if_pos]

theorem Field.carries_message {number : Nat} {name : String} {s : Schema N} {get : M → Option N}
    {set : M → N → M} {m m₀ : M} {n n' : N} {depth : Nat} (present : get m = some n)
    (small : (s.encode n).length < UInt64.size)
    (merges : s.Merges depth (s.encode n) ((get m₀).getD s.zero) n') :
    (Field.message number name s get set).Carries (depth + 1) m m₀ (set m₀ n') := by
  refine .inr ⟨Varint.write (s.encode n).length ++ s.encode n, ?_, fun t => ?_⟩
  · simp only [Field.message, present, List.append_assoc]
  · rw [List.append_assoc]
    exact Field.read_message (isVarint_write small) merges t

theorem Field.carries_message_none {number : Nat} {name : String} {s : Schema N}
    {get : M → Option N} {set : M → N → M} {m : M} (absent : get m = none) (depth : Nat) (m₀ : M) :
    (Field.message number name s get set).Carries depth m m₀ m₀ := by
  refine .inl ⟨?_, rfl⟩
  simp only [Field.message, absent]

/-! ## Whole messages -/

/-- What the fields of the message `m` write is read into `m₀`, one after the other, as `m₁`. -/
inductive Carried (depth : Nat) (m : M) : List (Field M) → M → M → Prop where
  | nil (m₀ : M) : Carried depth m [] m₀ m₀
  | cons {f : Field M} {fs : List (Field M)} {m₀ m₁ m₂ : M} (first : f.Carries depth m m₀ m₁)
    (rest : Carried depth m fs m₁ m₂) : Carried depth m (f :: fs) m₀ m₂

/-- The fields of a schema can be told apart by their numbers, and the numbers fit into keys. -/
structure Schema.Numbered (s : Schema M) : Prop where
  distinct : (s.fields.map Field.number).Nodup
  small : ∀ n ∈ s.fields.map Field.number, 0 < n ∧ n * 8 + 8 ≤ UInt32.size

theorem find?_number {f : Field M} : ∀ {fs : List (Field M)}, (fs.map Field.number).Nodup → f ∈ fs →
    fs.find? (fun g => g.number == f.number) = some f
  | g :: fs, distinct, hf => by
    rw [List.map_cons, List.nodup_cons] at distinct
    rcases List.mem_cons.1 hf with rfl | hf
    · rw [List.find?_cons_of_pos (by simp)]
    · have hne : g.number ≠ f.number := by
        intro he
        exact distinct.1 (he ▸ List.mem_map_of_mem hf)
      rw [List.find?_cons_of_neg (by simp [hne])]
      exact find?_number distinct.2 hf

namespace Schema
variable {s : Schema M} {depth : Nat} {m : M}

theorem merges_fields (numbered : s.Numbered) : ∀ {fs : List (Field M)} {m₀ m₁ : M},
    (∀ f ∈ fs, f ∈ s.fields) → Carried depth m fs m₀ m₁ →
    s.Merges depth (fs.flatMap fun f => f.write m) m₀ m₁
  | [], _, _, _, .nil m₀ => .nil m₀
  | f :: fs, _, _, hfs, .cons first rest => by
    have hf : f ∈ s.fields := hfs f List.mem_cons_self
    obtain ⟨pos, small⟩ := numbered.small f.number (List.mem_map_of_mem hf)
    have hw := f.wire.number_lt
    have hkey : f.number * 8 + f.wire.number < UInt32.size := by omega
    rw [List.flatMap_cons]
    exact (merges_write first (find?_number numbered.distinct hf) (Nat.ne_of_gt pos) hkey).append
      (merges_fields numbered (fun g hg => hfs g (List.mem_cons_of_mem f hg)) rest)

/-- Reading the written form of `m` into `m₀` does what its fields do. -/
theorem merges_encode (numbered : s.Numbered) {m₀ m₁ : M} (carried : Carried depth m s.fields m₀ m₁) :
    s.Merges depth (s.encode m) m₀ m₁ :=
  merges_fields numbered (fun _ hf => hf) carried

theorem length_encode_le {k : Nat} (h : ∀ f ∈ s.fields, (f.write m).length ≤ k) :
    (s.encode m).length ≤ s.fields.length * k := by
  rw [encode]
  generalize s.fields = fs at h
  induction fs with
  | nil => simp
  | cons f fs ih =>
    have hf := h f List.mem_cons_self
    have hfs := ih fun g hg => h g (List.mem_cons_of_mem f hg)
    rw [List.flatMap_cons, List.length_append, List.length_cons, Nat.succ_mul]
    omega

/-- A message is read back if it is what an empty one becomes when it is read into that. -/
theorem decode_of_carried (numbered : s.Numbered) {m₁ : M} (carried : Carried nesting m s.fields s.zero m₁)
    (same : m₁ = m) : s.decode (s.encode m) = .ok m := by
  subst same
  exact decode_of_merges (merges_encode numbered carried)

end Schema

/-! ## The messages of the adapter -/

namespace Timestamp

/-- The message `m` with the message `n` read into it. -/
def merged (m n : Timestamp) : Timestamp := ⟨latter 0 m.seconds n.seconds, latter 0 m.nanos n.nanos⟩

theorem zero_merged (m : Timestamp) : schema.zero.merged m = m := by
  simp only [merged, schema, latter_zero]

theorem numbered : schema.Numbered := ⟨by decide, by decide⟩

theorem carried (m m₀ : Timestamp) (depth : Nat) :
    Carried depth m schema.fields m₀ (m₀.merged m) :=
  .cons (Field.carries_scalar (Scalar.int64_reads _) depth rfl) <|
    .cons (Field.carries_scalar (Scalar.int32_reads _) depth rfl) (.nil _)

theorem decode_encode (m : Timestamp) : schema.decode (schema.encode m) = .ok m :=
  Schema.decode_of_carried numbered (m.carried _ _) m.zero_merged

theorem length_encode_lt (m : Timestamp) : (schema.encode m).length < UInt64.size := by
  have hfields : ∀ f ∈ schema.fields, (f.write m).length ≤ 20 := by
    simp only [schema, List.forall_mem_cons]
    exact ⟨Field.length_write_scalar_le m fun _ => length_write_le _,
      Field.length_write_scalar_le m fun _ => length_write_le _, nofun⟩
  exact Nat.lt_of_le_of_lt (Schema.length_encode_le hfields) (by decide)

end Timestamp

namespace StartVotingRequest

/-- The point in time `t` with the point in time `u` read into it. It is there if one of them is. -/
def mergedTime : Option Timestamp → Option Timestamp → Option Timestamp
  | t, none => t
  | none, some u => some u
  | some t, some u => some (t.merged u)

def merged (m n : StartVotingRequest) : StartVotingRequest :=
  ⟨latter "" m.transactionId n.transactionId, mergedTime m.timeoutTime n.timeoutTime,
    latter 0 m.cohorts n.cohorts⟩

theorem zero_merged (m : StartVotingRequest) : schema.zero.merged m = m := by
  have htime : mergedTime none m.timeoutTime = m.timeoutTime := by
    cases m.timeoutTime <;> rfl
  simp only [merged, schema, latter_zero, htime]

theorem carried {m : StartVotingRequest} (h : (Utf8.encode m.transactionId).length < UInt64.size)
    (m₀ : StartVotingRequest) (depth : Nat) :
    Carried (depth + 1) m schema.fields m₀ (m₀.merged m) := by
  obtain ⟨id, time, cohorts⟩ := m
  cases time with
  | none =>
    refine .cons (Field.carries_scalar (Scalar.string_reads h) _ rfl) ?_
    refine .cons (Field.carries_message_none rfl _ _) ?_
    exact .cons (Field.carries_scalar (Scalar.int32_reads _) _ rfl) (.nil _)
  | some u =>
    have hu := Schema.merges_encode Timestamp.numbered
      (u.carried (m₀.timeoutTime.getD Timestamp.schema.zero) depth)
    have htime : mergedTime m₀.timeoutTime (some u) =
        some ((m₀.timeoutTime.getD Timestamp.schema.zero).merged u) := by
      cases m₀.timeoutTime with
      | none => exact congrArg some u.zero_merged.symm
      | some t => rfl
    rw [merged, htime]
    refine .cons (Field.carries_scalar (Scalar.string_reads h) _ rfl) ?_
    refine .cons (Field.carries_message rfl u.length_encode_lt hu) ?_
    exact .cons (Field.carries_scalar (Scalar.int32_reads _) _ rfl) (.nil _)

theorem decode_encode {m : StartVotingRequest}
    (h : (Utf8.encode m.transactionId).length < UInt64.size) :
    schema.decode (schema.encode m) = .ok m :=
  Schema.decode_of_carried ⟨by decide, by decide⟩ (carried h _ (Schema.nesting - 1)) m.zero_merged

end StartVotingRequest

theorem StartVotingResponse.decode_encode (m : StartVotingResponse) :
    schema.decode (schema.encode m) = .ok m :=
  Schema.decode_of_carried ⟨by decide, by decide⟩ (.nil _) rfl

namespace VoteRequest

def merged (m n : VoteRequest) : VoteRequest :=
  ⟨latter "" m.transactionId n.transactionId, latter 0 m.cohortId n.cohortId,
    latter 0 m.ballot n.ballot⟩

theorem zero_merged (m : VoteRequest) : schema.zero.merged m = m := by
  simp only [merged, schema, latter_zero]

theorem carried {m : VoteRequest} (h : (Utf8.encode m.transactionId).length < UInt64.size)
    (m₀ : VoteRequest) (depth : Nat) : Carried depth m schema.fields m₀ (m₀.merged m) := by
  refine .cons (Field.carries_scalar (Scalar.string_reads h) _ rfl) ?_
  refine .cons (Field.carries_scalar (Scalar.int32_reads _) _ rfl) ?_
  exact .cons (Field.carries_scalar (Scalar.int32_reads _) _ rfl) (.nil _)

theorem decode_encode {m : VoteRequest} (h : (Utf8.encode m.transactionId).length < UInt64.size) :
    schema.decode (schema.encode m) = .ok m :=
  Schema.decode_of_carried ⟨by decide, by decide⟩ (carried h _ _) m.zero_merged

end VoteRequest

theorem VoteResponse.decode_encode (m : VoteResponse) : schema.decode (schema.encode m) = .ok m :=
  Schema.decode_of_carried ⟨by decide, by decide⟩ (.nil _) rfl

namespace GetVotingDecisionRequest

def merged (m n : GetVotingDecisionRequest) : GetVotingDecisionRequest :=
  ⟨latter "" m.transactionId n.transactionId⟩

theorem zero_merged (m : GetVotingDecisionRequest) : schema.zero.merged m = m := by
  simp only [merged, schema, latter_zero]

theorem carried {m : GetVotingDecisionRequest}
    (h : (Utf8.encode m.transactionId).length < UInt64.size) (m₀ : GetVotingDecisionRequest)
    (depth : Nat) : Carried depth m schema.fields m₀ (m₀.merged m) :=
  .cons (Field.carries_scalar (Scalar.string_reads h) depth rfl) (.nil _)

theorem decode_encode {m : GetVotingDecisionRequest}
    (h : (Utf8.encode m.transactionId).length < UInt64.size) :
    schema.decode (schema.encode m) = .ok m :=
  Schema.decode_of_carried ⟨by decide, by decide⟩ (carried h _ _) m.zero_merged

end GetVotingDecisionRequest

namespace GetVotingDecisionResponse

def merged (m n : GetVotingDecisionResponse) : GetVotingDecisionResponse :=
  ⟨latter 0 m.decision n.decision, latter "" m.reason n.reason⟩

theorem zero_merged (m : GetVotingDecisionResponse) : schema.zero.merged m = m := by
  simp only [merged, schema, latter_zero]

theorem carried {m : GetVotingDecisionResponse} (h : (Utf8.encode m.reason).length < UInt64.size)
    (m₀ : GetVotingDecisionResponse) (depth : Nat) :
    Carried depth m schema.fields m₀ (m₀.merged m) :=
  .cons (Field.carries_scalar (Scalar.int32_reads _) depth rfl) <|
    .cons (Field.carries_scalar (Scalar.string_reads h) depth rfl) (.nil _)

theorem decode_encode {m : GetVotingDecisionResponse}
    (h : (Utf8.encode m.reason).length < UInt64.size) :
    schema.decode (schema.encode m) = .ok m :=
  Schema.decode_of_carried ⟨by decide, by decide⟩ (carried h _ _) m.zero_merged

end GetVotingDecisionResponse

theorem GetHeartBeatRequest.decode_encode (m : GetHeartBeatRequest) :
    schema.decode (schema.encode m) = .ok m :=
  Schema.decode_of_carried ⟨by decide, by decide⟩ (.nil _) rfl

namespace GetHeartBeatResponse

def merged (m n : GetHeartBeatResponse) : GetHeartBeatResponse := ⟨latter false m.isOk n.isOk⟩

theorem zero_merged (m : GetHeartBeatResponse) : schema.zero.merged m = m := by
  simp only [merged, schema, latter_zero]

theorem carried (m m₀ : GetHeartBeatResponse) (depth : Nat) :
    Carried depth m schema.fields m₀ (m₀.merged m) :=
  .cons (Field.carries_scalar (Scalar.bool_reads _) depth rfl) (.nil _)

theorem decode_encode (m : GetHeartBeatResponse) : schema.decode (schema.encode m) = .ok m :=
  Schema.decode_of_carried ⟨by decide, by decide⟩ (m.carried _ _) m.zero_merged

end GetHeartBeatResponse
end TwoPhaseCommit.Proto
