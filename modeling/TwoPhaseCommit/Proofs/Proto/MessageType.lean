import TwoPhaseCommit.Proofs.Proto.Reading

/- All the messages of the adapter at once. A `MessageType` is one of their types, and comes with what
   is known of each: its texts, how one message is merged into another (`merged`), and what its fields
   make of a message when they are read (`sound`). A message `Fits` if its texts are no longer than
   64 bits can tell. What was decoded fits (`fits_of_decode`), so it survives another trip
   (`survives_wire`). -/
namespace TwoPhaseCommit.Proto

/-- The types of the messages of the adapter. -/
inductive MessageType where
  | timestamp
  | startVotingRequest
  | startVotingResponse
  | voteRequest
  | voteResponse
  | getVotingDecisionRequest
  | getVotingDecisionResponse
  | getHeartBeatRequest
  | getHeartBeatResponse
  deriving DecidableEq, Repr

namespace MessageType

/-- The messages of a type. -/
@[reducible] def Message : MessageType → Type
  | .timestamp => Timestamp
  | .startVotingRequest => StartVotingRequest
  | .startVotingResponse => StartVotingResponse
  | .voteRequest => VoteRequest
  | .voteResponse => VoteResponse
  | .getVotingDecisionRequest => GetVotingDecisionRequest
  | .getVotingDecisionResponse => GetVotingDecisionResponse
  | .getHeartBeatRequest => GetHeartBeatRequest
  | .getHeartBeatResponse => GetHeartBeatResponse

def schema : (τ : MessageType) → Schema τ.Message
  | .timestamp => Timestamp.schema
  | .startVotingRequest => StartVotingRequest.schema
  | .startVotingResponse => StartVotingResponse.schema
  | .voteRequest => VoteRequest.schema
  | .voteResponse => VoteResponse.schema
  | .getVotingDecisionRequest => GetVotingDecisionRequest.schema
  | .getVotingDecisionResponse => GetVotingDecisionResponse.schema
  | .getHeartBeatRequest => GetHeartBeatRequest.schema
  | .getHeartBeatResponse => GetHeartBeatResponse.schema

/-- The texts in a message. -/
def texts : (τ : MessageType) → τ.Message → List String
  | .startVotingRequest, m => [m.transactionId]
  | .voteRequest, m => [m.transactionId]
  | .getVotingDecisionRequest, m => [m.transactionId]
  | .getVotingDecisionResponse, m => [m.reason]
  | .timestamp, _ | .startVotingResponse, _ | .voteResponse, _ | .getHeartBeatRequest, _
  | .getHeartBeatResponse, _ => []

/-- The lengths of the texts are numbers of 64 bits, as they are for all texts in memory. -/
def Fits (τ : MessageType) (m : τ.Message) : Prop :=
  ∀ s ∈ τ.texts m, (Utf8.encode s).length < UInt64.size

instance (τ : MessageType) (m : τ.Message) : Decidable (τ.Fits m) :=
  inferInstanceAs (Decidable (∀ s ∈ τ.texts m, (Utf8.encode s).length < UInt64.size))

/-- The first message with the second one read into it. -/
def merged : (τ : MessageType) → τ.Message → τ.Message → τ.Message
  | .timestamp => Timestamp.merged
  | .startVotingRequest => StartVotingRequest.merged
  | .voteRequest => VoteRequest.merged
  | .getVotingDecisionRequest => GetVotingDecisionRequest.merged
  | .getVotingDecisionResponse => GetVotingDecisionResponse.merged
  | .getHeartBeatResponse => GetHeartBeatResponse.merged
  | .startVotingResponse | .voteResponse | .getHeartBeatRequest => fun m _ => m

theorem zero_merged : (τ : MessageType) → ∀ m : τ.Message, τ.merged τ.schema.zero m = m
  | .timestamp => Timestamp.zero_merged
  | .startVotingRequest => StartVotingRequest.zero_merged
  | .voteRequest => VoteRequest.zero_merged
  | .getVotingDecisionRequest => GetVotingDecisionRequest.zero_merged
  | .getVotingDecisionResponse => GetVotingDecisionResponse.zero_merged
  | .getHeartBeatResponse => GetHeartBeatResponse.zero_merged
  | .startVotingResponse | .voteResponse | .getHeartBeatRequest => fun _ => rfl

theorem numbered (τ : MessageType) : τ.schema.Numbered := by
  cases τ <;> exact ⟨by decide, by decide⟩

theorem carried (τ : MessageType) {m : τ.Message} (fits : τ.Fits m) (m₀ : τ.Message) :
    Carried Schema.nesting m τ.schema.fields m₀ (τ.merged m₀ m) := by
  cases τ with
  | timestamp => exact Timestamp.carried m m₀ _
  | startVotingRequest =>
    exact StartVotingRequest.carried (fits _ List.mem_cons_self) m₀ (Schema.nesting - 1)
  | voteRequest => exact VoteRequest.carried (fits _ List.mem_cons_self) m₀ _
  | getVotingDecisionRequest =>
    exact GetVotingDecisionRequest.carried (fits _ List.mem_cons_self) m₀ _
  | getVotingDecisionResponse =>
    exact GetVotingDecisionResponse.carried (fits _ List.mem_cons_self) m₀ _
  | getHeartBeatResponse => exact GetHeartBeatResponse.carried m m₀ _
  | startVotingResponse | voteResponse | getHeartBeatRequest => exact .nil m₀

/-- A message is read into another one of its type as it is merged into that. -/
theorem merges_encode (τ : MessageType) {m : τ.Message} (fits : τ.Fits m) (m₀ : τ.Message) :
    τ.schema.Merges Schema.nesting (τ.schema.encode m) m₀ (τ.merged m₀ m) :=
  Schema.merges_encode τ.numbered (τ.carried fits m₀)

theorem decode_encode (τ : MessageType) {m : τ.Message} (fits : τ.Fits m) :
    τ.schema.decode (τ.schema.encode m) = .ok m :=
  Schema.decode_of_carried τ.numbered (τ.carried fits _) (τ.zero_merged m)

/-! ## What was decoded -/

theorem fits_zero (τ : MessageType) : τ.Fits τ.schema.zero := by
  cases τ <;> decide

/-- A message that has one text fits if that does. -/
theorem fits_of_text {τ : MessageType} {m : τ.Message} {s : String} {bs t : Bytes}
    (texts : τ.texts m = [s]) (h : Scalar.string.read bs = .ok (s, t)) : τ.Fits m := by
  intro s' hs'
  rw [texts, List.mem_singleton] at hs'
  rw [hs']
  exact Scalar.length_of_read_string h

theorem sound_timestamp : ∀ f ∈ Timestamp.schema.fields, f.Sound (timestamp.Fits) := by
  simp only [Timestamp.schema, List.forall_mem_cons]
  exact ⟨Field.scalar_sound Scalar.int64_takesPrefix fun _ _ _ _ fits _ => fits,
    Field.scalar_sound Scalar.int32_takesPrefix fun _ _ _ _ fits _ => fits, List.forall_mem_nil _⟩

theorem isLocal_timestamp : Timestamp.schema.Local := fun f hf => (sound_timestamp f hf).takesPrefix

/-- A field that holds the text of a message is read as one that fits, and the others leave it. -/
theorem sound (τ : MessageType) : ∀ f ∈ τ.schema.fields, f.Sound τ.Fits := by
  cases τ with
  | timestamp => exact sound_timestamp
  | startVotingRequest =>
    simp only [schema, StartVotingRequest.schema, List.forall_mem_cons]
    exact ⟨Field.scalar_sound Scalar.string_takesPrefix fun _ _ _ _ _ h => fits_of_text rfl h,
      Field.message_sound isLocal_timestamp fun _ _ fits => fits,
      Field.scalar_sound Scalar.int32_takesPrefix fun _ _ _ _ fits _ => fits, List.forall_mem_nil _⟩
  | voteRequest =>
    simp only [schema, VoteRequest.schema, List.forall_mem_cons]
    exact ⟨Field.scalar_sound Scalar.string_takesPrefix fun _ _ _ _ _ h => fits_of_text rfl h,
      Field.scalar_sound Scalar.int32_takesPrefix fun _ _ _ _ fits _ => fits,
      Field.scalar_sound Scalar.int32_takesPrefix fun _ _ _ _ fits _ => fits, List.forall_mem_nil _⟩
  | getVotingDecisionRequest =>
    simp only [schema, GetVotingDecisionRequest.schema, List.forall_mem_cons]
    exact ⟨Field.scalar_sound Scalar.string_takesPrefix fun _ _ _ _ _ h => fits_of_text rfl h,
      List.forall_mem_nil _⟩
  | getVotingDecisionResponse =>
    simp only [schema, GetVotingDecisionResponse.schema, List.forall_mem_cons]
    exact ⟨Field.scalar_sound Scalar.int32_takesPrefix fun _ _ _ _ fits _ => fits,
      Field.scalar_sound Scalar.string_takesPrefix fun _ _ _ _ _ h => fits_of_text rfl h,
      List.forall_mem_nil _⟩
  | getHeartBeatResponse =>
    simp only [schema, GetHeartBeatResponse.schema, List.forall_mem_cons]
    exact ⟨Field.scalar_sound Scalar.bool_takesPrefix fun _ _ _ _ fits _ => fits,
      List.forall_mem_nil _⟩
  | startVotingResponse | voteResponse | getHeartBeatRequest => exact List.forall_mem_nil _

theorem isLocal (τ : MessageType) : τ.schema.Local := fun f hf => (τ.sound f hf).takesPrefix

/-- The texts of a message that was decoded have lengths of 64 bits. -/
theorem fits_of_decode (τ : MessageType) {bs : Bytes} {m : τ.Message}
    (h : τ.schema.decode bs = .ok m) : τ.Fits m :=
  (τ.isLocal.decode_eq_ok_iff.1 h).keeps τ.sound τ.fits_zero

end MessageType

/-- The point in time of a request is written if there is one, also if all of it is zero. -/
theorem StartVotingRequest.encode_absent_ne (m : StartVotingRequest) (t : Timestamp) :
    schema.encode { m with timeoutTime := none } ≠ schema.encode { m with timeoutTime := some t } := by
  intro h
  have hkey : 0 < (writeKey 2 .lengthDelimited).length := by decide
  have hlength := congrArg List.length h
  simp only [Schema.encode, schema, Field.scalar, Field.message, List.flatMap_cons, List.flatMap_nil,
    List.length_append, List.length_nil] at hlength
  omega

/-- Messages survive the wire: a message of any type is decoded from its encoding just as it was. A
    point in time that is absent and one that is zero are written differently. What was decoded from
    any bytes can be encoded and decoded again. -/
theorem MessageType.survives_wire :
    (∀ (τ : MessageType) (m : τ.Message), τ.Fits m →
      τ.schema.decode (τ.schema.encode m) = .ok m) ∧
    (∀ (m : StartVotingRequest) (t : Timestamp),
      StartVotingRequest.schema.encode { m with timeoutTime := none } ≠
        StartVotingRequest.schema.encode { m with timeoutTime := some t }) ∧
    ∀ (τ : MessageType) (bs : Bytes) (m : τ.Message), τ.schema.decode bs = .ok m →
      τ.schema.decode (τ.schema.encode m) = .ok m :=
  ⟨fun τ _ fits => τ.decode_encode fits, StartVotingRequest.encode_absent_ne,
    fun τ _ _ h => τ.decode_encode (τ.fits_of_decode h)⟩

/-- Negative numbers and a text of five bytes survive, and so does the point in time of a request that
    says no more than that there is one. -/
theorem MessageType.survives_wire_of_zero_time :
    StartVotingRequest.schema.decode
      (StartVotingRequest.schema.encode ⟨"é€", some ⟨-1, -1000000000⟩, -2147483648⟩) =
        .ok ⟨"é€", some ⟨-1, -1000000000⟩, -2147483648⟩ ∧
    StartVotingRequest.schema.decode [0x12, 0x00] = .ok ⟨"", some ⟨0, 0⟩, 0⟩ ∧
    StartVotingRequest.schema.decode (StartVotingRequest.schema.encode ⟨"", some ⟨0, 0⟩, 0⟩) =
      .ok ⟨"", some ⟨0, 0⟩, 0⟩ := by
  obtain ⟨written, -, again⟩ := survives_wire
  have zeroTime : StartVotingRequest.schema.decode [0x12, 0x00] = .ok ⟨"", some ⟨0, 0⟩, 0⟩ := rfl
  exact ⟨written .startVotingRequest _ (by decide), zeroTime,
    again .startVotingRequest [0x12, 0x00] _ zeroTime⟩

end TwoPhaseCommit.Proto
