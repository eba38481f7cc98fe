import TwoPhaseCommit.Proofs.Proto.MessageType

/- Bytes behind the bytes of a message. The decoder goes on with the message that it has: the encoding
   of another message is merged into it, and whole fields whose numbers its type does not list, groups
   among them, change nothing of what is read behind them, be it a message or an error
   (`MessageType.merges_and_skips`). -/
namespace TwoPhaseCommit.Proto

namespace Schema
variable {M : Type} {s : Schema M} {limit n : Nat}

theorem find?_unlisted (unlisted : ∀ f ∈ s.fields, f.number ≠ n) :
    s.fields.find? (fun f => f.number == n) = none :=
  List.find?_eq_none.2 fun f hf => by simpa using unlisted f hf

/-- The value of a field that is not listed is passed over, whatever follows. -/
theorem merge_unlisted {w : WireType} {v : Bytes} (unlisted : ∀ f ∈ s.fields, f.number ≠ n)
    (nested : 0 < limit) (value : IsWholeValue limit n w v) (m : M) (t : Bytes) :
    s.merge limit m n w (v ++ t) = .ok (m, t) := by
  have hskip : skip limit n w (v ++ t) = .ok t := skip_eq_ok_iff.2 ⟨nested, v, value, rfl⟩
  exact merge_eq_ok_iff.2 (.inl ⟨find?_unlisted unlisted, hskip, rfl⟩)

/-- Whole fields that are not listed leave a message as it is. -/
theorem merges_unlisted (m : M) : ∀ {ns : List Nat} {u : Bytes}, AreFields limit 0 ns u →
    (∀ n ∈ ns, ∀ f ∈ s.fields, f.number ≠ n) → s.Merges limit u m m
  | _, _, .nil _, _ => .nil m
  | _, _, .value nested key value others, unlisted => by
    obtain ⟨first, rest⟩ := List.forall_mem_cons.1 unlisted
    rw [← List.append_assoc]
    exact (merges_field key (merge_unlisted first nested (.plain value) m)).append
      (merges_unlisted m others rest)
  | _, _, .group nested opens fields closes others, unlisted => by
    obtain ⟨first, rest⟩ := List.forall_mem_cons.1 unlisted
    -- behind its key a group is the rest of one open group
    have value := IsWholeValue.group (.cons fields closes .nil)
    have hfield := merges_field opens (merge_unlisted first nested value m)
    simpa only [List.append_assoc, List.append_nil] using hfield.append (merges_unlisted m others rest)

end Schema

/-- Behind bytes from which a message was decoded, the encoding of another one is merged into it, and
    whole fields that its type does not know are passed over: what follows them gives the message or
    the error that it gives without them. -/
theorem MessageType.merges_and_skips (τ : MessageType) {bs : Bytes} {m : τ.Message}
    (decoded : τ.schema.decode bs = .ok m) :
    (∀ n : τ.Message, τ.Fits n →
      τ.schema.decode (bs ++ τ.schema.encode n) = .ok (τ.merged m n)) ∧
    ∀ (ns : List Nat) (u t : Bytes), AreFields Schema.nesting 0 ns u →
      (∀ n ∈ ns, ∀ f ∈ τ.schema.fields, f.number ≠ n) →
      τ.schema.decode (bs ++ u ++ t) = τ.schema.decode (bs ++ t) := by
  have hm := (τ.isLocal.decode_eq_ok_iff.1 decoded).merges
  constructor
  · intro n fits
    exact Schema.decode_of_merges (hm.append (τ.merges_encode fits m))
  · intro ns u t fields unknown
    have hu := hm.append (Schema.merges_unlisted m fields unknown)
    rw [τ.isLocal.decode_append hu, τ.isLocal.decode_append hm]

/-- The nanoseconds of one request join the seconds of another. A group that nobody knows changes
    nothing, here before a number that is cut off. -/
theorem MessageType.merges_and_skips_of_group :
    StartVotingRequest.schema.decode ([0x12, 0x02, 0x08, 0x05] ++
      StartVotingRequest.schema.encode ⟨"a", some ⟨0, 7⟩, 0⟩) = .ok ⟨"a", some ⟨5, 7⟩, 0⟩ ∧
    StartVotingRequest.schema.decode ([0x12, 0x02, 0x08, 0x05] ++ [0x2b, 0x08, 0x01, 0x2c] ++ [0x18]) =
      StartVotingRequest.schema.decode ([0x12, 0x02, 0x08, 0x05] ++ [0x18]) := by
  have decoded : startVotingRequest.schema.decode [0x12, 0x02, 0x08, 0x05] =
      .ok ⟨"", some ⟨5, 0⟩, 0⟩ := rfl
  have opens : IsKey (writeKey 5 .startGroup) 5 _ := isKey_writeKey _ (by decide) (by decide)
  have key : IsKey (writeKey 1 .varint) 1 _ := isKey_writeKey _ (by decide) (by decide)
  have one : IsVarint (Varint.write 1) 1 := isVarint_write (by decide)
  have closes : IsKey (writeKey 5 .endGroup) 5 _ := isKey_writeKey _ (by decide) (by decide)
  have group : AreFields Schema.nesting 0 [5] [0x2b, 0x08, 0x01, 0x2c] :=
    .group (by decide) opens (.value (by decide) key (.varint one) (.nil 1)) closes (.nil 0)
  obtain ⟨merges, skips⟩ := merges_and_skips .startVotingRequest decoded
  exact ⟨merges ⟨"a", some ⟨0, 7⟩, 0⟩ (by decide), skips [5] _ [0x18] group (by decide)⟩

end TwoPhaseCommit.Proto
