import TwoPhaseCommit.Record

/- Which texts are written forms of decisions. A text is `Marked` if its first character is the digit of
   a kind. Such a text is the written form of the decision that it stands for, and any other stands for
   a decision of unknown kind, which is written with a zero in place of its first character. So to read
   and to write brings every text into a form that stays (`normalizes`), and whether a record is final is
   told by the first character of its decision text. -/
namespace TwoPhaseCommit

namespace DecisionKind

/-- The digits of the kinds. -/
def markers : List Char := ['0', '1', '2', '3']

theorem mem_markers_iff {c : Char} : c ∈ markers ↔ c = '0' ∨ c = '1' ∨ c = '2' ∨ c = '3' := by
  simp [markers]

theorem marker_mem_markers (k : DecisionKind) : k.marker ∈ markers := by
  cases k <;> decide

/-- A character is the digit of the kind that it stands for if it is a digit of any. -/
theorem marker_ofMarker {c : Char} (h : c ∈ markers) : (ofMarker c).marker = c := by
  rcases mem_markers_iff.1 h with rfl | rfl | rfl | rfl <;> rfl

theorem ofMarker_of_notMem {c : Char} (h : c ∉ markers) : ofMarker c = .unknown := by
  fun_cases ofMarker c with
  | case1 | case2 | case3 => exact absurd (by decide) h
  | case4 => rfl

theorem isTerminal_ofMarker {c : Char} : (ofMarker c).isTerminal ↔ c = '2' ∨ c = '3' := by
  by_cases h : c ∈ markers
  · rcases mem_markers_iff.1 h with rfl | rfl | rfl | rfl <;> decide
  · have h2 : c ≠ '2' := fun hc => h (by rw [hc]; decide)
    have h3 : c ≠ '3' := fun hc => h (by rw [hc]; decide)
    simp [ofMarker_of_notMem h, isTerminal, h2, h3]

end DecisionKind

namespace Decision
variable {s : String} {c : Char} {rest : List Char}

/-- The text begins with the digit of a kind. -/
def Marked (s : String) : Prop := ∃ c ∈ DecisionKind.markers, s.toList.head? = some c

theorem decode_of_cons (h : s.toList = c :: rest) : decode s = ⟨.ofMarker c, String.ofList rest⟩ := by
  rw [decode, h]

theorem marked_encode (d : Decision) : Marked d.encode :=
  ⟨d.kind.marker, d.kind.marker_mem_markers, by simp [encode]⟩

theorem encode_decode_of_marked (h : Marked s) : (decode s).encode = s := by
  obtain ⟨c, hc, hs⟩ := h
  obtain ⟨rest, hs⟩ := List.head?_eq_some_iff.1 hs
  rw [decode_of_cons hs, encode, DecisionKind.marker_ofMarker hc, String.toList_ofList, ← hs,
    String.ofList_toList]

/-- What comes after a first character that is no digit of a kind is the reason. -/
theorem decode_of_unmarked (h : ¬ Marked s) : decode s = ⟨.unknown, String.ofList s.toList.tail⟩ := by
  cases hs : s.toList with
  | nil =>
    rw [decode, hs]
    rfl
  | cons c rest =>
    have hc : c ∉ DecisionKind.markers := fun hc => h ⟨c, hc, by rw [hs]; rfl⟩
    rw [decode_of_cons hs, DecisionKind.ofMarker_of_notMem hc, List.tail_cons]

/-- A written form is marked, so no other text is one. -/
theorem encode_decode_eq_iff : (decode s).encode = s ↔ Marked s :=
  ⟨fun h => h ▸ marked_encode (decode s), encode_decode_of_marked⟩

end Decision

namespace Record
variable {r : Record} {c : Char} {rest : List Char}

/-- The first character of the decision text tells whether the record is final. -/
theorem frozen_of_cons (h : r.decision.toList = c :: rest) :
    r.frozen = if c = '2' ∨ c = '3' then some ⟨.ofMarker c, String.ofList rest⟩ else none := by
  simp only [frozen, Decision.decode_of_cons h, Decision.isTerminal,
    DecisionKind.isTerminal_ofMarker]

theorem frozen_of_nil (h : r.decision.toList = []) : r.frozen = none := by
  rw [frozen, Decision.decode, h]
  rfl

theorem isSome_frozen_iff : r.frozen.isSome ↔
    r.decision.toList.head? = some '2' ∨ r.decision.toList.head? = some '3' := by
  cases h : r.decision.toList with
  | nil => simp [frozen_of_nil h]
  | cons c rest =>
    rw [frozen_of_cons h, List.head?_cons, Option.some_inj, Option.some_inj]
    split <;> simp_all

end Record

/-- The written form of a decision gives it back, whatever its reason. A text is the written form of the
    decision that it stands for exactly if it is marked. Any other stands for a decision of unknown
    kind, and what is written for that is a zero and the text without its first character. In either
    case the form that is written stands for the same decision. A record is final exactly if its
    decision text begins with `2` or `3`, and all that follows is the reason. -/
theorem Decision.normalizes :
    (∀ d : Decision, decode d.encode = d) ∧
    (∀ s : String, ((decode s).encode = s ↔ ∃ c ∈ ['0', '1', '2', '3'], s.toList.head? = some c) ∧
      ((¬ ∃ c ∈ ['0', '1', '2', '3'], s.toList.head? = some c) →
        (decode s).encode = String.ofList ('0' :: s.toList.tail) ∧ (decode s).kind = .unknown) ∧
      decode (decode s).encode = decode s) ∧
    ∀ r : Record, (r.frozen.isSome ↔
        r.decision.toList.head? = some '2' ∨ r.decision.toList.head? = some '3') ∧
      (∀ rest, r.decision.toList = '2' :: rest → r.frozen = some ⟨.commit, String.ofList rest⟩) ∧
      ∀ rest, r.decision.toList = '3' :: rest → r.frozen = some ⟨.abort, String.ofList rest⟩ := by
  refine ⟨decode_encode, fun s => ⟨encode_decode_eq_iff, ?unmarked, decode_encode _⟩, fun r =>
    ⟨Record.isSome_frozen_iff, fun rest h => ?commit, fun rest h => ?abort⟩⟩
  case unmarked =>
    intro h
    rw [decode_of_unmarked h]
    exact ⟨by rw [encode, String.toList_ofList]; rfl, rfl⟩
  case commit => exact Record.frozen_of_cons h
  case abort => exact Record.frozen_of_cons h

/-- A digit of another script is no marker, though it is longer than a byte. The reason of a record that
    is final may look like a marker. -/
theorem Decision.normalizes_of_foreign_digit :
    (¬ ∃ c ∈ ['0', '1', '2', '3'], "٣of 4".toList.head? = some c) ∧
    (decode "٣of 4").encode = "0of 4" ∧ (decode "٣of 4").kind = .unknown ∧
    ∃ r : Record, r.decision = "32 of 4" ∧ r.frozen = some ⟨.abort, "2 of 4"⟩ := by
  obtain ⟨-, texts, records⟩ := normalizes
  have unmarked : ¬ ∃ c ∈ ['0', '1', '2', '3'], "٣of 4".toList.head? = some c := by simp
  obtain ⟨-, foreign, -⟩ := texts "٣of 4"
  obtain ⟨written, unknown⟩ := foreign unmarked
  let r : Record := { Record.new 4 0 with decision := "32 of 4", length_decision := by decide }
  exact ⟨unmarked, written, unknown, r, rfl, (records r).2.2 "2 of 4".toList (by decide)⟩

end TwoPhaseCommit
