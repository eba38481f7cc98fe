import TwoPhaseCommit.OsString
import TwoPhaseCommit.Utf8.RoundTrip

/- Which strings of the operating system are texts. Different texts are different strings, two texts
   make a text, and what is left of a text after a text is one (`IsText.of_append`), so a string that
   is no text stays visible behind every beginning that is. -/
namespace TwoPhaseCommit.OsString

/-- The bytes are UTF-8. -/
def IsText (s : OsString) : Prop := ∃ t : String, s = ofText t

variable {s start rest : OsString} {t u : String}

theorem append_assoc (a b c : OsString) : a ++ b ++ c = a ++ (b ++ c) :=
  congrArg mk (List.append_assoc a.bytes b.bytes c.bytes)

theorem ofText_append (t u : String) : ofText (t ++ u) = ofText t ++ ofText u := by
  refine congrArg mk ?_
  rw [Utf8.encode, String.toList_append, List.flatMap_append]
  rfl

theorem text?_eq_some_iff : s.text? = some t ↔ s = ofText t := by
  have hdecode : s.text? = some t ↔ Utf8.decode s.bytes = .ok t := by
    rw [text?]
    cases Utf8.decode s.bytes <;> simp [Except.toOption]
  rw [hdecode, Utf8.decode_eq_ok_iff]
  exact ⟨congrArg mk, congrArg bytes⟩

theorem text?_ofText (t : String) : (ofText t).text? = some t := text?_eq_some_iff.2 rfl

theorem ofText_inj : ofText t = ofText u ↔ t = u := by
  refine ⟨fun h => ?_, congrArg ofText⟩
  have ht := text?_ofText t
  rw [h, text?_ofText] at ht
  exact (Option.some.inj ht).symm

theorem text?_eq_none_iff : s.text? = none ↔ ¬ s.IsText := by
  simp only [Option.eq_none_iff_forall_ne_some, ne_eq, text?_eq_some_iff, IsText, not_exists]

theorem isText_ofText (t : String) : (ofText t).IsText := ⟨t, rfl⟩

theorem exists_of_append_eq_ofText (h : ofText t ++ rest = ofText u) :
    ∃ v, u = t ++ v ∧ rest = ofText v := by
  obtain ⟨v, hu, hrest⟩ := Utf8.exists_of_encode_eq_append (congrArg bytes h).symm
  exact ⟨v, hu, congrArg mk hrest⟩

theorem IsText.of_append (h : (ofText t ++ rest).IsText) : rest.IsText := by
  obtain ⟨u, hu⟩ := h
  obtain ⟨v, -, hrest⟩ := exists_of_append_eq_ofText hu
  exact ⟨v, hrest⟩

theorem after?_eq_some_iff : after? start s = some rest ↔ s = start ++ rest := by
  have hbytes : ∀ a b c : Bytes, a.isPrefixOf? b = some c ↔ b = a ++ c := by
    intro a
    induction a with
    | nil => exact fun b c => Option.some_inj
    | cons x a ih =>
      rintro (_ | ⟨y, b⟩) c
      · exact ⟨nofun, nofun⟩
      · show (if x == y then a.isPrefixOf? b else none) = some c ↔ y :: b = x :: (a ++ c)
        by_cases hxy : x = y
        · simp [hxy, ih]
        · simp [hxy, Ne.symm hxy]
  constructor
  · intro h
    obtain ⟨c, hc, rfl⟩ := Option.map_eq_some_iff.1 h
    exact congrArg mk ((hbytes _ _ _).1 hc)
  · rintro rfl
    exact Option.map_eq_some_iff.2 ⟨rest.bytes, (hbytes _ _ _).2 rfl, rfl⟩

/-- A text that does not begin with a text does not do so as a string either. -/
theorem after?_ofText_eq_none (h : ∀ v, u ≠ t ++ v) : after? (ofText t) (ofText u) = none := by
  rw [Option.eq_none_iff_forall_ne_some]
  intro rest hrest
  obtain ⟨v, hu, -⟩ := exists_of_append_eq_ofText (after?_eq_some_iff.1 hrest).symm
  exact h v hu

end TwoPhaseCommit.OsString
