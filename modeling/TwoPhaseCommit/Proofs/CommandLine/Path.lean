import TwoPhaseCommit.CommandLine
import TwoPhaseCommit.Proofs.OsString
import TwoPhaseCommit.Proofs.Reader

/- Where a path comes from. The value of an argument is what stands in it after some text (`Ends`), and
   the path of a configuration is such a value, of an argument that is still to be read, of the flag
   that was begun, or of one that was complete before (`ledgerPath_of_read`). So a path that is not
   UTF-8 is the end of an argument that is not (`exists_of_rocks`). -/
namespace TwoPhaseCommit.CommandLine

/-- An argument is a value after a text, which may be empty. -/
def Ends (argument value : OsString) : Prop := ∃ start : String, argument = start ++ value

namespace Ends
variable {argument value : OsString}

theorem isText (h : Ends argument value) (text : argument.IsText) : value.IsText := by
  obtain ⟨start, rfl⟩ := h
  exact text.of_append

theorem append (h : Ends argument value) (start : String) : Ends (start ++ argument) value := by
  obtain ⟨start', rfl⟩ := h
  exact ⟨start ++ start', by rw [OsString.ofText_append, OsString.append_assoc]⟩

end Ends

namespace Token
variable {s value : OsString} {f : Flag}

theorem eq_of_attached (h : attached s = some value) : s = nameOf s ++ "=" ++ value := by
  have hsplit := List.takeWhile_append_dropWhile (p := (· != '='.toUInt8)) (l := s.bytes)
  have hhead := List.head?_dropWhile_not (· != '='.toUInt8) s.bytes
  rw [attached] at h
  split at h
  · cases h
  · next b bs hdrop =>
    obtain rfl := Option.some.inj h
    rw [hdrop] at hsplit hhead
    obtain rfl : b = '='.toUInt8 := by simpa using hhead
    rw [OsString.append_assoc]
    exact congrArg OsString.mk hsplit.symm

theorem ends_of_longToken (h : longToken s = .flag f (some value)) : Ends s value := by
  rw [longToken] at h
  split at h
  · split at h <;> cases h
  · split at h
    · next g hg =>
      obtain ⟨rfl, hvalue⟩ := Token.flag.inj h
      have hname : nameOf s = g.name := by simpa using List.find?_some hg
      have hs := eq_of_attached hvalue
      rw [hname, ← OsString.ofText_append] at hs
      exact ⟨_, hs⟩
    · cases h

theorem ends_of_shortToken (h : shortToken s = .flag f (some value)) : Ends s value := by
  rw [shortToken] at h
  split at h
  · next after hafter =>
    split at h
    · cases h
    · obtain ⟨-, hvalue⟩ := Token.flag.inj h
      obtain rfl := Option.some.inj hvalue
      rw [OsString.after?_eq_some_iff] at hafter
      cases hequals : OsString.after? "=" after with
      | none => exact ⟨"l", hafter⟩
      | some value =>
        rw [OsString.after?_eq_some_iff.1 hequals] at hafter
        exact ⟨"l=", hafter⟩
  · split at h <;> cases h

theorem longToken_ne_value : longToken s ≠ .value value := by
  fun_cases longToken s <;> exact nofun

theorem shortToken_ne_value : shortToken s ≠ .value value := by
  fun_cases shortToken s <;> exact nofun

/-- An argument is a value, the end of the flags, or what its dashes make of the rest. -/
theorem ofArgument_cases (s : OsString) : ofArgument s = .value s ∨ ofArgument s = .endOfFlags ∨
    ∃ (dashes : String) (rest : OsString), s = dashes ++ rest ∧
      (ofArgument s = longToken rest ∨ ofArgument s = shortToken rest) := by
  cases hlong : OsString.after? "--" s with
  | some rest =>
    rw [ofArgument, hlong]
    by_cases hrest : rest = ""
    · exact .inr (.inl (if_pos hrest))
    · exact .inr (.inr ⟨_, rest, OsString.after?_eq_some_iff.1 hlong, .inl (if_neg hrest)⟩)
  | none => cases hshort : OsString.after? "-" s with
    | some rest =>
      rw [ofArgument, hlong, hshort]
      by_cases hrest : rest = ""
      · exact .inl (if_pos hrest)
      · exact .inr (.inr ⟨_, rest, OsString.after?_eq_some_iff.1 hshort, .inr (if_neg hrest)⟩)
    | none =>
      rw [ofArgument, hlong, hshort]
      exact .inl rfl

theorem ends_of_flag (h : ofArgument s = .flag f (some value)) : Ends s value := by
  rcases ofArgument_cases s with hs | hs | ⟨dashes, rest, rfl, hs | hs⟩
  · cases hs.symm.trans h
  · cases hs.symm.trans h
  · exact (ends_of_longToken (hs.symm.trans h)).append dashes
  · exact (ends_of_shortToken (hs.symm.trans h)).append dashes

theorem eq_of_value (h : ofArgument s = .value value) : s = value := by
  rcases ofArgument_cases s with hs | hs | ⟨dashes, rest, rfl, hs | hs⟩
  · exact Token.value.inj (hs.symm.trans h)
  · cases hs.symm.trans h
  · exact absurd (hs.symm.trans h) longToken_ne_value
  · exact absurd (hs.symm.trans h) shortToken_ne_value

end Token

namespace Settings
variable {s t : Settings} {f : Flag}

theorem ledgerPath_of_put {value : OsString} (h : s.put f value = .ok t) :
    t.ledgerPath = s.ledgerPath ∨ t.ledgerPath = some value := by
  cases f with
  | ledgerPath =>
    rw [put] at h
    split at h
    · cases h
    · obtain rfl := Except.ok.inj h
      exact .inr rfl
  | listen | voteWindow | requestTimeout | maxAttempts =>
    obtain ⟨_, -, ht⟩ := exists_of_bind_eq_ok h
    obtain rfl := Except.ok.inj ht
    exact .inl rfl

theorem ledgerPath_of_take {value : Option OsString} (h : s.take f value = .ok t) :
    t.ledgerPath = s.ledgerPath ∨ t.ledgerPath = value := by
  cases value with
  | none => cases h
  | some value =>
    rw [take] at h
    split at h
    · cases h
    · exact ledgerPath_of_put h

theorem ledgerPath_of_complete {begun : Begun} {path : OsString} (h : s.complete begun = .ok t)
    (hpath : t.ledgerPath = some path) :
    s.ledgerPath = some path ∨ ∃ f, begun = some (f, some path) := by
  cases begun with
  | none =>
    obtain rfl := Except.ok.inj h
    exact .inl hpath
  | some begun =>
    obtain ⟨f, value⟩ := begun
    rcases ledgerPath_of_take h with kept | taken
    · exact .inl (kept ▸ hpath)
    · exact .inr ⟨f, by rw [← taken, hpath]⟩

end Settings

/-- A path was there, or is the value of the flag that was begun, or comes from an argument. -/
theorem ledgerPath_of_read {s t : Settings} {begun : Begun} {arguments : List OsString}
    {path : OsString} (h : read s begun arguments = .ok t) (hpath : t.ledgerPath = some path) :
    s.ledgerPath = some path ∨ (∃ f, begun = some (f, some path)) ∨ ∃ a ∈ arguments, Ends a path := by
  -- A value waits with its flag until the next flag begins, so the flag that was begun is among the
  -- places where a path may be.
  induction s, begun, arguments using read.induct with
  | case1 s begun => exact (Settings.ledgerPath_of_complete h hpath).imp_right .inl
  | case2 s begun a rest f ha ih =>
    rw [read, ha] at h
    obtain ⟨s', complete, h⟩ := exists_of_bind_eq_ok h
    rcases ih s' h with kept | ⟨_, hbegun⟩ | ⟨a', ha', ends⟩
    · exact (Settings.ledgerPath_of_complete complete kept).imp_right .inl
    · cases hbegun
    · exact .inr (.inr ⟨a', List.mem_cons_of_mem a ha', ends⟩)
  | case3 s begun a rest f value ha ih =>
    rw [read, ha] at h
    obtain ⟨s', complete, h⟩ := exists_of_bind_eq_ok h
    obtain ⟨s'', take, h⟩ := exists_of_bind_eq_ok h
    rcases ih s'' h with there | ⟨_, hbegun⟩ | ⟨a', ha', ends⟩
    · rcases Settings.ledgerPath_of_take take with kept | taken
      · exact (Settings.ledgerPath_of_complete complete (kept ▸ there)).imp_right .inl
      · obtain rfl := Option.some.inj (there.symm.trans taken)
        exact .inr (.inr ⟨a, List.mem_cons_self, Token.ends_of_flag ha⟩)
    · cases hbegun
    · exact .inr (.inr ⟨a', List.mem_cons_of_mem a ha', ends⟩)
  | case4 s begun a rest ha =>
    rw [read, ha] at h
    obtain ⟨_, -, h⟩ := exists_of_bind_eq_ok h
    cases h
  | case5 s begun a rest ha | case8 s begun a rest ha =>
    rw [read, ha] at h
    cases h
  | case6 s begun a rest ha last =>
    rw [read, ha] at h
    dsimp only at h
    rw [if_pos last] at h
    exact (Settings.ledgerPath_of_complete h hpath).imp_right .inl
  | case7 s begun a rest ha more =>
    rw [read, ha] at h
    dsimp only at h
    rw [if_neg more] at h
    cases h
  | case9 s a rest value ha f ih =>
    rw [read, ha] at h
    rcases ih h with there | ⟨_, hbegun⟩ | ⟨a', ha', ends⟩
    · exact .inl there
    · obtain ⟨-, hvalue⟩ := Prod.mk.inj (Option.some.inj hbegun)
      obtain rfl := Option.some.inj hvalue
      exact .inr (.inr ⟨a, List.mem_cons_self, "", Token.eq_of_value ha⟩)
    · exact .inr (.inr ⟨a', List.mem_cons_of_mem a ha', ends⟩)
  | case10 s begun a rest value ha detached =>
    rw [read, ha] at h
    dsimp only at h
    split at h
    · exact absurd rfl (detached _)
    · cases h

/-- The path of a configuration stands at the end of an argument. -/
theorem exists_of_rocks {arguments : List OsString} {c : Config} {path : OsString}
    (h : parse arguments = .ok c) (rocks : c.backend = .rocks path) : ∃ a ∈ arguments, Ends a path := by
  obtain ⟨s, hread, hc⟩ := exists_of_bind_eq_ok h
  obtain rfl := Except.ok.inj hc
  have hpath : s.ledgerPath = some path := by
    rw [Settings.config] at rocks
    cases hs : s.ledgerPath with
    | none => simp [hs] at rocks
    | some p => simpa [hs] using rocks
  rcases ledgerPath_of_read hread hpath with there | ⟨_, hbegun⟩ | given
  · cases there
  · cases hbegun
  · exact given

end TwoPhaseCommit.CommandLine
