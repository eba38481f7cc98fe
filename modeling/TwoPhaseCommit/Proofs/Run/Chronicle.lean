import TwoPhaseCommit.Proofs.Run

/- What the steps of a run tell. `progress` reads off a list of steps which command a call carries
   out, what it has seen and how it ended, and `Occurs` says which step can come next, in these terms
   alone. A `Chronicle` is a list of steps of which each can come next after those before it. Every
   run leaves one (`Run.chronicle`), and all that is said about runs is proved of chronicles, with
   `Occurs` as the one lemma about a step. -/
namespace TwoPhaseCommit

/-- How far a call has come, by what has been seen of it. -/
inductive Progress where
  | unmade
  | underway (o : Command) (v : View)
  | returned (o : Command) (v : View) (a : Except Error o.Answer)
  | dropped (o : Command) (v : View)

namespace Progress

/-- The command that is carried out, when there is one, and what the call has seen. -/
def seen? : Progress → Option (Command × View)
  | .unmade => none
  | .underway o v | .returned o v _ | .dropped o v => some (o, v)

/-- How far a call has come after one more step of its own. -/
def after : Progress → Move → Progress
  | .unmade, .begins o => .underway o (.start 0)
  | .underway o v, .hears x => .underway o (v.see x.request x.answer)
  | .underway _ v, .returns o a => .returned o v a
  | .underway o v, .isDropped => .dropped o v
  | p, _ => p

variable {p : Progress} {o : Command} {v : View}

theorem seen?_of_underway (h : p = .underway o v) : p.seen? = some (o, v) := by
  rw [h]
  rfl

theorem seen?_of_returned {a : Except Error o.Answer} (h : p = .returned o v a) :
    p.seen? = some (o, v) := by
  rw [h]
  rfl

end Progress

/-- How far call `i` has come in the steps `h`. -/
def progress (i : Nat) : List Moment → Progress
  | [] => .unmade
  | m :: h => if m.call = i then (progress i h).after m.move else progress i h

theorem progress_cons_self (m : Moment) (h : List Moment) :
    progress m.call (m :: h) = (progress m.call h).after m.move := if_pos rfl

theorem progress_cons_of_ne {i : Nat} {m : Moment} (hi : m.call ≠ i) (h : List Moment) :
    progress i (m :: h) = progress i h := if_neg hi

/-- The steps that can come next after the steps `h` from the ledger `l₀`. -/
inductive Occurs (C : Conduct) (l₀ : Ledger) (h : List Moment) : Moment → Prop where
  | begins (i : Nat) (o : Command) (unmade : progress i h = .unmade) :
    Occurs C l₀ h ⟨i, .begins o, ledgerAfter l₀ h⟩
  | hears (i : Nat) {o : Command} {v : View} {x : Exchange} {l : Ledger}
    (underway : progress i h = .underway o v) (asks : o.Asks v x.request)
    (answered : C.answers (ledgerAfter l₀ h) x l) : Occurs C l₀ h ⟨i, .hears x, l⟩
  | returns (i : Nat) {o : Command} {v : View} {a : Except Error o.Answer}
    (underway : progress i h = .underway o v) (ends : o.Ends v a) :
    Occurs C l₀ h ⟨i, .returns o a, ledgerAfter l₀ h⟩
  /-- What the call was just asking of the ledger may have been carried out. -/
  | isDropped (i : Nat) {o : Command} {v : View} {l : Ledger}
    (underway : progress i h = .underway o v) (left : l = ledgerAfter l₀ h ∨
      ∃ q, o.Asks v (.ledger q) ∧ C.leaves (ledgerAfter l₀ h) q l) :
    Occurs C l₀ h ⟨i, .isDropped, l⟩

/-- Who hears an answer is under way and has asked for it. -/
theorem Occurs.underway_of_hears {C : Conduct} {l₀ : Ledger} {h : List Moment} {m : Moment}
    (occurs : Occurs C l₀ h m) {x : Exchange} (hm : m.move = .hears x) :
    ∃ o v, progress m.call h = .underway o v ∧ o.Asks v x.request := by
  cases occurs with
  | begins | returns | isDropped => cases hm
  | hears i underway asks =>
    cases hm
    exact ⟨_, _, underway, asks⟩

/-- Steps of which each can come next after those before it. -/
inductive Chronicle (C : Conduct) (l₀ : Ledger) : List Moment → Prop where
  | nil : Chronicle C l₀ []
  | cons {h : List Moment} {m : Moment} (past : Chronicle C l₀ h) (next : Occurs C l₀ h m) :
    Chronicle C l₀ (m :: h)

/-! ## Every run leaves a chronicle -/

/-- A call stands where it has come to: one under way makes from now on only the requests of its
    command, and ends only as its command ends. -/
inductive Standing.Matches : Standing → Progress → Prop where
  | unmade : Matches .unmade .unmade
  | underway {o : Command} {rest : Call (Except Error o.Answer)} {v : View}
    (obeys : rest.Obeys o.Asks o.Ends v) : Matches (.underway o rest) (.underway o v)
  | returned (o : Command) (v : View) (a : Except Error o.Answer) : Matches .ended (.returned o v a)
  | dropped (o : Command) (v : View) : Matches .ended (.dropped o v)

namespace Standing

theorem Matches.of_unmade {s : Standing} {p : Progress} (h : s.Matches p) (hs : s = .unmade) :
    p = .unmade := by
  subst hs
  cases h
  rfl

theorem Matches.of_underway {s : Standing} {p : Progress} {o : Command}
    {rest : Call (Except Error o.Answer)} (h : s.Matches p) (hs : s = .underway o rest) :
    ∃ v, p = .underway o v ∧ rest.Obeys o.Asks o.Ends v := by
  subst hs
  cases h with
  | underway obeys => exact ⟨_, rfl, obeys⟩

/-- A step of one call leaves the others where they were. -/
theorem matches_turn {w : World} {h : List Moment} {i : Nat} {move : Move} {s : Standing}
    (l l' : Ledger) (others : ∀ j, (w.standing j).Matches (progress j h))
    (self : s.Matches ((progress i h).after move)) (j : Nat) :
    ((w.turn i s l).standing j).Matches (progress j (⟨i, move, l'⟩ :: h)) := by
  simp only [World.turn]
  by_cases hj : j = i
  · subst hj
    rw [if_pos rfl, progress_cons_self ⟨j, move, l'⟩]
    exact self
  · rw [if_neg hj, progress_cons_of_ne (Ne.symm hj)]
    exact others j

end Standing

namespace Run
variable {C : Conduct} {l₀ : Ledger} {h : List Moment} {w : World}

theorem ledger_eq (run : Run C l₀ h w) : w.ledger = ledgerAfter l₀ h := by
  cases run with
  | start => rfl
  | step _ step => cases step <;> rfl

/-- If the calls stand where they have come to, a step is one that can come next, and the calls stand
    where they have come to after it. -/
theorem step_occurs {m : Moment} {w' : World} (hl : w.ledger = ledgerAfter l₀ h)
    (hs : ∀ i, (w.standing i).Matches (progress i h)) (step : Step C w m w') :
    Occurs C l₀ h m ∧ ∀ i, (w'.standing i).Matches (progress i (m :: h)) := by
  -- in every case the standing of the call tells its progress, and the step moves both on
  cases step with
  | begins i o unmade =>
    have hp : progress i h = .unmade := (hs i).of_unmade unmade
    rw [hl]
    refine ⟨.begins i o hp, Standing.matches_turn _ _ hs ?_⟩
    rw [hp]
    exact .underway o.call_obeys
  | hears i underway answered =>
    obtain ⟨v, hp, obeys⟩ := (hs i).of_underway underway
    rw [hl] at answered
    refine ⟨.hears i hp obeys.1 answered, Standing.matches_turn _ _ hs ?_⟩
    rw [hp]
    exact .underway (obeys.2 _)
  | returns i underway =>
    obtain ⟨v, hp, obeys⟩ := (hs i).of_underway underway
    rw [hl]
    refine ⟨.returns i hp obeys, Standing.matches_turn _ _ hs ?_⟩
    rw [hp]
    exact .returned ..
  | isDropped i underway =>
    obtain ⟨v, hp, -⟩ := (hs i).of_underway underway
    refine ⟨.isDropped i hp (.inl hl), Standing.matches_turn _ _ hs ?_⟩
    rw [hp]
    exact .dropped ..
  | isDroppedAsking i underway left =>
    obtain ⟨v, hp, obeys⟩ := (hs i).of_underway underway
    rw [hl] at left
    refine ⟨.isDropped i hp (.inr ⟨_, obeys.1, left⟩), Standing.matches_turn _ _ hs ?_⟩
    rw [hp]
    exact .dropped ..

theorem chronicle (run : Run C l₀ h w) :
    Chronicle C l₀ h ∧ ∀ i, (w.standing i).Matches (progress i h) := by
  induction run with
  | start => exact ⟨.nil, fun _ => .unmade⟩
  | step run step ih =>
    obtain ⟨next, hs⟩ := step_occurs run.ledger_eq ih.2 step
    exact ⟨.cons ih.1 next, hs⟩

end Run

/-! ## Parts of a chronicle -/

namespace Chronicle
variable {C : Conduct} {l₀ : Ledger} {h s : List Moment} {m : Moment}

/-- What happens on a faithful ledger can happen on an unreliable one. -/
theorem unreliable (hc : Chronicle .faithful l₀ h) : Chronicle .unreliable l₀ h := by
  induction hc with
  | nil => exact .nil
  | cons _ next ih =>
    refine .cons ih ?_
    cases next with
    | begins i o unmade => exact .begins i o unmade
    | hears i underway asks answered => exact .hears i underway asks (.faithful answered)
    | returns i underway ends => exact .returns i underway ends
    | isDropped i underway left =>
      refine .isDropped i underway (left.imp id ?_)
      intro hl
      obtain ⟨q, asks, hl⟩ := hl
      exact ⟨q, asks, .inl hl⟩

theorem suffix (hc : Chronicle C l₀ h) (hs : s <:+ h) : Chronicle C l₀ s := by
  induction hc with
  | nil => rw [List.suffix_nil.1 hs]; exact .nil
  | cons past next ih =>
    rcases List.suffix_cons_iff.1 hs with rfl | hs
    · exact .cons past next
    · exact ih hs

/-- The steps before a step. -/
theorem before (hc : Chronicle C l₀ h) (hs : m :: s <:+ h) : Chronicle C l₀ s :=
  hc.suffix ((List.suffix_cons m s).trans hs)

theorem occurs (hc : Chronicle C l₀ h) (hs : m :: s <:+ h) : Occurs C l₀ s m := by
  cases hc.suffix hs with
  | cons _ next => exact next

/-- A call that has returned has ended as its command ends. -/
theorem ends {i : Nat} {o : Command} {v : View} {a : Except Error o.Answer}
    (hc : Chronicle C l₀ h) (returned : progress i h = .returned o v a) : o.Ends v a := by
  induction hc with
  | nil => cases returned
  | @cons h m past next ih =>
    by_cases hi : m.call = i
    · subst hi
      rw [progress_cons_self] at returned
      cases next with
      | returns i underway ends =>
        rw [underway] at returned
        cases returned
        exact ends
      | begins i o' unmade => rw [unmade] at returned; cases returned
      | hears i underway | isDropped i underway => rw [underway] at returned; cases returned
    · rw [progress_cons_of_ne hi] at returned
      exact ih returned

/-- A call carries out one command. -/
theorem exists_seen_of_suffix {i : Nat} {o : Command} {v : View} (hc : Chronicle C l₀ h)
    (hs : s <:+ h) (seen : (progress i s).seen? = some (o, v)) :
    ∃ v', (progress i h).seen? = some (o, v') := by
  induction hc with
  | nil => exact ⟨v, List.suffix_nil.1 hs ▸ seen⟩
  | @cons h m past next ih =>
    rcases List.suffix_cons_iff.1 hs with rfl | hs
    · exact ⟨v, seen⟩
    · obtain ⟨v', hv'⟩ := ih hs
      by_cases hi : m.call = i
      · subst hi
        rw [progress_cons_self]
        cases next with
        | begins i o' unmade => rw [unmade] at hv'; cases hv'
        | hears i underway | returns i underway | isDropped i underway =>
          rw [underway] at hv' ⊢
          cases hv'
          exact ⟨_, rfl⟩
      · rw [progress_cons_of_ne hi]
        exact ⟨v', hv'⟩

end Chronicle

theorem Progress.after_eq_unmade {p : Progress} {m : Move} (h : p.after m = .unmade) :
    p = .unmade := by
  cases p <;> cases m <;> first | rfl | cases h

/-- A call that has not begun had not begun before. -/
theorem progress_unmade_of_suffix {i : Nat} {h s : List Moment} (hs : s <:+ h)
    (unmade : progress i h = .unmade) : progress i s = .unmade := by
  induction h with
  | nil => rw [List.suffix_nil.1 hs]; rfl
  | cons m h ih =>
    rcases List.suffix_cons_iff.1 hs with rfl | hs
    · exact unmade
    · rw [progress] at unmade
      split at unmade
      · exact ih hs (Progress.after_eq_unmade unmade)
      · exact ih hs unmade

/-- A call under way had not begun before, or was under way with the same command. -/
theorem Chronicle.underway_of_suffix {C : Conduct} {l₀ : Ledger} {h s : List Moment} {i : Nat}
    {o : Command} {v : View} (hc : Chronicle C l₀ h) (hs : s <:+ h)
    (underway : progress i h = .underway o v) :
    progress i s = .unmade ∨ ∃ u, progress i s = .underway o u := by
  induction hc generalizing v with
  | nil =>
    rw [List.suffix_nil.1 hs]
    exact .inl rfl
  | @cons h m past next ih =>
    rcases List.suffix_cons_iff.1 hs with rfl | hsh
    · exact .inr ⟨v, underway⟩
    · by_cases hi : m.call = i
      · subst hi
        rw [progress_cons_self] at underway
        cases next with
        | begins i o' unmade => exact .inl (progress_unmade_of_suffix hsh unmade)
        | hears i underway' =>
          rw [underway'] at underway
          cases underway
          exact ih hsh underway'
        | returns i underway' | isDropped i underway' =>
          rw [underway'] at underway
          cases underway
      · rw [progress_cons_of_ne hi] at underway
        exact ih hsh underway

end TwoPhaseCommit
