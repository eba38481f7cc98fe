import TwoPhaseCommit.Proofs.Run.Validity

/- Registration. A transaction is registered once, and what it is registered with stays
   (`first_registration`). What carries this is that a value that is stored is never taken away
   (`Chronicle.present_of_suffix`), so only one step can store the first one (`Registers.unique`), and
   that a registration changes the ledger in no other way (`Occurs.ledger_of_registration`). -/
namespace TwoPhaseCommit

section
variable {l₀ : Ledger} {h s : List Moment} {m : Moment} {i : Nat} {id : String}
  {n : Int32} {d : Int64} {c : Coordinator} {v : View}

/-! ## Keys are never removed -/

theorem Occurs.present (occurs : Occurs .unreliable l₀ h m)
    (present : (ledgerAfter l₀ h).read id ≠ none) : m.ledger.read id ≠ none := by
  have effect := occurs.effect id
  generalize (ledgerAfter l₀ h).read id = stored at effect present
  generalize m.ledger.read id = stored' at effect
  cases effect with
  | same => exact present
  | registers | revises => nofun

theorem Chronicle.present_of_suffix (hc : Chronicle .unreliable l₀ h) (hs : s <:+ h)
    (present : (ledgerAfter l₀ s).read id ≠ none) : (ledgerAfter l₀ h).read id ≠ none := by
  induction hc with
  | nil => exact List.suffix_nil.1 hs ▸ present
  | cons past next ih =>
    rcases List.suffix_cons_iff.1 hs with rfl | hs
    · exact present
    · exact next.present (ih hs)

/-- A transaction is registered in one step at most. -/
theorem Registers.unique {n' : Int32} {d' : Int64} {m' : Moment} {p p' : List Moment}
    (hc : Chronicle .unreliable l₀ h) (hmp : m :: p <:+ h) (hmp' : m' :: p' <:+ h)
    (registers : Registers l₀ id n d p m) (registers' : Registers l₀ id n' d' p' m') :
    m :: p = m' :: p' := by
  -- whichever step comes first, its value is still there at the other one
  have first : ∀ {n n' : Int32} {d d' : Int64} {m m' : Moment} {p p' : List Moment},
      m' :: p' <:+ h → Registers l₀ id n d p m → Registers l₀ id n' d' p' m' →
      m :: p <:+ m' :: p' → m :: p = m' :: p' := by
    intro n n' d d' m m' p p' hmp' registers registers' hs
    rcases List.suffix_cons_iff.1 hs with he | hs
    · exact he
    · have hp' : Chronicle .unreliable l₀ p' := hc.before hmp'
      exact absurd registers'.absent (hp'.present_of_suffix hs registers.stored)
  rcases List.suffix_or_suffix_of_suffix hmp hmp' with hs | hs
  · exact first hmp' registers registers' hs
  · exact (first hmp registers' registers hs).symm

/-! ## The steps of a registration -/

theorem Registers.of_create {value : Bytes}
    (underway : progress m.call h = .underway (.startVoting c id n d) v)
    (perhaps : m.ledger = ledgerAfter l₀ h ∨
      m.ledger = ((ledgerAfter l₀ h).perform (.create id value)).2) :
    m.ledger = ledgerAfter l₀ h ∨ Registers l₀ id n d h m := by
  rcases perhaps with hl | hl
  · exact .inl hl
  · cases hr : (ledgerAfter l₀ h).read id with
    | some stored =>
      rw [Ledger.perform, Ledger.create_of_present hr] at hl
      exact .inl hl
    | none =>
      rw [Ledger.perform, Ledger.create_of_absent hr] at hl
      refine .inr ⟨⟨c, v, underway⟩, hr, ?_⟩
      rw [hl, Ledger.read_put, if_pos rfl]
      exact Option.some_ne_none value

/-- A step of a registration leaves the ledger, or it is the one that registers the transaction. -/
theorem Occurs.ledger_of_registration (occurs : Occurs .unreliable l₀ h m)
    (underway : progress m.call h = .underway (.startVoting c id n d) v) :
    m.ledger = ledgerAfter l₀ h ∨ Registers l₀ id n d h m := by
  cases occurs with
  | begins | returns => exact .inl rfl
  | @hears i o u x l underway' asks answered =>
    rw [underway] at underway'
    obtain ⟨rfl, rfl⟩ := Progress.underway.inj underway'
    obtain ⟨r, y⟩ := x
    cases asks with
    | revise _ target => cases target
    | register _ asks =>
      cases asks with
      | pause | log =>
        cases answered with
        | faithful answered =>
          cases answered
          exact .inl rfl
      | create =>
        apply Registers.of_create underway
        cases answered with
        | faithful answered => exact .inr answered.of_ledger.2
        | failed e perhaps => exact perhaps
  | isDropped i underway' left =>
    rw [underway] at underway'
    obtain ⟨rfl, rfl⟩ := Progress.underway.inj underway'
    rcases left with hl | ⟨q, asks, perhaps⟩
    · exact .inl hl
    · cases asks with
      | revise _ target => cases target
      | register _ asks =>
        cases asks with
        | create => exact Registers.of_create underway perhaps

namespace Chronicle

/-- A call that has been told that its registration succeeds has registered the transaction. -/
theorem registers_of_written (hc : Chronicle .unreliable l₀ h)
    (seen : (progress i h).seen? = some (.startVoting c id n d, v))
    (written : v.write = some (.ok true)) :
    ∃ m p, lastWord i h = m :: p ∧ m.call = i ∧ Registers l₀ id n d p m := by
  obtain ⟨z, l, p, u, hlast, underway, write⟩ := hc.lastWord_create seen written
  obtain ⟨rfl, -⟩ | ⟨-, hy⟩ | ⟨e, -, hy⟩ := View.of_see_create write
  · obtain ⟨absent, stored⟩ := (hc.occurs (hlast ▸ lastWord_suffix i h)).created rfl
    refine ⟨_, p, hlast, rfl, ⟨⟨c, u, underway⟩, absent, ?_⟩⟩
    rw [stored]
    exact Option.some_ne_none _
  · cases hy
  · cases hy

/-- A registration that asks for its write when the transaction is registered already. -/
theorem refused (hc : Chronicle .unreliable l₀ h) {p : List Moment} (hmp : m :: p <:+ h)
    (present : (ledgerAfter l₀ p).read id ≠ none) {value : Bytes} {y : Except Error CreateOutcome}
    (hm : m.move = .hears ⟨.ledger (.create id value), y⟩) {a : Except Error Unit}
    (returned : progress m.call h = .returned (.startVoting c id n d) v a) :
    a = .error (Refusal.alreadyRegistered id).error ∨
    (v.lost = c.retry.attempts ∧ a = .error (Refusal.contention .startVoting id).error) ∨
    ∃ e l q, e.kind ≠ .conflict ∧ a = .error e ∧
      lastWord m.call h = ⟨m.call, .hears ⟨.ledger (.create id value), .error e⟩, l⟩ :: q := by
  have seen : (progress m.call h).seen? = some (.startVoting c id n d, v) :=
    Progress.seen?_of_returned returned
  have last : m :: p <:+ lastWord m.call h := suffix_lastWord hmp (by rw [hm]; rfl)
  have occurs := hc.occurs hmp
  cases occurs with
  | begins | returns | isDropped => cases hm
  | hears i underway asks =>
    cases hm
    obtain ⟨v', hv'⟩ := hc.exists_seen_of_suffix ((List.suffix_cons _ p).trans hmp)
      (Progress.seen?_of_underway underway)
    rw [seen] at hv'
    cases hv'
    cases asks.create_of_isWrite rfl
    cases hc.ends returned with
    | objected objection =>
      cases asks with
      | register admitted => rw [admitted] at objection; cases objection
      | revise _ target => cases target
    | revised _ target => cases target
    | registered _ ends =>
      cases ends with
      | occupied => exact .inl rfl
      | exhausted lost => exact .inr (.inl ⟨congrArg View.lost lost, rfl⟩)
      | unwritten _ _ write kind =>
        obtain ⟨z, l, q, u, hlast, -, hz⟩ := hc.lastWord_create seen write
        obtain ⟨-, hy⟩ | ⟨-, hy⟩ | ⟨e, rfl, hy⟩ := View.of_see_create hz
        · cases hy
        · cases hy
        · cases hy
          exact .inr (.inr ⟨_, l, q, kind, rfl, hlast⟩)
      -- the write that succeeded was not before this one, and by then there was a value
      | created _ _ written =>
        obtain ⟨m', p', hlast, -, first⟩ := hc.registers_of_written seen written
        have hp' : Chronicle .unreliable l₀ p' :=
          hc.before (hlast ▸ lastWord_suffix _ h)
        rw [hlast] at last
        have hpp : p <:+ p' := by
          rcases List.suffix_cons_iff.1 last with he | hs
          · cases he
            exact List.suffix_refl p
          · exact (List.suffix_cons _ p).trans hs
        exact absurd first.absent (hp'.present_of_suffix hpp present)

/-- A registration that hears the answer to its write when the transaction is registered already has
    been denied. -/
theorem denied (hc : Chronicle .unreliable l₀ (m :: h)) (present : (ledgerAfter l₀ h).read id ≠ none)
    {value : Bytes} {x : CreateOutcome}
    (hm : m.move = .hears ⟨.ledger (.create id value), .ok x⟩)
    (underway : progress m.call (m :: h) = .underway (.startVoting c id n d) v) :
    v.write = some (.ok false) := by
  have occurs := hc.occurs (List.suffix_refl _)
  cases x with
  | created => exact absurd (occurs.created hm).1 present
  | occupied =>
    rw [progress_cons_self] at underway
    cases occurs with
    | begins | returns | isDropped => cases hm
    | hears i underway' asks =>
      cases hm
      rw [underway'] at underway
      cases underway
      rfl

end Chronicle
end

/-- The registration of `id` in step `m₀` after the steps `p₀`, with `n` cohorts and deadline `d`, is
    the only one in the steps `h`, which have led to the world `w`. -/
structure Prevails (l₀ : Ledger) (id : String) (n : Int32) (d : Int64) (h : List Moment) (w : World)
    (p₀ : List Moment) (m₀ : Moment) : Prop where
  /-- No other step of a registration changes the ledger. -/
  only : ∀ m p c n' d' v, m :: p <:+ h → m :: p ≠ m₀ :: p₀ →
    progress m.call p = .underway (.startVoting c id n' d') v → m.ledger = ledgerAfter l₀ p
  /-- A registration that hears the answer to its write later has nothing left but to say that there is
      one already. -/
  denied : ∀ m p c n' d' rest value x, h = m :: p → m₀ :: p₀ <:+ p →
    m.move = .hears ⟨.ledger (.create id value), .ok x⟩ →
    w.standing m.call = .underway (.startVoting c id n' d') rest →
    rest = .done (.error (Refusal.alreadyRegistered id).error)
  /-- So that is what it returns, unless it loses as often as it may, or the ledger fails otherwise. -/
  refused : ∀ m p c n' d' v a value y, m :: p <:+ h → m₀ :: p₀ <:+ p →
    m.move = .hears ⟨.ledger (.create id value), y⟩ →
    progress m.call h = .returned (.startVoting c id n' d') v a →
    a = .error (Refusal.alreadyRegistered id).error ∨
    (v.lost = c.retry.attempts ∧ a = .error (Refusal.contention .startVoting id).error) ∨
    ∃ e l q, e.kind ≠ .conflict ∧ a = .error e ∧
      lastWord m.call h = ⟨m.call, .hears ⟨.ledger (.create id value), .error e⟩, l⟩ :: q
  /-- The number of cohorts and the deadline stay. -/
  lasts : ∀ s, m₀ :: p₀ <:+ s → s <:+ h →
    ∃ r, (ledgerAfter l₀ s).record? id = some r ∧ r.cohortCount = n.toUInt32 ∧ r.deadline = d

/-- At most one registration of a transaction succeeds, and one that does has made it in one of its
    steps. From the step on in which a transaction is registered no other registration changes the
    ledger, each that comes too late is refused, and the number of cohorts and the deadline stay. -/
theorem first_registration {l₀ : Ledger} {h : List Moment} {w : World} (run : Run .unreliable l₀ h w)
    (id : String) :
    (∀ i j c c' n n' d d' v v',
      progress i h = .returned (.startVoting c id n d) v (.ok ()) →
      progress j h = .returned (.startVoting c' id n' d') v' (.ok ()) → i = j) ∧
    (∀ i c n d v, progress i h = .returned (.startVoting c id n d) v (.ok ()) →
      ∃ m p, m.call = i ∧ m :: p <:+ h ∧ Registers l₀ id n d p m) ∧
    ∀ n d m p, m :: p <:+ h → Registers l₀ id n d p m → Prevails l₀ id n d h w p m := by
  obtain ⟨hc, hs⟩ := run.chronicle
  have registers : ∀ i c n d v, progress i h = .returned (.startVoting c id n d) v (.ok ()) →
      ∃ m p, m.call = i ∧ m :: p <:+ h ∧ Registers l₀ id n d p m := by
    intro i c n d v returned
    cases hc.ends returned with
    | revised _ target => cases target
    | registered _ ends =>
      cases ends with
      | created _ _ written =>
        obtain ⟨m, p, hlast, call, first⟩ := hc.registers_of_written (by rw [returned]; rfl) written
        exact ⟨m, p, call, hlast ▸ lastWord_suffix i h, first⟩
  refine ⟨?_, registers, ?_⟩
  · intro i j c c' n n' d d' v v' hi hj
    obtain ⟨m, p, rfl, hmp, first⟩ := registers _ _ _ _ _ hi
    obtain ⟨m', p', rfl, hmp', first'⟩ := registers _ _ _ _ _ hj
    obtain ⟨rfl, -⟩ := List.cons.inj (first.unique hc hmp hmp' first')
    rfl
  · intro n d m₀ p₀ hp₀ first
    constructor
    case only =>
      intro m p c n' d' v hmp hne underway
      rcases (hc.occurs hmp).ledger_of_registration underway with same | second
      · exact same
      · exact absurd (second.unique hc hmp hp₀ first) hne
    case denied =>
      intro m p c n' d' rest value x hh hp hm standing
      subst hh
      have present : (ledgerAfter l₀ p).read id ≠ none :=
        (hc.before (List.suffix_refl _)).present_of_suffix hp first.stored
      obtain ⟨v, underway, obeys⟩ := (hs m.call).of_underway standing
      have denied : v.write = some (.ok false) := hc.denied present hm underway
      cases rest with
      | done a => rw [Command.Ends.of_denied obeys denied]
      | ask r next => exact absurd denied (Command.Asks.ne_denied obeys.1)
    case refused =>
      intro m p c n' d' v a value y hmp hp hm returned
      have past : Chronicle .unreliable l₀ p := hc.before hmp
      exact hc.refused hmp (past.present_of_suffix hp first.stored) hm returned
    case lasts =>
      intro s hs hsh
      obtain ⟨r, hr, tallied⟩ := (hc.suffix hsh).tallied hs first
      exact ⟨r, hr, tallied.cohortCount, tallied.deadline⟩

/-- Of two registrations the one that writes first succeeds, and its deadline stands. -/
theorem first_registration_of_two : ∃ h w v r, Run .unreliable .empty h w ∧
    progress 0 h = .returned (.startVoting ⟨.standard⟩ "a" 1 10) v (.ok ()) ∧
    (∀ j c n d v, progress j h = .returned (.startVoting c "a" n d) v (.ok ()) → 0 = j) ∧
    (ledgerAfter .empty h).record? "a" = some r ∧ r.cohortCount = 1 ∧ r.deadline = 10 := by
  obtain ⟨h, w, v, run, returned⟩ : ∃ h w v, Run .unreliable .empty h w ∧
      progress 0 h = .returned (.startVoting ⟨.standard⟩ "a" 1 10) v (.ok ()) := by
    refine ⟨_, _, _, .step (.step (.step (.step (.step (.step (.step .start
      (.begins 0 (.startVoting ⟨.standard⟩ "a" 1 10) rfl))
      (.begins 1 (.startVoting ⟨.standard⟩ "a" 2 20) rfl))
      (.hears 0 rfl (.faithful (.carriedOut (.create "a" _)))))
      (.hears 1 rfl (.faithful (.carriedOut (.create "a" _)))))
      (.hears 0 rfl (.faithful (.log _))))
      (.returns 0 rfl))
      (.returns 1 rfl), rfl⟩
  obtain ⟨unique, registers, prevails⟩ := first_registration run "a"
  obtain ⟨m, p, -, hmp, first⟩ := registers 0 _ _ _ _ returned
  obtain ⟨r, hr, hcount, hdeadline⟩ := (prevails _ _ m p hmp first).lasts h hmp (List.suffix_refl h)
  exact ⟨h, w, v, r, run, returned, fun j c n d v hj => unique 0 j _ _ _ _ _ _ _ _ returned hj, hr,
    hcount, hdeadline⟩

end TwoPhaseCommit
