import TwoPhaseCommit.Proofs.Run.Faithful

/- Linearizability. On a faithful ledger the calls on a registered transaction take effect one at a
   time (`linearizable`): there is a step of its own for each call that has an effect, at which it can
   be taken to be carried out at once. It is the last exchange of the call with the ledger, which is
   the swap that it was granted, or its last read if it has returned without writing. The stored form
   of a record is what a swap compares, and equal forms are equal records, so a record that is there
   again after others is as good as one that has not changed. -/
namespace TwoPhaseCommit

/-- The steps `h` on the record of `id`, which is `r₀` at first, are what comes of carrying out calls
    at once: call `i` at the last of the steps `point i`, on the record that is `state s` after the
    steps `s`. -/
structure Linearizes (l₀ : Ledger) (id : String) (r₀ : Record) (h : List Moment)
    (point : Nat → Option (List Moment)) (state : List Moment → Record) : Prop where
  start : state [] = r₀
  stored : ∀ s, s <:+ h → (ledgerAfter l₀ s).read id = some (state s).toBytes
  /-- A call takes effect with its last word to the ledger, while it is under way: a swap that it is
      granted, or a read if it returns without writing. -/
  own : ∀ i s, point i = some s → s = lastWord i h ∧ ∃ m p o u, s = m :: p ∧ m.call = i ∧
    progress i p = .underway o u ∧ o.target = some id ∧
    ((∃ bytes new, m.move = .hears ⟨.ledger (.swap id bytes new), .ok .swapped⟩) ∨
      (∃ bytes, m.move = .hears ⟨.ledger (.read id), .ok (some bytes)⟩) ∧
        ∃ v a, progress i h = .returned o v a)
  /-- The record and the answer are those of the command carried out at once, at the second that the
      call saw in that attempt. -/
  effect : ∀ i m p, point i = some (m :: p) → ∃ o v t, (progress i h).seen? = some (o, v) ∧
    v.now = some t ∧ state (m :: p) = (o.atOnce (state p) t).2 ∧
    ∀ v' a, progress i h = .returned o v' a → a = (o.atOnce (state p) t).1
  idle : ∀ m p, m :: p <:+ h → point m.call ≠ some (m :: p) → state (m :: p) = state p
  /-- A swap that is granted takes effect. -/
  swapped : ∀ m p bytes new, m :: p <:+ h →
    m.move = .hears ⟨.ledger (.swap id bytes new), .ok .swapped⟩ → point m.call = some (m :: p)
  /-- A call that returns without effect has been refused by its arguments, or has given up. -/
  returned : ∀ i o v a, progress i h = .returned o v a → o.target = some id →
    (point i = none ↔ (∃ f, o.objection = some f ∧ a = .error f.error) ∨
      ∃ activity, a = .error (Refusal.contention activity id).error)

/-! ## The points -/

/-- Whether a call has stored something. -/
def View.hasStored (v : View) : Bool :=
  match v.write with
  | some (.ok b) => b
  | _ => false

theorem View.hasStored_iff (v : View) : v.hasStored = true ↔ v.write = some (.ok true) := by
  rw [hasStored]
  split
  · next hb => simp [hb]
  · next hb => simpa using hb true

/-- Whether a call has taken effect: it has stored something, or has returned what it read. -/
def Progress.hasEffect : Progress → Bool
  | .unmade => false
  | .underway _ v | .dropped _ v => v.hasStored
  | .returned _ v _ => v.hasStored || v.read.isSome

theorem Progress.hasEffect_iff {p : Progress} {o : Command} {v : View} (seen : p.seen? = some (o, v)) :
    p.hasEffect = true ↔
      v.write = some (.ok true) ∨ ∃ a, p = .returned o v a ∧ v.read ≠ none := by
  cases p with
  | unmade => cases seen
  | underway | dropped =>
    cases seen
    rw [hasEffect, View.hasStored_iff]
    constructor
    · intro hw
      exact .inl hw
    · intro heffect
      obtain hw | ⟨a, hp, -⟩ := heffect
      · exact hw
      · cases hp
  | returned =>
    cases seen
    rw [hasEffect, Bool.or_eq_true, View.hasStored_iff, Option.isSome_iff_ne_none]
    constructor
    · intro heffect
      exact heffect.imp id fun hr => ⟨_, rfl, hr⟩
    · intro heffect
      exact heffect.imp id fun ⟨_, _, hr⟩ => hr

/-- The steps up to the one at which call `i` takes effect on the record of `id`, if it does. -/
def pointOf (id : String) (h : List Moment) (i : Nat) : Option (List Moment) :=
  match (progress i h).seen? with
  | some (o, _) =>
    if o.target = some id ∧ (progress i h).hasEffect = true then some (lastWord i h) else none
  | none => none

/-- The record of `id` after the steps `s`. -/
def recordAfter (l₀ : Ledger) (id : String) (r₀ : Record) (s : List Moment) : Record :=
  ((ledgerAfter l₀ s).record? id).getD r₀

theorem recordAfter_of_record? {l₀ : Ledger} {id : String} {r₀ r : Record} {s : List Moment}
    (h : (ledgerAfter l₀ s).record? id = some r) : recordAfter l₀ id r₀ s = r := by
  rw [recordAfter, h, Option.getD_some]

section
variable {h s : List Moment} {i : Nat} {o : Command} {v : View} {id : String}

theorem pointOf_eq_some_iff : pointOf id h i = some s ↔
    ∃ o v, (progress i h).seen? = some (o, v) ∧ o.target = some id ∧
      (progress i h).hasEffect = true ∧ s = lastWord i h := by
  rw [pointOf]
  split
  · next o v hseen =>
    rw [hseen]
    constructor
    · intro hs
      split at hs
      · next hc => exact ⟨o, v, rfl, hc.1, hc.2, (Option.some.inj hs).symm⟩
      · cases hs
    · intro hs
      obtain ⟨o', v', he, target, effect, rfl⟩ := hs
      cases he
      exact if_pos ⟨target, effect⟩
  · next hseen =>
    rw [hseen]
    constructor
    · nofun
    · intro hs
      obtain ⟨o', v', he, -⟩ := hs
      cases he

theorem pointOf_of_seen (seen : (progress i h).seen? = some (o, v)) (target : o.target = some id) :
    pointOf id h i = none ↔ (progress i h).hasEffect = false := by
  rw [pointOf, seen]
  simp [target]

end

/-! ## The calls take effect at their points -/

/-- What is said of the step `m` after the steps `p` as the point of call `i`, which carries out `o`
    and has seen `v` in the end: that it is a step of its own on the ledger, that the record changes
    there as if `o` were carried out at once, and that `o` is answered so. -/
structure IsPoint (l₀ : Ledger) (id : String) (r₀ : Record) (h : List Moment) (i : Nat) (o : Command)
    (v : View) (m : Moment) (p : List Moment) : Prop where
  last : lastWord i h = m :: p
  underway : ∃ u, progress i p = .underway o u
  move : (∃ bytes new, m.move = .hears ⟨.ledger (.swap id bytes new), .ok .swapped⟩) ∨
    (∃ bytes, m.move = .hears ⟨.ledger (.read id), .ok (some bytes)⟩) ∧
      ∃ v a, progress i h = .returned o v a
  atOnce : ∃ t, v.now = some t ∧
    recordAfter l₀ id r₀ (m :: p) = (o.atOnce (recordAfter l₀ id r₀ p) t).2 ∧
    ∀ a, progress i h = .returned o v a → a = (o.atOnce (recordAfter l₀ id r₀ p) t).1

namespace Chronicle
variable {l₀ : Ledger} {h p : List Moment} {m : Moment} {i : Nat} {o : Command} {v : View}
  {id : String} {r₀ : Record}

/-- A call that has stored something did so at its point. -/
theorem isPoint_of_stored (hc : Chronicle .faithful l₀ h) (registered : l₀.read id = some r₀.toBytes)
    (seen : (progress i h).seen? = some (o, v)) (target : o.target = some id)
    (written : v.write = some (.ok true)) : ∃ m p, IsPoint l₀ id r₀ h i o v m p := by
  obtain ⟨m, p, u, bytes, r, t, a, r', hlast, hm, underway, holds, changes, hread, hread'⟩ :=
    hc.unreliable.write_point seen target written
  have hr : recordAfter l₀ id r₀ p = r :=
    recordAfter_of_record? (Ledger.record?_of_read hread holds.record)
  have hr' : recordAfter l₀ id r₀ (m :: p) = r' :=
    recordAfter_of_record? (Ledger.record?_of_toBytes hread')
  refine ⟨m, p, hlast, ⟨u, underway⟩, .inl ⟨bytes, _, hm⟩, t, holds.now, ?_, ?_⟩
  · rw [hr, hr', Command.atOnce_of_ok changes]
  · intro a' returned
    rw [hr]
    cases hc.ending registered returned target with
    | objected _ fresh | exhausted _ _ fresh => rw [fresh] at written; cases written
    | unchanged _ _ unwritten => rw [unwritten] at written; cases written
    | stored _ holds' =>
      obtain ⟨-, rfl, rfl⟩ := holds.unique holds'
      rfl

/-- A call that has returned what it read and stored nothing is as one carried out at once then. -/
theorem isPoint_of_read (hc : Chronicle .faithful l₀ h) (registered : l₀.read id = some r₀.toBytes)
    (target : o.target = some id) {a : Except Error o.Answer}
    (returned : progress i h = .returned o v a) (read : v.read ≠ none)
    (unstored : v.write ≠ some (.ok true)) : ∃ m p, IsPoint l₀ id r₀ h i o v m p := by
  have seen : (progress i h).seen? = some (o, v) := Progress.seen?_of_returned returned
  cases hc.ending registered returned target with
  | objected _ fresh | exhausted _ _ fresh => rw [fresh] at read; exact absurd rfl read
  | stored _ _ written => exact absurd written unstored
  | @unchanged bytes r t _ holds unwritten same =>
    obtain ⟨m, p, u, hlast, hm, underway, hread, hl⟩ :=
      hc.unreliable.read_point seen target holds unwritten
    have hr : recordAfter l₀ id r₀ p = r :=
      recordAfter_of_record? (Ledger.record?_of_read hread holds.record)
    have hr' : recordAfter l₀ id r₀ (m :: p) = r := by
      refine recordAfter_of_record? (Ledger.record?_of_read ?_ holds.record)
      rw [ledgerAfter, hl]
      exact hread
    refine ⟨m, p, hlast, ⟨u, underway⟩, .inr ⟨⟨bytes, hm⟩, v, _, returned⟩, t, holds.now, ?_, ?_⟩
    · rw [hr, hr', same]
    · intro a' returned'
      rw [returned] at returned'
      cases returned'
      rw [hr]

theorem isPoint (hc : Chronicle .faithful l₀ h) (registered : l₀.read id = some r₀.toBytes)
    {s : List Moment} (hs : pointOf id h i = some s) :
    ∃ o v m p, (progress i h).seen? = some (o, v) ∧ o.target = some id ∧ s = m :: p ∧
      IsPoint l₀ id r₀ h i o v m p := by
  obtain ⟨o, v, seen, target, effect, rfl⟩ := pointOf_eq_some_iff.1 hs
  by_cases written : v.write = some (.ok true)
  · obtain ⟨m, p, hp⟩ := hc.isPoint_of_stored registered seen target written
    exact ⟨o, v, m, p, seen, target, hp.last, hp⟩
  · obtain ⟨a, returned, read⟩ := ((Progress.hasEffect_iff seen).1 effect).resolve_left written
    obtain ⟨m, p, hp⟩ := hc.isPoint_of_read registered target returned read written
    exact ⟨o, v, m, p, seen, target, hp.last, hp⟩

/-- A swap that is granted is the point of its call. -/
theorem pointOf_of_swapped (hc : Chronicle .faithful l₀ h) (hmp : m :: p <:+ h) {bytes new : Bytes}
    (hm : m.move = .hears ⟨.ledger (.swap id bytes new), .ok .swapped⟩) :
    pointOf id h m.call = some (m :: p) := by
  have occurs := hc.occurs hmp
  obtain ⟨i, move, l⟩ := m
  cases hm
  cases occurs with
  | @hears _ o u _ _ underway asks answered =>
    have target : o.target = some id := asks.target_of_swap
    have seen : (progress i (⟨i, .hears ⟨.ledger (.swap id bytes new), .ok .swapped⟩, l⟩ :: p)).seen? =
        some (o, { u with write := some (.ok true) }) := by
      rw [progress_cons_self ⟨i, _, _⟩, underway]
      rfl
    obtain ⟨seen', hlast⟩ := hc.lastWord_of_written hmp seen rfl
    have effect : (progress i h).hasEffect = true := (Progress.hasEffect_iff seen').2 (.inl rfl)
    refine pointOf_eq_some_iff.2 ⟨o, _, seen', target, effect, ?_⟩
    rw [hlast]
    exact (lastWord_cons_self (m := ⟨i, _, l⟩) rfl p).symm

/-- A step that is no point leaves the record. -/
theorem recordAfter_of_idle (hc : Chronicle .faithful l₀ h)
    (registered : l₀.read id = some r₀.toBytes) (hmp : m :: p <:+ h)
    (idle : pointOf id h m.call ≠ some (m :: p)) :
    recordAfter l₀ id r₀ (m :: p) = recordAfter l₀ id r₀ p := by
  have hcp : Chronicle .faithful l₀ p := hc.before hmp
  obtain ⟨r, hr⟩ := hcp.unreliable.stored_toBytes registered
  by_cases same : m.ledger.read id = some r.toBytes
  · have hr' : recordAfter l₀ id r₀ (m :: p) = r :=
      recordAfter_of_record? (Ledger.record?_of_toBytes same)
    rw [hr', recordAfter_of_record? (Ledger.record?_of_toBytes hr)]
  · -- only a swap that is granted changes the record, and that is a point
    obtain ⟨bytes, new, hm⟩ := (hc.occurs hmp).swapped_of_ne hr same
    exact absurd (hc.pointOf_of_swapped hmp hm) idle

theorem pointOf_eq_none_iff (hc : Chronicle .faithful l₀ h)
    (registered : l₀.read id = some r₀.toBytes) {a : Except Error o.Answer}
    (returned : progress i h = .returned o v a) (target : o.target = some id) :
    pointOf id h i = none ↔ (∃ f, o.objection = some f ∧ a = .error f.error) ∨
      ∃ activity, a = .error (Refusal.contention activity id).error := by
  have seen : (progress i h).seen? = some (o, v) := Progress.seen?_of_returned returned
  rw [pointOf_of_seen seen target, returned]
  cases hc.ending registered returned target with
  | objected objection fresh => exact iff_of_true (by rw [fresh]; rfl) (.inl ⟨_, objection, rfl⟩)
  | exhausted activity _ fresh => exact iff_of_true (by rw [fresh]; rfl) (.inr ⟨activity, rfl⟩)
  | unchanged admitted holds =>
    refine iff_of_false ?_ (Command.atOnce_not_refused target admitted)
    rw [Progress.hasEffect, holds.read]
    simp
  | stored admitted _ written =>
    refine iff_of_false ?_ (Command.atOnce_not_refused target admitted)
    rw [Progress.hasEffect, View.hasStored, written]
    simp

end Chronicle

/-- On a faithful ledger the calls on a registered transaction take effect one at a time, each at a
    step of its own. -/
theorem linearizable {l₀ : Ledger} {h : List Moment} {w : World} (run : Run .faithful l₀ h w)
    {id : String} {r₀ : Record} (registered : l₀.read id = some r₀.toBytes) :
    ∃ point state, Linearizes l₀ id r₀ h point state := by
  have hc : Chronicle .faithful l₀ h := run.chronicle.1
  refine ⟨pointOf id h, recordAfter l₀ id r₀, ?_⟩
  constructor
  case start => exact recordAfter_of_record? (Ledger.record?_of_toBytes registered)
  case stored =>
    intro s hs
    obtain ⟨r, hr⟩ := (hc.suffix hs).unreliable.stored_toBytes registered
    rw [recordAfter_of_record? (Ledger.record?_of_toBytes hr)]
    exact hr
  case own =>
    intro i s hs
    obtain ⟨o, v, m, p, -, target, rfl, hp⟩ := hc.isPoint registered hs
    obtain ⟨u, underway⟩ := hp.underway
    exact ⟨hp.last.symm, m, p, o, u, rfl, call_of_lastWord hp.last, underway, target, hp.move⟩
  case effect =>
    intro i m p hs
    obtain ⟨o, v, m', p', seen, -, he, hp⟩ := hc.isPoint registered hs
    cases he
    obtain ⟨t, now, state, answer⟩ := hp.atOnce
    refine ⟨o, v, t, seen, now, state, ?_⟩
    intro v' a returned
    rw [returned] at seen
    cases seen
    exact answer a returned
  case idle =>
    intro m p hmp idle
    exact hc.recordAfter_of_idle registered hmp idle
  case swapped =>
    intro m p bytes new hmp hm
    exact hc.pointOf_of_swapped hmp hm
  case returned =>
    intro i o v a returned target
    exact hc.pointOf_eq_none_iff registered returned target

/-- A ledger with a transaction of two cohorts, on which nobody has voted. -/
def awaiting : Ledger := Ledger.empty.put "a" (Record.new 2 10).toBytes

/-- Two votes read the same record, and the one that loses reads again: both are counted. -/
theorem linearizable_votes : ∃ h w point state, Run .faithful awaiting h w ∧
    Linearizes awaiting "a" (Record.new 2 10) h point state ∧
    (∃ s, point 0 = some s) ∧ (∃ s, point 1 = some s) ∧
    state h = ((Record.new 2 10).mark 0 .commit).mark 1 .abort := by
  obtain ⟨h, w, run, told₀, told₁, stored⟩ : ∃ h w, Run .faithful awaiting h w ∧
      (∃ v, progress 0 h = .returned (.vote ⟨.standard⟩ "a" 0 .commit) v (.ok .counted)) ∧
      (∃ v, progress 1 h = .returned (.vote ⟨.standard⟩ "a" 1 .abort) v (.ok .counted)) ∧
      (ledgerAfter awaiting h).read "a" =
        some (((Record.new 2 10).mark 0 .commit).mark 1 .abort).toBytes := by
    refine ⟨_, _, .step (.step (.step (.step (.step (.step (.step (.step (.step (.step (.step (.step
      (.step (.step (.step (.step (.step .start
      (.begins 0 (.vote ⟨.standard⟩ "a" 0 .commit) rfl))
      (.begins 1 (.vote ⟨.standard⟩ "a" 1 .abort) rfl))
      (.hears 0 rfl (.carriedOut (.read "a"))))
      (.hears 1 rfl (.carriedOut (.read "a"))))
      (.hears 0 rfl (.now 5)))
      (.hears 1 rfl (.now 4)))
      (.hears 0 rfl (.carriedOut (.swap "a" _ _))))
      (.hears 1 rfl (.carriedOut (.swap "a" _ _))))
      (.hears 1 rfl (.log _)))
      (.hears 1 rfl (.pause _)))
      (.hears 1 rfl (.carriedOut (.read "a"))))
      (.hears 1 rfl (.now 6)))
      (.hears 1 rfl (.carriedOut (.swap "a" _ _))))
      (.hears 1 rfl (.log _)))
      (.returns 1 rfl))
      (.hears 0 rfl (.log _)))
      (.returns 0 rfl), ⟨_, rfl⟩, ⟨_, rfl⟩, rfl⟩
  have registered : awaiting.read "a" = some (Record.new 2 10).toBytes := rfl
  obtain ⟨point, state, lin⟩ := linearizable run registered
  -- a call that returns a count has neither been refused nor given up
  have counted : ∀ i k b, (∃ v, progress i h = .returned (.vote ⟨.standard⟩ "a" k b) v (.ok .counted)) →
      ∃ s, point i = some s := by
    intro i k b told
    obtain ⟨v, returned⟩ := told
    cases hp : point i with
    | some s => exact ⟨s, rfl⟩
    | none =>
      rcases (lin.returned i _ v _ returned rfl).1 hp with ⟨f, -, he⟩ | ⟨activity, he⟩ <;> cases he
  have hstate : (state h).toBytes = (((Record.new 2 10).mark 0 .commit).mark 1 .abort).toBytes :=
    Option.some.inj ((lin.stored h (List.suffix_refl h)).symm.trans stored)
  exact ⟨h, w, point, state, run, lin, counted 0 _ _ told₀, counted 1 _ _ told₁,
    Record.toBytes_inj.1 hstate⟩

end TwoPhaseCommit
