import TwoPhaseCommit.Proofs.Run.LastWord

/- Agreement. On an unreliable ledger, with clocks that tell anything, all calls that tell a final
   decision on a transaction tell the same one, which is the one in the stored record, and from then
   on nobody is told anything else (`agreement`). What carries this is that a final decision stays in
   a record under every change (`Command.frozen_of_change`), so it stays in the ledger under every
   step (`Occurs.frozen?`), and that a call does not tell a final decision before it has seen it
   stored. Nothing keeps a later call from being told it (`Run.exists_tells`). -/
namespace TwoPhaseCommit

/-- A step leaves a decision that is final. -/
theorem Occurs.frozen? {l₀ : Ledger} {h : List Moment} {m : Moment} {id : String} {d : Decision}
    (occurs : Occurs .unreliable l₀ h m) (frozen : (ledgerAfter l₀ h).frozen? id = some d) :
    m.ledger.frozen? id = some d := by
  cases hr : (ledgerAfter l₀ h).record? id with
  | none => rw [Ledger.frozen?, hr] at frozen; cases frozen
  | some r =>
    rcases occurs.record?_cases hr with same | ⟨-, o, v, bytes, t, a, r', -, target, -, changes, hr'⟩
    · rw [Ledger.frozen?, Ledger.record?_congr same]
      exact frozen
    · rw [Ledger.frozen?_of_record? hr] at frozen
      rw [Ledger.frozen?_of_record? hr']
      exact Command.frozen_of_change target changes frozen

namespace Chronicle
variable {l₀ : Ledger} {h s : List Moment} {id : String} {d : Decision} {i : Nat}

/-- A final decision is final from then on. -/
theorem frozen?_of_suffix (hc : Chronicle .unreliable l₀ h) (hs : s <:+ h)
    (frozen : (ledgerAfter l₀ s).frozen? id = some d) : (ledgerAfter l₀ h).frozen? id = some d := by
  induction hc with
  | nil => rw [← List.suffix_nil.1 hs]; exact frozen
  | cons past next ih =>
    rcases List.suffix_cons_iff.1 hs with rfl | hs
    · exact frozen
    · exact next.frozen? (ih hs)

/-- A command that changes the record of `id` and succeeds answers as the change of a record that was
    stored at its last exchange with the ledger, and leaves the changed record there. -/
theorem stored_of_returned (hc : Chronicle .unreliable l₀ h) {o : Command} {v : View} {a : o.Answer}
    (returned : progress i h = .returned o v (.ok a)) (target : o.target = some id) :
    ∃ m p u r t r', lastWord i h = m :: p ∧ progress i p = .underway o u ∧
      o.change r t = .ok (a, r') ∧ (ledgerAfter l₀ p).record? id = some r ∧
      m.ledger.record? id = some r' := by
  have seen : (progress i h).seen? = some (o, v) := Progress.seen?_of_returned returned
  obtain ⟨bytes, r, t, r', holds, changes, ⟨unwritten, same⟩ | written⟩ :=
    (hc.ends returned).of_ok target
  -- nothing was written: the record that was read is the changed one already
  · obtain ⟨m, p, u, hlast, -, underway, hread, hl⟩ := hc.read_point seen target holds unwritten
    have hread' : m.ledger.read id = some r'.toBytes := by rw [hl, same]; exact hread
    exact ⟨m, p, u, r, t, r', hlast, underway, changes, Ledger.record?_of_read hread holds.record,
      Ledger.record?_of_toBytes hread'⟩
  -- the swap was granted: it was made from what the call has still in view
  · obtain ⟨m, p, u, bytes', q, t', a', q', hlast, -, underway, holds', changes', hread, hread'⟩ :=
      hc.write_point seen target written
    obtain ⟨-, rfl, rfl⟩ := holds'.unique holds
    rw [changes] at changes'
    cases changes'
    exact ⟨m, p, u, q, t', r', hlast, underway, changes, Ledger.record?_of_read hread holds'.record,
      Ledger.record?_of_toBytes hread'⟩

end Chronicle

/-- Call `i` has told, in the steps `h`, that the decision on `id` is `d`. -/
def Tells (h : List Moment) (i : Nat) (id : String) (d : Decision) : Prop :=
  ∃ c v, progress i h = .returned (.decision c id) v (.ok d)

namespace Chronicle
variable {l₀ : Ledger} {h s : List Moment} {id : String} {d : Decision} {i : Nat}

theorem frozen?_of_tells (hc : Chronicle .unreliable l₀ h) (told : Tells h i id d)
    (terminal : d.isTerminal = true) : (ledgerAfter l₀ h).frozen? id = some d := by
  obtain ⟨c, v, returned⟩ := told
  obtain ⟨m, p, u, r, t, r', hlast, -, changes, -, hr'⟩ := hc.stored_of_returned returned rfl
  obtain ⟨rfl, rfl⟩ := Prod.mk.inj (Except.ok.inj changes)
  refine hc.frozen?_of_suffix (s := m :: p) (hlast ▸ lastWord_suffix i h) ?_
  rw [ledgerAfter, Ledger.frozen?_of_record? hr']
  exact ((r.settled t).frozen_iff _).2 ⟨rfl, terminal⟩

/-- Who asks after a decision has become final is told that decision. -/
theorem eq_of_tells (hc : Chronicle .unreliable l₀ h) (hs : s <:+ h)
    (frozen : (ledgerAfter l₀ s).frozen? id = some d) (unmade : progress i s = .unmade)
    {d' : Decision} (told : Tells h i id d') : d' = d := by
  obtain ⟨c, v, returned⟩ := told
  obtain ⟨m, p, u, r, t, r', hlast, underway, changes, -, hr'⟩ := hc.stored_of_returned returned rfl
  obtain ⟨rfl, rfl⟩ := Prod.mk.inj (Except.ok.inj changes)
  have hmp : m :: p <:+ h := hlast ▸ lastWord_suffix i h
  rcases List.suffix_or_suffix_of_suffix hmp hs with hms | hsm
  -- the last exchange of the call is later than `s`, where the call had not begun
  · have hp : progress i p = .unmade :=
      progress_unmade_of_suffix ((List.suffix_cons m p).trans hms) unmade
    rw [underway] at hp
    cases hp
  · have hf := (hc.suffix hmp).frozen?_of_suffix hsm frozen
    rw [ledgerAfter, Ledger.frozen?_of_record? hr'] at hf
    exact (((r.settled t).frozen_iff d).1 hf).1

end Chronicle

/-- Once a call has told a final decision on a transaction, that decision is final in the stored
    record and stays so. Every call that tells a final decision on the transaction tells this one, and
    a call that begins after that tells nothing else. -/
theorem agreement {l₀ : Ledger} {h : List Moment} {w : World} (run : Run .unreliable l₀ h w)
    {s : List Moment} (hs : s <:+ h) {i : Nat} {id : String} {d : Decision} (told : Tells s i id d)
    (terminal : d.isTerminal = true) :
    (∀ s', s <:+ s' → s' <:+ h → (ledgerAfter l₀ s').frozen? id = some d) ∧
    (∀ j d', Tells h j id d' → d'.isTerminal = true → d' = d) ∧
    ∀ j d', Tells h j id d' → progress j s = .unmade → d' = d := by
  have hc : Chronicle .unreliable l₀ h := run.chronicle.1
  have frozen : (ledgerAfter l₀ s).frozen? id = some d := (hc.suffix hs).frozen?_of_tells told terminal
  refine ⟨?_, ?_, ?_⟩
  · intro s' hss hs'
    exact (hc.suffix hs').frozen?_of_suffix hss frozen
  · intro j d' told' terminal'
    have hd : (ledgerAfter l₀ h).frozen? id = some d := hc.frozen?_of_suffix hs frozen
    have hd' : (ledgerAfter l₀ h).frozen? id = some d' := hc.frozen?_of_tells told' terminal'
    exact Option.some.inj (hd' ▸ hd)
  · intro j d' told' unmade
    exact hc.eq_of_tells hs frozen unmade told'

/-! ## Later calls -/

/-- A call that asks for the decision and reads a record in which one is final samples the clock and
    tells that one, whatever the clock says. -/
theorem Coordinator.decision_of_frozen (c : Coordinator) {id : String} (hid : id ≠ "") :
    ∃ next, c.decision id = .ask (.ledger (.read id)) next ∧
      ∀ (r : Record) (d : Decision), r.frozen = some d → ∃ next',
        next (.ok (some r.toBytes)) = .ask .now next' ∧
        ∀ t, next' t = .ask (.log (.decided id d)) fun _ => .done (.ok d) := by
  obtain ⟨n, hn⟩ := Nat.exists_eq_add_of_le' c.retry.attempts_pos
  rw [decision, if_neg hid, update, hn, revise]
  refine ⟨_, rfl, fun r d frozen => ?_⟩
  simp only [Call.pure_eq, Call.bind, Record.ofBytes_toBytes, Record.settle_of_frozen frozen, if_true]
  exact ⟨_, rfl, fun _ => rfl⟩

/-- Where a final decision is stored, a call that has not begun can go on to be told it. -/
theorem Run.exists_tells {l₀ : Ledger} {s : List Moment} {w : World} (run : Run .unreliable l₀ s w)
    {i : Nat} (unmade : w.standing i = .unmade) {id : String} (hid : id ≠ "") {r : Record}
    {d : Decision} (stored : w.ledger.read id = some r.toBytes) (frozen : r.frozen = some d)
    (c : Coordinator) (t : Int64) : ∃ h w', Run .unreliable l₀ h w' ∧ s <:+ h ∧ Tells h i id d := by
  obtain ⟨next, hcall, hread⟩ := c.decision_of_frozen hid
  obtain ⟨next', hnow, hlog⟩ := hread r d frozen
  have standing (w : World) (l : Ledger) {rest rest' : Call (Except Error Decision)}
      (h : rest = rest') : (w.turn i (.underway (.decision c id) rest) l).standing i =
        .underway (.decision c id) rest' := by
    rw [h]
    exact if_pos rfl
  have read : Unreliable w.ledger ⟨.ledger (.read id), .ok (some r.toBytes)⟩ w.ledger := by
    rw [← stored]
    exact .faithful (.carriedOut (.read id))
  -- the call is alone on its way, and none of its steps changes the ledger
  have begins := run.step (.begins i (.decision c id) unmade)
  have reads := begins.step (.hears i (standing _ _ hcall) read)
  have samples := reads.step (.hears i (standing _ _ hnow) (.faithful (.now t)))
  have logs := samples.step (.hears i (standing _ _ (hlog t)) (.faithful (.log _)))
  have returns := logs.step (.returns i (standing _ _ rfl))
  have hprogress : progress i s = .unmade := (run.chronicle.2 i).of_unmade unmade
  refine ⟨_, _, returns, ⟨[_, _, _, _, _], rfl⟩, c, ?view, ?told⟩
  case told =>
    simp only [progress, if_true, hprogress, Progress.after]
    rfl

/-- A ledger with a transaction on which nobody has voted, and may vote until second 0. -/
def expired : Ledger := Ledger.empty.put "a" (Record.new 1 0).toBytes

/-- A call that asks for the decision after the deadline makes the timeout final and tells it. Another
    that begins after that is told it too, though by its clock the deadline is still to come. -/
theorem agreement_after_deadline : ∃ s h w, Run .unreliable expired h w ∧ s <:+ h ∧
    Tells s 0 "a" Outcome.timedOut.decision ∧ progress 1 s = .unmade ∧
    Tells h 1 "a" Outcome.timedOut.decision ∧
    (∀ i d, Tells h i "a" d → d.isTerminal = true → d = Outcome.timedOut.decision) ∧
    (∀ d, Tells h 1 "a" d → d = Outcome.timedOut.decision) ∧
    (ledgerAfter expired h).frozen? "a" = some Outcome.timedOut.decision := by
  obtain ⟨s, w, run, told, unmade, stored⟩ : ∃ s w, Run .unreliable expired s w ∧
      Tells s 0 "a" Outcome.timedOut.decision ∧ w.standing 1 = .unmade ∧
      w.ledger.read "a" = some ((Record.new 1 0).freeze .timedOut).toBytes := by
    refine ⟨_, _, .step (.step (.step (.step (.step (.step .start
      (.begins 0 (.decision ⟨.standard⟩ "a") rfl))
      (.hears 0 rfl (.faithful (.carriedOut (.read "a")))))
      (.hears 0 rfl (.faithful (.now 5))))
      (.hears 0 rfl (.faithful (.carriedOut (.swap "a" _ _)))))
      (.hears 0 rfl (.faithful (.log _))))
      (.returns 0 rfl), ⟨_, _, rfl⟩, rfl, rfl⟩
  have unmade' : progress 1 s = .unmade := (run.chronicle.2 1).of_unmade unmade
  obtain ⟨h, w', run', hs, told'⟩ :=
    run.exists_tells unmade (by decide) stored (Record.frozen_freeze _ _) ⟨.standard⟩ (-3)
  obtain ⟨frozen, told_eq, later_eq⟩ := agreement run' hs told rfl
  exact ⟨s, h, w', run', hs, told, unmade', told', told_eq, fun d told => later_eq 1 d told unmade',
    frozen h hs (List.suffix_refl h)⟩

end TwoPhaseCommit
