import TwoPhaseCommit.Proofs.Coordinator.Sequence
import TwoPhaseCommit.Proofs.Run.Faithful

/- What is stored in a run, and what is not written. On a ledger that was empty at first every value is
   a well-formed record in its own form (`Chronicle.wellFormed`). So nobody is told that a record cannot
   be read, and a question is written down only where it makes an abort final (`disciplined`). -/
namespace TwoPhaseCommit

theorem Refusal.kind_ne_serialization (f : Refusal) : f.error.kind ≠ .serialization := by
  cases f <;> simp [Refusal.error, Refusal.kind]

/-- In the steps `h` the last exchange of call `i` with the ledger has been reading the record `r` of
    `id`, and the second that the call has seen with it is `t`. -/
structure Consulted (h : List Moment) (i : Nat) (id : String) (r : Record) (t : Int64) : Prop where
  read : ∃ l p, lastWord i h = ⟨i, .hears ⟨.ledger (.read id), .ok (some r.toBytes)⟩, l⟩ :: p
  second : ∃ o v, (progress i h).seen? = some (o, v) ∧ v.now = some t

/-- What has been stored and written in the steps `h`, which have led to the world `w`. -/
structure Disciplined (h : List Moment) (w : World) : Prop where
  wellFormed : w.ledger.WellFormed
  /-- No command is answered that a record cannot be read. -/
  readable : ∀ m ∈ h, ∀ o e, m.move = .returns o (.error e) → e.kind ≠ .serialization
  /-- Nor is anyone who just reads a record. -/
  shown : ∀ id second, ∃ a s, (Coordinator.readRecord id).run
    (Script.undisturbed second).environment ⟨w.ledger, []⟩ = (some a, s) ∧
      ∀ e, a = .error e → e.kind ≠ .serialization
  /-- A question that waits for a write is making an abort final. -/
  asks : ∀ i c id q next, w.standing i = .underway (.decision c id) (.ask (.ledger q) next) →
    q = .read id ∨ ∃ r t, Consulted h i id r t ∧ r.frozen = none ∧ (r.resolve t).kind = .abort ∧
      q = .swap id r.toBytes (r.settle t).record.toBytes
  /-- A question that is answered otherwise has read the record and not written since. -/
  answers : ∀ i c id v d, progress i h = .returned (.decision c id) v (.ok d) →
    ∃ r t, d = r.resolve t ∧
      (Consulted h i id r t ∨ r.frozen = none ∧ d.kind = .abort ∧ ∃ new l p,
        lastWord i h = ⟨i, .hears ⟨.ledger (.swap id r.toBytes new), .ok .swapped⟩, l⟩ :: p)

namespace Chronicle
variable {h : List Moment} {i : Nat} {o : Command} {v : View} {id : String}

/-- All that is stored is well-formed. -/
theorem wellFormed (hc : Chronicle .unreliable .empty h) : (ledgerAfter .empty h).WellFormed := by
  induction hc with
  | nil => exact .empty
  | @cons h m past next ih =>
    intro id bytes hread
    have effect := next.effect id
    rw [ledgerAfter] at hread
    rw [hread] at effect
    generalize hs : (ledgerAfter .empty h).read id = stored at effect
    cases effect with
    | same => exact ih id bytes hs
    | registers underway admitted =>
      exact ⟨_, Record.ofBytes_toBytes _, rfl, .new (Command.one_le_of_admitted admitted) _⟩
    | revises underway target holds changes =>
      exact ⟨_, Record.ofBytes_toBytes _, rfl,
        Command.wellFormed_of_change target changes (ih.record hs holds.record).2⟩

/-- A call that has read a record and not written since has consulted it. -/
theorem consulted (hc : Chronicle .unreliable .empty h)
    (seen : (progress i h).seen? = some (o, v)) (target : o.target = some id) {bytes : Bytes}
    {r : Record} {t : Int64} (holds : v.Holds bytes r t) (unwritten : v.write = none) :
    Consulted h i id r t ∧ r.toBytes = bytes ∧ r.WellFormed := by
  obtain ⟨id', l, p, u, hlast, -, target'⟩ := hc.lastWord_read seen holds.read unwritten
  obtain rfl : id' = id := Option.some.inj (target'.symm.trans target)
  have hs : _ :: p <:+ h := hlast ▸ lastWord_suffix i h
  obtain ⟨hread, -⟩ := (hc.occurs hs).read_ok rfl
  obtain ⟨hbytes, wf⟩ :=
    (hc.before hs).wellFormed.record hread holds.record
  rw [← hbytes] at hlast
  exact ⟨⟨⟨l, p, hlast⟩, o, v, seen, holds.now⟩, hbytes, wf⟩

/-- A question asks the ledger for the record, and for a write only to make an abort final. -/
theorem asks_of_question (hc : Chronicle .unreliable .empty h) {c : Coordinator}
    (underway : progress i h = .underway (.decision c id) v) {q : Query}
    (asks : (Command.decision c id).Asks v (.ledger q)) : q = .read id ∨
      ∃ r t, v.Holds r.toBytes r t ∧ Consulted h i id r t ∧ r.frozen = none ∧
        (r.resolve t).kind = .abort ∧ q = .swap id r.toBytes (r.settle t).record.toBytes := by
  cases asks with
  | revise admitted target asks =>
    cases target
    cases asks with
    | read => exact .inl rfl
    | @swap bytes r r' t a left holds unwritten changes differs =>
      cases changes
      obtain ⟨consulted, rfl, wf⟩ :=
        hc.consulted (Progress.seen?_of_underway underway) rfl holds unwritten
      rcases wf.settle_cases t with same | ⟨unfrozen, kind⟩
      · rw [same] at differs
        exact absurd rfl differs
      · exact .inr ⟨r, t, holds, consulted, unfrozen, kind, rfl⟩

/-- A question that is answered has consulted the record and not written since, or it has made an abort
    final. -/
theorem answer_of_question (hc : Chronicle .unreliable .empty h) {c : Coordinator} {d : Decision}
    (returned : progress i h = .returned (.decision c id) v (.ok d)) : ∃ r t, d = r.resolve t ∧
      (Consulted h i id r t ∨ r.frozen = none ∧ d.kind = .abort ∧ ∃ new l p,
        lastWord i h = ⟨i, .hears ⟨.ledger (.swap id r.toBytes new), .ok .swapped⟩, l⟩ :: p) := by
  have seen : (progress i h).seen? = some (.decision c id, v) := Progress.seen?_of_returned returned
  obtain ⟨bytes, r, t, r', holds, changes, hw⟩ := (hc.ends returned).of_ok rfl
  cases changes
  refine ⟨r, t, r.decision_settle t, ?_⟩
  rcases hw with ⟨unwritten, -⟩ | written
  · exact .inl (hc.consulted seen rfl holds unwritten).1
  -- what the write was made from is what the call has still in view
  · obtain ⟨bytes', new, l, p, u, hlast, underway, rfl⟩ := hc.lastWord_swap seen rfl written
    have hs : _ :: p <:+ h := hlast ▸ lastWord_suffix i h
    have occurs := hc.occurs hs
    cases occurs with
    | hears _ underway' asks =>
      rw [underway] at underway'
      obtain ⟨rfl, rfl⟩ := Progress.underway.inj underway'
      have hp : Chronicle .unreliable .empty p := hc.before hs
      obtain hq | ⟨q, t', holds', -, unfrozen, kind, hq⟩ := hp.asks_of_question underway asks
      · cases hq
      · cases hq
        obtain ⟨-, rfl, rfl⟩ := holds'.unique ⟨holds.read, holds.record, holds.now⟩
        rw [← q.decision_settle] at kind
        exact .inr ⟨unfrozen, kind, _, l, p, hlast⟩

/-- Nobody is told that a record cannot be read. -/
theorem kind_ne_serialization (hc : Chronicle .faithful .empty h)
    (seen : (progress i h).seen? = some (o, v)) {e : Error} (ends : o.Ends v (.error e)) :
    e.kind ≠ .serialization := by
  cases ends with
  | objected => exact Refusal.kind_ne_serialization _
  | unreachable => simp
  | registered _ ends =>
    cases ends with
    | occupied | exhausted => exact Refusal.kind_ne_serialization _
    | unwritten _ _ write => exact absurd write (hc.write_ne_error seen e)
  | revised _ target _ ends =>
    cases ends with
    | refused | missing | exhausted => exact Refusal.kind_ne_serialization _
    | unwritten _ _ write => exact absurd write (hc.write_ne_error seen e)
    | unread _ read unwritten =>
      obtain ⟨p, -, hy⟩ := hc.read_stored seen target read unwritten
      cases hy
    | flawed _ read flawed unwritten =>
      obtain ⟨p, hp, hy⟩ := hc.read_stored seen target read unwritten
      obtain ⟨r, hr, -⟩ := hp.unreliable.wellFormed _ _ (Except.ok.inj hy).symm
      rw [hr] at flawed
      cases flawed

end Chronicle

/-- On a well-formed ledger a record that is there can be read. -/
theorem Coordinator.kind_of_readRecord {l : Ledger} (wf : l.WellFormed) (id : String)
    (second : List Exchange → Int64) : ∃ a s, (readRecord id).run
      (Script.undisturbed second).environment ⟨l, []⟩ = (some a, s) ∧
        ∀ e, a = .error e → e.kind ≠ .serialization := by
  obtain ⟨a, v, s, hrun, shows, -, became⟩ := run_readRecord (Script.undisturbed second) ⟨l, []⟩ id
  have hread : ∀ y, v.read = some y → y = .ok (l.read id) := by
    intro y hy
    obtain ⟨heard, hy⟩ := became y hy
    exact hy
  refine ⟨a, s, hrun, ?_⟩
  intro e he
  cases shows with
  | record => cases he
  | missing =>
    cases he
    exact Refusal.kind_ne_serialization _
  | flawed read flawed =>
    obtain ⟨r, hr, -⟩ := wf id _ (Except.ok.inj (hread _ read)).symm
    rw [hr] at flawed
    cases flawed
  | unread read => cases hread _ read

/-- In every run from the empty ledger the stored values are well-formed, nobody fails to read them, and
    a question makes a write only to make an abort final. So of commands that are carried out one after
    the other the looks make no write, and without some of them all else goes as it does with them. -/
theorem disciplined {h : List Moment} {w : World} (run : Run .faithful .empty h w) :
    Disciplined h w ∧ ∀ turns : List Turn,
      (∀ p ∈ (play .empty turns).1, p.IsLook → ∀ x ∈ p.heard, x.isWrite = false) ∧
      ∀ ps, Padded ps (play .empty turns).1 →
        play .empty (ps.map Performance.turn) = (ps, (play .empty turns).2) := by
  obtain ⟨hf, hs⟩ := run.chronicle
  have hc : Chronicle .unreliable .empty h := hf.unreliable
  have wf : w.ledger.WellFormed := run.ledger_eq ▸ hc.wellFormed
  refine ⟨?_, fun turns => ⟨?_, fun ps => play_of_padded .empty⟩⟩
  · constructor
    case wellFormed => exact wf
    case readable =>
      intro m hm o e he
      obtain ⟨s, p, rfl⟩ := List.mem_iff_append.1 hm
      have hmp : m :: p <:+ s ++ m :: p := List.suffix_append s _
      have occurs := hf.occurs hmp
      cases occurs with
      | begins | hears | isDropped => cases he
      | returns i underway ends =>
        cases he
        have hp : Chronicle .faithful .empty p := hf.before hmp
        exact hp.kind_ne_serialization (by rw [underway]; rfl) ends
    case shown => exact fun id second => Coordinator.kind_of_readRecord wf id second
    case asks =>
      intro i c id q next underway
      obtain ⟨v, hp, obeys⟩ := (hs i).of_underway underway
      obtain hq | ⟨r, t, -, h⟩ := hc.asks_of_question hp obeys.1
      · exact .inl hq
      · exact .inr ⟨r, t, h⟩
    case answers => exact fun i c id v d returned => hc.answer_of_question returned
  · intro p hp look
    exact (play_look .empty hp look).2

/-- After the deadline a question waits for its write: it is making the timeout final. -/
theorem disciplined_before_timeout : ∃ h w next, Run .faithful .empty h w ∧
    w.standing 1 = .underway (.decision ⟨.standard⟩ "a") (.ask (.ledger (.swap "a"
      (Record.new 1 0).toBytes ((Record.new 1 0).freeze .timedOut).toBytes)) next) ∧
    ∃ r t, Consulted h 1 "a" r t ∧ r.frozen = none ∧ (r.resolve t).kind = .abort := by
  obtain ⟨h, w, next, run, underway⟩ : ∃ h w next, Run .faithful .empty h w ∧
      w.standing 1 = .underway (.decision ⟨.standard⟩ "a") (.ask (.ledger (.swap "a"
        (Record.new 1 0).toBytes ((Record.new 1 0).freeze .timedOut).toBytes)) next) := by
    refine ⟨_, _, _, .step (.step (.step (.step (.step .start
      (.begins 0 (.startVoting ⟨.standard⟩ "a" 1 0) rfl))
      (.hears 0 rfl (.carriedOut (.create "a" _))))
      (.begins 1 (.decision ⟨.standard⟩ "a") rfl))
      (.hears 1 rfl (.carriedOut (.read "a"))))
      (.hears 1 rfl (.now 5)), rfl⟩
  obtain ⟨d, -⟩ := disciplined run
  obtain hq | ⟨r, t, consulted, unfrozen, kind, -⟩ := d.asks _ _ _ _ _ underway
  · cases hq
  · exact ⟨h, w, next, run, underway, r, t, consulted, unfrozen, kind⟩

end TwoPhaseCommit
