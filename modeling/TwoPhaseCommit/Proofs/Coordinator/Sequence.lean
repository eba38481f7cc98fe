import TwoPhaseCommit.Proofs.Coordinator.Alone

/- Commands one after the other, each alone with a ledger that carries out every call. `play` tells what
   comes of them. On a well-formed ledger a question that is a look, which finds the vote open, a commit
   or a decision that was final before, makes no write (`Turn.look`). So looks can be put in
   anywhere: all else goes as it would without them (`play_of_padded`). -/
namespace TwoPhaseCommit

/-- A command to carry out, and what the clock shows meanwhile. -/
structure Turn where
  command : Command
  second : List Exchange → Int64

/-- A command that was carried out: the ledger before, the answer, what was exchanged and the ledger
    after. -/
structure Performance where
  turn : Turn
  before : Ledger
  answer : Option (Except Error turn.command.Answer)
  heard : List Exchange
  after : Ledger

/-- Carries out a command alone. -/
def Turn.on (x : Turn) (l : Ledger) : Performance :=
  let (answer, s) := x.command.call.run (Script.undisturbed x.second).environment ⟨l, []⟩
  ⟨x, l, answer, s.heard, s.ledger⟩

/-- Carries out commands one after the other, and gives the ledger after them. -/
def play (l : Ledger) : List Turn → List Performance × Ledger
  | [] => ([], l)
  | x :: xs => (x.on l :: (play (x.on l).after xs).1, (play (x.on l).after xs).2)

/-- A question that finds anything but an abort, or a decision that was final before. -/
inductive Performance.IsLook : Performance → Prop where
  | mk {c : Coordinator} {id : String} {second : List Exchange → Int64} {before after : Ledger}
    {d : Decision} {heard : List Exchange} (quiet : d.kind ≠ .abort ∨ before.frozen? id ≠ none) :
    IsLook ⟨⟨.decision c id, second⟩, before, some (.ok d), heard, after⟩

/-- The second list is the first one with looks put in. -/
inductive Padded : List Performance → List Performance → Prop where
  | nil : Padded [] []
  | both {ps qs : List Performance} (p : Performance) (rest : Padded ps qs) :
    Padded (p :: ps) (p :: qs)
  | look {ps qs : List Performance} {p : Performance} (look : p.IsLook) (rest : Padded ps qs) :
    Padded ps (p :: qs)

/-! ## One command -/

namespace Command
variable {o : Command} {id : String} {l l' : Ledger} {heard : List Exchange}

/-- A command that has only made writes that were granted. -/
structure Steady (o : Command) (l : Ledger) (v : View) (s : Scene) : Prop where
  progress : Untouched o l v s ∨ Settled o l v s
  granted : ∀ x ∈ s.heard, x.isWrite = true → x.isStore = true

/-- Undisturbed, a command that changes a record never loses a write. -/
theorem Steady.next {v : View} {s : Scene} {r : Request} (h : Steady o l v s)
    (target : o.target = some id) (asks : o.Asks v r) (second : List Exchange → Int64) :
    let p := Script.undisturbed second
    Steady o l (v.see r (p.answer s r).1) (p.next s r) := by
  intro p
  refine ⟨untouched_or_settled p v s r h.progress asks, ?_⟩
  intro x hx hw
  rcases List.mem_cons.1 hx with rfl | hx
  · have unwritten : v.write = none := (asks.unwritten hw).2
    obtain ⟨bytes, new, hr⟩ := asks.swap_of_isWrite target hw
    cases hr
    obtain ⟨q, q', t, a, holds, -⟩ := asks.of_swap
    -- no write was granted so far, so the record that was read is the one that is stored
    have hread : s.ledger.read id = some bytes := by
      rcases h.progress with h | h
      · rw [h.ledger]
        exact h.read id _ target holds.read
      · rw [h.written] at unwritten
        cases unwritten
    have swapped : (p.answer s (.ledger (.swap id bytes new))).1 = .ok .swapped := by
      show Except.ok (s.ledger.swap id bytes new).1 = _
      rw [Ledger.swap_of_expected hread]
    rw [swapped]
    rfl
  · exact h.granted x hx hw

theorem isStore_of_isWrite (target : o.target = some id) {second : List Exchange → Int64}
    {a : Option (Except Error o.Answer)} {s : Scene}
    (hrun : o.call.run (Script.undisturbed second).environment ⟨l, []⟩ = (a, s)) {x : Exchange}
    (hx : x ∈ s.heard) (hw : x.isWrite = true) : x.isStore = true := by
  have h₀ : Steady o l (.start 0) ⟨l, []⟩ := ⟨.inl ⟨rfl, rfl, nofun, nofun, nofun⟩, nofun⟩
  obtain ⟨a', v, s', hrun', -, h⟩ := o.call_obeys.run (Script.undisturbed second)
    (fun v s r h asks => h.next target asks second) h₀
  rw [hrun] at hrun'
  cases hrun'
  exact h.granted x hx hw

theorem Leaves.wellFormed {a : o.Answer} (leaves : Leaves l heard o a l') (wf : l.WellFormed)
    (sound : ¬ o.Malformed) : l'.WellFormed := by
  cases leaves with
  | kept | beaten => exact wf
  | @registered c id n =>
    have hn : 1 ≤ n := Int32.not_lt.1 fun few => sound (.noCohorts few)
    exact wf.put id (.new hn _)
  | revised target read record seen changes =>
    exact wf.put _ (wellFormed_of_change target changes (wf.record read record).2)

/-- A question that is a look stores nothing. -/
theorem Leaves.of_quiet {c : Coordinator} {d : Decision}
    (leaves : Leaves l heard (.decision c id) d l') (wf : l.WellFormed)
    (quiet : d.kind ≠ .abort ∨ l.frozen? id ≠ none) :
    heard.filter Exchange.isStore = [] ∧ l' = l := by
  cases leaves with
  | kept target read record seen changes same stores => exact ⟨stores, rfl⟩
  | @revised _ _ bytes r _ t _ target read record seen changes differs =>
    cases target
    cases changes
    obtain ⟨hbytes, hr⟩ := wf.record read record
    rcases hr.settle_cases t with same | ⟨unfrozen, kind⟩
    · rw [same] at differs
      exact absurd hbytes differs
    · rw [Ledger.frozen?_of_record? (Ledger.record?_of_read read record), unfrozen,
        Record.decision_settle, kind] at quiet
      simp at quiet

end Command

namespace Turn
variable {l : Ledger}

/-- What comes of a command alone, in terms of the command. -/
theorem on_cases (x : Turn) (l : Ledger) : ∃ a s,
    x.command.call.run (Script.undisturbed x.second).environment ⟨l, []⟩ = (some a, s) ∧
      x.on l = ⟨x, l, some a, s.heard, s.ledger⟩ ∧ (∀ e, a = .error e → s.ledger = l) ∧
      ∀ answer, a = .ok answer → Command.Leaves l s.heard x.command answer s.ledger := by
  obtain ⟨a, s, hrun, herror, hok⟩ := Command.run_cases (Script.undisturbed x.second) l x.command
  refine ⟨a, s, hrun, ?_, fun e he => (herror e he).1, hok⟩
  rw [on, hrun]

theorem wellFormed (wf : l.WellFormed) (x : Turn) : (x.on l).after.WellFormed := by
  obtain ⟨a, s, hrun, hon, herror, hok⟩ := x.on_cases l
  rw [hon]
  cases a with
  | error e =>
    rw [herror e rfl]
    exact wf
  | ok answer => exact (hok answer rfl).wellFormed wf (Command.not_malformed_of_run hrun)

/-- A look makes no write and leaves the ledger. -/
theorem look (wf : l.WellFormed) {x : Turn} (look : (x.on l).IsLook) :
    (x.on l).after = l ∧ ∀ y ∈ (x.on l).heard, y.isWrite = false := by
  obtain ⟨a, s, hrun, hon, -, hok⟩ := x.on_cases l
  rw [hon] at look ⊢
  obtain ⟨o, second⟩ := x
  cases look with
  | mk quiet =>
    obtain ⟨stores, hl⟩ := (hok _ rfl).of_quiet wf quiet
    refine ⟨hl, ?_⟩
    intro y hy
    cases hw : y.isWrite with
    | false => rfl
    | true =>
      have hs : y.isStore = true := Command.isStore_of_isWrite rfl hrun hy hw
      exact absurd (List.mem_filter.2 ⟨hy, hs⟩) (by rw [stores]; exact List.not_mem_nil)

end Turn

/-! ## Many commands -/

theorem play_look {l : Ledger} (wf : l.WellFormed) {turns : List Turn} {p : Performance}
    (hp : p ∈ (play l turns).1) (look : p.IsLook) :
    p.after = p.before ∧ ∀ x ∈ p.heard, x.isWrite = false := by
  induction turns generalizing l with
  | nil => cases hp
  | cons x xs ih =>
    rcases List.mem_cons.1 hp with rfl | hp
    · exact Turn.look wf look
    · exact ih (x.wellFormed wf) hp

/-- Without some of the looks all the other commands go as they do with them. -/
theorem play_of_padded {l : Ledger} (wf : l.WellFormed) {turns : List Turn} {ps : List Performance}
    (padded : Padded ps (play l turns).1) :
    play l (ps.map Performance.turn) = (ps, (play l turns).2) := by
  induction turns generalizing l ps with
  | nil =>
    cases padded
    rfl
  | cons x xs ih =>
    cases padded with
    | both p rest =>
      show play l (x :: _) = _
      rw [play, play, ih (x.wellFormed wf) rest]
    | look look rest =>
      have same : (x.on l).after = l := (Turn.look wf look).1
      rw [same] at rest
      rw [play, same]
      exact ih wf rest

end TwoPhaseCommit
