import TwoPhaseCommit.Proofs.Coordinator.Sequence

/- Commands on different transactions do not meet. Everything that a command asks of the ledger has the
   name of its transaction on it, so two ledgers that agree there serve it alike (`Turn.on_agrees`),
   and it leaves what is stored under any other name (`Turn.read_after_of_ne`). From these two:
   commands on different transactions can change places, and of a sequence of commands those on one
   transaction go as they would by themselves. `independent` puts this together. -/
namespace TwoPhaseCommit

/-! ## What a call on the ledger is about -/

/-- The key that a call on the ledger is about. A heartbeat is about none. -/
def Query.key? : Query → Option String
  | .create key _ | .swap key .. | .read key => some key
  | .heartbeat => none

namespace Ledger

/-- Two ledgers hold the same under the keys in `K`. -/
def AgreeOn (K : String → Prop) (l l' : Ledger) : Prop := ∀ key, K key → l.read key = l'.read key

/-- Ledgers that agree on the key of a call answer it alike and agree after it. -/
theorem AgreeOn.perform {K : String → Prop} {l l' : Ledger} (agree : l.AgreeOn K l') {q : Query}
    (about : ∀ key, q.key? = some key → K key) :
    (l.perform q).1 = (l'.perform q).1 ∧ (l.perform q).2.AgreeOn K (l'.perform q).2 := by
  cases q with
  | heartbeat => exact ⟨rfl, agree⟩
  | read key => exact ⟨agree key (about key rfl), agree⟩
  | create key value =>
    have same : l.read key = l'.read key := agree key (about key rfl)
    constructor
    · simp only [Ledger.perform, create, same]
      cases l'.read key <;> rfl
    · intro j hj
      simp only [Ledger.perform, read_create, same, agree j hj]
  | swap key expected new =>
    have same : l.read key = l'.read key := agree key (about key rfl)
    constructor
    · simp only [Ledger.perform, swap, same]
      split <;> rfl
    · intro j hj
      simp only [Ledger.perform, read_swap, same, agree j hj]

end Ledger

theorem Fate.meet_agrees (f : Fate) {K : String → Prop} {l l' : Ledger} (agree : l.AgreeOn K l')
    {q : Query} (about : ∀ key, q.key? = some key → K key) :
    (f.meet l q).1 = (f.meet l' q).1 ∧ (f.meet l q).2.AgreeOn K (f.meet l' q).2 := by
  obtain ⟨answer, after⟩ := agree.perform about
  cases f with
  | fails e => exact ⟨rfl, agree⟩
  | carriedOut => exact ⟨congrArg Except.ok answer, after⟩
  | loses =>
    cases q with
    | swap => exact ⟨rfl, agree⟩
    | create | read | heartbeat => exact ⟨congrArg Except.ok answer, after⟩

/-- Two scenes in which the same was exchanged, with ledgers that agree on `K`. -/
structure Scene.AgreeOn (K : String → Prop) (s s' : Scene) : Prop where
  heard : s.heard = s'.heard
  ledger : s.ledger.AgreeOn K s'.ledger

theorem Script.answer_agrees (p : Script) {K : String → Prop} {s s' : Scene} (agree : s.AgreeOn K s')
    {r : Request} (about : ∀ q key, r = .ledger q → q.key? = some key → K key) :
    (p.answer s r).1 = (p.answer s' r).1 ∧ (p.next s r).AgreeOn K (p.next s' r) := by
  obtain ⟨l, heard⟩ := s
  obtain ⟨l', heard'⟩ := s'
  obtain ⟨rfl, agree⟩ := agree
  cases r with
  | now | pause | log => exact ⟨rfl, rfl, agree⟩
  | ledger q =>
    obtain ⟨answer, after⟩ := (p.fate heard q).meet_agrees agree fun key => about q key rfl
    refine ⟨answer, ?_, after⟩
    simp only [next, Script.answer]
    rw [answer]

/-- A call that asks the ledger only about keys in `K` goes alike on ledgers that agree there. -/
theorem Call.Obeys.run_agrees {α : Type} {asks : View → Request → Prop} {ends : View → α → Prop}
    (p : Script) {K : String → Prop}
    (about : ∀ v q key, asks v (.ledger q) → q.key? = some key → K key) :
    ∀ {c : Call α} {v : View} {s s' : Scene}, c.Obeys asks ends v → s.AgreeOn K s' →
      (c.run p.environment s).1 = (c.run p.environment s').1 ∧
      (c.run p.environment s).2.AgreeOn K (c.run p.environment s').2
  | .done a, v, s, s', obeys, agree => ⟨rfl, agree⟩
  | .ask r next, v, s, s', obeys, agree => by
    have aboutRequest : ∀ q key, r = .ledger q → q.key? = some key → K key := by
      intro q key hr
      exact about v q key (hr ▸ obeys.1)
    obtain ⟨answer, after⟩ := p.answer_agrees agree aboutRequest
    -- the request is answered alike, so that the rest of the call is the same
    have hrun : ∀ s, (Call.ask r next).run p.environment s =
        (next (p.answer s r).1).run p.environment (p.next s r) := fun _ => rfl
    rw [hrun, hrun, ← answer]
    exact Call.Obeys.run_agrees p about (obeys.2 (p.answer s r).1) after

/-- Every call that a command makes on the ledger is about its own transaction. -/
theorem Command.Asks.transaction_of_ledger {o : Command} {v : View} {q : Query}
    (h : o.Asks v (.ledger q)) {key : String} (about : q.key? = some key) :
    o.transaction = some key := by
  cases h with
  | beat => cases about
  | register _ h =>
    cases h with
    | create =>
      cases about
      rfl
  | revise _ target h =>
    cases h with
    | read | swap =>
      cases about
      exact transaction_of_target target

/-! ## One command -/

namespace Turn
variable {x y : Turn} {l l' : Ledger}

/-- Whether the command is on transaction `id`. -/
def isOn (id : String) (x : Turn) : Bool := x.command.transaction = some id

/-- Two commands that are not on the same transaction. -/
def Apart (x y : Turn) : Prop := ∀ id, x.command.transaction = some id → y.command.transaction ≠ some id

theorem Apart.symm (apart : x.Apart y) : y.Apart x := fun id hy hx => apart id hx hy

end Turn

/-- What can be seen of a performance from outside the ledger: the answer, and everything that was
    asked and answered on the way. -/
structure Account where
  turn : Turn
  answer : Option (Except Error turn.command.Answer)
  heard : List Exchange

def Account.isOn (id : String) (a : Account) : Bool := a.turn.isOn id

def Performance.account (p : Performance) : Account := ⟨p.turn, p.answer, p.heard⟩

namespace Turn
variable {x y : Turn} {l l' : Ledger}

theorem on_answers (x : Turn) (l : Ledger) : ∃ a, (x.on l).answer = some a := by
  obtain ⟨a, s, -, hon, -⟩ := x.on_cases l
  rw [hon]
  exact ⟨a, rfl⟩

theorem account_on (x : Turn) (l : Ledger) : (x.on l).account =
    let (answer, s) := x.command.call.run (Script.undisturbed x.second).environment ⟨l, []⟩
    ⟨x, answer, s.heard⟩ := rfl

/-- A command goes by what is stored under its own transaction. -/
theorem on_agrees (x : Turn) (agree : l.AgreeOn (fun id => x.command.transaction = some id) l') :
    (x.on l).account = (x.on l').account ∧
      (x.on l).after.AgreeOn (fun id => x.command.transaction = some id) (x.on l').after := by
  have scenes : Scene.AgreeOn (fun id => x.command.transaction = some id) ⟨l, []⟩ ⟨l', []⟩ :=
    ⟨rfl, agree⟩
  obtain ⟨answer, heard, after⟩ := x.command.call_obeys.run_agrees (Script.undisturbed x.second)
    (fun _ _ _ asks about => asks.transaction_of_ledger about) scenes
  refine ⟨?_, after⟩
  rw [account_on, account_on]
  dsimp only
  rw [answer, heard]

/-- A command leaves what is stored for other transactions. -/
theorem read_after_of_ne {key : String} (h : x.command.transaction ≠ some key) (l : Ledger) :
    (x.on l).after.read key = l.read key := by
  obtain ⟨a, s, -, hon, herror, hok⟩ := x.on_cases l
  rw [hon]
  cases a with
  | error e => rw [herror e rfl]
  | ok answer => exact (hok answer rfl).read_of_ne h

/-- After a command on another transaction there is the same to go by. -/
theorem Apart.agrees (apart : x.Apart y) (l : Ledger) :
    (y.on l).after.AgreeOn (fun id => x.command.transaction = some id) l :=
  fun id hx => read_after_of_ne (apart id hx) l

theorem Apart.after_comm (apart : x.Apart y) (l : Ledger) :
    (y.on (x.on l).after).after = (x.on (y.on l).after).after := by
  have ext : ∀ {l l' : Ledger}, (∀ key, l.read key = l'.read key) → l = l' := fun h =>
    congrArg Ledger.mk (SortedMap.ext_get? h)
  apply ext
  intro key
  by_cases hx : x.command.transaction = some key
  · -- what `x` stores does not depend on `y`, and `y` leaves it
    rw [read_after_of_ne (apart key hx)]
    exact ((x.on_agrees (apart.agrees l)).2 key hx).symm
  · rw [read_after_of_ne hx]
    by_cases hy : y.command.transaction = some key
    · exact (y.on_agrees (apart.symm.agrees l)).2 key hy
    · rw [read_after_of_ne hy, read_after_of_ne hx, read_after_of_ne hy]

end Turn

/-! ## Many commands -/

/-- The commands on one transaction go in a sequence as they do without the others. -/
theorem play_restricted (id : String) : ∀ (turns : List Turn) {l l' : Ledger},
    l.read id = l'.read id →
    ((play l turns).1.map Performance.account).filter (Account.isOn id) =
        (play l' (turns.filter (Turn.isOn id))).1.map Performance.account ∧
      (play l turns).2.read id = (play l' (turns.filter (Turn.isOn id))).2.read id
  | [], _, _, same => ⟨rfl, same⟩
  | x :: xs, l, l', same => by
    have hhead : (x.on l).account.isOn id = x.isOn id := rfl
    cases hx : x.isOn id with
    | true =>
      have on : x.command.transaction = some id := of_decide_eq_true hx
      have agree : l.AgreeOn (fun id => x.command.transaction = some id) l' := by
        intro key hkey
        rw [on] at hkey
        cases hkey
        exact same
      obtain ⟨account, after⟩ := x.on_agrees agree
      obtain ⟨accounts, last⟩ := play_restricted id xs (after id on)
      rw [List.filter_cons_of_pos hx, play, play, List.map_cons, List.map_cons,
        List.filter_cons_of_pos (hhead.trans hx), account, accounts]
      exact ⟨rfl, last⟩
    | false =>
      have off : x.command.transaction ≠ some id := of_decide_eq_false hx
      obtain ⟨accounts, last⟩ := play_restricted id xs ((Turn.read_after_of_ne off l).trans same)
      rw [List.filter_cons_of_neg (by simp [hx]), play, List.map_cons,
        List.filter_cons_of_neg (by simp [hhead, hx])]
      exact ⟨accounts, last⟩

/-- Transactions are independent. Two commands on different transactions can be made in either order:
    each gets the answer that it gets by itself, by the same exchanges, and the ledger is the same
    after both. A command leaves what is stored for other transactions. So in a sequence of
    commands those on one transaction get the answers that they get without the others, and what
    is stored for it in the end is the same. -/
theorem independent (l : Ledger) :
    (∀ x y : Turn, x.Apart y →
      (∃ a, (x.on l).answer = some a) ∧ (∃ b, (y.on l).answer = some b) ∧
      (x.on (y.on l).after).account = (x.on l).account ∧
      (y.on (x.on l).after).account = (y.on l).account ∧
      (play l [x, y]).2 = (play l [y, x]).2) ∧
    (∀ (x : Turn) key, x.command.transaction ≠ some key → (x.on l).after.read key = l.read key) ∧
    ∀ turns id,
      ((play l turns).1.map Performance.account).filter (Account.isOn id) =
        (play l (turns.filter (Turn.isOn id))).1.map Performance.account ∧
      (play l turns).2.read id = (play l (turns.filter (Turn.isOn id))).2.read id := by
  refine ⟨?_, fun x key h => x.read_after_of_ne h l, fun turns id => play_restricted id turns rfl⟩
  intro x y apart
  exact ⟨x.on_answers l, y.on_answers l, (x.on_agrees (apart.agrees l)).1,
    (y.on_agrees (apart.symm.agrees l)).1, apart.after_comm l⟩

/-- A vote on transaction "a" at second 5. -/
def voteOnA : Turn := ⟨.vote ⟨.standard⟩ "a" 0 .commit, fun _ => 5⟩

/-- A question about transaction "b" at second 20. -/
def questionOnB : Turn := ⟨.decision ⟨.standard⟩ "b", fun _ => 20⟩

/-- A vote on one transaction, and a question about another one, whose record cannot be read. -/
theorem independent_of_unreadable :
    let l := (Ledger.empty.put "a" (Record.new 1 9).toBytes).put "b" [7]
    voteOnA.Apart questionOnB ∧
      (∃ heard, (voteOnA.on (questionOnB.on l).after).account =
        ⟨voteOnA, some (.ok .counted), heard⟩) ∧
      (∃ heard, (questionOnB.on (voteOnA.on l).after).account =
        ⟨questionOnB, some (.error Record.Flaw.cutNumber.error), heard⟩) ∧
      (play l [voteOnA, questionOnB]).2 = (play l [questionOnB, voteOnA]).2 := by
  intro l
  have apart : voteOnA.Apart questionOnB := by
    intro id ha hb
    cases ha
    exact absurd hb (by decide)
  -- what is stored for the other transaction makes no difference to the vote
  have agree : l.AgreeOn (fun id => voteOnA.command.transaction = some id)
      (Ledger.empty.put "a" (Record.new 1 9).toBytes) := by
    intro id ha
    cases ha
    rfl
  obtain ⟨commute, -⟩ := independent l
  obtain ⟨-, -, hvote, hquestion, hl⟩ := commute voteOnA questionOnB apart
  exact ⟨apart, ⟨_, (hvote.trans (voteOnA.on_agrees agree).1).trans rfl⟩, ⟨_, hquestion.trans rfl⟩, hl⟩

end TwoPhaseCommit
