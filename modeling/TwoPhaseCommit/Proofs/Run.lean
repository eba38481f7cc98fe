import TwoPhaseCommit.Proofs.Call.Conversation
import TwoPhaseCommit.Proofs.Coordinator.Command

/- Many calls on one ledger. A `World` is a ledger and the calls under way, each of them a tree of
   requests, on coordinators of any number. In a `Step` one call begins, hears the answer to its next
   request, returns, or is dropped; a `Run` is any sequence of steps, so every order in which the
   calls can take turns is a run, and so is every way for a call to be left unfinished. The clock may
   answer anything. What the ledger may answer is a `Conduct`: a `faithful` one carries out every call
   on it, and an `unreliable` one may also fail, without telling whether it stored anything. -/
namespace TwoPhaseCommit

/-- What happens to a call in one step. -/
inductive Move where
  | begins (o : Command)
  | hears (x : Exchange)
  | returns (o : Command) (a : Except Error o.Answer)
  /-- Nobody waits for the call any more. -/
  | isDropped

/-- One step of a run. -/
structure Moment where
  /-- The call that makes the step. -/
  call : Nat
  move : Move
  /-- The ledger after the step. -/
  ledger : Ledger

/-- How far a call has come. -/
inductive Standing where
  | unmade
  | underway (o : Command) (rest : Call (Except Error o.Answer))
  | ended

structure World where
  ledger : Ledger
  standing : Nat → Standing

/-- The world after a step of call `i`. -/
def World.turn (w : World) (i : Nat) (s : Standing) (l : Ledger) : World :=
  ⟨l, fun j => if j = i then s else w.standing j⟩

/-- A ledger that carries out every call, in one step. -/
inductive Faithful (l : Ledger) : Exchange → Ledger → Prop where
  | carriedOut (q : Query) : Faithful l ⟨.ledger q, .ok (l.perform q).1⟩ (l.perform q).2
  | now (t : Int64) : Faithful l ⟨.now, t⟩ l
  | pause (span : Duration) : Faithful l ⟨.pause span, ()⟩ l
  | log (event : Event) : Faithful l ⟨.log event, ()⟩ l

/-- A ledger that may fail at any call, with any error, and may or may not have carried out the call
    that fails. A swap that it denies may have been carried out as well, one that it grants has been. -/
inductive Unreliable (l : Ledger) : Exchange → Ledger → Prop where
  | faithful {x : Exchange} {l' : Ledger} (h : Faithful l x l') : Unreliable l x l'
  | failed {q : Query} {l' : Ledger} (e : Error) (perhaps : l' = l ∨ l' = (l.perform q).2) :
    Unreliable l ⟨.ledger q, .error e⟩ l'
  | denied {key : String} {expected new : Bytes} {l' : Ledger}
    (perhaps : l' = l ∨ l' = (l.perform (.swap key expected new)).2) :
    Unreliable l ⟨.ledger (.swap key expected new), .ok .conflict⟩ l'

/-- How a ledger behaves. -/
structure Conduct where
  /-- Which exchange can take place on it, and which ledger can come of that. -/
  answers : Ledger → Exchange → Ledger → Prop
  /-- Which ledger can come of a call on it if nobody waits for the answer. -/
  leaves : Ledger → Query → Ledger → Prop

/-- A call on the ledger that nobody waits for is not carried out. -/
def Conduct.faithful : Conduct := ⟨Faithful, fun l _ l' => l' = l⟩

/-- A call on the ledger that nobody waits for may or may not be carried out. -/
def Conduct.unreliable : Conduct := ⟨Unreliable, fun l q l' => l' = l ∨ l' = (l.perform q).2⟩

/-- One call makes one step. -/
inductive Step (C : Conduct) (w : World) : Moment → World → Prop where
  | begins (i : Nat) (o : Command) (unmade : w.standing i = .unmade) :
    Step C w ⟨i, .begins o, w.ledger⟩ (w.turn i (.underway o o.call) w.ledger)
  | hears (i : Nat) {o : Command} {r : Request} {next : r.Answer → Call (Except Error o.Answer)}
    {x : r.Answer} {l : Ledger} (underway : w.standing i = .underway o (.ask r next))
    (answered : C.answers w.ledger ⟨r, x⟩ l) :
    Step C w ⟨i, .hears ⟨r, x⟩, l⟩ (w.turn i (.underway o (next x)) l)
  | returns (i : Nat) {o : Command} {a : Except Error o.Answer}
    (underway : w.standing i = .underway o (.done a)) :
    Step C w ⟨i, .returns o a, w.ledger⟩ (w.turn i .ended w.ledger)
  | isDropped (i : Nat) {o : Command} {rest : Call (Except Error o.Answer)}
    (underway : w.standing i = .underway o rest) :
    Step C w ⟨i, .isDropped, w.ledger⟩ (w.turn i .ended w.ledger)
  /-- The call is dropped while it waits for the ledger. -/
  | isDroppedAsking (i : Nat) {o : Command} {q : Query}
    {next : Except Error q.Answer → Call (Except Error o.Answer)} {l : Ledger}
    (underway : w.standing i = .underway o (.ask (.ledger q) next))
    (left : C.leaves w.ledger q l) : Step C w ⟨i, .isDropped, l⟩ (w.turn i .ended l)

/-- The world that the steps `h`, the latest first, lead to from the ledger `l₀` and no calls. -/
inductive Run (C : Conduct) (l₀ : Ledger) : List Moment → World → Prop where
  | start : Run C l₀ [] ⟨l₀, fun _ => .unmade⟩
  | step {h : List Moment} {m : Moment} {w w' : World} (run : Run C l₀ h w) (step : Step C w m w') :
    Run C l₀ (m :: h) w'

/-- The ledger after the steps `h` from `l₀`. -/
def ledgerAfter (l₀ : Ledger) : List Moment → Ledger
  | [] => l₀
  | m :: _ => m.ledger

end TwoPhaseCommit
