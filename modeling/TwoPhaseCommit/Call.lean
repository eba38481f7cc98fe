import TwoPhaseCommit.Duration
import TwoPhaseCommit.Event
import TwoPhaseCommit.Ledger

/- Calls as trees of requests. A call that is under way either is done or waits for the answer to
   one request: a call on the ledger, a look at the clock, a pause, a line for the log. So a call
   can be stopped and resumed between any two requests, and any number of them can take turns on one
   ledger. `run` answers the requests of one call from an environment with a state. -/
namespace TwoPhaseCommit

/-- What a call asks of its surroundings. -/
inductive Request where
  | ledger (query : Query)
  /-- The current second. -/
  | now
  | pause (span : Duration)
  | log (event : Event)

/-- What a request is answered with. -/
@[reducible] def Request.Answer : Request → Type
  | .ledger q => Except Error q.Answer
  | .now => Int64
  | .pause _ | .log _ => Unit

/-- A call that ends in a value of `α`. -/
inductive Call (α : Type) where
  | done (a : α)
  | ask (r : Request) (next : r.Answer → Call α)

namespace Call
variable {α β : Type}

def bind : Call α → (α → Call β) → Call β
  | .done a, f => f a
  | .ask r next, f => .ask r fun x => bind (next x) f

instance : Monad Call where
  pure := .done
  bind := bind

@[simp] theorem pure_eq (a : α) : (pure a : Call α) = .done a := rfl

@[simp] theorem done_bind (a : α) (f : α → Call β) : (Call.done a >>= f) = f a := rfl

@[simp] theorem ask_bind (r : Request) (next : r.Answer → Call α) (f : α → Call β) :
    (Call.ask r next >>= f) = .ask r fun x => next x >>= f := rfl

theorem bind_done : ∀ (c : Call α), c >>= Call.done = c
  | .done _ => rfl
  | .ask r next => congrArg (Call.ask r) (funext fun x => bind_done (next x))

theorem bind_assoc {γ : Type} (f : α → Call β) (g : β → Call γ) : ∀ (c : Call α),
    (c >>= f) >>= g = c >>= fun a => f a >>= g
  | .done _ => rfl
  | .ask r next => congrArg (Call.ask r) (funext fun x => bind_assoc f g (next x))

instance : LawfulMonad Call := LawfulMonad.mk' Call bind_done (fun _ _ => rfl)
  (fun c f g => bind_assoc f g c)

/-- The call that makes one request and ends with its answer. -/
def request (r : Request) : Call r.Answer := .ask r .done

def create (key : String) (value : Bytes) : Call (Except Error CreateOutcome) :=
  request (.ledger (.create key value))

def swap (key : String) (expected new : Bytes) : Call (Except Error SwapOutcome) :=
  request (.ledger (.swap key expected new))

def read (key : String) : Call (Except Error (Option Bytes)) := request (.ledger (.read key))

def heartbeat : Call (Except Error Bool) := request (.ledger .heartbeat)

def now : Call Int64 := request .now

def pause (span : Duration) : Call Unit := request (.pause span)

def log (event : Event) : Call Unit := request (.log event)

end Call

/-- What answers requests: its state moves on with every request, and a request may never be
    answered. -/
structure Environment (σ : Type) where
  respond : (r : Request) → σ → Option r.Answer × σ

/-- Carries a call to its end, or to the request that is never answered. -/
def Call.run {α σ : Type} (env : Environment σ) : Call α → σ → Option α × σ
  | .done a, s => (some a, s)
  | .ask r next, s => match env.respond r s with
    | (some x, s) => run env (next x) s
    | (none, s) => (none, s)

end TwoPhaseCommit
