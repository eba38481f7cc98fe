import TwoPhaseCommit.Proofs.Call.Conversation

/- A call alone with a ledger. A `Script` tells which of its calls on the ledger are carried out, and
   what the clock shows; a call that is not carried out changes nothing. `Script.environment` plays a
   script, and keeps what was said. `Call.Obeys.run` is the rule for what comes of a call there: what
   holds of its view and its surroundings at first, and is kept by all it may ask for, holds at its end,
   which it always reaches. -/
namespace TwoPhaseCommit

/-- What becomes of a call on the ledger. -/
inductive Fate where
  | carriedOut
  | fails (e : Error)
  /-- A swap finds another value than expected. Other calls are carried out. -/
  | loses

/-- The answer to a call on the ledger, and the ledger after it. -/
def Fate.meet (l : Ledger) : Fate → (q : Query) → Except Error q.Answer × Ledger
  | .carriedOut, q => (.ok (l.perform q).1, (l.perform q).2)
  | .fails e, _ => (.error e, l)
  | .loses, .swap .. => (.ok .conflict, l)
  | .loses, q => (.ok (l.perform q).1, (l.perform q).2)

/-- What can come of a call on the ledger: its answer, and the ledger after it. -/
inductive Met (l : Ledger) : (q : Query) → Except Error q.Answer → Ledger → Prop where
  | carriedOut (q : Query) : Met l q (.ok (l.perform q).1) (l.perform q).2
  | failed (q : Query) (e : Error) : Met l q (.error e) l
  | lost (key : String) (expected new : Bytes) : Met l (.swap key expected new) (.ok .conflict) l

theorem Met.of_read {l l' : Ledger} {id : String} {y : Except Error (Option Bytes)}
    (met : Met l (.read id) y l') :
    l' = l ∧ ∀ stored, some y = some (.ok stored) → l.read id = stored := by
  cases met with
  | failed => exact ⟨rfl, nofun⟩
  | carriedOut => exact ⟨rfl, fun stored hy => Except.ok.inj (Option.some.inj hy)⟩

theorem Fate.met (f : Fate) (l : Ledger) (q : Query) : Met l q (f.meet l q).1 (f.meet l q).2 := by
  cases f with
  | carriedOut => exact .carriedOut q
  | fails e => exact .failed q e
  | loses =>
    cases q with
    | swap => exact .lost ..
    | create | read | heartbeat => exact .carriedOut _

/-- What becomes of every call on the ledger and what the clock shows, by what was exchanged before. -/
structure Script where
  fate : List Exchange → Query → Fate
  second : List Exchange → Int64

/-- Every call is carried out. -/
def Script.undisturbed (second : List Exchange → Int64) : Script := ⟨fun _ _ => .carriedOut, second⟩

/-- A ledger, and what a call has exchanged with its surroundings so far, the latest first. -/
structure Scene where
  ledger : Ledger
  heard : List Exchange

namespace Script

def answer (p : Script) (s : Scene) : (r : Request) → r.Answer × Ledger
  | .ledger q => (p.fate s.heard q).meet s.ledger q
  | .now => (p.second s.heard, s.ledger)
  | .pause _ | .log _ => ((), s.ledger)

/-- The scene after a request is answered. -/
def next (p : Script) (s : Scene) (r : Request) : Scene :=
  ⟨(p.answer s r).2, ⟨r, (p.answer s r).1⟩ :: s.heard⟩

/-- How a script answers requests. -/
def environment (p : Script) : Environment Scene where
  respond r s := (some (p.answer s r).1, p.next s r)

end Script

/-- A call sees no second but those that its script shows. -/
theorem Call.shown_of_run {α : Type} (p : Script) {t : Int64} : ∀ (c : Call α) {s s' : Scene}
    {x : Option α}, c.run p.environment s = (x, s') → (⟨.now, t⟩ : Exchange) ∈ s'.heard →
    (⟨.now, t⟩ : Exchange) ∈ s.heard ∨ ∃ heard, t = p.second heard
  | .done a, s, s', x, hrun, seen => by
    cases hrun
    exact .inl seen
  | .ask r next, s, s', x, hrun, seen => by
    obtain seen | hshown := Call.shown_of_run p (next (p.answer s r).1) hrun seen
    · obtain hx | seen := List.mem_cons.1 seen
      · cases hx
        exact .inr ⟨s.heard, rfl⟩
      · exact .inl seen
    · exact .inr hshown

/-- If the requests that a call can make keep `inv`, it ends, as it may, and `inv` holds then. -/
theorem Call.Obeys.run {α : Type} {asks : View → Request → Prop} {ends : View → α → Prop}
    (p : Script) {inv : View → Scene → Prop}
    (keeps : ∀ v s r, inv v s → asks v r → inv (v.see r (p.answer s r).1) (p.next s r)) :
    ∀ {c : Call α} {v : View} {s : Scene}, c.Obeys asks ends v → inv v s →
      ∃ a v' s', c.run p.environment s = (some a, s') ∧ ends v' a ∧ inv v' s'
  | .done a, v, s, obeys, h => ⟨a, v, s, rfl, obeys, h⟩
  | .ask r next, v, s, obeys, h =>
    Call.Obeys.run p keeps (c := next (p.answer s r).1) (obeys.2 _) (keeps v s r h obeys.1)

end TwoPhaseCommit
