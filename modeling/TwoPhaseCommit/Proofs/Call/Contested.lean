import TwoPhaseCommit.Proofs.Call.Script

/- Calls whose writes lose. `requests` is what a call asks for, in the order in which it does, and
   `Script.Contested` is a script in which the first `k` conditional writes of a call lose, all else is
   carried out and the clock stands still. -/
namespace TwoPhaseCommit

/-! ## Requests in the order in which they are made -/

namespace Request

def isLog : Request → Bool
  | .log _ => true
  | _ => false

/-- Whether it is a conditional write. -/
def isWrite : Request → Bool
  | .ledger (.create ..) | .ledger (.swap ..) => true
  | _ => false

def pause? : Request → Option Duration
  | .pause d => some d
  | _ => none

end Request

/-- What was asked for, the lines for the log left out, the first request first. -/
def requests (heard : List Exchange) : List Request :=
  (heard.reverse.map Exchange.request).filter fun r => !r.isLog

theorem requests_append (xs heard : List Exchange) :
    requests (xs ++ heard) = requests heard ++ requests xs := by
  rw [requests, List.reverse_append, List.map_append, List.filter_append]
  rfl

theorem requests_log (e : Event) (heard : List Exchange) :
    requests (⟨.log e, ()⟩ :: heard) = requests heard :=
  (requests_append [⟨.log e, ()⟩] heard).trans (List.append_nil _)

theorem isWrite_request (x : Exchange) : x.request.isWrite = x.isWrite := by
  obtain ⟨r, a⟩ := x
  cases r with
  | ledger q => cases q <;> rfl
  | now | pause | log => rfl

theorem countP_requests (heard : List Exchange) :
    (requests heard).countP Request.isWrite = heard.countP Exchange.isWrite := by
  have unlogged : ∀ r : Request, (r.isWrite && !r.isLog) = r.isWrite := by
    intro r
    cases r with
    | log => rfl
    | ledger | now | pause => exact Bool.and_true _
  calc (requests heard).countP Request.isWrite
      = (heard.reverse.map Exchange.request).countP Request.isWrite := by
        rw [requests, List.countP_filter]
        exact List.countP_congr fun r _ => by rw [unlogged]
    _ = heard.countP (Request.isWrite ∘ Exchange.request) := by
        rw [List.countP_map, List.countP_reverse]
    _ = heard.countP Exchange.isWrite :=
        List.countP_congr fun x _ => by rw [Function.comp_apply, isWrite_request]

/-! ## Contested writes -/

/-- A conditional write is answered with a conflict. -/
inductive Fate.Rebuffs : Fate → Query → Prop where
  | create (key : String) (value : Bytes) (reason : String) :
    Rebuffs (.fails ⟨.conflict, reason⟩) (.create key value)
  | swapFails (key : String) (expected new : Bytes) (reason : String) :
    Rebuffs (.fails ⟨.conflict, reason⟩) (.swap key expected new)
  | swapLoses (key : String) (expected new : Bytes) : Rebuffs .loses (.swap key expected new)

/-- The answers to a swap that loses, with the reason that they give. -/
inductive SwapLost : Except Error SwapOutcome → Option String → Prop where
  | conflict : SwapLost (.ok .conflict) none
  | failed (reason : String) : SwapLost (.error ⟨.conflict, reason⟩) (some reason)

namespace Fate.Rebuffs
variable {f : Fate}

theorem meet_create {key : String} {value : Bytes} (h : f.Rebuffs (.create key value)) (l : Ledger) :
    ∃ reason, f.meet l (.create key value) = (.error ⟨.conflict, reason⟩, l) := by
  cases h with
  | create _ _ reason => exact ⟨reason, rfl⟩

theorem meet_swap {key : String} {expected new : Bytes} (h : f.Rebuffs (.swap key expected new))
    (l : Ledger) :
    ∃ y reason, SwapLost y reason ∧ f.meet l (.swap key expected new) = (y, l) := by
  cases h with
  | swapLoses => exact ⟨_, _, .conflict, rfl⟩
  | swapFails _ _ _ reason => exact ⟨_, _, .failed reason, rfl⟩

end Fate.Rebuffs

/-- The first `k` conditional writes lose, everything else is carried out, and the clock stands at
    second `t`. -/
structure Script.Contested (p : Script) (k : Nat) (t : Int64) : Prop where
  second : ∀ heard, p.second heard = t
  rebuffs : ∀ heard q, (Request.ledger q).isWrite = true → heard.countP Exchange.isWrite < k →
    (p.fate heard q).Rebuffs q
  carriesOut : ∀ heard q, (Request.ledger q).isWrite = false ∨ k ≤ heard.countP Exchange.isWrite →
    p.fate heard q = .carriedOut

theorem Script.Contested.meets {p : Script} {k : Nat} {t : Int64} (h : p.Contested k t)
    {l l₁ : Ledger} {q : Query} {y : q.Answer} (heard : List Exchange)
    (hq : (Request.ledger q).isWrite = false ∨ k ≤ heard.countP Exchange.isWrite)
    (performed : l.perform q = (y, l₁)) : (p.fate heard q).meet l q = (.ok y, l₁) := by
  rw [h.carriesOut heard q hq, Fate.meet, performed]

theorem Script.undisturbed_contested (t : Int64) : (Script.undisturbed fun _ => t).Contested 0 t where
  second _ := rfl
  rebuffs _ _ _ hk := absurd hk (Nat.not_lt_zero _)
  carriesOut _ _ _ := rfl

namespace Call
variable {α β : Type} {σ : Type} {env : Environment σ}

theorem run_bind {f : α → Call β} {a : α} {s' : σ} : ∀ {c : Call α} {s : σ},
    c.run env s = (some a, s') → (c >>= f).run env s = (f a).run env s'
  | .done a, s, h => by
    cases h
    rfl
  | .ask r next, s, h => by
    rw [run] at h
    rw [ask_bind, run]
    split at h
    · next x s₁ hx => exact run_bind h
    · cases h

end Call

theorem Script.run_now {p : Script} {l : Ledger} {heard : List Exchange} {t : Int64}
    (second : p.second heard = t) {α : Type} (next : Int64 → Call α) :
    (Call.now >>= next).run p.environment ⟨l, heard⟩ =
      (next t).run p.environment ⟨l, ⟨.now, t⟩ :: heard⟩ := by
  show (next (p.second heard)).run p.environment ⟨l, ⟨.now, p.second heard⟩ :: heard⟩ = _
  rw [second]

/-- A call on the ledger is answered as the script has it, and goes on from there. -/
theorem Script.run_query {p : Script} {l l₁ : Ledger} {heard : List Exchange} {q : Query}
    {x : Except Error q.Answer} (met : (p.fate heard q).meet l q = (x, l₁)) {α : Type}
    (next : Except Error q.Answer → Call α) :
    (Call.request (.ledger q) >>= next).run p.environment ⟨l, heard⟩ =
      (next x).run p.environment ⟨l₁, ⟨.ledger q, x⟩ :: heard⟩ := by
  show (next ((p.fate heard q).meet l q).1).run p.environment
    ⟨((p.fate heard q).meet l q).2, ⟨.ledger q, ((p.fate heard q).meet l q).1⟩ :: heard⟩ = _
  rw [met]

end TwoPhaseCommit
