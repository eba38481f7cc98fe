import TwoPhaseCommit.Adapter.Client

/- Calls under a time limit. A server cuts a request off whose pauses together take longer than it
   allows, or that waits for an answer that never comes; the client is told that the time is up. -/
namespace TwoPhaseCommit

/-- Carries a call to its end unless its pauses last longer than `left` nanoseconds, or it makes a
    request that is never answered. -/
def Call.runWithin {α σ : Type} (env : Environment σ) : Nat → Call α → σ → Option α × σ
  | _, .done a, s => (some a, s)
  | left, .ask (.pause d) next, s =>
    if left < d.asPause.nanoseconds then (none, s)
    else match env.respond (.pause d) s with
      | (some x, s) => runWithin env (left - d.asPause.nanoseconds) (next x) s
      | (none, s) => (none, s)
  | left, .ask r next, s => match env.respond r s with
    | (some x, s) => runWithin env left (next x) s
    | (none, s) => (none, s)

/-- What the client of a server with a time limit reports. -/
def Method.finish {α : Type} (m : Method) : Option (Except Error α) → Except Error α
  | some r => r
  | none => .error (m.error .timeout)

end TwoPhaseCommit
