import TwoPhaseCommit.Config
import TwoPhaseCommit.Json
import TwoPhaseCommit.Net.SocketAddr.Parser

/- Configurations as JSON values, not as JSON texts. `toJson` writes one form, and none for a path that
   is not UTF-8. `ofJson?` also takes structures as arrays of their fields in order, members that nobody
   asks for, a request timeout that is missing, and nanoseconds that make up whole seconds. The fields of
   a choice have to be an object; a reader of texts would take an array for them as well. -/
namespace TwoPhaseCommit

/-- A whole number below `bound`. -/
def Json.natBelow? (bound : Nat) : Json → Option Nat
  | .integer n => if 0 ≤ n ∧ n < bound then some n.toNat else none
  | _ => none

def Json.string? : Json → Option String
  | .string s => some s
  | _ => none

/-- The values of a structure's fields: the members of an object under their names, or all items of
    an array of the right length. A member that is missing is `none`. -/
def Json.fields? (names : List String) (j : Json) : Option (List (Option Json)) :=
  match j with
  | .object _ _ _ => some (names.map fun name => j.member? name)
  | .array items => if items.length = names.length then some (items.map some) else none
  | _ => none

/-- The name of a choice and what comes with it: a text is a name alone, and the one member of an
    object is a name with a value. -/
def Json.choice? : Json → Option (String × Option Json)
  | .string name => some (name, none)
  | .object [name] _ value => some (name, some (value name (List.mem_singleton.2 rfl)))
  | _ => none

namespace Duration

def toJson (d : Duration) : Json :=
  .ofMembers [("secs", .integer d.seconds.toNat), ("nanos", .integer d.nanos.toNat)]

/-- Whole seconds are carried out of the nanoseconds. -/
def ofParts? (secs nanos : Nat) : Option Duration :=
  if h : secs + nanos / nanosPerSecond < UInt64.size then
    some (clamp (secs + nanos / nanosPerSecond) (nanos % nanosPerSecond)
      (Nat.mod_lt _ (by decide)))
  else none

/-- No other members may stand in the object of a duration. -/
def ofJson? (j : Json) : Option Duration := do
  if j.keys.any fun key => key != "secs" && key != "nanos" then none
  match ← j.fields? ["secs", "nanos"] with
  | [some secs, some nanos] => ofParts? (← secs.natBelow? UInt64.size) (← nanos.natBelow? UInt32.size)
  | _ => none

end Duration

namespace Backend

def toJson : Backend → Option Json
  | .memory => some (.string "Memory")
  | .rocks path => path.text?.map fun text =>
    .ofMembers [("Rocks", .ofMembers [("path", .string text)])]

def ofJson? (j : Json) : Option Backend := do
  match ← j.choice? with
  | ("Memory", none) | ("Memory", some .null) => some .memory
  | ("Rocks", some fields) => return .rocks (← (← fields.member? "path").string?)
  | _ => none

end Backend

namespace RetryPolicy

def toJson (p : RetryPolicy) : Json :=
  .ofMembers [("max_attempts", .integer p.maxAttempts.toNat), ("backoff", p.backoff.toJson),
    ("max_backoff", p.maxBackoff.toJson)]

def ofJson? (j : Json) : Option RetryPolicy := do
  match ← j.fields? ["max_attempts", "backoff", "max_backoff"] with
  | [some n, some backoff, some maxBackoff] =>
    return ⟨UInt32.ofNat (← n.natBelow? UInt32.size), ← Duration.ofJson? backoff,
      ← Duration.ofJson? maxBackoff⟩
  | _ => none

end RetryPolicy

namespace Config

def optionalDuration? : Option Json → Option (Option Duration)
  | none | some .null => some none
  | some j => (Duration.ofJson? j).map some

def toJson (c : Config) : Option Json :=
  c.backend.toJson.map fun ledger =>
    .ofMembers [("listen_addr", .string c.listen.text), ("ledger", ledger), ("retry", c.retry.toJson),
      ("default_vote_timeout", c.voteWindow.toJson),
      ("request_timeout", match c.requestTimeout with
        | none => .null
        | some d => d.toJson)]

def ofJson? (j : Json) : Option Config := do
  match ← j.fields? ["listen_addr", "ledger", "retry", "default_vote_timeout", "request_timeout"] with
  | [some listen, some ledger, some retry, some window, timeout] =>
    return ⟨← SocketAddr.parse? (← listen.string?), ← Backend.ofJson? ledger,
      ← RetryPolicy.ofJson? retry, ← Duration.ofJson? window, ← optionalDuration? timeout⟩
  | _ => none

end Config
end TwoPhaseCommit
