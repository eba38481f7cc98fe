import TwoPhaseCommit.Call
import TwoPhaseCommit.Record.Stored

/- What a call has seen of its surroundings. A call makes a conditional write in attempts, and a
   write that loses starts the next attempt with nothing: so the `View` of a call is the number of
   attempts that lost and the answers in the current one. `Obeys` says of a call, for whatever
   answers it may get, what it can ask for and how it can end after what it has seen. Every operation
   has one lemma of this form, and all that is said about runs of calls comes from these lemmas. -/
namespace TwoPhaseCommit

/-- What a call has seen. -/
structure View where
  /-- How many of its writes lost against another one. -/
  lost : Nat
  /-- The answer to its last read in the current attempt. -/
  read : Option (Except Error (Option Bytes))
  /-- The second that it saw last in the current attempt. -/
  now : Option Int64
  /-- The answer to its write in the current attempt: whether it stored something. -/
  write : Option (Except Error Bool)

namespace View

/-- The view at the beginning of an attempt. -/
def start (lost : Nat) : View := ⟨lost, none, none, none⟩

/-- The view after one more answer. -/
def see (v : View) : (r : Request) → r.Answer → View
  | .ledger (.read _), x => { v with read := some x }
  | .ledger (.swap ..), .ok .swapped => { v with write := some (.ok true) }
  | .ledger (.swap ..), .ok .conflict => start (v.lost + 1)
  | .ledger (.swap ..), .error ⟨.conflict, _⟩ => start (v.lost + 1)
  | .ledger (.swap ..), .error e => { v with write := some (.error e) }
  | .ledger (.create ..), .ok .created => { v with write := some (.ok true) }
  | .ledger (.create ..), .ok .occupied => { v with write := some (.ok false) }
  | .ledger (.create ..), .error ⟨.conflict, _⟩ => start (v.lost + 1)
  | .ledger (.create ..), .error e => { v with write := some (.error e) }
  | .now, t => { v with now := some t }
  | .ledger .heartbeat, _ => v
  | .pause _, _ => v
  | .log _, _ => v

/-- In its current attempt a call has read the record `r`, in the form `bytes`, and has seen second
    `t`. -/
structure Holds (v : View) (bytes : Bytes) (r : Record) (t : Int64) : Prop where
  read : v.read = some (.ok (some bytes))
  record : Record.ofBytes bytes = .ok r
  now : v.now = some t

theorem Holds.unique {v : View} {bytes bytes' : Bytes} {r r' : Record} {t t' : Int64}
    (h : v.Holds bytes r t) (h' : v.Holds bytes' r' t') : bytes = bytes' ∧ r = r' ∧ t = t' := by
  have hb : bytes = bytes' := Option.some.inj (Except.ok.inj (Option.some.inj (h.read ▸ h'.read)))
  subst hb
  have hr : r = r' := Except.ok.inj (h.record ▸ h'.record)
  have ht : t = t' := Option.some.inj (h.now ▸ h'.now)
  exact ⟨rfl, hr, ht⟩

end View

namespace Call
variable {α β : Type} {asks : View → Request → Prop}

/-- Whatever answers it gets, a call that has seen `v` makes only requests that `asks` allows and
    ends only as `ends` allows. -/
def Obeys (asks : View → Request → Prop) (ends : View → α → Prop) : Call α → View → Prop
  | .done a, v => ends v a
  | .ask r next, v => asks v r ∧ ∀ x, Obeys asks ends (next x) (v.see r x)

theorem Obeys.bind {mid : View → α → Prop} {ends : View → β → Prop} {f : α → Call β}
    (hf : ∀ v a, mid v a → (f a).Obeys asks ends v) : ∀ {c : Call α} {v : View},
    c.Obeys asks mid v → (c >>= f).Obeys asks ends v
  | .done a, v, h => hf v a h
  | .ask _ _, _, h => ⟨h.1, fun x => Obeys.bind hf (h.2 x)⟩

theorem Obeys.mono {asks' : View → Request → Prop} {ends ends' : View → α → Prop}
    (ha : ∀ v r, asks v r → asks' v r) (he : ∀ v a, ends v a → ends' v a) :
    ∀ {c : Call α} {v : View}, c.Obeys asks ends v → c.Obeys asks' ends' v
  | .done a, v, h => he v a h
  | .ask r _, v, h => ⟨ha v r h.1, fun x => Obeys.mono ha he (h.2 x)⟩

/-- What is made of the end of a call matters only for the ways in which it can end. -/
theorem Obeys.map_congr {ends : View → α → Prop} {f g : α → β} (same : ∀ v a, ends v a → f a = g a) :
    ∀ {c : Call α} {v : View}, c.Obeys asks ends v → f <$> c = g <$> c
  | .done a, v, h => congrArg Call.done (same v a h)
  | .ask r _, _, h => congrArg (Call.ask r) (funext fun x => Obeys.map_congr same (h.2 x))

end Call
end TwoPhaseCommit
