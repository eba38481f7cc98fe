import TwoPhaseCommit.Proofs.Call.View

/- The conversation of a call with its surroundings: the requests that it made and the answers that
   they got, the latest first. The answers can be any, so a statement about every conversation of a
   call holds whatever the ledger and the clock do. -/
namespace TwoPhaseCommit

/-- A request and the answer that it got. -/
structure Exchange where
  request : Request
  answer : request.Answer

namespace Exchange

/-- Whether it is one with the ledger. -/
def isOnLedger (x : Exchange) : Bool :=
  match x.request with
  | .ledger _ => true
  | _ => false

/-- Whether it is a conditional write. -/
def isWrite (x : Exchange) : Bool :=
  match x.request with
  | .ledger (.create ..) | .ledger (.swap ..) => true
  | _ => false

/-- Whether it is a conditional write that was answered with a conflict. -/
def isLoss : Exchange → Bool
  | ⟨.ledger (.swap ..), .ok .conflict⟩ => true
  | ⟨.ledger (.swap ..), .error ⟨.conflict, _⟩⟩ => true
  | ⟨.ledger (.create ..), .error ⟨.conflict, _⟩⟩ => true
  | _ => false

/-- Whether it is a conditional write that stored something. -/
def isStore : Exchange → Bool
  | ⟨.ledger (.swap ..), .ok .swapped⟩ => true
  | ⟨.ledger (.create ..), .ok .created⟩ => true
  | _ => false

theorem isWrite_of_off {x : Exchange} (h : x.isOnLedger = false) : x.isWrite = false := by
  obtain ⟨r, a⟩ := x
  cases r with
  | ledger q => cases h
  | now | pause | log => rfl

theorem isOnLedger_of_isWrite {x : Exchange} (h : x.isWrite = true) : x.isOnLedger = true := by
  cases hx : x.isOnLedger with
  | true => rfl
  | false => rw [isWrite_of_off hx] at h; cases h

end Exchange

/-- What a call has seen after a conversation. -/
def View.after : List Exchange → View
  | [] => start 0
  | x :: t => (after t).see x.request x.answer

/-- The call `c₀` has had the conversation `t` and has come to `c`. -/
inductive Call.Conversation {α : Type} (c₀ : Call α) : List Exchange → Call α → Prop where
  | nil : Conversation c₀ [] c₀
  | cons {t : List Exchange} {r : Request} {next : r.Answer → Call α} (x : r.Answer)
    (h : Conversation c₀ t (.ask r next)) : Conversation c₀ (⟨r, x⟩ :: t) (next x)

namespace Call
variable {α : Type} {asks : View → Request → Prop} {ends : View → α → Prop}

theorem Obeys.after {c₀ : Call α} (h₀ : c₀.Obeys asks ends (.start 0)) {t : List Exchange}
    {c : Call α} (h : c₀.Conversation t c) : c.Obeys asks ends (.after t) := by
  induction h with
  | nil => exact h₀
  | cons x _ ih => exact ih.2 x

theorem Obeys.asks_head {c₀ : Call α} (h₀ : c₀.Obeys asks ends (.start 0)) {x : Exchange}
    {t : List Exchange} {c : Call α} (h : c₀.Conversation (x :: t) c) :
    asks (.after t) x.request ∧ ∃ c', c₀.Conversation t c' := by
  cases h with
  | cons _ h => exact ⟨(h₀.after h).1, _, h⟩

theorem Obeys.asks_mem {c₀ : Call α} (h₀ : c₀.Obeys asks ends (.start 0)) {t : List Exchange}
    {c : Call α} (h : c₀.Conversation t c) {x : Exchange} (hx : x ∈ t) : ∃ v, asks v x.request := by
  induction h with
  | nil => cases hx
  | cons y h ih =>
    rcases List.mem_cons.1 hx with rfl | hx
    · exact ⟨_, (h₀.after h).1⟩
    · exact ih hx

theorem Conversation.of_done {a : α} {t : List Exchange} {c : Call α}
    (h : (Call.done a).Conversation t c) : t = [] ∧ c = .done a := by
  induction h with
  | nil => exact ⟨rfl, rfl⟩
  | cons x _ ih => cases ih.2

/-- What comes first in a conversation that has come to an end. -/
theorem Conversation.of_ask {r : Request} {next : r.Answer → Call α} {t : List Exchange} {c : Call α}
    (h : (Call.ask r next).Conversation t c) :
    t = [] ∧ c = .ask r next ∨
      ∃ (x : r.Answer) (t' : List Exchange), t = t' ++ [⟨r, x⟩] ∧ (next x).Conversation t' c := by
  -- a conversation grows at its end, so its beginning is that of the shorter one
  induction h with
  | nil => exact .inl ⟨rfl, rfl⟩
  | cons x _ ih =>
    rcases ih with ⟨rfl, hc⟩ | ⟨y, t', rfl, h⟩
    · cases hc
      exact .inr ⟨x, [], rfl, .nil⟩
    · exact .inr ⟨y, _ :: t', rfl, .cons x h⟩

end Call

/-! ## What a view tells about a conversation -/

namespace View

/-- An exchange that is no write leaves the count of lost writes and the answer to the last one. -/
theorem see_of_not_write {x : Exchange} (h : x.isWrite = false) (v : View) :
    (v.see x.request x.answer).lost = v.lost ∧ (v.see x.request x.answer).write = v.write := by
  obtain ⟨r, a⟩ := x
  match r, a, h with
  | .ledger (.read _), _, _ => exact ⟨rfl, rfl⟩
  | .ledger .heartbeat, _, _ => exact ⟨rfl, rfl⟩
  | .now, _, _ => exact ⟨rfl, rfl⟩
  | .pause _, _, _ => exact ⟨rfl, rfl⟩
  | .log _, _, _ => exact ⟨rfl, rfl⟩

/-- A lost write begins the next attempt. -/
theorem see_of_loss {x : Exchange} (h : x.isLoss = true) (v : View) :
    v.see x.request x.answer = .start (v.lost + 1) := by
  unfold Exchange.isLoss at h
  split at h
  · rfl
  · rfl
  · rfl
  · exact absurd h (by simp)

/-- A write that does not lose is answered in the current attempt. -/
theorem see_of_won {x : Exchange} (hw : x.isWrite = true) (hl : x.isLoss = false) (v : View) :
    (v.see x.request x.answer).lost = v.lost ∧ (v.see x.request x.answer).write ≠ none := by
  obtain ⟨r, a⟩ := x
  match r, a, hw, hl with
  | .ledger (.swap ..), .ok .swapped, _, _ => exact ⟨rfl, by simp [see]⟩
  | .ledger (.create ..), .ok .created, _, _ => exact ⟨rfl, by simp [see]⟩
  | .ledger (.create ..), .ok .occupied, _, _ => exact ⟨rfl, by simp [see]⟩
  | .ledger (.swap ..), .error ⟨kind, _⟩, _, hl =>
    cases kind with
    | conflict => exact absurd hl (by simp [Exchange.isLoss])
    | _ => exact ⟨rfl, by simp [see]⟩
  | .ledger (.create ..), .error ⟨kind, _⟩, _, hl =>
    cases kind with
    | conflict => exact absurd hl (by simp [Exchange.isLoss])
    | _ => exact ⟨rfl, by simp [see]⟩

/-- A write that stores nothing leaves no such answer, and of what was seen no other than before. -/
theorem see_of_idle {x : Exchange} (hw : x.isWrite = true) (hs : x.isStore = false) (v : View) :
    (v.see x.request x.answer).write ≠ some (.ok true) ∧
      (∀ y, (v.see x.request x.answer).read = some y → v.read = some y) ∧
      ∀ t, (v.see x.request x.answer).now = some t → v.now = some t := by
  have lost : ∀ n, (start n).write ≠ some (.ok true) ∧
      (∀ y, (start n).read = some y → v.read = some y) ∧
      ∀ t, (start n).now = some t → v.now = some t := fun n => ⟨nofun, nofun, nofun⟩
  obtain ⟨r, a⟩ := x
  match r, a, hw, hs with
  | .ledger (.swap ..), .ok .conflict, _, _ => exact lost _
  | .ledger (.create ..), .ok .occupied, _, _ => exact ⟨nofun, fun _ => id, fun _ => id⟩
  | .ledger (.swap ..), .error ⟨kind, _⟩, _, _ | .ledger (.create ..), .error ⟨kind, _⟩, _, _ =>
    cases kind with
    | conflict => exact lost _
    | _ => exact ⟨nofun, fun _ => id, fun _ => id⟩

/-- A swap that stores something is one that was granted. -/
theorem of_see_swap {v : View} {key : String} {expected new : Bytes}
    {a : Except Error SwapOutcome}
    (h : (v.see (.ledger (.swap key expected new)) a).write = some (.ok true)) :
    a = .ok .swapped ∧ v.see (.ledger (.swap key expected new)) a =
      { v with write := some (.ok true) } := by
  match a, h with
  | .ok .swapped, _ => exact ⟨rfl, rfl⟩
  | .ok .conflict, h => cases h
  | .error ⟨kind, _⟩, h => cases kind <;> cases h

/-- A create tells whether it stored something, or it fails. -/
theorem of_see_create {v : View} {key : String} {value : Bytes} {z : Except Error CreateOutcome}
    {y : Except Error Bool} (h : (v.see (.ledger (.create key value)) z).write = some y) :
    (z = .ok .created ∧ y = .ok true) ∨ (z = .ok .occupied ∧ y = .ok false) ∨
      ∃ e, z = .error e ∧ y = .error e := by
  match z, h with
  | .ok .created, h => exact .inl ⟨rfl, (Option.some.inj h).symm⟩
  | .ok .occupied, h => exact .inr (.inl ⟨rfl, (Option.some.inj h).symm⟩)
  | .error ⟨kind, m⟩, h =>
    refine .inr (.inr ⟨_, rfl, ?_⟩)
    cases kind with
    | conflict => cases h
    | _ => exact (Option.some.inj h).symm

theorem lost_after : ∀ (t : List Exchange), (after t).lost = t.countP Exchange.isLoss
  | [] => rfl
  | x :: t => by
    rw [after]
    cases hl : x.isLoss with
    | true => rw [see_of_loss hl, List.countP_cons_of_pos hl, ← lost_after t]; rfl
    | false =>
      rw [List.countP_cons_of_neg (by simp [hl]), ← lost_after t]
      cases hw : x.isWrite with
      | true => exact (see_of_won hw hl _).1
      | false => exact (see_of_not_write hw _).1

/-- A read that a call remembers is the one it just made, or was remembered before. -/
theorem read_see {v : View} {x : Exchange} {y : Except Error (Option Bytes)}
    (h : (v.see x.request x.answer).read = some y) :
    (∃ id, x = ⟨.ledger (.read id), y⟩) ∨ v.read = some y := by
  obtain ⟨r, a⟩ := x
  match r, a, h with
  | .ledger (.read id), _, h => exact .inl ⟨id, by cases h; rfl⟩
  | .ledger .heartbeat, _, h => exact .inr h
  | .now, _, h => exact .inr h
  | .pause _, _, h => exact .inr h
  | .log _, _, h => exact .inr h
  | .ledger (.swap ..), .ok .swapped, h => exact .inr h
  | .ledger (.create ..), .ok .created, h => exact .inr h
  | .ledger (.create ..), .ok .occupied, h => exact .inr h
  | .ledger (.swap ..), .error ⟨kind, _⟩, h => cases kind <;> first | exact .inr h | cases h
  | .ledger (.create ..), .error ⟨kind, _⟩, h => cases kind <;> first | exact .inr h | cases h

/-- A second that a call remembers is the one it just saw, or was remembered before. -/
theorem now_see {v : View} {x : Exchange} {t : Int64}
    (h : (v.see x.request x.answer).now = some t) : x = ⟨.now, t⟩ ∨ v.now = some t := by
  obtain ⟨r, a⟩ := x
  match r, a, h with
  | .now, _, h => exact .inl (by cases h; rfl)
  | .ledger (.read _), _, h => exact .inr h
  | .ledger .heartbeat, _, h => exact .inr h
  | .pause _, _, h => exact .inr h
  | .log _, _, h => exact .inr h
  | .ledger (.swap ..), .ok .swapped, h => exact .inr h
  | .ledger (.create ..), .ok .created, h => exact .inr h
  | .ledger (.create ..), .ok .occupied, h => exact .inr h
  | .ledger (.swap ..), .error ⟨kind, _⟩, h => cases kind <;> first | exact .inr h | cases h
  | .ledger (.create ..), .error ⟨kind, _⟩, h => cases kind <;> first | exact .inr h | cases h

end View
end TwoPhaseCommit
