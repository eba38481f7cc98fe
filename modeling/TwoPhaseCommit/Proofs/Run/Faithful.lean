import TwoPhaseCommit.Proofs.Run.LastWord

/- Runs on a faithful ledger. There only a swap that is granted changes a record, what is read is a
   record in its own form, and a call on a registered transaction ends in one of the ways that
   `Ending` lists: all but two of them give the answer of the command carried out at once. -/
namespace TwoPhaseCommit

section
variable {l₀ : Ledger} {h s : List Moment} {m : Moment} {i : Nat} {o : Command} {v : View}
  {id : String}

theorem Occurs.faithful (occurs : Occurs .faithful l₀ h m) {x : Exchange} (hm : m.move = .hears x) :
    Faithful (ledgerAfter l₀ h) x m.ledger := by
  cases occurs with
  | begins | returns | isDropped => cases hm
  | hears i _ _ answered =>
    cases hm
    exact answered

/-- Only a swap that is granted changes what is stored. -/
theorem Occurs.swapped_of_ne (occurs : Occurs .faithful l₀ h m) {stored : Bytes}
    (present : (ledgerAfter l₀ h).read id = some stored)
    (differs : m.ledger.read id ≠ some stored) :
    ∃ bytes new, m.move = .hears ⟨.ledger (.swap id bytes new), .ok .swapped⟩ := by
  cases occurs with
  | begins | returns => exact absurd present differs
  | isDropped i underway left =>
    rcases left with rfl | ⟨q, asks, rfl⟩ <;> exact absurd present differs
  | hears i underway asks answered =>
    cases answered with
    | now | pause | log => exact absurd present differs
    | carriedOut q =>
      cases q with
      | read | heartbeat => exact absurd present differs
      | create key value =>
        rw [Ledger.perform, Ledger.read_create] at differs
        split at differs
        · next hk =>
          rw [← hk.1, present] at hk
          cases hk.2
        · exact absurd present differs
      | swap key expected new =>
        rw [Ledger.perform, Ledger.read_swap] at differs
        split at differs
        · next hk =>
          obtain ⟨rfl, hk⟩ := hk
          refine ⟨expected, new, ?_⟩
          simp only [Ledger.perform, Ledger.swap, if_pos hk]
        · exact absurd present differs

namespace Chronicle

/-- A write is not answered with an error. -/
theorem write_ne_error (hc : Chronicle .faithful l₀ h) (seen : (progress i h).seen? = some (o, v))
    (e : Error) : v.write ≠ some (.error e) := by
  induction hc generalizing v with
  | nil => cases seen
  | @cons h m past next ih =>
    by_cases hi : m.call = i
    · subst hi
      obtain ⟨-, rfl⟩ | ⟨u, x, hm, underway, asks, rfl⟩ | ⟨-, underway⟩ := next.seen_cases seen
      · nofun
      · have hu : u.write ≠ some (.error e) := ih (Progress.seen?_of_underway underway)
        have answered := next.faithful hm
        generalize m.ledger = l' at answered
        cases answered with
        | now | pause | log => exact hu
        | carriedOut q =>
          cases q with
          | read | heartbeat => exact hu
          | create key value =>
            generalize ((ledgerAfter l₀ h).perform (.create key value)).1 = y
            cases y <;> nofun
          | swap key expected new =>
            generalize ((ledgerAfter l₀ h).perform (.swap key expected new)).1 = y
            cases y <;> nofun
      · exact ih (Progress.seen?_of_underway underway)
    · rw [progress_cons_of_ne hi] at seen
      exact ih seen

/-- While the transaction is registered with a record in its own form, it stays so. -/
theorem stored_toBytes (hc : Chronicle .unreliable l₀ h) {r₀ : Record}
    (registered : l₀.read id = some r₀.toBytes) :
    ∃ r : Record, (ledgerAfter l₀ h).read id = some r.toBytes := by
  induction hc with
  | nil => exact ⟨r₀, registered⟩
  | @cons h m past next ih =>
    obtain ⟨r, hr⟩ := ih
    have effect := next.effect id
    rw [hr] at effect
    generalize hs : m.ledger.read id = stored at effect
    cases effect with
    | same => exact ⟨r, hs⟩
    | @revises o v bytes q r' => exact ⟨r', hs⟩

end Chronicle
end

/-! ## How a call ends -/

/-- How a call on a registered transaction can end on a faithful ledger: refused by its arguments,
    given up, or with the answer of the command carried out at once on the record it has read. -/
inductive Ending (id : String) (o : Command) (v : View) : Except Error o.Answer → Prop where
  | objected {f : Refusal} (objection : o.objection = some f) (fresh : v = .start 0) :
    Ending id o v (.error f.error)
  | exhausted (activity : Activity) {lost : Nat} (admitted : o.objection = none)
    (fresh : v = .start lost) : Ending id o v (.error (Refusal.contention activity id).error)
  | unchanged {bytes : Bytes} {r : Record} {t : Int64} (admitted : o.objection = none)
    (holds : v.Holds bytes r t) (unwritten : v.write = none) (same : (o.atOnce r t).2 = r) :
    Ending id o v (o.atOnce r t).1
  | stored {bytes : Bytes} {r : Record} {t : Int64} (admitted : o.objection = none)
    (holds : v.Holds bytes r t) (written : v.write = some (.ok true)) :
    Ending id o v (o.atOnce r t).1

namespace Chronicle
variable {l₀ : Ledger} {h : List Moment} {i : Nat} {o : Command} {v : View} {id : String}
  {r₀ : Record}

/-- What a call has read is what was stored at some step before. -/
theorem read_stored (hc : Chronicle .faithful l₀ h) (seen : (progress i h).seen? = some (o, v))
    (target : o.target = some id) {y : Except Error (Option Bytes)} (read : v.read = some y)
    (unwritten : v.write = none) :
    ∃ p, Chronicle .faithful l₀ p ∧ y = .ok ((ledgerAfter l₀ p).read id) := by
  obtain ⟨id', l, p, u, hlast, -, target'⟩ := hc.lastWord_read seen read unwritten
  obtain rfl : id' = id := Option.some.inj (target'.symm.trans target)
  have hs : _ :: p <:+ h := hlast ▸ lastWord_suffix i h
  obtain ⟨hy, -⟩ := ((hc.occurs hs).faithful rfl).of_ledger
  exact ⟨p, hc.before hs, hy⟩

/-- What a call has read is a record in its own form. -/
theorem read_toBytes (hc : Chronicle .faithful l₀ h) (registered : l₀.read id = some r₀.toBytes)
    (seen : (progress i h).seen? = some (o, v)) (target : o.target = some id)
    {y : Except Error (Option Bytes)} (read : v.read = some y) (unwritten : v.write = none) :
    ∃ r : Record, y = .ok (some r.toBytes) := by
  obtain ⟨p, hp, hy⟩ := hc.read_stored seen target read unwritten
  obtain ⟨r, hr⟩ := hp.unreliable.stored_toBytes registered
  exact ⟨r, by rw [hy, hr]⟩

theorem ending (hc : Chronicle .faithful l₀ h) (registered : l₀.read id = some r₀.toBytes)
    {a : Except Error o.Answer} (returned : progress i h = .returned o v a)
    (target : o.target = some id) : Ending id o v a := by
  have seen : (progress i h).seen? = some (o, v) := Progress.seen?_of_returned returned
  cases hc.ends returned with
  | objected objection => exact .objected objection rfl
  | registered | beaten | unreachable => cases target
  | revised admitted target' _ ends =>
    rw [target] at target'
    cases target'
    cases ends with
    -- equal stored forms: the change has left the record as it was
    | @kept bytes r r' t a _ holds unwritten changes same =>
      obtain ⟨q, hq⟩ := hc.read_toBytes registered seen target holds.read unwritten
      cases hq
      have hr : q = r := Except.ok.inj ((Record.ofBytes_toBytes q).symm.trans holds.record)
      have hat := Command.atOnce_of_ok changes
      have ending : Ending id o v _ := .unchanged admitted holds unwritten
        (by rw [hat, ← hr]; exact Record.toBytes_inj.1 same)
      rw [hat] at ending
      exact ending
    | stored _ holds written changes =>
      have ending : Ending id o v _ := .stored admitted holds written
      rw [Command.atOnce_of_ok changes] at ending
      exact ending
    | refused _ holds unwritten refuses =>
      have hat := Command.atOnce_of_error refuses
      have ending : Ending id o v _ := .unchanged admitted holds unwritten (by rw [hat])
      rw [hat] at ending
      exact ending
    -- what is stored under the transaction is there and can be read
    | flawed _ read flawed unwritten =>
      obtain ⟨q, hq⟩ := hc.read_toBytes registered seen target read unwritten
      cases hq
      rw [Record.ofBytes_toBytes] at flawed
      cases flawed
    | missing _ read unwritten =>
      obtain ⟨q, hq⟩ := hc.read_toBytes registered seen target read unwritten
      cases hq
    | unread _ read unwritten =>
      obtain ⟨q, hq⟩ := hc.read_toBytes registered seen target read unwritten
      cases hq
    | unwritten _ _ write => exact absurd write (hc.write_ne_error seen _)
    | exhausted lost => exact .exhausted _ admitted lost

end Chronicle

end TwoPhaseCommit
