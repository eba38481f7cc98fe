import TwoPhaseCommit.Proofs.Run.Effect

/- The last exchange of a call with the ledger. What a call has seen of its current attempt comes
   from there: a call that has read and not written since has its last word with the ledger in that
   read (`Chronicle.lastWord_read`), and one that was answered on its write in that write
   (`Chronicle.lastWord_write`), after which it only writes to the log. `read_point` and `write_point`
   say what is stored at that exchange. -/
namespace TwoPhaseCommit

/-- Whether it is an exchange with the ledger. -/
def Move.isOnLedger : Move → Bool
  | .hears x => x.isOnLedger
  | _ => false

/-- The steps up to the last exchange of call `i` with the ledger, that one included. -/
def lastWord (i : Nat) : List Moment → List Moment
  | [] => []
  | m :: h => if m.call = i ∧ m.move.isOnLedger = true then m :: h else lastWord i h

theorem lastWord_suffix (i : Nat) : ∀ (h : List Moment), lastWord i h <:+ h
  | [] => List.suffix_refl _
  | m :: h => by
    rw [lastWord]
    split
    · exact List.suffix_refl _
    · exact (lastWord_suffix i h).trans (List.suffix_cons m h)

theorem lastWord_cons_self {m : Moment} (hm : m.move.isOnLedger = true) (h : List Moment) :
    lastWord m.call (m :: h) = m :: h := if_pos ⟨rfl, hm⟩

theorem lastWord_cons_of_ne {i : Nat} {m : Moment} (hi : m.call ≠ i) (h : List Moment) :
    lastWord i (m :: h) = lastWord i h := if_neg fun hm => hi hm.1

theorem lastWord_cons_of_off {i : Nat} {m : Moment} (hm : m.move.isOnLedger = false)
    (h : List Moment) : lastWord i (m :: h) = lastWord i h :=
  if_neg fun h => by rw [hm] at h; cases h.2

/-- No exchange with the ledger is later than the last one. -/
theorem suffix_lastWord {h p : List Moment} {m : Moment} (hmp : m :: p <:+ h)
    (hm : m.move.isOnLedger = true) : m :: p <:+ lastWord m.call h := by
  induction h with
  | nil => cases List.suffix_nil.1 hmp
  | cons m' h ih =>
    rcases List.suffix_cons_iff.1 hmp with he | hs
    · cases he
      exact (lastWord_cons_self hm p).symm ▸ List.suffix_refl _
    · rw [lastWord]
      split
      · exact hs.trans (List.suffix_cons m' h)
      · exact ih hs

theorem call_of_lastWord {i : Nat} {h p : List Moment} {m : Moment} (hlast : lastWord i h = m :: p) :
    m.call = i := by
  induction h with
  | nil => cases hlast
  | cons m' h ih =>
    rw [lastWord] at hlast
    split at hlast
    · next hm =>
      cases hlast
      exact hm.1
    · exact ih hlast

/-- A step of a call that has seen `v` after it: the call has begun, or heard something, or it has
    ended with what it had seen. -/
theorem Occurs.seen_cases {C : Conduct} {l₀ : Ledger} {h : List Moment} {m : Moment} {o : Command}
    {v : View} (occurs : Occurs C l₀ h m) (seen : (progress m.call (m :: h)).seen? = some (o, v)) :
    (m.move = .begins o ∧ v = .start 0) ∨
    (∃ u x, m.move = .hears x ∧ progress m.call h = .underway o u ∧ o.Asks u x.request ∧
      v = u.see x.request x.answer) ∨
    (m.move.isOnLedger = false ∧ progress m.call h = .underway o v) := by
  rw [progress_cons_self] at seen
  cases occurs with
  | begins i o' unmade =>
    rw [unmade] at seen
    cases seen
    exact .inl ⟨rfl, rfl⟩
  | hears i underway asks =>
    rw [underway] at seen
    cases seen
    exact .inr (.inl ⟨_, _, rfl, underway, asks, rfl⟩)
  | returns i underway | isDropped i underway =>
    rw [underway] at seen
    cases seen
    exact .inr (.inr ⟨rfl, underway⟩)

namespace Chronicle
variable {C : Conduct} {l₀ : Ledger} {h : List Moment} {i : Nat} {o : Command} {v : View}

/-- A call that has not begun has exchanged nothing with the ledger. -/
theorem lastWord_of_unmade (hc : Chronicle C l₀ h) (unmade : progress i h = .unmade) :
    lastWord i h = [] := by
  induction hc with
  | nil => rfl
  | @cons h m past next ih =>
    by_cases hi : m.call = i
    · subst hi
      have hp : progress m.call h = .unmade := by
        rw [progress_cons_self] at unmade
        exact Progress.after_eq_unmade unmade
      cases next with
      | begins i o' =>
        rw [progress_cons_self ⟨i, _, _⟩, hp] at unmade
        cases unmade
      | hears i underway | returns i underway | isDropped i underway =>
        rw [hp] at underway
        cases underway
    · rw [progress_cons_of_ne hi] at unmade
      rw [lastWord_cons_of_ne hi]
      exact ih unmade

theorem lastWord_read (hc : Chronicle C l₀ h) (seen : (progress i h).seen? = some (o, v))
    {y : Except Error (Option Bytes)} (read : v.read = some y) (unwritten : v.write = none) :
    ∃ id l p u, lastWord i h = ⟨i, .hears ⟨.ledger (.read id), y⟩, l⟩ :: p ∧
      progress i p = .underway o u ∧ o.target = some id := by
  induction hc generalizing v with
  | nil => cases seen
  | @cons h m past next ih =>
    by_cases hi : m.call = i
    · subst hi
      obtain ⟨-, rfl⟩ | ⟨u, x, hm, underway, asks, rfl⟩ | ⟨hm, underway⟩ := next.seen_cases seen
      · cases read
      · cases hx : x.isOnLedger with
        | false =>
          have hoff : m.move.isOnLedger = false := by rw [hm]; exact hx
          have hnw : x.isWrite = false := Exchange.isWrite_of_off hx
          rw [lastWord_cons_of_off hoff]
          rcases View.read_see read with ⟨id, rfl⟩ | hr
          · cases hx
          · refine ih (Progress.seen?_of_underway underway) hr ?_
            rw [← (View.see_of_not_write hnw u).2]
            exact unwritten
        | true =>
          rcases View.read_see read with ⟨id, rfl⟩ | hr
          · refine ⟨id, m.ledger, h, u, ?_, underway, asks.target_of_read⟩
            rw [lastWord_cons_self (by rw [hm]; exact hx), ← hm]
          -- any other exchange is a swap: if it loses, the read is forgotten, else it is answered
          · have hw : x.isWrite = true := asks.isWrite_of_read hx hr
            cases hl : x.isLoss with
            | true => rw [View.see_of_loss hl] at read; cases read
            | false => exact absurd unwritten (View.see_of_won hw hl u).2
      · rw [lastWord_cons_of_off hm]
        exact ih (Progress.seen?_of_underway underway) read unwritten
    -- the other calls leave the view and the last word of this one
    · rw [progress_cons_of_ne hi] at seen
      rw [lastWord_cons_of_ne hi]
      exact ih seen read unwritten

/-- The second that a call has seen is one that it was told. -/
theorem exists_now (hc : Chronicle C l₀ h) (seen : (progress i h).seen? = some (o, v)) {t : Int64}
    (now : v.now = some t) : ∃ m ∈ h, m.call = i ∧ m.move = .hears ⟨.now, t⟩ := by
  induction hc generalizing v with
  | nil => cases seen
  | @cons h m past next ih =>
    have before : (∃ m ∈ h, m.call = i ∧ m.move = .hears ⟨.now, t⟩) →
        ∃ m' ∈ m :: h, m'.call = i ∧ m'.move = .hears ⟨.now, t⟩ := by
      intro hm
      obtain ⟨m', hmem, hm'⟩ := hm
      exact ⟨m', List.mem_cons_of_mem m hmem, hm'⟩
    by_cases hi : m.call = i
    · subst hi
      obtain ⟨-, rfl⟩ | ⟨u, x, hm, underway, -, rfl⟩ | ⟨-, underway⟩ := next.seen_cases seen
      · cases now
      · rcases View.now_see now with rfl | hu
        · exact ⟨m, List.mem_cons_self, rfl, hm⟩
        · exact before (ih (Progress.seen?_of_underway underway) hu)
      · exact before (ih (Progress.seen?_of_underway underway) now)
    · rw [progress_cons_of_ne hi] at seen
      exact before (ih seen now)

/-- A call that has been answered on its write has its last word with the ledger in that write. -/
theorem lastWord_write (hc : Chronicle C l₀ h) (seen : (progress i h).seen? = some (o, v))
    {y : Except Error Bool} (write : v.write = some y) :
    ∃ x l p u, lastWord i h = ⟨i, .hears x, l⟩ :: p ∧ progress i p = .underway o u ∧
      o.Asks u x.request ∧ x.isWrite = true ∧ v = u.see x.request x.answer := by
  induction hc generalizing v with
  | nil => cases seen
  | @cons h m past next ih =>
    by_cases hi : m.call = i
    · subst hi
      obtain ⟨-, rfl⟩ | ⟨u, x, hm, underway, asks, rfl⟩ | ⟨hm, underway⟩ := next.seen_cases seen
      · cases write
      · cases hw : x.isWrite with
        | false =>
          -- the write was before, so this is a line for the log
          rw [(View.see_of_not_write hw u).2] at write
          obtain ⟨e, hr⟩ := asks.log_of_write write
          obtain ⟨r, a⟩ := x
          cases hr
          rw [lastWord_cons_of_off (by rw [hm]; rfl)]
          exact ih (Progress.seen?_of_underway underway) write
        | true =>
          have hx : x.isOnLedger = true := Exchange.isOnLedger_of_isWrite hw
          refine ⟨x, m.ledger, h, u, ?_, underway, asks, hw, rfl⟩
          rw [lastWord_cons_self (by rw [hm]; exact hx), ← hm]
      · rw [lastWord_cons_of_off hm]
        exact ih (Progress.seen?_of_underway underway) write
    · rw [progress_cons_of_ne hi] at seen
      rw [lastWord_cons_of_ne hi]
      exact ih seen write

theorem lastWord_swap (hc : Chronicle C l₀ h) (seen : (progress i h).seen? = some (o, v))
    {id : String} (target : o.target = some id) (written : v.write = some (.ok true)) :
    ∃ bytes new l p u,
      lastWord i h = ⟨i, .hears ⟨.ledger (.swap id bytes new), .ok .swapped⟩, l⟩ :: p ∧
      progress i p = .underway o u ∧ v = { u with write := some (.ok true) } := by
  obtain ⟨x, l, p, u, hlast, underway, asks, hw, rfl⟩ := hc.lastWord_write seen written
  obtain ⟨bytes, new, hr⟩ := asks.swap_of_isWrite target hw
  obtain ⟨r, a⟩ := x
  cases hr
  obtain ⟨rfl, hu⟩ := View.of_see_swap written
  exact ⟨bytes, new, l, p, u, hlast, underway, hu⟩

/-- What a registration has been answered on its write. -/
theorem lastWord_create {c : Coordinator} {id : String} {n : Int32} {d : Int64}
    (hc : Chronicle C l₀ h) (seen : (progress i h).seen? = some (.startVoting c id n d, v))
    {y : Except Error Bool} (write : v.write = some y) :
    let value := (Record.new n.toUInt32 d).toBytes
    ∃ z l p u, lastWord i h = ⟨i, .hears ⟨.ledger (.create id value), z⟩, l⟩ :: p ∧
      progress i p = .underway (.startVoting c id n d) u ∧
      (u.see (.ledger (.create id value)) z).write = some y := by
  intro value
  obtain ⟨x, l, p, u, hlast, underway, asks, hw, rfl⟩ := hc.lastWord_write seen write
  have hr := asks.create_of_isWrite hw
  obtain ⟨r, z⟩ := x
  cases hr
  exact ⟨z, l, p, u, hlast, underway, write⟩

/-- A write that was granted is the end of what a call has to do with the ledger. -/
theorem lastWord_of_written {s : List Moment} (hc : Chronicle C l₀ h) (hs : s <:+ h)
    (seen : (progress i s).seen? = some (o, v)) (written : v.write = some (.ok true)) :
    (progress i h).seen? = some (o, v) ∧ lastWord i h = lastWord i s := by
  induction hc with
  | nil => rw [← List.suffix_nil.1 hs]; exact ⟨seen, rfl⟩
  | @cons h m past next ih =>
    rcases List.suffix_cons_iff.1 hs with rfl | hs
    · exact ⟨seen, rfl⟩
    · obtain ⟨hseen, hlast⟩ := ih hs
      by_cases hi : m.call = i
      · subst hi
        cases next with
        | begins i o' unmade => rw [unmade] at hseen; cases hseen
        | @hears i _ _ x _ underway asks =>
          -- it can only be a line for the log
          rw [underway] at hseen
          cases hseen
          obtain ⟨e, hr⟩ := asks.log_of_write written
          obtain ⟨r, y⟩ := x
          cases hr
          rw [progress_cons_self ⟨i, _, _⟩, underway, lastWord_cons_of_off rfl]
          exact ⟨rfl, hlast⟩
        | returns i underway | isDropped i underway =>
          rw [underway] at hseen
          cases hseen
          rw [progress_cons_self ⟨i, _, _⟩, underway, lastWord_cons_of_off rfl]
          exact ⟨rfl, hlast⟩
      · rw [progress_cons_of_ne hi, lastWord_cons_of_ne hi]
        exact ⟨hseen, hlast⟩

/-! ## What is stored then -/

/-- The record that a call has read and not written since is stored at its last exchange, before and
    after. -/
theorem read_point (hc : Chronicle .unreliable l₀ h) (seen : (progress i h).seen? = some (o, v))
    {id : String} (target : o.target = some id) {bytes : Bytes} {r : Record} {t : Int64}
    (holds : v.Holds bytes r t) (unwritten : v.write = none) :
    ∃ m p u, lastWord i h = m :: p ∧ m.move = .hears ⟨.ledger (.read id), .ok (some bytes)⟩ ∧
      progress i p = .underway o u ∧ (ledgerAfter l₀ p).read id = some bytes ∧
      m.ledger = ledgerAfter l₀ p := by
  obtain ⟨id', l, p, u, hlast, underway, target'⟩ := hc.lastWord_read seen holds.read unwritten
  obtain rfl : id' = id := Option.some.inj (target'.symm.trans target)
  have occurs := hc.occurs (hlast ▸ lastWord_suffix i h)
  obtain ⟨hread, hl⟩ := occurs.read_ok rfl
  exact ⟨_, p, u, hlast, rfl, underway, hread, hl⟩

/-- The swap that a call was granted is its last exchange: it replaces the record that was read by its
    change at the second that was seen. -/
theorem write_point (hc : Chronicle .unreliable l₀ h) (seen : (progress i h).seen? = some (o, v))
    {id : String} (target : o.target = some id) (written : v.write = some (.ok true)) :
    ∃ m p u bytes r t a r', lastWord i h = m :: p ∧
      m.move = .hears ⟨.ledger (.swap id bytes r'.toBytes), .ok .swapped⟩ ∧
      progress i p = .underway o u ∧ v.Holds bytes r t ∧ o.change r t = .ok (a, r') ∧
      (ledgerAfter l₀ p).read id = some bytes ∧ m.ledger.read id = some r'.toBytes := by
  obtain ⟨bytes, new, l, p, u, hlast, underway, rfl⟩ := hc.lastWord_swap seen target written
  have occurs := hc.occurs (hlast ▸ lastWord_suffix i h)
  obtain ⟨hread, hnew⟩ := occurs.swapped rfl
  cases occurs with
  | hears _ underway' asks =>
    rw [underway] at underway'
    obtain ⟨rfl, rfl⟩ := Progress.underway.inj underway'
    obtain ⟨r, r', t, a, holds, changes, rfl, -⟩ := asks.of_swap
    have holds' : View.Holds { u with write := some (.ok true) } bytes r t :=
      ⟨holds.read, holds.record, holds.now⟩
    exact ⟨_, p, u, bytes, r, t, a, r', hlast, rfl, underway, holds', changes, hread, hnew⟩

end Chronicle
end TwoPhaseCommit
