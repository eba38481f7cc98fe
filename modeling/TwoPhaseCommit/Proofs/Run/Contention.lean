import TwoPhaseCommit.Proofs.Coordinator.Conflict
import TwoPhaseCommit.Proofs.Run.Linearization

/- Who is to blame when a call gives up. On a faithful ledger a swap is denied only because the value
   is not the one that was read, and what has changed it since is a swap that another call on the same
   transaction was granted. So a call that gives up has lost each of its attempts to another call
   (`Defeats`), and as a call is granted one swap at most, to another one each time. What carries this
   is `Chronicle.defeats`: the attempts that a call has lost so far are as many as its defeats. -/
namespace TwoPhaseCommit

/-- In the steps `h` call `i` has made nothing but attempts on the record of `id` that it has lost, to
    the calls `js`, the latest first: in each attempt it read the record and then was denied a swap,
    and in between the other call was granted one. -/
inductive Defeats (i : Nat) (id : String) : List Moment → List Nat → Prop where
  | none {h : List Moment} (quiet : lastWord i h = []) : Defeats i id h []
  | attempt {h p q p' : List Moment} {m rival first : Moment} {bytes new bytes' new' : Bytes}
    {js : List Nat} (last : lastWord i h = m :: p)
    (denied : m.move = .hears ⟨.ledger (.swap id bytes new), .ok .conflict⟩)
    (begun : lastWord i p = first :: p')
    (read : first.move = .hears ⟨.ledger (.read id), .ok (some bytes)⟩)
    (since : first :: p' <:+ q) (within : rival :: q <:+ p) (other : rival.call ≠ i)
    (granted : rival.move = .hears ⟨.ledger (.swap id bytes' new'), .ok .swapped⟩)
    (earlier : Defeats i id p' js) : Defeats i id h (rival.call :: js)

/-- Calls `i` and `j` are under way at one time, `j` as a call on the record of `id`. -/
def Overlaps (h : List Moment) (id : String) (i j : Nat) : Prop :=
  ∃ s, s <:+ h ∧ (∃ o v, progress i s = .underway o v) ∧
    ∃ o v, progress j s = .underway o v ∧ o.target = some id

/-- How far call `i`, on the record of `id`, has come with its attempts when it has seen `v`, as long as
    it is not answered on a write: it has as many defeats as lost attempts, and has made at most one
    exchange with the ledger since, the read of the current attempt. -/
inductive Attempting (i : Nat) (id : String) (h : List Moment) (v : View) : Prop where
  | fresh {js : List Nat} (unread : v.read = none) (defeats : Defeats i id h js)
    (lost : js.length = v.lost) : Attempting i id h v
  | reading {js : List Nat} {y : Except Error (Option Bytes)} {m : Moment} {p : List Moment}
    (read : v.read = some y) (last : lastWord i h = m :: p)
    (heard : m.move = .hears ⟨.ledger (.read id), y⟩) (defeats : Defeats i id p js)
    (lost : js.length = v.lost) : Attempting i id h v

/-- What a call has lost depends on its exchanges with the ledger alone. -/
theorem Defeats.congr {i : Nat} {id : String} {h h' : List Moment} {js : List Nat}
    (defeats : Defeats i id h js) (same : lastWord i h' = lastWord i h) : Defeats i id h' js := by
  cases defeats with
  | none quiet => exact .none (same.trans quiet)
  | attempt last denied begun read since within other granted earlier =>
    exact .attempt (same.trans last) denied begun read since within other granted earlier

theorem Attempting.congr {i : Nat} {id : String} {h h' : List Moment} {v v' : View}
    (attempting : Attempting i id h v) (lost : v'.lost = v.lost) (read : v'.read = v.read)
    (same : lastWord i h' = lastWord i h) : Attempting i id h' v' := by
  cases attempting with
  | fresh unread defeats hlost =>
    exact .fresh (read.trans unread) (defeats.congr same) (hlost.trans lost.symm)
  | reading hread last heard defeats hlost =>
    exact .reading (read.trans hread) (same.trans last) heard defeats (hlost.trans lost.symm)

namespace Chronicle
variable {C : Conduct} {l₀ : Ledger} {h s : List Moment} {i : Nat} {o : Command} {v : View}
  {id : String}

/-- Between two points at which different values are stored, a swap was granted. -/
theorem exists_swapped (hc : Chronicle .faithful l₀ h) (hs : s <:+ h) {stored : Bytes}
    (present : (ledgerAfter l₀ s).read id = some stored)
    (differs : (ledgerAfter l₀ h).read id ≠ some stored) :
    ∃ m q bytes new, s <:+ q ∧ m :: q <:+ h ∧
      m.move = .hears ⟨.ledger (.swap id bytes new), .ok .swapped⟩ := by
  induction hc with
  | nil =>
    rw [List.suffix_nil.1 hs] at present
    exact absurd present differs
  | @cons h m past next ih =>
    rcases List.suffix_cons_iff.1 hs with rfl | hs
    · exact absurd present differs
    · by_cases same : (ledgerAfter l₀ h).read id = some stored
      · obtain ⟨bytes, new, hm⟩ := next.swapped_of_ne same differs
        exact ⟨m, h, bytes, new, hs, List.suffix_refl _, hm⟩
      · obtain ⟨m', q, bytes, new, hsq, hq, hm⟩ := ih hs same
        exact ⟨m', q, bytes, new, hsq, hq.trans (List.suffix_cons m h), hm⟩

/-- A call is granted one swap at most. -/
theorem swapped_unique (hc : Chronicle .faithful l₀ h) {m m' : Moment} {p p' : List Moment}
    {bytes new bytes' new' : Bytes} (hp : m :: p <:+ h) (hp' : m' :: p' <:+ h)
    (hm : m.move = .hears ⟨.ledger (.swap id bytes new), .ok .swapped⟩)
    (hm' : m'.move = .hears ⟨.ledger (.swap id bytes' new'), .ok .swapped⟩)
    (same : m'.call = m.call) : m' :: p' = m :: p := by
  have h₁ := hc.pointOf_of_swapped hp hm
  have h₂ := hc.pointOf_of_swapped hp' hm'
  rw [same, h₁] at h₂
  exact (Option.some.inj h₂).symm

/-! ## The attempts that a call has lost -/

/-- A swap that is denied after the record was read was preceded by one that another call was
    granted. -/
theorem attempt (hc : Chronicle .faithful l₀ h) {p' : List Moment} {first : Moment} {bytes : Bytes}
    {js : List Nat} (begun : lastWord i h = first :: p')
    (read : first.move = .hears ⟨.ledger (.read id), .ok (some bytes)⟩)
    (differs : (ledgerAfter l₀ h).read id ≠ some bytes) (earlier : Defeats i id p' js)
    {m : Moment} (hi : m.call = i) {new : Bytes}
    (denied : m.move = .hears ⟨.ledger (.swap id bytes new), .ok .conflict⟩) :
    ∃ j, Defeats i id (m :: h) (j :: js) := by
  have hfirst : first :: p' <:+ h := begun ▸ lastWord_suffix i h
  obtain ⟨hread, hl⟩ := (hc.unreliable.occurs hfirst).read_ok read
  have present : (ledgerAfter l₀ (first :: p')).read id = some bytes := by
    rw [ledgerAfter, hl]
    exact hread
  obtain ⟨rival, q, bytes', new', since, within, granted⟩ := hc.exists_swapped hfirst present differs
  have other : rival.call ≠ i := by
    -- what call `i` last exchanged with the ledger is the read
    intro he
    have hlast : rival :: q <:+ first :: p' := by
      rw [← begun, ← he]
      exact suffix_lastWord within (by rw [granted]; rfl)
    have hlt := (hlast.trans since).length_le
    rw [List.length_cons] at hlt
    omega
  subst hi
  exact ⟨rival.call, .attempt (lastWord_cons_self (by rw [denied]; rfl) h) denied begun read since
    within other granted earlier⟩

/-- A call on the record of `id` hears the answer to its next request. -/
theorem attempting_hears (hc : Chronicle .faithful l₀ h) {x : Exchange} {m : Moment}
    (attempting : Attempting i id h v) (target : o.target = some id) (asks : o.Asks v x.request)
    (hi : m.call = i) (hm : m.move = .hears x) (answered : Faithful (ledgerAfter l₀ h) x m.ledger)
    (unwritten : (v.see x.request x.answer).write = none) :
    Attempting i id (m :: h) (v.see x.request x.answer) := by
  obtain ⟨r, y⟩ := x
  cases r with
  | now | pause | log =>
    exact attempting.congr rfl rfl (lastWord_cons_of_off (by rw [hm]; rfl) h)
  | ledger q =>
    subst hi
    have hlast : lastWord m.call (m :: h) = m :: h := lastWord_cons_self (by rw [hm]; rfl) h
    cases q with
    | read key =>
      obtain rfl : key = id := Option.some.inj (asks.target_of_read.symm.trans target)
      cases attempting with
      | fresh unread defeats lost => exact .reading rfl hlast hm defeats lost
      -- a second read in one attempt is not asked for
      | reading read => cases asks.isWrite_of_read (x := ⟨.ledger (.read key), y⟩) rfl read
    | swap key expected new =>
      obtain rfl : key = id := Option.some.inj (asks.target_of_swap.symm.trans target)
      obtain ⟨r, r', t, a, holds, -⟩ := asks.of_swap
      cases attempting with
      | fresh unread => rw [holds.read] at unread; cases unread
      | reading read begun heard defeats lost =>
        rw [holds.read] at read
        cases read
        obtain ⟨rfl, -⟩ := answered.of_ledger
        by_cases same : (ledgerAfter l₀ h).read key = some expected
        · rw [Ledger.perform, Ledger.swap_of_expected same] at unwritten
          cases unwritten
        · have hswap : ((ledgerAfter l₀ h).perform (.swap key expected new)).1 = .conflict := by
            rw [Ledger.perform, Ledger.swap, if_neg same]
          rw [hswap] at hm ⊢
          obtain ⟨j, hj⟩ := hc.attempt begun heard same defeats rfl hm
          exact .fresh rfl hj (congrArg Nat.succ lost)
    | create =>
      cases asks with
      | register => cases target
      | revise _ _ asks => cases asks
    | heartbeat =>
      cases asks with
      | register | beat => cases target
      | revise _ _ asks => cases asks

/-- As long as a call on the record of `id` is not answered on a write of its own, it has lost as many
    attempts as it has defeats. -/
theorem attempting (hc : Chronicle .faithful l₀ h) (seen : (progress i h).seen? = some (o, v))
    (target : o.target = some id) (unwritten : v.write = none) : Attempting i id h v := by
  induction hc generalizing v with
  | nil => cases seen
  | @cons h m past next ih =>
    by_cases hi : m.call = i
    · subst hi
      obtain ⟨hm, rfl⟩ | ⟨u, x, hm, underway, asks, rfl⟩ | ⟨hm, underway⟩ := next.seen_cases seen
      · have unmade : progress m.call h = .unmade := by
          cases next with
          | begins i o' unmade => exact unmade
          | hears | returns | isDropped => cases hm
        have quiet : lastWord m.call (m :: h) = [] := by
          rw [lastWord_cons_of_off (by rw [hm]; rfl)]
          exact past.lastWord_of_unmade unmade
        exact .fresh rfl (.none quiet) rfl
      · have hu : u.write = none := by
          cases hw : x.isWrite with
          | true => exact (asks.unwritten hw).2
          | false => rw [← (View.see_of_not_write hw u).2, unwritten]
        exact past.attempting_hears (ih (Progress.seen?_of_underway underway) hu) target asks rfl hm
          (next.faithful hm) unwritten
      · have before := ih (Progress.seen?_of_underway underway) unwritten
        exact before.congr rfl rfl (lastWord_cons_of_off hm h)
    · rw [progress_cons_of_ne hi] at seen
      exact (ih seen unwritten).congr rfl rfl (lastWord_cons_of_ne hi h)

/-! ## The rivals -/

/-- Each defeat is to another call on the same transaction, which was under way at the same time and
    was granted a swap. -/
theorem rival_of_mem {js : List Nat} (hc : Chronicle .faithful l₀ h) (defeats : Defeats i id h js)
    {j : Nat} (hj : j ∈ js) : j ≠ i ∧ Overlaps h id i j ∧ ∃ m p bytes new, m :: p <:+ h ∧ m.call = j ∧
      m.move = .hears ⟨.ledger (.swap id bytes new), .ok .swapped⟩ := by
  induction defeats with
  | none => cases hj
  | @attempt h p q p' m rival first bytes new bytes' new' js last denied begun read since within other
      granted earlier ih =>
    have hm : m :: p <:+ h := last ▸ lastWord_suffix i h
    have hp : p <:+ h := (List.suffix_cons m p).trans hm
    have hq : rival :: q <:+ h := within.trans hp
    have hfirst : first :: p' <:+ p := begun ▸ lastWord_suffix i p
    rcases List.mem_cons.1 hj with rfl | hj
    · refine ⟨other, ⟨q, (List.suffix_cons rival q).trans hq, ?_, ?_⟩, rival, q, bytes', new', hq, rfl,
        granted⟩
      -- call `i` is under way from its read on until its swap is denied
      · obtain ⟨o, v, underway, -⟩ := (hc.occurs hm).underway_of_hears denied
        obtain ⟨o', v', reading, -⟩ := (hc.occurs (hfirst.trans hp)).underway_of_hears read
        rw [call_of_lastWord last] at underway
        rw [call_of_lastWord begun] at reading
        rcases (hc.suffix hp).underway_of_suffix ((List.suffix_cons rival q).trans within) underway with
          unmade | ⟨u, hu⟩
        · have hp' := progress_unmade_of_suffix ((List.suffix_cons first p').trans since) unmade
          rw [hp'] at reading
          cases reading
        · exact ⟨o, u, hu⟩
      · obtain ⟨o, v, underway, asks⟩ := (hc.occurs hq).underway_of_hears granted
        exact ⟨o, v, underway, asks.target_of_swap⟩
    · have hp' : p' <:+ h := (List.suffix_cons first p').trans (hfirst.trans hp)
      obtain ⟨hne, ⟨s, hs, both⟩, m', q', b, n, hq', rest⟩ := ih (hc.suffix hp') hj
      exact ⟨hne, ⟨s, hs.trans hp', both⟩, m', q', b, n, hq'.trans hp', rest⟩

/-- No two defeats are to the same call. -/
theorem nodup_of_defeats {js : List Nat} (hc : Chronicle .faithful l₀ h)
    (defeats : Defeats i id h js) : js.Nodup := by
  induction defeats with
  | none => exact .nil
  | @attempt h p q p' m rival first bytes new bytes' new' js last denied begun read since within other
      granted earlier ih =>
    have hp : p <:+ h := (List.suffix_cons m p).trans (last ▸ lastWord_suffix i h)
    have hfirst : first :: p' <:+ p := begun ▸ lastWord_suffix i p
    have hp' : p' <:+ h := (List.suffix_cons first p').trans (hfirst.trans hp)
    refine List.nodup_cons.2 ⟨?_, ih (hc.suffix hp')⟩
    -- the swap that the call was granted in an earlier attempt would be this one, which is later
    intro hmem
    obtain ⟨-, -, m', q', b, n, hq', hcall, hm'⟩ := (hc.suffix hp').rival_of_mem earlier hmem
    have he := hc.swapped_unique (within.trans hp) (hq'.trans hp') granted hm' hcall
    have hlt := (since.trans ((List.suffix_cons rival q).trans (he ▸ hq'))).length_le
    rw [List.length_cons] at hlt
    omega

/-! ## Giving up -/

/-- On a faithful ledger a call on a transaction is unavailable only when it has used up its attempts. -/
theorem exhausted_of_unavailable (hc : Chronicle .faithful l₀ h) {e : Error}
    (returned : progress i h = .returned o v (.error e)) (target : o.target = some id)
    (unavailable : e.kind = .unavailable) : v = .start o.policy.attempts ∧
      ∃ activity, o.activity? = some activity ∧ e = (Refusal.contention activity id).error := by
  have seen : (progress i h).seen? = some (o, v) := Progress.seen?_of_returned returned
  have hends := hc.ends returned
  generalize ha : (Except.error e : Except Error o.Answer) = a at hends
  cases hends with
  | registered | beaten | unreachable => cases target
  | objected objection =>
    cases ha
    rw [Refusal.error, Command.kind_of_objection objection] at unavailable
    cases unavailable
  | revised _ target' named ends =>
    rw [target] at target'
    cases target'
    cases ends with
    | kept | stored => cases ha
    | refused _ _ _ refuses =>
      cases ha
      rw [Refusal.error, Command.kind_of_refused target refuses] at unavailable
      cases unavailable
    | flawed | missing =>
      cases ha
      cases unavailable
    | unread _ read unwritten =>
      obtain ⟨p, -, hy⟩ := hc.read_stored seen target read unwritten
      cases hy
    | unwritten _ _ write => exact absurd write (hc.write_ne_error seen _)
    | exhausted lost =>
      cases ha
      exact ⟨lost, _, named, rfl⟩

/-- On a faithful ledger only a swap is lost, and so nothing by a call that changes no record. -/
theorem lost_eq_zero (hc : Chronicle .faithful l₀ h) (seen : (progress i h).seen? = some (o, v))
    (target : o.target = none) : v.lost = 0 := by
  induction hc generalizing v with
  | nil => cases seen
  | @cons h m past next ih =>
    by_cases hi : m.call = i
    · subst hi
      obtain ⟨-, rfl⟩ | ⟨u, x, hm, underway, asks, rfl⟩ | ⟨-, underway⟩ := next.seen_cases seen
      · rfl
      · have hu : u.lost = 0 := ih (Progress.seen?_of_underway underway)
        have answered := next.faithful hm
        generalize m.ledger = l' at answered
        cases answered with
        | now | pause | log => exact hu
        | carriedOut q =>
          cases q with
          | read | heartbeat => exact hu
          | create key value =>
            generalize ((ledgerAfter l₀ h).perform (.create key value)).1 = y
            cases y <;> exact hu
          | swap =>
            rw [asks.target_of_swap] at target
            cases target
      · exact ih (Progress.seen?_of_underway underway)
    · rw [progress_cons_of_ne hi] at seen
      exact ih seen

/-- A registration loses nothing on a faithful ledger, and so it is not unavailable. -/
theorem registration_ne_unavailable (hc : Chronicle .faithful l₀ h) (c : Coordinator) (n : Int32)
    (d : Int64) (message : String) :
    progress i h ≠ .returned (.startVoting c id n d) v (.error ⟨.unavailable, message⟩) := by
  intro returned
  have seen : (progress i h).seen? = some (.startVoting c id n d, v) :=
    Progress.seen?_of_returned returned
  have hends := hc.ends returned
  generalize ha : (Except.error ⟨.unavailable, message⟩ : Except Error Unit) = a at hends
  cases hends with
  | objected objection =>
    have hk : (Refusal.error _).kind = .unavailable := (congrArg Error.kind (Except.error.inj ha)).symm
    rw [Refusal.error, Command.kind_of_objection objection] at hk
    cases hk
  | revised _ target => cases target
  | registered _ ends =>
    cases ends with
    | created | occupied => cases ha
    | unwritten _ _ write => exact absurd write (hc.write_ne_error seen _)
    | exhausted hv =>
      have lost : c.retry.attempts = 0 := by
        rw [← hc.lost_eq_zero seen rfl, hv]
        rfl
      exact absurd lost (Nat.pos_iff_ne_zero.1 c.retry.attempts_pos)

end Chronicle

/-- On a faithful ledger a vote or a question for the decision is unavailable only when it has given
    up, having lost each of its attempts to another call on the transaction, each time to a different
    one, that was granted a swap between its read and its own swap. So no call gives up that meets
    fewer other calls on its transaction than it has attempts, and no registration gives up. -/
theorem unavailable_only_by_contention {l₀ : Ledger} {h : List Moment} {w : World}
    (run : Run .faithful l₀ h w) :
    (∀ i o v e id, progress i h = .returned o v (.error e) → o.target = some id →
      e.kind = .unavailable → ∃ activity js, o.activity? = some activity ∧
        e = (Refusal.contention activity id).error ∧ Defeats i id h js ∧
        js.length = o.policy.attempts ∧ js.Nodup ∧ ∀ j ∈ js, j ≠ i ∧ Overlaps h id i j) ∧
    (∀ i o v a id (js : List Nat), progress i h = .returned o v a → o.target = some id →
      (∀ j, j ≠ i → Overlaps h id i j → j ∈ js) → js.length < o.policy.attempts →
      ∀ message, a ≠ .error ⟨.unavailable, message⟩) ∧
    ∀ i c id n d v message,
      progress i h ≠ .returned (.startVoting c id n d) v (.error ⟨.unavailable, message⟩) := by
  have hc : Chronicle .faithful l₀ h := run.chronicle.1
  have beaten : ∀ i o v e id, progress i h = .returned o v (.error e) → o.target = some id →
      e.kind = .unavailable → ∃ activity js, o.activity? = some activity ∧
        e = (Refusal.contention activity id).error ∧ Defeats i id h js ∧
        js.length = o.policy.attempts ∧ js.Nodup ∧ ∀ j ∈ js, j ≠ i ∧ Overlaps h id i j := by
    intro i o v e id returned target unavailable
    obtain ⟨rfl, activity, named, he⟩ := hc.exhausted_of_unavailable returned target unavailable
    cases hc.attempting (Progress.seen?_of_returned returned) target rfl with
    | @fresh js _ defeats lost =>
      refine ⟨activity, js, named, he, defeats, lost, hc.nodup_of_defeats defeats, ?_⟩
      intro j hj
      obtain ⟨hne, overlaps, -⟩ := hc.rival_of_mem defeats hj
      exact ⟨hne, overlaps⟩
    | reading read => cases read
  refine ⟨beaten, ?_, ?_⟩
  · intro i o v a id js returned target all few message he
    subst he
    obtain ⟨-, rivals, -, -, -, hlen, nodup, hrivals⟩ := beaten i o v _ id returned target rfl
    have hsub : rivals ⊆ js := fun j hj => all j (hrivals j hj).1 (hrivals j hj).2
    have hle := nodup.length_le_of_subset hsub
    omega
  · intro i c id n d v message
    exact hc.registration_ne_unavailable c n d message

/-- Of two votes that read the same record the one that has a single attempt is beaten and gives up. The
    other meets nobody else and may try sixteen times, so it does not. -/
theorem unavailable_only_by_contention_of_two : ∃ h w, Run .faithful awaiting h w ∧
    (∃ v, progress 0 h = .returned (.vote ⟨Command.onceOnly⟩ "a" 0 .commit) v
      (.error (Refusal.contention .vote "a").error)) ∧
    (∃ js, Defeats 0 "a" h js ∧ js.length = 1) ∧
    ∃ v a, progress 1 h = .returned (.vote ⟨.standard⟩ "a" 1 .abort) v a ∧
      ∀ message, a ≠ .error ⟨.unavailable, message⟩ := by
  obtain ⟨h, w, run, ⟨v₀, told₀⟩, ⟨v₁, told₁⟩, others⟩ : ∃ h w, Run .faithful awaiting h w ∧
      (∃ v, progress 0 h = .returned (.vote ⟨Command.onceOnly⟩ "a" 0 .commit) v
        (.error (Refusal.contention .vote "a").error)) ∧
      (∃ v, progress 1 h = .returned (.vote ⟨.standard⟩ "a" 1 .abort) v (.ok .counted)) ∧
      ∀ j, j ≠ 0 → j ≠ 1 → progress j h = .unmade := by
    refine ⟨_, _, .step (.step (.step (.step (.step (.step (.step (.step (.step (.step (.step (.step
      (.step .start
      (.begins 0 (.vote ⟨Command.onceOnly⟩ "a" 0 .commit) rfl))
      (.begins 1 (.vote ⟨.standard⟩ "a" 1 .abort) rfl))
      (.hears 0 rfl (.carriedOut (.read "a"))))
      (.hears 1 rfl (.carriedOut (.read "a"))))
      (.hears 0 rfl (.now 5)))
      (.hears 1 rfl (.now 4)))
      (.hears 1 rfl (.carriedOut (.swap "a" _ _))))
      (.hears 0 rfl (.carriedOut (.swap "a" _ _))))
      (.hears 0 rfl (.log _)))
      (.hears 0 rfl (.log _)))
      (.returns 0 rfl))
      (.hears 1 rfl (.log _)))
      (.returns 1 rfl), ⟨_, rfl⟩, ⟨_, rfl⟩, ?_⟩
    intro j h₀ h₁
    simp only [progress, if_neg (Ne.symm h₀), if_neg (Ne.symm h₁)]
  obtain ⟨beaten, few, -⟩ := unavailable_only_by_contention run
  obtain ⟨-, js, -, -, defeats, hlen, -, -⟩ := beaten 0 _ v₀ _ "a" told₀ rfl rfl
  refine ⟨h, w, run, ⟨v₀, told₀⟩, ⟨js, defeats, hlen⟩, v₁, _, told₁, ?_⟩
  refine few 1 _ v₁ _ "a" [0] told₁ rfl ?_ (by decide)
  intro j hj overlaps
  obtain ⟨s, hs, -, o, v, underway, -⟩ := overlaps
  by_cases h₀ : j = 0
  · rw [h₀]
    exact List.mem_singleton.2 rfl
  · rw [progress_unmade_of_suffix hs (others j h₀ hj)] at underway
    cases underway

end TwoPhaseCommit
