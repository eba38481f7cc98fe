import TwoPhaseCommit.Proofs.Call.Contested
import TwoPhaseCommit.Proofs.Coordinator.Alone

/- What a command alone does when its writes lose. A registration and a change of a record are two
   loops over attempts; `AttemptLoop` is what they have in common, and `AttemptLoop.run` goes by
   induction on the attempts left. The attempts that are made, with a pause between one and the next,
   are `rounds`. `retries_exactly` says what comes of a command that has something to store. -/
namespace TwoPhaseCommit

/-! ## Rounds of attempts -/

/-- `n` attempts from number `i` on, with a pause between one and the next. -/
def rounds (policy : RetryPolicy) (attempt : List Request) (i : Nat) : Nat → List Request
  | 0 => []
  | 1 => attempt
  | n+2 => attempt ++ .pause (policy.delay i) :: rounds policy attempt (i + 1) (n + 1)

section
variable {policy : RetryPolicy} {attempt : List Request}

theorem rounds_succ {n : Nat} (hn : n ≠ 0) (i : Nat) : rounds policy attempt i (n + 1) =
    attempt ++ .pause (policy.delay i) :: rounds policy attempt (i + 1) n := by
  obtain ⟨m, rfl⟩ := Nat.exists_eq_succ_of_ne_zero hn
  rfl

theorem countP_rounds (once : attempt.countP Request.isWrite = 1) : ∀ (n i : Nat),
    (rounds policy attempt i n).countP Request.isWrite = n
  | 0, _ => rfl
  | 1, _ => once
  | n+2, i => by
    have hpause : (Request.pause (policy.delay i)).isWrite = false := rfl
    rw [rounds, List.countP_append, once, List.countP_cons_of_neg (by simp [hpause]),
      countP_rounds once (n + 1) (i + 1)]
    omega

theorem pauses_rounds (quiet : attempt.filterMap Request.pause? = []) : ∀ (n i : Nat),
    (rounds policy attempt i n).filterMap Request.pause? =
      (List.range (n - 1)).map fun j => policy.delay (i + j)
  | 0, _ => rfl
  | 1, _ => quiet
  | n+2, i => by
    have hpause : (Request.pause (policy.delay i)).pause? = some (policy.delay i) := rfl
    rw [rounds, List.filterMap_append, quiet, List.nil_append, List.filterMap_cons_some hpause,
      pauses_rounds quiet (n + 1) (i + 1)]
    show _ = (List.range (n + 1)).map _
    rw [List.range_succ_eq_map, List.map_cons, List.map_map]
    congr 1
    apply List.map_congr_left
    intro j _
    show policy.delay (i + 1 + j) = policy.delay (i + (j + 1))
    rw [Nat.add_right_comm, Nat.add_assoc]

end

/-! ## A loop over attempts -/

section
variable {α : Type} {c : Coordinator} {p : Script} {k : Nat} {t : Int64} {l : Ledger}

/-- After a lost attempt the loss goes to the log, and there is a pause unless it was the last. -/
theorem run_backOff (c : Coordinator) (p : Script) (l : Ledger) (heard : List Exchange) (e : Event)
    (i left : Nat) (next : Call α) : ∃ heard',
      (do Call.log e
          c.backOff i left
          next : Call α).run p.environment ⟨l, heard⟩ = next.run p.environment ⟨l, heard'⟩ ∧
      requests heard' = requests heard ++ (if left = 0 then [] else [.pause (c.retry.delay i)]) := by
  by_cases hleft : left = 0
  · refine ⟨⟨.log e, ()⟩ :: heard, ?_, ?_⟩
    · rw [Coordinator.backOff, if_pos hleft]
      rfl
    · rw [if_pos hleft, requests_log, List.append_nil]
  · refine ⟨⟨.pause (c.retry.delay i), ()⟩ :: ⟨.log e, ()⟩ :: heard, ?_, ?_⟩
    · rw [Coordinator.backOff, if_neg hleft]
      rfl
    · rw [if_neg hleft, ← requests_log e heard]
      exact requests_append [⟨.pause (c.retry.delay i), ()⟩] _

/-- A loop over attempts with the requests `attempt`, one of them a write: an attempt whose write
    loses is followed by the next one, another one ends in `a` and leaves the ledger `l'`. -/
structure AttemptLoop (c : Coordinator) (p : Script) (k : Nat) (activity : Activity) (id : String)
    (attempt : List Request) (l l' : Ledger) (a : α)
    (loop : (left attempt : Nat) → Call (Except Error α)) : Prop where
  once : attempt.countP Request.isWrite = 1
  ends : ∀ i, loop 0 i = c.giveUp activity id
  loses : ∀ left i heard, heard.countP Exchange.isWrite < k → ∃ e heard',
    (loop (left + 1) i).run p.environment ⟨l, heard⟩ =
      (do Call.log e
          c.backOff i left
          loop left (i + 1) : Call (Except Error α)).run p.environment ⟨l, heard'⟩ ∧
      requests heard' = requests heard ++ attempt
  wins : ∀ left i heard, k ≤ heard.countP Exchange.isWrite → ∃ heard',
    (loop (left + 1) i).run p.environment ⟨l, heard⟩ = (some (.ok a), ⟨l', heard'⟩) ∧
      requests heard' = requests heard ++ attempt

/-- A loop that has lost `lost` attempts makes as many more as it may, up to one that does not lose. -/
theorem AttemptLoop.run {activity : Activity} {id : String} {attempt : List Request} {l' : Ledger}
    {a : α} {loop : (left attempt : Nat) → Call (Except Error α)}
    (h : AttemptLoop c p k activity id attempt l l' a loop) : ∀ (left lost : Nat)
    (heard : List Exchange), lost ≤ k → heard.countP Exchange.isWrite = lost →
    ∃ x l₁ heard', (loop left (lost + 1)).run p.environment ⟨l, heard⟩ = (some x, ⟨l₁, heard'⟩) ∧
      (k < lost + left → x = .ok a ∧ l₁ = l') ∧
      (lost + left ≤ k → x = .error (Refusal.contention activity id).error ∧ l₁ = l) ∧
      requests heard' = requests heard ++
        rounds c.retry attempt (lost + 1) (min (k + 1 - lost) left) := by
  intro left
  induction left with
  | zero =>
    intro lost heard hle hlost
    refine ⟨.error (Refusal.contention activity id).error, l,
      ⟨.log (.gaveUp activity id c.retry.maxAttempts), ()⟩ :: heard, ?_, ?_, ?_, ?_⟩
    · rw [h.ends]
      rfl
    · intro hlt
      omega
    · intro _
      exact ⟨rfl, rfl⟩
    · rw [requests_log, Nat.min_zero, rounds, List.append_nil]
  | succ left ih =>
    intro lost heard hle hlost
    by_cases hk : lost = k
    · obtain ⟨heard', hrun, hreq⟩ := h.wins left (lost + 1) heard (by omega)
      refine ⟨_, _, _, hrun, fun _ => ⟨rfl, rfl⟩, fun hle' => by omega, ?_⟩
      have hone : min (k + 1 - lost) (left + 1) = 1 := by omega
      rw [hreq, hone, rounds]
    · obtain ⟨e, heard₁, hrun₁, hreq₁⟩ := h.loses left (lost + 1) heard (by omega)
      obtain ⟨heard₂, hrun₂, hreq₂⟩ := run_backOff c p l heard₁ e (lost + 1) left (loop left (lost + 1 + 1))
      -- the pause is no write, so one more attempt is lost
      have hlost₂ : heard₂.countP Exchange.isWrite = lost + 1 := by
        rw [← countP_requests, hreq₂, hreq₁, List.countP_append, List.countP_append, h.once,
          countP_requests, hlost]
        split <;> rfl
      obtain ⟨x, l₁, heard', hrun, hok, herror, hreq⟩ := ih (lost + 1) heard₂ (by omega) hlost₂
      refine ⟨x, l₁, heard', ?_, fun hlt => hok (by omega), fun hle' => herror (by omega), ?_⟩
      · rw [hrun₁, hrun₂, hrun]
      · rw [hreq, hreq₂, hreq₁]
        by_cases hleft : left = 0
        · subst hleft
          have hone : min (k + 1 - lost) (0 + 1) = 1 := by omega
          rw [if_pos rfl, Nat.min_zero, hone, rounds, rounds, List.append_nil, List.append_nil]
        · have hn : min (k + 1 - (lost + 1)) left ≠ 0 := by omega
          have hsucc : min (k + 1 - lost) (left + 1) = min (k + 1 - (lost + 1)) left + 1 := by omega
          rw [if_neg hleft, hsucc, rounds_succ hn]
          simp only [List.append_assoc, List.singleton_append]

/-- What comes of attempts of which the first `k` lose: the answer `a` and the ledger `l'` if the
    policy allows one more, else a failure that leaves the ledger `l`. -/
structure Tried (policy : RetryPolicy) (k : Nat) (activity : Activity) (id : String)
    (attempt : List Request) (l l' : Ledger) (a : α) (x : Except Error α) (s : Scene) : Prop where
  wins : k < policy.attempts → x = .ok a ∧ s.ledger = l'
  loses : policy.attempts ≤ k → x = .error (Refusal.contention activity id).error ∧ s.ledger = l
  asks : requests s.heard = rounds policy attempt 1 (min (k + 1) policy.attempts)

theorem AttemptLoop.tried {activity : Activity} {id : String} {attempt : List Request} {l' : Ledger}
    {a : α} {loop : (left attempt : Nat) → Call (Except Error α)}
    (h : AttemptLoop c p k activity id attempt l l' a loop) :
    ∃ x s, (loop c.retry.attempts 1).run p.environment ⟨l, []⟩ = (some x, s) ∧
      Tried c.retry k activity id attempt l l' a x s := by
  obtain ⟨x, l₁, heard, hrun, hok, herror, hreq⟩ := h.run c.retry.attempts 0 [] (Nat.zero_le k) rfl
  rw [Nat.zero_add] at hok herror
  exact ⟨x, ⟨l₁, heard⟩, hrun, hok, herror, hreq⟩

theorem Script.Contested.register (h : p.Contested k t) (c : Coordinator) {id : String} (n : Int32)
    (d : Int64) (value : Bytes) (absent : l.read id = none) :
    AttemptLoop c p k .startVoting id [.ledger (.create id value)] l (l.put id value) ()
      (c.register id n d value) where
  once := rfl
  ends _ := rfl
  loses left i heard hlt := by
    obtain ⟨reason, met⟩ := (h.rebuffs heard (.create id value) rfl hlt).meet_create l
    refine ⟨.registrationConflict id i reason,
      ⟨.ledger (.create id value), .error ⟨.conflict, reason⟩⟩ :: heard, ?_,
      requests_append [_] heard⟩
    rw [Coordinator.register]
    exact Script.run_query met _
  wins left i heard hle := by
    have met := h.meets (q := .create id value) heard (.inr hle) (Ledger.create_of_absent absent value)
    refine ⟨⟨.log (.startedVoting id n d), ()⟩ ::
      ⟨.ledger (.create id value), .ok .created⟩ :: heard, ?_, ?_⟩
    · rw [Coordinator.register]
      exact Script.run_query met _
    · rw [requests_log]
      exact requests_append [_] heard

theorem Script.Contested.run_fetch (h : p.Contested k t) {id : String} {bytes : Bytes}
    (read : l.read id = some bytes) (heard : List Exchange)
    (next : Except Error Bytes → Call (Except Error α)) :
    (Coordinator.fetch id >>= next).run p.environment ⟨l, heard⟩ =
      (next (.ok bytes)).run p.environment ⟨l, ⟨.ledger (.read id), .ok (some bytes)⟩ :: heard⟩ := by
  have met : (p.fate heard (.read id)).meet l (.read id) = (.ok (some bytes), l) :=
    h.meets heard (.inl rfl) (by rw [Ledger.perform, read])
  rw [Coordinator.fetch, bind_assoc]
  exact Script.run_query met _

/-- An attempt to change a record reads it, looks at the clock and tries to write the changed
    record; `next` goes on after a write that is granted or lost. -/
theorem Script.Contested.run_revise (h : p.Contested k t) (c : Coordinator) (activity : Activity)
    {id : String} {change : Coordinator.Change α} {bytes : Bytes} {r r' : Record} {a : α}
    (read : l.read id = some bytes) (record : Record.ofBytes bytes = .ok r)
    (changes : change r t = .ok (a, r')) (differs : r'.toBytes ≠ bytes) (left i : Nat)
    (heard : List Exchange) : ∃ next : Except Error SwapOutcome → Call (Except Error α),
    (c.revise activity id change (left + 1) i).run p.environment ⟨l, heard⟩ =
      (Call.swap id bytes r'.toBytes >>= next).run p.environment
        ⟨l, ⟨.now, t⟩ :: ⟨.ledger (.read id), .ok (some bytes)⟩ :: heard⟩ ∧
    next (.ok .swapped) = .done (.ok a) ∧
    ∀ y reason, SwapLost y reason → next y =
      (do Call.log (.writeConflict activity id i reason)
          c.backOff i left
          c.revise activity id change left (i + 1)) := by
  apply Exists.intro
  refine ⟨?run, ?granted, ?lost⟩
  case run =>
    rw [Coordinator.revise]
    refine (h.run_fetch read heard _).trans ?_
    simp only [record]
    refine (Script.run_now (h.second _) _).trans ?_
    simp only [changes, if_neg differs]
    rfl
  case granted => rfl
  case lost =>
    intro y reason lost
    cases lost with
    | conflict | failed => rfl

theorem Script.Contested.revise (h : p.Contested k t) (c : Coordinator) (activity : Activity)
    {id : String} {change : Coordinator.Change α} {bytes : Bytes} {r r' : Record} {a : α}
    (read : l.read id = some bytes) (record : Record.ofBytes bytes = .ok r)
    (changes : change r t = .ok (a, r')) (differs : r'.toBytes ≠ bytes) :
    AttemptLoop c p k activity id
      [.ledger (.read id), .now, .ledger (.swap id bytes r'.toBytes)] l (l.put id r'.toBytes) a
      (c.revise activity id change) where
  once := rfl
  ends _ := rfl
  loses left i heard hlt := by
    obtain ⟨next, hrun, -, hnext⟩ := h.run_revise c activity read record changes differs left i heard
    -- neither the read nor the look at the clock counts as a write
    obtain ⟨y, reason, lost, met⟩ :=
      (h.rebuffs (⟨.now, t⟩ :: ⟨.ledger (.read id), .ok (some bytes)⟩ :: heard)
        (.swap id bytes r'.toBytes) rfl hlt).meet_swap l
    refine ⟨.writeConflict activity id i reason, ⟨.ledger (.swap id bytes r'.toBytes), y⟩ ::
      ⟨.now, t⟩ :: ⟨.ledger (.read id), .ok (some bytes)⟩ :: heard, ?_, ?_⟩
    · rw [hrun, ← hnext y reason lost]
      exact Script.run_query met next
    · exact requests_append [_, _, _] heard
  wins left i heard hle := by
    obtain ⟨next, hrun, hnext, -⟩ := h.run_revise c activity read record changes differs left i heard
    have met := h.meets (q := .swap id bytes r'.toBytes)
      (⟨.now, t⟩ :: ⟨.ledger (.read id), .ok (some bytes)⟩ :: heard) (.inr hle)
      (Ledger.swap_of_expected read r'.toBytes)
    refine ⟨⟨.ledger (.swap id bytes r'.toBytes), .ok .swapped⟩ ::
      ⟨.now, t⟩ :: ⟨.ledger (.read id), .ok (some bytes)⟩ :: heard, ?_, ?_⟩
    · refine hrun.trans ((Script.run_query met next).trans ?_)
      rw [hnext]
      rfl
    · exact requests_append [_, _, _] heard

/-- Where nothing is contested a change of a record is carried out, in the first attempt. -/
theorem Script.Contested.run_update (h : p.Contested 0 t) (c : Coordinator) (activity : Activity)
    {id : String} {change : Coordinator.Change α} {bytes : Bytes} {r r' : Record} {a : α}
    (read : l.read id = some bytes) (record : Record.ofBytes bytes = .ok r)
    (changes : change r t = .ok (a, r')) (heard : List Exchange) :
    ∃ s, (c.update activity id change).run p.environment ⟨l, heard⟩ = (some (.ok a), s) := by
  obtain ⟨left, hleft⟩ : ∃ left, c.retry.attempts = left + 1 :=
    Nat.exists_eq_add_of_le' c.retry.attempts_pos
  rw [Coordinator.update, hleft]
  by_cases same : r'.toBytes = bytes
  · refine ⟨⟨l, ⟨.now, t⟩ :: ⟨.ledger (.read id), .ok (some bytes)⟩ :: heard⟩, ?_⟩
    rw [Coordinator.revise]
    refine (h.run_fetch read heard _).trans ?_
    simp only [record]
    refine (Script.run_now (h.second _) _).trans ?_
    simp only [changes, if_pos same]
    rfl
  · obtain ⟨heard', hrun, -⟩ :=
      (h.revise c activity read record changes same).wins left 1 heard (Nat.zero_le _)
    exact ⟨_, hrun⟩

end

/-! ## Commands -/

namespace Command

/-- A command that has something to store at second `t`: its answer, the requests of one attempt,
    and the ledger that it leaves. -/
inductive Stores (l : Ledger) (t : Int64) :
    (o : Command) → o.Answer → List Request → Ledger → Prop where
  | registers {c : Coordinator} {id : String} {n : Int32} {d : Int64}
    (admitted : objection (.startVoting c id n d) = none) (absent : l.read id = none) :
    Stores l t (.startVoting c id n d) ()
      [.ledger (.create id (Record.new n.toUInt32 d).toBytes)]
      (l.put id (Record.new n.toUInt32 d).toBytes)
  | revises {o : Command} {id : String} {bytes : Bytes} {r r' : Record} {a : o.Answer}
    (admitted : o.objection = none) (target : o.target = some id) (read : l.read id = some bytes)
    (record : Record.ofBytes bytes = .ok r) (changes : o.change r t = .ok (a, r'))
    (differs : r'.toBytes ≠ bytes) :
    Stores l t o a [.ledger (.read id), .now, .ledger (.swap id bytes r'.toBytes)]
      (l.put id r'.toBytes)

variable {o : Command} {l l' : Ledger} {t : Int64} {a : o.Answer} {attempt : List Request}

/-- Notes an answer in the log. A failure is not noted. -/
def note {α : Type} (event : α → Event) (x : Except Error α) : Call (Except Error α) :=
  match x with
  | .ok a => do
    Call.log (event a)
    return .ok a
  | .error e => return .error e

theorem run_note {α : Type} (p : Script) (event : α → Event) (x : Except Error α) (s : Scene) :
    ∃ heard, (note event x).run p.environment s = (some x, ⟨s.ledger, heard⟩) ∧
      requests heard = requests s.heard := by
  match x with
  | .ok a => exact ⟨⟨.log (event a), ()⟩ :: s.heard, rfl, requests_log _ _⟩
  | .error e => exact ⟨s.heard, rfl, rfl⟩

theorem id_ne_empty {id : String} (admitted : o.objection = none) (about : o.transaction = some id) :
    id ≠ "" := by
  intro hid
  cases o with
  | heartbeat => cases about
  | startVoting | vote | decision =>
    cases about
    rw [objection, if_pos hid] at admitted
    cases admitted

/-- A command that changes a record updates it and notes its answer. -/
theorem call_of_target {id : String} (admitted : o.objection = none) (target : o.target = some id) :
    ∃ (c : Coordinator) (activity : Activity) (event : o.Answer → Event), o.policy = c.retry ∧
      o.activity? = some activity ∧ o.call = c.update activity id o.change >>= note event := by
  have hid : id ≠ "" := id_ne_empty admitted (transaction_of_target target)
  cases o with
  | startVoting | heartbeat => cases target
  | vote c id' k b =>
    cases target
    have hk : ¬ k < 0 := by
      intro hk
      rw [objection, if_neg hid, if_pos hk] at admitted
      cases admitted
    refine ⟨c, .vote, .recordedVote b k.toUInt32 id, rfl, rfl, ?_⟩
    rw [call, Coordinator.vote, if_neg hid, if_neg hk]
    refine congrArg (c.update .vote id _ >>= ·) (funext fun x => ?_)
    cases x with
    | ok | error => rfl
  | decision c id' =>
    cases target
    refine ⟨c, .resolveDecision, .decided id, rfl, rfl, ?_⟩
    rw [call, Coordinator.decision, if_neg hid]
    refine congrArg (c.update .resolveDecision id _ >>= ·) (funext fun x => ?_)
    cases x with
    | ok | error => rfl

namespace Stores

theorem once (stores : Stores l t o a attempt l') : attempt.countP Request.isWrite = 1 := by
  cases stores with
  | registers | revises => rfl

theorem quiet (stores : Stores l t o a attempt l') : attempt.filterMap Request.pause? = [] := by
  cases stores with
  | registers | revises => rfl

theorem tried (stores : Stores l t o a attempt l') {p : Script} {k : Nat} (h : p.Contested k t) :
    ∃ activity id x s, o.activity? = some activity ∧ o.transaction = some id ∧
      o.call.run p.environment ⟨l, []⟩ = (some x, s) ∧
      Tried o.policy k activity id attempt l l' a x s := by
  cases stores with
  | @registers c id n d admitted absent =>
    have hid : id ≠ "" := id_ne_empty admitted rfl
    have hn : ¬ n < 1 := Int32.not_lt.2 (one_le_of_admitted admitted)
    obtain ⟨x, s, hrun, tried⟩ := (h.register c n d _ absent).tried
    have hcall : (startVoting c id n d).call = c.register id n d _ c.retry.attempts 1 :=
      (if_neg hid).trans (if_neg hn)
    exact ⟨.startVoting, id, x, s, rfl, rfl, hcall ▸ hrun, tried⟩
  | @revises _ id bytes r r' _ admitted target read record changes differs =>
    obtain ⟨c, activity, event, policy, named, hcall⟩ := call_of_target admitted target
    obtain ⟨x, s, hrun, tried⟩ := (h.revise c activity read record changes differs).tried
    obtain ⟨heard, hnote, hreq⟩ := run_note p event x s
    refine ⟨activity, id, x, ⟨s.ledger, heard⟩, named, transaction_of_target target, ?_, ?_⟩
    · rw [hcall, Coordinator.update, Call.run_bind hrun, hnote]
    · rw [policy]
      exact ⟨tried.wins, tried.loses, hreq.trans tried.asks⟩

end Stores

/-- A command that has something to store makes one write more than are lost, as long as the policy
    allows it, and ends then as if none had been lost. Else it makes as many as it may, fails and
    leaves the ledger. Either way it starts every attempt afresh, and waits between one and the next,
    each time as long as the policy has it. -/
theorem retries_exactly (stores : Stores l t o a attempt l') {p : Script} {k : Nat}
    (contested : p.Contested k t) : ∃ activity id s₀ x s,
      o.activity? = some activity ∧ o.transaction = some id ∧
      o.call.run (Script.undisturbed fun _ => t).environment ⟨l, []⟩ = (some (.ok a), s₀) ∧
      s₀.ledger = l' ∧
      o.call.run p.environment ⟨l, []⟩ = (some x, s) ∧
      (k < o.policy.attempts → x = .ok a ∧ s.ledger = s₀.ledger ∧
        s.heard.countP Exchange.isWrite = k + 1) ∧
      (o.policy.attempts ≤ k → x = .error (Refusal.contention activity id).error ∧ s.ledger = l ∧
        s.heard.countP Exchange.isWrite = o.policy.attempts) ∧
      requests s.heard = rounds o.policy attempt 1 (min (k + 1) o.policy.attempts) ∧
      (requests s.heard).filterMap Request.pause? =
        (List.range (min k (o.policy.attempts - 1))).map fun j => o.policy.delay (j + 1) := by
  obtain ⟨_, _, x₀, s₀, -, -, hrun₀, tried₀⟩ := stores.tried (Script.undisturbed_contested t)
  obtain ⟨activity, id, x, s, named, about, hrun, tried⟩ := stores.tried contested
  obtain ⟨rfl, hl'⟩ := tried₀.wins o.policy.attempts_pos
  have hwrites : s.heard.countP Exchange.isWrite = min (k + 1) o.policy.attempts := by
    rw [← countP_requests, tried.asks, countP_rounds stores.once]
  refine ⟨activity, id, s₀, x, s, named, about, hrun₀, hl', hrun, ?wins, ?loses, tried.asks, ?pauses⟩
  case wins =>
    intro hlt
    obtain ⟨hx, hl⟩ := tried.wins hlt
    exact ⟨hx, hl.trans hl'.symm, by omega⟩
  case loses =>
    intro hle
    obtain ⟨hx, hl⟩ := tried.loses hle
    exact ⟨hx, hl, by omega⟩
  case pauses =>
    have hpauses : min (k + 1) o.policy.attempts - 1 = min k (o.policy.attempts - 1) := by omega
    rw [tried.asks, pauses_rounds stores.quiet, hpauses]
    exact List.map_congr_left fun j _ => by rw [Nat.add_comm]

/-- The first two writes lose, each in its way, and the clock stands at second 0. -/
def lostTwice : Script where
  fate heard q := match q, heard.countP Exchange.isWrite with
    | .swap .., 0 => .loses
    | .swap .., 1 | .create .., 0 | .create .., 1 => .fails ⟨.conflict, "busy"⟩
    | _, _ => .carriedOut
  second _ := 0

theorem lostTwice_contested : lostTwice.Contested 2 0 where
  second _ := rfl
  rebuffs heard q hq hlt := by
    simp only [lostTwice]
    generalize heard.countP Exchange.isWrite = n at hlt
    cases q with
    | read | heartbeat => cases hq
    | create key value =>
      obtain rfl | rfl : n = 0 ∨ n = 1 := by omega
      · exact .create key value "busy"
      · exact .create key value "busy"
    | swap key expected new =>
      obtain rfl | rfl : n = 0 ∨ n = 1 := by omega
      · exact .swapLoses key expected new
      · exact .swapFails key expected new "busy"
  carriesOut heard q h := by
    simp only [lostTwice]
    generalize heard.countP Exchange.isWrite = n at h
    cases q with
    | read | heartbeat => rfl
    | create | swap =>
      obtain ⟨n, rfl⟩ : ∃ m, n = m + 2 := Nat.exists_eq_add_of_le' (h.resolve_left nofun)
      rfl

/-- A vote that may make three attempts and loses two stores its ballot in the last one. -/
theorem retries_exactly_to_the_last : lostTwice.Contested 2 0 ∧ ∃ s,
    (vote ⟨⟨3, ⟨0, 1000000, by decide⟩, ⟨0, 1500000, by decide⟩⟩⟩ "a" 0 .abort).call.run
      lostTwice.environment ⟨Ledger.empty.put "a" (Record.new 1 9).toBytes, []⟩ =
        (some (.ok .counted), s) ∧
    s.ledger.read "a" = some ((Record.new 1 9).mark 0 .abort).toBytes ∧
    s.heard.countP Exchange.isWrite = 3 ∧
    (requests s.heard).filterMap Request.pause? =
      [⟨0, 1000000, by decide⟩, ⟨0, 1500000, by decide⟩] := by
  have read : (Ledger.empty.put "a" (Record.new 1 9).toBytes).read "a" =
      some (Record.new 1 9).toBytes := by rw [Ledger.read_put, if_pos rfl]
  obtain ⟨_, _, s₀, x, s, -, -, -, hl', hrun, wins, -, -, pauses⟩ :=
    retries_exactly (o := vote ⟨⟨3, ⟨0, 1000000, by decide⟩, ⟨0, 1500000, by decide⟩⟩⟩ "a" 0 .abort)
      (.revises rfl rfl read (Record.ofBytes_toBytes _) rfl (by decide)) lostTwice_contested
  obtain ⟨rfl, hl, hwrites⟩ := wins (by decide)
  refine ⟨lostTwice_contested, s, hrun, ?_, hwrites, pauses.trans (by decide)⟩
  rw [hl, hl', Ledger.read_put, if_pos rfl]
  rfl

end Command
end TwoPhaseCommit

