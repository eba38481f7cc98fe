import TwoPhaseCommit.Adapter.Client
import TwoPhaseCommit.Proofs.Coordinator.Command
import TwoPhaseCommit.Proofs.Proto.RoundTrip
import TwoPhaseCommit.Proofs.Record.Outcome
import TwoPhaseCommit.Simulation.Stage

/- Remote calls do what direct calls do. Between a client and its service a call goes through two
   messages and perhaps a status, and none of them loses anything that matters: apart from one line
   for the log, the call of a client makes the requests of the call on the coordinator, in the same
   order, and ends alike (`startVoting_ofService` and its siblings). So in any surroundings the two
   end with the same answer, the error relayed as `Method.relay` says, and leave everything but the
   log in the same state (`Relays`). -/
namespace TwoPhaseCommit
open Proto

/-- What the client of a method reports for the error of the call behind it. A conflict and a storage
    failure are reported as a coordinator that is out of reach. -/
def Method.relayed (m : Method) (e : Error) : Error :=
  ⟨if e.kind = .conflict ∨ e.kind = .storage then .unavailable else e.kind,
    m.failure ++ ": " ++ e.message⟩

theorem Method.kind_relayed (m : Method) (e : Error) :
    (m.relayed e).kind ≠ .conflict ∧ (m.relayed e).kind ≠ .storage := by
  rw [relayed]
  split
  · exact ⟨nofun, nofun⟩
  · next he => exact ⟨fun hc => he (.inl hc), fun hs => he (.inr hs)⟩

/-- The answer of a client of a method to the answer of the call behind it. -/
def Method.relay {α β : Type} (m : Method) (f : α → β) : Except Error α → Except Error β
  | .ok a => .ok (f a)
  | .error e => .error (m.relayed e)

/-- An environment that always takes a line for the log, which makes no difference to what `π` shows
    of its state, while that decides all answers. -/
structure Environment.HidesLog {σ τ : Type} (env : Environment σ) (π : σ → τ) : Prop where
  logs : ∀ e s, (env.respond (.log e) s).1 = some () ∧ π (env.respond (.log e) s).2 = π s
  decides : ∀ r s s', π s = π s' → (env.respond r s).1 = (env.respond r s').1 ∧
    π (env.respond r s).2 = π (env.respond r s').2

/-- Wherever the log is hidden, the call `remote` ends as `direct` does, with the answer relayed, and
    leaves everything else in the same state. So it never ends in a conflict or a storage failure. -/
structure Relays {α β : Type} (m : Method) (f : α → β) (remote : Call (Except Error β))
    (direct : Call (Except Error α)) : Prop where
  answer : ∀ {σ τ : Type} (env : Environment σ) (π : σ → τ), env.HidesLog π → ∀ s,
    (remote.run env s).1 = (direct.run env s).1.map (m.relay f)
  state : ∀ {σ τ : Type} (env : Environment σ) (π : σ → τ), env.HidesLog π → ∀ s,
    π (remote.run env s).2 = π (direct.run env s).2
  kind : ∀ {σ τ : Type} (env : Environment σ) (π : σ → τ), env.HidesLog π → ∀ s e,
    (remote.run env s).1 = some (.error e) → e.kind ≠ .conflict ∧ e.kind ≠ .storage

/-- The notes on what was logged are hidden when they are left out. -/
theorem Stage.environment_hidesLog :
    Stage.environment.HidesLog fun s => { s with notes.events := [] } := by
  constructor
  case logs =>
    intro e s
    exact ⟨rfl, rfl⟩
  case decides =>
    intro r s s' same
    obtain ⟨l, c, d, fs, ⟨ops, ps, es⟩⟩ := s
    obtain ⟨l', c', d', fs', ⟨ops', ps', es'⟩⟩ := s'
    cases same
    cases r with
    | now | pause | log => exact ⟨rfl, rfl⟩
    | ledger q =>
      simp only [Stage.environment, Stage.query]
      cases d with
      | some e => exact ⟨rfl, rfl⟩
      | none =>
        dsimp only
        obtain ⟨found, rest⟩ := Stage.takeFault q.operation fs
        cases found with
        | none => exact ⟨rfl, rfl⟩
        | some f =>
          cases f with
          | vote id k b t =>
            simp only [Stage.suffer]
            cases l.castVote id k b t <;> exact ⟨rfl, rfl⟩
          | fail | deny | hang | put | advance | pass => exact ⟨rfl, rfl⟩

/-! ## Runs -/

namespace Call
variable {α β σ τ : Type} {env : Environment σ} {π : σ → τ}

theorem run_map (f : α → β) : ∀ (c : Call α) (s : σ),
    (f <$> c).run env s = ((c.run env s).1.map f, (c.run env s).2)
  | .done a, s => rfl
  | .ask r next, s => by
    have hmap : f <$> Call.ask r next = .ask r fun x => f <$> next x := rfl
    rw [hmap, run, run]
    cases hx : env.respond r s with
    | mk answer s' =>
      cases answer with
      | none => rfl
      | some x => exact run_map f (next x) s'

/-- What is hidden makes no difference to a call. -/
theorem run_congr (hides : env.HidesLog π) : ∀ (c : Call α) {s s' : σ}, π s = π s' →
    (c.run env s).1 = (c.run env s').1 ∧ π (c.run env s).2 = π (c.run env s').2
  | .done a, s, s', same => ⟨rfl, same⟩
  | .ask r next, s, s', same => by
    obtain ⟨hanswer, hstate⟩ := hides.decides r s s' same
    rw [run, run]
    generalize env.respond r s = p at hanswer hstate ⊢
    generalize env.respond r s' = p' at hanswer hstate ⊢
    obtain ⟨x, t⟩ := p
    obtain ⟨x', t'⟩ := p'
    cases hanswer
    cases x with
    | none => exact ⟨rfl, hstate⟩
    | some x => exact run_congr hides (next x) hstate

end Call

section
variable {α β : Type} {m : Method} {f : α → β} {remote : Call (Except Error β)}
  {direct : Call (Except Error α)}

theorem Relays.of_runs (h : ∀ {σ τ : Type} (env : Environment σ) (π : σ → τ), env.HidesLog π → ∀ s,
    (remote.run env s).1 = (direct.run env s).1.map (m.relay f) ∧
      π (remote.run env s).2 = π (direct.run env s).2) : Relays m f remote direct where
  answer env π hides s := (h env π hides s).1
  state env π hides s := (h env π hides s).2
  kind env π hides s e he := by
    rw [(h env π hides s).1, Option.map_eq_some_iff] at he
    obtain ⟨x, -, hx⟩ := he
    cases x with
    | ok a => cases hx
    | error e' =>
      cases hx
      exact m.kind_relayed e'

/-- A call whose answer is relayed. -/
theorem Relays.of_map (h : remote = m.relay f <$> direct) : Relays m f remote direct := by
  refine .of_runs fun env π hides s => ?_
  rw [h, Call.run_map]
  exact ⟨rfl, rfl⟩

/-- A call that first goes to the log. -/
theorem Relays.of_log (e : Event) (h : remote = Call.log e >>= fun _ => m.relay f <$> direct) :
    Relays m f remote direct := by
  refine .of_runs fun env π hides s => ?_
  obtain ⟨hlog, hstate⟩ := hides.logs e s
  have hrun : remote.run env s = (m.relay f <$> direct).run env (env.respond (.log e) s).2 := by
    rw [h]
    have hask : (Call.log e >>= fun _ => m.relay f <$> direct) =
        .ask (.log e) fun _ => m.relay f <$> direct := rfl
    rw [hask, Call.run]
    generalize env.respond (.log e) s = p at hlog ⊢
    obtain ⟨x, t⟩ := p
    cases hlog
    rfl
  obtain ⟨hanswer, hsame⟩ := direct.run_congr hides hstate
  rw [hrun, Call.run_map, hanswer]
  exact ⟨rfl, hsame⟩

end

/-! ## From message to message -/

/-- What the client of a method reads in an answer that its service has written. -/
def Method.readBack {R : Type} (m : Method) (responses : Schema R) :
    Except Status R → Except Error R
  | .error s => .error (m.error s)
  | .ok r => match responses.decode (responses.encode r) with
    | .error flaw => .error (m.error ⟨.internal, flaw.message⟩)
    | .ok r => .ok r

theorem Method.map_relay {α β γ : Type} (m : Method) (f : α → β) (g : β → γ) (x : Except Error α) :
    (m.relay f x).map g = m.relay (fun a => g (f a)) x := by
  cases x <;> rfl

theorem Method.readBack_reply {α R : Type} (m : Method) {responses : Schema R} {f : α → R}
    {x : Except Error α}
    (carried : ∀ a, x = .ok a → responses.decode (responses.encode (f a)) = .ok (f a)) :
    m.readBack responses (reply f x) = m.relay f x := by
  cases x with
  | ok a => rw [reply, readBack, carried a rfl, relay]
  | error e =>
    rw [reply, readBack, relay, relayed, Method.error, Status.toError_toStatus, Error.during]

/-- A request that its service reads back is answered by the method behind it. -/
theorem call_ofService {Q R : Type} {s : Service} {m : Method} {requests : Schema Q}
    {responses : Schema R} {method : Q → Call (Except Status R)}
    (served : s.handle m = Service.serve requests responses method) {q : Q}
    (carried : requests.decode (requests.encode q) = .ok q) :
    (Client.ofService s).call m requests responses q = m.readBack responses <$> method q := by
  have hsend : (Client.ofService s).send m (requests.encode q) =
      method q >>= fun r => pure (r.map responses.encode) :=
    calc (Client.ofService s).send m (requests.encode q)
        = Service.serve requests responses method (requests.encode q) := by
          rw [← served]
          rfl
      _ = method q >>= fun r => pure (r.map responses.encode) := by
          rw [Service.serve, carried]
  rw [Client.call, hsend, bind_assoc, map_eq_pure_bind]
  congr 1
  funext x
  rw [pure_bind]
  cases x with
  | error status => rfl
  | ok r =>
    simp only [Except.map, Method.readBack]
    cases responses.decode (responses.encode r) <;> rfl

/-- What a client makes of the answer to a method that calls the coordinator. -/
theorem map_readBack {α β R : Type} {m : Method} {responses : Schema R} {f : α → R}
    {note : Call Unit} {direct : Call (Except Error α)} {method : Call (Except Status R)}
    (calls : method = note >>= fun _ => reply f <$> direct) (g : R → β) :
    ((m.readBack responses <$> method) >>= fun x => pure (x.map g)) =
      note >>= fun _ => (fun x => (m.readBack responses (reply f x)).map g) <$> direct := by
  rw [calls]
  simp only [map_eq_pure_bind, bind_assoc, pure_bind]

/-- If its service can write only what it reads back, a client relays the answer of the coordinator. -/
theorem map_readBack_of_carried {α β R : Type} {m : Method} {responses : Schema R} {f : α → R}
    {note : Call Unit} {direct : Call (Except Error α)} {method : Call (Except Status R)}
    (calls : method = note >>= fun _ => reply f <$> direct)
    (carried : ∀ a, responses.decode (responses.encode (f a)) = .ok (f a)) (g : R → β) :
    ((m.readBack responses <$> method) >>= fun x => pure (x.map g)) =
      note >>= fun _ => m.relay (fun a => g (f a)) <$> direct := by
  have same : (fun x => (m.readBack responses (reply f x)).map g) = m.relay fun a => g (f a) := by
    funext x
    rw [m.readBack_reply fun a _ => carried a, m.map_relay]
  rw [map_readBack calls, same]

/-! ## The calls of a client -/

section
variable {s : Service} {id : String}

/-- The deadline is the one that is named, or else the service sets it. -/
theorem startVoting_ofService (h : (Utf8.encode id).length < UInt64.size) (n : Int32)
    (deadline : Option Int64) :
    let q : StartVotingRequest := ⟨id, deadline.map fun t => ⟨t, 0⟩, n⟩
    (Client.ofService s).startVoting id deadline n = Call.log (.receivedStart id) >>= fun _ =>
      Method.startVoting.relay (fun _ => ()) <$>
        (s.deadline q >>= fun d => s.coordinator.startVoting id n d) := by
  intro q
  have hcall := call_ofService (s := s) (m := .startVoting) rfl
    (StartVotingRequest.decode_encode (m := q) h)
  have calls : s.startVoting q = Call.log (.receivedStart id) >>= fun _ =>
      reply (fun _ => {}) <$> (s.deadline q >>= fun d => s.coordinator.startVoting id n d) := by
    simp only [Service.startVoting, map_eq_pure_bind, bind_assoc]
    rfl
  simp only [Client.startVoting]
  rw [hcall]
  exact map_readBack_of_carried calls (fun _ => StartVotingResponse.decode_encode _) _

theorem vote_ofService (h : (Utf8.encode id).length < UInt64.size) (k : Int32) (b : Ballot) :
    (Client.ofService s).vote id k b = Call.log (.receivedVote id k) >>= fun _ =>
      Method.vote.relay (fun _ => ()) <$> s.coordinator.vote id k b := by
  have hcall := call_ofService (s := s) (m := .vote) rfl
    (VoteRequest.decode_encode (m := ⟨id, k, b.number⟩) h)
  have calls : s.vote ⟨id, k, b.number⟩ = Call.log (.receivedVote id k) >>= fun _ =>
      reply (fun _ => {}) <$> s.coordinator.vote id k b := by
    simp only [Service.vote, Ballot.ofNumber?_number, map_eq_pure_bind]
  simp only [Client.vote]
  rw [hcall]
  exact map_readBack_of_carried calls (fun _ => VoteResponse.decode_encode _) _

theorem heartbeat_ofService : (Client.ofService s).heartbeat =
    Method.getHeartBeat.relay (fun alive => alive) <$> Coordinator.heartbeat := by
  have hcall := call_ofService (s := s) (m := .getHeartBeat) rfl (GetHeartBeatRequest.decode_encode {})
  have calls : s.getHeartBeat {} = (pure () : Call Unit) >>= fun _ =>
      reply (fun alive => ⟨alive⟩) <$> Coordinator.heartbeat := by
    simp only [Service.getHeartBeat, map_eq_pure_bind, pure_bind]
  simp only [Client.heartbeat]
  rw [hcall, map_readBack_of_carried calls (fun _ => GetHeartBeatResponse.decode_encode _), pure_bind]

/-- A reason that the coordinator gives comes out of a record, so a response can carry it. -/
theorem decision_ofService (h : (Utf8.encode id).length < UInt64.size) :
    (Client.ofService s).decision id = Call.log (.receivedQuestion id) >>= fun _ =>
      Method.getVotingDecision.relay (fun d => d) <$> s.coordinator.decision id := by
  have hcall := call_ofService (s := s) (m := .getVotingDecision) rfl
    (GetVotingDecisionRequest.decode_encode (m := ⟨id⟩) h)
  have calls : s.getVotingDecision ⟨id⟩ = Call.log (.receivedQuestion id) >>= fun _ =>
      reply (fun d => ⟨d.kind.number, d.reason⟩) <$> s.coordinator.decision id := by
    simp only [Service.getVotingDecision, map_eq_pure_bind]
  simp only [Client.decision]
  rw [hcall, map_readBack calls]
  congr 1
  funext _
  have target : (Command.decision s.coordinator id).target = some id := rfl
  refine (Command.decision_obeys s.coordinator id).map_congr fun v x ends => ?_
  have carried : ∀ d, x = .ok d → GetVotingDecisionResponse.schema.decode
      (GetVotingDecisionResponse.schema.encode ⟨d.kind.number, d.reason⟩) =
        .ok ⟨d.kind.number, d.reason⟩ := by
    intro d hd
    subst hd
    obtain ⟨_, r, t, r', -, changes, -⟩ := ends.of_ok target
    cases changes
    exact GetVotingDecisionResponse.decode_encode (r.settled t).length_reason
  rw [Method.readBack_reply _ carried, Method.map_relay]
  simp only [DecisionKind.ofNumber_number]

/-- A ballot that is none is turned down before the coordinator is called. -/
theorem vote_of_unknown {q : VoteRequest} {body : Bytes} (hq : VoteRequest.schema.decode body = .ok q)
    (hcommit : q.ballot ≠ 1) (habort : q.ballot ≠ 2) :
    s.handle .vote body = Call.log (.receivedVote q.transactionId q.cohortId) >>= fun _ =>
      pure (.error ⟨.invalidArgument, "unknown ballot value " ++ toString q.ballot.toInt⟩) := by
  have unknown : Ballot.ofNumber? q.ballot = none := by
    rw [Ballot.ofNumber?, if_neg hcommit, if_neg habort]
  simp only [Service.handle, Service.serve, hq, Service.vote, unknown, bind_assoc, pure_bind]
  rfl

end

/-- Every call of a client relays the call on the coordinator behind it, with the deadline that it names
    or else the one that the service sets. The only bound is that the length of the transaction's name
    fits into the 64 bits that announce it, as that of any text in memory does. A ballot that is none is
    an invalid argument, and nothing is asked of the ledger for it. -/
theorem relays_every_call (s : Service) {id : String} (h : (Utf8.encode id).length < UInt64.size) :
    (∀ n d, Relays .startVoting (fun _ => ()) ((Client.ofService s).startVoting id (some d) n)
      (s.coordinator.startVoting id n d)) ∧
    (∀ n, Relays .startVoting (fun _ => ()) ((Client.ofService s).startVoting id none n)
      (Call.now >>= fun t => s.coordinator.startVoting id n (t + s.window.seconds.toInt64))) ∧
    (∀ k b, Relays .vote (fun _ => ()) ((Client.ofService s).vote id k b)
      (s.coordinator.vote id k b)) ∧
    Relays .getVotingDecision (fun d => d) ((Client.ofService s).decision id)
      (s.coordinator.decision id) ∧
    Relays .getHeartBeat (fun alive => alive) (Client.ofService s).heartbeat Coordinator.heartbeat ∧
    ∀ body q, VoteRequest.schema.decode body = .ok q → q.ballot ≠ 1 → q.ballot ≠ 2 →
      s.handle .vote body = Call.log (.receivedVote q.transactionId q.cohortId) >>= fun _ =>
        pure (.error ⟨.invalidArgument, "unknown ballot value " ++ toString q.ballot.toInt⟩) :=
  ⟨fun n d => .of_log _ (startVoting_ofService h n (some d)),
    fun n => .of_log _ (startVoting_ofService h n none), fun k b => .of_log _ (vote_ofService h k b),
    .of_log _ (decision_ofService h), .of_map heartbeat_ofService,
    fun _ _ hq hcommit habort => vote_of_unknown hq hcommit habort⟩

/-- The ledger of this stage fails to read once. -/
def Stage.unreadable : Stage := (Stage.new (.steady 5)).plan .read (.fail ⟨.storage, "disk full"⟩) 1

/-- A vote that meets a storage failure is unavailable to the client, and the ledger is as after the
    vote on the coordinator. A ballot of number 7 is an invalid argument. -/
theorem relays_every_call_of_failure :
    let s : Service := ⟨⟨.standard⟩, .ofSeconds 60⟩
    (s.coordinator.vote "a" 0 .commit).run Stage.environment .unreadable =
        (some (.error ⟨.storage, "disk full"⟩),
          { Stage.unreadable with faults := [], notes.operations := [.read] }) ∧
      (((Client.ofService s).vote "a" 0 .commit).run Stage.environment .unreadable).1 =
        some (.error ⟨.unavailable, "Failed to vote: disk full"⟩) ∧
      ∃ note, s.handle .vote (VoteRequest.schema.encode ⟨"a", 0, 7⟩) = Call.log note >>= fun _ =>
        pure (.error ⟨.invalidArgument, "unknown ballot value 7"⟩) := by
  intro s
  have small : (Utf8.encode "a").length < UInt64.size := by decide
  obtain ⟨-, -, hvote, -, -, hunknown⟩ := relays_every_call s small
  have hdirect : (s.coordinator.vote "a" 0 .commit).run Stage.environment .unreadable =
      (some (.error ⟨.storage, "disk full"⟩),
        { Stage.unreadable with faults := [], notes.operations := [.read] }) := rfl
  have hq : VoteRequest.schema.decode (VoteRequest.schema.encode ⟨"a", 0, 7⟩) = .ok ⟨"a", 0, 7⟩ :=
    VoteRequest.decode_encode small
  refine ⟨hdirect, ?_, _, hunknown _ _ hq (by decide) (by decide)⟩
  rw [(hvote 0 .commit).answer Stage.environment _ Stage.environment_hidesLog, hdirect]
  rfl

end TwoPhaseCommit
