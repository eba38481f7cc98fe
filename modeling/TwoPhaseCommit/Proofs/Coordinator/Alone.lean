import TwoPhaseCommit.Proofs.Call.Script
import TwoPhaseCommit.Proofs.Coordinator.Asks
import TwoPhaseCommit.Proofs.Coordinator.Change
import TwoPhaseCommit.Proofs.Ledger.Lookup
import TwoPhaseCommit.Proofs.Record.RoundTrip

/- A command alone with a ledger that may turn its calls down: it leaves the ledger as it was, or
   stores what it answers for (`all_or_nothing`). What carries this is that the ledger changes with a
   write that is granted and not otherwise, that a command is `Untouched` until then and `Settled` from
   then on, and that all it may ask for keeps that (`untouched_or_settled`). -/
namespace TwoPhaseCommit
namespace Command

/-- The transaction that a command is about. -/
def transaction : Command → Option String
  | .startVoting _ id .. | .vote _ id .. | .decision _ id => some id
  | .heartbeat _ => none

theorem transaction_of_target {o : Command} {id : String} (target : o.target = some id) :
    o.transaction = some id := by
  cases o with
  | startVoting | heartbeat => cases target
  | vote | decision => exact target

/-- A command with arguments that no transaction can have. -/
inductive Malformed : Command → Prop where
  | emptyId {o : Command} (empty : o.transaction = some "") : Malformed o
  | noCohorts {c : Coordinator} {id : String} {n : Int32} {d : Int64} (few : n < 1) :
    Malformed (.startVoting c id n d)
  | negativeCohort {c : Coordinator} {id : String} {k : Int32} {b : Ballot} (negative : k < 0) :
    Malformed (.vote c id k b)

/-- What a command that succeeds with an answer makes of the ledger `l`, after the exchanges `heard`. -/
inductive Leaves (l : Ledger) (heard : List Exchange) : (o : Command) → o.Answer → Ledger → Prop where
  | registered {c : Coordinator} {id : String} {n : Int32} {d : Int64} (absent : l.read id = none)
    (stores : heard.filter Exchange.isStore =
      [⟨.ledger (.create id (Record.new n.toUInt32 d).toBytes), .ok .created⟩]) :
    Leaves l heard (.startVoting c id n d) () (l.put id (Record.new n.toUInt32 d).toBytes)
  /-- The change makes no difference to the record, and nothing is stored. -/
  | kept {o : Command} {id : String} {bytes : Bytes} {r r' : Record} {t : Int64} {a : o.Answer}
    (target : o.target = some id) (read : l.read id = some bytes)
    (record : Record.ofBytes bytes = .ok r) (seen : (⟨.now, t⟩ : Exchange) ∈ heard)
    (changes : o.change r t = .ok (a, r')) (same : r'.toBytes = bytes)
    (stores : heard.filter Exchange.isStore = []) : Leaves l heard o a l
  | revised {o : Command} {id : String} {bytes : Bytes} {r r' : Record} {t : Int64} {a : o.Answer}
    (target : o.target = some id) (read : l.read id = some bytes)
    (record : Record.ofBytes bytes = .ok r) (seen : (⟨.now, t⟩ : Exchange) ∈ heard)
    (changes : o.change r t = .ok (a, r')) (differs : r'.toBytes ≠ bytes)
    (stores : heard.filter Exchange.isStore = [⟨.ledger (.swap id bytes r'.toBytes), .ok .swapped⟩]) :
    Leaves l heard o a (l.put id r'.toBytes)
  | beaten (c : Coordinator) (alive : Bool) (stores : heard.filter Exchange.isStore = []) :
    Leaves l heard (.heartbeat c) alive l

namespace Leaves
variable {l l' : Ledger} {heard : List Exchange} {o : Command} {a : o.Answer}

/-- What is said after the last write makes no difference. -/
theorem cons (leaves : Leaves l heard o a l') {x : Exchange} (hx : x.isStore = false) :
    Leaves l (x :: heard) o a l' := by
  have hfilter : (x :: heard).filter Exchange.isStore = heard.filter Exchange.isStore :=
    List.filter_cons_of_neg (by simp [hx])
  cases leaves with
  | registered absent stores => exact .registered absent (hfilter.trans stores)
  | kept target read record seen changes same stores =>
    exact .kept target read record (List.mem_cons_of_mem x seen) changes same (hfilter.trans stores)
  | revised target read record seen changes differs stores =>
    exact .revised target read record (List.mem_cons_of_mem x seen) changes differs
      (hfilter.trans stores)
  | beaten c alive stores => exact .beaten c alive (hfilter.trans stores)

/-- Nothing is stored under the ids of other transactions. -/
theorem read_of_ne (leaves : Leaves l heard o a l') {key : String} (hk : o.transaction ≠ some key) :
    l'.read key = l.read key := by
  cases leaves with
  | kept | beaten => rfl
  | registered =>
    rw [Ledger.read_put, if_neg]
    intro he
    exact hk (congrArg some he.symm)
  | revised target =>
    rw [Ledger.read_put, if_neg]
    intro he
    exact hk (he ▸ transaction_of_target target)

/-- After a vote that succeeds its ballot stands in the record. -/
theorem ballot {c : Coordinator} {id : String} {k : Int32} {b : Ballot} {e : VoteEffect}
    (leaves : Leaves l heard (.vote c id k b) e l') :
    ∃ r, l'.record? id = some r ∧ r.ballot k.toUInt32 = some b := by
  have stands : ∀ {r r' : Record} {t : Int64}, (vote c id k b).change r t = .ok (e, r') →
      r'.ballot k.toUInt32 = some b := by
    intro r r' t changes
    obtain ⟨-, voted⟩ := Record.voted_of_applyVote changes
    obtain ⟨-, -, votes⟩ := voted.frame
    rw [Record.ballot, votes, SortedMap.get?_insert, if_pos rfl]
  cases leaves with
  | kept target read record seen changes same =>
    cases target
    rw [← same] at read
    exact ⟨_, Ledger.record?_of_toBytes read, stands changes⟩
  | revised target read record seen changes =>
    cases target
    refine ⟨_, Ledger.record?_of_toBytes ?_, stands changes⟩
    rw [Ledger.read_put, if_pos rfl]

end Leaves

/-- A command that has stored nothing so far has left the ledger `l` as it is, and has seen nothing
    else. -/
structure Untouched (o : Command) (l : Ledger) (v : View) (s : Scene) : Prop where
  ledger : s.ledger = l
  stores : s.heard.filter Exchange.isStore = []
  unwritten : v.write ≠ some (.ok true)
  read : ∀ id x, o.target = some id → v.read = some (.ok x) → l.read id = x
  now : ∀ t, v.now = some t → (⟨.now, t⟩ : Exchange) ∈ s.heard

/-- A command that has stored something is done with the ledger, and what it will answer is settled. -/
structure Settled (o : Command) (l : Ledger) (v : View) (s : Scene) : Prop where
  written : v.write = some (.ok true)
  leaves : ∃ a, Leaves l s.heard o a s.ledger ∧ ∀ x, o.Ends v x → x = .ok a

namespace Untouched
variable {o : Command} {l : Ledger} {v : View} {s : Scene}

/-- What has to be shown of the view after an exchange that stores nothing. -/
theorem hears (h : Untouched o l v s) {v' : View} {x : Exchange} (hs : x.isStore = false)
    (unwritten : v'.write ≠ some (.ok true))
    (read : ∀ id y, o.target = some id → v'.read = some (.ok y) → l.read id = y)
    (now : ∀ t, v'.now = some t → v.now = some t ∨ x = ⟨.now, t⟩) :
    Untouched o l v' ⟨s.ledger, x :: s.heard⟩ where
  ledger := h.ledger
  stores := by
    rw [List.filter_cons_of_neg (by simp [hs])]
    exact h.stores
  unwritten := unwritten
  read := read
  now t ht := by
    rcases now t ht with ht | rfl
    · exact List.mem_cons_of_mem x (h.now t ht)
    · exact List.mem_cons_self

theorem hears_idle (h : Untouched o l v s) {x : Exchange} (hw : x.isWrite = true)
    (hs : x.isStore = false) : Untouched o l (v.see x.request x.answer) ⟨s.ledger, x :: s.heard⟩ := by
  obtain ⟨unwritten, read, now⟩ := View.see_of_idle hw hs v
  apply h.hears hs unwritten
  · exact fun id y target hy => h.read id y target (read _ hy)
  · exact fun t ht => .inl (now t ht)

/-- Lines for the log, pauses and heartbeats leave the view. -/
theorem hears_nothing (h : Untouched o l v s) {x : Exchange} (hs : x.isStore = false) :
    Untouched o l v ⟨s.ledger, x :: s.heard⟩ :=
  h.hears hs h.unwritten h.read fun _ => .inl

theorem hears_heartbeat (h : Untouched o l v s) {y : Except Error Bool} {l' : Ledger}
    (met : Met s.ledger .heartbeat y l') :
    Untouched o l v ⟨l', ⟨.ledger .heartbeat, y⟩ :: s.heard⟩ := by
  cases met with
  | carriedOut | failed => exact h.hears_nothing rfl

theorem hears_second (h : Untouched o l v s) (t : Int64) :
    Untouched o l (v.see .now t) ⟨s.ledger, ⟨.now, t⟩ :: s.heard⟩ := by
  refine h.hears rfl (show v.write ≠ some (.ok true) from h.unwritten) h.read ?_
  intro t' ht
  rw [← Option.some.inj ht]
  exact .inr rfl

theorem hears_read (h : Untouched o l v s) {id : String} (target : o.target = some id)
    {y : Except Error (Option Bytes)} {l' : Ledger} (met : Met s.ledger (.read id) y l') :
    Untouched o l (v.see (.ledger (.read id)) y) ⟨l', ⟨.ledger (.read id), y⟩ :: s.heard⟩ := by
  obtain ⟨rfl, hread⟩ := met.of_read
  refine h.hears rfl h.unwritten ?_ fun _ => .inl
  intro id' x target' hx
  obtain rfl : id' = id := Option.some.inj (target'.symm.trans target)
  rw [← h.ledger]
  exact hread x hx

end Untouched

/-! ## Writes -/

section
variable {o : Command} {l l' : Ledger} {v : View} {s : Scene} {id : String}

theorem Ends.of_created {c : Coordinator} {n : Int32} {d : Int64} {x : Except Error Unit}
    (h : (startVoting c id n d).Ends v x) (written : v.write = some (.ok true)) : x = .ok () := by
  cases h with
  | objected => cases written
  | revised _ target => cases target
  | registered _ h =>
    cases h with
    | created => rfl
    | occupied _ _ refused => rw [refused] at written; cases written
    | unwritten _ _ write => rw [write] at written; cases written
    | exhausted lost => rw [lost] at written; cases written

theorem Ends.of_swapped {bytes : Bytes} {r r' : Record} {t : Int64} {a : o.Answer}
    {x : Except Error o.Answer} (h : o.Ends v x) (target : o.target = some id)
    (written : v.write = some (.ok true)) (holds : v.Holds bytes r t)
    (changes : o.change r t = .ok (a, r')) : x = .ok a := by
  cases h with
  | objected => cases written
  | registered | beaten | unreachable => cases target
  | revised _ _ _ h =>
    cases h with
    | stored _ holds' _ changes' =>
      obtain ⟨-, rfl, rfl⟩ := holds.unique holds'
      rw [changes] at changes'
      cases changes'
      rfl
    | kept _ _ unwritten | refused _ _ unwritten | flawed _ _ _ unwritten | missing _ _ unwritten
    | unread _ _ unwritten => rw [unwritten] at written; cases written
    | unwritten _ _ write => rw [write] at written; cases written
    | exhausted lost => rw [lost] at written; cases written

/-- A create that is carried out is granted where there is nothing, and denied elsewhere. -/
theorem Untouched.hears_create {c : Coordinator} {n : Int32} {d : Int64}
    (h : Untouched (.startVoting c id n d) l v s) {y : Except Error CreateOutcome}
    (met : Met s.ledger (.create id (Record.new n.toUInt32 d).toBytes) y l') :
    let x : Exchange := ⟨.ledger (.create id (Record.new n.toUInt32 d).toBytes), y⟩
    Untouched (.startVoting c id n d) l (v.see x.request y) ⟨l', x :: s.heard⟩ ∨
      Settled (.startVoting c id n d) l (v.see x.request y) ⟨l', x :: s.heard⟩ := by
  intro x
  cases met with
  | failed => exact .inl (h.hears_idle rfl rfl)
  | carriedOut =>
    cases hr : s.ledger.read id with
    | some stored =>
      simp only [x, Ledger.perform, Ledger.create_of_present hr]
      exact .inl (h.hears_idle (x := ⟨.ledger (.create id _), .ok .occupied⟩) rfl rfl)
    | none =>
      simp only [x, Ledger.perform, Ledger.create_of_absent hr]
      refine .inr ⟨rfl, (), ?_, fun _ ends => ends.of_created rfl⟩
      rw [h.ledger] at hr ⊢
      refine .registered hr ?_
      rw [List.filter_cons_of_pos rfl, h.stores]

/-- A swap that is carried out is granted, for the record is still the one that was read. -/
theorem Untouched.hears_swap (h : Untouched o l v s) (target : o.target = some id) {bytes : Bytes}
    {r r' : Record} {t : Int64} {a : o.Answer} (holds : v.Holds bytes r t)
    (changes : o.change r t = .ok (a, r')) (differs : r'.toBytes ≠ bytes)
    {y : Except Error SwapOutcome} (met : Met s.ledger (.swap id bytes r'.toBytes) y l') :
    let x : Exchange := ⟨.ledger (.swap id bytes r'.toBytes), y⟩
    Untouched o l (v.see x.request y) ⟨l', x :: s.heard⟩ ∨
      Settled o l (v.see x.request y) ⟨l', x :: s.heard⟩ := by
  intro x
  have hread : l.read id = some bytes := h.read id _ target holds.read
  cases met with
  | failed | lost => exact .inl (h.hears_idle rfl rfl)
  | carriedOut =>
    simp only [x, Ledger.perform, h.ledger, Ledger.swap_of_expected hread]
    refine .inr ⟨rfl, a, ?_, ?_⟩
    · refine .revised target hread holds.record (List.mem_cons_of_mem _ (h.now t holds.now)) changes
        differs ?_
      rw [List.filter_cons_of_pos rfl, h.stores]
    · exact fun _ ends => ends.of_swapped target rfl ⟨holds.read, holds.record, holds.now⟩ changes

end

/-! ## Scripts -/

/-- Whatever a command asks for, it has either stored nothing so far or is done. -/
theorem untouched_or_settled {o : Command} {l : Ledger} (p : Script) (v : View) (s : Scene)
    (r : Request) (h : Untouched o l v s ∨ Settled o l v s) (asks : o.Asks v r) :
    Untouched o l (v.see r (p.answer s r).1) (p.next s r) ∨
      Settled o l (v.see r (p.answer s r).1) (p.next s r) := by
  rcases h with h | h
  · cases asks with
    | beat c => exact .inl (h.hears_heartbeat ((p.fate s.heard .heartbeat).met s.ledger .heartbeat))
    | warn => exact .inl (h.hears_nothing rfl)
    | register _ asks =>
      cases asks with
      | create => exact h.hears_create ((p.fate s.heard _).met s.ledger _)
      | pause | log => exact .inl (h.hears_nothing rfl)
    | revise _ target asks =>
      cases asks with
      | read => exact .inl (h.hears_read target ((p.fate s.heard _).met s.ledger _))
      | now => exact .inl (h.hears_second _)
      | swap _ holds _ changes differs =>
        exact h.hears_swap target holds changes differs ((p.fate s.heard _).met s.ledger _)
      | pause | log => exact .inl (h.hears_nothing rfl)
  · obtain ⟨e, rfl⟩ := asks.log_of_write h.written
    obtain ⟨a, leaves, answers⟩ := h.leaves
    exact .inr ⟨h.written, a, leaves.cons rfl, answers⟩

/-- A command that ends well without having stored anything had nothing to store. -/
theorem Untouched.leaves {o : Command} {l : Ledger} {v : View} {s : Scene} {a : o.Answer}
    (h : Untouched o l v s) (ends : o.Ends v (.ok a)) : Leaves l s.heard o a s.ledger := by
  rw [h.ledger]
  cases ends with
  | beaten c => exact .beaten c _ h.stores
  | registered _ ends =>
    cases ends with
    | created _ _ written => exact absurd written h.unwritten
  | revised _ target _ ends =>
    cases ends with
    | stored _ _ written => exact absurd written h.unwritten
    | kept _ holds _ changes same =>
      exact .kept target (h.read _ _ target holds.read) holds.record (h.now _ holds.now) changes same
        h.stores

theorem Malformed.call {o : Command} (malformed : o.Malformed) :
    ∃ f : Refusal, f.kind = .invalidArgument ∧ o.call = .done (.error f.error) := by
  cases malformed with
  | emptyId empty =>
    refine ⟨.emptyId, rfl, ?_⟩
    cases o with
    | heartbeat => cases empty
    | startVoting | vote | decision => cases empty; rfl
  | @noCohorts c id n d few =>
    by_cases hid : id = ""
    · exact ⟨.emptyId, rfl, if_pos hid⟩
    · exact ⟨.cohortCount n, rfl, (if_neg hid).trans (if_pos few)⟩
  | @negativeCohort c id k b negative =>
    by_cases hid : id = ""
    · exact ⟨.emptyId, rfl, if_pos hid⟩
    · exact ⟨.negativeCohort k, rfl, (if_neg hid).trans (if_pos negative)⟩

/-- A command that succeeds is not malformed. -/
theorem not_malformed_of_run {σ : Type} {env : Environment σ} {o : Command} {s s' : σ} {a : o.Answer}
    (hrun : o.call.run env s = (some (.ok a), s')) : ¬ o.Malformed := by
  intro malformed
  obtain ⟨f, -, hcall⟩ := malformed.call
  rw [hcall] at hrun
  cases hrun

/-- A command ends. If it fails it has stored nothing and left the ledger, else it leaves what it
    answers for. This is so whatever was said before, as long as nothing was stored. -/
theorem run_cases_of_quiet (p : Script) (l : Ledger) (o : Command) {heard : List Exchange}
    (quiet : heard.filter Exchange.isStore = []) :
    ∃ a s, o.call.run p.environment ⟨l, heard⟩ = (some a, s) ∧
      (∀ e, a = .error e → s.ledger = l ∧ s.heard.filter Exchange.isStore = []) ∧
      ∀ answer, a = .ok answer → Leaves l s.heard o answer s.ledger := by
  have h₀ : Untouched o l (.start 0) ⟨l, heard⟩ := ⟨rfl, quiet, nofun, nofun, nofun⟩
  obtain ⟨a, v, s, hrun, ends, h⟩ := o.call_obeys.run p (untouched_or_settled p) (.inl h₀)
  refine ⟨a, s, hrun, ?_, ?_⟩
  · intro e he
    subst he
    rcases h with h | h
    · exact ⟨h.ledger, h.stores⟩
    · obtain ⟨answer, -, answers⟩ := h.leaves
      exact nomatch answers _ ends
  · intro answer ha
    subst ha
    rcases h with h | h
    · exact h.leaves ends
    · obtain ⟨answer', leaves, answers⟩ := h.leaves
      cases answers _ ends
      exact leaves

theorem run_cases (p : Script) (l : Ledger) (o : Command) :
    ∃ a s, o.call.run p.environment ⟨l, []⟩ = (some a, s) ∧
      (∀ e, a = .error e → s.ledger = l ∧ s.heard.filter Exchange.isStore = []) ∧
      ∀ answer, a = .ok answer → Leaves l s.heard o answer s.ledger :=
  run_cases_of_quiet p l o rfl

/-- A command ends, alone with a ledger that may turn its calls down. If it fails, it has stored
    nothing and the ledger is as it was. If it succeeds, it has made of the record of its own
    transaction what it answers for, in one write or, where that is no difference, in none; after a
    vote the ballot stands. A malformed command fails without asking for anything. -/
theorem all_or_nothing (p : Script) (l : Ledger) (o : Command) :
    (∃ a s, o.call.run p.environment ⟨l, []⟩ = (some a, s) ∧
      (∀ e, a = .error e → s.ledger = l ∧ s.heard.filter Exchange.isStore = []) ∧
      ∀ answer, a = .ok answer → Leaves l s.heard o answer s.ledger ∧
        (∀ key, o.transaction ≠ some key → s.ledger.read key = l.read key) ∧
        ∀ c id k b, o = .vote c id k b →
          ∃ r, s.ledger.record? id = some r ∧ r.ballot k.toUInt32 = some b) ∧
    (o.Malformed → ∃ f : Refusal, f.kind = .invalidArgument ∧ o.call = .done (.error f.error)) := by
  refine ⟨?_, Malformed.call⟩
  obtain ⟨a, s, hrun, herror, hok⟩ := run_cases p l o
  refine ⟨a, s, hrun, herror, ?_⟩
  intro answer ha
  have leaves : Leaves l s.heard o answer s.ledger := hok answer ha
  refine ⟨leaves, fun key hk => leaves.read_of_ne hk, ?_⟩
  intro c id k b ho
  subst ho
  exact leaves.ballot

/-- The first write loses, and the clock stands at second 0. -/
def lostOnce : Script :=
  ⟨fun heard _ => if heard.any Exchange.isLoss then .carriedOut else .loses, fun _ => 0⟩

/-- A vote that loses once against another one stores its ballot in the second attempt. -/
theorem all_or_nothing_of_lost_swap : ∃ s,
    (vote ⟨.standard⟩ "a" 0 .abort).call.run lostOnce.environment
      ⟨Ledger.empty.put "a" (Record.new 1 9).toBytes, []⟩ = (some (.ok .counted), s) ∧
    s.heard.countP Exchange.isLoss = 1 ∧
    ∃ r, s.ledger.record? "a" = some r ∧ r.ballot 0 = some .abort := by
  obtain ⟨⟨a, s, hrun, -, hok⟩, -⟩ := all_or_nothing lostOnce
    (Ledger.empty.put "a" (Record.new 1 9).toBytes) (vote ⟨.standard⟩ "a" 0 .abort)
  have answered : (some a, s).1 = some (.ok .counted) := hrun ▸ rfl
  have lost : (some a, s).2.heard.countP Exchange.isLoss = 1 := hrun ▸ rfl
  obtain rfl : a = .ok .counted := Option.some.inj answered
  obtain ⟨-, -, ballot⟩ := hok _ rfl
  exact ⟨s, hrun, lost, ballot _ _ _ _ rfl⟩

end Command

/-! ## Reading a record -/

namespace Coordinator

/-- How reading the record of `id` may end, having seen `v`. -/
inductive Shows (id : String) (v : View) : Except Error Record → Prop where
  | record {bytes : Bytes} {r : Record} (read : v.read = some (.ok (some bytes)))
    (record : Record.ofBytes bytes = .ok r) : Shows id v (.ok r)
  | flawed {bytes : Bytes} {flaw : Record.Flaw} (read : v.read = some (.ok (some bytes)))
    (flawed : Record.ofBytes bytes = .error flaw) : Shows id v (.error flaw.error)
  | missing (read : v.read = some (.ok none)) :
    Shows id v (.error (Refusal.notRegistered id).error)
  | unread {e : Error} (read : v.read = some (.error e)) : Shows id v (.error e)

theorem readRecord_obeys (id : String) :
    (readRecord id).Obeys (fun _ r => r = .ledger (.read id)) (Shows id) (.start 0) := by
  refine ⟨rfl, fun x => ?_⟩
  match x with
  | .error e => exact .unread rfl
  | .ok none => exact .missing rfl
  | .ok (some bytes) =>
    show Shows id _ ((Record.ofBytes bytes).mapError Record.Flaw.error)
    cases hr : Record.ofBytes bytes with
    | ok r => exact .record rfl hr
    | error flaw => exact .flawed rfl hr

/-- Reading a record leaves the ledger, whatever is stored there, and shows what becomes of the read. -/
theorem run_readRecord (p : Script) (s : Scene) (id : String) :
    ∃ a v s', (readRecord id).run p.environment s = (some a, s') ∧ Shows id v a ∧
      s'.ledger = s.ledger ∧
      ∀ y, v.read = some y → ∃ heard, y = ((p.fate heard (.read id)).meet s.ledger (.read id)).1 := by
  have keeps : ∀ (v : View) (s' : Scene) (r : Request),
      (s'.ledger = s.ledger ∧ ∀ y, v.read = some y →
        ∃ heard, y = ((p.fate heard (.read id)).meet s.ledger (.read id)).1) →
      r = .ledger (.read id) →
      (p.next s' r).ledger = s.ledger ∧ ∀ y, (v.see r (p.answer s' r).1).read = some y →
        ∃ heard, y = ((p.fate heard (.read id)).meet s.ledger (.read id)).1 := by
    intro v s' r h hr
    subst hr
    have met := (p.fate s'.heard (.read id)).met s'.ledger (.read id)
    refine ⟨met.of_read.1.trans h.1, ?_⟩
    intro y hy
    cases hy
    exact ⟨s'.heard, by rw [← h.1]; rfl⟩
  obtain ⟨a, v, s', hrun, shows, h⟩ := (readRecord_obeys id).run p keeps ⟨rfl, nofun⟩
  exact ⟨a, v, s', hrun, shows, h⟩

end Coordinator
end TwoPhaseCommit
