import TwoPhaseCommit.Proofs.Record.Poll
import TwoPhaseCommit.Proofs.Run.Linearization

/- Votes of different cohorts, in any order. If nobody but the cohorts calls on a transaction, each at
   most once and in time, and all calls succeed, then the order in which they take turns does not
   matter: every ballot is counted, and the record in the end is told by the ballots. What carries
   this is `Polled`: after any steps the stored record is the one of the ballots whose calls have been
   granted their swap so far. -/
namespace TwoPhaseCommit

/-- The calls on transaction `id` in the steps `h` are votes that put down the ballots `votes`, one
    call for each of them. All of them look at the clock before the deadline `d`, and all succeed. -/
structure Poll (h : List Moment) (id : String) (d : Int64) (votes : SortedMap UInt32 Ballot) :
    Prop where
  ballot : ∀ i o v, (progress i h).seen? = some (o, v) → o.target = some id →
    ∃ c k b, o = .vote c id k b ∧ votes.get? k.toUInt32 = some b
  call : ∀ k b, votes.get? k = some b →
    ∃ i c j v, (progress i h).seen? = some (.vote c id j b, v) ∧ j.toUInt32 = k
  once : ∀ i i' c c' k b b' v v', (progress i h).seen? = some (.vote c id k b, v) →
    (progress i' h).seen? = some (.vote c' id k b', v') → i = i'
  early : ∀ m ∈ h, ∀ t o v, m.move = .hears ⟨.now, t⟩ →
    (progress m.call h).seen? = some (o, v) → o.target = some id → t < d
  returned : ∀ i o v, (progress i h).seen? = some (o, v) → o.target = some id →
    ∃ a, progress i h = .returned o v (.ok a)

/-- Call `i` was granted, in the steps `h`, the swap that puts down ballot `b` of cohort `k`. -/
def Casts (h : List Moment) (id : String) (i : Nat) (k : UInt32) (b : Ballot) : Prop :=
  ∃ m p bytes new c j u, m :: p <:+ h ∧ m.call = i ∧
    m.move = .hears ⟨.ledger (.swap id bytes new), .ok .swapped⟩ ∧
    progress i p = .underway (.vote c id j b) u ∧ j.toUInt32 = k

/-- The record of `id` is that of the ballots `votes`, which are those that calls have cast in the
    steps `h`. -/
structure Polled (l₀ : Ledger) (id : String) (n : UInt32) (d : Int64) (h : List Moment)
    (votes : SortedMap UInt32 Ballot) : Prop where
  stored : (ledgerAfter l₀ h).read id = some (Record.polled n d votes).toBytes
  keys : votes.KeysBelow n.toNat
  casts : ∀ k b, votes.get? k = some b ↔ ∃ i, Casts h id i k b

namespace Chronicle
variable {C : Conduct} {l₀ : Ledger} {h p s : List Moment} {m : Moment} {i : Nat} {o : Command}
  {v : View} {id : String} {n : UInt32} {d : Int64} {all votes : SortedMap UInt32 Ballot}

/-- A call of a poll has not seen the deadline. -/
theorem early_of_now (hc : Chronicle C l₀ h) (poll : Poll h id d all) (hs : s <:+ h)
    (seen : (progress i s).seen? = some (o, v)) (target : o.target = some id) {t : Int64}
    (now : v.now = some t) : t < d := by
  obtain ⟨m, hm, rfl, hmove⟩ := (hc.suffix hs).exists_now seen now
  obtain ⟨v', seen'⟩ := hc.exists_seen_of_suffix hs seen
  exact poll.early m (hs.subset hm) t o v' hmove seen' target

/-- The ballot of a call that has not been granted its swap is not cast. -/
theorem not_cast (hc : Chronicle C l₀ h) (poll : Poll h id d all) (hs : s <:+ h) {c : Coordinator}
    {k : Int32} {b : Ballot} (underway : progress i s = .underway (.vote c id k b) v)
    (unwritten : v.write ≠ some (.ok true)) (j : Nat) (b' : Ballot) :
    ¬ Casts s id j k.toUInt32 b' := by
  intro casts
  obtain ⟨m, p, bytes, new, c', k', u, hmp, rfl, hm, underway', hk⟩ := casts
  obtain rfl : k' = k := by rw [← Int32.toInt32_toUInt32 k', hk, Int32.toInt32_toUInt32]
  have seen : (progress i s).seen? = some (.vote c id k' b, v) := Progress.seen?_of_underway underway
  have granted : (progress m.call (m :: p)).seen? =
      some (.vote c' id k' b', { u with write := some (.ok true) }) := by
    rw [progress_cons_self, underway', hm]
    rfl
  -- the call that cast the ballot is this one, and so this one was granted its swap
  obtain ⟨v₁, seen₁⟩ := hc.exists_seen_of_suffix hs seen
  obtain ⟨v₂, seen₂⟩ := hc.exists_seen_of_suffix (hmp.trans hs) granted
  obtain rfl : i = m.call := poll.once i m.call c c' k' b b' v₁ v₂ seen₁ seen₂
  obtain ⟨seen', -⟩ := (hc.suffix hs).lastWord_of_written hmp granted rfl
  rw [seen] at seen'
  cases seen'
  exact unwritten rfl

end Chronicle

/-- Another step casts another ballot, or none. -/
theorem casts_cons_of_ne {h : List Moment} {m : Moment} {id : String}
    (idle : ∀ bytes new, m.move ≠ .hears ⟨.ledger (.swap id bytes new), .ok .swapped⟩) (i : Nat)
    (k : UInt32) (b : Ballot) : Casts (m :: h) id i k b ↔ Casts h id i k b := by
  constructor
  · intro casts
    obtain ⟨m', p, bytes, new, c, j, u, hmp, hi, hm, rest⟩ := casts
    rcases List.suffix_cons_iff.1 hmp with he | hs
    · cases he
      exact absurd hm (idle bytes new)
    · exact ⟨m', p, bytes, new, c, j, u, hs, hi, hm, rest⟩
  · intro casts
    obtain ⟨m', p, bytes, new, c, j, u, hmp, rest⟩ := casts
    exact ⟨m', p, bytes, new, c, j, u, hmp.trans (List.suffix_cons m h), rest⟩

/-- A step that casts a ballot adds it to those that are cast. -/
theorem casts_cons_iff {h : List Moment} {m : Moment} {id : String} {bytes new : Bytes}
    (hm : m.move = .hears ⟨.ledger (.swap id bytes new), .ok .swapped⟩) {c : Coordinator} {j : Int32}
    {b : Ballot} {u : View} (underway : progress m.call h = .underway (.vote c id j b) u) (k : UInt32)
    (b' : Ballot) : (∃ i, Casts (m :: h) id i k b') ↔
      (j.toUInt32 = k ∧ b = b') ∨ ∃ i, Casts h id i k b' := by
  constructor
  · intro casts
    obtain ⟨i, m', p, bytes', new', c', j', u', hmp, rfl, hm', underway', hk⟩ := casts
    rcases List.suffix_cons_iff.1 hmp with he | hs
    · cases he
      rw [underway] at underway'
      cases underway'
      exact .inl ⟨hk, rfl⟩
    · exact .inr ⟨m'.call, m', p, bytes', new', c', j', u', hs, rfl, hm', underway', hk⟩
  · intro casts
    obtain ⟨hk, rfl⟩ | ⟨i, m', p, bytes', new', c', j', u', hmp, rest⟩ := casts
    · exact ⟨m.call, m, h, bytes, new, c, j, u, List.suffix_refl _, rfl, hm, underway, hk⟩
    · exact ⟨i, m', p, bytes', new', c', j', u', hmp.trans (List.suffix_cons m h), rest⟩

/-! ## The record of a poll -/

namespace Polled
variable {l₀ : Ledger} {h s : List Moment} {m : Moment} {id : String} {n : UInt32} {d : Int64}
  {all votes : SortedMap UInt32 Ballot}

theorem start (hn : n ≠ 0) (registered : l₀.read id = some (Record.new n d).toBytes) :
    Polled l₀ id n d [] .empty := by
  constructor
  case stored =>
    rw [Record.polled_empty hn]
    exact registered
  case keys => exact .empty _
  case casts =>
    intro k b
    constructor
    · nofun
    · intro casts
      obtain ⟨i, m, p, bytes, new, c, j, u, hmp, -⟩ := casts
      cases List.suffix_nil.1 hmp

/-- What a call of the poll makes of the record at its next exchange with the ledger: it adds its
    ballot, which counts. -/
theorem counted (hc : Chronicle .faithful l₀ h) (poll : Poll h id d all) (hmp : m :: s <:+ h)
    (polled : Polled l₀ id n d s votes) {c : Coordinator} {k : Int32} {b : Ballot} {u : View}
    (underway : progress m.call s = .underway (.vote c id k b) u) {q : Query} {y : Except Error q.Answer}
    (hm : m.move = .hears ⟨.ledger q, y⟩) {bytes : Bytes} {r r' : Record} {t : Int64} {a : VoteEffect}
    (hread : (ledgerAfter l₀ s).read id = some bytes) (record : Record.ofBytes bytes = .ok r)
    (early : t < d) (changes : r.applyVote k.toUInt32 b t = .ok (a, r')) :
    r = .polled n d votes ∧ k.toUInt32.toNat < n.toNat ∧ votes.get? k.toUInt32 = none ∧
      a = .counted ∧ r' = .polled n d (votes.insert k.toUInt32 b) := by
  obtain rfl : r = .polled n d votes := by
    rw [polled.stored] at hread
    cases hread
    exact (Except.ok.inj ((Record.ofBytes_toBytes _).symm.trans record)).symm
  have hk : k.toUInt32 < n := by
    have expected := (Record.voted_of_applyVote changes).1
    rwa [Record.cohortCount_polled] at expected
  -- once it is granted its swap, a call has nothing more to say to the ledger
  have unwritten : u.write ≠ some (.ok true) := by
    intro hw
    obtain ⟨o, u', underway', asks⟩ := (hc.occurs hmp).underway_of_hears hm
    rw [underway] at underway'
    cases underway'
    obtain ⟨e, hr⟩ := asks.log_of_write hw
    cases hr
  have missing : votes.get? k.toUInt32 = none := by
    cases hg : votes.get? k.toUInt32 with
    | none => rfl
    | some b' =>
      obtain ⟨j, casts⟩ := (polled.casts _ b').1 hg
      exact absurd casts (hc.not_cast poll ((List.suffix_cons m s).trans hmp) underway unwritten j b')
  rw [Record.applyVote_polled polled.keys hk missing early b] at changes
  cases changes
  exact ⟨rfl, UInt32.lt_iff_toNat_lt.1 hk, missing, rfl, rfl⟩

/-- A step leaves the record of a poll, with the ballot of its call if it is a swap that is granted. -/
theorem step (hc : Chronicle .faithful l₀ h) (poll : Poll h id d all) (hs : m :: s <:+ h)
    (polled : Polled l₀ id n d s votes) : ∃ votes', Polled l₀ id n d (m :: s) votes' := by
  have occurs := hc.occurs hs
  have hss : s <:+ h := (List.suffix_cons m s).trans hs
  by_cases same : m.ledger.read id = some (Record.polled n d votes).toBytes
  · have idle : ∀ bytes new,
        m.move ≠ .hears ⟨.ledger (.swap id bytes new), .ok .swapped⟩ := by
      intro bytes new hm
      refine (hc.unreliable.occurs hs).swapped_differs hm ?_
      rw [same, polled.stored]
    refine ⟨votes, same, polled.keys, fun k b => ?_⟩
    rw [polled.casts k b]
    exact exists_congr fun i => (casts_cons_of_ne idle i k b).symm
  · obtain ⟨bytes, new, hm⟩ := occurs.swapped_of_ne polled.stored same
    obtain ⟨o, u, underway, asks⟩ := occurs.underway_of_hears hm
    have seen : (progress m.call s).seen? = some (o, u) := Progress.seen?_of_underway underway
    obtain ⟨v', seen'⟩ := hc.exists_seen_of_suffix hss seen
    obtain ⟨c, k, b, rfl, -⟩ := poll.ballot m.call o v' seen' asks.target_of_swap
    obtain ⟨r, r', t, a, holds, changes, rfl, -⟩ := asks.of_swap
    obtain ⟨hread, hnew⟩ := (hc.unreliable.occurs hs).swapped hm
    have early : t < d := hc.early_of_now poll hss seen rfl holds.now
    obtain ⟨-, hk, missing, -, rfl⟩ :=
      polled.counted hc poll hs underway hm hread holds.record early changes
    refine ⟨votes.insert k.toUInt32 b, hnew, polled.keys.insert hk b, fun j b' => ?_⟩
    rw [casts_cons_iff hm underway, ← polled.casts, SortedMap.get?_insert]
    by_cases hj : j = k.toUInt32
    · rw [if_pos hj, hj, missing]
      simp
    · rw [if_neg hj]
      simp [Ne.symm hj]

theorem of_suffix (hc : Chronicle .faithful l₀ h) (poll : Poll h id d all) (hn : n ≠ 0)
    (registered : l₀.read id = some (Record.new n d).toBytes) :
    ∀ {s : List Moment}, s <:+ h → ∃ votes, Polled l₀ id n d s votes
  | [], _ => ⟨.empty, start hn registered⟩
  | m :: s, hs => by
    obtain ⟨votes, polled⟩ := of_suffix hc poll hn registered ((List.suffix_cons m s).trans hs)
    exact polled.step hc poll hs

end Polled

namespace Chronicle
variable {l₀ : Ledger} {h : List Moment} {i : Nat} {v : View} {id : String} {n : UInt32} {d : Int64}
  {all : SortedMap UInt32 Ballot}

/-- A call of a poll that has returned is told that its ballot counts, and has cast it. -/
theorem counted_of_returned (hc : Chronicle .faithful l₀ h) (poll : Poll h id d all) (hn : n ≠ 0)
    (registered : l₀.read id = some (Record.new n d).toBytes) {c : Coordinator} {k : Int32}
    {b : Ballot} {a : VoteEffect} (returned : progress i h = .returned (.vote c id k b) v (.ok a)) :
    a = .counted ∧ Casts h id i k.toUInt32 b := by
  have seen : (progress i h).seen? = some (.vote c id k b, v) := Progress.seen?_of_returned returned
  have target : (Command.vote c id k b).target = some id := rfl
  obtain ⟨bytes, r, t, r', holds, changes, done⟩ := (hc.ends returned).of_ok target
  have early : t < d := hc.early_of_now poll (List.suffix_refl h) seen rfl holds.now
  rcases done with ⟨unwritten, same⟩ | written
  -- a call that wrote nothing found its ballot in the record, where it cannot have been
  · obtain ⟨m, p, u, hlast, hm, underway, hread, -⟩ :=
      hc.unreliable.read_point seen target holds unwritten
    have hmp : m :: p <:+ h := hlast ▸ lastWord_suffix i h
    obtain rfl := call_of_lastWord hlast
    obtain ⟨votes, polled⟩ :=
      Polled.of_suffix hc poll hn registered ((List.suffix_cons m p).trans hmp)
    obtain ⟨rfl, -, missing, -, rfl⟩ :=
      polled.counted hc poll hmp underway hm hread holds.record early changes
    rw [polled.stored, ← same] at hread
    have hvotes := congrArg Record.votes (Record.toBytes_inj.1 (Option.some.inj hread))
    rw [Record.votes_polled, Record.votes_polled] at hvotes
    rw [hvotes, SortedMap.get?_insert_self] at missing
    cases missing
  · obtain ⟨m, p, u, bytes', r₁, t₁, a₁, r₁', hlast, hm, underway, holds', changes', hread, -⟩ :=
      hc.unreliable.write_point seen target written
    have hmp : m :: p <:+ h := hlast ▸ lastWord_suffix i h
    obtain rfl := call_of_lastWord hlast
    obtain ⟨rfl, rfl, rfl⟩ := holds.unique holds'
    obtain ⟨votes, polled⟩ :=
      Polled.of_suffix hc poll hn registered ((List.suffix_cons m p).trans hmp)
    obtain ⟨-, -, -, ha, -⟩ :=
      polled.counted hc poll hmp underway hm hread holds.record early changes
    exact ⟨ha, m, p, _, _, c, k, u, hmp, rfl, hm, underway, rfl⟩

end Chronicle

/-- Whatever the order in which the calls of a poll take turns, all ballots count and the record in the
    end is the same one, with these ballots. Its decision is a commit if all cohorts have voted for
    one, and is not made yet otherwise. -/
theorem counted_in_every_order {n : UInt32} (hn : n ≠ 0) (id : String) (d : Int64)
    {votes : SortedMap UInt32 Ballot} (keys : votes.KeysBelow n.toNat) :
    ∃ r : Record, r.cohortCount = n ∧ r.deadline = d ∧ r.votes = votes ∧
      ((∀ k < n, votes.get? k = some .commit) ∧ r.decision = Outcome.committed.decision.encode ∨
        ¬ (∀ k < n, votes.get? k = some .commit) ∧ r.decision = Record.openText) ∧
      ∀ l₀ h w, Run .faithful l₀ h w → l₀.read id = some (Record.new n d).toBytes →
        Poll h id d votes → w.ledger.read id = some r.toBytes ∧
          ∀ i o v, (progress i h).seen? = some (o, v) → o.target = some id →
            ∃ c k b, progress i h = .returned (.vote c id k b) v (.ok .counted) := by
  refine ⟨.polled n d votes, Record.cohortCount_polled, Record.deadline_polled, Record.votes_polled,
    Record.decision_polled keys, ?_⟩
  intro l₀ h w run registered poll
  have hc : Chronicle .faithful l₀ h := run.chronicle.1
  obtain ⟨cast, polled⟩ := Polled.of_suffix hc poll hn registered (List.suffix_refl h)
  have told : ∀ i c k b v, (progress i h).seen? = some (.vote c id k b, v) →
      progress i h = .returned (.vote c id k b) v (.ok .counted) ∧ Casts h id i k.toUInt32 b := by
    intro i c k b v seen
    obtain ⟨a, returned⟩ := poll.returned i _ v seen rfl
    obtain ⟨rfl, casts⟩ := hc.counted_of_returned poll hn registered returned
    exact ⟨returned, casts⟩
  have hcast : cast = votes := by
    apply SortedMap.ext_get?
    intro k
    apply Option.ext
    intro b
    rw [polled.casts k b]
    constructor
    · intro casts
      obtain ⟨i, m, p, bytes, new, c, j, u, hmp, rfl, hm, underway, rfl⟩ := casts
      obtain ⟨v, seen⟩ := hc.exists_seen_of_suffix ((List.suffix_cons m p).trans hmp)
        (Progress.seen?_of_underway underway)
      obtain ⟨c', k', b', ho, hb⟩ := poll.ballot m.call _ v seen rfl
      cases ho
      exact hb
    · intro hb
      obtain ⟨i, c, j, v, seen, rfl⟩ := poll.call k b hb
      exact ⟨i, (told i c j b v seen).2⟩
  refine ⟨?_, ?_⟩
  · rw [run.ledger_eq, ← hcast]
    exact polled.stored
  · intro i o v seen target
    obtain ⟨c, k, b, rfl, -⟩ := poll.ballot i o v seen target
    exact ⟨c, k, b, (told i c k b v seen).1⟩

/-! ## A poll of two -/

/-- Two votes of different cohorts, by calls 0 and 1, are a poll if there are no other calls and the
    deadline is not seen. -/
theorem Poll.of_two {h : List Moment} {id : String} {d : Int64} {c₀ c₁ : Coordinator} {k₀ k₁ : Int32}
    {b₀ b₁ : Ballot} {v₀ v₁ : View} {a₀ a₁ : VoteEffect} (differ : k₀ ≠ k₁)
    (told₀ : progress 0 h = .returned (.vote c₀ id k₀ b₀) v₀ (.ok a₀))
    (told₁ : progress 1 h = .returned (.vote c₁ id k₁ b₁) v₁ (.ok a₁))
    (others : ∀ i, i ≠ 0 → i ≠ 1 → progress i h = .unmade)
    (clock : ∀ m ∈ h, ∀ t, m.move = .hears ⟨.now, t⟩ → t < d) :
    Poll h id d ((SortedMap.empty.insert k₀.toUInt32 b₀).insert k₁.toUInt32 b₁) := by
  have hne : k₀.toUInt32 ≠ k₁.toUInt32 := by
    intro he
    exact differ (by rw [← Int32.toInt32_toUInt32 k₀, he, Int32.toInt32_toUInt32])
  have seen₀ : (progress 0 h).seen? = some (.vote c₀ id k₀ b₀, v₀) := Progress.seen?_of_returned told₀
  have seen₁ : (progress 1 h).seen? = some (.vote c₁ id k₁ b₁, v₁) := Progress.seen?_of_returned told₁
  have calls : ∀ i o v, (progress i h).seen? = some (o, v) →
      (i = 0 ∧ o = .vote c₀ id k₀ b₀ ∧ v = v₀) ∨ (i = 1 ∧ o = .vote c₁ id k₁ b₁ ∧ v = v₁) := by
    intro i o v seen
    by_cases h₀ : i = 0
    · rw [h₀, seen₀] at seen
      cases seen
      exact .inl ⟨h₀, rfl, rfl⟩
    · by_cases h₁ : i = 1
      · rw [h₁, seen₁] at seen
        cases seen
        exact .inr ⟨h₁, rfl, rfl⟩
      · rw [others i h₀ h₁] at seen
        cases seen
  constructor
  case ballot =>
    intro i o v seen _
    rcases calls i o v seen with ⟨-, rfl, -⟩ | ⟨-, rfl, -⟩
    · refine ⟨c₀, k₀, b₀, rfl, ?_⟩
      rw [SortedMap.get?_insert_of_ne _ _ hne, SortedMap.get?_insert_self]
    · exact ⟨c₁, k₁, b₁, rfl, SortedMap.get?_insert_self ..⟩
  case call =>
    intro k b hb
    rw [SortedMap.get?_insert, SortedMap.get?_insert] at hb
    split at hb
    · next hk =>
      cases hb
      exact ⟨1, c₁, k₁, v₁, seen₁, hk.symm⟩
    · split at hb
      · next hk =>
        cases hb
        exact ⟨0, c₀, k₀, v₀, seen₀, hk.symm⟩
      · cases hb
  case once =>
    intro i i' c c' k b b' v v' seen seen'
    rcases calls i _ v seen with ⟨rfl, ho, -⟩ | ⟨rfl, ho, -⟩ <;>
      rcases calls i' _ v' seen' with ⟨rfl, ho', -⟩ | ⟨rfl, ho', -⟩ <;> cases ho <;> cases ho' <;>
      first | rfl | exact absurd rfl differ
  case early =>
    intro m hm t o v ht _ _
    exact clock m hm t ht
  case returned =>
    intro i o v seen _
    rcases calls i o v seen with ⟨rfl, rfl, rfl⟩ | ⟨rfl, rfl, rfl⟩
    · exact ⟨a₀, told₀⟩
    · exact ⟨a₁, told₁⟩

/-- Two cohorts read the same record and vote for a commit. The one that loses reads again, and makes
    the commit final. -/
theorem counted_in_every_order_of_two : ∃ h w votes, Run .faithful awaiting h w ∧
    Poll h "a" 10 votes ∧ votes.KeysBelow 2 ∧ ∃ r : Record, w.ledger.read "a" = some r.toBytes ∧
      r.votes = votes ∧ r.decision = Outcome.committed.decision.encode := by
  obtain ⟨h, w, run, ⟨v₀, told₀⟩, ⟨v₁, told₁⟩, others, clock⟩ : ∃ h w, Run .faithful awaiting h w ∧
      (∃ v, progress 0 h = .returned (.vote ⟨.standard⟩ "a" 0 .commit) v (.ok .counted)) ∧
      (∃ v, progress 1 h = .returned (.vote ⟨.standard⟩ "a" 1 .commit) v (.ok .counted)) ∧
      (∀ i, i ≠ 0 → i ≠ 1 → progress i h = .unmade) ∧
      ∀ m ∈ h, ∀ t, m.move = .hears ⟨.now, t⟩ → t < 10 := by
    refine ⟨_, _, .step (.step (.step (.step (.step (.step (.step (.step (.step (.step (.step (.step
      (.step (.step (.step (.step (.step .start
      (.begins 0 (.vote ⟨.standard⟩ "a" 0 .commit) rfl))
      (.begins 1 (.vote ⟨.standard⟩ "a" 1 .commit) rfl))
      (.hears 0 rfl (.carriedOut (.read "a"))))
      (.hears 1 rfl (.carriedOut (.read "a"))))
      (.hears 0 rfl (.now 5)))
      (.hears 1 rfl (.now 4)))
      (.hears 0 rfl (.carriedOut (.swap "a" _ _))))
      (.hears 1 rfl (.carriedOut (.swap "a" _ _))))
      (.hears 1 rfl (.log _)))
      (.hears 1 rfl (.pause _)))
      (.hears 1 rfl (.carriedOut (.read "a"))))
      (.hears 1 rfl (.now 6)))
      (.hears 1 rfl (.carriedOut (.swap "a" _ _))))
      (.hears 1 rfl (.log _)))
      (.returns 1 rfl))
      (.hears 0 rfl (.log _)))
      (.returns 0 rfl), ⟨_, rfl⟩, ⟨_, rfl⟩, ?_, ?_⟩
    · intro j h₀ h₁
      simp only [progress, if_neg (Ne.symm h₀), if_neg (Ne.symm h₁)]
    · intro m hm t ht
      simp only [List.mem_cons, List.not_mem_nil, or_false] at hm
      rcases hm with rfl | rfl | rfl | rfl | rfl | rfl | rfl | rfl | rfl | rfl | rfl | rfl | rfl | rfl |
        rfl | rfl | rfl <;> cases ht <;> decide
  have poll := Poll.of_two (by decide) told₀ told₁ others clock
  have keys := ((SortedMap.KeysBelow.empty (2 : UInt32).toNat).insert (k := (0 : Int32).toUInt32)
    (by decide) Ballot.commit).insert (k := (1 : Int32).toUInt32) (by decide) Ballot.commit
  obtain ⟨r, -, -, hvotes, decided, same⟩ := counted_in_every_order (n := 2) (by decide) "a" 10 keys
  refine ⟨h, w, _, run, poll, keys, r, (same _ h w run rfl poll).1, hvotes, ?_⟩
  rcases decided with ⟨-, decision⟩ | ⟨partly, -⟩
  · exact decision
  · refine absurd (fun k hk => ?_) partly
    have hlt : k.toNat < 2 := UInt32.lt_iff_toNat_lt.1 hk
    have hk : k = 0 ∨ k = 1 := by
      rw [← UInt32.toNat_inj, ← UInt32.toNat_inj]
      simp only [UInt32.reduceToNat]
      omega
    rcases hk with rfl | rfl <;> rfl

end TwoPhaseCommit
