import TwoPhaseCommit.Proofs.Ledger.Lookup

/- A ledger by its history. A `Session` is a ledger that held nothing at first and the calls that it has
   answered since then. What it holds is told by these answers alone (`Recorded`): a key is there once a
   create was answered `created`, with the value of the latest call that stored one. A call keeps this
   (`Recorded.ask`), so it holds after all calls (`recorded_after`), and each answer can be told from the
   answers before it (`conditional_map`). -/
namespace TwoPhaseCommit

/-- A call on a ledger and its answer. -/
structure Answered where
  query : Query
  answer : query.Answer

namespace Answered

/-- The key that a call has created. -/
def created? : Answered → Option String
  | ⟨.create key _, .created⟩ => some key
  | _ => none

/-- The value that a call has stored under a key. -/
def stored? (key : String) : Answered → Option Bytes
  | ⟨.create k value, .created⟩ => if key = k then some value else none
  | ⟨.swap k _ new, .swapped⟩ => if key = k then some new else none
  | _ => none

end Answered

/-- What a ledger was asked and has answered, the latest call first, and the ledger after that. -/
structure Session where
  answers : List Answered
  ledger : Ledger

namespace Session

/-- Carries out one more call. -/
def ask (s : Session) (q : Query) : Session :=
  ⟨⟨q, (s.ledger.perform q).1⟩ :: s.answers, (s.ledger.perform q).2⟩

/-- The session of these calls, one after the other, on a ledger that holds nothing at first. -/
def after (calls : List Query) : Session := calls.foldl ask ⟨[], .empty⟩

/-- The keys of the creates that were answered `created`. -/
def created (s : Session) : List String := s.answers.filterMap Answered.created?

/-- The value of the latest call that has stored one under a key. -/
def latest (s : Session) (key : String) : Option Bytes := s.answers.findSome? (Answered.stored? key)

/-- What a ledger holds is what its answers tell. -/
structure Recorded (s : Session) : Prop where
  read : ∀ key, s.ledger.read key = s.latest key
  present : ∀ key, (s.ledger.read key).isSome ↔ key ∈ s.created
  size : s.ledger.size = s.created.length

namespace Recorded
variable {s : Session}

theorem absent_iff (h : s.Recorded) (key : String) : s.ledger.read key = none ↔ key ∉ s.created := by
  rw [← h.present key, Option.not_isSome_iff_eq_none]

/-- A call that stores nothing and leaves the ledger as it is. -/
theorem idle (h : s.Recorded) {x : Answered} (hx : x.created? = none)
    (hs : ∀ key, x.stored? key = none) : Recorded ⟨x :: s.answers, s.ledger⟩ := by
  have hcreated : created ⟨x :: s.answers, s.ledger⟩ = s.created := List.filterMap_cons_none hx
  have hlatest : ∀ key, latest ⟨x :: s.answers, s.ledger⟩ key = s.latest key := by
    intro key
    rw [latest, List.findSome?_cons, hs key]
    rfl
  constructor
  case read => exact fun key => (h.read key).trans (hlatest key).symm
  case present => exact fun key => hcreated ▸ h.present key
  case size => exact hcreated ▸ h.size

/-- A create under a new key. -/
theorem create (h : s.Recorded) {key : String} (absent : s.ledger.read key = none) (value : Bytes) :
    Recorded ⟨⟨.create key value, .created⟩ :: s.answers, s.ledger.put key value⟩ := by
  constructor
  case read =>
    intro j
    rw [Ledger.read_put, h.read j, latest, latest, List.findSome?_cons, Answered.stored?]
    split <;> rfl
  case present =>
    intro j
    have hcons : created ⟨⟨.create key value, .created⟩ :: s.answers, s.ledger.put key value⟩ =
      key :: s.created := rfl
    rw [Ledger.read_put, hcons, List.mem_cons, ← h.present j]
    split
    · next hj => simp [hj]
    · next hj => simp [hj]
  case size =>
    have hsize := SortedMap.size_insert s.ledger.cells key value
    rw [if_neg (by rw [show s.ledger.cells.get? key = none from absent]; simp)] at hsize
    exact hsize.trans (congrArg (· + 1) h.size)

/-- A swap of the value that is there. -/
theorem swap (h : s.Recorded) {key : String} {expected : Bytes}
    (expects : s.ledger.read key = some expected) (new : Bytes) :
    Recorded ⟨⟨.swap key expected new, .swapped⟩ :: s.answers, s.ledger.put key new⟩ := by
  constructor
  case read =>
    intro j
    rw [Ledger.read_put, h.read j, latest, latest, List.findSome?_cons, Answered.stored?]
    split <;> rfl
  case present =>
    intro j
    have hcons : created ⟨⟨.swap key expected new, .swapped⟩ :: s.answers, s.ledger.put key new⟩ =
      s.created := rfl
    rw [Ledger.read_put, hcons, ← h.present j]
    split
    · next hj => simp [hj, expects]
    · rfl
  case size =>
    have hsize := SortedMap.size_insert s.ledger.cells key new
    rw [if_pos (by rw [show s.ledger.cells.get? key = some expected from expects]; rfl)] at hsize
    exact hsize.trans h.size

/-- Every call keeps what a ledger holds in line with its answers. -/
theorem ask (h : s.Recorded) (q : Query) : (s.ask q).Recorded := by
  cases q with
  | create key value =>
    rw [Session.ask, Ledger.perform]
    cases hk : s.ledger.read key with
    | none =>
      rw [Ledger.create_of_absent hk]
      exact h.create hk value
    | some stored =>
      rw [Ledger.create_of_present hk]
      exact h.idle rfl fun _ => rfl
  | swap key expected new =>
    rw [Session.ask, Ledger.perform]
    by_cases hk : s.ledger.read key = some expected
    · rw [Ledger.swap_of_expected hk]
      exact h.swap hk new
    · rw [Ledger.swap, if_neg hk]
      exact h.idle rfl fun _ => rfl
  | read | heartbeat => exact h.idle rfl fun _ => rfl

theorem foldl : ∀ (calls : List Query) {s : Session}, s.Recorded → (calls.foldl Session.ask s).Recorded
  | [], _, h => h
  | q :: calls, _, h => foldl calls (h.ask q)

end Recorded

theorem recorded_after (calls : List Query) : (after calls).Recorded :=
  .foldl calls ⟨fun _ => rfl, fun _ => by simp [created, Ledger.read, Ledger.empty], rfl⟩

/-- More calls only add to the keys that were created. -/
theorem created_subset_foldl : ∀ (calls : List Query) (s : Session),
    s.created ⊆ (calls.foldl ask s).created
  | [], s => fun _ h => h
  | q :: calls, s => by
    refine fun key h => created_subset_foldl calls (s.ask q) ?_
    obtain ⟨x, hx, hkey⟩ := List.mem_filterMap.1 h
    exact List.mem_filterMap.2 ⟨x, List.mem_cons_of_mem _ hx, hkey⟩

/-- After any calls on a ledger that held nothing at first: a create is answered `created` exactly if no
    create under its key was, a swap `swapped` exactly if its key was created and the latest value
    stored there is the expected one, and a read with that value. A call that is turned down changes
    nothing, no later call makes a key disappear, and there are as many keys as creates that were
    answered `created`. -/
theorem conditional_map (calls : List Query) :
    let s := after calls
    (∀ key value, (s.ledger.create key value).1 = .created ↔ key ∉ s.created) ∧
    (∀ key expected new, (s.ledger.swap key expected new).1 = .swapped ↔
      key ∈ s.created ∧ s.latest key = some expected) ∧
    (∀ key, s.ledger.read key = s.latest key) ∧
    (∀ key value, (s.ledger.create key value).1 = .occupied →
      (s.ledger.create key value).2 = s.ledger) ∧
    (∀ key expected new, (s.ledger.swap key expected new).1 = .conflict →
      (s.ledger.swap key expected new).2 = s.ledger) ∧
    (∀ more key, s.ledger.read key ≠ none → (after (calls ++ more)).ledger.read key ≠ none) ∧
    s.ledger.size = s.created.length ∧ (s.ledger.isEmpty ↔ s.created.length = 0) := by
  intro s
  have h : s.Recorded := recorded_after calls
  refine ⟨?create, ?swap, h.read, ?occupied, ?conflict, ?stays, h.size, ?empty⟩
  case create =>
    intro key value
    rw [← h.absent_iff]
    cases hk : s.ledger.read key with
    | none => simp [Ledger.create_of_absent hk]
    | some stored => simp [Ledger.create_of_present hk]
  case swap =>
    intro key expected new
    rw [← h.read key, ← h.present key]
    constructor
    · intro swapped
      have hk := Ledger.swap_eq_swapped swapped
      exact ⟨by rw [hk]; rfl, hk⟩
    · rintro ⟨-, hk⟩
      rw [Ledger.swap_of_expected hk]
  case occupied =>
    intro key value occupied
    cases hk : s.ledger.read key with
    | none =>
      rw [Ledger.create_of_absent hk] at occupied
      cases occupied
    | some stored => rw [Ledger.create_of_present hk]
  case conflict =>
    intro key expected new conflict
    rw [Ledger.swap] at conflict ⊢
    split at conflict
    · cases conflict
    · next hk => rw [if_neg hk]
  case stays =>
    intro more key hk absent
    have hmore : after (calls ++ more) = more.foldl ask s := List.foldl_append ..
    rw [(recorded_after (calls ++ more)).absent_iff, hmore] at absent
    have hkey : key ∈ s.created := by
      rw [← h.present key, Option.isSome_iff_ne_none]
      exact hk
    exact absent (created_subset_foldl more s hkey)
  case empty => rw [Ledger.isEmpty, h.size, beq_iff_eq]

/-- A key is created and its value swapped; after that neither can be done again, and a swap under a key
    that is not there creates nothing, also if it expects no bytes. -/
theorem conditional_map_of_two_keys :
    let s := after [.create "a" [1], .swap "a" [1] [2], .create "a" [3], .swap "b" [] [4]]
    s.ledger.read "a" = some [2] ∧ s.ledger.read "b" = none ∧ s.ledger.size = 1 ∧
      (s.ledger.create "a" [5]).1 = .occupied ∧ (s.ledger.create "a" [5]).2 = s.ledger ∧
      (s.ledger.swap "b" [] [6]).1 = .conflict ∧ (s.ledger.swap "b" [] [6]).2 = s.ledger ∧
      (after ([.create "a" [1], .swap "a" [1] [2], .create "a" [3], .swap "b" [] [4]] ++
        [.swap "a" [2] []])).ledger.read "a" ≠ none := by
  intro s
  obtain ⟨-, -, read, occupied, conflict, stays, size, -⟩ := conditional_map
    [.create "a" [1], .swap "a" [1] [2], .create "a" [3], .swap "b" [] [4]]
  have refused : (s.ledger.create "a" [5]).1 = .occupied := by decide
  have denied : (s.ledger.swap "b" [] [6]).1 = .conflict := by decide
  exact ⟨read "a", read "b", size, refused, occupied "a" [5] refused, denied,
    conflict "b" [] [6] denied, stays _ "a" (by decide)⟩

end Session
end TwoPhaseCommit
