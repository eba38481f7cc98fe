import TwoPhaseCommit.Proofs.Reader
import TwoPhaseCommit.Proto.Wire

/- What the parts of a message look like, told apart from how they are read. A number may be spelled in
   more bytes than it needs (`IsVarint`), a key is a number that fits into 32 bits (`IsKey`), and
   `AreFields` are whole fields one after the other, with the groups among them closed. The readers
   accept these and nothing else, and take no byte more: each has a lemma that says so
   (`readKey_eq_ok_iff`, `skipValue_eq_ok_iff`, `skip_eq_ok_iff`). -/
namespace TwoPhaseCommit.Proto

/-! ## Numbers -/

namespace Varint

/-- The bytes are a number, seven bits in each of them, the lowest first, and all but the last
    have the top bit set. -/
inductive Spells : Bytes → Nat → Prop where
  | last {b : UInt8} (low : b.toNat < 128) : Spells [b] b.toNat
  | more {b : UInt8} {v : Bytes} {n : Nat} (high : 128 ≤ b.toNat) (rest : Spells v n) :
    Spells (b :: v) (b.toNat - 128 + 128 * n)

theorem Spells.length_pos {v : Bytes} {n : Nat} (h : Spells v n) : 0 < v.length := by
  cases h <;> simp

theorem readUpTo_of_spells {v : Bytes} {n : Nat} (h : Spells v n) : ∀ {k : Nat},
    v.length ≤ k + 1 → n < bound k → ∀ t, readUpTo k (v ++ t) = some (n, t) := by
  induction h with
  | last low =>
    intro k _ small t
    cases k with
    | zero =>
      rw [bound] at small
      rw [List.singleton_append, readUpTo, if_pos small]
    | succ k => rw [List.singleton_append, readUpTo, if_pos low]
  | more high rest ih =>
    intro k short small t
    rw [List.length_cons] at short
    cases k with
    | zero =>
      have := rest.length_pos
      omega
    | succ k =>
      rw [bound] at small
      rw [List.cons_append, readUpTo, if_neg (by omega), ih (by omega) (by omega) t]

theorem exists_spells : ∀ {k n : Nat} {bs t : Bytes}, readUpTo k bs = some (n, t) →
    ∃ v, bs = v ++ t ∧ Spells v n ∧ v.length ≤ k + 1
  | k, n, [], t, h => by cases k <;> simp [readUpTo] at h
  | 0, n, b :: bs, t, h => by
    rw [readUpTo] at h
    split at h
    · next hb =>
      cases h
      exact ⟨[b], rfl, .last (by omega), Nat.le_refl _⟩
    · cases h
  | k+1, n, b :: bs, t, h => by
    rw [readUpTo] at h
    split at h
    · next hb =>
      cases h
      exact ⟨[b], rfl, .last hb, by simp⟩
    · next hb =>
      split at h
      · next m rest hr =>
        cases h
        obtain ⟨v, rfl, spells, short⟩ := exists_spells hr
        exact ⟨b :: v, rfl, .more (by omega) spells, by simpa using short⟩
      · cases h

end Varint

/-- The bytes are a number of 64 bits, in ten bytes at most. -/
structure IsVarint (v : Bytes) (n : Nat) : Prop where
  spells : Varint.Spells v n
  short : v.length ≤ 10
  small : n < UInt64.size

theorem readVarint_eq_ok_iff {bs t : Bytes} {n : Nat} :
    readVarint bs = .ok (n, t) ↔ ∃ v, IsVarint v n ∧ bs = v ++ t := by
  constructor
  · intro h
    rw [readVarint] at h
    split at h
    · next p hp =>
      cases h
      obtain ⟨v, hv, spells, short⟩ := Varint.exists_spells hp
      exact ⟨v, ⟨spells, short, Varint.read_lt hp⟩, hv⟩
    · cases h
  · rintro ⟨v, hv, rfl⟩
    have hread : Varint.read (v ++ t) = some (n, t) :=
      Varint.readUpTo_of_spells hv.spells hv.short hv.small t
    rw [readVarint, hread]

theorem IsVarint.readVarint {v : Bytes} {n : Nat} (h : IsVarint v n) (t : Bytes) :
    readVarint (v ++ t) = .ok (n, t) := readVarint_eq_ok_iff.2 ⟨v, h, rfl⟩

/-! ## Keys -/

theorem WireType.ofNumber?_eq_some_iff {n : Nat} {w : WireType} :
    WireType.ofNumber? n = some w ↔ n = w.number := by
  constructor
  · intro h
    unfold WireType.ofNumber? at h
    split at h <;> cases h <;> rfl
  · rintro rfl
    exact w.ofNumber?_number

/-- The bytes are the key of a field and of the layout of its value. -/
structure IsKey (k : Bytes) (field : Nat) (w : WireType) : Prop where
  varint : IsVarint k (field * 8 + w.number)
  pos : field ≠ 0
  small : field * 8 + w.number < UInt32.size

theorem IsKey.length_pos {k : Bytes} {field : Nat} {w : WireType} (h : IsKey k field w) :
    0 < k.length := h.varint.spells.length_pos

theorem readKey_eq_ok_iff {bs t : Bytes} {field : Nat} {w : WireType} :
    readKey bs = .ok ((field, w), t) ↔ ∃ k, IsKey k field w ∧ bs = k ++ t := by
  constructor
  · intro h
    obtain ⟨⟨key, rest⟩, hv, h⟩ := exists_of_bind_eq_ok h
    dsimp only at h
    split at h
    · cases h
    next small =>
    split at h
    · cases h
    next w' hw =>
    split at h
    · cases h
    next pos =>
    cases h
    obtain ⟨k, hk, rfl⟩ := readVarint_eq_ok_iff.1 hv
    have hkey : key / 8 * 8 + w.number = key := by
      rw [← WireType.ofNumber?_eq_some_iff.1 hw]
      omega
    exact ⟨k, ⟨hkey.symm ▸ hk, pos, by omega⟩, rfl⟩
  · rintro ⟨k, hk, rfl⟩
    have hw := w.number_lt
    have hmod : (field * 8 + w.number) % 8 = w.number := by omega
    have hdiv : (field * 8 + w.number) / 8 = field := by omega
    rw [readKey, hk.varint.readVarint]
    simp only [bind, Except.bind]
    rw [if_neg (Nat.not_le.2 hk.small), hmod, WireType.ofNumber?_number, hdiv]
    dsimp only
    rw [if_neg hk.pos]

theorem IsKey.readKey {k : Bytes} {field : Nat} {w : WireType} (h : IsKey k field w) (t : Bytes) :
    readKey (k ++ t) = .ok ((field, w), t) := readKey_eq_ok_iff.2 ⟨k, h, rfl⟩

/-! ## Values -/

theorem takeBytes_eq_ok_iff {n : Nat} {bs v t : Bytes} :
    takeBytes n bs = .ok (v, t) ↔ v.length = n ∧ bs = v ++ t := by
  rw [takeBytes]
  constructor
  · intro h
    split at h
    · cases h
    · next hn =>
      cases h
      refine ⟨?_, (List.take_append_drop n bs).symm⟩
      rw [List.length_take]
      omega
  · rintro ⟨rfl, rfl⟩
    rw [if_neg (by rw [List.length_append]; omega), List.take_left, List.drop_left]

theorem takeDelimited_eq_ok_iff {bs v t : Bytes} : takeDelimited bs = .ok (v, t) ↔
    ∃ l, IsVarint l v.length ∧ bs = l ++ (v ++ t) := by
  constructor
  · intro h
    obtain ⟨⟨n, rest⟩, hl, h⟩ := exists_of_bind_eq_ok h
    obtain ⟨rfl, rfl⟩ := takeBytes_eq_ok_iff.1 h
    exact readVarint_eq_ok_iff.1 hl
  · rintro ⟨l, hl, rfl⟩
    rw [takeDelimited, hl.readVarint]
    exact takeBytes_eq_ok_iff.2 ⟨rfl, rfl⟩

/-- The bytes are a value in a layout, which is none of a group. -/
inductive IsValue : WireType → Bytes → Prop where
  | varint {v : Bytes} {n : Nat} (h : IsVarint v n) : IsValue .varint v
  | sixtyFourBit {v : Bytes} (h : v.length = 8) : IsValue .sixtyFourBit v
  | lengthDelimited {l v : Bytes} (h : IsVarint l v.length) : IsValue .lengthDelimited (l ++ v)
  | thirtyTwoBit {v : Bytes} (h : v.length = 4) : IsValue .thirtyTwoBit v

/-- What is left after a reader whose value is dropped. -/
theorem exists_of_rest_eq_ok {α : Type} {x : Except Cause (α × Bytes)} {t : Bytes}
    (h : (do return (← x).2 : Except Cause Bytes) = .ok t) : ∃ a, x = .ok (a, t) := by
  obtain ⟨⟨a, rest⟩, hx, h⟩ := exists_of_bind_eq_ok h
  cases h
  exact ⟨a, hx⟩

theorem skipValue_eq_ok_iff {w : WireType} {bs t : Bytes} (plain : w ≠ .startGroup) :
    skipValue w bs = .ok t ↔ ∃ v, IsValue w v ∧ bs = v ++ t := by
  constructor
  · intro h
    cases w with
    | startGroup => exact absurd rfl plain
    | endGroup => cases h
    | varint =>
      obtain ⟨n, hn⟩ := exists_of_rest_eq_ok h
      obtain ⟨v, hv, rfl⟩ := readVarint_eq_ok_iff.1 hn
      exact ⟨v, .varint hv, rfl⟩
    | sixtyFourBit =>
      obtain ⟨v, hv⟩ := exists_of_rest_eq_ok h
      obtain ⟨hlen, rfl⟩ := takeBytes_eq_ok_iff.1 hv
      exact ⟨v, .sixtyFourBit hlen, rfl⟩
    | lengthDelimited =>
      obtain ⟨v, hv⟩ := exists_of_rest_eq_ok h
      obtain ⟨l, hl, rfl⟩ := takeDelimited_eq_ok_iff.1 hv
      exact ⟨l ++ v, .lengthDelimited hl, (List.append_assoc ..).symm⟩
    | thirtyTwoBit =>
      obtain ⟨v, hv⟩ := exists_of_rest_eq_ok h
      obtain ⟨hlen, rfl⟩ := takeBytes_eq_ok_iff.1 hv
      exact ⟨v, .thirtyTwoBit hlen, rfl⟩
  · rintro ⟨v, hv, rfl⟩
    cases hv with
    | varint h => rw [skipValue, h.readVarint]; rfl
    | sixtyFourBit h | thirtyTwoBit h => rw [skipValue, takeBytes_eq_ok_iff.2 ⟨h, rfl⟩]; rfl
    | lengthDelimited h =>
      rw [skipValue, takeDelimited_eq_ok_iff.2 ⟨_, h, List.append_assoc ..⟩]
      rfl

/-! ## Fields -/

/-- The bytes are whole fields with the numbers `ns`, one after the other, inside `depth` groups. No
    field stands `limit` deep or deeper. A group is a field, and ends with a key of its number. -/
inductive AreFields (limit : Nat) : (depth : Nat) → (ns : List Nat) → Bytes → Prop where
  | nil (depth : Nat) : AreFields limit depth [] []
  | value {depth n : Nat} {ns : List Nat} {w : WireType} {k v rest : Bytes} (shallow : depth < limit)
    (key : IsKey k n w) (value : IsValue w v) (others : AreFields limit depth ns rest) :
    AreFields limit depth (n :: ns) (k ++ (v ++ rest))
  | group {depth n : Nat} {ns inner : List Nat} {k body k' rest : Bytes} (shallow : depth < limit)
    (opens : IsKey k n .startGroup) (fields : AreFields limit (depth + 1) inner body)
    (closes : IsKey k' n .endGroup) (others : AreFields limit depth ns rest) :
    AreFields limit depth (n :: ns) (k ++ (body ++ (k' ++ rest)))

/-- The bytes are the rest of the open groups `groups`, the innermost first. -/
inductive CloseGroups (limit : Nat) : (groups : List Nat) → Bytes → Prop where
  | nil : CloseGroups limit [] []
  | cons {group : Nat} {outer ns : List Nat} {body k rest : Bytes}
    (fields : AreFields limit (outer.length + 1) ns body) (closes : IsKey k group .endGroup)
    (others : CloseGroups limit outer rest) : CloseGroups limit (group :: outer) (body ++ (k ++ rest))

section
variable {limit fuel group n : Nat} {outer : List Nat} {k v : Bytes} {w : WireType}

theorem IsValue.plain (h : IsValue w v) : w ≠ .startGroup ∧ w ≠ .endGroup := by
  cases h <;> exact ⟨nofun, nofun⟩

theorem skipGroups_value (shallow : outer.length + 1 < limit) (key : IsKey k n w)
    (value : IsValue w v) (t : Bytes) : skipGroups limit (fuel + 1) (group :: outer) (k ++ (v ++ t)) =
      skipGroups limit fuel (group :: outer) t := by
  obtain ⟨unopened, unclosed⟩ := value.plain
  have hskip : skipValue w (v ++ t) = .ok t := (skipValue_eq_ok_iff unopened).2 ⟨v, value, rfl⟩
  rw [skipGroups, key.readKey]
  simp only [bind, Except.bind]
  cases w with
  | startGroup => exact absurd rfl unopened
  | endGroup => exact absurd rfl unclosed
  | varint | sixtyFourBit | lengthDelimited | thirtyTwoBit =>
    rw [if_neg (Nat.not_le.2 shallow), hskip]

theorem skipGroups_opens (shallow : outer.length + 1 < limit) (opens : IsKey k n .startGroup)
    (t : Bytes) : skipGroups limit (fuel + 1) (group :: outer) (k ++ t) =
      skipGroups limit fuel (n :: group :: outer) t := by
  rw [skipGroups, opens.readKey]
  exact if_neg (Nat.not_le.2 shallow)

theorem skipGroups_closes (closes : IsKey k group .endGroup) (t : Bytes) :
    skipGroups limit (fuel + 1) (group :: outer) (k ++ t) = skipGroups limit fuel outer t := by
  rw [skipGroups, closes.readKey]
  exact if_pos rfl

/-- Whole fields inside groups are passed over, and there is fuel left for every byte that follows if
    there was for all of them. -/
theorem skipGroups_fields {depth : Nat} {ns : List Nat} {body : Bytes}
    (h : AreFields limit depth ns body) : ∀ (group : Nat) (outer : List Nat) (fuel : Nat),
    outer.length + 1 = depth → body.length ≤ fuel → ∀ t, ∃ fuel', fuel ≤ fuel' + body.length ∧
      skipGroups limit fuel (group :: outer) (body ++ t) =
        skipGroups limit fuel' (group :: outer) t := by
  induction h with
  | nil => exact fun _ _ fuel _ _ _ => ⟨fuel, Nat.le_refl _, rfl⟩
  | value shallow key value others ih =>
    intro group outer fuel hdepth hfuel t
    subst hdepth
    have hkey := key.length_pos
    simp only [List.length_append] at hfuel ⊢
    obtain ⟨fuel, rfl⟩ : ∃ m, fuel = m + 1 := ⟨fuel - 1, by omega⟩
    obtain ⟨fuel', hfuel', hothers⟩ := ih group outer fuel rfl (by omega) t
    refine ⟨fuel', by omega, ?_⟩
    rw [List.append_assoc, List.append_assoc, skipGroups_value shallow key value, hothers]
  | group shallow opens fields closes others ihFields ihOthers =>
    intro group outer fuel hdepth hfuel t
    subst hdepth
    have hopen := opens.length_pos
    have hclose := closes.length_pos
    simp only [List.length_append] at hfuel ⊢
    obtain ⟨fuel, rfl⟩ : ∃ m, fuel = m + 1 := ⟨fuel - 1, by omega⟩
    obtain ⟨fuel₁, hfuel₁, hfields⟩ := ihFields _ (group :: outer) fuel rfl (by omega) _
    obtain ⟨fuel₁, rfl⟩ : ∃ m, fuel₁ = m + 1 := ⟨fuel₁ - 1, by omega⟩
    obtain ⟨fuel', hfuel', hothers⟩ := ihOthers group outer fuel₁ rfl (by omega) t
    refine ⟨fuel', by omega, ?_⟩
    rw [List.append_assoc, List.append_assoc, List.append_assoc, skipGroups_opens shallow opens,
      hfields, skipGroups_closes closes, hothers]

theorem skipGroups_closeGroups {groups : List Nat} {v : Bytes} (h : CloseGroups limit groups v) :
    ∀ {fuel : Nat}, v.length ≤ fuel → ∀ t, skipGroups limit fuel groups (v ++ t) = .ok t := by
  induction h with
  | nil =>
    intro fuel _ t
    rw [List.nil_append, skipGroups]
  | cons fields closes others ih =>
    intro fuel hfuel t
    have hclose := closes.length_pos
    simp only [List.length_append] at hfuel
    obtain ⟨fuel₁, hfuel₁, hfields⟩ := skipGroups_fields fields _ _ fuel rfl (by omega) _
    obtain ⟨fuel₁, rfl⟩ : ∃ m, fuel₁ = m + 1 := ⟨fuel₁ - 1, by omega⟩
    rw [List.append_assoc, List.append_assoc, hfields, skipGroups_closes closes, ih (by omega)]

/-- Only the rest of the open groups is passed over. -/
theorem exists_closeGroups : ∀ {fuel : Nat} {groups : List Nat} {bs t : Bytes},
    skipGroups limit fuel groups bs = .ok t → ∃ v, CloseGroups limit groups v ∧ bs = v ++ t
  | _, [], bs, t, h => by
    rw [skipGroups] at h
    cases h
    exact ⟨[], .nil, rfl⟩
  | 0, group :: outer, bs, t, h => by cases h
  | fuel+1, group :: outer, bs, t, h => by
    rw [skipGroups] at h
    obtain ⟨⟨⟨n, w⟩, rest⟩, hkey, hrest⟩ := exists_of_bind_eq_ok h
    obtain ⟨k, key, rfl⟩ := readKey_eq_ok_iff.1 hkey
    dsimp only at hrest
    split at hrest
    · split at hrest
      · next same =>
        subst same
        obtain ⟨v, others, rfl⟩ := exists_closeGroups hrest
        exact ⟨k ++ v, .cons (.nil _) key others, (List.append_assoc ..).symm⟩
      · cases hrest
    · split at hrest
      · cases hrest
      · next shallow =>
        -- the fields of the new group and those that follow it stand in the group around it
        obtain ⟨v, closing, rfl⟩ := exists_closeGroups hrest
        cases closing with
        | cons fields closes closing =>
          cases closing with
          | cons fields' closes' others =>
            refine ⟨_, .cons (.group (Nat.lt_of_not_le shallow) key fields closes fields') closes'
              others, ?_⟩
            simp only [List.append_assoc]
    · next unclosed unopened =>
      split at hrest
      · cases hrest
      · next shallow =>
        obtain ⟨rest', hskip, hothers⟩ := exists_of_bind_eq_ok hrest
        obtain ⟨v, value, rfl⟩ := (skipValue_eq_ok_iff unopened).1 hskip
        obtain ⟨v', closing, rfl⟩ := exists_closeGroups hothers
        cases closing with
        | cons fields closes others =>
          refine ⟨_, .cons (.value (Nat.lt_of_not_le shallow) key value fields) closes others, ?_⟩
          simp only [List.append_assoc]

/-- The bytes are the value of field `n`, which stands outside all groups. -/
inductive IsWholeValue (limit n : Nat) : WireType → Bytes → Prop where
  | plain {w : WireType} {v : Bytes} (value : IsValue w v) : IsWholeValue limit n w v
  | group {v : Bytes} (groups : CloseGroups limit [n] v) : IsWholeValue limit n .startGroup v

theorem skip_eq_ok_iff {bs t : Bytes} : skip limit n w bs = .ok t ↔
    0 < limit ∧ ∃ v, IsWholeValue limit n w v ∧ bs = v ++ t := by
  unfold skip
  by_cases hlimit : limit = 0
  · simp [hlimit]
  · rw [if_neg hlimit]
    constructor
    · intro h
      refine ⟨Nat.pos_of_ne_zero hlimit, ?_⟩
      split at h
      · obtain ⟨v, closing, rfl⟩ := exists_closeGroups h
        exact ⟨v, .group closing, rfl⟩
      · next plain =>
        obtain ⟨v, value, rfl⟩ := (skipValue_eq_ok_iff plain).1 h
        exact ⟨v, .plain value, rfl⟩
    · rintro ⟨-, v, value, rfl⟩
      cases value with
      | group closing =>
        refine skipGroups_closeGroups closing ?_ t
        rw [List.length_append]
        omega
      | plain value =>
        obtain ⟨unopened, -⟩ := value.plain
        split
        · exact absurd rfl unopened
        · exact (skipValue_eq_ok_iff unopened).2 ⟨v, value, rfl⟩

end

end TwoPhaseCommit.Proto
