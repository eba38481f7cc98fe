import TwoPhaseCommit.Proofs.Proto.RoundTrip

/- What was read, and from which bytes. A schema is `Local` if each of its fields is read from bytes
   at the front, whatever follows, as values and messages inside messages are. Then the bytes of a
   message are fields, one after the other, each of which turns the message before it into the next
   (`Schema.Folds`, `Schema.Local.decode_eq_ok_iff`), what every field keeps the whole message keeps
   (`Schema.Folds.keeps`), and the bytes behind a message are read into it
   (`Schema.Local.decode_append`). -/
namespace TwoPhaseCommit.Proto

/-! ## Values -/

theorem readVarint_takesPrefix : TakesPrefix readVarint := by
  intro bs n t h
  obtain ⟨v, hv, rfl⟩ := readVarint_eq_ok_iff.1 h
  exact ⟨v, rfl, hv.readVarint⟩

namespace Scalar

theorem int64_takesPrefix : TakesPrefix int64.read :=
  readVarint_takesPrefix.bind (fun n bs => .ok ((UInt64.ofNat n).toInt64, bs)) fun _ => .pure' _

theorem int32_takesPrefix : TakesPrefix int32.read :=
  readVarint_takesPrefix.bind (fun n bs => .ok ((UInt32.ofNat n).toInt32, bs)) fun _ => .pure' _

theorem bool_takesPrefix : TakesPrefix bool.read :=
  readVarint_takesPrefix.bind (fun n bs => .ok (n != 0, bs)) fun _ => .pure' _

theorem string_takesPrefix : TakesPrefix string.read := by
  intro bs s t h
  obtain ⟨l, hl, rfl⟩ := takeDelimited_eq_ok_iff.1 (read_string_eq_ok_iff.1 h)
  refine ⟨l ++ Utf8.encode s, (List.append_assoc ..).symm, fun t' => ?_⟩
  exact read_string_eq_ok_iff.2 (takeDelimited_eq_ok_iff.2 ⟨l, hl, List.append_assoc ..⟩)

/-- A text that was read has a length of 64 bits. -/
theorem length_of_read_string {bs t : Bytes} {s : String} (h : string.read bs = .ok (s, t)) :
    (Utf8.encode s).length < UInt64.size := by
  obtain ⟨l, hl, -⟩ := takeDelimited_eq_ok_iff.1 (read_string_eq_ok_iff.1 h)
  exact hl.small

end Scalar

/-! ## Messages -/

variable {M N α : Type}

namespace Schema

/-- What a field of the schema reads does not depend on what follows it. -/
def Local (s : Schema M) : Prop := ∀ f ∈ s.fields, ∀ depth m, TakesPrefix (f.read depth m)

/-- The bytes are fields, one after the other. Reading them into the message `m`, each one into what
    the one before it has made of it, gives `m'`. -/
inductive Folds (s : Schema M) (depth : Nat) : (bs : Bytes) → (m m' : M) → Prop where
  | nil (m : M) : Folds s depth [] m m
  | cons {k v rest : Bytes} {number : Nat} {w : WireType} {m m₁ m₂ : M} (key : IsKey k number w)
    (value : ∀ t, s.merge depth m number w (v ++ t) = .ok (m₁, t))
    (others : Folds s depth rest m₁ m₂) : Folds s depth ((k ++ v) ++ rest) m m₂

variable {s : Schema M} {depth limit : Nat}

theorem Folds.merges {bs : Bytes} {m m' : M} (h : s.Folds depth bs m m') :
    s.Merges depth bs m m' := by
  induction h with
  | nil m => exact .nil m
  | cons key value others ih => exact (merges_field key value).append ih

namespace Local

theorem merge (loc : s.Local) (m : M) (number : Nat) (w : WireType) :
    TakesPrefix (s.merge depth m number w) := by
  intro bs m' t h
  rcases merge_eq_ok_iff.1 h with ⟨unlisted, hskip, rfl⟩ | ⟨f, listed, rfl, hread⟩
  · obtain ⟨hdepth, v, value, rfl⟩ := skip_eq_ok_iff.1 hskip
    refine ⟨v, rfl, fun t' => merge_eq_ok_iff.2 (.inl ⟨unlisted, ?_, rfl⟩)⟩
    exact skip_eq_ok_iff.2 ⟨hdepth, v, value, rfl⟩
  · obtain ⟨v, rfl, hv⟩ := loc f (List.mem_of_find?_eq_some listed) depth m _ _ _ hread
    exact ⟨v, rfl, fun t' => merge_eq_ok_iff.2 (.inr ⟨f, listed, rfl, hv t'⟩)⟩

/-- What was read was fields, and it went to the limit. -/
theorem exists_folds (loc : s.Local) : ∀ {fuel : Nat} {m m' : M} {bs t : Bytes},
    bs.length ≤ fuel → s.mergeFields depth limit fuel m bs = .ok (m', t) →
    ∃ v, bs = v ++ t ∧ t.length ≤ limit ∧ s.Folds depth v m m'
  | 0, m, m', bs, t, hfuel, h => by
    rw [mergeFields] at h
    cases h
    exact ⟨[], rfl, by omega, .nil m⟩
  | fuel+1, m, m', bs, t, hfuel, h => by
    rw [mergeFields] at h
    split at h
    · next hend =>
      cases h
      exact ⟨[], rfl, hend, .nil m⟩
    split at h
    · cases h
    next number w rest hkey =>
    obtain ⟨k, key, rfl⟩ := readKey_eq_ok_iff.1 hkey
    obtain ⟨⟨m₁, rest₁⟩, hmerge, hrest⟩ := exists_of_bind_eq_ok h
    obtain ⟨v, rfl, value⟩ := loc.merge m number w _ _ _ hmerge
    -- the key has a byte at least, so that the fuel lasts for what is left
    have hkey := key.length_pos
    simp only [List.length_append] at hfuel
    obtain ⟨v', rfl, hend, others⟩ := exists_folds loc (by omega) hrest
    exact ⟨(k ++ v) ++ v', by simp only [List.append_assoc], hend, .cons key value others⟩

/-- There is enough fuel if there is one for every byte. -/
theorem mergeFields_fuel (loc : s.Local) : ∀ {fuel fuel' : Nat} {m : M} {bs : Bytes},
    bs.length ≤ fuel → bs.length ≤ fuel' →
    s.mergeFields depth limit fuel m bs = s.mergeFields depth limit fuel' m bs
  | 0, fuel', m, bs, hfuel, _ => by
    have hend : bs.length ≤ limit := Nat.le_trans hfuel (Nat.zero_le _)
    rw [mergeFields_end hend, mergeFields_end hend]
  | fuel, 0, m, bs, _, hfuel' => by
    have hend : bs.length ≤ limit := Nat.le_trans hfuel' (Nat.zero_le _)
    rw [mergeFields_end hend, mergeFields_end hend]
  | fuel+1, fuel'+1, m, bs, hfuel, hfuel' => by
    rw [mergeFields, mergeFields]
    split
    · rfl
    split
    · rfl
    next number w rest hkey =>
    obtain ⟨k, key, rfl⟩ := readKey_eq_ok_iff.1 hkey
    cases hmerge : s.merge depth m number w rest with
    | error c => rfl
    | ok p =>
      obtain ⟨m₁, rest₁⟩ := p
      obtain ⟨v, rfl, -⟩ := loc.merge m number w _ _ _ hmerge
      have hkey := key.length_pos
      simp only [List.length_append] at hfuel hfuel'
      exact mergeFields_fuel loc (by omega) (by omega)

/-- The bytes of a message are fields that make it of an empty one. -/
theorem decode_eq_ok_iff (loc : s.Local) {bs : Bytes} {m : M} :
    s.decode bs = .ok m ↔ s.Folds nesting bs s.zero m := by
  constructor
  · intro h
    obtain ⟨⟨m', t⟩, hread, h⟩ := exists_of_bind_eq_ok h
    cases h
    obtain ⟨v, hv, hend, folds⟩ := loc.exists_folds (Nat.le_refl _) hread
    rw [List.length_eq_zero_iff.1 (Nat.le_zero.1 hend), List.append_nil] at hv
    rwa [hv]
  · exact fun h => decode_of_merges h.merges

/-- Behind the bytes of a message, the rest is read into that. -/
theorem decode_append (loc : s.Local) {bs : Bytes} {m : M} (h : s.Merges nesting bs s.zero m)
    (t : Bytes) : s.decode (bs ++ t) = Prod.fst <$> s.mergeFields nesting 0 t.length m t := by
  obtain ⟨fuel, hfuel, e⟩ := h 0 (bs ++ t).length t (Nat.zero_le _) (by
    rw [List.length_append]
    omega)
  have ht : t.length ≤ fuel := by
    rw [List.length_append] at hfuel
    omega
  rw [decode, e, loc.mergeFields_fuel ht (Nat.le_refl _)]
  rfl

end Local
end Schema

/-- What was read into a message inside a message stands behind its length. -/
theorem Field.exists_of_read_message {number : Nat} {name : String} {s : Schema N}
    {get : M → Option N} {set : M → N → M} {depth : Nat} {m m' : M} {bs t : Bytes} (loc : s.Local)
    (h : (Field.message number name s get set).read depth m bs = .ok (m', t)) :
    ∃ depth' l body n, depth = depth' + 1 ∧ IsVarint l body.length ∧
      s.Folds depth' body ((get m).getD s.zero) n ∧ bs = l ++ (body ++ t) ∧ m' = set m n := by
  simp only [Field.message] at h
  split at h
  · cases h
  next hdepth =>
  obtain ⟨depth, rfl⟩ := Nat.exists_eq_succ_of_ne_zero hdepth
  split at h
  · cases h
  next len rest hlen =>
  obtain ⟨l, hl, rfl⟩ := readVarint_eq_ok_iff.1 hlen
  split at h
  · cases h
  next hmore =>
  obtain ⟨⟨n, rest'⟩, hread, hend⟩ := exists_of_bind_eq_ok h
  obtain ⟨body, rfl, -, folds⟩ := loc.exists_folds (Nat.le_refl _) hread
  dsimp only at hend
  split at hend
  · next hrest =>
    cases hend
    -- the fields of the message end where its length says because as much is left as there has to be
    rw [List.length_append] at hrest hmore
    have hbody : body.length = len := by omega
    exact ⟨depth, l, body, n, rfl, hbody ▸ hl, folds, rfl, rfl⟩
  · cases hend

/-- Reading the field takes bytes from the front, and keeps the property `P` of the message. -/
structure Field.Sound (f : Field M) (P : M → Prop) : Prop where
  takesPrefix : ∀ depth m, TakesPrefix (f.read depth m)
  keeps : ∀ {depth m m' bs t}, P m → f.read depth m bs = .ok (m', t) → P m'

namespace Field
variable {number : Nat} {name : String} {P : M → Prop}

theorem scalar_sound [DecidableEq α] {s : Scalar α} {get : M → α} {set : M → α → M}
    (loc : TakesPrefix s.read) (keeps : ∀ m a bs t, P m → s.read bs = .ok (a, t) → P (set m a)) :
    (Field.scalar number name s get set).Sound P where
  takesPrefix depth m bs m' t h := by
    obtain ⟨a, hread, rfl⟩ := read_scalar_eq_ok_iff.1 h
    obtain ⟨v, rfl, hv⟩ := loc _ _ _ hread
    exact ⟨v, rfl, fun t' => read_scalar_eq_ok_iff.2 ⟨a, hv t', rfl⟩⟩
  keeps hm h := by
    obtain ⟨a, hread, rfl⟩ := read_scalar_eq_ok_iff.1 h
    exact keeps _ a _ _ hm hread

theorem message_sound {s : Schema N} {get : M → Option N} {set : M → N → M} (loc : s.Local)
    (keeps : ∀ m n, P m → P (set m n)) : (Field.message number name s get set).Sound P where
  takesPrefix depth m bs m' t h := by
    obtain ⟨depth, l, body, n, rfl, len, folds, rfl, rfl⟩ := exists_of_read_message loc h
    refine ⟨l ++ body, (List.append_assoc ..).symm, fun t' => ?_⟩
    rw [List.append_assoc]
    exact read_message len folds.merges t'
  keeps hm h := by
    obtain ⟨_, _, _, n, -, -, -, -, rfl⟩ := exists_of_read_message loc h
    exact keeps _ n hm

end Field

/-- What all fields keep, all of them one after the other keep. -/
theorem Schema.Folds.keeps {s : Schema M} {depth : Nat} {P : M → Prop}
    (fields : ∀ f ∈ s.fields, f.Sound P) {bs : Bytes} {m m' : M} (h : s.Folds depth bs m m') :
    P m → P m' := by
  induction h with
  | nil m => exact id
  | cons key value others ih =>
    intro hm
    refine ih ?_
    rcases Schema.merge_eq_ok_iff.1 (value []) with ⟨-, -, rfl⟩ | ⟨f, listed, -, hread⟩
    · exact hm
    · exact (fields f (List.mem_of_find?_eq_some listed)).keeps hm hread

end TwoPhaseCommit.Proto
