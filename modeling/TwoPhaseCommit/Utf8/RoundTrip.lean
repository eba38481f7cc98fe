import TwoPhaseCommit.Utf8

/- Bytes and text determine each other: `decode_encode` reads back what was written, and
   `decode_eq_ok_iff` says that nothing else is text, so a text has one byte form. What is left of a
   text after a text is one (`exists_of_encode_eq_append`). -/
namespace TwoPhaseCommit.Utf8

/-! ## Written characters are read back -/

theorem lead_two {x : Nat} (h : 2 ≤ x) (h' : x < 32) : lead (x + 192) = some ⟨1, 0x80, 0xBF, x, 1⟩ := by
  rw [lead, if_pos (by omega), Nat.add_sub_cancel]

/-- The first byte of a three-byte character admits the second byte `y + 128` of every character
    that needs three bytes and is no surrogate. -/
theorem lead_three {x y : Nat} (hx : x < 16) (hy : y < 64) (h : 32 ≤ x * 64 + y)
    (hs : x * 64 + y < 864 ∨ 896 ≤ x * 64 + y) :
    ∃ low high, lead (x + 224) = some ⟨2, low, high, x, 1⟩ ∧ low ≤ y + 128 ∧ y + 128 ≤ high := by
  unfold lead
  rw [if_neg (by omega)]
  by_cases h0 : x = 0
  · exact ⟨0xA0, 0xBF, by simp [h0], by omega, by omega⟩
  by_cases hd : x = 13
  · exact ⟨0x80, 0x9F, by simp [hd], by omega, by omega⟩
  · exact ⟨0x80, 0xBF, by rw [if_neg (by omega), if_neg (by omega), if_pos (by omega),
      Nat.add_sub_cancel], by omega, by omega⟩

/-- The first byte of a four-byte character admits the second byte `y + 128` of every character
    that needs four bytes. -/
theorem lead_four {x y : Nat} (hy : y < 64) (h : 16 ≤ x * 64 + y) (h' : x * 64 + y < 272) :
    ∃ low high, lead (x + 240) = some ⟨3, low, high, x, 1⟩ ∧ low ≤ y + 128 ∧ y + 128 ≤ high := by
  unfold lead
  rw [if_neg (by omega), if_neg (by omega), if_neg (by omega), if_neg (by omega)]
  by_cases h0 : x = 0
  · exact ⟨0x90, 0xBF, by simp [h0], by omega, by omega⟩
  by_cases hd : x = 4
  · exact ⟨0x80, 0x8F, by simp [hd], by omega, by omega⟩
  · exact ⟨0x80, 0xBF, by rw [if_neg (by omega), if_pos (by omega), Nat.add_sub_cancel],
      by omega, by omega⟩

theorem scan_encodeChar (start : Nat) (c : Char) (t : Bytes) :
    scan start none (String.utf8EncodeChar c ++ t) =
      (c :: ·) <$> scan (start + (String.utf8EncodeChar c).length) none t := by
  have hc : Char.ofNat c.val.toNat = c := Char.ofNat_toNat c
  have hv : c.val.toNat < 0xD800 ∨ 0xDFFF < c.val.toNat ∧ c.val.toNat < 0x110000 := c.valid
  unfold String.utf8EncodeChar
  generalize c.val.toNat = v at hc hv
  subst hc
  dsimp only
  have d : (v % 64 + 128) % 2 ^ 8 = v % 64 + 128 := by omega
  have d2 : (v / 64 % 64 + 128) % 2 ^ 8 = v / 64 % 64 + 128 := by omega
  have d3 : (v / 4096 % 64 + 128) % 2 ^ 8 = v / 4096 % 64 + 128 := by omega
  by_cases h1 : v ≤ 127
  · simp only [h1, if_true, List.cons_append, List.nil_append, scan, UInt8.toNat_ofNat',
      List.length_cons, List.length_nil]
    have e : v % 2 ^ 8 = v := by omega
    rw [if_pos (by omega), e]
  by_cases h2 : v ≤ 2047
  · simp only [h1, h2, if_true, if_false, List.cons_append, List.nil_append, scan,
      UInt8.toNat_ofNat', List.length_cons, List.length_nil]
    have e : (v / 64 % 32 + 192) % 2 ^ 8 = v / 64 + 192 := by omega
    rw [e, if_neg (by omega), lead_two (by omega) (by omega)]
    simp only [d]
    rw [if_pos (by omega), if_pos (by omega), show v / 64 * 64 + (v % 64 + 128 - 128) = v by omega]
  by_cases h3 : v ≤ 65535
  · simp only [h1, h2, h3, if_true, if_false, List.cons_append, List.nil_append, scan,
      UInt8.toNat_ofNat', List.length_cons, List.length_nil]
    have e : (v / 4096 % 16 + 224) % 2 ^ 8 = v / 4096 + 224 := by omega
    obtain ⟨low, high, hl, hlo, hhi⟩ := @lead_three (v / 4096) (v / 64 % 64)
      (by omega) (by omega) (by omega) (by omega)
    rw [e, if_neg (by omega), hl]
    simp only [d, d2, hlo, hhi, and_self, if_true]
    rw [if_neg (by omega), if_pos (by omega), if_pos (by omega),
      show (v / 4096 * 64 + (v / 64 % 64 + 128 - 128)) * 64 + (v % 64 + 128 - 128) = v by omega]
  · simp only [h1, h2, h3, if_false, List.cons_append, List.nil_append, scan,
      UInt8.toNat_ofNat', List.length_cons, List.length_nil]
    have e : (v / 262144 % 8 + 240) % 2 ^ 8 = v / 262144 + 240 := by omega
    obtain ⟨low, high, hl, hlo, hhi⟩ := @lead_four (v / 262144) (v / 4096 % 64)
      (by omega) (by omega) (by omega)
    rw [e, if_neg (by omega), hl]
    simp only [d, d2, d3, hlo, hhi, and_self, if_true]
    rw [if_neg (by omega), if_pos (by omega), if_neg (by omega), if_pos (by omega),
      if_pos (by omega), show ((v / 262144 * 64 + (v / 4096 % 64 + 128 - 128)) * 64 +
        (v / 64 % 64 + 128 - 128)) * 64 + (v % 64 + 128 - 128) = v by omega]

theorem scan_encode (start : Nat) : ∀ (l : List Char),
    scan start none (l.flatMap String.utf8EncodeChar) = .ok l
  | [] => rfl
  | c :: l => by rw [List.flatMap_cons, scan_encodeChar, scan_encode]; rfl

/-- A text at the front is read, and what follows it is read from where it ends. -/
theorem scan_encode_append (t : Bytes) : ∀ (start : Nat) (l : List Char),
    scan start none (l.flatMap String.utf8EncodeChar ++ t) =
      (l ++ ·) <$> scan (start + (l.flatMap String.utf8EncodeChar).length) none t
  | start, [] => by cases h : scan start none t <;> simp [h, Functor.map, Except.map]
  | start, c :: l => by
    rw [List.flatMap_cons, List.append_assoc, scan_encodeChar, scan_encode_append, List.length_append,
      Nat.add_assoc]
    cases scan _ none t <;> rfl

theorem decode_encode (s : String) : decode (encode s) = .ok s := by
  rw [decode, encode, scan_encode]
  simp [Functor.map, Except.map]

/-! ## Bytes that are read were written -/

theorem toNat_ofNat {v : Nat} (h : v < 0xD800 ∨ 0xDFFF < v ∧ v < 0x110000) :
    (Char.ofNat v).val.toNat = v := by
  have e : Char.ofNat v = Char.ofNatAux v h := dif_pos h
  rw [e]
  rfl

theorem of_scan_one {start low high value seen : Nat} {bs : Bytes} {cs : List Char}
    (h : scan start (some ⟨1, low, high, value, seen⟩) bs = .ok cs) :
    ∃ b r cs', bs = b :: r ∧ (low ≤ b.toNat ∧ b.toNat ≤ high) ∧
      cs = Char.ofNat (value * 64 + (b.toNat - 0x80)) :: cs' ∧
      scan (start + seen + 1) none r = .ok cs' := by
  cases bs with
  | nil => simp [scan] at h
  | cons b r =>
    simp only [scan, Nat.le_refl, if_true] at h
    split at h
    · next hb =>
      match hr : scan (start + seen + 1) none r with
      | .error e => rw [hr] at h; simp [Functor.map, Except.map] at h
      | .ok cs' =>
        rw [hr] at h
        simp only [Functor.map, Except.map, Except.ok.injEq] at h
        exact ⟨b, r, cs', rfl, hb, h.symm, hr⟩
    · simp at h

theorem of_scan_more {start owed low high value seen : Nat} {bs : Bytes} {cs : List Char}
    (h : scan start (some ⟨owed + 2, low, high, value, seen⟩) bs = .ok cs) :
    ∃ b r, bs = b :: r ∧ (low ≤ b.toNat ∧ b.toNat ≤ high) ∧
      scan start (some ⟨owed + 1, 0x80, 0xBF, value * 64 + (b.toNat - 0x80), seen + 1⟩) r = .ok cs := by
  cases bs with
  | nil => simp [scan] at h
  | cons b r =>
    simp only [scan, show ¬ owed + 2 ≤ 1 by omega, if_false] at h
    split at h
    · next hb => exact ⟨b, r, rfl, hb, h⟩
    · simp at h

theorem encodeChar_two {a b : UInt8} (ha : 0xC2 ≤ a.toNat ∧ a.toNat ≤ 0xDF)
    (hb : 0x80 ≤ b.toNat ∧ b.toNat ≤ 0xBF) :
    String.utf8EncodeChar (Char.ofNat ((a.toNat - 0xC0) * 64 + (b.toNat - 0x80))) = [a, b] := by
  generalize hv : (a.toNat - 0xC0) * 64 + (b.toNat - 0x80) = v
  unfold String.utf8EncodeChar
  rw [toNat_ofNat (v := v) (by omega)]
  dsimp only
  rw [if_neg (by omega), if_pos (by omega), show v / 64 % 32 + 192 = a.toNat by omega,
    show v % 64 + 128 = b.toNat by omega]
  simp only [UInt8.ofNat_toNat]

theorem encodeChar_three {x : Nat} {a b c : UInt8} (ha : a.toNat = x + 0xE0) (hx : x < 16)
    (hb : 0x80 ≤ b.toNat ∧ b.toNat ≤ 0xBF) (hc : 0x80 ≤ c.toNat ∧ c.toNat ≤ 0xBF)
    (h0 : x = 0 → 0xA0 ≤ b.toNat) (hd : x = 13 → b.toNat ≤ 0x9F) :
    String.utf8EncodeChar (Char.ofNat ((x * 64 + (b.toNat - 0x80)) * 64 + (c.toNat - 0x80))) =
      [a, b, c] := by
  generalize hv : (x * 64 + (b.toNat - 0x80)) * 64 + (c.toNat - 0x80) = v
  unfold String.utf8EncodeChar
  rw [toNat_ofNat (v := v) (by omega)]
  dsimp only
  rw [if_neg (by omega), if_neg (by omega), if_pos (by omega),
    show v / 4096 % 16 + 224 = a.toNat by omega, show v / 64 % 64 + 128 = b.toNat by omega,
    show v % 64 + 128 = c.toNat by omega]
  simp only [UInt8.ofNat_toNat]

theorem encodeChar_four {x : Nat} {a b c d : UInt8} (ha : a.toNat = x + 0xF0) (hx : x < 5)
    (hb : 0x80 ≤ b.toNat ∧ b.toNat ≤ 0xBF) (hc : 0x80 ≤ c.toNat ∧ c.toNat ≤ 0xBF)
    (hd : 0x80 ≤ d.toNat ∧ d.toNat ≤ 0xBF)
    (h0 : x = 0 → 0x90 ≤ b.toNat) (h4 : x = 4 → b.toNat ≤ 0x8F) :
    String.utf8EncodeChar (Char.ofNat (((x * 64 + (b.toNat - 0x80)) * 64 + (c.toNat - 0x80)) * 64 +
      (d.toNat - 0x80))) = [a, b, c, d] := by
  generalize hv : ((x * 64 + (b.toNat - 0x80)) * 64 + (c.toNat - 0x80)) * 64 + (d.toNat - 0x80) = v
  unfold String.utf8EncodeChar
  rw [toNat_ofNat (v := v) (by omega)]
  dsimp only
  rw [if_neg (by omega), if_neg (by omega), if_neg (by omega),
    show v / 262144 % 8 + 240 = a.toNat by omega, show v / 4096 % 64 + 128 = b.toNat by omega,
    show v / 64 % 64 + 128 = c.toNat by omega, show v % 64 + 128 = d.toNat by omega]
  simp only [UInt8.ofNat_toNat]

/-- What `lead` announces: one more byte, or two or three with bounds on the first of them. -/
theorem lead_cases {a : Nat} {p : Pending} (h : lead a = some p) :
    (0xC2 ≤ a ∧ a ≤ 0xDF ∧ p = ⟨1, 0x80, 0xBF, a - 0xC0, 1⟩) ∨
    (∃ x low high, a = x + 0xE0 ∧ x < 16 ∧ p = ⟨2, low, high, x, 1⟩ ∧ 0x80 ≤ low ∧ high ≤ 0xBF ∧
      (x = 0 → 0xA0 ≤ low) ∧ (x = 13 → high ≤ 0x9F)) ∨
    (∃ x low high, a = x + 0xF0 ∧ x < 5 ∧ p = ⟨3, low, high, x, 1⟩ ∧ 0x80 ≤ low ∧ high ≤ 0xBF ∧
      (x = 0 → 0x90 ≤ low) ∧ (x = 4 → high ≤ 0x8F)) := by
  unfold lead at h
  split at h
  · next hb => exact .inl ⟨hb.1, hb.2, (Option.some.inj h).symm⟩
  split at h
  · next hb => exact .inr (.inl ⟨0, _, _, by omega, by omega, (Option.some.inj h).symm, by omega⟩)
  split at h
  · next hb => exact .inr (.inl ⟨13, _, _, by omega, by omega, (Option.some.inj h).symm, by omega⟩)
  split at h
  · next hb =>
    exact .inr (.inl ⟨a - 0xE0, _, _, by omega, by omega, (Option.some.inj h).symm, by omega⟩)
  split at h
  · next hb => exact .inr (.inr ⟨0, _, _, by omega, by omega, (Option.some.inj h).symm, by omega⟩)
  split at h
  · next hb =>
    exact .inr (.inr ⟨a - 0xF0, _, _, by omega, by omega, (Option.some.inj h).symm, by omega⟩)
  split at h
  · next hb => exact .inr (.inr ⟨4, _, _, by omega, by omega, (Option.some.inj h).symm, by omega⟩)
  · simp at h

theorem eq_encode_of_scan {start : Nat} {bs : Bytes} {cs : List Char}
    (h : scan start none bs = .ok cs) : bs = cs.flatMap String.utf8EncodeChar := by
  match bs with
  | [] =>
    simp only [scan, Except.ok.injEq] at h
    subst h
    rfl
  | a :: bs =>
    simp only [scan] at h
    split at h
    · next ha =>
      match hr : scan (start + 1) none bs with
      | .error e => rw [hr] at h; simp [Functor.map, Except.map] at h
      | .ok cs' =>
        rw [hr] at h
        simp only [Functor.map, Except.map, Except.ok.injEq] at h
        subst h
        have hv := toNat_ofNat (v := a.toNat) (by omega)
        rw [List.flatMap_cons, ← eq_encode_of_scan hr]
        unfold String.utf8EncodeChar
        rw [hv]
        dsimp only
        rw [if_pos (by omega), UInt8.ofNat_toNat]
        rfl
    · split at h
      · simp at h
      · next p hp =>
        rcases lead_cases hp with ⟨ha, ha', rfl⟩ | ⟨x, low, high, ha, hx, rfl, hlo, hhi, h0, hd⟩ |
          ⟨x, low, high, ha, hx, rfl, hlo, hhi, h0, h4⟩
        · obtain ⟨b, r, cs', rfl, hb, rfl, hr⟩ := of_scan_one h
          rw [List.flatMap_cons, ← eq_encode_of_scan hr, encodeChar_two ⟨ha, ha'⟩ hb]
          rfl
        · obtain ⟨b, _, rfl, hb, h⟩ := of_scan_more h
          obtain ⟨c, r, cs', rfl, hc, rfl, hr⟩ := of_scan_one h
          rw [List.flatMap_cons, ← eq_encode_of_scan hr, encodeChar_three ha hx (by omega) hc
            (by omega) (by omega)]
          rfl
        · obtain ⟨b, _, rfl, hb, h⟩ := of_scan_more h
          obtain ⟨c, _, rfl, hc, h⟩ := of_scan_more h
          obtain ⟨d, r, cs', rfl, hd, rfl, hr⟩ := of_scan_one h
          rw [List.flatMap_cons, ← eq_encode_of_scan hr, encodeChar_four ha hx (by omega) hc hd
            (by omega) (by omega)]
          rfl
termination_by bs.length

theorem decode_eq_ok_iff {bs : Bytes} {s : String} : decode bs = .ok s ↔ bs = encode s := by
  refine ⟨fun h => ?_, fun h => h ▸ decode_encode s⟩
  rw [decode] at h
  match hr : scan 0 none bs with
  | .error e => rw [hr] at h; simp [Functor.map, Except.map] at h
  | .ok cs =>
    rw [hr] at h
    simp only [Functor.map, Except.map, Except.ok.injEq] at h
    rw [encode, ← h, String.toList_ofList, eq_encode_of_scan hr]

/-- What follows a text within a text is what the longer one has more. -/
theorem exists_of_encode_eq_append {s t : String} {bs : Bytes} (h : encode s = encode t ++ bs) :
    ∃ u, s = t ++ u ∧ bs = encode u := by
  have hs : scan 0 none (encode t ++ bs) = .ok s.toList := by
    rw [← h]
    exact scan_encode 0 s.toList
  rw [encode, scan_encode_append] at hs
  cases hbs : scan _ none bs with
  | error flaw =>
    rw [hbs] at hs
    cases hs
  | ok cs =>
    rw [hbs] at hs
    refine ⟨String.ofList cs, ?_, ?_⟩
    · rw [← String.toList_inj, String.toList_append, String.toList_ofList]
      exact (Except.ok.inj hs).symm
    · rw [encode, String.toList_ofList]
      exact eq_encode_of_scan hbs

end TwoPhaseCommit.Utf8
