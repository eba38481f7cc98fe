import TwoPhaseCommit.Net.SocketAddr.Parser
import TwoPhaseCommit.Proofs.Numeral

/- Socket addresses are read as they were written (`parse?_text`). The groups of an IPv6 address are read
   up to a text that does not go on with any (`EndsGroups`), and no group is taken for the beginning of
   an IPv4 address, since no point follows it. The run of zeros that is left out can be put in again from
   the number of groups that are there. -/
namespace TwoPhaseCommit
open Numeral

theorem expect_self (c : Char) (rest : List Char) : expect c (c :: rest) = some rest := if_pos rfl

theorem expect_of_head?_ne {c : Char} {cs : List Char} (h : cs.head? ≠ some c) : expect c cs = none := by
  cases cs with
  | nil => rfl
  | cons d rest => exact if_neg fun hd => h (congrArg some hd)

theorem readTcpPort_decimalText (n : UInt16) :
    readTcpPort (':' :: decimalText n.toNat) = some (n, []) := by
  have hread : tcpPort.read (decimalText n.toNat ++ []) = some (n.toNat, []) :=
    read_toDigits tcpPort (by decide) (by decide) n.toNat_lt nofun (ends_nil 10)
  rw [List.append_nil] at hread
  simp [readTcpPort, expect_self, hread]

/-! ## IPv4 -/

namespace Ipv4
variable {rest : List Char}

theorem read_octet (n : UInt8) (h : Ends 10 rest) :
    octet.read (decimalText n.toNat ++ rest) = some (n.toNat, rest) := by
  have lt : n.toNat < 256 := n.toNat_lt
  refine read_toDigits octet (by decide) (by decide) lt ?_ h
  intro w hw
  obtain rfl : 3 = w := Option.some.inj hw
  exact ⟨by decide, Nat.lt_trans lt (by decide)⟩

theorem ends_point (rest : List Char) : Ends 10 ('.' :: rest) := ends_cons (by decide) rest

theorem read_render (ip : Ipv4) (h : Ends 10 rest) : read (ip.render ++ rest) = some (ip, rest) := by
  simp [read, render, read_octet, ends_point, expect_self, h]

theorem read_of_ends (h : Ends 10 rest) : read rest = none := by
  rw [read, octet.read_of_ends h]
  rfl

/-- The first number has to be followed by a point. -/
theorem read_of_no_point {cs : List Char} (h : (digits 10 cs).2.head? ≠ some '.') : read cs = none := by
  have hoctet : octet.read cs = none ∨ ∃ n, octet.read cs = some (n, (digits 10 cs).2) := by
    rw [Numeral.read, show octet.base = 10 from rfl]
    dsimp only
    split
    · exact .inr ⟨_, rfl⟩
    · exact .inl rfl
  rw [read]
  rcases hoctet with hn | ⟨n, hn⟩
  · rw [hn]
    rfl
  · simp [hn, expect_of_head?_ne h]

theorem toGroups_ofGroups (g h : UInt16) : (ofGroups g h).toGroups = [g, h] := by
  have hg : g.toNat < 65536 := g.toNat_lt
  have hh : h.toNat < 65536 := h.toNat_lt
  simp only [toGroups, ofGroups, UInt8.toNat_ofNat', List.cons.injEq, ← UInt16.toNat_inj,
    UInt16.toNat_ofNat', and_true]
  omega

end Ipv4

/-! ## IPv6 -/

namespace Ipv6
variable {rest : List Char}

/-- A text that does not go on with groups of an address: it begins with no digit and no point, and if
    it begins with a colon, no digit comes after that. -/
structure EndsGroups (rest : List Char) : Prop where
  digit : Ends 16 rest
  point : rest.head? ≠ some '.'
  colon : ∀ cs, rest = ':' :: cs → Ends 16 cs

theorem endsGroups_cons {c : Char} (digit : digit? 16 c = none) (point : c ≠ '.') (colon : c ≠ ':')
    (rest : List Char) : EndsGroups (c :: rest) where
  digit := ends_cons digit rest
  point h := point (Option.some.inj h)
  colon _ h := absurd (List.cons.inj h).1 colon

theorem endsGroups_colons (rest : List Char) : EndsGroups (':' :: ':' :: rest) where
  digit := ends_cons (by decide) _
  point := by simp
  colon cs h := by
    obtain ⟨-, rfl⟩ := List.cons.inj h
    exact ends_cons (by decide) rest

/-- A decimal digit is a hexadecimal one. -/
theorem ends_ten_of_sixteen (h : Ends 16 rest) : Ends 10 rest := by
  intro c hc
  have h16 := h c hc
  by_cases decimal : 48 ≤ c.toNat ∧ c.toNat ≤ 57
  · rw [digit?, if_pos decimal, if_pos (by omega)] at h16
    cases h16
  · rw [digit?, if_neg decimal]
    refine if_neg ?_
    split
    · omega
    · split <;> omega

/-- A reader that reads nothing from a text without a digit in front reads nothing behind a colon
    either. -/
theorem EndsGroups.behindColon {α : Type} {read : List Char → Option α} (h : EndsGroups rest)
    (reads : ∀ cs, Ends 16 cs → read cs = none) (first : Bool) :
    behindColon first read rest = none := by
  cases first with
  | true => exact reads rest h.digit
  | false =>
    rw [Ipv6.behindColon]
    cases rest with
    | nil => rfl
    | cons c cs =>
      by_cases hc : c = ':'
      · subst hc
        simpa [expect_self] using reads cs (h.colon cs rfl)
      · have missing : expect ':' (c :: cs) = none :=
          expect_of_head?_ne fun hd => hc (Option.some.inj hd)
        simp [missing]

/-- No groups are read where there are none. -/
theorem readGroups_of_ends (h : EndsGroups rest) (room : Nat) (first : Bool) :
    readGroups room first rest = ([], false, rest) := by
  cases room with
  | zero => rfl
  | succ room =>
    have hv4 := h.behindColon (fun _ he => Ipv4.read_of_ends (ends_ten_of_sixteen he)) first
    have hgroup := h.behindColon (fun _ he => Numeral.group.read_of_ends he) first
    rw [readGroups, hv4, ite_self, hgroup]

theorem read_group (g : UInt16) (h : Ends 16 rest) :
    Numeral.group.read (Nat.toDigits 16 g.toNat ++ rest) = some (g.toNat, rest) := by
  have lt : g.toNat < 65536 := g.toNat_lt
  refine read_toDigits Numeral.group (by decide) (by decide) lt ?_ h
  intro w hw
  obtain rfl : 4 = w := Option.some.inj hw
  exact ⟨by decide, lt⟩

theorem head?_digits_ne_point (h : Ends 16 rest) (point : rest.head? ≠ some '.') :
    ∀ {cs : List Char}, '.' ∉ cs → (digits 10 (cs ++ rest)).2.head? ≠ some '.'
  | [], _ => by
    rw [List.nil_append, digits_of_ends (ends_ten_of_sixteen h)]
    exact point
  | c :: cs, hcs => by
    obtain ⟨hc, hcs⟩ := List.ne_and_not_mem_of_not_mem_cons hcs
    rw [List.cons_append, digits]
    split
    · intro hd
      exact hc (Option.some.inj hd).symm
    · exact head?_digits_ne_point h point hcs

theorem point_not_mem_toDigits (n : Nat) : '.' ∉ Nat.toDigits 16 n := by
  intro h
  obtain ⟨ds, hds, -⟩ := exists_digits (by decide : 1 < 16) (by decide) n
  have hnone : none ∈ ds.map some := hds ▸ List.mem_map.2 ⟨'.', h, by decide⟩
  simp at hnone

/-- Reading a group goes on with what follows it, at the beginning and behind a colon. -/
theorem readGroups_group (g : UInt16) (h : Ends 16 rest) (point : rest.head? ≠ some '.') (room : Nat)
    (first : Bool) :
    readGroups (room + 1) first ((if first then [] else [':']) ++ (Nat.toDigits 16 g.toNat ++ rest)) =
      (g :: (readGroups room false rest).1, (readGroups room false rest).2) := by
  have hv4 : Ipv4.read (Nat.toDigits 16 g.toNat ++ rest) = none :=
    Ipv4.read_of_no_point (head?_digits_ne_point h point (point_not_mem_toDigits _))
  have behind : ∀ {α : Type} (read : List Char → Option α), behindColon first read
      ((if first then [] else [':']) ++ (Nat.toDigits 16 g.toNat ++ rest)) =
        read (Nat.toDigits 16 g.toNat ++ rest) := by
    intro α read
    cases first with
    | true => rfl
    | false => rfl
  rw [readGroups, behind, behind, hv4, ite_self, read_group g h]
  simp

/-- The text of groups that come after others. -/
def tailText (gs : List UInt16) : List Char := gs.flatMap fun g => ':' :: Nat.toDigits 16 g.toNat

theorem renderGroups_cons (g : UInt16) : ∀ gs : List UInt16,
    renderGroups (g :: gs) = Nat.toDigits 16 g.toNat ++ tailText gs
  | [] => by simp [renderGroups, tailText, List.intercalate]
  | g' :: gs => by
    have ih := renderGroups_cons g' gs
    rw [renderGroups, List.map_cons] at ih
    rw [renderGroups, List.map_cons, List.map_cons, List.intercalate_cons_cons, ih]
    simp [tailText]

theorem EndsGroups.tailText (h : EndsGroups rest) (gs : List UInt16) :
    Ends 16 (tailText gs ++ rest) ∧ (Ipv6.tailText gs ++ rest).head? ≠ some '.' := by
  cases gs with
  | nil => exact ⟨h.digit, h.point⟩
  | cons g gs => exact ⟨ends_cons (by decide) _, by simp [Ipv6.tailText]⟩

theorem readGroups_tailText (h : EndsGroups rest) : ∀ (gs : List UInt16) {room : Nat},
    gs.length ≤ room → readGroups room false (tailText gs ++ rest) = (gs, false, rest)
  | [], room, _ => readGroups_of_ends h room false
  | g :: gs, room + 1, hroom => by
    obtain ⟨hdigit, hpoint⟩ := h.tailText gs
    have hgroup := readGroups_group g hdigit hpoint room false
    rw [readGroups_tailText h gs (Nat.le_of_succ_le_succ hroom)] at hgroup
    simpa [tailText] using hgroup

/-- As many groups as there is room for are read as they were written. -/
theorem readGroups_renderGroups (h : EndsGroups rest) (gs : List UInt16) {room : Nat}
    (hroom : gs.length ≤ room) :
    readGroups room true (renderGroups gs ++ rest) = (gs, false, rest) := by
  cases gs with
  | nil => exact readGroups_of_ends h room true
  | cons g gs =>
    obtain ⟨room, rfl⟩ := Nat.exists_eq_add_of_le' (Nat.le_trans (Nat.le_add_left 1 gs.length) hroom)
    obtain ⟨hdigit, hpoint⟩ := h.tailText gs
    have hgroup := readGroups_group g hdigit hpoint room true
    rw [readGroups_tailText h gs (Nat.le_of_succ_le_succ hroom)] at hgroup
    rw [renderGroups_cons, List.append_assoc]
    exact hgroup

/-- A run of zeros that is there. -/
theorem eq_append_longestZeros : ∀ gs : List UInt16, ∃ a b, a.length = (longestZeros gs).1 ∧
    gs = a ++ List.replicate (longestZeros gs).2 0 ++ b
  | [] => ⟨[], [], rfl, rfl⟩
  | g :: gs => by
    rw [longestZeros]
    dsimp only
    split
    · refine ⟨[], (g :: gs).dropWhile (· == 0), rfl, ?_⟩
      have zeros : (g :: gs).takeWhile (· == 0) =
          List.replicate ((g :: gs).takeWhile (· == 0)).length 0 :=
        List.eq_replicate_of_mem fun c hc => by simpa using List.all_eq_true.1 List.all_takeWhile c hc
      rw [List.nil_append, ← zeros, List.takeWhile_append_dropWhile]
    · obtain ⟨a, b, ha, hgs⟩ := eq_append_longestZeros gs
      refine ⟨g :: a, b, by rw [List.length_cons, ha], ?_⟩
      rw [List.cons_append, List.cons_append, ← hgs]

theorem ofGroups?_groups (ip : Ipv6) : ofGroups? ip.groups = some ip := dif_pos ip.length_groups

theorem ofGroups?_eq_none {gs : List UInt16} (h : gs.length ≠ 8) : ofGroups? gs = none := dif_neg h

theorem read_of_all {cs : List Char} {ip : Ipv6} {embedded : Bool}
    (h : readGroups 8 true cs = (ip.groups, embedded, rest)) : read cs = some (ip, rest) := by
  rw [read, h]
  simp only [ofGroups?_groups]

/-- What is left out between two colons are zeros. -/
theorem read_of_leftOut {cs cs' : List Char} {ip : Ipv6} {a b : List UInt16} {embedded : Bool}
    (hroom : a.length + b.length < 8)
    (hgroups : ip.groups = a ++ List.replicate (8 - a.length - b.length) 0 ++ b)
    (ha : readGroups 8 true cs = (a, false, ':' :: ':' :: cs'))
    (hb : readGroups (7 - a.length) true cs' = (b, embedded, rest)) : read cs = some (ip, rest) := by
  have few : a.length ≠ 8 := by omega
  rw [List.append_assoc] at hgroups
  rw [read, ha]
  simp [ofGroups?_eq_none few, expect_self, hb, ← hgroups, ofGroups?_groups]

theorem mapped?_eq_some {ip : Ipv6} {v4 : Ipv4} (h : ip.mapped? = some v4) :
    ip.groups = [0, 0, 0, 0, 0, 0xFFFF] ++ v4.toGroups := by
  rw [mapped?] at h
  split at h
  · next hg =>
    obtain rfl := Option.some.inj h
    rw [hg, Ipv4.toGroups_ofGroups]
    rfl
  · cases h

/-- The last two groups may stand as an IPv4 address. -/
theorem readGroups_embedded (v4 : Ipv4) (h : Ends 10 rest) (room : Nat) :
    readGroups (room + 2) false (':' :: (v4.render ++ rest)) = (v4.toGroups, true, rest) := by
  have hv4 : behindColon false Ipv4.read (':' :: (v4.render ++ rest)) = some (v4, rest) :=
    v4.read_render h
  rw [readGroups, if_neg (Nat.succ_ne_zero room), hv4]

theorem read_render (ip : Ipv6) (h : EndsGroups rest) : read (ip.render ++ rest) = some (ip, rest) := by
  rw [render]
  split
  · next v4 hmapped =>
    have hgroups := mapped?_eq_some hmapped
    have hlength : v4.toGroups.length = 2 := rfl
    have hffff : Nat.toDigits 16 (0xFFFF : UInt16).toNat = "ffff".toList := by decide
    have colon : Ends 16 (':' :: (v4.render ++ rest)) := ends_cons (by decide) _
    have htail := readGroups_group 0xFFFF colon (by simp) 6 true
    rw [readGroups_embedded v4 (ends_ten_of_sixteen h.digit), hffff] at htail
    refine read_of_leftOut (a := []) (by rw [List.length_cons, hlength]; decide) ?_
      (readGroups_of_ends (endsGroups_colons _) 8 true) htail
    rw [hgroups, List.length_cons, hlength]
    rfl
  · obtain ⟨a, b, ha, hgroups⟩ := eq_append_longestZeros ip.groups
    generalize longestZeros ip.groups = run at ha hgroups ⊢
    obtain ⟨start, length⟩ := run
    dsimp only at ha hgroups ⊢
    have hlength : a.length + length + b.length = 8 := by
      rw [← ip.length_groups, hgroups]
      simp [Nat.add_assoc]
    split
    · next long =>
      have htake : ip.groups.take start = a := by
        rw [hgroups, List.append_assoc, ← ha, List.take_left]
      have hdrop : ip.groups.drop (start + length) = b := by
        rw [hgroups, List.drop_left' (by simp [ha])]
      have hzeros : 8 - a.length - b.length = length := by omega
      rw [htake, hdrop, List.append_assoc, List.cons_append, List.cons_append]
      exact read_of_leftOut (by omega) (by rw [hzeros]; exact hgroups)
        (readGroups_renderGroups (endsGroups_colons _) a (by omega))
        (readGroups_renderGroups h b (by omega))
    · exact read_of_all (readGroups_renderGroups h ip.groups (Nat.le_of_eq ip.length_groups))

end Ipv6

/-! ## Socket addresses -/

namespace SocketAddr

theorem readV4_render (ip : Ipv4) (n : UInt16) :
    readV4 (ip.render ++ ':' :: decimalText n.toNat) = some (v4 ip n, []) := by
  have colon : Ends 10 (':' :: decimalText n.toNat) := ends_cons (by decide) _
  have hip := ip.read_render colon
  simp [readV4, hip, readTcpPort_decimalText]

theorem readV4_of_ends {cs : List Char} (h : Ends 10 cs) : readV4 cs = none := by
  rw [readV4, Ipv4.read_of_ends h]
  rfl

/-- An address begins with a digit or a bracket. -/
theorem head?_ne_of_parse? {s : String} {a : SocketAddr} (h : parse? s = some a) {c : Char}
    (digit : digit? 10 c = none) (bracket : c ≠ '[') : s.toList.head? ≠ some c := by
  intro hc
  obtain ⟨rest, hs⟩ := List.head?_eq_some_iff.1 hc
  have hv6 : readV6 (c :: rest) = none := by
    rw [readV6, expect_of_head?_ne (by simpa using bracket)]
    rfl
  rw [parse?, hs, readV4_of_ends (ends_cons digit rest), hv6] at h
  cases h

/-- The text of the number of a network, if it is not zero. -/
def scopeText (scope : UInt32) : List Char :=
  if scope = 0 then [] else '%' :: decimalText scope.toNat

theorem readScope_scopeText (scope : UInt32) (rest : List Char) :
    readScope (scopeText scope ++ ']' :: rest) = (scope, ']' :: rest) := by
  rw [scopeText]
  split
  · next zero =>
    rw [zero]
    rfl
  · have hread : Numeral.scope.read (decimalText scope.toNat ++ ']' :: rest) =
        some (scope.toNat, ']' :: rest) :=
      read_toDigits Numeral.scope (by decide) (by decide) scope.toNat_lt nofun
        (ends_cons (by decide) rest)
    rw [List.cons_append, readScope, expect_self]
    simp [hread]

theorem endsGroups_scopeText (scope : UInt32) (rest : List Char) :
    Ipv6.EndsGroups (scopeText scope ++ ']' :: rest) := by
  rw [scopeText]
  split
  · exact Ipv6.endsGroups_cons (by decide) (by decide) (by decide) rest
  · exact Ipv6.endsGroups_cons (by decide) (by decide) (by decide) _

theorem readV6_render (ip : Ipv6) (scope : UInt32) (n : UInt16) :
    readV6 (render (v6 ip scope n)) = some (v6 ip scope n, []) := by
  have hrender : render (v6 ip scope n) =
      '[' :: (ip.render ++ (scopeText scope ++ ']' :: ':' :: decimalText n.toNat)) := by
    simp [render, scopeText]
  have hip := ip.read_render (endsGroups_scopeText scope (':' :: decimalText n.toNat))
  rw [hrender, readV6, expect_self]
  simp [hip, readScope_scopeText, expect_self, readTcpPort_decimalText]

/-- The text of an address stands for it. -/
theorem parse?_text (a : SocketAddr) : parse? a.text = some a := by
  rw [parse?, text, String.toList_ofList]
  cases a with
  | v4 ip n =>
    have hrender : render (v4 ip n) = ip.render ++ ':' :: decimalText n.toNat := rfl
    rw [hrender, readV4_render, Option.some_or]
  | v6 ip scope n =>
    have hv4 : readV4 (render (v6 ip scope n)) = none := readV4_of_ends (ends_cons (by decide) _)
    rw [hv4, Option.none_or, readV6_render]

end SocketAddr
end TwoPhaseCommit
