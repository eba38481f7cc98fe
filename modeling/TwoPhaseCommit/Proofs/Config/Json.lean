import TwoPhaseCommit.Config.Json
import TwoPhaseCommit.Proofs.CommandLine.Path
import TwoPhaseCommit.Proofs.Net.SocketAddr
import TwoPhaseCommit.Proofs.Retry.Delay

/- Which JSON values are configurations. `Config.Spells` lists the ways to write one: structures as
   objects or arrays, members in any order and among others, a request timeout that is missing, spans
   with nanoseconds for more than a second, addresses in all their forms. Reading takes exactly these
   (`Config.spells_iff`). The form that is written is one of them (`Config.spells_of_toJson`), so whatever
   was read is read again as it was from the form that it is written in. A command line can ask for more:
   a path that is not UTF-8 is written in no form and read from none (`Config.rereads`). -/
namespace TwoPhaseCommit

namespace Json

/-- The values of the fields of a structure: those under their names in an object, if there are any, or
    the items of an array of as many. -/
inductive Fields (names : List String) : Json → List (Option Json) → Prop where
  | object (keys : List String) (distinct : keys.Nodup) (value : (key : String) → key ∈ keys → Json) :
    Fields names (.object keys distinct value)
      (names.map fun name => (object keys distinct value).member? name)
  | array {items : List Json} (all : items.length = names.length) :
    Fields names (.array items) (items.map some)

theorem fields_iff {names : List String} {j : Json} {vs : List (Option Json)} :
    Fields names j vs ↔ j.fields? names = some vs := by
  constructor
  · intro h
    cases h with
    | object => rfl
    | array all => rw [fields?, if_pos all]
  · intro h
    cases j with
    | object keys distinct value =>
      obtain rfl := Option.some.inj h
      exact .object keys distinct value
    | array items =>
      rw [fields?] at h
      split at h
      · next all =>
        obtain rfl := Option.some.inj h
        exact .array all
      · cases h
    | null | bool | integer | fraction | string => cases h

theorem choice?_eq_some_none_iff {name : String} {j : Json} :
    j.choice? = some (name, none) ↔ j = .string name := by
  fun_cases choice? j <;> simp_all

theorem choice?_eq_some_some_iff {name : String} {j v : Json} :
    j.choice? = some (name, some v) ↔ j = .ofMembers [(name, v)] := by
  constructor
  · fun_cases choice? j with
    | case1 => exact nofun
    | case2 name' distinct value =>
      intro h
      obtain ⟨rfl, hv⟩ := Prod.mk.inj (Option.some.inj h)
      obtain rfl := Option.some.inj hv
      refine congrArg (object [name'] distinct) (funext fun key => funext fun listed => ?_)
      obtain rfl := List.mem_singleton.1 listed
      rw [valueOf, dif_pos rfl]
    | case3 => exact nofun
  · rintro rfl
    show some (name, some (valueOf name [(name, v)] (List.mem_singleton.2 rfl))) = _
    rw [valueOf, dif_pos rfl]

theorem natBelow?_eq_some_iff {bound n : Nat} {j : Json} :
    j.natBelow? bound = some n ↔ n < bound ∧ j = .integer n := by
  cases j with
  | integer i =>
    rw [natBelow?]
    split
    · next h =>
      rw [Option.some_inj, Json.integer.injEq]
      omega
    · next h =>
      simp only [reduceCtorEq, Json.integer.injEq, false_iff, not_and]
      omega
  | null | bool | fraction | string | array | object => simp [natBelow?]

theorem string?_eq_some_iff {s : String} {j : Json} : j.string? = some s ↔ j = .string s := by
  cases j with
  | string t => rw [string?, Option.some_inj, Json.string.injEq]
  | null | bool | integer | fraction | array | object => simp [string?]

end Json

namespace Duration

theorem nanoseconds_injective {a b : Duration} (h : a.nanoseconds = b.nanoseconds) : a = b := by
  have ha : a.nanos.toNat < nanosPerSecond := a.nanos_lt
  have hb : b.nanos.toNat < nanosPerSecond := b.nanos_lt
  simp only [nanoseconds, nanosPerSecond] at h ha hb
  have hseconds : a.seconds = b.seconds := UInt64.toNat_inj.1 (by omega)
  have hnanos : a.nanos = b.nanos := UInt32.toNat_inj.1 (by omega)
  cases a
  cases b
  simp_all

/-- Seconds are carried out of the nanoseconds unless there are too many of them. -/
theorem ofParts?_eq_some_iff {secs nanos : Nat} {d : Duration} :
    ofParts? secs nanos = some d ↔ d.nanoseconds = secs * nanosPerSecond + nanos := by
  have hclamp : secs + nanos / nanosPerSecond < UInt64.size →
      (clamp (secs + nanos / nanosPerSecond) (nanos % nanosPerSecond)
        (Nat.mod_lt _ (by decide))).nanoseconds = secs * nanosPerSecond + nanos := by
    intro small
    rw [nanoseconds_clamp, nanoseconds_greatest]
    simp only [nanosPerSecond, UInt64.size] at small ⊢
    omega
  rw [ofParts?]
  split
  · next small =>
    rw [Option.some_inj, ← hclamp small]
    exact ⟨fun h => h ▸ rfl, fun h => (nanoseconds_injective h).symm⟩
  · next large =>
    have hseconds : d.seconds.toNat < UInt64.size := d.seconds.toNat_lt
    have hnanos : d.nanos.toNat < nanosPerSecond := d.nanos_lt
    simp only [nanoseconds, reduceCtorEq, false_iff]
    simp only [nanosPerSecond, UInt64.size] at large hseconds hnanos ⊢
    omega

/-- Reads a span from the values of its fields. -/
def ofFields? : List (Option Json) → Option Duration
  | [some secs, some nanos] => do
    ofParts? (← secs.natBelow? UInt64.size) (← nanos.natBelow? UInt32.size)
  | _ => none

theorem ofFields?_eq_some_iff {vs : List (Option Json)} {d : Duration} : ofFields? vs = some d ↔
    ∃ secs nanos : Nat, vs = [some (.integer secs), some (.integer nanos)] ∧
      secs < UInt64.size ∧ nanos < UInt32.size ∧ d.nanoseconds = secs * nanosPerSecond + nanos := by
  constructor
  · intro h
    revert h
    fun_cases ofFields? vs with
    | case1 j k =>
      intro h
      obtain ⟨secs, hsecs, h⟩ := Option.bind_eq_some_iff.1 h
      obtain ⟨nanos, hnanos, hspan⟩ := Option.bind_eq_some_iff.1 h
      obtain ⟨hs, hj⟩ := Json.natBelow?_eq_some_iff.1 hsecs
      obtain ⟨hn, hk⟩ := Json.natBelow?_eq_some_iff.1 hnanos
      exact ⟨secs, nanos, by rw [hj, hk], hs, hn, ofParts?_eq_some_iff.1 hspan⟩
    | case2 => exact nofun
  · rintro ⟨secs, nanos, rfl, hs, hn, h⟩
    have hsecs := Json.natBelow?_eq_some_iff.2 ⟨hs, rfl⟩
    have hnanos := Json.natBelow?_eq_some_iff.2 ⟨hn, rfl⟩
    simp [ofFields?, hsecs, hnanos, ofParts?_eq_some_iff, h]

/-- An object holds no members but those of a span. -/
def Only (j : Json) : Prop := ∀ key ∈ j.keys, key = "secs" ∨ key = "nanos"

theorem only_iff {j : Json} :
    Only j ↔ ¬ (j.keys.any fun key => key != "secs" && key != "nanos") = true := by
  simp only [Only, List.any_eq_true, not_exists, not_and, Bool.and_eq_true, bne_iff_ne, ne_eq]
  refine forall_congr' fun key => imp_congr_right fun _ => ?_
  rw [Decidable.or_iff_not_imp_left, Decidable.not_not]

theorem ofJson?_eq_some_iff {j : Json} {d : Duration} : ofJson? j = some d ↔
    Only j ∧ ∃ vs, j.fields? ["secs", "nanos"] = some vs ∧ ofFields? vs = some d := by
  rw [← Option.bind_eq_some_iff, only_iff]
  by_cases others : (j.keys.any fun key => key != "secs" && key != "nanos") = true
  · rw [ofJson?, if_pos others]
    simp [others]
  · rw [ofJson?, if_neg others]
    exact ⟨fun h => ⟨others, h⟩, fun h => h.2⟩

/-- A span is given by seconds and nanoseconds, which may be more than a second, and by nothing else. -/
def Spells (j : Json) (d : Duration) : Prop :=
  Only j ∧ ∃ secs nanos : Nat,
    j.Fields ["secs", "nanos"] [some (.integer secs), some (.integer nanos)] ∧
    secs < UInt64.size ∧ nanos < UInt32.size ∧ d.nanoseconds = secs * nanosPerSecond + nanos

theorem spells_iff {j : Json} {d : Duration} : Spells j d ↔ ofJson? j = some d := by
  rw [ofJson?_eq_some_iff, Spells]
  refine and_congr_right fun _ => ?_
  constructor
  · rintro ⟨secs, nanos, fields, h⟩
    exact ⟨_, Json.fields_iff.1 fields, ofFields?_eq_some_iff.2 ⟨secs, nanos, rfl, h⟩⟩
  · rintro ⟨vs, fields, h⟩
    obtain ⟨secs, nanos, hvs, hspan⟩ := ofFields?_eq_some_iff.1 h
    exact ⟨secs, nanos, Json.fields_iff.2 (hvs ▸ fields), hspan⟩

theorem spells_toJson (d : Duration) : Spells d.toJson d := by
  have hnanos : d.nanos.toNat < nanosPerSecond := d.nanos_lt
  refine ⟨?only, d.seconds.toNat, d.nanos.toNat, .object _ _ _, d.seconds.toNat_lt, d.nanos.toNat_lt, rfl⟩
  case only =>
    intro key hkey
    simpa [toJson, Json.ofMembers, Json.keys] using hkey

end Duration

/-! ## Configurations -/

namespace Backend

/-- The path, if there is one, is UTF-8. -/
def IsText : Backend → Prop
  | .memory => True
  | .rocks path => path.IsText

/-- A name, or an object with one member, in which others than the path do not matter. -/
inductive Spells : Json → Backend → Prop where
  | memory : Spells (.string "Memory") .memory
  | memoryObject : Spells (.ofMembers [("Memory", .null)]) .memory
  | rocks {fields : Json} {path : String} (given : fields.member? "path" = some (.string path)) :
    Spells (.ofMembers [("Rocks", fields)]) (.rocks path)

theorem spells_iff {j : Json} {b : Backend} : Spells j b ↔ ofJson? j = some b := by
  constructor
  · intro h
    cases h with
    | memory => rfl
    | memoryObject =>
      rw [ofJson?, Json.choice?_eq_some_some_iff.2 rfl]
      rfl
    | rocks given =>
      rw [ofJson?, Json.choice?_eq_some_some_iff.2 rfl]
      simp [given, Json.string?]
  · intro h
    obtain ⟨choice, hchoice, h⟩ := Option.bind_eq_some_iff.1 h
    split at h
    · obtain rfl := Option.some.inj h
      rw [Json.choice?_eq_some_none_iff.1 hchoice]
      exact .memory
    · obtain rfl := Option.some.inj h
      rw [Json.choice?_eq_some_some_iff.1 hchoice]
      exact .memoryObject
    · obtain ⟨v, given, h⟩ := Option.bind_eq_some_iff.1 h
      obtain ⟨path, hv, hb⟩ := Option.bind_eq_some_iff.1 h
      obtain rfl := Option.some.inj hb
      rw [Json.string?_eq_some_iff.1 hv] at given
      rw [Json.choice?_eq_some_some_iff.1 hchoice]
      exact .rocks given
    · cases h

/-- What can be read has a path that is UTF-8. -/
theorem Spells.isText {j : Json} {b : Backend} (h : Spells j b) : b.IsText := by
  cases h with
  | memory | memoryObject => trivial
  | rocks => exact OsString.isText_ofText _

theorem toJson_eq_none_iff {b : Backend} : b.toJson = none ↔ ¬ b.IsText := by
  cases b with
  | memory => simp [toJson, IsText]
  | rocks path => rw [toJson, Option.map_eq_none_iff, OsString.text?_eq_none_iff, IsText]

theorem spells_of_toJson {b : Backend} {j : Json} (h : b.toJson = some j) : Spells j b := by
  cases b with
  | memory =>
    obtain rfl := Option.some.inj h
    exact .memory
  | rocks path =>
    obtain ⟨text, hpath, rfl⟩ := Option.map_eq_some_iff.1 h
    obtain rfl := OsString.text?_eq_some_iff.1 hpath
    exact .rocks rfl

end Backend

namespace RetryPolicy

/-- Three fields, and any other members. -/
def Spells (j : Json) (p : RetryPolicy) : Prop :=
  ∃ backoff maxBackoff, j.Fields ["max_attempts", "backoff", "max_backoff"]
      [some (.integer p.maxAttempts.toNat), some backoff, some maxBackoff] ∧
    Duration.Spells backoff p.backoff ∧ Duration.Spells maxBackoff p.maxBackoff

theorem spells_iff {j : Json} {p : RetryPolicy} : Spells j p ↔ ofJson? j = some p := by
  constructor
  · rintro ⟨backoff, maxBackoff, fields, hbackoff, hmax⟩
    have hlt : p.maxAttempts.toNat < UInt32.size := p.maxAttempts.toNat_lt
    have hattempts := Json.natBelow?_eq_some_iff.2 ⟨hlt, rfl⟩
    rw [ofJson?, Json.fields_iff.1 fields]
    refine Option.bind_eq_some_iff.2 ⟨_, rfl, ?_⟩
    refine Option.bind_eq_some_iff.2 ⟨_, hattempts, ?_⟩
    refine Option.bind_eq_some_iff.2 ⟨_, Duration.spells_iff.1 hbackoff, ?_⟩
    refine Option.bind_eq_some_iff.2 ⟨_, Duration.spells_iff.1 hmax, ?_⟩
    rw [UInt32.ofNat_toNat]
    rfl
  · intro h
    obtain ⟨vs, hvs, h⟩ := Option.bind_eq_some_iff.1 h
    split at h
    · next attempts backoff maxBackoff =>
      obtain ⟨n, hattempts, h⟩ := Option.bind_eq_some_iff.1 h
      obtain ⟨b, hbackoff, h⟩ := Option.bind_eq_some_iff.1 h
      obtain ⟨m, hmax, hp⟩ := Option.bind_eq_some_iff.1 h
      obtain ⟨hn, hj⟩ := Json.natBelow?_eq_some_iff.1 hattempts
      obtain rfl := Option.some.inj hp
      refine ⟨backoff, maxBackoff, Json.fields_iff.2 ?_, Duration.spells_iff.2 hbackoff,
        Duration.spells_iff.2 hmax⟩
      rw [hvs, hj, UInt32.toNat_ofNat_of_lt' hn]
    · cases h

theorem spells_toJson (p : RetryPolicy) : Spells p.toJson p :=
  ⟨_, _, .object _ _ _, p.backoff.spells_toJson, p.maxBackoff.spells_toJson⟩

end RetryPolicy

namespace Config

/-- No limit is given by `null` or by nothing at all. -/
inductive LimitSpells : Option Json → Option Duration → Prop where
  | missing : LimitSpells none none
  | null : LimitSpells (some .null) none
  | given {j : Json} {d : Duration} (span : Duration.Spells j d) : LimitSpells (some j) (some d)

theorem limitSpells_iff {j : Option Json} {d : Option Duration} :
    LimitSpells j d ↔ optionalDuration? j = some d := by
  constructor
  · intro h
    cases h with
    | missing | null => rfl
    | @given j d span =>
      have hj : j ≠ .null := by
        rintro rfl
        cases Duration.spells_iff.1 span
      rw [optionalDuration?.eq_3 j fun h => hj h, Duration.spells_iff.1 span]
      rfl
  · fun_cases optionalDuration? j with
    | case1 =>
      intro h
      cases h
      exact .missing
    | case2 =>
      intro h
      cases h
      exact .null
    | case3 j =>
      intro h
      obtain ⟨span, hspan, rfl⟩ := Option.map_eq_some_iff.1 h
      exact .given (Duration.spells_iff.2 hspan)

/-- Five fields, of which the last one may be missing in an object, and any other members. -/
def Spells (j : Json) (c : Config) : Prop :=
  ∃ address ledger retry window limit,
    j.Fields ["listen_addr", "ledger", "retry", "default_vote_timeout", "request_timeout"]
      [some (.string address), some ledger, some retry, some window, limit] ∧
    SocketAddr.parse? address = some c.listen ∧ Backend.Spells ledger c.backend ∧
    RetryPolicy.Spells retry c.retry ∧ Duration.Spells window c.voteWindow ∧
    LimitSpells limit c.requestTimeout

theorem spells_iff {j : Json} {c : Config} : Spells j c ↔ ofJson? j = some c := by
  constructor
  · rintro ⟨address, ledger, retry, window, limit, fields, hlisten, hledger, hretry, hwindow, hlimit⟩
    have haddress : (Json.string address).string? = some address := Json.string?_eq_some_iff.2 rfl
    simp [ofJson?, Json.fields_iff.1 fields, haddress, hlisten, Backend.spells_iff.1 hledger,
      RetryPolicy.spells_iff.1 hretry, Duration.spells_iff.1 hwindow, limitSpells_iff.1 hlimit]
  · intro h
    obtain ⟨vs, hvs, h⟩ := Option.bind_eq_some_iff.1 h
    split at h
    · next listen ledger retry window limit =>
      obtain ⟨address, haddress, h⟩ := Option.bind_eq_some_iff.1 h
      obtain ⟨a, hlisten, h⟩ := Option.bind_eq_some_iff.1 h
      obtain ⟨b, hledger, h⟩ := Option.bind_eq_some_iff.1 h
      obtain ⟨p, hretry, h⟩ := Option.bind_eq_some_iff.1 h
      obtain ⟨w, hwindow, h⟩ := Option.bind_eq_some_iff.1 h
      obtain ⟨d, hlimit, hc⟩ := Option.bind_eq_some_iff.1 h
      obtain rfl := Option.some.inj hc
      refine ⟨address, ledger, retry, window, limit, Json.fields_iff.2 ?_, hlisten,
        Backend.spells_iff.2 hledger, RetryPolicy.spells_iff.2 hretry, Duration.spells_iff.2 hwindow,
        limitSpells_iff.2 hlimit⟩
      rw [hvs, Json.string?_eq_some_iff.1 haddress]
    · cases h

theorem spells_of_toJson {c : Config} {j : Json} (h : c.toJson = some j) : Spells j c := by
  obtain ⟨ledger, hledger, rfl⟩ := Option.map_eq_some_iff.1 h
  refine ⟨c.listen.text, _, _, _, _, .object _ _ _, c.listen.parse?_text,
    Backend.spells_of_toJson hledger, c.retry.spells_toJson, c.voteWindow.spells_toJson, ?limit⟩
  case limit =>
    cases h : c.requestTimeout with
    | none => exact .null
    | some d => exact .given d.spells_toJson

theorem Spells.isText {j : Json} {c : Config} (h : Spells j c) : c.backend.IsText := by
  obtain ⟨_, _, _, _, _, -, -, hledger, -⟩ := h
  exact hledger.isText

theorem toJson_eq_none_iff {c : Config} : c.toJson = none ↔ ¬ c.backend.IsText := by
  rw [toJson, Option.map_eq_none_iff, Backend.toJson_eq_none_iff]

/-- A configuration with a path that is UTF-8, or none, is read from the form that it is written in. -/
theorem exists_toJson {c : Config} (text : c.backend.IsText) :
    ∃ v, c.toJson = some v ∧ ofJson? v = some c := by
  cases h : c.toJson with
  | none => exact absurd text (toJson_eq_none_iff.1 h)
  | some v => exact ⟨v, rfl, spells_iff.1 (spells_of_toJson h)⟩

/-- There is no form for any other. -/
theorem no_json {c : Config} (bytes : ¬ c.backend.IsText) :
    c.toJson = none ∧ ∀ j, ofJson? j ≠ some c :=
  ⟨toJson_eq_none_iff.2 bytes, fun _ h => bytes (spells_iff.2 h).isText⟩

/-- Reading a JSON value gives a configuration exactly if the value spells it. Whatever was read is read
    again just as it was from the form that it is written in. So is whatever the arguments of a command
    line make, unless they give a path that is not UTF-8: that is written in no form and read from none.
    Arguments that are UTF-8 never do. -/
theorem rereads :
    (∀ (j : Json) (c : Config), ofJson? j = some c ↔ Spells j c) ∧
    (∀ (j : Json) (c : Config), ofJson? j = some c → ∃ v, c.toJson = some v ∧ ofJson? v = some c) ∧
    ∀ (arguments : List OsString) (c : Config), CommandLine.parse arguments = .ok c →
      (c.backend.IsText → ∃ v, c.toJson = some v ∧ ofJson? v = some c) ∧
      (¬ c.backend.IsText → c.toJson = none ∧ ∀ j, ofJson? j ≠ some c) ∧
      ((∀ a ∈ arguments, a.IsText) → c.backend.IsText) := by
  refine ⟨fun _ _ => spells_iff.symm, fun j c h => exists_toJson (spells_iff.2 h).isText,
    fun arguments c h => ⟨exists_toJson, no_json, fun texts => ?_⟩⟩
  cases hbackend : c.backend with
  | memory => trivial
  | rocks path =>
    obtain ⟨a, ha, ends⟩ := CommandLine.exists_of_rocks h hbackend
    exact ends.isText (texts a ha)

/-- A configuration in an unusual spelling: a mapped address with all its zeros, spans as arrays and with
    nanoseconds for two seconds, a member that nobody asks for, and no request timeout. -/
def unusual : Json :=
  .ofMembers [("request_timeout_ms", .integer 5),
    ("listen_addr", .string "[0:0::0:ffff:1.2.3.4%007]:080"),
    ("ledger", .ofMembers [("Memory", .null)]),
    ("retry", .array [.integer 3, .array [.integer 1, .integer 2500000000],
      .ofMembers [("nanos", .integer 0), ("secs", .integer 18446744073709551615)]]),
    ("default_vote_timeout", .array [.integer 60, .integer 0])]

/-- What it stands for. -/
def unusualConfig : Config :=
  ⟨.v6 ⟨[0, 0, 0, 0, 0, 0xFFFF, 0x102, 0x304], rfl⟩ 7 80, .memory,
    ⟨3, ⟨3, 500000000, by decide⟩, .ofSeconds 18446744073709551615⟩, .ofSeconds 60, none⟩

/-- The unusual spelling is read, and what is written for it looks different and is read as well. The same
    holds of what a command line asks for. -/
theorem rereads_of_unusual :
    ofJson? unusual = some unusualConfig ∧ unusualConfig.listen.text = "[::ffff:1.2.3.4%7]:80" ∧
    (∃ v, unusualConfig.toJson = some v ∧ ofJson? v = some unusualConfig) ∧
    ∃ c, CommandLine.parse ["-l[fe80::1%7]:80", "--request-timeout-ms=0", "--ledger-path=/tmp/ü"] =
        .ok c ∧
      c.listen.text = "[fe80::1%7]:80" ∧ c.backend = .rocks "/tmp/ü" ∧
      ∃ v, c.toJson = some v ∧ ofJson? v = some c := by
  obtain ⟨-, read, commandLine⟩ := rereads
  have hread : ofJson? unusual = some unusualConfig := rfl
  let c : Config := { standard with
    listen := .v6 ⟨[0xFE80, 0, 0, 0, 0, 0, 0, 1], rfl⟩ 7 80, backend := .rocks "/tmp/ü",
    requestTimeout := none }
  have hparse : CommandLine.parse ["-l[fe80::1%7]:80", "--request-timeout-ms=0",
    "--ledger-path=/tmp/ü"] = .ok c := rfl
  obtain ⟨written, -, texts⟩ := commandLine _ _ hparse
  exact ⟨hread, rfl, read _ _ hread, c, hparse, rfl, rfl,
    written (texts (by simp [OsString.isText_ofText]))⟩

/-- A path on a command line that no JSON value stands for. -/
theorem no_json_of_path_not_text : ∃ c,
    CommandLine.parse ["--ledger-path=/tmp/" ++ ⟨[0xFF]⟩] = .ok c ∧
    c.toJson = none ∧ ∀ j, ofJson? j ≠ some c := by
  have bytes : ¬ OsString.IsText ("/tmp/" ++ ⟨[0xFF]⟩) := OsString.text?_eq_none_iff.1 (by decide)
  exact ⟨{ standard with backend := .rocks ("/tmp/" ++ ⟨[0xFF]⟩) }, rfl, no_json bytes⟩

end Config
end TwoPhaseCommit
