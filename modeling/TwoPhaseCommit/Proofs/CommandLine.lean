import TwoPhaseCommit.CommandLine
import TwoPhaseCommit.Proofs.Net.SocketAddr
import TwoPhaseCommit.Proofs.OsString
import TwoPhaseCommit.Proofs.Retry.Delay

/- Which configuration a command line asks for. A flag may be written in several ways (`Gives`), and
   what was written last is taken only when the next flag begins. So the values that have been given
   are those that there are once the flag that was begun is complete, and one more setting adds
   itself to them (`read_given`). The values that come out have every setting of the line and no
   others (`read_gives`), which tells nothing of their order, and neither does the configuration that
   they make (`Asked`). -/
namespace TwoPhaseCommit.CommandLine

/-! ## Settings and their values -/

/-- A flag with the value that it is given. -/
inductive Setting where
  | listen (address : SocketAddr)
  | ledgerPath (path : OsString)
  | voteWindow (seconds : UInt64)
  | requestTimeout (milliseconds : UInt64)
  | maxAttempts (n : UInt32)

def Setting.flag : Setting → Flag
  | .listen _ => .listen
  | .ledgerPath _ => .ledgerPath
  | .voteWindow _ => .voteWindow
  | .requestTimeout _ => .requestTimeout
  | .maxAttempts _ => .maxAttempts

/-- Digits that spell a number. There may be zeros in front. -/
structure Decimal (n : Nat) (cs : List Char) : Prop where
  nonempty : cs ≠ []
  digits : ∀ c ∈ cs, c.isDigit
  value : Nat.ofDigitChars 10 cs 0 = n

/-- A number with or without a plus sign. -/
inductive Number (n : Nat) : List Char → Prop where
  | plain {cs : List Char} (h : Decimal n cs) : Number n cs
  | plus {cs : List Char} (h : Decimal n cs) : Number n ('+' :: cs)

/-- A string is the value of a setting. Only a path may be one that is no text. -/
inductive Value : Setting → OsString → Prop where
  | listen {a : SocketAddr} {text : String} (h : SocketAddr.parse? text = some a) :
      Value (.listen a) text
  | ledgerPath {path : OsString} (nonempty : path ≠ "") (dash : OsString.after? "-" path = none) :
      Value (.ledgerPath path) path
  | voteWindow {s : UInt64} {text : String} (h : Number s.toNat text.toList) :
      Value (.voteWindow s) text
  | requestTimeout {ms : UInt64} {text : String} (h : Number ms.toNat text.toList) :
      Value (.requestTimeout ms) text
  | maxAttempts {n : UInt32} {text : String} (h : Number n.toNat text.toList) :
      Value (.maxAttempts n) text

section
variable {n bound : Nat} {cs : List Char}

theorem Decimal.head?_ne (h : Decimal n cs) {c : Char} (hc : c.isDigit = false) :
    cs.head? ≠ some c := by
  intro head
  rw [h.digits c (List.mem_of_head? head)] at hc
  cases hc

theorem Decimal.readAll (h : Decimal n cs) (lt_bound : n < bound) :
    (Numeral.decimal bound).readAll cs = some n := by
  have hvalue := h.value
  subst hvalue
  exact Numeral.readAll_decimal h.nonempty h.digits lt_bound

theorem Number.head?_ne_dash (h : Number n cs) : cs.head? ≠ some '-' := by
  cases h with
  | plain h => exact h.head?_ne (by decide)
  | plus h => exact fun head => absurd (Option.some.inj head) (by decide)

theorem Number.readNat (h : Number n cs) (lt_bound : n < bound) : readNat bound cs = some n := by
  cases h with
  | plain h =>
    rw [CommandLine.readNat.eq_2 bound cs fun rest hcs =>
      h.head?_ne (c := '+') (by decide) (by rw [hcs]; rfl)]
    exact h.readAll lt_bound
  | plus h => exact h.readAll lt_bound

/-- A number that is not negative is read by the reader of those that may be. -/
theorem Number.readSigned (h : Number n cs) (lt_bound : n < bound) :
    readSigned bound cs = some n := by
  rw [CommandLine.readSigned.eq_2 bound cs fun rest hcs => h.head?_ne_dash (by rw [hcs]; rfl)]
  exact h.readNat lt_bound

end

/-- A text with another first character than a text of one does not begin with it. -/
theorem after?_eq_none {c : Char} {start text : String} (hstart : start.toList = [c])
    (h : text.toList.head? ≠ some c) : OsString.after? start text = none := by
  refine OsString.after?_ofText_eq_none ?_
  rintro v rfl
  exact h (by rw [String.toList_append, hstart]; rfl)

/-- No value looks like a flag. -/
theorem Value.not_dash {v : Setting} {value : OsString} (h : Value v value) :
    OsString.after? "-" value = none := by
  cases h with
  | listen h => exact after?_eq_none rfl (SocketAddr.head?_ne_of_parse? h (by decide) (by decide))
  | ledgerPath _ dash => exact dash
  | voteWindow h | requestTimeout h | maxAttempts h => exact after?_eq_none rfl h.head?_ne_dash

/-! ## Values that have been given -/

namespace Settings

/-- A setting is among the values that have been given. -/
def Contains (s : Settings) : Setting → Prop
  | .listen a => s.listen = some a
  | .ledgerPath path => s.ledgerPath = some path
  | .voteWindow seconds => s.voteWindow = some seconds
  | .requestTimeout ms => s.requestTimeout = some ms
  | .maxAttempts n => s.maxAttempts = some n

def set (s : Settings) : Setting → Settings
  | .listen a => { s with listen := some a }
  | .ledgerPath path => { s with ledgerPath := some path }
  | .voteWindow seconds => { s with voteWindow := some seconds }
  | .requestTimeout ms => { s with requestTimeout := some ms }
  | .maxAttempts n => { s with maxAttempts := some n }

variable {s : Settings} {v : Setting}

theorem has_empty (f : Flag) : empty.has f = false := by
  cases f <;> rfl

theorem not_contains_empty (v : Setting) : ¬ empty.Contains v := by
  cases v <;> exact nofun

theorem has_set (s : Settings) (v : Setting) (f : Flag) :
    (s.set v).has f = (s.has f || decide (f = v.flag)) := by
  cases v <;> cases f <;> simp [set, has, Setting.flag]

/-- A flag that was not there yet adds its own value and keeps the others. -/
theorem contains_set (absent : s.has v.flag = false) (w : Setting) :
    (s.set v).Contains w ↔ s.Contains w ∨ w = v := by
  cases v <;> cases w <;> grind [set, Contains, has, Setting.flag]

theorem eq_of_contains {t : Settings} (h : ∀ w, s.Contains w ↔ t.Contains w) : s = t := by
  obtain ⟨a, b, c, d, e⟩ := s
  obtain ⟨a', b', c', d', e'⟩ := t
  obtain rfl : a = a' := Option.ext fun x => h (.listen x)
  obtain rfl : b = b' := Option.ext fun x => h (.ledgerPath x)
  obtain rfl : c = c' := Option.ext fun x => h (.voteWindow x)
  obtain rfl : d = d' := Option.ext fun x => h (.requestTimeout x)
  obtain rfl : e = e' := Option.ext fun x => h (.maxAttempts x)
  rfl

theorem readText_ofText {α : Type} {reader : String → Option α} {text : String} {a : α}
    (h : reader text = some a) : readText reader text = .ok a := by
  rw [readText, OsString.text?_ofText]
  dsimp only
  rw [h]

theorem put_of_value {value : OsString} (h : Value v value) (s : Settings) :
    s.put v.flag value = .ok (s.set v) := by
  cases h with
  | listen h =>
    rw [Setting.flag, put, readText_ofText h]
    rfl
  | ledgerPath nonempty _ => exact if_neg nonempty
  | voteWindow h | requestTimeout h =>
    rw [Setting.flag, put, readText_ofText (h.readNat (UInt64.toNat_lt _))]
    simp only [bind, Except.bind, UInt64.ofNat_toNat]
    rfl
  | maxAttempts h =>
    rw [Setting.flag, put, readText_ofText (h.readSigned (UInt32.toNat_lt _))]
    simp only [bind, Except.bind, UInt32.ofNat_toNat]
    rfl

theorem take_of_value {value : OsString} (h : Value v value) (absent : s.has v.flag = false) :
    s.take v.flag (some value) = .ok (s.set v) := by
  rw [take, if_neg (by rw [absent]; exact Bool.false_ne_true), put_of_value h]

end Settings

/-! ## Arguments -/

/-- The arguments that give one setting, in all the ways there are. -/
inductive Given : Setting → List OsString → Prop where
  | detached {v : Setting} {value : OsString} (h : Value v value) :
      Given v ["--" ++ v.flag.name, value]
  | equals {v : Setting} {value : OsString} (h : Value v value) :
      Given v ["--" ++ v.flag.name ++ "=" ++ value]
  | short {a : SocketAddr} {value : OsString} (h : Value (.listen a) value) :
      Given (.listen a) ["-l", value]
  | shortAttached {a : SocketAddr} {value : OsString} (h : Value (.listen a) value) :
      Given (.listen a) ["-l" ++ value]
  | shortEquals {a : SocketAddr} {value : OsString} (h : Value (.listen a) value) :
      Given (.listen a) ["-l=" ++ value]

/-- The arguments that give settings one after the other. -/
inductive Gives : List Setting → List OsString → Prop where
  | nil : Gives [] []
  | cons {v : Setting} {vs : List Setting} {part rest : List OsString} (one : Given v part)
      (others : Gives vs rest) : Gives (v :: vs) (part ++ rest)

theorem longToken_equals (f : Flag) (value : OsString) :
    longToken (f.name ++ "=" ++ value) = .flag f (some value) := by
  have hall : (OsString.ofText f.name).bytes.all (· != '='.toUInt8) = true := by cases f <;> decide
  have hname := List.all_eq_true.1 hall
  have hbytes : ((f.name : OsString) ++ "=" ++ value).bytes =
      (OsString.ofText f.name).bytes ++ '='.toUInt8 :: value.bytes :=
    congrArg OsString.bytes (OsString.append_assoc f.name "=" value)
  have hnameOf : nameOf (f.name ++ "=" ++ value) = f.name := by
    rw [nameOf, hbytes, List.takeWhile_append_of_pos hname]
    simp
  have hattached : attached (f.name ++ "=" ++ value) = some value := by
    rw [attached, hbytes, List.dropWhile_append_of_pos hname]
    simp
  have hhelp : (f.name : OsString) ≠ "help" := by cases f <;> decide
  have hfind : (Flag.all.find? fun g => (f.name : OsString) == g.name) = some f := by
    cases f <;> decide
  rw [longToken, hnameOf, if_neg hhelp, hfind, hattached]

namespace Token

theorem ofArgument_of_not_dash {s : OsString} (h : OsString.after? "-" s = none) :
    ofArgument s = .value s := by
  have hlong : OsString.after? "--" s = none := by
    rw [Option.eq_none_iff_forall_ne_some] at h ⊢
    intro rest hrest
    rw [OsString.after?_eq_some_iff] at hrest
    exact h ("-" ++ rest) (OsString.after?_eq_some_iff.2 hrest)
  rw [ofArgument, hlong, h]

theorem ofArgument_long {s : OsString} (nonempty : s ≠ "") :
    ofArgument ("--" ++ s) = longToken s := by
  rw [ofArgument, OsString.after?_eq_some_iff.2 rfl]
  exact if_neg nonempty

theorem ofArgument_name (f : Flag) : ofArgument ("--" ++ f.name) = .flag f none := by
  cases f <;> decide

theorem ofArgument_equals (f : Flag) (value : OsString) :
    ofArgument ("--" ++ f.name ++ "=" ++ value) = .flag f (some value) := by
  have hs : ("--" ++ f.name ++ "=" ++ value : OsString) = "--" ++ (f.name ++ "=" ++ value) := by
    simp only [OsString.append_assoc]
  have nonempty : (f.name ++ "=" ++ value : OsString) ≠ "" := by
    cases f <;> exact nofun
  rw [hs, ofArgument_long nonempty, longToken_equals]

/-- The value may begin with an equals sign, which is not counted then. -/
theorem ofArgument_short {value : OsString} (nonempty : value ≠ "") :
    ofArgument ("-l" ++ value) =
      .flag .listen (some ((OsString.after? "=" value).getD value)) := by
  have hshort : OsString.after? "-" ("-l" ++ value) = some ("l" ++ value) :=
    OsString.after?_eq_some_iff.2 rfl
  have hvalue : OsString.after? "l" ("l" ++ value) = some value := OsString.after?_eq_some_iff.2 rfl
  have hlong : OsString.after? "--" ("-l" ++ value) = none := rfl
  rw [ofArgument, hlong, hshort]
  dsimp only
  rw [if_neg nofun, shortToken, hvalue]
  exact if_neg nonempty

/-- No address begins with an equals sign. -/
theorem ofArgument_shortAttached {a : SocketAddr} {value : OsString} (h : Value (.listen a) value) :
    ofArgument ("-l" ++ value) = .flag .listen (some value) := by
  cases h with
  | @listen _ text haddress =>
    have nonempty : OsString.ofText text ≠ "" := by
      intro hempty
      obtain rfl := OsString.ofText_inj.1 hempty
      cases haddress
    have equals : OsString.after? "=" text = none :=
      after?_eq_none rfl (SocketAddr.head?_ne_of_parse? haddress (by decide) (by decide))
    rw [ofArgument_short nonempty, equals, Option.getD_none]

theorem ofArgument_shortEquals (value : OsString) :
    ofArgument ("-l=" ++ value) = .flag .listen (some value) := by
  have hs : ("-l=" ++ value : OsString) = "-l" ++ ("=" ++ value) := rfl
  have nonempty : ("=" ++ value : OsString) ≠ "" := nofun
  have hvalue : OsString.after? "=" ("=" ++ value) = some value := OsString.after?_eq_some_iff.2 rfl
  rw [hs, ofArgument_short nonempty, hvalue, Option.getD_some]

end Token

/-! ## Reading -/

variable {v : Setting} {s t : Settings} {begun : Begun}

theorem read_detached {arg value : OsString} (harg : Token.ofArgument arg = .flag v.flag none)
    (hv : Value v value) (complete : s.complete begun = .ok t) (rest : List OsString) :
    read s begun (arg :: value :: rest) = read t (some (v.flag, some value)) rest := by
  rw [read, harg]
  dsimp only
  rw [complete]
  show read t (some (v.flag, none)) (value :: rest) = _
  rw [read, Token.ofArgument_of_not_dash hv.not_dash]

theorem read_attached {arg value : OsString} (harg : Token.ofArgument arg = .flag v.flag (some value))
    (hv : Value v value) (complete : s.complete begun = .ok t) (absent : t.has v.flag = false)
    (rest : List OsString) : read s begun (arg :: rest) = read (t.set v) none rest := by
  rw [read, harg]
  dsimp only
  rw [complete]
  show (do read (← t.take v.flag (some value)) none rest) = _
  rw [Settings.take_of_value hv absent]
  rfl

/-- One more setting. It is there once the flag that it leaves begun is complete. -/
theorem read_given {part : List OsString} (given : Given v part) (complete : s.complete begun = .ok t)
    (absent : t.has v.flag = false) (rest : List OsString) : ∃ s' begun',
    read s begun (part ++ rest) = read s' begun' rest ∧ s'.complete begun' = .ok (t.set v) := by
  cases given with
  | detached h =>
    exact ⟨t, _, read_detached (Token.ofArgument_name _) h complete rest,
      Settings.take_of_value h absent⟩
  | equals h =>
    exact ⟨_, none, read_attached (Token.ofArgument_equals _ _) h complete absent rest, rfl⟩
  | short h => exact ⟨t, _, read_detached rfl h complete rest, Settings.take_of_value h absent⟩
  | @shortAttached a value h =>
    exact ⟨_, none, read_attached (Token.ofArgument_shortAttached h) h complete absent rest, rfl⟩
  | shortEquals h =>
    exact ⟨_, none, read_attached (Token.ofArgument_shortEquals _) h complete absent rest, rfl⟩

/-- The settings that arguments give are added to those that there were, and nothing else is. -/
theorem read_gives {vs : List Setting} {arguments : List OsString} (gives : Gives vs arguments) :
    ∀ {s t : Settings} {begun : Begun}, s.complete begun = .ok t → (vs.map Setting.flag).Nodup →
      (∀ v ∈ vs, t.has v.flag = false) →
      ∃ t', read s begun arguments = .ok t' ∧ ∀ w, t'.Contains w ↔ t.Contains w ∨ w ∈ vs := by
  induction gives with
  | nil =>
    intro s t begun complete _ _
    exact ⟨t, complete, by simp⟩
  | @cons v vs part rest one _ ih =>
    intro s t begun complete distinct absent
    -- A flag may still be begun, so the values so far are those of `t` and not of `s`.
    obtain ⟨hv, distinct⟩ := List.nodup_cons.1 distinct
    obtain ⟨vAbsent, absent⟩ := List.forall_mem_cons.1 absent
    obtain ⟨s', begun', hread, complete'⟩ := read_given one complete vAbsent rest
    have absent' : ∀ w ∈ vs, (t.set v).has w.flag = false := by
      intro w hw
      have hne : w.flag ≠ v.flag := fun h => hv (h ▸ List.mem_map_of_mem hw)
      rw [Settings.has_set, absent w hw, decide_eq_false hne, Bool.false_or]
    obtain ⟨t', hread', contains⟩ := ih complete' distinct absent'
    refine ⟨t', hread.trans hread', fun w => ?_⟩
    rw [contains, Settings.contains_set vAbsent, List.mem_cons, or_assoc]

/-! ## Configurations -/

theorem limitOf_eq_none_iff {ms : UInt64} : limitOf ms = none ↔ ms = 0 := by
  rw [limitOf]
  split <;> simp [*]

theorem exists_limitOf {ms : UInt64} (h : ms ≠ 0) :
    ∃ d, limitOf ms = some d ∧ d.nanoseconds = ms.toNat * 1000000 :=
  ⟨_, if_neg h, Duration.nanoseconds_ofMilliseconds ms⟩

/-- A field is made of the value that is given for it. It has its usual value if there is none. -/
def Takes {α β : Type} (given : α → Prop) (make : α → β) (usual x : β) : Prop :=
  (∀ a, given a → x = make a) ∧ ((∀ a, ¬ given a) → x = usual)

/-- A configuration is the one that settings ask for. Each of them determines its own field, and the
    others have their usual values. -/
structure Asked (vs : List Setting) (c : Config) : Prop where
  listen : Takes (fun a => .listen a ∈ vs) id Config.standard.listen c.listen
  ledger : ∀ path, c.backend = .rocks path ↔ .ledgerPath path ∈ vs
  voteWindow : Takes (fun s => .voteWindow s ∈ vs) Duration.ofSeconds Config.standard.voteWindow
    c.voteWindow
  maxAttempts :
    Takes (fun n => .maxAttempts n ∈ vs) id RetryPolicy.standard.maxAttempts c.retry.maxAttempts
  unlimited : c.requestTimeout = none ↔ .requestTimeout 0 ∈ vs
  limited : ∀ ms, .requestTimeout ms ∈ vs → ms ≠ 0 →
    ∃ d, c.requestTimeout = some d ∧ d.nanoseconds = ms.toNat * 1000000
  usualLimit : (∀ ms, .requestTimeout ms ∉ vs) → c.requestTimeout = Config.standard.requestTimeout
  backoff : c.retry.backoff = RetryPolicy.standard.backoff
  maxBackoff : c.retry.maxBackoff = RetryPolicy.standard.maxBackoff

theorem takes_getD {α β : Type} {o : Option α} {given : α → Prop}
    (h : ∀ a, o = some a ↔ given a) (make : α → β) (usual : α) :
    Takes given make (make usual) (make (o.getD usual)) := by
  constructor
  · intro a ha
    rw [(h a).2 ha, Option.getD_some]
  · intro missing
    rw [Option.eq_none_iff_forall_ne_some.2 fun a ha => missing a ((h a).1 ha), Option.getD_none]

theorem asked_config {vs : List Setting} (contains : ∀ v, s.Contains v ↔ v ∈ vs) :
    Asked vs s.config := by
  have limit : Takes (fun ms => .requestTimeout ms ∈ vs) limitOf Config.standard.requestTimeout
      s.config.requestTimeout := takes_getD (fun ms => contains (.requestTimeout ms)) limitOf 10000
  refine
    { listen := takes_getD (fun a => contains (.listen a)) id _
      ledger := fun path => ?ledger
      voteWindow := takes_getD (fun seconds => contains (.voteWindow seconds)) Duration.ofSeconds 60
      maxAttempts := takes_getD (fun n => contains (.maxAttempts n)) id _
      unlimited := ?unlimited
      limited := ?limited
      usualLimit := limit.2
      backoff := rfl
      maxBackoff := rfl }
  case ledger =>
    rw [← contains, Settings.config, Settings.Contains]
    cases s.ledgerPath <;> simp
  case unlimited =>
    constructor
    · intro hnone
      by_cases given : ∃ ms, .requestTimeout ms ∈ vs
      · obtain ⟨ms, hms⟩ := given
        have hlimit : limitOf ms = none := (limit.1 ms hms).symm.trans hnone
        rwa [limitOf_eq_none_iff.1 hlimit] at hms
      · have husual := limit.2 fun ms hms => given ⟨ms, hms⟩
        rw [hnone] at husual
        cases husual
    · exact limit.1 0
  case limited =>
    intro ms hms pos
    rw [limit.1 ms hms]
    exact exists_limitOf pos

/-- Flags may come in any order and be written in any way. If none comes twice and each has a proper
    value, there is a configuration, which is the one that they ask for, and the same flags with the same
    values make no other. -/
theorem parse_of_gives {vs : List Setting} {arguments : List OsString}
    (distinct : (vs.map Setting.flag).Nodup) (gives : Gives vs arguments) :
    ∃ c, parse arguments = .ok c ∧ Asked vs c ∧
      ∀ (vs' : List Setting) (arguments' : List OsString), vs'.Perm vs → Gives vs' arguments' →
        parse arguments' = .ok c := by
  have read_eq : ∀ {vs : List Setting} {arguments : List OsString},
      (vs.map Setting.flag).Nodup → Gives vs arguments →
        ∃ t, read .empty none arguments = .ok t ∧ ∀ w, t.Contains w ↔ w ∈ vs := by
    intro vs arguments distinct gives
    have atFirst : Settings.empty.complete none = .ok .empty := rfl
    obtain ⟨t, hread, contains⟩ :=
      read_gives gives atFirst distinct fun v _ => Settings.has_empty v.flag
    refine ⟨t, hread, fun w => ?_⟩
    rw [contains, or_iff_right (Settings.not_contains_empty w)]
  obtain ⟨t, hread, contains⟩ := read_eq distinct gives
  refine ⟨t.config, ?_, asked_config contains, fun vs' arguments' perm gives' => ?_⟩
  · rw [parse, hread]
    rfl
  · obtain ⟨t', hread', contains'⟩ := read_eq ((perm.map _).nodup_iff.2 distinct) gives'
    have ht : t' = t := Settings.eq_of_contains fun w => by rw [contains, contains', perm.mem_iff]
    rw [parse, hread', ht]
    rfl

/-- An attached short form, zeros after a plus sign, no limit and a path with an equals sign in it that is
    not UTF-8. The other way round, and written differently, it is the same configuration. -/
theorem parse_of_gives_mixed : ∃ c,
    parse ["-l[::1]:80", "--max-attempts", "+007", "--request-timeout-ms=0",
      "--ledger-path=a=b" ++ ⟨[0xFF]⟩] = .ok c ∧
    c.backend = .rocks ("a=b" ++ ⟨[0xFF]⟩) ∧ c.retry.maxAttempts = 7 ∧ c.requestTimeout = none ∧
    c.voteWindow = .ofSeconds 60 ∧
    parse ["--ledger-path", "a=b" ++ ⟨[0xFF]⟩, "--request-timeout-ms", "00", "--max-attempts=7",
      "-l=[0::1]:080"] = .ok c := by
  let address : SocketAddr := .v6 ⟨[0, 0, 0, 0, 0, 0, 0, 1], rfl⟩ 0 80
  let vs : List Setting :=
    [.listen address, .maxAttempts 7, .requestTimeout 0, .ledgerPath ("a=b" ++ ⟨[0xFF]⟩)]
  have listen : Value (.listen address) "[::1]:80" := .listen rfl
  have listen' : Value (.listen address) "[0::1]:080" := .listen rfl
  have seven : Value (.maxAttempts 7) "+007" := by
    refine .maxAttempts ?_
    rw [show "+007".toList = ['+', '0', '0', '7'] by simp]
    exact .plus ⟨by simp, by simp, by rfl⟩
  have seven' : Value (.maxAttempts 7) "7" := .maxAttempts (.plain ⟨by simp, by simp, by rfl⟩)
  have zero : Value (.requestTimeout 0) "0" := .requestTimeout (.plain ⟨by simp, by simp, by rfl⟩)
  have zero' : Value (.requestTimeout 0) "00" := .requestTimeout (.plain ⟨by simp, by simp, by rfl⟩)
  have path : Value (.ledgerPath ("a=b" ++ ⟨[0xFF]⟩)) ("a=b" ++ ⟨[0xFF]⟩) :=
    .ledgerPath (by decide) (by decide)
  have gives : Gives vs ["-l[::1]:80", "--max-attempts", "+007", "--request-timeout-ms=0",
      "--ledger-path=a=b" ++ ⟨[0xFF]⟩] :=
    .cons (.shortAttached listen) (.cons (.detached seven) (.cons (.equals zero)
      (.cons (.equals path) .nil)))
  have gives' : Gives vs.reverse ["--ledger-path", "a=b" ++ ⟨[0xFF]⟩, "--request-timeout-ms", "00",
      "--max-attempts=7", "-l=[0::1]:080"] :=
    .cons (.detached path) (.cons (.detached zero') (.cons (.equals seven')
      (.cons (.shortEquals listen') .nil)))
  obtain ⟨c, hparse, asked, same⟩ := parse_of_gives (by decide) gives
  exact ⟨c, hparse, (asked.ledger _).2 (by simp [vs]), asked.maxAttempts.1 7 (by simp [vs]),
    asked.unlimited.2 (by simp [vs]), asked.voteWindow.2 (by simp [vs]),
    same _ _ (List.reverse_perm vs) gives'⟩

end TwoPhaseCommit.CommandLine
