import TwoPhaseCommit.Config
import TwoPhaseCommit.Net.SocketAddr.Parser

/- The command line. Arguments are taken from left to right, and the first that is wrong ends it. A
   value that stands in an argument of its own is looked at when the next flag begins, or at the
   end; one that is attached to its flag is looked at there. An argument need not be UTF-8, and
   neither need a path; any other value has to be. -/
namespace TwoPhaseCommit.CommandLine

/-- The flags that take a value. -/
inductive Flag where
  | listen
  | ledgerPath
  | voteWindow
  | requestTimeout
  | maxAttempts
  deriving DecidableEq, Repr

/-- Why no configuration comes out. -/
inductive Problem where
  /-- A flag that does not exist, or a value that belongs to no flag. -/
  | unknownArgument
  /-- A value that cannot be read. -/
  | malformedValue
  /-- A value that is no text where one is needed. -/
  | notText
  /-- A value that is missing, or a path that is empty. -/
  | missingValue
  /-- A flag that is given twice. -/
  | repeatedFlag
  /-- A value for a flag that takes none. -/
  | needlessValue
  /-- The user asks for help. -/
  | help
  deriving DecidableEq, Repr

/-- The values that have been given. -/
structure Settings where
  listen : Option SocketAddr
  ledgerPath : Option OsString
  /-- In seconds. -/
  voteWindow : Option UInt64
  /-- In milliseconds. -/
  requestTimeout : Option UInt64
  maxAttempts : Option UInt32
  deriving DecidableEq

namespace Settings

def empty : Settings := ⟨none, none, none, none, none⟩

def has (s : Settings) : Flag → Bool
  | .listen => s.listen.isSome
  | .ledgerPath => s.ledgerPath.isSome
  | .voteWindow => s.voteWindow.isSome
  | .requestTimeout => s.requestTimeout.isSome
  | .maxAttempts => s.maxAttempts.isSome

end Settings

/-! ## Values -/

/-- A decimal number below a bound, which a plus sign may precede. -/
def readNat (bound : Nat) : List Char → Option Nat
  | '+' :: cs => (Numeral.decimal bound).readAll cs
  | cs => (Numeral.decimal bound).readAll cs

/-- A decimal number below a bound with any sign. The only negative one is zero. -/
def readSigned (bound : Nat) : List Char → Option Nat
  | '-' :: cs => (Numeral.decimal 1).readAll cs
  | cs => readNat bound cs

/-- Reads a value that has to be a text. -/
def readText {α : Type} (reader : String → Option α) (value : OsString) : Except Problem α :=
  match value.text? with
  | none => .error .notText
  | some text => match reader text with
    | some a => .ok a
    | none => .error .malformedValue

/-- Reads the value of a flag. Any bytes are a path. -/
def Settings.put (s : Settings) (f : Flag) (value : OsString) : Except Problem Settings :=
  match f with
  | .listen => do return { s with listen := some (← readText SocketAddr.parse? value) }
  | .ledgerPath =>
    if value = "" then .error .missingValue else .ok { s with ledgerPath := some value }
  | .voteWindow => do
    let n ← readText (fun text => readNat UInt64.size text.toList) value
    return { s with voteWindow := some (UInt64.ofNat n) }
  | .requestTimeout => do
    let n ← readText (fun text => readNat UInt64.size text.toList) value
    return { s with requestTimeout := some (UInt64.ofNat n) }
  | .maxAttempts => do
    let n ← readText (fun text => readSigned UInt32.size text.toList) value
    return { s with maxAttempts := some (UInt32.ofNat n) }

/-- Takes a flag with its value, if it has one. -/
def Settings.take (s : Settings) (f : Flag) : Option OsString → Except Problem Settings
  | none => .error .missingValue
  | some value => if s.has f then .error .repeatedFlag else s.put f value

/-! ## Arguments -/

/-- What an argument is by its form. -/
inductive Token where
  /-- A flag, and its value if it is attached. -/
  | flag (f : Flag) (value : Option OsString)
  | help
  /-- A call for help with a value attached. -/
  | helpWithValue
  /-- The mark after which there are no more flags. -/
  | endOfFlags
  | unknown
  | value (value : OsString)
  deriving DecidableEq, Repr

/-- The name of a flag after its two dashes. -/
def Flag.name : Flag → String
  | .listen => "listen"
  | .ledgerPath => "ledger-path"
  | .voteWindow => "default-vote-timeout"
  | .requestTimeout => "request-timeout-ms"
  | .maxAttempts => "max-attempts"

def Flag.all : List Flag := [.listen, .ledgerPath, .voteWindow, .requestTimeout, .maxAttempts]

/-- What stands before the first equals sign. -/
def nameOf (s : OsString) : OsString := ⟨s.bytes.takeWhile (· != '='.toUInt8)⟩

/-- What stands after the first equals sign, if there is one. -/
def attached (s : OsString) : Option OsString :=
  match s.bytes.dropWhile (· != '='.toUInt8) with
  | [] => none
  | _ :: value => some ⟨value⟩

/-- An argument that begins with two dashes, without them. -/
def longToken (s : OsString) : Token :=
  if nameOf s = "help" then if (attached s).isSome then .helpWithValue else .help
  else match Flag.all.find? fun f => nameOf s == f.name with
    | some f => .flag f (attached s)
    | none => .unknown

/-- An argument that begins with one dash, without it. An equals sign may stand before the value. -/
def shortToken (s : OsString) : Token :=
  match OsString.after? "l" s with
  | some value => if value = "" then .flag .listen none
    else .flag .listen (some ((OsString.after? "=" value).getD value))
  | none => if (OsString.after? "h" s).isSome then .help else .unknown

def Token.ofArgument (s : OsString) : Token :=
  match OsString.after? "--" s, OsString.after? "-" s with
  | some rest, _ => if rest = "" then .endOfFlags else longToken rest
  | none, some rest => if rest = "" then .value s else shortToken rest
  | none, none => .value s

/-! ## Parsing -/

/-- The flag that was last begun without an attached value, and the value that came after it. -/
abbrev Begun := Option (Flag × Option OsString)

/-- Takes the flag that was begun. -/
def Settings.complete (s : Settings) : Begun → Except Problem Settings
  | none => .ok s
  | some (f, value) => s.take f value

def read (s : Settings) : Begun → List OsString → Except Problem Settings
  | begun, [] => s.complete begun
  | begun, a :: rest => match Token.ofArgument a with
    | .flag f none => do read (← s.complete begun) (some (f, none)) rest
    | .flag f (some value) => do read (← (← s.complete begun).take f (some value)) none rest
    | .help => do
      let _ ← s.complete begun
      .error .help
    | .helpWithValue => .error .needlessValue
    | .endOfFlags => if rest.isEmpty then s.complete begun else .error .unknownArgument
    | .unknown => .error .unknownArgument
    | .value value => match begun with
      | some (f, none) => read s (some (f, some value)) rest
      | _ => .error .unknownArgument

/-- A limit of zero milliseconds is none. -/
def limitOf (milliseconds : UInt64) : Option Duration :=
  if milliseconds = 0 then none else some (.ofMilliseconds milliseconds)

/-- The configuration that the values given make, with the usual ones for the others. -/
def Settings.config (s : Settings) : Config where
  listen := s.listen.getD Config.standard.listen
  backend := match s.ledgerPath with
    | some path => .rocks path
    | none => .memory
  retry := { RetryPolicy.standard with
    maxAttempts := s.maxAttempts.getD RetryPolicy.standard.maxAttempts }
  voteWindow := .ofSeconds (s.voteWindow.getD 60)
  requestTimeout := limitOf (s.requestTimeout.getD 10000)

/-- The configuration that arguments ask for. -/
def parse (arguments : List OsString) : Except Problem Config := do
  return (← read .empty none arguments).config

/-- What the program says about itself. -/
def helpText : String :=
  "Serves the two-phase-commit adapter RPC on top of a ledger\n" ++
  "\n" ++
  "Usage: verdict [OPTIONS]\n" ++
  "\n" ++
  "Options:\n" ++
  "  -l, --listen <LISTEN>\n" ++
  "          Address to listen on [default: 0.0.0.0:50051]\n" ++
  "      --ledger-path <LEDGER_PATH>\n" ++
  "          RocksDB directory for the ledger; keeps records in memory when omitted\n" ++
  "      --default-vote-timeout <DEFAULT_VOTE_TIMEOUT>\n" ++
  "          Voting window in seconds for StartVoting requests without a timeout [default: 60]\n" ++
  "      --request-timeout-ms <REQUEST_TIMEOUT_MS>\n" ++
  "          Server-side per-request deadline in milliseconds (0 disables it) [default: 10000]\n" ++
  "      --max-attempts <MAX_ATTEMPTS>\n" ++
  "          Attempts for a conflicting ledger write before giving up [default: 16]\n" ++
  "  -h, --help\n" ++
  "          Print help\n"

end TwoPhaseCommit.CommandLine
