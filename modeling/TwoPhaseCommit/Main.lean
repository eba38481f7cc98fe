import Std.Time.DateTime.Timestamp
import TwoPhaseCommit.Adapter.Service
import TwoPhaseCommit.Bytes.Hex
import TwoPhaseCommit.CommandLine
import TwoPhaseCommit.Network

/- The program. It reads its command line and serves the adapter over its own standard input and
   output: a line with the name of a method and the bytes of a request, in hexadecimal, is answered
   by a line with the bytes of the response, or with the number of a status and its message. -/
namespace TwoPhaseCommit.Main

/-- What is said about a command line that makes no configuration. -/
def complaint : CommandLine.Problem → String
  | .unknownArgument => "error: unexpected argument found"
  | .malformedValue => "error: invalid value for an argument"
  | .notText => "error: invalid UTF-8 was detected in one or more arguments"
  | .missingValue => "error: a value is required for an argument but none was supplied"
  | .repeatedFlag => "error: an argument cannot be used multiple times"
  | .needlessValue => "error: unexpected value for an argument found"
  | .help => CommandLine.helpText

def method? : String → Option Method
  | "StartVoting" => some .startVoting
  | "Vote" => some .vote
  | "GetVotingDecision" => some .getVotingDecision
  | "GetHeartBeat" => some .getHeartBeat
  | _ => none

/-- Sleeps for some milliseconds, which may be more than can be slept at once. -/
def sleep (ms : Nat) : IO Unit :=
  if h : ms < UInt32.size then IO.sleep (UInt32.ofNatLT ms h)
  else do
    IO.sleep 4294967295
    sleep (ms - 4294967295)
termination_by ms
decreasing_by simp only [UInt32.size] at h; omega

/-- Answers the requests of a call from a ledger in memory, the clock of the machine and the log. -/
def perform {α : Type} (ledger : IO.Ref Ledger) : Call α → IO α
  | .done a => return a
  | .ask (.ledger q) next => do perform ledger (next (.ok (← ledger.modifyGet fun l => l.perform q)))
  | .ask .now next => do
    let t ← Std.Time.Timestamp.now
    perform ledger (next (Int64.ofInt t.toSecondsSinceUnixEpoch.val))
  | .ask (.pause d) next => do
    sleep (d.asPause.nanoseconds / 1000000)
    perform ledger (next ())
  | .ask (.log e) next => do
    if e.level != .debug then IO.eprintln e.line
    perform ledger (next ())

/-- Answers one line. -/
def answer (service : Service) (ledger : IO.Ref Ledger) (line : String) : IO String := do
  let words := line.trimAscii.toString.splitOn " "
  match method? (words.headD ""), Hex.parse? ("".intercalate words.tail) with
  | some m, some bytes => match ← perform ledger (service.handle m bytes) with
    | .ok bytes => return "ok " ++ Hex.render bytes
    | .error s => return toString s.code.number ++ " " ++ s.message
  | none, _ => return "12 unknown method"
  | _, none => return "3 malformed request"

/-- Answers line after line until the input ends. -/
partial def loop (service : Service) (ledger : IO.Ref Ledger) (input output : IO.FS.Stream) :
    IO Unit := do
  let line ← input.getLine
  if line.isEmpty then return
  output.putStrLn (← answer service ledger line)
  output.flush
  loop service ledger input output

end TwoPhaseCommit.Main

open TwoPhaseCommit in
def main (arguments : List String) : IO UInt32 := do
  match CommandLine.parse (arguments.map OsString.ofText) with
  | .error .help =>
    IO.print CommandLine.helpText
    return 0
  | .error problem =>
    IO.eprintln (Main.complaint problem)
    return 2
  | .ok config => match Network.isolated.start config with
    | .error e =>
      IO.eprintln e.display
      return 1
    | .ok () =>
      let ledger ← IO.mkRef Ledger.empty
      Main.loop ⟨⟨config.retry⟩, config.voteWindow⟩ ledger (← IO.getStdin) (← IO.getStdout)
      return 0
