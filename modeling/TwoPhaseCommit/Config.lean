import TwoPhaseCommit.Net.SocketAddr
import TwoPhaseCommit.OsString
import TwoPhaseCommit.Retry

/- What a coordinator process is told when it starts. -/
namespace TwoPhaseCommit

/-- Where the ledger keeps its records. -/
inductive Backend where
  /-- In the process itself. -/
  | memory
  /-- In a database in a directory. -/
  | rocks (path : OsString)
  deriving DecidableEq, Repr

structure Config where
  listen : SocketAddr
  backend : Backend
  retry : RetryPolicy
  /-- How long a vote is open whose request does not say when it closes. -/
  voteWindow : Duration
  /-- How long the server works on one request, if there is a limit. -/
  requestTimeout : Option Duration
  deriving DecidableEq

/-- Where on a machine adapters usually listen. -/
def standardTcpPort : UInt16 := 50051

/-- All addresses of the machine, records in memory, a minute for a vote, ten seconds for a
    request. -/
def Config.standard : Config :=
  ⟨.v4 ⟨0, 0, 0, 0⟩ standardTcpPort, .memory, .standard, .ofSeconds 60, some (.ofSeconds 10)⟩

end TwoPhaseCommit
