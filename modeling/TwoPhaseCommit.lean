import TwoPhaseCommit.Adapter.TimeLimit
import TwoPhaseCommit.Adapter.Transport
import TwoPhaseCommit.Config.Json
import TwoPhaseCommit.Main
import TwoPhaseCommit.Proofs.Adapter.Relay
import TwoPhaseCommit.Proofs.Adapter.Window
import TwoPhaseCommit.Proofs.Coordinator.Independence
import TwoPhaseCommit.Proofs.Proto.Concatenation
import TwoPhaseCommit.Proofs.Record.Format
import TwoPhaseCommit.Proofs.Record.History
import TwoPhaseCommit.Proofs.Record.LateBallot
import TwoPhaseCommit.Proofs.Record.Poll
import TwoPhaseCommit.Proofs.Record.Settlement
import TwoPhaseCommit.Proofs.Retry.Delay
import TwoPhaseCommit.Proofs.Run.Contention
import TwoPhaseCommit.Proofs.Run.Discipline
import TwoPhaseCommit.Proofs.Run.FirstRegistration
import TwoPhaseCommit.Proofs.Run.Poll
import TwoPhaseCommit.Simulation.Stage
import TwoPhaseCommit.Proofs.Ledger.History
import TwoPhaseCommit.Proofs.Decision.Compact
import TwoPhaseCommit.Proofs.Net.SocketAddr
import TwoPhaseCommit.Proofs.Config.Json
import TwoPhaseCommit.Proofs.CommandLine
