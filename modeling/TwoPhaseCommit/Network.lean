import TwoPhaseCommit.Config
import TwoPhaseCommit.Error
import TwoPhaseCommit.Net.Uri

/- What the network around a process allows, and what becomes of serving and connecting on it. -/
namespace TwoPhaseCommit

structure Network where
  /-- Whether a server can listen on an address. -/
  admits : SocketAddr → Bool
  /-- Whether somebody answers at an endpoint. -/
  reaches : String → Bool

namespace Network

/-- A network of which nothing is connected: any IPv4 address can be listened on, of IPv6 only the
    address that stands for all, and nobody answers. -/
def isolated : Network where
  admits
    | .v4 .. => true
    | .v6 ip _ _ => ip.mapped?.isSome || ip.groups.all (· == 0)
  reaches _ := false

/-- A network on which every address is taken. -/
def crowded : Network where
  admits _ := false
  reaches _ := false

/-- Begins to serve at an address. -/
def listen (n : Network) (a : SocketAddr) : Except Error Unit :=
  if n.admits a then .ok () else .error ⟨.unavailable, "adapter server failed: transport error"⟩

/-- What a text begins with that names a socket of the machine by its path. -/
def socketScheme : String := "unix:"

/-- An endpoint is a URI or the path of a socket, and any text can be a path. -/
def isEndpoint (s : String) : Bool := socketScheme.toList.isPrefixOf s.toList || Uri.isUri s

/-- Connects a client to an endpoint. -/
def connect (n : Network) (endpoint : String) : Except Error Unit :=
  if !isEndpoint endpoint then .error ⟨.invalidArgument, "invalid endpoint: invalid URI"⟩
  else if n.reaches endpoint then .ok ()
  else .error ⟨.unavailable, "failed to connect: transport error"⟩

/-- Starts a coordinator process. Records can only be kept in memory. -/
def start (n : Network) (c : Config) : Except Error Unit :=
  match c.backend with
  | .memory => n.listen c.listen
  | .rocks _ => .error ⟨.invalidArgument, "--ledger-path needs a build with the `durable` feature"⟩

end Network
end TwoPhaseCommit
