import NamedFunctions.Daemon.Config

/-!
# Local sockets

A local socket with the datagrams that wait to be sent on it. Pacing lets them go one after the
other; a datagram whose sending fails has used its slot all the same.
-/

namespace NamedFunctions

/-- Octets for a peer. `nfnd/src/transport:37`. -/
structure Datagram where
  peer : Peer
  bytes : Bytes
deriving Repr

/-- A local socket. `nfnd/src/transport:31–38`. -/
structure Interface where
  index : Nat
  address : InterfaceAddress
  pacer : Pacer
  /-- The datagrams to be sent, the first of them first. -/
  backlog : List Datagram := []
deriving Repr

namespace Interface

/-- How many octets of a datagram that arrives are taken. `nfnd/src/transport:14–15`. -/
def maxDatagram : Nat := 8192

/-- The socket of an address, with a gap in microseconds between datagrams. `nfnd/src/transport:41–70`. -/
def bind (index : Nat) (address : InterfaceAddress) (interval : Nat) : Interface :=
  { index, address, pacer := { interval } }

/-- Let a datagram wait to be sent. `nfnd/src/transport:122–125`. -/
def queue (interface : Interface) (datagram : Datagram) : Interface :=
  { interface with backlog := interface.backlog ++ [datagram] }

/-- Whether any datagram waits. `nfnd/src/transport:127–129`. -/
def hasBacklog (interface : Interface) : Bool := !interface.backlog.isEmpty

/-- When the next datagram may be sent, if one waits and pacing holds it. `nfnd/src/transport:131–138`. -/
def nextSlot (interface : Interface) : Option Nat :=
  if interface.hasBacklog then interface.pacer.nextSlot else none

/-- Whether a socket can send to a peer of this kind at all. `nfnd/src/transport:157–166`. -/
def reaches (interface : Interface) (peer : Peer) : Bool :=
  match interface.address, peer with
  | .udp _, .udp _ | .unix _, .unix _ => true
  | _, _ => false

/-- Split off the datagrams that pacing lets go at an instant. `nfnd/src/transport:142–155`. -/
def release (now : Nat) : Pacer → List Datagram → List Datagram × Pacer × List Datagram
  | pacer, [] => ([], pacer, [])
  | pacer, datagram :: backlog =>
    if pacer.ready now then
      let (released, pacer, backlog) := release now (pacer.sent now) backlog
      (datagram :: released, pacer, backlog)
    else ([], pacer, datagram :: backlog)

/-- Take out the datagrams that are sent at an instant. `nfnd/src/transport:140–155`. -/
def flush (interface : Interface) (now : Nat) : List Datagram × Interface :=
  let (released, pacer, backlog) := release now interface.pacer interface.backlog
  (released, { interface with pacer, backlog })

end Interface

end NamedFunctions
