import NamedFunctions.Daemon.DataDirectory
import NamedFunctions.Daemon.Interface
import NamedFunctions.Relay.Aging
import NamedFunctions.Relay.Forwarding

/-!
# Daemons

A relay with the local sockets that connect it to its peers. Datagrams that arrive are decoded and
handled; afterwards, and whenever pacing allows it, what the relay has queued for its faces is encoded
and sent. Packets that cannot be decoded, encoded or sent are lost.
-/

namespace NamedFunctions

/-- Why there is no daemon for a configuration. `nfnd/src/daemon:27–31`. -/
inductive DaemonError where
  | config (error : ConfigError)
  /-- Packets of the suite cannot be written. -/
  | format (error : WireError)

/-- The text of an error. -/
def DaemonError.message : DaemonError → String
  | config error => error.message
  | format error => error.message

/-- Why a daemon does not start. `nfnd/src/daemon:48–99`. -/
inductive StartError where
  /-- The data directory cannot be read. -/
  | directory (path : String)
  | relay (error : RelayError)
  /-- A route refers to a face that is not there. -/
  | unknownFace (name : String)

/-- The texts of an error and of what caused it, the outermost first. -/
def StartError.chain : StartError → List String
  | directory path => ["opening data directory " ++ path]
  | relay error => error.chain
  | unknownFace name => ["unknown face " ++ name]

/-- A datagram that a socket sends. `nfnd/src/transport:157–166`. -/
structure Transmission where
  /-- The number of the socket. -/
  interface : Nat
  datagram : Datagram
deriving Repr

/-- A relay with its sockets. `nfnd/src/daemon:18–24`. -/
structure Daemon where
  config : DaemonConfig
  relay : Relay
  format : WireFormat
  /-- The sockets that are bound. -/
  interfaces : List Interface := []

namespace Daemon

/-- The daemon of a valid configuration, without any socket. `nfnd/src/daemon:27–38`. -/
def new (config : DaemonConfig) (source : NonceSource) : Except DaemonError Daemon := do
  config.validate.mapError .config
  let relay ← (Relay.new config.relay source).mapError fun error => .config (.relay error)
  let format ← (WireFormat.ofSuite config.relay.suite).mapError .format
  return { config, relay, format }

/-- Bind the sockets of the configuration. `nfnd/src/daemon:55–64`. -/
def bindInterfaces (d : Daemon) : Daemon :=
  let bind := fun (address, index) => Interface.bind index address d.config.relay.interPacketInterval
  { d with interfaces := d.interfaces ++ d.config.effectiveInterfaces.zipIdx.map bind }

/-- Load the data directory, if there is one, from what stands in it. `nfnd/src/daemon:66–68`. -/
def loadData (d : Daemon) (listing : Option (List DirectoryEntry)) :
    Except StartError Unit × Daemon :=
  match d.config.dataDirectory, listing with
  | none, _ => (.ok (), d)
  | some path, none => (.error (.directory path), d)
  | some _, some listing => (.ok (), { d with relay := (d.relay.loadDirectory d.format listing).2 })

/-- Add faces. Returns their numbers by name, the latest first. `nfnd/src/daemon:70–80`. -/
def addFaces (r : Relay) : List StaticFace → List (String × FaceId) → List (String × FaceId) × Relay
  | [], known => (known, r)
  | face :: faces, known =>
    let (id, r) := r.addStaticFace face.interface face.peer face.flags
    addFaces r faces ((face.name, id) :: known)

/-- Add routes up to the first that cannot be added. `nfnd/src/daemon:81–90`. -/
def addRoutes (known : List (String × FaceId)) (r : Relay) :
    List StaticRoute → Except StartError Unit × Relay
  | [] => (.ok (), r)
  | route :: routes =>
    match known.lookup route.face with
    | none => (.error (.unknownFace route.face), r)
    | some face =>
      match r.apply (.addRoute route.uri face route.suite) with
      | (.ok _, r) => addRoutes known r routes
      | (.error error, r) => (.error (.relay error), r)

/-- Start: bind the sockets, load the data, and add the faces and routes of the configuration. What precedes a
failure stays done. `nfnd/src/daemon:48–99`. -/
def start (d : Daemon) (listing : Option (List DirectoryEntry)) : Except StartError Unit × Daemon :=
  match d.bindInterfaces.loadData listing with
  | (.error error, d) => (.error error, d)
  | (.ok (), d) =>
    let (known, relay) := addFaces d.relay d.config.faces []
    let (result, relay) := addRoutes known relay d.config.routes
    (result, { d with relay })

/-- Stop: close the sockets, with all that waits to be sent on them. `nfnd/src/daemon:203–216`. -/
def stop (d : Daemon) : Daemon := { d with interfaces := [] }

/-- Handle a datagram that arrived from a peer on a socket. `nfnd/src/daemon:141–163`. -/
def dispatch (d : Daemon) (interface : Nat) (peer : Peer) (bytes : Bytes) : Daemon :=
  match d.format.decode bytes with
  | .error _ => d
  | .ok packet =>
    let (face, relay) := d.relay.faceForPeer interface peer
    match packet with
    | .interest interest => { d with relay := (relay.handleInterest face interest).2 }
    | .content content => { d with relay := (relay.handleContent face content).2 }

/-- Let the datagram of a packet wait on the socket of its face. `nfnd/src/daemon:174–186`. -/
def queueOutbound (format : WireFormat) (interfaces : List Interface) (o : Outbound) :
    List Interface :=
  match format.encode o.packet with
  | .error _ => interfaces
  | .ok bytes => interfaces.modify o.interface (·.queue ⟨o.peer, bytes⟩)

/-- Move the packets that pacing releases from the faces to the sockets. `nfnd/src/daemon:169–187`. -/
def collect (d : Daemon) (now : Nat) : Daemon :=
  let (rounds, relay) := d.relay.drainAll now
  { d with relay, interfaces := rounds.flatten.foldl (queueOutbound d.format) d.interfaces }

/-- Take out the datagrams that sockets send at an instant, socket after socket. `nfnd/src/daemon:188–190`. -/
def flushAll (now : Nat) : List Interface → List Transmission × List Interface
  | [] => ([], [])
  | interface :: rest =>
    let (released, interface) := interface.flush now
    let (sent, rest) := flushAll now rest
    (released.map (⟨interface.index, ·⟩) ++ sent, interface :: rest)

/-- Send what pacing allows at an instant. `nfnd/src/daemon:165–191`. -/
def transmit (d : Daemon) (now : Nat) : List Transmission × Daemon :=
  let d := d.collect now
  let (sent, interfaces) := flushAll now d.interfaces
  (sent, { d with interfaces })

/-- The earliest instant at which something that pacing holds may be sent. `nfnd/src/daemon:194–200`. -/
def nextWakeup (d : Daemon) : Option Nat :=
  (d.interfaces.filterMap (·.nextSlot) ++ d.relay.faces.nextDeadline.toList).min?

/-- What a running daemon reacts to. `nfnd/src/daemon:120–130`. -/
inductive Event where
  /-- A datagram has arrived. -/
  | datagram (interface : Nat) (peer : Peer) (bytes : Bytes)
  /-- A tick has passed. -/
  | tick
  /-- Something that pacing has held may be sent. -/
  | wakeup

/-- React to an event and send what pacing allows then. Of a datagram that is too long the start is taken.
`nfnd/src/daemon:118–132`. -/
def handle (d : Daemon) (now : Nat) : Event → List Transmission × Daemon
  | .datagram interface peer bytes =>
    (d.dispatch interface peer (bytes.take Interface.maxDatagram)).transmit now
  | .tick => { d with relay := d.relay.tick.2 }.transmit now
  | .wakeup => d.transmit now

end Daemon

end NamedFunctions
