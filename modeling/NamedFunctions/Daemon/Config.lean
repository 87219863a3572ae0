import NamedFunctions.Document.Relay
import NamedFunctions.Toml

/-!
# The configuration of a daemon

The local sockets that a relay listens on, and the faces and routes that it starts with. Faces refer
to sockets by number and routes refer to faces by name.
-/

namespace NamedFunctions

/-- The address of a local socket. `nfnd/src/config:26–32`. -/
inductive InterfaceAddress where
  | udp (bind : SocketAddress)
  | unix (path : String)
deriving Repr

/-- A face that is there from the start. `nfnd/src/config:34–45`. -/
structure StaticFace where
  /-- Routes refer to it by this name. -/
  name : String
  /-- The number of the local socket. -/
  interface : Nat := 0
  peer : Peer
  flags : FaceFlags := {}
deriving Repr

/-- A route that is there from the start. `nfnd/src/config:47–54`. -/
structure StaticRoute where
  /-- The name that it is for, as a URI. -/
  uri : String
  /-- The name of a face. -/
  face : String
  suite : Suite := default
deriving Repr

/-- What a daemon is told. `nfnd/src/config:14–24`. -/
structure DaemonConfig where
  relay : RelayConfig := {}
  /-- Where encoded data is found that goes into the content store at the start. -/
  dataDirectory : Option String := none
  interfaces : List InterfaceAddress := []
  faces : List StaticFace := []
  routes : List StaticRoute := []
  /-- How much is logged. -/
  logLevel : String := "info"
deriving Repr

/-- Why a configuration is refused. `nfnd/src/config:100–115`. -/
inductive ConfigError where
  | relay (error : RelayError)
  /-- A face refers to a socket that is not among so many. -/
  | unknownInterface (face : String) (interface count : Nat)
  /-- A route refers to a face that is not there. -/
  | unknownFace (uri face : String)
deriving Repr

/-- The text of an error. -/
def ConfigError.message : ConfigError → String
  | relay error => error.message
  | unknownInterface face interface count =>
    "face " ++ face ++ " uses interface " ++ toString interface ++ " but only " ++ toString count ++
      " are configured"
  | unknownFace uri face => "route " ++ uri ++ " refers to unknown face " ++ face

/-- The port of a suite that is used when no socket is configured. `nfnd/src/config:9–12,91–94`. -/
def Suite.udpPort : Suite → UInt16
  | .ccnb | .ccnx2014 => 9695
  | _ => 6363

namespace DaemonConfig

/-- The sockets to listen on: a single one on the port of the suite if none is configured.
`nfnd/src/config:87–98`. -/
def effectiveInterfaces (config : DaemonConfig) : List InterfaceAddress :=
  if config.interfaces.isEmpty then [.udp (.v4 [0, 0, 0, 0] config.relay.suite.udpPort)]
  else config.interfaces

/-- Check that nothing refers to what is not there. `nfnd/src/config:101–115`. -/
def validate (config : DaemonConfig) : Except ConfigError Unit :=
  let count := config.effectiveInterfaces.length
  match config.relay.firstZero, config.faces.find? (count ≤ ·.interface),
    config.routes.find? fun route => config.faces.all (·.name != route.face) with
  | some setting, _, _ => .error (.relay (.invalidConfig setting))
  | none, some face, _ => .error (.unknownInterface face.name face.interface count)
  | none, none, some route => .error (.unknownFace route.uri route.face)
  | none, none, none => .ok ()

end DaemonConfig

open Document

/-- An address of an interface is a record that names its kind. `nfnd/src/config:26–32`. -/
instance : DocumentForm InterfaceAddress where
  toDocument
    | .udp bind => ofTagged "kind" "udp" [("bind", toDocument bind)]
    | .unix path => ofTagged "kind" "unix" [("path", toDocument path)]
  ofDocument? _ d :=
    match taggedChoice? "kind" d with
    | some ("udp", d) => readTagged (return .udp (← field "bind")) d
    | some ("unix", d) => readTagged (return .unix (← field "path")) d
    | _ => none

/-- A face of a configuration is a record. `nfnd/src/config:34–45`. -/
instance : DocumentForm StaticFace where
  toDocument face :=
    record [("name", toDocument face.name), ("interface", toDocument face.interface),
      ("peer", toDocument face.peer), ("flags", toDocument face.flags)]
  ofDocument? := readRecord do
    return {
      name := ← field "name", interface := ← fieldD "interface" 0, peer := ← field "peer",
      flags := ← fieldD "flags" {} }

/-- A route of a configuration is a record; it is of the first suite if it names none.
`nfnd/src/config:47–54`. -/
instance : DocumentForm StaticRoute where
  toDocument route :=
    record [("prefix", toDocument route.uri), ("face", toDocument route.face),
      ("suite", toDocument route.suite)]
  ofDocument? := readRecord do
    return { uri := ← field "prefix", face := ← field "face", suite := ← fieldD "suite" default }

/-- The level of logging in a record of its own. `nfnd/src/config:56–68`. -/
private structure Logging where
  level : String := "info"

private instance : DocumentForm Logging where
  toDocument logging := record [("level", toDocument logging.level)]
  ofDocument? := readRecord do return { level := ← fieldD "level" "info" }

/-- A configuration is a record, with a default for each field. `nfnd/src/config:14–24`. -/
instance : DocumentForm DaemonConfig where
  toDocument c :=
    record [("relay", toDocument c.relay), ("data_dir", toDocument c.dataDirectory),
      ("interfaces", toDocument c.interfaces), ("faces", toDocument c.faces),
      ("routes", toDocument c.routes), ("logging", toDocument (⟨c.logLevel⟩ : Logging))]
  ofDocument? := readRecord do
    return {
      relay := ← fieldD "relay" {}, dataDirectory := ← fieldD "data_dir" none,
      interfaces := ← fieldD "interfaces" [], faces := ← fieldD "faces" [],
      routes := ← fieldD "routes" [], logLevel := (← fieldD "logging" ({} : Logging)).level }

/-- The configuration that a text in TOML spells. `nfnd/src/config:71–83`. -/
def DaemonConfig.ofToml? (text : String) : Option DaemonConfig := (Toml.parse text).bind (ofDocument? .toml)

end NamedFunctions
