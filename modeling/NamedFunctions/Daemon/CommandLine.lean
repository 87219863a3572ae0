import NamedFunctions.Daemon.Config

/-!
# The command line of a daemon

Options with a value, in a short form of one letter and a long form. The value follows as the next
argument or, attached, after an equals sign, which the short form can do without. What is wrong with
an option that waits for its value comes to light only when the next option or the end is reached.
-/

namespace NamedFunctions

/-- What an option sets. `nfnd/src/main:17–91`. -/
inductive Setting where
  | config
  | udpPort
  | unixPath
  | dataDirectory
  | suite
  | cacheEntries
  | interPacketInterval
  | interInterestInterval
  | verbosity
deriving DecidableEq, Repr

namespace Setting

/-- Every option. -/
def all : List Setting :=
  [config, udpPort, unixPath, dataDirectory, suite, cacheEntries, interPacketInterval,
    interInterestInterval, verbosity]

/-- The letter of an option. `nfnd/src/main:21–90`. -/
def short : Setting → Char
  | config => 'f'
  | udpPort => 'u'
  | unixPath => 'x'
  | dataDirectory => 'd'
  | suite => 's'
  | cacheEntries => 'c'
  | interPacketInterval => 'g'
  | interInterestInterval => 'i'
  | verbosity => 'v'

/-- The word of an option. `nfnd/src/main:21–90`. -/
def long : Setting → String
  | config => "config"
  | udpPort => "udp-port"
  | unixPath => "unix-path"
  | dataDirectory => "data-dir"
  | suite => "suite"
  | cacheEntries => "cache-entries"
  | interPacketInterval => "inter-packet-interval"
  | interInterestInterval => "inter-interest-interval"
  | verbosity => "verbosity"

/-- The option of a letter. -/
def ofShort? (letter : Char) : Option Setting := all.find? (·.short == letter)

/-- The option of a word. -/
def ofLong? (word : String) : Option Setting := all.find? (·.long == word)

end Setting

/-- Why a command line does not start a daemon. -/
inductive CommandLineExit where
  /-- It asks for help. -/
  | help
  /-- It asks for the version. -/
  | version
  /-- There is no such option, or an argument that belongs to none. -/
  | unknownArgument (argument : String)
  /-- An option has no value, or an empty path. -/
  | missingValue (setting : Setting)
  /-- The value of an option is no number in its range. -/
  | malformedNumber (setting : Setting) (value : String)
  /-- An option is given twice. -/
  | repeated (setting : Setting)
  /-- A value is attached to an option that takes none. -/
  | unexpectedValue (option : String)
deriving DecidableEq, Repr

/-- The text of what is wrong with a command line. -/
def CommandLineExit.message : CommandLineExit → String
  | help => "options: " ++ " ".intercalate (Setting.all.map fun s => "--" ++ s.long)
  | version => "nfnd 0.1.0"
  | unknownArgument argument => "unexpected argument " ++ Text.quoted argument
  | missingValue setting => "a value is required for --" ++ setting.long
  | malformedNumber setting value =>
    "invalid value " ++ Text.quoted value ++ " for --" ++ setting.long
  | repeated setting => "--" ++ setting.long ++ " cannot be used multiple times"
  | unexpectedValue option => "unexpected value for --" ++ option

/-- What a command line sets. `nfnd/src/main:17–91`. -/
structure Arguments where
  config : Option String := none
  udpPort : Option UInt16 := none
  unixPath : Option String := none
  dataDirectory : Option String := none
  suite : Option String := none
  cacheEntries : Option Nat := none
  interPacketInterval : Option Nat := none
  interInterestInterval : Option Nat := none
  verbosity : Option String := none
deriving DecidableEq, Repr

namespace Arguments

/-- The configuration file. `nfnd/src/main:27`. -/
def configFile (args : Arguments) : String := args.config.getD "/etc/nfn/nfnd.toml"

/-- The number below a bound in a value. A plus sign may stand before it. -/
def natBelow? (bound : Nat) (value : String) : Option Nat :=
  let digits := match value.toList with
    | '+' :: rest => rest
    | text => text
  (Text.numeral? 10 digits).filter (· < bound)

/-- The port in a value. Either sign may stand before it. -/
def port? (value : String) : Option UInt16 :=
  match value.toList with
  | '-' :: digits => ((Text.numeral? 10 digits).filter (· == 0)).map UInt16.ofNat
  | _ => (natBelow? 0x10000 value).map UInt16.ofNat

/-- The value of an option that has none so far. -/
private def once {α : Type} (setting : Setting) (old : Option α) (value : Except CommandLineExit α) :
    Except CommandLineExit (Option α) :=
  if old.isSome then .error (.repeated setting) else value.map some

/-- A path, which is not empty. -/
private def path (setting : Setting) (value : String) : Except CommandLineExit String :=
  if value.isEmpty then .error (.missingValue setting) else .ok value

/-- A number, if there is one. -/
private def number {α : Type} (setting : Setting) (value : String) (n : Option α) :
    Except CommandLineExit α :=
  match n with
  | some n => .ok n
  | none => .error (.malformedNumber setting value)

/-- Give an option its value. -/
def set (args : Arguments) (s : Setting) (value : String) : Except CommandLineExit Arguments :=
  let count := number s value (natBelow? UInt64.size value)
  match s with
  | .config => (once s args.config (.ok value)).map fun v => { args with config := v }
  | .udpPort =>
    (once s args.udpPort (number s value (port? value))).map fun v => { args with udpPort := v }
  | .unixPath => (once s args.unixPath (path s value)).map fun v => { args with unixPath := v }
  | .dataDirectory =>
    (once s args.dataDirectory (path s value)).map fun v => { args with dataDirectory := v }
  | .suite => (once s args.suite (.ok value)).map fun v => { args with suite := v }
  | .cacheEntries => (once s args.cacheEntries count).map fun v => { args with cacheEntries := v }
  | .interPacketInterval =>
    (once s args.interPacketInterval count).map fun v => { args with interPacketInterval := v }
  | .interInterestInterval =>
    (once s args.interInterestInterval count).map fun v => { args with interInterestInterval := v }
  | .verbosity => (once s args.verbosity (.ok value)).map fun v => { args with verbosity := v }

/-- An option whose value has not been looked at. -/
structure Pending where
  setting : Setting
  value : Option String := none

/-- Give the option that waits its value. -/
def settle (args : Arguments) : Option Pending → Except CommandLineExit Arguments
  | none => .ok args
  | some ⟨s, none⟩ => .error (.missingValue s)
  | some ⟨s, some value⟩ => args.set s value

/-- An argument by its form. -/
inductive Form where
  /-- All that follows belongs to no option. -/
  | separator
  /-- An option in its long form, with the value that is attached. -/
  | long (word : String) (value : Option String)
  /-- An option in its short form, with what is attached. -/
  | short (letter : Char) (attached : List Char)
  /-- Neither. -/
  | plain

/-- The form of an argument. -/
def Form.of (argument : String) : Form :=
  match argument.toList with
  | ['-', '-'] => .separator
  | '-' :: '-' :: text =>
    let word := text.takeWhile (· != '=')
    .long (String.ofList word) ((text.drop word.length).tail?.map String.ofList)
  | '-' :: letter :: attached => .short letter attached
  | _ => .plain

/-- The value that is attached to an option in its short form. -/
def attachedValue : List Char → Option String
  | [] => none
  | '=' :: value => some (String.ofList value)
  | value => some (String.ofList value)

/-- An option that is met: with its value if that is attached, waiting for it otherwise. -/
private def meet (args : Arguments) (s : Setting) :
    Option String → Except CommandLineExit (Arguments × Option Pending)
  | none => .ok (args, some { setting := s })
  | some value => (args.set s value).map (·, none)

/-- Read arguments from the left. -/
def read (args : Arguments) (pending : Option Pending) :
    List String → Except CommandLineExit Arguments
  | [] => args.settle pending
  | argument :: rest =>
    let next (option : Option Setting) (value : Option String) :
        Except CommandLineExit (Arguments × Option Pending) := do
      match option with
      | none => .error (.unknownArgument argument)
      | some s => (← args.settle pending).meet s value
    match Form.of argument, pending with
    | .separator, _ =>
      match rest with
      | [] => args.settle pending
      | argument :: _ => .error (.unknownArgument argument)
    | .long "help" none, _ => args.settle pending >>= fun _ => .error .help
    | .long "version" none, _ => args.settle pending >>= fun _ => .error .version
    | .long "help" (some _), _ => .error (.unexpectedValue "help")
    | .long "version" (some _), _ => .error (.unexpectedValue "version")
    | .long word value, _ => do
      let (args, pending) ← next (Setting.ofLong? word) value
      args.read pending rest
    | .short 'h' _, _ => args.settle pending >>= fun _ => .error .help
    | .short 'V' _, _ => args.settle pending >>= fun _ => .error .version
    | .short letter attached, _ => do
      let (args, pending) ← next (Setting.ofShort? letter) (attachedValue attached)
      args.read pending rest
    | .plain, some ⟨s, none⟩ => args.read (some ⟨s, some argument⟩) rest
    | .plain, _ => .error (.unknownArgument argument)

/-- Read a command line, without the name of the program. -/
def ofCommandLine (arguments : List String) : Except CommandLineExit Arguments :=
  read {} none arguments

end Arguments

/-- The configuration with what the command line sets in place of its own. Sockets are added to those that are
configured. `nfnd/src/main:94–122`. -/
def DaemonConfig.override (config : DaemonConfig) (args : Arguments) :
    Except NameError DaemonConfig := do
  let suite ← match args.suite with
    | some word => Suite.parse word
    | none => .ok config.relay.suite
  let relay := config.relay
  return { config with
    relay := { relay with
      suite
      maxCacheEntries := args.cacheEntries <|> relay.maxCacheEntries
      interPacketInterval := args.interPacketInterval.getD relay.interPacketInterval
      interInterestInterval := args.interInterestInterval.getD relay.interInterestInterval }
    dataDirectory := args.dataDirectory <|> config.dataDirectory
    interfaces :=
      config.interfaces ++ (args.udpPort.map fun port => .udp (.v4 [0, 0, 0, 0] port)).toList ++
        (args.unixPath.map .unix).toList
    logLevel := args.verbosity.getD config.logLevel }

end NamedFunctions
