import NamedFunctions.Duration
import NamedFunctions.Suite

/-!
# The settings of a relay

Thresholds of age are counted in ticks.
-/

namespace NamedFunctions

/-- The settings of a relay. `nfn-relay/src/config:8–60`. -/
structure RelayConfig where
  /-- The suite of the relay. -/
  suite : Suite := .ndn2013
  /-- The capacity of the content store; any number if none is given, and zero turns caching off. -/
  maxCacheEntries : Option Nat := none
  /-- How many packets may wait on a face. -/
  faceQueueCapacity : Nat := 64
  /-- The gap between packets from one face, in microseconds. -/
  interInterestInterval : Nat := 0
  /-- The gap between packets from one interface, in microseconds. -/
  interPacketInterval : Nat := 0
  /-- The time from one tick to the next, in milliseconds. -/
  tickInterval : Nat := 1000
  /-- The ticks after which a pending Interest is dropped that nobody has asked for again. -/
  interestTimeout : Nat := 4
  /-- How often a pending Interest is sent again before it is dropped. -/
  maxInterestRetransmit : Nat := 2
  /-- The idle ticks after which data is dropped; zero keeps it. -/
  contentTimeout : Nat := 300
  /-- The idle ticks after which a face is removed. -/
  faceTimeout : Nat := 30
  /-- The ticks that a nonce is known. -/
  nonceTimeout : Nat := 60
  /-- How many nonces are known at most. -/
  maxNonces : Nat := 256
  /-- How many steps a computation may take. -/
  stepLimit : Nat := 100000
deriving DecidableEq, Repr, Inhabited

/-- The settings that may not be zero. `nfn-relay/src/config:79–102`. -/
inductive PositiveSetting where
  | faceQueueCapacity
  | tickInterval
  | interestTimeout
  | maxNonces
  | stepLimit
deriving DecidableEq, Repr

namespace PositiveSetting

/-- The word of a setting. `nfn-relay/src/config:80–100`. -/
def word : PositiveSetting → String
  | faceQueueCapacity => "face_queue_capacity"
  | tickInterval => "tick_interval_ms"
  | interestTimeout => "interest_timeout_ticks"
  | maxNonces => "max_nonces"
  | stepLimit => "step_limit"

/-- The value of a setting. `nfn-relay/src/config:80–98`. -/
def value (config : RelayConfig) : PositiveSetting → Nat
  | faceQueueCapacity => config.faceQueueCapacity
  | tickInterval => config.tickInterval
  | interestTimeout => config.interestTimeout
  | maxNonces => config.maxNonces
  | stepLimit => config.stepLimit

/-- All settings that may not be zero, in the order in which they are checked.
`nfn-relay/src/config:80–98`. -/
def all : List PositiveSetting :=
  [faceQueueCapacity, tickInterval, interestTimeout, maxNonces, stepLimit]

end PositiveSetting

namespace RelayConfig

/-- The first setting that is zero and may not be. `nfn-relay/src/config:79–102`. -/
def firstZero (config : RelayConfig) : Option PositiveSetting :=
  PositiveSetting.all.find? fun setting => setting.value config == 0

/-- Whether data is cached at all. `nfn-relay/src/config:75–77`. -/
def cachingEnabled (config : RelayConfig) : Bool := config.maxCacheEntries != some 0

/-- The time from one tick to the next. `nfn-relay/src/config:71–73`. -/
def tickDuration (config : RelayConfig) : Duration := .ofMilliseconds config.tickInterval

end RelayConfig

end NamedFunctions
