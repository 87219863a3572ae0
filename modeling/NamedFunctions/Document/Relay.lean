import NamedFunctions.Document.Packet
import NamedFunctions.Relay.Management

/-!
# Settings and messages of a relay as documents
-/

namespace NamedFunctions

open Document

/-- The address of a socket is spelled as it is shown. -/
instance : DocumentForm SocketAddress where
  toDocument address := text address.toString
  ofDocument?
    | _, text s => SocketAddress.ofString? s
    | _, _ => none

/-- A peer is an address or a path under the name of its kind. `nfn-relay/src/face:22–28`. -/
instance : DocumentForm Peer where
  toDocument
    | .udp address => ofChoice "udp" address
    | .unix path => ofChoice "unix" path
  ofDocument? dialect d :=
    match choice? d with
    | some ("udp", some d) => (ofDocument? dialect d).map .udp
    | some ("unix", some d) => (ofDocument? dialect d).map .unix
    | _ => none

/-- Which faces have the data in delivery is never part of a document. `nfn-relay/src/face:39–53`. -/
instance : DocumentForm FaceFlags where
  toDocument flags :=
    record [("static", toDocument flags.isStatic), ("reflect", toDocument flags.reflect),
      ("forward_all", toDocument flags.forwardAll)]
  ofDocument? := readRecord do
    return {
      isStatic := ← fieldD "static" false, reflect := ← fieldD "reflect" false,
      forwardAll := ← fieldD "forward_all" false }

/-- The number of a face is a number of 32 bits. `nfn-relay/src/face:11–14`. -/
instance : DocumentForm FaceId where
  toDocument id := toDocument id.val
  ofDocument? dialect d := (ofDocument? dialect d).map FaceId.mk

/-- The words of the settings are those of a configuration file. Each has its default.
`nfn-relay/src/config:8–40`. -/
instance : DocumentForm RelayConfig where
  toDocument c :=
    record [("suite", toDocument c.suite), ("max_cache_entries", toDocument c.maxCacheEntries),
      ("face_queue_capacity", toDocument c.faceQueueCapacity),
      ("inter_interest_interval_us", toDocument c.interInterestInterval),
      ("inter_packet_interval_us", toDocument c.interPacketInterval),
      ("tick_interval_ms", toDocument c.tickInterval),
      ("interest_timeout_ticks", toDocument c.interestTimeout),
      ("max_interest_retransmit", toDocument c.maxInterestRetransmit),
      ("content_timeout_ticks", toDocument c.contentTimeout),
      ("face_timeout_ticks", toDocument c.faceTimeout),
      ("nonce_timeout_ticks", toDocument c.nonceTimeout), ("max_nonces", toDocument c.maxNonces),
      ("step_limit", toDocument c.stepLimit)]
  ofDocument? := readRecord do
    let default : RelayConfig := {}
    return {
      suite := ← fieldD "suite" default.suite
      maxCacheEntries := ← fieldD "max_cache_entries" default.maxCacheEntries
      faceQueueCapacity := ← fieldD "face_queue_capacity" default.faceQueueCapacity
      interInterestInterval := ← fieldD "inter_interest_interval_us" default.interInterestInterval
      interPacketInterval := ← fieldD "inter_packet_interval_us" default.interPacketInterval
      tickInterval := ← fieldD "tick_interval_ms" default.tickInterval
      interestTimeout := ← fieldD "interest_timeout_ticks" default.interestTimeout
      maxInterestRetransmit :=
        (← fieldD "max_interest_retransmit" (UInt32.ofNat default.maxInterestRetransmit)).toNat
      contentTimeout := ← fieldD "content_timeout_ticks" default.contentTimeout
      faceTimeout := ← fieldD "face_timeout_ticks" default.faceTimeout
      nonceTimeout := ← fieldD "nonce_timeout_ticks" default.nonceTimeout
      maxNonces := ← fieldD "max_nonces" default.maxNonces
      stepLimit := ← fieldD "step_limit" default.stepLimit }

/-- The word of a command is in its field `command`. `nfn-relay/src/management:11–47`. -/
instance : DocumentForm Command where
  toDocument
    | .addFace interface peer flags =>
      ofTagged "command" "add_face"
        [("ifindex", toDocument interface), ("peer", toDocument peer), ("flags", toDocument flags)]
    | .removeFace face => ofTagged "command" "remove_face" [("face", toDocument face)]
    | .addRoute uri face suite =>
      ofTagged "command" "add_route"
        [("prefix", toDocument uri), ("face", toDocument face), ("suite", toDocument suite)]
    | .removeRoute uri suite =>
      ofTagged "command" "remove_route" [("prefix", toDocument uri), ("suite", toDocument suite)]
    | .markStale uri suite =>
      ofTagged "command" "mark_stale" [("prefix", toDocument uri), ("suite", toDocument suite)]
    | .flushCache => ofTagged "command" "flush_cache" []
    | .setCacheCapacity entries =>
      ofTagged "command" "set_cache_capacity" [("entries", toDocument entries)]
  ofDocument? _ d :=
    match taggedChoice? "command" d with
    | some ("add_face", d) =>
      readTagged (return .addFace (← field "ifindex") (← field "peer") (← fieldD "flags" {})) d
    | some ("remove_face", d) => readTagged (return .removeFace (← field "face")) d
    | some ("add_route", d) =>
      readTagged (return .addRoute (← field "prefix") (← field "face") (← fieldD "suite" default)) d
    | some ("remove_route", d) =>
      readTagged (return .removeRoute (← field "prefix") (← fieldD "suite" default)) d
    | some ("mark_stale", d) =>
      readTagged (return .markStale (← field "prefix") (← fieldD "suite" default)) d
    | some ("flush_cache", d) => readTagged (return .flushCache) d
    | some ("set_cache_capacity", d) => readTagged (return .setCacheCapacity (← field? "entries")) d
    | _ => none

/-- The word of a reply is in its field `reply`. `nfn-relay/src/management:49–59`. -/
instance : DocumentForm CommandReply where
  toDocument
    | .faceAdded face => ofTagged "reply" "face_added" [("face", toDocument face)]
    | .faceRemoved face discarded =>
      ofTagged "reply" "face_removed"
        [("face", toDocument face), ("computations_discarded", toDocument discarded)]
    | .routeAdded replaced => ofTagged "reply" "route_added" [("replaced", toDocument replaced)]
    | .routeRemoved existed => ofTagged "reply" "route_removed" [("existed", toDocument existed)]
    | .markedStale marked => ofTagged "reply" "marked_stale" [("marked", toDocument marked)]
    | .cacheFlushed removed => ofTagged "reply" "cache_flushed" [("removed", toDocument removed)]
    | .capacitySet evicted => ofTagged "reply" "capacity_set" [("evicted", toDocument evicted)]
  ofDocument? _ d :=
    match taggedChoice? "reply" d with
    | some ("face_added", d) => readTagged (return .faceAdded (← field "face")) d
    | some ("face_removed", d) =>
      readTagged (return .faceRemoved (← field "face") (← field "computations_discarded")) d
    | some ("route_added", d) => readTagged (return .routeAdded (← field "replaced")) d
    | some ("route_removed", d) => readTagged (return .routeRemoved (← field "existed")) d
    | some ("marked_stale", d) => readTagged (return .markedStale (← field "marked")) d
    | some ("cache_flushed", d) => readTagged (return .cacheFlushed (← field "removed")) d
    | some ("capacity_set", d) => readTagged (return .capacitySet (← field "evicted")) d
    | _ => none

end NamedFunctions
