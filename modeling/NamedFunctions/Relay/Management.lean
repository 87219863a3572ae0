import NamedFunctions.Relay

/-!
# Management

Commands that change faces, routes and the content store of a running relay, and their replies.
-/

namespace NamedFunctions

/-- What a relay can be told to do. Names are given as URIs. `nfn-relay/src/management:11–47`. -/
inductive Command where
  /-- Add a static face for a peer. -/
  | addFace (interface : Nat) (peer : Peer) (flags : FaceFlags)
  | removeFace (face : FaceId)
  | addRoute (uri : String) (face : FaceId) (suite : Suite)
  | removeRoute (uri : String) (suite : Suite)
  /-- Let cached data no longer count as fresh. -/
  | markStale (uri : String) (suite : Suite)
  /-- Drop all cached data that is not static. -/
  | flushCache
  /-- Bound the content store; without a bound any number of entries, and zero turns caching off. -/
  | setCacheCapacity (entries : Option Nat)
deriving Repr

/-- What a relay replies. `nfn-relay/src/management:49–59`. -/
inductive CommandReply where
  | faceAdded (face : FaceId)
  | faceRemoved (face : FaceId) (computationsDiscarded : Nat)
  | routeAdded (replaced : Bool)
  | routeRemoved (existed : Bool)
  | markedStale (marked : Bool)
  | cacheFlushed (removed : Nat)
  | capacitySet (evicted : Nat)
deriving DecidableEq, Repr

namespace Relay

/-- Do something with the name that a URI spells, unless it cannot be read.
`nfn-relay/src/management:76,82,87`. -/
def withName (r : Relay) (uri : String) (suite : Suite)
    (act : Name → Except RelayError CommandReply × Relay) : Except RelayError CommandReply × Relay :=
  match Name.ofUri uri suite with
  | .ok name => act name
  | .error error => (.error (.invalidName error), r)

/-- Do what a command says. `nfn-relay/src/management:62–103`. -/
def apply (r : Relay) : Command → Except RelayError CommandReply × Relay
  | .addFace interface peer flags =>
    let (face, r) := r.addStaticFace interface peer flags
    (.ok (.faceAdded face), r)
  | .removeFace face =>
    let (discarded, r) := r.removeFace face
    (discarded.map (.faceRemoved face), r)
  | .addRoute uri face suite =>
    r.withName uri suite fun name =>
      let (replaced, r) := r.addRoute name face suite
      (replaced.map .routeAdded, r)
  | .removeRoute uri suite =>
    r.withName uri suite fun name =>
      let (removed, routes) := r.routes.erase name suite
      (.ok (.routeRemoved removed.isSome), { r with routes })
  | .markStale uri suite =>
    r.withName uri suite fun name =>
      let (marked, store) := r.store.markStale name
      (.ok (.markedStale marked), { r with store })
  | .flushCache =>
    let (removed, store) := r.store.flush
    (.ok (.cacheFlushed removed), { r with store })
  | .setCacheCapacity entries =>
    let (evicted, store) := r.store.setCapacity entries
    (.ok (.capacitySet evicted),
      { r with store, config := { r.config with maxCacheEntries := entries } })

end Relay

end NamedFunctions
