import NamedFunctions.Proofs.Document
import NamedFunctions.Relay.Aging
import NamedFunctions.Relay.Forwarding

/-!
# What is asked of a relay

All that happens to a relay from outside is one of a few operations. A relay is reachable if it comes
about from a new one by operations.
-/

namespace NamedFunctions

/-- What can be asked of a relay. -/
inductive Operation where
  | faceForPeer (interface : Nat) (peer : Peer)
  | addStaticFace (interface : Nat) (peer : Peer) (flags : FaceFlags)
  | removeFace (face : FaceId)
  | addRoute (name : Name) (face : FaceId) (suite : Suite)
  | cacheContent (content : Content) (isStatic : Bool)
  | drainReady (now : Nat)
  | handleInterest (source : FaceId) (interest : Interest)
  | handleContent (source : FaceId) (content : Content)
  | tick
  | apply (command : Command)

namespace Operation

/-- Whether an operation marks no face as one that has the data in delivery. Relays set and take that
mark themselves; it is no part of the documents that flags are read from. -/
def IsUnmarked : Operation → Prop
  | addStaticFace _ _ flags => flags.served = false
  | apply (.addFace _ _ flags) => flags.served = false
  | _ => True

open Document in
/-- A command that is read from a document marks no face. -/
theorem isUnmarked_of_ofDocument? {dialect : Dialect} {d : Document} {command : Command}
    (h : ofDocument? dialect d = some command) : (apply command).IsUnmarked := by
  have hread {reader : RecordReader Command} {d : Document}
      (h : readTagged reader d = some command)
      (hreader : Returns (fun c => (apply c).IsUnmarked) reader) : (apply command).IsUnmarked :=
    hreader.readRecord h
  dsimp only [ofDocument?, instDocumentFormCommand] at h
  split at h
  · refine hread h (.after fun _ => .after fun _ => ?_)
    have hflags : Returns (fun flags : FaceFlags => flags.served = false) (fieldD "flags" {}) :=
      .fieldD rfl fun _ _ _ => served_of_ofDocument?
    exact hflags.bind fun _ hserved => .pure hserved
  · exact hread h (.after fun _ => .pure trivial)
  · exact hread h (.after fun _ => .after fun _ => .after fun _ => .pure trivial)
  · exact hread h (.after fun _ => .after fun _ => .pure trivial)
  · exact hread h (.after fun _ => .after fun _ => .pure trivial)
  · exact hread h (.pure trivial)
  · exact hread h (.after fun _ => .pure trivial)
  · cases h

/-- What the peers of a relay and the passing of time ask of it. -/
def IsUnmanaged : Operation → Prop
  | faceForPeer .. => True
  | drainReady _ => True
  | handleInterest .. => True
  | handleContent .. => True
  | tick => True
  | _ => False

/-- The face that an operation is told to remove, if any. -/
def removed? : Operation → Option FaceId
  | removeFace face => some face
  | apply (.removeFace face) => some face
  | _ => none

/-- Only commands remove faces. -/
theorem removed?_of_isUnmanaged {op : Operation} (h : op.IsUnmanaged) : op.removed? = none := by
  cases op with
  | removeFace => cases h
  | apply => cases h
  | _ => rfl

end Operation

namespace Relay

/-- The relay after an operation, whatever that answers. -/
def perform (r : Relay) : Operation → Relay
  | .faceForPeer interface peer => (r.faceForPeer interface peer).2
  | .addStaticFace interface peer flags => (r.addStaticFace interface peer flags).2
  | .removeFace face => (r.removeFace face).2
  | .addRoute name face suite => (r.addRoute name face suite).2
  | .cacheContent content isStatic => (r.cacheContent content isStatic).2
  | .drainReady now => (r.drainReady now).2
  | .handleInterest source interest => (r.handleInterest source interest).2
  | .handleContent source content => (r.handleContent source content).2
  | .tick => r.tick.2
  | .apply command => (r.apply command).2

/-- The relay after some operations, the first of them first. -/
def performAll (r : Relay) (ops : List Operation) : Relay := ops.foldl perform r

/-- A new relay has empty tables. -/
theorem eq_of_new {config : RelayConfig} {source : NonceSource} {r : Relay}
    (h : Relay.new config source = .ok r) :
    r =
      { config
        faces := { queueCapacity := config.faceQueueCapacity, interval := config.interInterestInterval }
        store := { capacity := config.maxCacheEntries }
        nonces := { capacity := config.maxNonces }
        computations := { stepLimit := config.stepLimit }
        source } := by
  unfold Relay.new at h
  split at h
  · cases h
  · exact (Except.ok.inj h).symm

/-- A relay that could be set up has settings that are not zero. -/
theorem value_pos_of_new {config : RelayConfig} {source : NonceSource} {r : Relay}
    (h : Relay.new config source = .ok r) (setting : PositiveSetting) : 0 < setting.value config := by
  unfold Relay.new at h
  split at h
  · cases h
  · next hzero =>
    have hall : setting ∈ PositiveSetting.all := by cases setting <;> decide
    have hne := List.find?_eq_none.mp hzero setting hall
    exact Nat.pos_of_ne_zero fun h => hne (by rw [h]; rfl)

/-- The relays that come about from new ones by operations of some kind, in any number and order. -/
inductive ReachableBy (kind : Operation → Prop) : Relay → Prop where
  | new {config : RelayConfig} {source : NonceSource} {r : Relay}
      (hr : Relay.new config source = .ok r) : ReachableBy kind r
  | perform {r : Relay} {op : Operation} (hr : ReachableBy kind r) (hop : kind op) :
      ReachableBy kind (r.perform op)

/-- The relays that come about from new ones by any operations. -/
abbrev Reachable : Relay → Prop := ReachableBy fun _ => True

/-- What can be reached by fewer kinds of operations can be reached by more. -/
theorem ReachableBy.mono {kind kind' : Operation → Prop} {r : Relay} (hr : ReachableBy kind r)
    (hkind : ∀ op, kind op → kind' op) : ReachableBy kind' r := by
  induction hr with
  | new hr => exact .new hr
  | perform _ hop ih => exact .perform ih (hkind _ hop)

/-- A relay that can be reached leads to others by operations of the kind. -/
theorem ReachableBy.performAll {kind : Operation → Prop} {r : Relay} (hr : ReachableBy kind r)
    {ops : List Operation} (hops : ∀ op ∈ ops, kind op) : ReachableBy kind (r.performAll ops) := by
  induction ops generalizing r with
  | nil => exact hr
  | cons op ops ih =>
    have hop := hops op List.mem_cons_self
    exact ih (.perform hr hop) fun op hmem => hops op (List.mem_cons_of_mem _ hmem)

end Relay

end NamedFunctions
