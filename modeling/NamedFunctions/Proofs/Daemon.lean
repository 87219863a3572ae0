import NamedFunctions.Daemon
import NamedFunctions.Proofs.Packet.Reading
import NamedFunctions.Proofs.Relay.Stock

/-!
# What daemons come to

All that a daemon does to its relay is done by operations, and all packets in them have been read by the
format of the daemon: from datagrams, or from files at the start. What the relay makes itself is of the
same kind. So the format can carry all that the relay holds.
-/

namespace NamedFunctions

private theorem Interest.Encodable.withNonce {i : Interest} (h : i.Encodable) (nonce : UInt32) :
    (i.withNonce nonce).Encodable := ⟨h.suite, h.classified, h.selectors, h.lifetime⟩

/-- A computation asks for data of the suite of its Interest, with the selectors of this suite. -/
theorem Interest.Encodable.external {origin : Interest} (h : origin.Encodable) {uri : String}
    {name : Name} (hname : Name.ofUri uri origin.name.suite = .ok name) :
    (Interest.ofName name).Encodable := by
  rw [h.suite] at hname
  obtain ⟨components, rfl⟩ := Name.exists_of_ofUri hname
  have hsuite : (Name.ofComponents components).suite = .ndn2013 := Name.suite_classify _
  refine ⟨hsuite, Name.classified_classify _, ⟨{}, ?_⟩, ?_⟩
  · exact congrArg Selectors.ofSuite hsuite
  · rintro d ⟨⟩

/-- The mark of computed results is no matter of the components. -/
theorem Name.Classified.marked {name : Name} (h : name.Classified) :
    Name.Classified { name with flags := { name.flags with computed := true } } := by
  have hmarked : Name.classify { name with flags := { name.flags with computed := true } } =
      { name.classify with flags := { name.classify.flags with computed := true } } := by
    cases h : name.components.reverse with
    | nil => simp [Name.classify, h]
    | cons last before => simp [Name.classify, h]
  rw [Name.Classified, hmarked, h]

/-- The result of a computation is named as its Interest. -/
theorem Interest.Encodable.result {origin : Interest} (h : origin.Encodable) (result : Bytes) :
    (Relay.resultContent origin result).Encodable := by
  refine ⟨h.suite, h.classified.marked, ⟨none, ?_⟩, ?_⟩
  · exact congrArg PublisherDetails.ofSuite h.suite
  · rintro d ⟨⟩

/-- What a relay makes of encodable packets is encodable. -/
theorem closed_encodable : Relay.Closed Interest.Encodable Content.Encodable :=
  ⟨fun nonce h => h.withNonce nonce, fun h hname => h.external hname, fun result h => h.result result⟩

/-- Whether an operation carries packets only that the format can carry. -/
abbrev Operation.IsEncodable : Operation → Prop :=
  Operation.Carries Interest.Encodable Content.Encodable

namespace WireFormat

variable {format : WireFormat} {bytes : Bytes}

/-- Whatever is read can be written again. -/
theorem encodable_of_decode {packet : Packet} (h : format.decode bytes = .ok packet) :
    packet.Encodable := by
  cases format with
  | ndn => exact (Ndn.of_decode h).1.1

end WireFormat

namespace DirectoryEntry

variable {format : WireFormat} {content : Content}

/-- Whether something in a directory is a file, not hidden, of at least two octets that are data. -/
def Holds (format : WireFormat) (file : DirectoryEntry) (content : Content) : Prop :=
  file.isHidden = false ∧
    ∃ bytes, file.contents = some bytes ∧ 2 ≤ bytes.length ∧ format.decode bytes = .ok (.content content)

/-- A file has the data that it holds. -/
theorem content?_eq_some_iff {file : DirectoryEntry} :
    file.content? format = some content ↔ file.Holds format content := by
  unfold content? Holds
  cases file.contents with
  | none => simp
  | some bytes =>
    simp only [Option.some.injEq, exists_eq_left']
    split
    · next hskipped =>
      refine iff_of_false (by simp) fun h => ?_
      simp only [h.1, Bool.false_or, decide_eq_true_eq] at hskipped
      exact Nat.not_lt.mpr h.2.1 hskipped
    · next hkept =>
      simp only [Bool.or_eq_true, decide_eq_true_eq, not_or, Bool.not_eq_true, Nat.not_lt] at hkept
      simp only [hkept.1, hkept.2, true_and]
      split
      · next c hdecode => simp [hdecode]
      · next hother =>
        refine iff_of_false (by simp) fun h => ?_
        exact hother content h

end DirectoryEntry

namespace Relay

variable {r : Relay}

/-- Loading files caches each of them for good. -/
theorem cacheAll_eq (r : Relay) (contents : List Content) :
    (r.cacheAll contents).2 = r.performAll (contents.map fun c => .cacheContent c true) := by
  induction contents generalizing r with
  | nil => rfl
  | cons content rest ih =>
    have hperform : r.performAll ((content :: rest).map fun c => .cacheContent c true) =
        ((r.cacheContent content true).2.cacheAll rest).2 := (ih _).symm
    rw [hperform, cacheAll]
    split
    · next heq => rw [heq]
    · next heq => rw [heq]

/-- The data of a directory is what the format reads. -/
theorem reachable_loadDirectory (hr : ReachableBy Operation.IsEncodable r) (format : WireFormat)
    (listing : List DirectoryEntry) :
    ReachableBy Operation.IsEncodable (r.loadDirectory format listing).2 := by
  rw [loadDirectory, cacheAll_eq]
  apply hr.performAll
  intro op hop
  obtain ⟨content, hcontent, rfl⟩ := List.mem_map.mp hop
  obtain ⟨e, -, hread⟩ := List.mem_filterMap.mp hcontent
  obtain ⟨-, _, -, -, hdecode⟩ := DirectoryEntry.content?_eq_some_iff.mp hread
  exact WireFormat.encodable_of_decode hdecode

/-- Packets are released in rounds, each of which is an operation. -/
theorem reachable_drainAll (hr : ReachableBy Operation.IsEncodable r) (now : Nat) :
    ReachableBy Operation.IsEncodable (r.drainAll now).2 := by
  fun_induction Relay.drainAll r now with
  | case1 r r' heq =>
    have hround : ReachableBy Operation.IsEncodable (r.perform (.drainReady now)) :=
      .perform hr trivial
    rw [perform, heq] at hround
    exact hround
  | case2 r outbound round r' heq _ rounds r'' heq' ih =>
    have hround : ReachableBy Operation.IsEncodable (r.perform (.drainReady now)) :=
      .perform hr trivial
    rw [perform, heq] at hround
    have hrest := ih hround
    rw [heq'] at hrest
    exact hrest

end Relay

namespace Daemon

/-- The faces and routes of a configuration are added by operations. -/
theorem reachable_addFaces {r : Relay} (hr : Relay.ReachableBy Operation.IsEncodable r)
    (faces : List StaticFace) (known : List (String × FaceId)) :
    Relay.ReachableBy Operation.IsEncodable (addFaces r faces known).2 := by
  induction faces generalizing r known with
  | nil => exact hr
  | cons face faces ih =>
    have hadded : Relay.ReachableBy Operation.IsEncodable
        (r.perform (.addStaticFace face.interface face.peer face.flags)) := .perform hr trivial
    exact ih hadded _

private theorem reachable_addRoutes {r : Relay} (hr : Relay.ReachableBy Operation.IsEncodable r)
    (known : List (String × FaceId)) (routes : List StaticRoute) :
    Relay.ReachableBy Operation.IsEncodable (addRoutes known r routes).2 := by
  induction routes generalizing r with
  | nil => exact hr
  | cons route routes ih =>
    unfold addRoutes
    split
    · exact hr
    · next face _ =>
      have hadded : Relay.ReachableBy Operation.IsEncodable
          (r.perform (.apply (.addRoute route.uri face route.suite))) := .perform hr trivial
      rw [Relay.perform] at hadded
      split
      · next heq =>
        rw [heq] at hadded
        exact ih hadded
      · next heq =>
        rw [heq] at hadded
        exact hadded

/-- The daemons that come about from new ones: they may be started, and then datagrams arrive, ticks pass and
packets are sent, in any order. -/
inductive Reachable : Daemon → Prop where
  | new {config : DaemonConfig} {source : NonceSource} {d : Daemon}
      (hd : Daemon.new config source = .ok d) : Reachable d
  /-- Whether or not the daemon starts in full. -/
  | started {config : DaemonConfig} {source : NonceSource} {d : Daemon}
      (hd : Daemon.new config source = .ok d) (listing : Option (List DirectoryEntry)) :
      Reachable (d.start listing).2
  | dispatch {d : Daemon} (hd : Reachable d) (interface : Nat) (peer : Peer) (bytes : Bytes) :
      Reachable (d.dispatch interface peer bytes)
  | tick {d : Daemon} (hd : Reachable d) : Reachable { d with relay := d.relay.tick.2 }
  | transmit {d : Daemon} (hd : Reachable d) (now : Nat) : Reachable (d.transmit now).2

variable {d : Daemon}

/-- A new daemon comes about if its configuration is valid, its relay comes about and its suite can be
written. -/
theorem of_new {config : DaemonConfig} {source : NonceSource} (hd : Daemon.new config source = .ok d) :
    config.validate = .ok () ∧ d.config = config ∧ Relay.new config.relay source = .ok d.relay ∧
      d.interfaces = [] := by
  unfold Daemon.new at hd
  cases hvalid : config.validate with
  | error error =>
    rw [hvalid] at hd
    cases hd
  | ok =>
    cases hrelay : Relay.new config.relay source with
    | error error =>
      rw [hvalid, hrelay] at hd
      cases hd
    | ok relay =>
      cases hformat : WireFormat.ofSuite config.relay.suite with
      | error error =>
        rw [hvalid, hrelay, hformat] at hd
        cases hd
      | ok format =>
        rw [hvalid, hrelay, hformat] at hd
        cases hd
        exact ⟨rfl, rfl, rfl, rfl⟩

/-- The relay of a new daemon is a new one, and no interface is open. -/
theorem reachable_relay_new {config : DaemonConfig} {source : NonceSource}
    (hd : Daemon.new config source = .ok d) :
    Relay.ReachableBy Operation.IsEncodable d.relay ∧ d.interfaces = [] := by
  obtain ⟨-, -, hrelay, hinterfaces⟩ := of_new hd
  exact ⟨.new hrelay, hinterfaces⟩

private theorem reachable_relay_start (hr : Relay.ReachableBy Operation.IsEncodable d.relay)
    (listing : Option (List DirectoryEntry)) :
    Relay.ReachableBy Operation.IsEncodable (d.start listing).2.relay := by
  have hloaded : Relay.ReachableBy Operation.IsEncodable (d.bindInterfaces.loadData listing).2.relay := by
    unfold loadData
    split
    · exact hr
    · exact hr
    · exact Relay.reachable_loadDirectory hr d.format _
  unfold start
  split
  · next heq =>
    rw [heq] at hloaded
    exact hloaded
  · next d' heq =>
    rw [heq] at hloaded
    have hfaces := reachable_addFaces hloaded d'.config.faces []
    exact reachable_addRoutes hfaces _ _

/-- A datagram is an operation on the face of its peer, or nothing. -/
theorem reachable_relay_dispatch (hr : Relay.ReachableBy Operation.IsEncodable d.relay)
    (interface : Nat) (peer : Peer) (bytes : Bytes) :
    Relay.ReachableBy Operation.IsEncodable (d.dispatch interface peer bytes).relay := by
  unfold dispatch
  split
  · exact hr
  · next packet hdecode =>
    have hpacket := WireFormat.encodable_of_decode hdecode
    have hface : Relay.ReachableBy Operation.IsEncodable (d.relay.perform (.faceForPeer interface peer)) :=
      .perform hr trivial
    cases packet with
    | interest i =>
      have hhandled : Relay.ReachableBy Operation.IsEncodable
          ((d.relay.perform (.faceForPeer interface peer)).perform
            (.handleInterest (d.relay.faceForPeer interface peer).1 i)) := .perform hface hpacket
      exact hhandled
    | content c =>
      have hhandled : Relay.ReachableBy Operation.IsEncodable
          ((d.relay.perform (.faceForPeer interface peer)).perform
            (.handleContent (d.relay.faceForPeer interface peer).1 c)) := .perform hface hpacket
      exact hhandled

/-- All that a daemon does to its relay is done by operations with packets that the format can carry. -/
theorem reachable_relay (hd : d.Reachable) : Relay.ReachableBy Operation.IsEncodable d.relay := by
  induction hd with
  | new hd => exact (reachable_relay_new hd).1
  | started hd listing => exact reachable_relay_start (reachable_relay_new hd).1 listing
  | dispatch _ interface peer bytes ih => exact reachable_relay_dispatch ih interface peer bytes
  | @tick d _ ih =>
    have hticked : Relay.ReachableBy Operation.IsEncodable (d.relay.perform .tick) :=
      .perform ih trivial
    exact hticked
  | transmit _ now ih => exact Relay.reachable_drainAll ih now

end Daemon

end NamedFunctions
