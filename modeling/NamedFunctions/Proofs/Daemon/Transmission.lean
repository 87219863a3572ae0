import NamedFunctions.Proofs.Daemon

/-!
# What daemons send

The packets that pacing releases are written and handed to the sockets, each socket lets its datagrams go in
the order in which it got them, and whoever reads them gets the packets that were queued.
-/

namespace NamedFunctions

/-- Whether octets stand for a packet: the format writes them for it, and reads them as the packet without
the mark of computed results, if memory can hold them. -/
structure WireFormat.Carries (format : WireFormat) (packet : Packet) (bytes : Bytes) : Prop where
  written : format.encode packet = .ok bytes
  read : Ndn.InMemory bytes → format.decode bytes = .ok packet.unmarked

private theorem WireFormat.exists_carries (format : WireFormat) {packet : Packet} (h : packet.Encodable) :
    ∃ bytes, format.Carries packet bytes := by
  cases format with
  | ndn =>
    refine ⟨_, Ndn.encode_eq_ok h, fun hmemory => ?_⟩
    have hread := Ndn.decode_encode_append (Ndn.fits_of_inMemory hmemory) h []
    rwa [List.append_nil] at hread

/-- Whether a datagram is what becomes of a packet that is released. -/
structure WireFormat.Hands (format : WireFormat) (o : Outbound) (datagram : Datagram) : Prop where
  peer : datagram.peer = o.peer
  carries : format.Carries o.packet datagram.bytes

namespace Face

/-- A packet that is released was the first on the queue. -/
theorem queue_eq_popReady (face : Face) (now : Nat) :
    face.queue = (face.popReady now).1.toList.map (·.packet) ++ (face.popReady now).2.queue := by
  unfold popReady
  split
  · next hqueue => simp [hqueue]
  · next packet queue hqueue =>
    split
    · simp [hqueue]
    · simp

private theorem id_popReady (face : Face) (now : Nat) : (face.popReady now).2.id = face.id := by
  unfold popReady
  split
  · rfl
  · split
    · rfl
    · rfl

private theorem face_of_popReady {face : Face} {now : Nat} {o : Outbound}
    (h : (face.popReady now).1 = some o) :
    o.face = face.id := by
  unfold popReady at h
  split at h
  · cases h
  · split at h
    · cases h
      rfl
    · cases h

end Face

namespace FaceTable

/-- The packets on the way to a face, among those that are released. -/
def outboundOf (id : FaceId) (os : List Outbound) : List Packet :=
  (os.filter (·.face == id)).map (·.packet)

private theorem outboundOf_append (id : FaceId) (os os' : List Outbound) :
    outboundOf id (os ++ os') = outboundOf id os ++ outboundOf id os' := by
  rw [outboundOf, List.filter_append, List.map_append, outboundOf, outboundOf]

private theorem outboundOf_eq_nil {id : FaceId} {os : List Outbound} (h : ∀ o ∈ os, o.face ≠ id) :
    outboundOf id os = [] := by
  rw [outboundOf, List.filter_eq_nil_iff.mpr, List.map_nil]
  simpa using h

private theorem outboundOf_popReady (face : Face) (now : Nat) :
    outboundOf face.id (face.popReady now).1.toList = (face.popReady now).1.toList.map (·.packet) := by
  cases h : (face.popReady now).1 with
  | none => rfl
  | some o => simp [outboundOf, Face.face_of_popReady h]

/-- What is released of each face was at the front of its queue. -/
theorem queue_eq_popReady {table : FaceTable} (h : table.ids.Nodup) (now : Nat) (id : FaceId) :
    table.queue id =
      outboundOf id (table.popReady now).1 ++ (table.popReady now).2.queue id := by
  unfold queue get? popReady
  unfold ids at h
  dsimp only
  generalize table.faces = faces at h ⊢
  induction faces with
  | nil => rfl
  | cons face faces ih =>
    have hpopped : ((face :: faces).map (·.popReady now)).filterMap (·.1) =
        (face.popReady now).1.toList ++ (faces.map (·.popReady now)).filterMap (·.1) := by
      cases hp : (face.popReady now).1 <;> simp [hp]
    obtain ⟨hnew, hrest⟩ := List.nodup_cons.mp h
    rw [hpopped, outboundOf_append]
    by_cases hid : face.id = id
    · subst hid
      have hothers : outboundOf face.id ((faces.map (·.popReady now)).filterMap (·.1)) = [] := by
        apply outboundOf_eq_nil
        intro o ho heq
        simp only [List.mem_filterMap, List.mem_map] at ho
        obtain ⟨_, ⟨other, hother, rfl⟩, hreleased⟩ := ho
        rw [Face.face_of_popReady hreleased] at heq
        exact hnew (List.mem_map.mpr ⟨other, hother, heq⟩)
      rw [hothers, List.append_nil, outboundOf_popReady]
      simpa [Face.id_popReady] using face.queue_eq_popReady now
    · have hnone : outboundOf id (face.popReady now).1.toList = [] := by
        apply outboundOf_eq_nil
        intro o ho
        rw [Face.face_of_popReady (Option.mem_toList.mp ho)]
        exact hid
      rw [hnone, List.nil_append]
      simpa [Face.id_popReady, hid] using ih hrest

end FaceTable

namespace Daemon

variable {d : Daemon} {now : Nat}

/-- The packets that pacing releases at an instant. -/
def released (d : Daemon) (now : Nat) : List Outbound := (d.relay.drainAll now).1.flatten

/-- What is released of each face was at the front of its queue, in order. -/
theorem queue_drainAll {r : Relay} (h : r.faces.ids.Nodup) (now : Nat) (id : FaceId) :
    r.faces.queue id =
      FaceTable.outboundOf id (r.drainAll now).1.flatten ++ (r.drainAll now).2.faces.queue id := by
  fun_induction Relay.drainAll r now with
  | case1 r r' heq =>
    have hround := FaceTable.queue_eq_popReady h now id
    have hreleased : (r.faces.popReady now).1 = [] := congrArg Prod.fst heq
    have hleft : (r.drainReady now).2 = r' := congrArg Prod.snd heq
    rw [hreleased] at hround
    exact hleft ▸ hround
  | case2 r first round r' heq _ rounds r'' heq' ih =>
    have hround := FaceTable.queue_eq_popReady h now id
    have hreleased : (r.faces.popReady now).1 = first :: round := congrArg Prod.fst heq
    have hleft : (r.drainReady now).2 = r' := congrArg Prod.snd heq
    have hids : r'.faces.ids = r.faces.ids := by
      rw [← hleft]
      exact congrArg Prod.fst (r.faces.layout_popReady now)
    rw [heq'] at ih
    rw [hround, hreleased, List.flatten_cons, FaceTable.outboundOf_append, List.append_assoc,
      ← ih (hids.symm ▸ h), ← hleft]
    rfl

/-- What is handed to a socket comes to the end of its datagrams, in order. -/
theorem foldl_queueOutbound {format : WireFormat} {os : List Outbound}
    (hos : ∀ o ∈ os, o.packet.Encodable) {interfaces : List Interface} {i : Nat}
    {interface : Interface} (hi : interfaces[i]? = some interface) :
    ∃ handed, List.Forall₂ format.Hands (os.filter (·.interface == i)) handed ∧
      (os.foldl (queueOutbound format) interfaces)[i]? =
        some { interface with backlog := interface.backlog ++ handed } := by
  induction os generalizing interfaces interface with
  | nil => exact ⟨[], .nil, by simpa using hi⟩
  | cons o os ih =>
    obtain ⟨ho, hos⟩ := List.forall_mem_cons.mp hos
    obtain ⟨bytes, hbytes⟩ := format.exists_carries ho
    have hqueue : queueOutbound format interfaces o =
        interfaces.modify o.interface (·.queue ⟨o.peer, bytes⟩) := by
      rw [queueOutbound, hbytes.written]
    rw [List.foldl_cons, hqueue]
    by_cases hinterface : o.interface = i
    · subst hinterface
      have hhead : (interfaces.modify o.interface (·.queue ⟨o.peer, bytes⟩))[o.interface]? =
          some (interface.queue ⟨o.peer, bytes⟩) := by
        rw [List.getElem?_modify_eq, hi]
        rfl
      obtain ⟨handed, hhanded, hlast⟩ := ih hos hhead
      refine ⟨⟨o.peer, bytes⟩ :: handed, ?_, ?_⟩
      · rw [List.filter_cons_of_pos (by simp)]
        exact .cons ⟨rfl, hbytes⟩ hhanded
      · rw [hlast]
        simp [Interface.queue]
    · have hhead : (interfaces.modify o.interface (·.queue ⟨o.peer, bytes⟩))[i]? = some interface := by
        rw [List.getElem?_modify_ne _ _ hinterface, hi]
      obtain ⟨handed, hhanded, hlast⟩ := ih hos hhead
      refine ⟨handed, ?_, hlast⟩
      rwa [List.filter_cons_of_neg (by simpa using hinterface)]

end Daemon

namespace Interface

private theorem backlog_release (now : Nat) (pacer : Pacer) (backlog : List Datagram) :
    backlog = (release now pacer backlog).1 ++ (release now pacer backlog).2.2 := by
  induction backlog generalizing pacer with
  | nil => rfl
  | cons datagram backlog ih =>
    unfold release
    split
    · exact congrArg (datagram :: ·) (ih _)
    · rfl

/-- A socket lets its datagrams go in order. -/
theorem backlog_flush (interface : Interface) (now : Nat) :
    interface.backlog = (interface.flush now).1 ++ (interface.flush now).2.backlog :=
  backlog_release now interface.pacer interface.backlog

end Interface

namespace Daemon

variable {now : Nat} {interfaces : List Interface}

/-- The datagrams that a socket sends, among all that are sent. -/
def sentOn (i : Nat) (sent : List Transmission) : List Datagram :=
  (sent.filter (·.interface == i)).map (·.datagram)

private theorem sentOn_append (i : Nat) (sent sent' : List Transmission) :
    sentOn i (sent ++ sent') = sentOn i sent ++ sentOn i sent' := by
  rw [sentOn, List.filter_append, List.map_append, sentOn, sentOn]

private theorem sentOn_eq_nil {i : Nat} {sent : List Transmission} (h : ∀ t ∈ sent, t.interface ≠ i) :
    sentOn i sent = [] := by
  rw [sentOn, List.filter_eq_nil_iff.mpr, List.map_nil]
  simpa using h

private theorem sentOn_self (i : Nat) (datagrams : List Datagram) :
    sentOn i (datagrams.map (⟨i, ·⟩)) = datagrams := by
  simp [sentOn, List.filter_map, Function.comp_def]

/-- Whether sockets have the numbers of their places, from some number on. -/
def NumberedFrom (first : Nat) (interfaces : List Interface) : Prop :=
  interfaces.map (·.index) = List.range' first interfaces.length

private theorem index_of_mem_flushAll {t : Transmission} (h : t ∈ (flushAll now interfaces).1) :
    t.interface ∈ interfaces.map (·.index) := by
  induction interfaces with
  | nil => exact absurd h List.not_mem_nil
  | cons interface rest ih =>
    rcases List.mem_append.mp h with h | h
    · obtain ⟨datagram, -, rfl⟩ := List.mem_map.mp h
      exact List.mem_cons_self
    · exact List.mem_cons_of_mem _ (ih h)

/-- Each interface is flushed in its place. -/
theorem getElem?_flushAll (now : Nat) (interfaces : List Interface) (i : Nat) :
    (flushAll now interfaces).2[i]? = interfaces[i]?.map fun x => (x.flush now).2 := by
  induction interfaces generalizing i with
  | nil => rfl
  | cons interface rest ih =>
    cases i with
    | zero => rfl
    | succ i => exact ih i

/-- Each socket sends what it lets go. -/
theorem sentOn_flushAll {first : Nat} (h : NumberedFrom first interfaces) {i : Nat}
    {interface : Interface} (hi : interfaces[i]? = some interface) :
    sentOn (first + i) (flushAll now interfaces).1 = (interface.flush now).1 := by
  induction interfaces generalizing first i with
  | nil => cases hi
  | cons head rest ih =>
    obtain ⟨hhead, hrest⟩ := List.cons.inj h
    have hindex : head.index = first := hhead
    change sentOn _ ((head.flush now).1.map (⟨head.index, ·⟩) ++ (flushAll now rest).1) = _
    rw [sentOn_append]
    cases i with
    | zero =>
      cases hi
      have hothers : sentOn (first + 0) (flushAll now rest).1 = [] := by
        apply sentOn_eq_nil
        intro t ht heq
        have hmem := index_of_mem_flushAll ht
        rw [hrest, heq, List.mem_range'_1] at hmem
        omega
      rw [hothers, hindex, List.append_nil]
      exact sentOn_self first _
    | succ i =>
      have hnone : sentOn (first + (i + 1)) ((head.flush now).1.map (⟨head.index, ·⟩)) = [] := by
        apply sentOn_eq_nil
        intro t ht heq
        obtain ⟨datagram, -, rfl⟩ := List.mem_map.mp ht
        dsimp only at heq
        omega
      have hlast := ih hrest hi
      rw [hnone, List.nil_append, ← hlast]
      congr 1
      omega

private theorem index_queueOutbound (format : WireFormat) (interfaces : List Interface) (o : Outbound) :
    (queueOutbound format interfaces o).map (·.index) = interfaces.map (·.index) := by
  unfold queueOutbound
  split
  · rfl
  · apply List.ext_getElem?
    intro j
    rw [List.getElem?_map, List.getElem?_map, List.getElem?_modify]
    cases interfaces[j]? with
    | none => rfl
    | some interface =>
      simp only [Option.map_some]
      split
      · rfl
      · rfl

/-- Flushing leaves the numbers of the interfaces. -/
theorem index_flushAll (now : Nat) (interfaces : List Interface) :
    (flushAll now interfaces).2.map (·.index) = interfaces.map (·.index) := by
  induction interfaces with
  | nil => rfl
  | cons interface rest ih => exact congrArg (interface.index :: ·) ih

/-- Queueing packets leaves the numbers of the interfaces. -/
theorem index_foldl_queueOutbound (format : WireFormat) (interfaces : List Interface)
    (os : List Outbound) :
    (os.foldl (queueOutbound format) interfaces).map (·.index) = interfaces.map (·.index) := by
  induction os generalizing interfaces with
  | nil => rfl
  | cons o os ih => exact (ih _).trans (index_queueOutbound format interfaces o)

/-- Collecting packets leaves the numbers of the interfaces. -/
theorem index_collect (d : Daemon) (now : Nat) :
    (d.collect now).interfaces.map (·.index) = d.interfaces.map (·.index) :=
  index_foldl_queueOutbound d.format d.interfaces _

/-- Interfaces are numbered in order if others with the same numbers are. -/
theorem NumberedFrom.of_index {first : Nat} {interfaces' : List Interface}
    (h : NumberedFrom first interfaces) (hindex : interfaces'.map (·.index) = interfaces.map (·.index)) :
    NumberedFrom first interfaces' := by
  have hlength : interfaces'.length = interfaces.length := by
    simpa using congrArg List.length hindex
  rw [NumberedFrom, hindex, hlength]
  exact h

/-- Starting binds the interfaces and does no more to them. -/
theorem interfaces_start (d : Daemon) (listing : Option (List DirectoryEntry)) :
    (d.start listing).2.interfaces = d.bindInterfaces.interfaces := by
  have hloaded : (d.bindInterfaces.loadData listing).2.interfaces = d.bindInterfaces.interfaces := by
    unfold loadData
    split
    · rfl
    · rfl
    · rfl
  unfold start
  split
  · next heq =>
    rw [heq] at hloaded
    exact hloaded
  · next heq =>
    rw [heq] at hloaded
    exact hloaded

/-- A packet that arrives leaves the interfaces. -/
theorem interfaces_dispatch (d : Daemon) (interface : Nat) (peer : Peer) (bytes : Bytes) :
    (d.dispatch interface peer bytes).interfaces = d.interfaces := by
  unfold dispatch
  split
  · rfl
  · next packet _ =>
    cases packet with
    | interest => rfl
    | content => rfl

/-- The sockets of a daemon have the numbers of their places. -/
theorem numbered_of_reachable {d : Daemon} (hd : d.Reachable) : NumberedFrom 0 d.interfaces := by
  induction hd with
  | new hd =>
    rw [(reachable_relay_new hd).2]
    rfl
  | @started _ _ d hd listing =>
    rw [interfaces_start, NumberedFrom, bindInterfaces, (reachable_relay_new hd).2]
    simp [Interface.bind, Function.comp_def, List.range'_eq_map_range]
  | dispatch _ interface peer bytes ih => rwa [interfaces_dispatch]
  | tick _ ih => exact ih
  | @transmit d _ now ih =>
    exact ih.of_index ((index_flushAll now _).trans (d.index_collect now))

/-- The format can carry all that a daemon holds. -/
theorem encodable_of_queued {d : Daemon} (hd : d.Reachable) {face : Face}
    (hface : face ∈ d.relay.faces.faces) {packet : Packet} (hpacket : packet ∈ face.queue) :
    packet.Encodable := by
  have hstocks := Relay.stocks_of_reachable closed_encodable (reachable_relay hd)
  have hkind := hstocks.queued face hface packet hpacket
  cases packet with
  | interest i => exact hkind
  | content c => exact hkind

/-- The packets that are released were queued. -/
theorem encodable_of_released {d : Daemon} (hd : d.Reachable) {o : Outbound}
    (ho : o ∈ d.released now) : o.packet.Encodable := by
  have hids := (Relay.laidOut_of_reachable (reachable_relay hd)).faces.nodup
  have hmem : o.packet ∈ d.relay.faces.queue o.face := by
    rw [queue_drainAll hids now o.face]
    exact List.mem_append_left _
      (List.mem_map.mpr ⟨o, List.mem_filter.mpr ⟨ho, beq_self_eq_true o.face⟩, rfl⟩)
  cases hf : d.relay.faces.get? o.face with
  | none =>
    rw [FaceTable.queue, hf] at hmem
    exact absurd hmem List.not_mem_nil
  | some face =>
    rw [FaceTable.queue_of_get? hf] at hmem
    exact encodable_of_queued hd (List.mem_of_find?_eq_some hf) hmem

/-- In every state that a daemon comes to, the format can carry each packet that is queued. When packets
are sent, each that pacing releases was at the front of the queue of its face, it is written and handed to
the socket of that face, and sockets send what they are handed in order. Whoever reads the octets gets the
packet that was queued, without the mark of computed results in its name. -/
theorem carries_of_reachable {d : Daemon} (hd : d.Reachable) :
    (∀ face ∈ d.relay.faces.faces, ∀ packet ∈ face.queue, ∃ bytes, d.format.Carries packet bytes) ∧
      ∀ now,
        (∀ id, d.relay.faces.queue id =
          FaceTable.outboundOf id (d.released now) ++ (d.transmit now).2.relay.faces.queue id) ∧
        ∀ i interface, d.interfaces[i]? = some interface →
          ∃ handed interface',
            List.Forall₂ d.format.Hands ((d.released now).filter (·.interface == i)) handed ∧
            (d.collect now).interfaces[i]? =
              some { interface with backlog := interface.backlog ++ handed } ∧
            (d.transmit now).2.interfaces[i]? = some interface' ∧
            interface.backlog ++ handed = sentOn i (d.transmit now).1 ++ interface'.backlog := by
  have hids := (Relay.laidOut_of_reachable (reachable_relay hd)).faces.nodup
  refine ⟨fun face hface packet hpacket => ?_, fun now => ⟨queue_drainAll hids now, ?_⟩⟩
  · exact d.format.exists_carries (encodable_of_queued hd hface hpacket)
  · intro i interface hi
    have hencodable : ∀ o ∈ d.released now, o.packet.Encodable := fun o => encodable_of_released hd
    obtain ⟨handed, hhanded, hcollected⟩ := foldl_queueOutbound hencodable hi
    have hcollected : (d.collect now).interfaces[i]? =
        some { interface with backlog := interface.backlog ++ handed } := hcollected
    have hflushed := getElem?_flushAll now (d.collect now).interfaces i
    have hnumbered := (numbered_of_reachable hd).of_index (d.index_collect now)
    have hsent : sentOn i (d.transmit now).1 =
        (Interface.flush { interface with backlog := interface.backlog ++ handed } now).1 := by
      rw [← sentOn_flushAll hnumbered hcollected, Nat.zero_add]
      rfl
    rw [hcollected] at hflushed
    refine ⟨handed, _, hhanded, hcollected, hflushed, ?_⟩
    rw [hsent]
    exact Interface.backlog_flush { interface with backlog := interface.backlog ++ handed } now

/-- Data is loaded from a file at the start, and asked for by a datagram. It waits for the one who asked,
and whatever is released goes to the only socket. -/
theorem carries_of_reachable_loaded :
    ∃ (d₀ d : Daemon) (c : Content) (i : Interest),
      Daemon.new { dataDirectory := some "data" } (.ofSeed 0) = .ok d₀ ∧
      c = .ofPayload (.ofComponents [[0x61]]) [0x62] ∧ i = (Interest.ofName c.name).withNonce 7 ∧
      d = (d₀.start (some [⟨"a", some (Ndn.packetElement (.content c)).encode⟩])).2.dispatch 0
        (.unix "b") (Ndn.packetElement (.interest i)).encode ∧
      d.relay.faces.queue ⟨1⟩ = [.content c] ∧ (∃ bytes, d.format.Carries (.content c) bytes) ∧
      ∃ handed, List.Forall₂ d.format.Hands ((d.released 0).filter (·.interface == 0)) handed := by
  have hcarried (d : Daemon) (hd : d.Reachable) (packet : Packet)
      (hqueue : d.relay.faces.queue ⟨1⟩ = [packet]) (hsockets : d.interfaces.length = 1) :
      d.relay.faces.queue ⟨1⟩ = [packet] ∧ (∃ bytes, d.format.Carries packet bytes) ∧
        ∃ handed, List.Forall₂ d.format.Hands ((d.released 0).filter (·.interface == 0)) handed := by
    obtain ⟨hcarries, htransmit⟩ := carries_of_reachable hd
    have hfirst : d.interfaces[0]? = some d.interfaces[0] := List.getElem?_eq_getElem _
    obtain ⟨handed, -, hhanded, -⟩ := (htransmit 0).2 0 _ hfirst
    refine ⟨hqueue, ?_, handed, hhanded⟩
    cases hf : d.relay.faces.get? ⟨1⟩ with
    | none =>
      rw [FaceTable.queue, hf] at hqueue
      cases hqueue
    | some face =>
      rw [FaceTable.queue_of_get? hf] at hqueue
      apply hcarries face (List.mem_of_find?_eq_some hf)
      rw [hqueue]
      exact List.mem_singleton_self packet
  have hnew : Daemon.new { dataDirectory := some "data" } (.ofSeed 0) = .ok _ := rfl
  refine ⟨_, _, _, _, hnew, rfl, rfl, rfl,
    hcarried _ (.dispatch (.started hnew _) _ _ _) _ ?_ ?_⟩
  · decide +kernel
  · decide +kernel

end Daemon

end NamedFunctions
