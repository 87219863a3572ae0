import NamedFunctions.Proofs.Daemon.Transmission
import NamedFunctions.Proofs.Relay.Routing

/-!
# A socket for each packet

Faces lead through sockets. Where all of them lead through sockets that are bound, and datagrams arrive on
such sockets only, this stays so as long as a daemon runs: faces are added for the peers of datagrams, and
otherwise they only go away. So each packet that is released finds its socket.
-/

namespace NamedFunctions

/-- A packet that is released goes through the socket of its face. -/
theorem Face.interface_of_popReady {face : Face} {now : Nat} {o : Outbound}
    (h : (face.popReady now).1 = some o) : o.interface = face.interface := by
  rcases face.popReady_cases now with heq | ⟨_, _, -, -, heq⟩
  · rw [heq] at h
    cases h
  · rw [heq] at h
    cases h
    rfl

private theorem Face.interface_popReady (face : Face) (now : Nat) :
    (face.popReady now).2.interface = face.interface := by
  rcases face.popReady_cases now with heq | ⟨_, _, -, -, heq⟩
  · rw [heq]
  · rw [heq]

namespace FaceTable

/-- Whether all faces lead through the first so many sockets. -/
def LeadsBelow (table : FaceTable) (count : Nat) : Prop :=
  ∀ face ∈ table.faces, face.interface < count

namespace LeadsBelow

variable {table table' : FaceTable} {count : Nat}

/-- It matters only where faces lead. -/
theorem of_layout (h : table.LeadsBelow count) (hids : table.ids.Nodup)
    (hlayout : table'.layout = table.layout) : table'.LeadsBelow count := by
  simp only [layout, Prod.mk.injEq] at hlayout
  obtain ⟨hids', -, hplaces⟩ := hlayout
  intro face hface
  have hget : table'.get? face.id = some face := get?_eq_some_of_mem (hids' ▸ hids) hface
  have hplace : table.placeOf face.id = some (face.interface, face.peer) := by
    rw [← hplaces, placeOf, hget, Option.map_some]
  obtain ⟨face', hget', heq⟩ := Option.map_eq_some_iff.mp hplace
  have hbelow := h face' (List.mem_of_find?_eq_some hget')
  rw [(Prod.mk.inj heq).1] at hbelow
  exact hbelow

private theorem erase (h : table.LeadsBelow count) (id : FaceId) : (table.erase id).LeadsBelow count :=
  fun face hface => h face (List.mem_of_mem_filter hface)

private theorem getOrCreate (h : table.LeadsBelow count) {interface : Nat} (hinterface : interface < count)
    (peer : Peer) (now : Nat) : (table.getOrCreate interface peer now).2.LeadsBelow count := by
  unfold FaceTable.getOrCreate
  split
  · exact h
  · exact forall_add h hinterface

/-- What is released goes through the first sockets, and the faces stay where they are. -/
theorem popReady (h : table.LeadsBelow count) (now : Nat) :
    (∀ o ∈ (table.popReady now).1, o.interface < count) ∧
      (table.popReady now).2.LeadsBelow count := by
  constructor
  · intro o ho
    obtain ⟨popped, hpopped, hreleased⟩ := List.mem_filterMap.mp ho
    obtain ⟨face, hface, rfl⟩ := List.mem_map.mp hpopped
    rw [Face.interface_of_popReady hreleased]
    exact h face hface
  · intro face' hface'
    obtain ⟨popped, hpopped, rfl⟩ := List.mem_map.mp hface'
    obtain ⟨face, hface, rfl⟩ := List.mem_map.mp hpopped
    rw [Face.interface_popReady]
    exact h face hface

end LeadsBelow

end FaceTable

namespace Relay

variable {kind : Operation → Prop} {r : Relay} {count : Nat}

/-- A tick removes faces at most. -/
theorem leadsBelow_tick (hr : ReachableBy kind r) (h : r.faces.LeadsBelow count) :
    r.tick.2.faces.LeadsBelow count := by
  have haged : LaidOut r.aged.2 ∧ r.aged.2.faces.LeadsBelow count := by
    refine r.aged_induction (motive := fun s => LaidOut s ∧ s.faces.LeadsBelow count)
      ⟨(laidOut_of_reachable hr).of_layout rfl, h⟩
      (fun s id hs => ⟨(Shifted.removeFace s id).sound hs.1, ?_⟩)
      fun s store hs => ⟨hs.1.of_layout rfl, hs.2⟩
    exact removeFace_induction (motive := fun t => t.faces.LeadsBelow count) s id (fun _ => hs.2)
      fun _ _ => hs.2.erase id
  exact haged.2.of_layout haged.1.faces.nodup (congrArg Prod.snd (r.layout_perform .tick))

/-- All packets that are released go through the first sockets. -/
theorem leadsBelow_drainAll (h : r.faces.LeadsBelow count) (now : Nat) :
    (∀ o ∈ (r.drainAll now).1.flatten, o.interface < count) ∧
      (r.drainAll now).2.faces.LeadsBelow count := by
  fun_induction Relay.drainAll r now with
  | case1 r r' heq =>
    have hround := h.popReady now
    have hleft : (r.drainReady now).2 = r' := congrArg Prod.snd heq
    exact ⟨fun o ho => absurd ho List.not_mem_nil, hleft ▸ hround.2⟩
  | case2 r first round r' heq _ rounds r'' heq' ih =>
    have hround := h.popReady now
    have hreleased : (r.faces.popReady now).1 = first :: round := congrArg Prod.fst heq
    have hleft : (r.drainReady now).2 = r' := congrArg Prod.snd heq
    obtain ⟨hrest, hlast⟩ := ih (hleft ▸ hround.2)
    rw [heq'] at hrest hlast
    refine ⟨fun o ho => ?_, hlast⟩
    rw [List.flatten_cons] at ho
    rcases List.mem_append.mp ho with ho | ho
    · exact hround.1 o (hreleased ▸ ho)
    · exact hrest o ho

end Relay

namespace Daemon

variable {d d' : Daemon}

/-- What a daemon comes to while datagrams arrive on sockets that are bound, ticks pass and packets are sent,
in any order. -/
inductive RunsTo (d : Daemon) : Daemon → Prop where
  | refl : RunsTo d d
  | dispatch {d' : Daemon} (h : RunsTo d d') {interface : Nat}
      (hinterface : interface < d'.interfaces.length) (peer : Peer) (bytes : Bytes) :
      RunsTo d (d'.dispatch interface peer bytes)
  | tick {d' : Daemon} (h : RunsTo d d') : RunsTo d { d' with relay := d'.relay.tick.2 }
  | transmit {d' : Daemon} (h : RunsTo d d') (now : Nat) : RunsTo d (d'.transmit now).2

/-- A run of a daemon that can be reached leads to one. -/
theorem RunsTo.reachable (h : RunsTo d d') (hd : d.Reachable) : d'.Reachable := by
  induction h with
  | refl => exact hd
  | dispatch _ _ peer bytes ih => exact .dispatch ih _ peer bytes
  | tick _ ih => exact .tick ih
  | transmit _ now ih => exact .transmit ih now

/-- Whether all faces lead through sockets that are bound. -/
def Connected (d : Daemon) : Prop := d.relay.faces.LeadsBelow d.interfaces.length

/-- The face of the peer is there or is added; what the packet sets off leaves the faces where they are. -/
theorem Connected.dispatch (h : d.Connected) (hd : d.Reachable) {interface : Nat}
    (hinterface : interface < d.interfaces.length) (peer : Peer) (bytes : Bytes) :
    (d.dispatch interface peer bytes).Connected := by
  rw [Connected, interfaces_dispatch]
  have hfaces := h.getOrCreate hinterface peer d.relay.clock
  have hnodup : (d.relay.faceForPeer interface peer).2.faces.ids.Nodup :=
    ((Relay.laidOut_of_reachable (reachable_relay hd)).faces.getOrCreate interface peer _).nodup
  unfold Daemon.dispatch
  split
  · exact h
  · next packet _ =>
    cases packet with
    | interest i =>
      exact hfaces.of_layout hnodup (congrArg Prod.snd (Relay.layout_handleInterest _ _ i))
    | content c =>
      exact hfaces.of_layout hnodup (congrArg Prod.snd (Relay.layout_handleContent _ _ c))

private theorem length_transmit (d : Daemon) (now : Nat) :
    (d.transmit now).2.interfaces.length = d.interfaces.length := by
  have hlength := congrArg List.length ((index_flushAll now _).trans (d.index_collect now))
  rw [List.length_map, List.length_map] at hlength
  exact hlength

private theorem Connected.transmit (h : d.Connected) (now : Nat) : (d.transmit now).2.Connected := by
  rw [Connected, length_transmit]
  exact (Relay.leadsBelow_drainAll h now).2

/-- All faces lead through sockets that are bound as long as a daemon runs. -/
theorem connected_of_runsTo (h : RunsTo d d') (hd : d.Reachable) (hconnected : d.Connected) :
    d'.Connected := by
  induction h with
  | refl => exact hconnected
  | dispatch h hinterface peer bytes ih => exact ih.dispatch (h.reachable hd) hinterface peer bytes
  | @tick d' h ih => exact Relay.leadsBelow_tick (reachable_relay (h.reachable hd)) ih
  | transmit _ now ih => exact ih.transmit now

/-- Below the number of the sockets there is a socket of each number. -/
theorem exists_socket_of_lt {interfaces : List Interface} (h : NumberedFrom 0 interfaces) {i : Nat}
    (hi : i < interfaces.length) : ∃ socket, interfaces[i]? = some socket ∧ socket.index = i := by
  have hplace := congrArg (·[i]?) h
  refine ⟨_, List.getElem?_eq_getElem hi, ?_⟩
  simpa [hi] using hplace

/-- Whenever packets are sent, each of them finds its socket when its turn comes. -/
theorem exists_socket_of_released (hd : d.Reachable) (h : d.Connected) {now : Nat}
    {before after : List Outbound} {o : Outbound} (hsplit : d.released now = before ++ o :: after) :
    ∃ socket, (before.foldl (queueOutbound d.format) d.interfaces)[o.interface]? = some socket ∧
      socket.index = o.interface := by
  have hindex := index_foldl_queueOutbound d.format d.interfaces before
  have hlength := congrArg List.length hindex
  rw [List.length_map, List.length_map] at hlength
  have hmem : o ∈ d.released now := hsplit ▸ List.mem_append_right before List.mem_cons_self
  have hbelow := (Relay.leadsBelow_drainAll h now).1 o hmem
  exact exists_socket_of_lt ((numbered_of_reachable hd).of_index hindex) (hlength ▸ hbelow)

end Daemon

end NamedFunctions
