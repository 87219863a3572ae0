import NamedFunctions.Proofs.Relay.Traffic

/-!
# What relays hold

Interests are pending, on queues, and those for which computations work; data is in the store and on queues.
If all that comes from outside is of a certain kind, and this kind is kept where relays make Interests and
data themselves, then all that a relay holds is of this kind.
-/

namespace NamedFunctions

/-- Whether a packet is an Interest or data of certain kinds. -/
def Packet.Satisfies (asked : Interest → Prop) (given : Content → Prop) : Packet → Prop
  | interest i => asked i
  | content c => given c

/-- Whether the packets that an operation is about are of certain kinds. -/
def Operation.Carries (asked : Interest → Prop) (given : Content → Prop) : Operation → Prop
  | handleInterest _ interest => asked interest
  | handleContent _ content => given content
  | cacheContent content _ => given content
  | _ => True

namespace FaceTable

/-- Whether all packets on queues are of some kind. -/
def Queues (kind : Packet → Prop) (table : FaceTable) : Prop :=
  ∀ face ∈ table.faces, ∀ packet ∈ face.queue, kind packet

namespace Queues

variable {kind : Packet → Prop} {table : FaceTable}

/-- Faces may change as long as their queues get no packets of another kind. -/
theorem map (h : table.Queues kind) {change : Face → Face}
    (hchange : ∀ face, ∀ packet ∈ (change face).queue, packet ∈ face.queue) :
    Queues kind { table with faces := table.faces.map change } := by
  intro face' hface' packet hpacket
  obtain ⟨face, hface, rfl⟩ := List.mem_map.mp hface'
  exact h face hface packet (hchange face packet hpacket)

private theorem modify (h : table.Queues kind) (id : FaceId) {change : Face → Face}
    (hchange : ∀ face, (change face).queue = face.queue) :
    (table.modify id change).Queues kind := by
  apply h.map
  intro face packet hpacket
  split at hpacket
  · rwa [hchange] at hpacket
  · exact hpacket

private theorem clearServed (h : table.Queues kind) : table.clearServed.Queues kind :=
  h.map fun _ _ hpacket => hpacket

private theorem erase (h : table.Queues kind) (id : FaceId) : (table.erase id).Queues kind :=
  fun face hface => h face (List.mem_of_mem_filter hface)

private theorem add (h : table.Queues kind) (interface : Nat) (peer : Peer) (flags : FaceFlags) (now : Nat) :
    (table.add interface peer flags now).2.Queues kind :=
  forall_add h fun _ hpacket => absurd hpacket List.not_mem_nil

private theorem getOrCreate (h : table.Queues kind) (interface : Nat) (peer : Peer) (now : Nat) :
    (table.getOrCreate interface peer now).2.Queues kind := by
  unfold FaceTable.getOrCreate
  split
  · exact h
  · exact h.add interface peer {} now

private theorem create (h : table.Queues kind) (interface : Nat) (peer : Peer) (flags : FaceFlags)
    (now : Nat) : (table.create interface peer flags now).2.Queues kind := by
  unfold FaceTable.create
  split
  · exact h.modify _ fun _ => rfl
  · exact h.add interface peer flags now

/-- Packets are released from the queues, and the others stay there. -/
theorem popReady (h : table.Queues kind) (now : Nat) :
    (∀ o ∈ (table.popReady now).1, kind o.packet) ∧ (table.popReady now).2.Queues kind := by
  constructor
  · intro o ho
    simp only [FaceTable.popReady, List.mem_filterMap, List.mem_map] at ho
    obtain ⟨_, ⟨face, hface, rfl⟩, hreleased⟩ := ho
    unfold Face.popReady at hreleased
    split at hreleased
    · cases hreleased
    · next packet queue hqueue =>
      split at hreleased
      · cases hreleased
        exact h face hface packet (hqueue ▸ List.mem_cons_self)
      · cases hreleased
  · intro face' hface' packet hpacket
    simp only [FaceTable.popReady, List.mem_map] at hface'
    obtain ⟨_, ⟨face, hface, rfl⟩, rfl⟩ := hface'
    apply h face hface
    unfold Face.popReady at hpacket
    split at hpacket
    · exact hpacket
    · next first queue hqueue =>
      split at hpacket
      · rw [hqueue]
        exact List.mem_cons_of_mem _ hpacket
      · exact hpacket

/-- A packet of the kind may be queued. -/
theorem enqueue (h : table.Queues kind) {id : FaceId} {face face' : Face}
    (hf : table.get? id = some face) (hqueue : face'.queue = face.queue) {packet : Packet}
    (hpacket : kind packet) :
    (table.modify id fun _ => (face'.enqueue packet).2).Queues kind := by
  have hmem : face ∈ table.faces := List.mem_of_find?_eq_some hf
  intro x hx p hp
  obtain ⟨y, hy, rfl⟩ := List.mem_map.mp hx
  split at hp
  · rw [Face.queue_enqueue, hqueue] at hp
    rcases List.mem_append.mp hp with hp | hp
    · exact h face hmem p hp
    · split at hp
      · exact absurd hp List.not_mem_nil
      · rw [List.mem_singleton.mp hp]
        exact hpacket
  · exact h y hy p hp

private theorem offer {d : Relay.Delivery} (h : d.faces.Queues kind) {content : Content}
    (hcontent : kind (.content content)) (now : Nat) (request : Request) :
    (d.offer content now request).faces.Queues kind := by
  unfold Relay.Delivery.offer
  split
  · split
    · exact h
    · exact h
  · split
    · exact h
    · next face hf =>
      split
      · exact h
      · have hqueue (flags : FaceFlags) : { face with flags, lastUsed := now }.queue = face.queue := rfl
        exact h.enqueue hf (hqueue _) hcontent

private theorem foldl_offer {d : Relay.Delivery} (h : d.faces.Queues kind) {content : Content}
    (hcontent : kind (.content content)) (now : Nat) (requests : List Request) :
    (requests.foldl (Relay.Delivery.offer content now) d).faces.Queues kind := by
  induction requests generalizing d with
  | nil => exact h
  | cons request requests ih => exact ih (h.offer hcontent now request)

end Queues

end FaceTable

namespace Relay

/-- Whether the Interests and the data of some kinds are closed under what relays do with them. -/
structure Closed (asked : Interest → Prop) (given : Content → Prop) : Prop where
  nonce : ∀ {i : Interest} (nonce : UInt32), asked i → asked (i.withNonce nonce)
  external : ∀ {origin : Interest} {uri : String} {name : Name}, asked origin →
    Name.ofUri uri origin.name.suite = .ok name → asked (.ofName name)
  result : ∀ {origin : Interest} (result : Bytes), asked origin → given (resultContent origin result)

/-- Whether all that a relay holds is of some kinds. -/
structure Stocks (asked : Interest → Prop) (given : Content → Prop) (r : Relay) : Prop where
  wellFormed : r.pending.WellFormed
  pending : ∀ e ∈ r.pending.entries, asked e.interest
  stored : ∀ e ∈ r.store.entries, given e.content
  queued : r.faces.Queues (Packet.Satisfies asked given)
  suspended : ∀ c ∈ r.computations.suspended, asked c.origin ∧ ∃ name, c.Awaits name

variable {asked : Interest → Prop} {given : Content → Prop} {r : Relay}

private theorem Stocks.change (h : r.Stocks asked given) {c : ContentStore.Change}
    (hput : ∀ content isStatic now, c = .put content isStatic now → given content) :
    ∀ e ∈ (r.store.change c).entries, given e.content := by
  have hchanged := r.store.changed c
  generalize r.store.change c = store at hchanged
  intro e he
  cases hchanged with
  | marked hmarked =>
    obtain ⟨e₀, he₀, hsame⟩ := ContentStore.exists_of_marked hmarked he
    rw [hsame.content]
    exact h.stored e₀ he₀
  | thinned capacity hthinned => exact h.stored e (hthinned.sublist.subset he)
  | inserted hnone hthinned =>
    rcases List.mem_cons.mp he with rfl | he
    · exact hput _ _ _ rfl
    · exact h.stored e (hthinned.sublist.subset he)
  | replaced hold hne =>
    rcases List.mem_cons.mp he with rfl | he
    · exact hput _ _ _ rfl
    · exact h.stored e (List.mem_of_mem_filter he)

private theorem Stocks.send (h : r.Stocks asked given) (id : FaceId) {packet : Packet}
    (hpacket : packet.Satisfies asked given) : (r.send id packet).2.Stocks asked given := by
  unfold Relay.send
  split
  · exact h
  · next face hf =>
    have hqueue : { face with lastUsed := r.clock }.queue = face.queue := rfl
    exact ⟨h.wellFormed, h.pending, h.stored, h.queued.enqueue hf hqueue hpacket, h.suspended⟩

private theorem Stocks.serve (h : r.Stocks asked given) {content : Content} (hcontent : given content)
    (entries : List PendingEntry) : (r.serve content entries).2.Stocks asked given := by
  have hoffered := FaceTable.Queues.foldl_offer (d := { faces := r.faces }) h.queued hcontent r.clock
    (entries.flatMap (·.requests))
  exact ⟨h.wellFormed, h.pending, h.stored, hoffered.clearServed, h.suspended⟩

/-- Entries that are for the same Interests as others are of the kind too. -/
theorem Stocks.rework (h : r.Stocks asked given) {pending : PendingTable}
    (hwellFormed : pending.WellFormed)
    (hentries : ∀ e' ∈ pending.entries, asked e'.interest ∨
      ∃ e ∈ r.pending.entries, e'.interest = e.interest) :
    Stocks asked given { r with pending } := by
  refine ⟨hwellFormed, fun e' he' => ?_, h.stored, h.queued, h.suspended⟩
  rcases hentries e' he' with hnew | ⟨e, he, hsame⟩
  · exact hnew
  · rw [hsame]
    exact h.pending e he

private theorem Stocks.modify (h : r.Stocks asked given) (id : PendingId)
    {change : PendingEntry → PendingEntry} (hid : ∀ e, (change e).id = e.id)
    (hinterest : ∀ e, (change e).interest = e.interest) :
    Stocks asked given { r with pending := r.pending.modify id change } := by
  refine h.rework (h.wellFormed.modify id hid) fun e' he' => .inr ?_
  obtain ⟨e, he, rfl⟩ := List.mem_map.mp he'
  refine ⟨e, he, ?_⟩
  split
  · exact hinterest e
  · rfl

private theorem Stocks.filter (h : r.Stocks asked given) (keep : PendingEntry → Bool) :
    Stocks asked given
      { r with pending := { r.pending with entries := r.pending.entries.filter keep } } :=
  h.rework (h.wellFormed.filter keep) fun e he => .inr ⟨e, List.mem_of_mem_filter he, rfl⟩

private theorem Stocks.insert (h : r.Stocks asked given) {i : Interest} (hi : asked i)
    (requester : Requester) :
    Stocks asked given { r with pending := (r.pending.insert i requester r.clock).2 } := by
  refine h.rework (h.wellFormed.insert i requester r.clock) fun e he => ?_
  rcases List.mem_append.mp he with he | he
  · exact .inr ⟨e, he, rfl⟩
  · rw [List.mem_singleton.mp he]
    exact .inl hi

/-- Some computations may be discarded. -/
theorem Stocks.discard (h : r.Stocks asked given) (keep : Computation → Bool) :
    Stocks asked given
      { r with
        computations := { r.computations with suspended := r.computations.suspended.filter keep } } :=
  ⟨h.wellFormed, h.pending, h.stored, h.queued,
    fun c hc => h.suspended c (List.mem_of_mem_filter hc)⟩

/-- Packets of the kinds, with all that they set off, leave things of the kinds only. -/
theorem traffic_stocks (hclosed : Closed asked given) :
    Traffic asked given (fun _ => True) (Stocks asked given) where
  nonce := hclosed.nonce
  external := hclosed.external
  result := hclosed.result
  wellFormed h := h.wellFormed
  origin h hc _ := (h.suspended _ hc).1
  same h _ he _ := h.pending _ he
  waiting _ _ _ _ _ := trivial
  aside _ _ _ h := ⟨h.wellFormed, h.pending, h.stored, h.queued, h.suspended⟩
  touch id h := ⟨h.wellFormed, h.pending, h.stored, h.queued.modify id fun _ => rfl, h.suspended⟩
  lookup {r i c store} h hi hlookup := by
    obtain ⟨e, he, rfl, -⟩ := ContentStore.mem_of_lookup hlookup
    have hstored := h.change (c := .lookup i r.clock) (by rintro _ _ _ ⟨⟩)
    rw [← store_of_lookup hlookup] at hstored
    exact ⟨h.stored e he, h.wellFormed, h.pending, hstored, h.queued, h.suspended⟩
  put {r c} isStatic {outcome store} h hc hput := by
    have hstored := h.change (c := .put c isStatic r.clock) (by rintro _ _ _ ⟨⟩; exact hc)
    rw [← store_of_put hput] at hstored
    exact ⟨h.wellFormed, h.pending, hstored, h.queued, h.suspended⟩
  sendInterest id h hi := h.send id hi
  sendContent id h hc := h.send id hc
  serve entries h hc := h.serve hc entries
  insert h hi _ := h.insert hi _
  join _ h _ _ _ := h.modify _ (fun _ => rfl) fun _ => rfl
  erase h _ := h.filter _
  take h _ := h.filter _
  begin h := ⟨trivial, h.wellFormed, h.pending, h.stored, h.queued, h.suspended⟩
  release h _ := h.discard _
  suspend {r c name} h _ hc hname := by
    refine ⟨h.wellFormed, h.pending, h.stored, h.queued, fun c' hc' => ?_⟩
    rcases ComputationTable.mem_insert hc' with rfl | hc'
    · exact ⟨hc, name, hname⟩
    · exact h.suspended c' hc'

private theorem Stocks.removeFace (h : r.Stocks asked given) (id : FaceId) :
    (r.removeFace id).2.Stocks asked given := by
  refine removeFace_induction (motive := Stocks asked given) r id (fun _ => h) ?_
  intro routes nonces
  refine ⟨h.wellFormed.dropRequester _, fun e' he' => ?_, h.stored, h.queued.erase id, h.suspended⟩
  obtain ⟨e, he, rfl, -⟩ := PendingTable.mem_dropRequester.mp he'
  exact h.pending e he

private theorem Stocks.satisfies (h : r.Stocks asked given) {id : PendingId} {e : PendingEntry}
    (he : r.pending.get? id = some e) : (Packet.interest e.interest).Satisfies asked given :=
  h.pending e (PendingTable.mem_of_get? he).1

/-- What is sent again is pending. -/
theorem Stocks.propagate (h : r.Stocks asked given) (id : PendingId) :
    (r.propagate id).2.Stocks asked given := by
  rcases r.propagate_cases id with heq | ⟨e, route, he, -, ⟨-, heq⟩ | ⟨-, heq⟩⟩
  · rw [heq]
    exact h
  · have hsent := h.send route.face (h.satisfies he)
    rw [heq]
    exact ⟨hsent.wellFormed, hsent.pending, hsent.stored, hsent.queued, hsent.suspended⟩
  · rw [heq]
    exact h.send route.face (h.satisfies he)

private theorem Stocks.sweepPending {sweep : Sweep} (h : sweep.2.Stocks asked given) (id : PendingId) :
    (Relay.sweepPending sweep id).2.Stocks asked given := by
  obtain ⟨report, r⟩ := sweep
  unfold Relay.sweepPending
  dsimp only
  split
  · exact h
  · next e he =>
    split
    · obtain ⟨nonces, hforget⟩ := forget_eq { r with pending := r.pending.erase id } e
      have hdropped := (h.filter (·.id != id)).discard (·.id ∉ e.computations)
      rw [hforget]
      exact ⟨hdropped.wellFormed, hdropped.pending, hdropped.stored, hdropped.queued,
        hdropped.suspended⟩
    · have hretried : Stocks asked given
          { r with pending := r.pending.modify id fun e => { e with retries := e.retries + 1 } } :=
        h.modify id (fun _ => rfl) fun _ => rfl
      have hsent := hretried.propagate id
      split
      · next heq =>
        rw [heq] at hsent
        exact hsent
      · next heq =>
        rw [heq] at hsent
        exact hsent

private theorem Stocks.sweepStore {sweep : Sweep} (h : sweep.2.Stocks asked given) :
    (Relay.sweepStore sweep).2.Stocks asked given := by
  obtain ⟨report, r⟩ := sweep
  have hmarked : Stocks asked given
      { r with store := r.store.change (.markExpired r.clock r.config.tickDuration) } :=
    ⟨h.wellFormed, h.pending, h.change (by rintro _ _ _ ⟨⟩), h.queued, h.suspended⟩
  have hexpired := hmarked.change (c := .expireIdle r.clock r.config.contentTimeout)
    (by rintro _ _ _ ⟨⟩)
  unfold Relay.sweepStore
  dsimp only
  split
  · exact ⟨h.wellFormed, h.pending, hexpired, h.queued, h.suspended⟩
  · exact hmarked

private theorem Stocks.tick (h : r.Stocks asked given) : r.tick.2.Stocks asked given := by
  have hfaces : (((r.faces.idle (r.clock + 1) r.config.faceTimeout).foldl sweepFace
      ({}, { r with clock := r.clock + 1 }) : Sweep)).2.Stocks asked given := by
    apply List.foldlRecOn (motive := fun sweep : Sweep => sweep.2.Stocks asked given)
    · exact ⟨h.wellFormed, h.pending, h.stored, h.queued, h.suspended⟩
    · intro sweep hsweep id _
      have hremoved := hsweep.removeFace id
      unfold sweepFace
      dsimp only
      split
      · next heq =>
        rw [heq] at hremoved
        exact hremoved
      · next heq =>
        rw [heq] at hremoved
        exact hremoved
  have haged : r.aged.2.Stocks asked given := hfaces.sweepStore
  have hswept : (r.aged.2.pending.ids.foldl Relay.sweepPending r.aged).2.Stocks asked given := by
    apply List.foldlRecOn (motive := fun sweep : Sweep => sweep.2.Stocks asked given)
    · exact haged
    · exact fun sweep hsweep id _ => hsweep.sweepPending id
  exact ⟨hswept.wellFormed, hswept.pending, hswept.stored, hswept.queued, hswept.suspended⟩

private theorem Stocks.apply (h : r.Stocks asked given) (command : Command) :
    (r.apply command).2.Stocks asked given := by
  have haltered {c : ContentStore.Change} (hput : ∀ content isStatic now,
      c = .put content isStatic now → given content) :
      Stocks asked given { r with store := r.store.change c } :=
    ⟨h.wellFormed, h.pending, h.change hput, h.queued, h.suspended⟩
  cases command with
  | addFace interface peer flags =>
    exact ⟨h.wellFormed, h.pending, h.stored, h.queued.create _ _ _ _, h.suspended⟩
  | removeFace face => exact h.removeFace face
  | addRoute uri face suite =>
    refine withName_induction (motive := Stocks asked given) r uri suite h fun name => ?_
    obtain ⟨routes, hroute⟩ := r.addRoute_eq name face suite
    dsimp only
    rw [hroute]
    exact ⟨h.wellFormed, h.pending, h.stored, h.queued, h.suspended⟩
  | removeRoute uri suite =>
    exact withName_induction (motive := Stocks asked given) r uri suite h fun _ =>
      ⟨h.wellFormed, h.pending, h.stored, h.queued, h.suspended⟩
  | markStale uri suite =>
    exact withName_induction (motive := Stocks asked given) r uri suite h fun name =>
      haltered (c := .markStale name) (by rintro _ _ _ ⟨⟩)
  | flushCache => exact haltered (c := .flush) (by rintro _ _ _ ⟨⟩)
  | setCacheCapacity entries =>
    have hbounded := haltered (c := .setCapacity entries) (by rintro _ _ _ ⟨⟩)
    exact ⟨hbounded.wellFormed, hbounded.pending, hbounded.stored, hbounded.queued,
      hbounded.suspended⟩

/-- Whatever is done to a relay that holds things of some kinds, with packets of these kinds, it goes on
holding things of these kinds only. -/
theorem Stocks.perform (h : r.Stocks asked given) (hclosed : Closed asked given) {op : Operation}
    (hop : op.Carries asked given) : (r.perform op).Stocks asked given := by
  cases op with
  | faceForPeer interface peer =>
    exact ⟨h.wellFormed, h.pending, h.stored, h.queued.getOrCreate _ _ _, h.suspended⟩
  | addStaticFace interface peer flags =>
    exact ⟨h.wellFormed, h.pending, h.stored, h.queued.create _ _ _ _, h.suspended⟩
  | removeFace face => exact h.removeFace face
  | addRoute name face suite =>
    obtain ⟨routes, hroute⟩ := r.addRoute_eq name face suite
    rw [Relay.perform, hroute]
    exact ⟨h.wellFormed, h.pending, h.stored, h.queued, h.suspended⟩
  | cacheContent content isStatic =>
    rw [Relay.perform, store_cacheContent]
    refine ⟨h.wellFormed, h.pending, h.change ?_, h.queued, h.suspended⟩
    rintro _ _ _ ⟨⟩
    exact hop
  | drainReady now =>
    exact ⟨h.wellFormed, h.pending, h.stored, (h.queued.popReady now).2, h.suspended⟩
  | handleInterest source interest => exact (traffic_stocks hclosed).handleInterest h hop source
  | handleContent source content => exact (traffic_stocks hclosed).handleContent h hop source
  | tick => exact h.tick
  | apply command => exact h.apply command

/-- A relay that comes about with packets of some kinds holds things of these kinds only. -/
theorem stocks_of_reachable (hclosed : Closed asked given)
    (hr : ReachableBy (Operation.Carries asked given) r) : r.Stocks asked given := by
  induction hr with
  | new hnew =>
    obtain rfl := eq_of_new hnew
    refine ⟨.empty, ?_, ?_, ?_, ?_⟩
    · exact fun _ h => absurd h List.not_mem_nil
    · exact fun _ h => absurd h List.not_mem_nil
    · exact fun _ h => absurd h List.not_mem_nil
    · exact fun _ h => absurd h List.not_mem_nil
  | perform _ hop ih => exact ih.perform hclosed hop

end Relay

end NamedFunctions
