import NamedFunctions.Proofs.Relay.Completion
import NamedFunctions.Proofs.Relay.Posting

/-!
# What uses a face

A face is used when a packet of its peer is handled, and when a packet is offered to its queue, whether
there is room or not. The account of an operation says which faces it uses. Those have the tick of the
operation as that of their last use, and the others keep theirs.
-/

namespace NamedFunctions

variable {face : Face} {packet : Packet} {content : Content} {now : Nat}

namespace Face

/-- The face without what traffic leaves on it: the tick of its last use, its queue, its next slot, and
the mark of a delivery. -/
def bare (face : Face) : Face :=
  { face with
    flags := { face.flags with served := false }
    lastUsed := 0
    queue := []
    pacer := { face.pacer with nextSlot := none } }

/-- The face once a packet was offered to its queue. -/
def offered (now : Nat) (packet : Packet) (face : Face) : Face :=
  ({ face with lastUsed := now }.enqueue packet).2

private theorem bare_enqueue : (face.enqueue packet).2.bare = face.bare := by
  unfold enqueue
  split <;> rfl

private theorem lastUsed_enqueue : (face.enqueue packet).2.lastUsed = face.lastUsed := by
  unfold enqueue
  split <;> rfl

private theorem bare_offered : (face.offered now packet).bare = face.bare := bare_enqueue

private theorem lastUsed_offered : (face.offered now packet).lastUsed = now := lastUsed_enqueue

private theorem bare_receive : (face.receive content now).bare = face.bare := by
  unfold receive
  split
  · rfl
  · exact bare_enqueue

private theorem lastUsed_receive (hmark : face.flags.served = false) :
    (face.receive content now).lastUsed = now := by
  rw [receive, if_neg (by simp [hmark])]
  exact lastUsed_enqueue

private theorem receive_of_served (hmark : face.flags.served = true) : face.receive content now = face :=
  if_pos hmark

/-- Taking a packet leaves a face but for its queue. -/
theorem bare_popReady : (face.popReady now).2.bare = face.bare := by
  unfold popReady
  split
  · rfl
  · split
    · unfold bare Pacer.sent
      split <;> rfl
    · rfl

/-- Taking a packet is no use of a face. -/
theorem lastUsed_popReady : (face.popReady now).2.lastUsed = face.lastUsed := by
  unfold popReady
  split
  · rfl
  · split <;> rfl

end Face

namespace FaceTable

/-- The face with a number, without what traffic leaves on it. -/
def bare? (table : FaceTable) (id : FaceId) : Option Face := (table.get? id).map Face.bare

/-- The tick at which the face with a number was used last. -/
def lastUsed? (table : FaceTable) (id : FaceId) : Option Nat := (table.get? id).map (·.lastUsed)

end FaceTable

/-- The face whose packet an operation handles, if any. -/
def Operation.source? : Operation → Option FaceId
  | handleInterest source _ => some source
  | handleContent source _ => some source
  | _ => none

namespace Relay

/-- Whether a pending Interest that is sent along its route is offered to the queue of a face. -/
def Offered (r : Relay) (id : PendingId) (x : FaceId) : Prop :=
  ∃ e route, r.pending.get? id = some e ∧ r.routes.lookup e.interest.name = some route ∧
    route.face = x ∧ ((r.faces.get? x).any (·.flags.reflect) = true ∨ x ∉ e.faces)

/-- Whether data is offered to the queue of a face by an event. A face that is marked has it already. -/
def Event.Offers : Event → FaceId → Prop
  | answer _ id _ _, x => x = id
  | deliver r content, x =>
    r.faces.UnmarkedAt x ∧ ∃ e ∈ (r.pending.takeAnswered content).1, x ∈ e.faces
  | resume .., _ => False

/-- Whether a packet is offered to the queue of a face: one of some Interests that are sent, or data by
one of some events. -/
def OfferedBy (sends : Relay → PendingId → Prop) (events : List Event) (x : FaceId) : Prop :=
  (∃ s id, sends s id ∧ s.Offered id x) ∨ ∃ event ∈ events, event.Offers x

/-- Whether a relay has come about from another with some faces used, and no others. Besides, packets may
have been queued. -/
structure Refreshes (used : FaceId → Prop) (r r' : Relay) : Prop where
  clock : r'.clock = r.clock
  bare : ∀ x, r'.faces.bare? x = r.faces.bare? x
  refreshed : ∀ x, used x → r'.faces.lastUsed? x = (r.faces.lastUsed? x).map fun _ => r.clock
  kept : ∀ x, ¬ used x → r'.faces.lastUsed? x = r.faces.lastUsed? x

variable {r r' r'' : Relay} {used used' : FaceId → Prop} {sends sends' sends'' : Relay → PendingId → Prop}
  {events events' : List Event}

namespace Refreshes

/-- Faces that are changed one by one. -/
theorem of_get? {change : FaceId → Face → Face} (hclock : r'.clock = r.clock)
    (hget : ∀ x, r'.faces.get? x = (r.faces.get? x).map (change x))
    (hbare : ∀ x face, (change x face).bare = face.bare)
    (hused : ∀ x face, r.faces.get? x = some face → used x → (change x face).lastUsed = r.clock)
    (hunused : ∀ x face, r.faces.get? x = some face → ¬ used x →
      (change x face).lastUsed = face.lastUsed) : Refreshes used r r' := by
  refine ⟨hclock, fun x => ?_, fun x hx => ?_, fun x hx => ?_⟩
  · rw [FaceTable.bare?, hget, Option.map_map, FaceTable.bare?]
    exact congrArg (fun f => Option.map f (r.faces.get? x)) (funext (hbare x))
  · rw [FaceTable.lastUsed?, hget, FaceTable.lastUsed?]
    cases hface : r.faces.get? x with
    | none => rfl
    | some face => exact congrArg some (hused x face hface hx)
  · rw [FaceTable.lastUsed?, hget, FaceTable.lastUsed?]
    cases hface : r.faces.get? x with
    | none => rfl
    | some face => exact congrArg some (hunused x face hface hx)

/-- Nothing is about faces. -/
theorem of_faces (hfaces : r'.faces = r.faces) (hclock : r'.clock = r.clock) :
    Refreshes (fun _ => False) r r' :=
  ⟨hclock, fun _ => by rw [hfaces], fun _ => False.elim, fun _ _ => by rw [hfaces]⟩

private theorem congr (h : Refreshes used r r') (hiff : ∀ x, used x ↔ used' x) : Refreshes used' r r' :=
  ⟨h.clock, h.bare, fun x hx => h.refreshed x ((hiff x).mpr hx),
    fun x hx => h.kept x fun hx' => hx ((hiff x).mp hx')⟩

private theorem trans (h : Refreshes used r r') (h' : Refreshes used' r' r'') :
    Refreshes (fun x => used x ∨ used' x) r r'' := by
  refine ⟨h'.clock.trans h.clock, fun x => (h'.bare x).trans (h.bare x), fun x hx => ?_,
    fun x hx => ?_⟩
  · by_cases hx' : used' x
    · rw [h'.refreshed x hx', h.clock]
      by_cases hx₀ : used x
      · rw [h.refreshed x hx₀, Option.map_map]
        rfl
      · rw [h.kept x hx₀]
    · rw [h'.kept x hx', h.refreshed x (hx.resolve_right hx')]
  · rw [h'.kept x fun hx' => hx (.inr hx'), h.kept x fun hx' => hx (.inl hx')]

private theorem after (h : Refreshes used r' r'') (hfaces : r'.faces = r.faces)
    (hclock : r'.clock = r.clock) :
    Refreshes used r r'' :=
  ((of_faces hfaces hclock).trans h).congr fun _ => iff_of_eq (false_or _)

private theorem before (h : Refreshes used r r') (hfaces : r''.faces = r'.faces)
    (hclock : r''.clock = r'.clock) : Refreshes used r r'' :=
  (h.trans (of_faces hfaces hclock)).congr fun _ => iff_of_eq (or_false _)

private theorem of_not_sends (hfaces : r'.faces = r.faces) (hclock : r'.clock = r.clock)
    (hsends : ∀ s id, ¬ sends s id) : Refreshes (OfferedBy sends []) r r' := by
  refine (of_faces hfaces hclock).congr fun x => ⟨False.elim, ?_⟩
  rintro (⟨s, id, hsent, -⟩ | ⟨event, hmem, -⟩)
  · exact hsends s id hsent
  · exact List.not_mem_nil hmem

private theorem congr_sends (h : Refreshes (OfferedBy sends events) r r')
    (hiff : ∀ s id, sends s id ↔ sends' s id) : Refreshes (OfferedBy sends' events) r r' := by
  have hsends : sends = sends' := funext fun s => funext fun id => propext (hiff s id)
  rwa [← hsends]

/-- What is offered on the way is what is offered before and after. -/
theorem append (h : Refreshes (OfferedBy sends events) r r')
    (h' : Refreshes (OfferedBy sends' events') r' r'')
    (hiff : ∀ s id, sends'' s id ↔ sends s id ∨ sends' s id) :
    Refreshes (OfferedBy sends'' (events ++ events')) r r'' := by
  refine (h.trans h').congr fun x => ?_
  simp only [OfferedBy, hiff, List.mem_append, or_and_right, exists_or]
  exact or_or_or_comm

/-- Only one Interest is sent. -/
theorem of_sent {s : Relay} {id : PendingId} (h : Refreshes (s.Offered id) r r')
    (hiff : ∀ s' id', sends s' id' ↔ s' = s ∧ id' = id) : Refreshes (OfferedBy sends []) r r' := by
  refine h.congr fun x => ⟨fun hx => .inl ⟨s, id, (hiff s id).mpr ⟨rfl, rfl⟩, hx⟩, ?_⟩
  rintro (⟨s', id', hsent, hx⟩ | ⟨event, hmem, -⟩)
  · obtain ⟨rfl, rfl⟩ := (hiff s' id').mp hsent
    exact hx
  · exact absurd hmem List.not_mem_nil

/-- No Interest is sent, and one event happens. -/
theorem of_event {event : Event} (h : Refreshes event.Offers r r') (hsends : ∀ s id, ¬ sends s id) :
    Refreshes (OfferedBy sends [event]) r r' := by
  refine h.congr fun x => ⟨fun hx => .inr ⟨event, List.mem_cons_self, hx⟩, ?_⟩
  rintro (⟨s, id, hsent, -⟩ | ⟨event', hmem, hx⟩)
  · exact absurd hsent (hsends s id)
  · obtain rfl := List.mem_singleton.mp hmem
    exact hx

end Refreshes

/-- Whether or not there is room for it, a packet that is sent uses the face. -/
theorem refreshes_send (r : Relay) (id : FaceId) (packet : Packet) :
    Refreshes (fun x => x = id) r (r.send id packet).2 := by
  have hclock : (r.send id packet).2.clock = r.clock := by
    obtain ⟨faces, hsend⟩ := r.send_eq id packet
    rw [hsend]
  have hget (x : FaceId) : (r.send id packet).2.faces.get? x =
      (r.faces.get? x).map fun face => if x = id then face.offered r.clock packet else face := by
    cases hf : r.faces.get? id with
    | none =>
      rw [faces_send_of_missing hf]
      by_cases hx : x = id
      · rw [hx, hf]
        rfl
      · simp [hx]
    | some face =>
      rw [get?_faces_send hf]
      by_cases hx : x = id
      · rw [if_pos hx, hx, hf, Option.map_some, if_pos rfl]
        rfl
      · simp [hx]
  refine .of_get? hclock hget (fun x face => ?_) (fun x face _ hx => ?_) fun x face _ hx => ?_
  · split
    · exact Face.bare_offered
    · rfl
  · rw [if_pos hx]
    exact Face.lastUsed_offered
  · rw [if_neg hx]

/-- A pending Interest is offered to one face at most. -/
theorem Offered.eq {id : PendingId} {x y : FaceId} (h : r.Offered id x) (h' : r.Offered id y) : y = x := by
  obtain ⟨e, route, he, hroute, rfl, -⟩ := h
  obtain ⟨e', route', he', hroute', rfl, -⟩ := h'
  cases he.symm.trans he'
  cases hroute.symm.trans hroute'
  rfl

/-- A pending Interest that is offered to a face is sent there. -/
theorem propagate_of_offered {id : PendingId} {x : FaceId} (h : r.Offered id x) :
    ∃ packet stats, (r.propagate id).2 = { (r.send x packet).2 with stats } := by
  obtain ⟨e, route, he, hroute, rfl, hback⟩ := h
  have hsent : ¬ (!(r.faces.get? route.face).any (·.flags.reflect) && e.faces.contains route.face) =
      true := by
    rcases hback with hreflect | hnew
    · simp [hreflect]
    · simp [hnew]
  refine ⟨.interest e.interest, (r.propagate id).2.stats, ?_⟩
  unfold propagate
  simp only [he, hroute]
  rw [if_neg hsent]
  split
  · next heq => rw [heq]; rfl
  · next heq => rw [heq]

private theorem propagate_of_not_offered {id : PendingId} (h : ∀ x, ¬ r.Offered id x) :
    (r.propagate id).2 = r := by
  unfold propagate
  split
  · rfl
  · next e he =>
    split
    · rfl
    · next route hroute =>
      have hback : (!(r.faces.get? route.face).any (·.flags.reflect) &&
          e.faces.contains route.face) = true := by
        by_contra hback
        refine h route.face ⟨e, route, he, hroute, rfl, ?_⟩
        by_cases hreflect : (r.faces.get? route.face).any (·.flags.reflect) = true
        · exact .inl hreflect
        · exact .inr (by simpa [hreflect] using hback)
      dsimp only
      rw [if_pos hback]

/-- A pending Interest that is sent along its route uses the face that it is offered to. -/
theorem refreshes_propagate (r : Relay) (id : PendingId) :
    Refreshes (r.Offered id) r (r.propagate id).2 := by
  by_cases hoffered : ∃ x, r.Offered id x
  · obtain ⟨face, hface⟩ := hoffered
    obtain ⟨packet, stats, hsent⟩ := propagate_of_offered hface
    rw [hsent]
    refine .before (.congr (r.refreshes_send face packet) fun x => ⟨?_, hface.eq⟩) rfl rfl
    rintro rfl
    exact hface
  · have hnot := not_exists.mp hoffered
    rw [propagate_of_not_offered hnot]
    exact (Refreshes.of_faces rfl rfl).congr fun x => (iff_false_intro (hnot x)).symm

private theorem refreshes_touch (r : Relay) (id : FaceId) : Refreshes (fun x => x = id) r (r.touch id) := by
  have hget (x : FaceId) : (r.touch id).faces.get? x =
      (r.faces.get? x).map fun face => if x = id then { face with lastUsed := r.clock } else face := by
    have hid (face : Face) (h : face.id = id) : { face with lastUsed := r.clock }.id = id := h
    refine (FaceTable.get?_modify hid r.faces x).trans ?_
    by_cases hx : x = id
    · simp [hx]
    · simp [hx]
  refine .of_get? rfl hget (fun x face => ?_) (fun x face _ hx => ?_) fun x face _ hx => ?_
  · split <;> rfl
  · rw [if_pos hx]
  · rw [if_neg hx]

/-- A delivery uses the faces that wait and do not have the data. -/
theorem refreshes_serve (r : Relay) (content : Content) (entries : List PendingEntry) :
    Refreshes (fun x => r.faces.UnmarkedAt x ∧ ∃ e ∈ entries, x ∈ e.faces) r
      (r.serve content entries).2 := by
  classical
  have hget (x : FaceId) : (r.serve content entries).2.faces.get? x =
      (r.faces.get? x).map fun face =>
        let face := if ∃ e ∈ entries, x ∈ e.faces then face.receive content r.clock else face
        { face with flags := { face.flags with served := false } } := by
    rw [get?_faces_serve]
    by_cases hasked : ∃ e ∈ entries, x ∈ e.faces
    · simp only [hasked, if_true, Option.map_map]
      rfl
    · simp only [hasked, if_false]
  refine .of_get? rfl hget (fun x face => ?_) (fun x face hface hx => ?_) fun x face hface hx => ?_
  · dsimp only
    split
    · exact Face.bare_receive
    · rfl
  · dsimp only
    rw [if_pos hx.2]
    exact Face.lastUsed_receive (hx.1 face hface)
  · dsimp only
    split
    · next hasked =>
      have hmark : face.flags.served = true := by
        by_contra hmark
        refine hx ⟨fun face' hface' => ?_, hasked⟩
        rw [hface] at hface'
        cases hface'
        simpa using hmark
      rw [Face.receive_of_served hmark]
    · rfl

/-- The result of a computation is offered to the faces that wait for it. -/
theorem refreshes_announce (r : Relay) (origin : Interest) (result : Bytes) :
    Refreshes (Event.deliver (r.withResult origin result) (resultContent origin result)).Offers r
      (r.announce origin result).2 := by
  have hcached : (r.withResult origin result).faces = r.faces ∧
      (r.withResult origin result).clock = r.clock := by
    obtain ⟨store, stats, hcache⟩ := cache_eq
      (r.count fun s => { s with computationsCompleted := s.computationsCompleted + 1 })
      (resultContent origin result) true
    rw [withResult, hcache]
    exact ⟨rfl, rfl⟩
  have hserved := refreshes_serve
    { r.withResult origin result with
      pending := ((r.withResult origin result).pending.takeAnswered (resultContent origin result)).2 }
    (resultContent origin result)
    ((r.withResult origin result).pending.takeAnswered (resultContent origin result)).1
  exact hserved.after hcached.1 hcached.2

private theorem Refreshes.announce {origin : Interest} {result : Bytes}
    (h : Refreshes (OfferedBy sends events) (r.announce origin result).2 r') :
    Refreshes
      (OfferedBy sends (.deliver (r.withResult origin result) (resultContent origin result) :: events)) r
      r' := by
  refine ((r.refreshes_announce origin result).of_event fun _ _ => not_false).append h fun s id => ?_
  exact (iff_of_eq (false_or _)).symm

/-- Settling a computation uses the faces that its Interest is offered to. -/
theorem refreshes_settle (r : Relay) (progress : Except ComputationError Progress) :
    Refreshes (OfferedBy (Issues r progress) []) r (r.settle progress).2 := by
  obtain ⟨n, h⟩ := r.exists_advances progress
  generalize (r.settle progress).1 = outcome at h
  generalize (r.settle progress).2 = r' at h
  induction h with
  | failed => exact .of_not_sends rfl rfl fun s id h => by cases h
  | finished => exact .of_not_sends rfl rfl fun s id h => by cases h
  | @awaits r c name hmiss =>
    unfold await
    split
    · next entry hsame =>
      refine .of_not_sends rfl rfl fun s id h => ?_
      cases h with
      | now _ hnew => simp [hsame] at hnew
      | later hhit _ => simp [hmiss] at hhit
    · next hnew =>
      have hsent : Refreshes ((r.asking c name).Offered ⟨r.pending.nextId⟩) r (r.asked c name).2 :=
        .after (refreshes_propagate _ _) rfl rfl
      have hasked : Refreshes (OfferedBy (Issues r (.ok (.suspended c name))) []) r
          (r.asked c name).2 := by
        refine hsent.of_sent fun s id => ⟨fun h => ?_, ?_⟩
        · cases h with
          | now => exact ⟨rfl, rfl⟩
          | later hhit _ => simp [hmiss] at hhit
        · rintro ⟨rfl, rfl⟩
          exact .now hmiss hnew
      rw [issue_eq]
      split
      · exact hasked.before rfl rfl
      · exact hasked.before rfl rfl
  | @fetches r _ c name content store _ _ hhit _ ih =>
    refine (ih.congr_sends fun s id => ⟨.later hhit, fun h => ?_⟩).after rfl rfl
    cases h with
    | now hmiss => simp [hmiss] at hhit
    | later hhit' h =>
      rw [hhit] at hhit'
      cases hhit'
      exact h

private theorem refreshes_carryOn (r : Relay) (progress : Except ComputationError Progress) :
    Refreshes (OfferedBy (Issues r progress) []) r (r.carryOn progress).2 := by
  rw [carryOn_eq]
  refine (r.refreshes_settle progress).before ?_ ?_
  · unfold countFailure
    split <;> rfl
  · unfold countFailure
    split <;> rfl

/-- Resuming the computation of some number, an Interest of it is sent. -/
def ResumeIssues (r : Relay) (computation : ComputationId) (payload : Bytes) (s : Relay)
    (id : PendingId) : Prop :=
  ∃ c, r.computations.get? computation = some c ∧
    Issues { r with computations := r.computations.erase computation }
      (c.resume r.computations.stepLimit payload) s id

private theorem refreshes_resumeComputation (r : Relay) (computation : ComputationId) (payload : Bytes) :
    Refreshes (OfferedBy (ResumeIssues r computation payload) [.resume r computation payload]) r
      (r.resumeComputation computation payload).2 := by
  have hevent {s : Relay} (h : Refreshes (OfferedBy (ResumeIssues r computation payload) []) r s) :
      Refreshes (OfferedBy (ResumeIssues r computation payload) [.resume r computation payload]) r s := by
    refine h.congr fun x => or_congr_right ?_
    simp [Event.Offers]
  apply hevent
  cases hc : r.computations.get? computation with
  | none =>
    rw [resumeComputation_of_none hc]
    refine .of_not_sends rfl rfl ?_
    rintro s id ⟨c, hc', -⟩
    simp [hc] at hc'
  | some c =>
    rw [resumeComputation_of_some hc]
    refine ((refreshes_carryOn _ _).congr_sends fun s id => ?_).after rfl rfl
    constructor
    · exact fun h => ⟨c, hc, h⟩
    · rintro ⟨c', hc', h⟩
      rw [hc] at hc'
      cases hc'
      exact h

private theorem refreshes_wake (r : Relay) (agenda : List (ComputationId × Bytes)) :
    Refreshes (OfferedBy (WakeIssues r agenda) (r.cascade agenda)) r (r.wake agenda) := by
  fun_induction wake r agenda with
  | case1 r =>
    rw [cascade]
    exact .of_not_sends rfl rfl fun s id h => by cases h
  | case2 r id payload rest r' hresumed _ ih =>
    have hfirst := r.refreshes_resumeComputation id payload
    rw [hresumed] at hfirst
    rw [cascade_of_none rest hresumed]
    refine hfirst.append ih fun s pending => ⟨fun h => ?_, ?_⟩
    · cases h with
      | resumed hc h => exact .inl ⟨_, hc, h⟩
      | stopped hresumed' h =>
        rw [hresumed] at hresumed'
        cases hresumed'
        exact .inr h
      | finished hresumed' =>
        rw [hresumed] at hresumed'
        cases hresumed'
    · rintro (⟨c, hc, h⟩ | h)
      · exact .resumed hc h
      · exact .stopped hresumed h
  | case3 r id payload rest origin result r' hresumed _ ih =>
    have hfirst := r.refreshes_resumeComputation id payload
    rw [hresumed] at hfirst
    rw [cascade_of_some rest hresumed]
    refine hfirst.append ih.announce fun s pending => ⟨fun h => ?_, ?_⟩
    · cases h with
      | resumed hc h => exact .inl ⟨_, hc, h⟩
      | stopped hresumed' =>
        rw [hresumed] at hresumed'
        cases hresumed'
      | finished hresumed' h =>
        rw [hresumed] at hresumed'
        cases hresumed'
        exact .inr h
    · rintro (⟨c, hc, h⟩ | h)
      · exact .resumed hc h
      · exact .finished hresumed h

private theorem refreshes_startComputation (r : Relay) (interest : Interest) :
    Refreshes (OfferedBy (ReductionIssues r interest) (r.reductionJournal interest)) r
      (r.startComputation interest).2 := by
  have hbegun : (r.reductionStarted.beginComputation interest).2.faces = r.faces ∧
      (r.reductionStarted.beginComputation interest).2.clock = r.clock := by
    unfold beginComputation
    split <;> exact ⟨rfl, rfl⟩
  have hcarried := (refreshes_carryOn (r.reductionStarted.beginComputation interest).2
    (r.reductionStarted.beginComputation interest).1).after hbegun.1 hbegun.2
  rw [startComputation_eq, reductionJournal_eq]
  rcases heq : (r.reductionStarted.beginComputation interest).2.carryOn
    (r.reductionStarted.beginComputation interest).1 with ⟨outcome, r'⟩
  rw [heq] at hcarried
  have hbegins (hresult : ∀ origin result, outcome ≠ .ok (.finished origin result)) :
      Refreshes (OfferedBy (ReductionIssues r interest) []) r r' := by
    refine hcarried.congr_sends fun s id => ⟨.begun, fun h => ?_⟩
    cases h with
    | begun h => exact h
    | published hfinished =>
      rw [heq] at hfinished
      cases hfinished
      exact absurd rfl (hresult _ _)
  cases outcome with
  | error error => exact hbegins fun _ _ h => by cases h
  | ok settled =>
    cases settled with
    | waiting id => exact hbegins fun _ _ h => by cases h
    | finished origin result =>
      have hwoken := refreshes_wake (r'.announce origin result).2 (r'.announce origin result).1
      refine hcarried.append hwoken.announce fun s id => ⟨fun h => ?_, ?_⟩
      · cases h with
        | begun h => exact .inl h
        | published hfinished h =>
          rw [heq] at hfinished
          cases hfinished
          exact .inr h
      · rintro (h | h)
        · exact .begun h
        · exact .published heq h

/-- Once its nonce is recorded, what is sent for an Interest depends on what the tables have for it. -/
theorem sends_handleInterest_iff {source : FaceId} {interest accepted : Interest}
    (hsource : r.faces.contains source = true)
    (haccept : (r.interestReceived source).accept interest = (some accepted, r')) (s : Relay)
    (id : PendingId) :
    Sends r (.handleInterest source interest) s id ↔
      r'.store.lookup accepted r'.clock = none ∧
        match r'.pending.findSame accepted with
        | some same =>
          (r'.faces.get? source).any (·.flags.forwardAll) = true ∧
            s = r'.joined source accepted same ∧ id = same
        | none =>
          if accepted.name.flags.expression then
            ReductionIssues
              { r' with pending := (r'.pending.insert accepted (.face source) r'.clock).2 } accepted s id
          else
            s = { r' with pending := (r'.pending.insert accepted (.face source) r'.clock).2 } ∧
              id = (r'.pending.insert accepted (.face source) r'.clock).1 := by
  have heq {t : Relay} {other : Interest}
      (h : (r.interestReceived source).accept interest = (some other, t)) :
      other = accepted ∧ t = r' := by
    rw [haccept] at h
    cases h
    exact ⟨rfl, rfl⟩
  constructor
  · intro h
    cases h with
    | joined _ h hmiss hsame hforward =>
      obtain ⟨rfl, rfl⟩ := heq h
      rw [hsame]
      exact ⟨hmiss, hforward, rfl, rfl⟩
    | arrived _ h hmiss hnew hexpression =>
      obtain ⟨rfl, rfl⟩ := heq h
      rw [hnew]
      dsimp only
      rw [if_neg hexpression]
      exact ⟨hmiss, rfl, rfl⟩
    | reduced _ h hreduces hissues =>
      obtain ⟨rfl, rfl⟩ := heq h
      obtain ⟨hmiss, hnew, hexpression⟩ := hreduces
      rw [hnew]
      dsimp only
      rw [if_pos hexpression]
      exact ⟨hmiss, hissues⟩
  · rintro ⟨hmiss, h⟩
    split at h
    · next hsame =>
      obtain ⟨hforward, rfl, rfl⟩ := h
      exact .joined hsource haccept hmiss hsame hforward
    · next hnew =>
      split at h
      · next hexpression => exact .reduced hsource haccept ⟨hmiss, hnew, hexpression⟩ h
      · next hexpression =>
        obtain ⟨rfl, rfl⟩ := h
        exact .arrived hsource haccept hmiss hnew hexpression

/-- What becomes of an Interest once its nonce is recorded uses the faces that packets are offered to. -/
theorem refreshes_resolve {source : FaceId} {interest accepted : Interest}
    (hsource : r.faces.contains source = true)
    (haccept : (r.interestReceived source).accept interest = (some accepted, r')) :
    Refreshes
      (OfferedBy (Sends r (.handleInterest source interest)) (r'.resolutionJournal source accepted)) r'
      (r'.resolve source accepted).2 := by
  have hsends := sends_handleInterest_iff hsource haccept
  unfold resolutionJournal
  cases hlookup : r'.store.lookup accepted r'.clock with
  | some found =>
    have hsent : Refreshes (Event.answer r' source accepted found.1).Offers r'
        ((r'.fetched found.2).send source (.content found.1)).2 :=
      .after (refreshes_send _ source (.content found.1)) rfl rfl
    have hanswered := hsent.of_event fun s id h =>
      Option.some_ne_none found (hlookup.symm.trans ((hsends s id).mp h).1)
    rw [snd_resolve_of_some hlookup]
    dsimp only
    split
    · exact hanswered.before rfl rfl
    · exact hanswered
  | none =>
    rw [resolve, hlookup]
    simp only [hlookup, true_and] at hsends
    cases hsame : r'.pending.findSame accepted with
    | some id =>
      simp only [hsame] at hsends
      dsimp only
      rw [snd_aggregate]
      split
      · next hforward =>
        have hsent : Refreshes ((r'.joined source accepted id).Offered id) r'
            ((r'.joined source accepted id).propagate id).2 :=
          .after (refreshes_propagate _ id) rfl rfl
        exact hsent.of_sent fun s id' => (hsends s id').trans (and_iff_right hforward)
      · next hforward =>
        exact .of_not_sends rfl rfl fun s id' h => hforward ((hsends s id').mp h).1
    | none =>
      simp only [hsame] at hsends
      dsimp only
      split
      · next hexpression =>
        simp only [hexpression, if_true] at hsends
        exact .after ((refreshes_startComputation _ accepted).congr_sends fun s id =>
          (hsends s id).symm) rfl rfl
      · next hexpression =>
        simp only [hexpression] at hsends
        have hpropagated : Refreshes (Offered
            { r' with pending := (r'.pending.insert accepted (.face source) r'.clock).2 }
            (r'.pending.insert accepted (.face source) r'.clock).1) r'
            (r'.sentOn source accepted).2 :=
          .after (refreshes_propagate _ _) rfl rfl
        have hsent := hpropagated.of_sent hsends
        rw [snd_forward]
        split
        · exact hsent
        · exact hsent.before rfl rfl

/-- Whether an operation uses a face: it handles a packet of its peer, or a packet is offered to its queue
in the course of it. -/
def Uses (r : Relay) (op : Operation) (x : FaceId) : Prop :=
  op.source? = some x ∨ OfferedBy (Sends r op) (r.journal op) x

/-- What arrives on a face uses it before anything else is done. -/
theorem Refreshes.uses {op : Operation} {source : FaceId} (hop : op.source? = some source)
    (hsource : Refreshes (fun x => x = source) r r')
    (h : Refreshes (OfferedBy (Sends r op) (r.journal op)) r' r'') : Refreshes (Uses r op) r r'' := by
  refine (hsource.trans h).congr fun x => or_congr_left ?_
  rw [hop, Option.some_inj, eq_comm]

private theorem Refreshes.uses_of_none {op : Operation} (hop : op.source? = none)
    (h : Refreshes (OfferedBy (Sends r op) (r.journal op)) r' r'') : Refreshes (Uses r op) r' r'' := by
  refine h.congr fun x => ?_
  rw [Uses, hop, or_iff_right nofun]

/-- A face that is not there has nothing to refresh. -/
theorem refreshes_of_missing {source : FaceId} (hsource : ¬ r.faces.contains source = true) :
    Refreshes (fun x => x = source) r r := by
  refine ⟨rfl, fun _ => rfl, fun x hx => ?_, fun _ _ => rfl⟩
  rw [FaceTable.contains_eq_isSome, Bool.not_eq_true, Option.isSome_eq_false_iff,
    Option.isNone_iff_eq_none] at hsource
  rw [hx, FaceTable.lastUsed?, hsource]
  rfl

private theorem refreshes_handleInterest (r : Relay) (source : FaceId) (interest : Interest) :
    Refreshes (Uses r (.handleInterest source interest)) r (r.handleInterest source interest).2 := by
  by_cases hsource : r.faces.contains source = true
  · have haccepted : Refreshes (fun x => x = source) r
        ((r.interestReceived source).accept interest).2 := by
      obtain ⟨nonces, nonceSource, heq⟩ := accept_eq (r.interestReceived source) interest
      rw [heq]
      exact (r.refreshes_touch source).before rfl rfl
    rcases haccept : (r.interestReceived source).accept interest with ⟨_ | accepted, r'⟩
    · rw [haccept] at haccepted
      rw [handleInterest_of_refused hsource haccept]
      refine .uses rfl haccepted ?_
      rw [journal, interestJournal_of_refused hsource haccept]
      refine .of_not_sends rfl rfl fun s id h => ?_
      cases h with
      | joined _ haccept' => cases haccept'.symm.trans haccept
      | arrived _ haccept' => cases haccept'.symm.trans haccept
      | reduced _ haccept' => cases haccept'.symm.trans haccept
    · rw [haccept] at haccepted
      rw [handleInterest_of_accept hsource haccept]
      refine .uses rfl haccepted ?_
      rw [journal, interestJournal_of_accept hsource haccept]
      exact refreshes_resolve hsource haccept
  · have hjournal : r.journal (.handleInterest source interest) = [] := by
      rw [journal, interestJournal, if_neg hsource]
    rw [handleInterest, if_neg hsource]
    refine .uses rfl (refreshes_of_missing hsource) ?_
    rw [hjournal]
    refine .of_not_sends rfl rfl fun s id h => ?_
    cases h with
    | joined h => exact hsource h
    | arrived h => exact hsource h
    | reduced h => exact hsource h

/-- Data that is taken in goes to those who wait for it. -/
theorem refreshes_deliver {content : Content} {entries : List PendingEntry} {pending : PendingTable}
    (htake : r.pending.takeAnswered content = (entries, pending)) :
    Refreshes (Event.deliver r content).Offers r
      (({ r with pending }.cache content false).serve content entries).2 := by
  obtain ⟨store, stats, hcache⟩ := cache_eq { r with pending } content false
  rw [hcache]
  refine .congr (.after (refreshes_serve _ content entries) rfl rfl) fun x => ?_
  rw [Event.Offers, htake]

private theorem refreshes_handleContent (r : Relay) (source : FaceId) (content : Content) :
    Refreshes (Uses r (.handleContent source content)) r (r.handleContent source content).2 := by
  by_cases hsource : r.faces.contains source = true
  · have htouched : Refreshes (fun x => x = source) r (r.contentReceived source) :=
      (r.refreshes_touch source).before rfl rfl
    refine .uses rfl htouched ?_
    rw [journal]
    unfold handleContent contentJournal
    rw [if_pos hsource, if_pos hsource]
    dsimp only
    rcases htake : PendingTable.takeAnswered _ content with ⟨_ | ⟨e, entries⟩, pending⟩
    · refine .of_not_sends rfl rfl fun s id h => ?_
      cases h with
      | delivered _ htake' => cases htake'.symm.trans htake
    · have hserved : Refreshes (Event.deliver (r.contentReceived source) content).Offers
          (r.contentReceived source)
          (({ r.contentReceived source with pending }.cache content false).serve content
            (e :: entries)).2 :=
        refreshes_deliver htake
      refine (hserved.of_event fun _ _ => not_false).append (refreshes_wake _ _) fun s id =>
        ⟨fun h => ?_, ?_⟩
      · cases h with
        | delivered _ htake' hserve h =>
          cases htake'.symm.trans htake
          cases hserve
          exact .inr h
      · rintro (h | h)
        · exact h.elim
        · exact .delivered hsource htake rfl h
  · have hjournal : r.journal (.handleContent source content) = [] := by
      rw [journal, contentJournal, if_neg hsource]
    rw [handleContent, if_neg hsource]
    refine .uses rfl (refreshes_of_missing hsource) ?_
    rw [hjournal]
    refine .of_not_sends rfl rfl fun s id h => ?_
    cases h with
    | delivered h => exact hsource h

/-- Whether a tick sends a pending Interest that it comes to, and in which relay. -/
def Retries (sweep : Sweep) (id : PendingId) (s : Relay) : Prop :=
  ∃ e, sweep.2.pending.get? id = some e ∧ ¬ sweep.2.hasRunOut e = true ∧
    s = { sweep.2 with
      pending := sweep.2.pending.modify id fun e => { e with retries := e.retries + 1 } }

private theorem refreshes_sweepPending (sweep : Sweep) (id : PendingId) :
    Refreshes (OfferedBy (fun s id' => id' = id ∧ Retries sweep id s) []) sweep.2
      (sweepPending sweep id).2 := by
  cases he : sweep.2.pending.get? id with
  | none =>
    have hsame : (sweepPending sweep id).2 = sweep.2 := by
      rw [sweepPending, he]
    rw [hsame]
    refine .of_not_sends rfl rfl ?_
    rintro s id' ⟨-, e, he', -⟩
    simp [he] at he'
  | some e =>
    by_cases hout : sweep.2.hasRunOut e = true
    · have hexpired : (sweepPending sweep id).2.faces = sweep.2.faces ∧
          (sweepPending sweep id).2.clock = sweep.2.clock := by
        rw [sweepPending, he]
        dsimp only
        rw [if_pos hout]
        exact ⟨rfl, rfl⟩
      refine .of_not_sends hexpired.1 hexpired.2 ?_
      rintro s id' ⟨-, e', he', hout', -⟩
      cases he.symm.trans he'
      exact hout' hout
    · rw [snd_sweepPending he hout]
      refine .of_sent (.after (refreshes_propagate _ id) rfl rfl) fun s id' => ?_
      constructor
      · rintro ⟨rfl, e', -, -, rfl⟩
        exact ⟨rfl, rfl⟩
      · rintro ⟨rfl, rfl⟩
        exact ⟨rfl, e, he, hout, rfl⟩

/-- The Interests that a tick comes to are sent in the relays that those before them have left. -/
theorem refreshes_sweeps (ids : List PendingId) (sweep : Sweep) :
    Refreshes
      (OfferedBy (fun s id => ∃ before after, ids = before ++ id :: after ∧
        Retries (before.foldl sweepPending sweep) id s) [])
      sweep.2 (ids.foldl sweepPending sweep).2 := by
  induction ids generalizing sweep with
  | nil => exact .of_not_sends rfl rfl fun s id h => by simp at h
  | cons id ids ih =>
    refine (refreshes_sweepPending sweep id).append (ih (sweepPending sweep id)) fun s id' =>
      ⟨?_, ?_⟩
    · rintro ⟨before, after, hids, hretries⟩
      rcases List.cons_eq_append_iff.mp hids with ⟨rfl, heq⟩ | ⟨before', rfl, rfl⟩
      · cases heq
        exact .inl ⟨rfl, hretries⟩
      · exact .inr ⟨before', after, rfl, hretries⟩
    · rintro (⟨rfl, hretries⟩ | ⟨before, after, rfl, hretries⟩)
      · exact ⟨[], ids, rfl, hretries⟩
      · exact ⟨id :: before, after, rfl, hretries⟩

/-- A tick uses the faces that pending Interests are offered to again, once those that were idle for too
long are gone. -/
theorem refreshes_tick (r : Relay) : Refreshes (Uses r .tick) r.aged.2 r.tick.2 := by
  have hsends (s : Relay) (id : PendingId) :
      (∃ before after, r.aged.2.pending.ids = before ++ id :: after ∧
        Retries (before.foldl sweepPending r.aged) id s) ↔ Sends r .tick s id := by
    constructor
    · rintro ⟨before, after, hids, e, he, hout, rfl⟩
      exact .retried hids he hout
    · intro h
      cases h with
      | retried hids he hout => exact ⟨_, _, hids, _, he, hout, rfl⟩
  have hsweeps := (refreshes_sweeps r.aged.2.pending.ids r.aged).congr_sends hsends
  exact .uses_of_none rfl (hsweeps.before rfl rfl)

/-- Once faces have been added and removed, an operation changes nothing about faces but what traffic
leaves on them, and uses those that its account says. -/
theorem refreshes_perform (r : Relay) (op : Operation) :
    Refreshes (Uses r op) (r.untilPosting op) (r.perform op) := by
  have hother (hsource : op.source? = none) (hsends : ∀ s id, ¬ Sends r op s id)
      (hjournal : r.journal op = []) (hperform : r.perform op = r.untilPosting op) :
      Refreshes (Uses r op) (r.untilPosting op) (r.perform op) := by
    refine .uses_of_none hsource ?_
    rw [hjournal]
    exact .of_not_sends (congrArg faces hperform) (congrArg clock hperform) hsends
  cases op with
  | handleInterest source interest => exact r.refreshes_handleInterest source interest
  | handleContent source content => exact r.refreshes_handleContent source content
  | tick => exact r.refreshes_tick
  | _ => exact hother rfl (fun s id h => by cases h) rfl rfl

end Relay

end NamedFunctions
