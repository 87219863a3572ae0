import NamedFunctions.Proofs.Relay.Completion
import NamedFunctions.Proofs.Relay.Queueing

/-!
# Data that settles a pending Interest

Data that arrives takes away the pending Interests that it satisfies, and goes once to each face that waits
in one of them. Computations that it resumes may have results for other faces, but the same data does not
come to a face a second time: nobody waits for it any more.
-/

namespace NamedFunctions

namespace PendingTable

/-- Whether no face waits for some data. -/
def Unawaited (table : PendingTable) (content : Content) : Prop :=
  ∀ e ∈ table.entries, ∀ id ∈ e.faces, e.interest.satisfiedBy content false = false

namespace Unawaited

variable {table : PendingTable} {content : Content}

private theorem filter (h : table.Unawaited content) (keep : PendingEntry → Bool) :
    Unawaited { table with entries := table.entries.filter keep } content :=
  fun e he => h e (List.mem_of_mem_filter he)

/-- No face waits in an entry that is added for a computation. -/
theorem insert (h : table.Unawaited content) (interest : Interest) (id : ComputationId) (now : Nat) :
    (table.insert interest (.computation id) now).2.Unawaited content := by
  intro e he face hface
  rcases List.mem_append.mp he with he | he
  · exact h e he face hface
  · obtain rfl := List.mem_singleton.mp he
    exact absurd hface List.not_mem_nil

/-- A computation that joins an entry is no face. -/
theorem addRequester (h : table.Unawaited content) (entry : PendingId) (id : ComputationId)
    (nonce : Option UInt32) (now : Nat) :
    (table.addRequester entry (.computation id) nonce now).2.Unawaited content := by
  intro e' he' face hface
  obtain ⟨e, he, rfl⟩ := List.mem_map.mp he'
  by_cases hid : e.id = entry
  · rw [if_pos hid] at hface ⊢
    rcases PendingEntry.mem_faces_join.mp hface with hnow | hbefore
    · cases hnow
    · exact h e he face hbefore
  · rw [if_neg hid] at hface ⊢
    exact h e he face hface

/-- Data that is delivered is awaited by nobody after that. -/
theorem takeAnswered (table : PendingTable) (content : Content) :
    (table.takeAnswered content).2.Unawaited content := by
  intro e he _ _
  simpa using (List.mem_filter.mp he).2

end Unawaited

end PendingTable

namespace Relay

variable {r r' : Relay} {content : Content}

private theorem Carried.unawaited {id : ComputationId} {outcome : Except RelayError Settled}
    (h : Carried r id outcome r') (hr : r.pending.Unawaited content) :
    r'.pending.Unawaited content := by
  cases h with
  | stopped => exact hr
  | joined => exact hr.addRequester _ _ _ _
  | issued => exact hr.insert _ _ _
  | stranded => exact (hr.insert _ _ _).filter _

private theorem unawaited_resumeComputation (hr : r.pending.Unawaited content) (id : ComputationId)
    (payload : Bytes) : (r.resumeComputation id payload).2.pending.Unawaited content := by
  cases hc : r.computations.get? id with
  | none =>
    rw [resumeComputation_of_none hc]
    exact hr
  | some c =>
    have hid := (ComputationTable.mem_of_get? hc).2
    have hcarried := carried_carryOn { r with computations := r.computations.erase id }
      fun c' name (h : c.resume r.computations.stepLimit payload = .ok (.suspended c' name)) =>
        And.imp_left (·.trans hid) (Computation.awaiting_of_resume h)
    rw [resumeComputation_of_some hc]
    exact hcarried.unawaited hr

private theorem unawaited_announce (hr : r.pending.Unawaited content) (origin : Interest) (result : Bytes) :
    (r.announce origin result).2.pending.Unawaited content := by
  have hwith : (r.withResult origin result).pending.Unawaited content := by
    rw [pending_withResult]
    exact hr
  exact hwith.filter _

/-- Data that no face waits for is placed nowhere. -/
theorem Event.not_mem_placed_deliver (hr : r.pending.Unawaited content) (other : Content)
    (id : FaceId) : content ∉ (Event.deliver r other).placed id := by
  intro hmem
  obtain ⟨rfl, e, he, hid, hsatisfied⟩ := Event.asked_of_mem_placed_deliver hmem
  rw [hr e he id hid] at hsatisfied
  cases hsatisfied

/-- As long as no face waits for some data, computations that are resumed in turn place it nowhere. -/
theorem not_mem_placed_cascade (hr : r.pending.Unawaited content)
    (agenda : List (ComputationId × Bytes)) (id : FaceId) :
    content ∉ (r.cascade agenda).flatMap (·.placed id) := by
  fun_induction wake r agenda with
  | case1 r =>
    rw [cascade]
    exact List.not_mem_nil
  | case2 r computation payload rest r' heq _ ih =>
    have hresumed := unawaited_resumeComputation hr computation payload
    rw [heq] at hresumed
    rw [cascade_of_none rest heq, List.flatMap_cons, Event.placed_resume, List.nil_append]
    exact ih hresumed
  | case3 r computation payload rest origin result r' heq _ ih =>
    have hresumed := unawaited_resumeComputation hr computation payload
    rw [heq] at hresumed
    have hwith : (r'.withResult origin result).pending.Unawaited content := by
      rw [pending_withResult]
      exact hresumed
    rw [cascade_of_some rest heq, List.flatMap_cons, List.flatMap_cons, Event.placed_resume,
      List.nil_append, List.mem_append, not_or]
    exact ⟨Event.not_mem_placed_deliver hwith _ id, ih (unawaited_announce hresumed origin result)⟩

/-- Handing data over takes out the entries that it answers. -/
theorem pending_handedOver (r : Relay) (source : FaceId) (content : Content) :
    (r.handedOver source content).2.pending = (r.pending.takeAnswered content).2 := by
  obtain ⟨store, stats, hcache⟩ := cache_eq
    { r.contentReceived source with pending := (r.pending.takeAnswered content).2 } content false
  rw [handedOver, hcache]
  rfl

/-- Handing data over puts it into the store. -/
theorem store_handedOver (r : Relay) (source : FaceId) (content : Content) :
    (r.handedOver source content).2.store = r.store.change (.put content false r.clock) :=
  store_cache _ content false

/-- Whether data that arrives takes a pending Interest away for good, and is put once on the queue of each
face that waits for it, unless that is full. -/
structure Fulfils (r : Relay) (source : FaceId) (content : Content) (e : PendingEntry) : Prop where
  delivered : ∃ queued resumed, (r.handleContent source content).1 = .ok (.delivered queued resumed)
  removed : (r.handleContent source content).2.pending.get? e.id = none
  offered : ∀ id ∈ e.faces, ∃ face others, r.faces.get? id = some face ∧ content ∉ others ∧
    (r.handleContent source content).2.faces.contents id =
      r.faces.contents id ++ (if face.IsFull then [] else [content]) ++ others

/-- Data that satisfies a pending Interest fulfils it, where no face is marked. -/
theorem fulfils_of_satisfied (hr : Attended r) (hm : r.faces.Unmarked) {source : FaceId}
    (hsource : r.faces.contains source = true) {e : PendingEntry} (he : e ∈ r.pending.entries)
    (hsatisfied : e.interest.satisfiedBy content false = true) : r.Fulfils source content e := by
  obtain ⟨hhandled, hjournal⟩ := handleContent_of_answered hsource (answered_of_satisfied he hsatisfied)
  have hpending := r.pending_handedOver source content
  have hcourse := r.course_handleContent source content
  rw [hhandled, hjournal] at hcourse
  refine ⟨⟨_, _, congrArg Prod.fst hhandled⟩, ?_, fun id hid => ?_⟩
  · have hpast : (r.handedOver source content).2.pending.Past e.id :=
      hpending ▸ hr.wellFormed.past_takeAnswered he hsatisfied
    rw [hhandled]
    exact (past_course (course_wake _ _) hpast).get?_eq_none
  · have hpresent := hr.present e he id hid
    rw [FaceTable.contains_eq_isSome] at hpresent
    obtain ⟨face, hf⟩ := Option.isSome_iff_exists.mp hpresent
    have hunawaited : (r.handedOver source content).2.pending.Unawaited content :=
      hpending ▸ .takeAnswered _ _
    have hasked : ∃ e ∈ ((r.contentReceived source).pending.takeAnswered content).1, id ∈ e.faces :=
      ⟨e, List.mem_filter.mpr ⟨he, hsatisfied⟩, hid⟩
    obtain ⟨face', hf', hmark, hfull⟩ : ∃ face', (r.contentReceived source).faces.get? id = some face' ∧
        face'.flags.served = false ∧ (face'.IsFull ↔ face.IsFull) := by
      have htouched := r.faces.get?_touch source r.clock id
      by_cases hsame : id = source
      · subst hsame
        rw [if_pos rfl, hf] at htouched
        exact ⟨{ face with lastUsed := r.clock }, htouched, hm id face hf, .rfl⟩
      · rw [if_neg hsame, hf] at htouched
        exact ⟨face, htouched, hm id face hf, .rfl⟩
    have hcontents := contents_course hcourse id
    rw [List.flatMap_cons, Event.placed_deliver hf' hasked, ← List.append_assoc] at hcontents
    simp only [hmark, hfull, Bool.false_eq_true, false_or] at hcontents
    rw [hhandled]
    exact ⟨face, _, hf, not_mem_placed_cascade hunawaited _ id, hcontents⟩

end Relay

end NamedFunctions
