import NamedFunctions.Proofs.ContentStore
import NamedFunctions.Proofs.Relay.Upkeep

/-!
# What faces receive

All data that an operation places on the queue of a face is asked for: by the Interest that the face has
just sent, or by a pending Interest for which the face waits when the data is delivered.
-/

namespace NamedFunctions.Relay

/-- Data that is sent comes onto the queue of the face, if there is room. -/
theorem contents_send_content {r : Relay} {source : FaceId} {face : Face}
    (hf : r.faces.get? source = some face) (content : Content) (id : FaceId) :
    (r.send source (.content content)).2.faces.contents id =
      r.faces.contents id ++ if id = source ∧ ¬ face.IsFull then [content] else [] := by
  rw [FaceTable.contents, get?_faces_send hf]
  by_cases h : id = source
  · rw [if_pos h, Option.map_some, Option.getD_some, Face.contents_enqueue_content, h,
      FaceTable.contents, hf]
    by_cases hfull : face.IsFull
    · have : { face with lastUsed := r.clock }.IsFull := hfull
      simp [hfull, this, Face.contents]
    · have : ¬ { face with lastUsed := r.clock }.IsFull := hfull
      simp [hfull, this, Face.contents]
  · simp [h, FaceTable.contents]

private theorem contents_send_of_missing {r : Relay} {source : FaceId} (hf : r.faces.get? source = none)
    (packet : Packet) (id : FaceId) :
    (r.send source packet).2.faces.contents id = r.faces.contents id := by
  rw [faces_send_of_missing hf]

namespace Event

private theorem placed_of_append {event : Event} {id : FaceId} {contents : List Content}
    (h : event.faces.contents id = event.before.faces.contents id ++ contents) :
    event.placed id = contents := by
  rw [placed, h, List.drop_left]

/-- An answer is placed on the queue of the face that sent the Interest, if there is room. -/
theorem placed_answer {r : Relay} {source : FaceId} {face : Face}
    (hf : r.faces.get? source = some face) (interest : Interest) (content : Content) (id : FaceId) :
    (answer r source interest content).placed id =
      if id = source ∧ ¬ face.IsFull then [content] else [] :=
  placed_of_append (contents_send_content hf content id)

private theorem placed_answer_of_missing {r : Relay} {source : FaceId} (hf : r.faces.get? source = none)
    (interest : Interest) (content : Content) (id : FaceId) :
    (answer r source interest content).placed id = [] :=
  placed_of_append ((contents_send_of_missing hf _ id).trans (List.append_nil _).symm)

/-- Data that is delivered is placed once on the queue of each face that waits for it, unless the face
is marked or its queue is full. -/
theorem placed_deliver {r : Relay} {content : Content} {id : FaceId} {face : Face}
    (hf : r.faces.get? id = some face)
    (hasked : ∃ e ∈ (r.pending.takeAnswered content).1, id ∈ e.faces) :
    (deliver r content).placed id =
      if face.flags.served = true ∨ face.IsFull then [] else [content] :=
  placed_of_append (r.contents_serve content hf hasked)

private theorem placed_deliver_of_missing {r : Relay} {id : FaceId} (hf : r.faces.get? id = none)
    (content : Content) : (deliver r content).placed id = [] :=
  placed_of_append ((contents_serve_of_missing content _ hf).trans (List.append_nil _).symm)

private theorem placed_deliver_of_not_asked {r : Relay} {content : Content} {id : FaceId}
    (h : ¬ ∃ e ∈ (r.pending.takeAnswered content).1, id ∈ e.faces) :
    (deliver r content).placed id = [] :=
  placed_of_append ((r.contents_serve_of_not_asked content h).trans (List.append_nil _).symm)

/-- A computation that is resumed places nothing itself. -/
theorem placed_resume (r : Relay) (computation : ComputationId) (payload : Bytes) (id : FaceId) :
    (resume r computation payload).placed id = [] :=
  List.drop_length

/-- All that an event does to the data on a queue is to place some at its end. -/
theorem contents_faces (event : Event) (id : FaceId) :
    event.faces.contents id = event.before.faces.contents id ++ event.placed id := by
  cases event with
  | answer r source interest content =>
    cases hf : r.faces.get? source with
    | none =>
      rw [placed_answer_of_missing hf, List.append_nil]
      exact contents_send_of_missing hf _ id
    | some face =>
      rw [placed_answer hf]
      exact contents_send_content hf content id
  | deliver r content =>
    by_cases hasked : ∃ e ∈ (r.pending.takeAnswered content).1, id ∈ e.faces
    · cases hf : r.faces.get? id with
      | none =>
        rw [placed_deliver_of_missing hf, List.append_nil]
        exact contents_serve_of_missing content _ hf
      | some face =>
        rw [placed_deliver hf hasked]
        exact r.contents_serve content hf hasked
    · rw [placed_deliver_of_not_asked hasked, List.append_nil]
      exact r.contents_serve_of_not_asked content hasked
  | resume r computation payload =>
    rw [placed_resume, List.append_nil]
    rfl

/-- What an answer places is its data, for the face that sent the Interest. -/
theorem eq_of_mem_placed_answer {r : Relay} {source id : FaceId} {interest : Interest}
    {content other : Content} (h : other ∈ (answer r source interest content).placed id) :
    id = source ∧ other = content := by
  cases hf : r.faces.get? source with
  | none =>
    rw [placed_answer_of_missing hf] at h
    exact absurd h List.not_mem_nil
  | some face =>
    rw [placed_answer hf] at h
    split at h
    · next hcond => exact ⟨hcond.1, List.mem_singleton.mp h⟩
    · exact absurd h List.not_mem_nil

/-- What a delivery places is its data, for a face that waits in a pending Interest that the data
satisfies. -/
theorem asked_of_mem_placed_deliver {r : Relay} {id : FaceId} {content other : Content}
    (h : other ∈ (deliver r content).placed id) :
    other = content ∧
      ∃ e ∈ r.pending.entries, id ∈ e.faces ∧ e.interest.satisfiedBy content false = true := by
  by_cases hasked : ∃ e ∈ (r.pending.takeAnswered content).1, id ∈ e.faces
  · cases hf : r.faces.get? id with
    | none =>
      rw [placed_deliver_of_missing hf] at h
      exact absurd h List.not_mem_nil
    | some face =>
      rw [placed_deliver hf hasked] at h
      obtain ⟨e, he, hid⟩ := hasked
      obtain ⟨hmem, hsatisfied⟩ := List.mem_filter.mp he
      split at h
      · exact absurd h List.not_mem_nil
      · exact ⟨List.mem_singleton.mp h, e, hmem, hid, hsatisfied⟩
  · rw [placed_deliver_of_not_asked hasked] at h
    exact absurd h List.not_mem_nil

end Event

/-- Taking a computation further is quiet. -/
theorem Carried.quiet {r r' : Relay} {id : ComputationId} {outcome : Except RelayError Settled}
    (h : Carried r id outcome r') : r.faces.Quiet r'.faces := by
  cases h with
  | stopped => exact .refl _
  | joined => exact .refl _
  | issued _ _ _ _ _ _ _ _ _ hquiet => exact hquiet
  | stranded _ _ _ _ _ _ _ hquiet => exact hquiet

/-- A step places data as the journal says. -/
theorem contents_step {r r' : Relay} {agenda agenda' : List ComputationId} {events : List Event}
    (h : Step r agenda events r' agenda') (id : FaceId) :
    r'.faces.contents id = r.faces.contents id ++ events.flatMap (·.placed id) := by
  cases h with
  | aside _ _ hquiet =>
    rw [hquiet.contents_eq, List.flatMap_nil, List.append_nil]
  | ask => exact (List.append_nil _).symm
  | join => exact (List.append_nil _).symm
  | withdraw => exact (List.append_nil _).symm
  | answer source interest content =>
    rw [List.flatMap_singleton]
    exact (Event.answer r source interest content).contents_faces id
  | deliver content =>
    rw [List.flatMap_singleton]
    exact (Event.deliver r content).contents_faces id
  | resume payload _ hcarried =>
    rw [List.flatMap_singleton, Event.placed_resume, List.append_nil]
    exact hcarried.quiet.contents_eq id
  | miss payload =>
    rw [List.flatMap_singleton, Event.placed_resume, List.append_nil]
  | begin hcarried =>
    rw [List.flatMap_nil, List.append_nil]
    exact hcarried.quiet.contents_eq id

/-- A course places data as the journal says, event after event. -/
theorem contents_course {r r' : Relay} {agenda agenda' : List ComputationId} {events : List Event}
    (h : Course r agenda events r' agenda') (id : FaceId) :
    r'.faces.contents id = r.faces.contents id ++ events.flatMap (·.placed id) := by
  induction h with
  | refl => exact (List.append_nil _).symm
  | step first _ ih =>
    rw [ih, contents_step first, List.flatMap_append, List.append_assoc]

private theorem suffix_contents_removeFace (r : Relay) (face id : FaceId) :
    (r.removeFace face).2.faces.contents id <:+ r.faces.contents id := by
  refine removeFace_induction (motive := fun s => s.faces.contents id <:+ r.faces.contents id) r face
    (fun _ => List.suffix_refl _) ?_
  intro routes nonces
  dsimp only
  rw [FaceTable.contents, FaceTable.get?_erase]
  split
  · exact List.nil_suffix
  · exact List.suffix_refl _

/-- A tick places no data. -/
theorem suffix_contents_tick (r : Relay) (id : FaceId) :
    r.tick.2.faces.contents id <:+ r.faces.contents id := by
  refine tick_induction (motive := fun s => s.faces.contents id <:+ r.faces.contents id) r
    (List.suffix_refl _) ?_ ?_ ?_
  · intro s face hs
    exact (s.suffix_contents_removeFace face id).trans hs
  · intro s entry s' hs hswept
    cases hswept with
    | missing => exact hs
    | expired => exact hs
    | retried _ _ _ hquiet =>
      dsimp only
      rw [hquiet.contents_eq]
      exact hs
  · intro s store nonces hs
    exact hs

/-- An operation leaves some of the data at the end of a queue, and then places data as the journal
says. -/
theorem contents_perform (r : Relay) (op : Operation) (id : FaceId) :
    ∃ kept, kept <:+ r.faces.contents id ∧
      (r.perform op).faces.contents id = kept ++ (r.journal op).flatMap (·.placed id) := by
  have heffect := r.effect op
  generalize r.perform op = r' at heffect
  cases heffect with
  | course hcourse => exact ⟨_, List.suffix_refl _, contents_course hcourse id⟩
  | faces hjournal heased =>
    rw [hjournal]
    exact ⟨_, heased.contents id, (List.append_nil _).symm⟩
  | removal face hjournal =>
    rw [hjournal]
    exact ⟨_, r.suffix_contents_removeFace face id, (List.append_nil _).symm⟩
  | tick => exact ⟨_, r.suffix_contents_tick id, (List.append_nil _).symm⟩

private theorem answer_not_mem_cascade (r : Relay) (agenda : List (ComputationId × Bytes)) {s : Relay}
    {source : FaceId} {interest : Interest} {content : Content} :
    .answer s source interest content ∉ r.cascade agenda := by
  fun_induction wake r agenda with
  | case1 r =>
    rw [cascade]
    exact List.not_mem_nil
  | case2 r id payload rest r' h _ ih =>
    rw [cascade_of_none rest h]
    simpa only [List.mem_cons, reduceCtorEq, false_or] using ih
  | case3 r id payload rest origin result r' h _ ih =>
    rw [cascade_of_some rest h]
    simpa only [List.mem_cons, reduceCtorEq, false_or] using ih

private theorem answer_not_mem_reductionJournal (r : Relay) (asked : Interest) {s : Relay}
    {source : FaceId} {interest : Interest} {content : Content} :
    .answer s source interest content ∉ r.reductionJournal asked := by
  unfold reductionJournal
  dsimp only
  split
  · rw [publication]
    simpa only [List.mem_cons, reduceCtorEq, false_or] using answer_not_mem_cascade _ _
  · exact List.not_mem_nil

private theorem answer_not_mem_contentJournal (r : Relay) (from' : FaceId) (data : Content) {s : Relay}
    {source : FaceId} {interest : Interest} {content : Content} :
    .answer s source interest content ∉ r.contentJournal from' data := by
  unfold contentJournal
  split
  · dsimp only
    split
    · exact List.not_mem_nil
    · simpa only [List.mem_cons, reduceCtorEq, false_or] using answer_not_mem_cascade _ _
  · exact List.not_mem_nil

/-- An Interest that is accepted is the one that arrived, with a nonce. -/
theorem eq_withNonce_of_accept {r r' : Relay} {interest interest' : Interest}
    (h : r.accept interest = (some interest', r')) :
    ∃ nonce, interest' = interest.withNonce nonce := by
  unfold accept at h
  split at h
  · next nonce hnonce =>
    split at h
    · cases h
      refine ⟨nonce, ?_⟩
      rw [Interest.withNonce, hnonce, Option.getD_some, ← hnonce]
    · cases h
  · cases h
    exact ⟨_, rfl⟩

/-- An answer from the content store is that of an entry which answers the Interest that has just
arrived. -/
theorem entry_of_answer_mem_journal {r s : Relay} {op : Operation} {source : FaceId}
    {interest : Interest} {content : Content}
    (h : .answer s source interest content ∈ r.journal op) :
    ∃ asked, op = .handleInterest source asked ∧
      ∃ e ∈ r.store.entries, e.content = content ∧ asked.satisfiedBy content e.isStale = true := by
  cases op with
  | handleInterest from' asked =>
    change _ ∈ r.interestJournal from' asked at h
    unfold interestJournal at h
    split at h
    · dsimp only at h
      obtain ⟨nonces, nonceSource, haccept⟩ := accept_eq
        ((r.touch from').count fun s => { s with interestsReceived := s.interestsReceived + 1 }) asked
      split at h
      · next interest' r' heq =>
        obtain ⟨nonce, rfl⟩ := eq_withNonce_of_accept heq
        rw [heq] at haccept
        obtain rfl := haccept
        unfold resolutionJournal at h
        split at h
        · next hlookup =>
          cases List.mem_singleton.mp h
          obtain ⟨e, he, rfl, hanswers⟩ := ContentStore.mem_of_lookup hlookup
          exact ⟨asked, rfl, e, he, rfl, hanswers⟩
        · split at h
          · exact absurd h List.not_mem_nil
          · split at h
            · exact absurd h (answer_not_mem_reductionJournal _ _)
            · exact absurd h List.not_mem_nil
      · exact absurd h List.not_mem_nil
    · exact absurd h List.not_mem_nil
  | handleContent from' data => exact absurd h (r.answer_not_mem_contentJournal from' data)
  | _ => exact absurd h List.not_mem_nil

/-- Whatever an operation places on the queue of a face comes after what was there, and is asked for. It
answers the Interest that the face has just sent, with data from the content store that is fresh if it
has to be; or the face waits, when the data is delivered, in a pending Interest that it satisfies. -/
theorem contents_perform_asked (r : Relay) (op : Operation) (id : FaceId) :
    ∃ kept placed, kept <:+ r.faces.contents id ∧
      (r.perform op).faces.contents id = kept ++ placed ∧
      ∀ content ∈ placed,
        (∃ interest, op = .handleInterest id interest ∧
          ∃ e ∈ r.store.entries, e.content = content ∧
            interest.satisfiedBy content e.isStale = true ∧
            (interest.selectors.mustBeFresh = true → e.isStale = false)) ∨
        ∃ s, .deliver s content ∈ r.journal op ∧
          ∃ e ∈ s.pending.entries, id ∈ e.faces ∧ e.interest.satisfiedBy content false = true := by
  obtain ⟨kept, hkept, hcontents⟩ := r.contents_perform op id
  refine ⟨kept, _, hkept, hcontents, ?_⟩
  intro content hmem
  obtain ⟨event, hevent, hplaced⟩ := List.mem_flatMap.mp hmem
  cases event with
  | answer s source interest data =>
    obtain ⟨rfl, rfl⟩ := Event.eq_of_mem_placed_answer hplaced
    obtain ⟨asked, hop, e, he, hcontent, hsatisfied⟩ := entry_of_answer_mem_journal hevent
    exact .inl ⟨asked, hop, e, he, hcontent, hsatisfied, Interest.isFresh_of_satisfiedBy hsatisfied⟩
  | deliver s data =>
    obtain ⟨rfl, hasked⟩ := Event.asked_of_mem_placed_deliver hplaced
    exact .inr ⟨s, hevent, hasked⟩
  | resume s computation payload =>
    rw [Event.placed_resume] at hplaced
    exact absurd hplaced List.not_mem_nil

end NamedFunctions.Relay
