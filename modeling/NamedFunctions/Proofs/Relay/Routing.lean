import NamedFunctions.Proofs.Relay.Consistency

/-!
# Where Interests go

A pending Interest goes where the longest route to its name leads. It does not go back to a face that
waits for it, unless that face reflects. So it is with all Interests that an operation puts on queues,
and the operation puts each of them there once.
-/

namespace NamedFunctions.Relay

variable {r : Relay} {kind : Operation → Prop}

private theorem distinct_removeFace (h : r.routes.Distinct) (id : FaceId) :
    (r.removeFace id).2.routes.Distinct := by
  by_cases hface : r.faces.contains id = true
  · obtain ⟨nonces, hremove⟩ := r.removeFace_eq hface
    rw [hremove]
    exact h.eraseFace id
  · rw [removeFace, if_neg hface]
    exact h

private theorem distinct_aged (h : r.routes.Distinct) : r.aged.2.routes.Distinct :=
  aged_induction (motive := fun s => s.routes.Distinct) r h (fun _ id hs => distinct_removeFace hs id)
    fun _ _ hs => hs

private theorem distinct_addRoute (h : r.routes.Distinct) (name : Name) (face : FaceId) (suite : Suite) :
    (r.addRoute name face suite).2.routes.Distinct := by
  unfold addRoute
  split
  · exact h.insert name face suite
  · exact h

private theorem distinct_apply (h : r.routes.Distinct) (command : Command) :
    (r.apply command).2.routes.Distinct := by
  cases command with
  | addFace => exact h
  | removeFace face => exact distinct_removeFace h face
  | addRoute uri face suite =>
    exact withName_induction (motive := fun s => s.routes.Distinct) r uri suite h fun name =>
      distinct_addRoute h name face suite
  | removeRoute uri suite =>
    exact withName_induction (motive := fun s => s.routes.Distinct) r uri suite h fun name =>
      h.erase name suite
  | markStale uri suite =>
    exact withName_induction (motive := fun s => s.routes.Distinct) r uri suite h fun _ => h
  | flushCache => exact h
  | setCacheCapacity => exact h

private theorem distinct_untilPosting (h : r.routes.Distinct) (op : Operation) :
    (r.untilPosting op).routes.Distinct := by
  cases op with
  | faceForPeer => exact h
  | addStaticFace => exact h
  | removeFace face => exact distinct_removeFace h face
  | addRoute name face suite => exact distinct_addRoute h name face suite
  | cacheContent content isStatic =>
    obtain ⟨store, hstore⟩ := r.cacheContent_eq content isStatic
    have hroutes := congrArg routes hstore
    exact hroutes ▸ h
  | drainReady => exact h
  | handleInterest => exact h
  | handleContent => exact h
  | tick => exact distinct_aged h
  | apply command => exact distinct_apply h command

/-- The sending of Interests leaves the layout as it is. -/
theorem layout_perform (r : Relay) (op : Operation) :
    (r.perform op).layout = (r.untilPosting op).layout := by
  cases op with
  | handleInterest source interest => exact r.layout_handleInterest source interest
  | handleContent source content => exact r.layout_handleContent source content
  | tick => exact layout_sweeps r.aged.2.pending.ids r.aged
  | _ => rfl

/-- Whatever operations bring a relay about, it has one route at most for the same components in the same
suite. -/
theorem distinct_of_reachable (hr : ReachableBy kind r) : r.routes.Distinct := by
  induction hr with
  | new hnew =>
    obtain rfl := eq_of_new hnew
    exact .empty
  | perform _ _ ih =>
    rw [routes_of_layout (layout_perform _ _)]
    exact distinct_untilPosting ih _

/-- What the faces and the clock of a relay are once an operation has added and removed faces. -/
inductive Reseats (r : Relay) : Operation → FaceTable → Nat → Prop where
  | same {op : Operation} (htick : op ≠ .tick) (hremoved : op.removed? = none) :
      Reseats r op r.faces r.clock
  /-- A peer has its face, which may be new. -/
  | met (interface : Nat) (peer : Peer) :
      Reseats r (.faceForPeer interface peer) (r.faces.getOrCreate interface peer r.clock).2 r.clock
  /-- A face is set up as a command says. -/
  | placed {op : Operation} (interface : Nat) (peer : Peer) (flags : FaceFlags)
      (hmanaged : ¬ op.IsUnmanaged) (hremoved : op.removed? = none) :
      Reseats r op (r.faces.create interface peer flags r.clock).2 r.clock
  | released (now : Nat) : Reseats r (.drainReady now) (r.faces.popReady now).2 r.clock
  | removed {op : Operation} {id : FaceId} (hremoved : op.removed? = some id) :
      Reseats r op (r.removeFace id).2.faces r.clock
  | aged : Reseats r .tick r.aged.2.faces (r.clock + 1)

/-- Up to where an operation posts Interests, faces are reseated at most. -/
theorem reseats (r : Relay) (op : Operation) :
    Reseats r op (r.untilPosting op).faces (r.untilPosting op).clock := by
  have hremoves {op : Operation} {id : FaceId} (hremoved : op.removed? = some id) :
      Reseats r op (r.removeFace id).2.faces (r.removeFace id).2.clock := by
    rw [(r.clock_removeFace id).1]
    exact .removed hremoved
  cases op with
  | faceForPeer interface peer => exact .met interface peer
  | addStaticFace interface peer flags => exact .placed interface peer _ id rfl
  | removeFace face => exact hremoves rfl
  | addRoute name face suite =>
    obtain ⟨routes, hroute⟩ := r.addRoute_eq name face suite
    change Reseats r _ (r.addRoute name face suite).2.faces (r.addRoute name face suite).2.clock
    rw [hroute]
    exact .same nofun rfl
  | cacheContent content isStatic =>
    obtain ⟨store, hstore⟩ := r.cacheContent_eq content isStatic
    change Reseats r _ (r.cacheContent content isStatic).2.faces (r.cacheContent content isStatic).2.clock
    rw [hstore]
    exact .same nofun rfl
  | drainReady now => exact .released now
  | handleInterest => exact .same nofun rfl
  | handleContent => exact .same nofun rfl
  | tick =>
    rw [untilPosting, r.clock_aged]
    exact .aged
  | apply command =>
    have hmanages := r.manages command
    change Reseats r _ (r.apply command).2.faces (r.apply command).2.clock
    generalize (r.apply command).2 = r' at hmanages
    cases hmanages with
    | added interface peer flags => exact .placed interface peer _ id rfl
    | removed face => exact hremoves rfl
    | aside hremoved => exact .same nofun hremoved

/-- Removing a face leaves the others as they are. -/
theorem get?_faces_removeFace (r : Relay) (id x : FaceId) :
    (r.removeFace id).2.faces.get? x = r.faces.get? x ∨
      (r.removeFace id).2.faces.get? x = none := by
  refine removeFace_induction (motive := fun s => s.faces.get? x = r.faces.get? x ∨
    s.faces.get? x = none) r id (fun _ => .inl rfl) ?_
  intro _ _
  dsimp only
  rw [FaceTable.get?_erase]
  split
  · exact .inr rfl
  · exact .inl rfl

/-- An aged relay has some of the faces, as they were. -/
theorem get?_faces_aged (r : Relay) (x : FaceId) :
    r.aged.2.faces.get? x = r.faces.get? x ∨ r.aged.2.faces.get? x = none := by
  refine aged_induction (motive := fun s => s.faces.get? x = r.faces.get? x ∨
    s.faces.get? x = none) r (.inl rfl) ?_ fun _ _ hs => hs
  intro s id hs
  rcases s.get?_faces_removeFace id x with hsame | hgone
  · rw [hsame]
    exact hs
  · exact .inr hgone

/-- The queue of a face is as before, unless the face is gone, its number was given to another one, or pacing
has released packets. -/
theorem Reseats.queue {op : Operation} {table : FaceTable} {now : Nat} (h : Reseats r op table now)
    (x : FaceId) :
    table.queue x = r.faces.queue x ∨ r.faces.Gives table x ∧ table.queue x = [] ∨
      table.get? x = none ∨ ∃ now, op = .drainReady now ∧ table.queue x <:+ r.faces.queue x := by
  have hkept {table : FaceTable} (hget : table.get? x = r.faces.get? x ∨ table.get? x = none) :
      table.queue x = r.faces.queue x ∨ table.get? x = none := by
    refine hget.imp_left fun hsame => ?_
    rw [FaceTable.queue, hsame, ← FaceTable.queue]
  cases h with
  | same => exact .inl rfl
  | met interface peer =>
    exact (r.faces.queue_getOrCreate interface peer r.clock x).imp_right .inl
  | placed interface peer flags =>
    exact (r.faces.queue_create interface peer flags r.clock x).imp_right .inl
  | released now => exact .inr (.inr (.inr ⟨now, rfl, r.faces.queue_popReady_suffix now x⟩))
  | @removed _ id => exact (hkept (r.get?_faces_removeFace id x)).imp_right fun h => .inr (.inl h)
  | aged => exact (hkept (r.get?_faces_aged x)).imp_right fun h => .inr (.inl h)

/-- A number is given before Interests are sent. -/
theorem gives_iff {op : Operation} {x : FaceId} :
    r.Gives op x ↔ r.faces.Gives (r.untilPosting op).faces x := by
  have hnext : (r.perform op).faces.nextId = (r.untilPosting op).faces.nextId :=
    congrArg (fun layout => layout.2.2.1) (r.layout_perform op)
  rw [Gives, FaceTable.Gives, FaceTable.Gives, hnext]

/-- Until Interests are sent they leave queues only when pacing releases them, and with their faces. -/
theorem interests_untilPosting (r : Relay) (op : Operation) (x : FaceId) :
    (r.untilPosting op).faces.interests x <:+ r.faces.interests x ∧
      ((∀ now, op ≠ .drainReady now) → ¬ r.Gives op x → (r.perform op).faces.contains x = true →
        (r.untilPosting op).faces.interests x = r.faces.interests x) := by
  rw [contains_of_layout (r.layout_perform op), gives_iff]
  rcases (r.reseats op).queue x with hsame | ⟨hgives, hempty⟩ | hgone | ⟨now, rfl, hsuffix⟩
  · rw [FaceTable.interests, hsame, ← FaceTable.interests]
    exact ⟨List.suffix_refl _, fun _ _ _ => rfl⟩
  · rw [FaceTable.interests, hempty]
    exact ⟨List.nil_suffix, fun _ hnot => absurd hgives hnot⟩
  · rw [FaceTable.interests, FaceTable.queue, FaceTable.contains_eq_isSome, hgone]
    refine ⟨List.nil_suffix, fun _ _ hcontains => ?_⟩
    cases hcontains
  · exact ⟨hsuffix.filterMap Packet.interest?, fun hop => absurd rfl (hop now)⟩

/-- A pending Interest that is queued goes where its name leads, and not back. -/
theorem exists_route_of_propagate (hdistinct : r.routes.Distinct) {id : PendingId} {face : FaceId}
    (h : (r.propagate id).1 = some face) :
    ∃ e route, r.pending.get? id = some e ∧ r.routes.Leads e.interest.name route ∧
      route.face = face ∧
      ((r.faces.get? face).any (·.flags.reflect) = true ∨ face ∉ e.faces) := by
  unfold propagate at h
  split at h
  · cases h
  · next e he =>
    split at h
    · cases h
    · next route hroute =>
      dsimp only at h
      split at h
      · cases h
      · next hback =>
        have hface : route.face = face := by
          split at h
          · exact Option.some.inj h
          · cases h
        refine ⟨e, route, he, hdistinct.leads_of_lookup hroute, hface, ?_⟩
        rw [← hface]
        by_cases hreflect : (r.faces.get? route.face).any (·.flags.reflect) = true
        · exact .inl hreflect
        · right
          simpa [hreflect] using hback

/-- Whatever operations bring a relay about, an operation puts Interests on queues by postings only. What
was on the queue of a face that is there afterwards is still there before them, unless pacing has released
it or the number of the face was given to another one. Each posting is of a pending Interest as it is kept,
on the face of the longest route to its name at that moment, which reflects or does not wait for it then. No
pending Interest is posted twice. -/
theorem postings_of_reachable (hr : ReachableBy kind r) (op : Operation) :
    ∃ postings : List Posting,
      (∀ x, ∃ kept, kept <:+ r.faces.interests x ∧
        ((∀ now, op ≠ .drainReady now) → ¬ r.Gives op x →
          (r.perform op).faces.contains x = true → kept = r.faces.interests x) ∧
        (r.perform op).faces.interests x = kept ++ postedOn postings x) ∧
      (postings.map (·.id)).Nodup ∧
      ∀ p ∈ postings, Sends r op p.relay p.id ∧
        ∃ e route, p.relay.pending.get? p.id = some e ∧
          p.relay.routes.Leads e.interest.name route ∧ route.face = p.face ∧
          ((p.relay.faces.get? p.face).any (·.flags.reflect) = true ∨ p.face ∉ e.faces) := by
  obtain ⟨postings, hposts, hnodup⟩ := r.posts_perform op
  refine ⟨postings, ?_, hnodup (tidy_of_reachable hr).wellFormed, ?_⟩
  · intro x
    obtain ⟨hsuffix, hkept⟩ := r.interests_untilPosting op x
    exact ⟨_, hsuffix, hkept, hposts.queued x⟩
  · intro p hp
    obtain ⟨hsends, hqueued⟩ := hposts.sent p hp
    have hdistinct : p.relay.routes.Distinct := by
      rw [routes_of_layout hsends.layout]
      exact distinct_untilPosting (distinct_of_reachable hr) op
    exact ⟨hsends, exists_route_of_propagate hdistinct hqueued⟩

/-- The Interest of a face is posted on the one that its route leads to. -/
theorem postings_of_reachable_forwarded :
    ∃ r₀ r : Relay, Relay.new {} (.ofSeed 0) = .ok r₀ ∧
      r = r₀.performAll
        [.faceForPeer 0 (.unix "a"), .faceForPeer 1 (.unix "b"),
          .addRoute (.ofComponents [[0x61]]) ⟨2⟩ .ndn2013] ∧
      ∃ p : Posting,
        Sends r (.handleInterest ⟨1⟩ (.ofName (.ofComponents [[0x61], [0x62]]))) p.relay p.id ∧
          p.face = ⟨2⟩ ∧
          ∃ e route, p.relay.pending.get? p.id = some e ∧
            p.relay.routes.Leads e.interest.name route ∧ route.face = ⟨2⟩ ∧
            ((p.relay.faces.get? ⟨2⟩).any (·.flags.reflect) = true ∨ ⟨2⟩ ∉ e.faces) := by
  have hposted (r : Relay) (op : Operation) (hr : r.Reachable) (hbefore : r.faces.interests ⟨2⟩ = [])
      (hafter : (r.perform op).faces.interests ⟨2⟩ ≠ []) :
      ∃ p : Posting, Sends r op p.relay p.id ∧ p.face = ⟨2⟩ ∧
        ∃ e route, p.relay.pending.get? p.id = some e ∧
          p.relay.routes.Leads e.interest.name route ∧ route.face = ⟨2⟩ ∧
          ((p.relay.faces.get? ⟨2⟩).any (·.flags.reflect) = true ∨ ⟨2⟩ ∉ e.faces) := by
    obtain ⟨postings, hqueued, -, hpostings⟩ := postings_of_reachable hr op
    obtain ⟨kept, hkept, -, hinterests⟩ := hqueued ⟨2⟩
    rw [hbefore, List.suffix_nil] at hkept
    rw [hkept, List.nil_append] at hinterests
    rw [hinterests] at hafter
    obtain ⟨p, hp⟩ := List.exists_mem_of_ne_nil _ fun hnone =>
      hafter (congrArg (List.filterMap _) hnone)
    obtain ⟨hmem, hface⟩ := List.mem_filter.mp hp
    obtain ⟨hsends, e, route, he, hleads, hroute, hback⟩ := hpostings p hmem
    have hface : p.face = ⟨2⟩ := by simpa using hface
    rw [hface] at hroute hback
    exact ⟨p, hsends, hface, e, route, he, hleads, hroute, hback⟩
  have hnew : Relay.new {} (.ofSeed 0) = .ok _ := rfl
  refine ⟨_, _, hnew, rfl, hposted _ _ (.performAll (.new hnew) fun _ _ => trivial) ?_ ?_⟩
  · decide +kernel
  · decide +kernel

end NamedFunctions.Relay
