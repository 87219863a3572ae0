import NamedFunctions.Proofs.ContentStore.Refinement
import NamedFunctions.Proofs.Relay.Stranding

/-!
# What is refused

A relay that does not do what it is asked has not done a part of it: its checks come before its changes.
An Interest that has come back in a loop is noted on its face and in two counters, and nowhere else.
-/

namespace NamedFunctions

/-- Whether an error is that of an Interest which is accepted: there is no way for it, or its expression is
not reduced. -/
def RelayError.IsFailure : RelayError → Prop
  | noRoute _ => True
  | computation _ => True
  | _ => False

/-- Data that an indexed store cannot take leaves it as it was. -/
theorem IndexedStore.put_of_none {store : IndexedStore} {content : Content} {isStatic : Bool}
    {now : Nat} (h : (store.put content isStatic now).1 = none) :
    (store.put content isStatic now).2 = store := by
  rcases store.put_of_refused content isStatic now with hinserted | hreplaced | hsame
  · rw [h] at hinserted
    cases hinserted
  · rw [h] at hreplaced
    cases hreplaced
  · exact hsame

namespace Relay

variable {r r' : Relay} {source : FaceId} {interest : Interest} {error : RelayError}

private theorem isFailure_issue {c : Computation} {name : Name} (h : (r.issue c name).1 = .error error) :
    error.IsFailure := by
  rw [issue_eq] at h
  split at h
  · cases h
  · cases h
    trivial

private theorem isFailure_advance {c : Computation} {name : Name} (h : (r.advance c name).1 = .error error) :
    error.IsFailure := by
  fun_induction advance r c name with
  | case1 r c name =>
    unfold await at h
    split at h
    · cases h
    · exact isFailure_issue h
  | case2 =>
    cases h
    trivial
  | case3 => cases h
  | case4 r c name content store _ r₁ c' name' _ _ ih => exact ih h

private theorem isFailure_carryOn {progress : Except ComputationError Progress}
    (h : (r.carryOn progress).1 = .error error) : error.IsFailure := by
  rw [carryOn_eq] at h
  unfold settle at h
  split at h
  · cases h
    trivial
  · cases h
  · exact isFailure_advance h

private theorem isFailure_startComputation (h : (r.startComputation interest).1 = .error error) :
    error.IsFailure := by
  rw [startComputation_eq] at h
  split at h
  · next heq =>
    cases h
    exact isFailure_carryOn (congrArg Prod.fst heq)
  · cases h
  · cases h

private theorem isFailure_forward (h : (r.forward source interest).1 = .error error) : error.IsFailure := by
  unfold forward at h
  dsimp only at h
  split at h
  · cases h
  · cases h
    trivial

/-- An Interest whose nonce is recorded is neither one of an unknown face nor one that has come back. -/
theorem isFailure_resolve (h : (r.resolve source interest).1 = .error error) : error.IsFailure := by
  rw [resolve, lookup_eq_none_of_resolve h] at h
  dsimp only at h
  split at h
  · cases h
  · split at h
    · exact isFailure_startComputation h
    · exact isFailure_forward h

/-- An Interest is not accepted if its nonce is known. -/
theorem known_of_accept (h : r.accept interest = (none, r')) :
    ∃ nonce, interest.nonce = some nonce ∧ r.nonces.contains nonce = true := by
  cases hnonce : interest.nonce with
  | none =>
    unfold accept at h
    simp [hnonce] at h
  | some nonce =>
    cases hknown : r.nonces.contains nonce with
    | true => exact ⟨nonce, rfl, hknown⟩
    | false =>
      rw [accept_of_new hnonce hknown] at h
      cases h

private theorem handleInterest_eq_unknownFace_iff {id : FaceId} :
    (r.handleInterest source interest).1 = .error (.unknownFace id) ↔
      r.faces.contains source = false ∧ id = source := by
  cases hsource : r.faces.contains source with
  | false => simp [handleInterest, hsource, eq_comm]
  | true =>
    simp only [Bool.true_eq_false, false_and, iff_false]
    intro h
    rcases haccept : (r.interestReceived source).accept interest with ⟨_ | accepted, r'⟩
    · rw [handleInterest_of_refused hsource haccept] at h
      cases h
    · rw [handleInterest_of_accept hsource haccept] at h
      exact (isFailure_resolve h).elim

private theorem handleInterest_eq_duplicateNonce_iff {nonce : UInt32} :
    (r.handleInterest source interest).1 = .error (.duplicateNonce nonce) ↔
      r.faces.contains source = true ∧ interest.nonce = some nonce ∧
        r.nonces.contains nonce = true := by
  constructor
  · intro h
    cases hsource : r.faces.contains source with
    | false => simp [handleInterest, hsource] at h
    | true =>
      rcases haccept : (r.interestReceived source).accept interest with ⟨_ | accepted, r'⟩
      · obtain ⟨known, hnonce, hknown⟩ := known_of_accept haccept
        rw [handleInterest_of_refused hsource haccept, hnonce] at h
        cases h
        exact ⟨rfl, hnonce, hknown⟩
      · rw [handleInterest_of_accept hsource haccept] at h
        exact (isFailure_resolve h).elim
  · rintro ⟨hsource, hnonce, hknown⟩
    rw [handleInterest_of_known hsource hnonce hknown]

/-- Data is refused only if its face is not known. -/
theorem handleContent_eq_error_iff {content : Content} :
    (r.handleContent source content).1 = .error error ↔
      r.faces.contains source = false ∧ error = .unknownFace source := by
  unfold handleContent
  cases hsource : r.faces.contains source with
  | false => simp [eq_comm]
  | true =>
    simp only [if_true, Bool.true_eq_false, false_and, iff_false]
    split
    · simp
    · simp

/-- Whether a relay that refuses to do something is left as it was. -/
def IsAtomic {α : Type} (act : Relay → Except RelayError α × Relay) : Prop :=
  ∀ r error, (act r).1 = .error error → (act r).2 = r

private theorem isAtomic_addRoute (name : Name) (face : FaceId) (suite : Suite) :
    IsAtomic (·.addRoute name face suite) := by
  intro r error h
  dsimp only at h ⊢
  unfold addRoute at h ⊢
  split at h
  · cases h
  · next hface => rw [if_neg hface]

private theorem isAtomic_removeFace (id : FaceId) : IsAtomic (·.removeFace id) := by
  intro r error h
  dsimp only at h ⊢
  unfold removeFace at h ⊢
  split at h
  · cases h
  · next hface => rw [if_neg hface]

private theorem isAtomic_cacheContent (content : Content) (isStatic : Bool) :
    IsAtomic (·.cacheContent content isStatic) := by
  intro r error h
  dsimp only at h ⊢
  unfold cacheContent at h ⊢
  split at h
  · cases h
  · rfl

/-- A name that cannot be read is refused, and what is done with one that can is refused as a whole. -/
theorem isAtomic_withName (uri : String) (suite : Suite)
    {act : Relay → Name → Except RelayError CommandReply × Relay}
    (hact : ∀ name, IsAtomic (act · name)) : IsAtomic fun r => r.withName uri suite (act r) := by
  intro r error h
  dsimp only at h ⊢
  unfold withName at h ⊢
  cases hname : Name.ofUri uri suite with
  | error _ => rfl
  | ok name =>
    rw [hname] at h
    exact hact name r error h

/-- What answers otherwise refuses the same. -/
theorem IsAtomic.map {α β : Type} {act : Relay → Except RelayError α × Relay} (h : IsAtomic act)
    (reply : α → β) : IsAtomic fun r => ((act r).1.map reply, (act r).2) := by
  intro r error herror
  dsimp only at herror
  apply h r error
  cases hact : (act r).1 with
  | error e =>
    rw [hact] at herror
    cases herror
    rfl
  | ok answer =>
    rw [hact] at herror
    cases herror

/-- Commands that need no name and no face are never refused. -/
theorem isAtomic_apply (command : Command) : IsAtomic (·.apply command) := by
  cases command with
  | addFace => exact fun _ _ h => by cases h
  | removeFace face => exact (isAtomic_removeFace face).map _
  | addRoute uri face suite =>
    exact isAtomic_withName uri suite fun name => (isAtomic_addRoute name face suite).map _
  | removeRoute uri suite => exact isAtomic_withName uri suite fun name _ _ h => by cases h
  | markStale uri suite => exact isAtomic_withName uri suite fun name _ _ h => by cases h
  | flushCache => exact fun _ _ h => by cases h
  | setCacheCapacity => exact fun _ _ h => by cases h

/-- Whatever relay refuses a command, a route, the removal of a face or data for its content store is as it
was, and so is one that refuses a packet for its face; the store with an index that takes no data is the same
store. A relay that takes an Interest for one which has come back has noted that its face was used and
counted the Interest as received and as dropped. All else is as it was. -/
theorem unchanged_of_refused :
    (∀ command, IsAtomic (·.apply command)) ∧
    (∀ name face suite, IsAtomic (·.addRoute name face suite)) ∧
    (∀ id, IsAtomic (·.removeFace id)) ∧
    (∀ content isStatic, IsAtomic (·.cacheContent content isStatic)) ∧
    (∀ (store : IndexedStore) content isStatic now,
      (store.put content isStatic now).1 = none → (store.put content isStatic now).2 = store) ∧
    ∀ (r : Relay) (source : FaceId),
      (∀ interest id, (r.handleInterest source interest).1 = .error (.unknownFace id) →
        (r.handleInterest source interest).2 = r) ∧
      (∀ content id, (r.handleContent source content).1 = .error (.unknownFace id) →
        (r.handleContent source content).2 = r) ∧
      ∀ interest nonce, (r.handleInterest source interest).1 = .error (.duplicateNonce nonce) →
        (r.handleInterest source interest).2 =
          { r with
            faces := r.faces.modify source fun face => { face with lastUsed := r.clock }
            stats :=
              { r.stats with
                interestsReceived := r.stats.interestsReceived + 1
                interestsDropped := r.stats.interestsDropped + 1 } } := by
  refine ⟨isAtomic_apply, isAtomic_addRoute, isAtomic_removeFace, isAtomic_cacheContent,
    fun store content isStatic now => IndexedStore.put_of_none, fun r source => ⟨?_, ?_, ?_⟩⟩
  · intro interest id h
    have hsource := (handleInterest_eq_unknownFace_iff.mp h).1
    simp [handleInterest, hsource]
  · intro content id h
    have hsource := (handleContent_eq_error_iff.mp h).1
    simp [handleContent, hsource]
  · intro interest nonce h
    obtain ⟨hsource, hnonce, hknown⟩ := handleInterest_eq_duplicateNonce_iff.mp h
    rw [handleInterest_of_known hsource hnonce hknown]
    rfl

/-- An Interest has come back, and a route is to lead through a face that is not there. -/
theorem unchanged_of_refused_twice :
    ∃ (r₀ r : Relay) (i : Interest),
      Relay.new {} (.ofSeed 0) = .ok r₀ ∧
      i = (Interest.ofName (.ofComponents [[0x78]])).withNonce 7 ∧
      r = r₀.performAll
        [.faceForPeer 0 (.unix "a"), .faceForPeer 1 (.unix "b"),
          .addRoute (.ofComponents []) ⟨2⟩ .ndn2013, .handleInterest ⟨1⟩ i, .tick] ∧
      (r.handleInterest ⟨1⟩ i).1 = .error (.duplicateNonce 7) ∧
      (r.handleInterest ⟨1⟩ i).2.pending = r.pending ∧
      (r.apply (.addRoute "/x" ⟨3⟩ .ndn2013)).1 = .error (.unknownFace ⟨3⟩) ∧
      (r.apply (.addRoute "/x" ⟨3⟩ .ndn2013)).2 = r := by
  have hrefused {r : Relay} {i : Interest}
      (hlooped : (r.handleInterest ⟨1⟩ i).1 = .error (.duplicateNonce 7))
      (hroute : (r.apply (.addRoute "/x" ⟨3⟩ .ndn2013)).1 = .error (.unknownFace ⟨3⟩)) :
      (r.handleInterest ⟨1⟩ i).1 = .error (.duplicateNonce 7) ∧
        (r.handleInterest ⟨1⟩ i).2.pending = r.pending ∧
        (r.apply (.addRoute "/x" ⟨3⟩ .ndn2013)).1 = .error (.unknownFace ⟨3⟩) ∧
        (r.apply (.addRoute "/x" ⟨3⟩ .ndn2013)).2 = r := by
    obtain ⟨happly, -, -, -, -, hpackets⟩ := unchanged_of_refused
    have hsame := (hpackets r ⟨1⟩).2.2 i 7 hlooped
    refine ⟨hlooped, ?_, hroute, happly _ r _ hroute⟩
    rw [hsame]
  have hnew : Relay.new {} (.ofSeed 0) = .ok _ := rfl
  exact ⟨_, _, _, hnew, rfl, rfl, hrefused rfl rfl⟩

end Relay

end NamedFunctions
