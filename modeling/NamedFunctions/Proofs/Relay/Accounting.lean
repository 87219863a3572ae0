import NamedFunctions.Proofs.Relay.Continuation
import NamedFunctions.Proofs.Relay.Handling

/-!
# Accounts of computations

A computation that was started has completed, has failed, is suspended, or was discarded with the pending
Interest that it waited in, and it is counted once. While it is being taken further it is in hand, and
counted nowhere; so the accounts of a relay are kept here up to a number of computations that are missing
from them.
-/

namespace NamedFunctions

/-- The counters that concern computations: how many were started, completed and failed. -/
def RelayStats.tally (s : RelayStats) : Nat × Nat × Nat :=
  (s.computationsStarted, s.computationsCompleted, s.computationsFailed)

namespace Relay

/-- Whether all computations that were started have ended or are suspended, but for so many. -/
def AccountsAllBut (r : Relay) (missing : Nat) : Prop :=
  r.stats.computationsStarted =
    r.stats.computationsCompleted + r.stats.computationsFailed + r.computations.size + missing

/-- How many computations a reply says that were discarded. -/
def replyDiscarded : Except RelayError CommandReply → Nat
  | .ok (.faceRemoved _ n) => n
  | _ => 0

/-- How many computations an operation says that it has discarded. -/
def discarded (r : Relay) : Operation → Nat
  | .removeFace face => (r.removeFace face).1.toOption.getD 0
  | .tick => r.tick.1.computationsDiscarded
  | .apply command => replyDiscarded (r.apply command).1
  | _ => 0

/-- How many computations some operations say that they have discarded, the first of them first. -/
def discardedBy (r : Relay) : List Operation → Nat
  | [] => 0
  | op :: ops => r.discarded op + (r.perform op).discardedBy ops

private theorem tally_propagate (r : Relay) (id : PendingId) :
    (r.propagate id).2.stats.tally = r.stats.tally := by
  unfold propagate
  split
  · rfl
  · next e _ =>
    split
    · rfl
    · next route _ =>
      dsimp only
      have hsend := r.stats_send route.face (.interest e.interest)
      split
      · rfl
      · split
        · next heq =>
          rw [heq] at hsend
          rw [← hsend]
          rfl
        · next heq =>
          rw [heq] at hsend
          exact congrArg RelayStats.tally hsend

private theorem tally_cache (r : Relay) (content : Content) (isStatic : Bool) :
    (r.cache content isStatic).stats.tally = r.stats.tally := by
  unfold cache
  split <;> rfl

private theorem tally_issue (r : Relay) (c : Computation) (name : Name) :
    (r.issue c name).2.stats.tally = r.stats.tally := by
  have hasked : (r.asked c name).2.stats.tally = r.stats.tally := tally_propagate _ _
  rw [issue_eq]
  split
  · exact hasked
  · exact hasked

private theorem tally_advance (r : Relay) (c : Computation) (name : Name) :
    (r.advance c name).2.stats.tally = r.stats.tally := by
  fun_induction advance r c name with
  | case1 r c name =>
    unfold await
    split
    · rfl
    · exact tally_issue r c name
  | case2 => rfl
  | case3 => rfl
  | case4 r c name content store _ r' c' name' _ _ ih => exact ih

private theorem tally_settle (r : Relay) (progress : Except ComputationError Progress) :
    (r.settle progress).2.stats.tally = r.stats.tally := by
  unfold settle
  split
  · rfl
  · rfl
  · exact tally_advance _ _ _

/-- How many computations are in hand when one has been taken further: one that has come to a result
is, until the result is delivered. -/
def Settled.inHand : Except RelayError Settled → Nat
  | .ok (.finished ..) => 1
  | _ => 0

/-- How many computations are suspended when one has been taken further: one that waits for data is. -/
def Settled.atRest : Except RelayError Settled → Nat
  | .ok (.waiting _) => 1
  | _ => 0

private theorem Carried.size_computations {r r' : Relay} {id : ComputationId}
    {outcome : Except RelayError Settled} (h : Carried r id outcome r')
    (hnew : id ∉ r.computations.ids) :
    r'.computations.size = r.computations.size + Settled.atRest outcome := by
  cases h with
  | stopped store stats hne =>
    unfold Settled.atRest
    split
    · next x => exact absurd rfl (hne x)
    · rfl
  | joined store stats hid => exact ComputationTable.size_insert (hid ▸ hnew)
  | issued store stats source nonces faces nonce hid =>
    exact ComputationTable.size_insert (hid ▸ hnew)
  | stranded => rfl

namespace AccountsAllBut

variable {r r' : Relay} {missing : Nat}

/-- What leaves the counters and the number of suspended computations alone leaves the accounts alone. -/
theorem aside (h : r.AccountsAllBut missing) (htally : r'.stats.tally = r.stats.tally)
    (hsize : r'.computations.size = r.computations.size) : r'.AccountsAllBut missing := by
  simp only [RelayStats.tally, Prod.mk.injEq] at htally
  unfold AccountsAllBut at h ⊢
  omega

/-- A computation that is taken further is suspended, has failed, or is in hand. -/
theorem carryOn (h : r.AccountsAllBut (missing + 1)) {id : ComputationId}
    (hnew : id ∉ r.computations.ids) {progress : Except ComputationError Progress}
    (hid : ∀ c name, progress = .ok (.suspended c name) → c.id = id ∧ c.awaiting = some name) :
    (r.carryOn progress).2.AccountsAllBut (missing + Settled.inHand (r.carryOn progress).1) := by
  have htally := r.tally_settle progress
  have hsize := (carried_carryOn r hid).size_computations hnew
  simp only [RelayStats.tally, Prod.mk.injEq] at htally
  unfold AccountsAllBut at h ⊢
  unfold Relay.carryOn at hsize ⊢
  rcases hsettle : r.settle progress with ⟨error | settled, r'⟩
  · rw [hsettle] at htally hsize
    dsimp only [count, Settled.inHand, Settled.atRest] at htally hsize ⊢
    omega
  · rw [hsettle] at htally hsize
    cases settled with
    | finished origin result =>
      dsimp only [Settled.inHand, Settled.atRest] at htally hsize ⊢
      omega
    | waiting x =>
      dsimp only [Settled.inHand, Settled.atRest] at htally hsize ⊢
      omega

/-- A computation that is resumed is suspended again, has failed, or is in hand with its result. -/
theorem resumeComputation (h : r.AccountsAllBut missing) {id : ComputationId}
    (hnodup : r.computations.ids.Nodup) (hid : id ∈ r.computations.ids) (payload : Bytes) :
    (r.resumeComputation id payload).2.AccountsAllBut
      (missing + (r.resumeComputation id payload).1.toList.length) := by
  obtain ⟨c, hc⟩ := ComputationTable.exists_get?_iff.mpr hid
  have hcid := (ComputationTable.mem_of_get? hc).2
  have htaken :
      AccountsAllBut { r with computations := r.computations.erase id } (missing + 1) := by
    have hsize := ComputationTable.size_erase_of_mem hnodup hid
    unfold AccountsAllBut at h ⊢
    dsimp only
    omega
  have hnew : id ∉ (r.computations.erase id).ids := by
    rw [ComputationTable.ids_erase]
    simp
  have hcarried := htaken.carryOn hnew
    fun c' name (h : c.resume r.computations.stepLimit payload = .ok (.suspended c' name)) =>
      And.imp_left (·.trans hcid) (Computation.awaiting_of_resume h)
  rw [resumeComputation_of_some hc]
  generalize (Relay.carryOn _ _).1 = outcome at hcarried ⊢
  rcases outcome with error | settled
  · exact hcarried
  · cases settled with
    | finished origin result => exact hcarried
    | waiting x => exact hcarried

/-- A result that is delivered completes its computation. -/
theorem announce (h : r.AccountsAllBut (missing + 1)) (origin : Interest) (result : Bytes) :
    (r.announce origin result).2.AccountsAllBut missing := by
  have hcompleted : AccountsAllBut
      (r.count fun s => { s with computationsCompleted := s.computationsCompleted + 1 })
      missing := by
    unfold AccountsAllBut at h ⊢
    dsimp only [count]
    omega
  refine hcompleted.aside ?_ ?_
  · exact tally_cache _ (resultContent origin result) true
  · rw [computations_announce]
    rfl

/-- Whatever a cascade does, in the end no computation is in hand. -/
theorem wake (h : r.AccountsAllBut missing) {agenda : List (ComputationId × Bytes)}
    (hlinked : Linked r (agenda.map Prod.fst)) : (r.wake agenda).AccountsAllBut missing := by
  fun_induction Relay.wake r agenda with
  | case1 r => exact h
  | case2 r id payload rest r' heq _ ih =>
    have hid : id ∈ r.computations.ids := hlinked.matched.subset List.mem_cons_self
    have hresumed := h.resumeComputation hlinked.nodup hid payload
    have hrest := (hlinked.course (course_resumeComputation r id payload (rest.map Prod.fst))).1
    rw [heq] at hresumed hrest
    exact ih hresumed hrest
  | case3 r id payload rest origin result r' heq _ ih =>
    have hid : id ∈ r.computations.ids := hlinked.matched.subset List.mem_cons_self
    have hresumed := h.resumeComputation hlinked.nodup hid payload
    have hrest := (hlinked.course (course_resumeComputation r id payload (rest.map Prod.fst))).1
    rw [heq] at hresumed hrest
    have hnext := (hrest.course (course_announce r' origin result (rest.map Prod.fst))).1
    rw [← List.map_append] at hnext
    exact ih (hresumed.announce origin result) hnext

private theorem publish (h : r.AccountsAllBut (missing + 1)) (hlinked : Linked r []) (origin : Interest)
    (result : Bytes) : (r.publish origin result).AccountsAllBut missing := by
  have hannounced := (hlinked.course (course_announce r origin result [])).1
  rw [List.append_nil] at hannounced
  exact (h.announce origin result).wake hannounced

/-- A computation that begins is suspended, has failed, or is in hand with its result. -/
theorem begin (h : r.AccountsAllBut (missing + 1)) (hlinked : Linked r []) (interest : Interest) :
    ((r.beginComputation interest).2.carryOn (r.beginComputation interest).1).2.AccountsAllBut
      (missing + Settled.inHand
        ((r.beginComputation interest).2.carryOn (r.beginComputation interest).1).1) := by
  have hids : (r.beginComputation interest).2.computations.ids = r.computations.ids :=
    congrArg (List.map Computation.id) (r.suspended_beginComputation interest)
  have hnew : (⟨r.computations.nextId⟩ : ComputationId) ∉
      (r.beginComputation interest).2.computations.ids :=
    fun hmem => Nat.lt_irrefl _ (hlinked.below _ (hids ▸ hmem))
  have hbegun : (r.beginComputation interest).2.AccountsAllBut (missing + 1) := by
    refine h.aside ?_ (congrArg List.length (r.suspended_beginComputation interest))
    unfold beginComputation
    split <;> rfl
  exact hbegun.carryOn hnew fun _ _ => awaiting_of_beginComputation

/-- A computation is counted as started before its expression is read. -/
theorem startComputation (h : r.AccountsAllBut missing) (hlinked : Linked r [])
    (interest : Interest) : (r.startComputation interest).2.AccountsAllBut missing := by
  have hstarted : AccountsAllBut
      (r.count fun s => { s with computationsStarted := s.computationsStarted + 1 })
      (missing + 1) := by
    unfold AccountsAllBut at h ⊢
    dsimp only [count]
    omega
  have hready : Linked
      (r.count fun s => { s with computationsStarted := s.computationsStarted + 1 }) [] :=
    hlinked.aside rfl rfl
  have hbegun := hstarted.begin hready interest
  have hrest := (hready.course (course_begin _ interest [])).1
  unfold Relay.startComputation
  dsimp only
  rcases heq : Relay.carryOn _ _ with ⟨error | settled, r'⟩
  · rw [heq] at hbegun
    exact hbegun
  · rw [heq] at hbegun hrest
    cases settled with
    | finished origin result => exact hbegun.publish hrest origin result
    | waiting x => exact hbegun

private theorem propagate (h : r.AccountsAllBut missing) (id : PendingId) :
    (r.propagate id).2.AccountsAllBut missing :=
  h.aside (tally_propagate r id) (by rw [computations_propagate])

private theorem forward (h : r.AccountsAllBut missing) (source : FaceId) (interest : Interest) :
    (r.forward source interest).2.AccountsAllBut missing := by
  have hinserted : AccountsAllBut
      { r with pending := (r.pending.insert interest (.face source) r.clock).2 } missing :=
    h.aside rfl rfl
  have hsent : (r.sentOn source interest).2.AccountsAllBut missing := hinserted.propagate _
  rw [snd_forward]
  split
  · exact hsent
  · exact hsent.aside rfl rfl

private theorem aggregate (h : r.AccountsAllBut missing) (source : FaceId) (interest : Interest)
    (id : PendingId) : (r.aggregate source interest id).2.AccountsAllBut missing := by
  have hjoined : (r.joined source interest id).AccountsAllBut missing := h.aside rfl rfl
  rw [snd_aggregate]
  split
  · exact hjoined.propagate id
  · exact hjoined

private theorem resolve (h : r.AccountsAllBut missing) (hlinked : Linked r []) {source : FaceId}
    (hsource : r.faces.contains source = true) (interest : Interest) :
    (r.resolve source interest).2.AccountsAllBut missing := by
  cases hlookup : r.store.lookup interest r.clock with
  | some found =>
    have hanswered : ((r.fetched found.2).send source (.content found.1)).2.AccountsAllBut
        missing := by
      apply h.aside
      · rw [stats_send]
        rfl
      · rw [computations_send]
        rfl
    rw [snd_resolve_of_some hlookup]
    split
    · exact hanswered.aside rfl rfl
    · exact hanswered
  | none =>
    rw [Relay.resolve, hlookup]
    cases hnew : r.pending.findSame interest with
    | some id => exact h.aggregate source interest id
    | none =>
      dsimp only
      split
      · have hasked := hlinked.step (.ask interest hsource hnew)
        have hinserted : AccountsAllBut
            { r with pending := (r.pending.insert interest (.face source) r.clock).2 } missing :=
          h.aside rfl rfl
        exact hinserted.startComputation hasked interest
      · exact h.forward source interest

private theorem handleInterest (h : r.AccountsAllBut missing) (hlinked : Linked r []) (source : FaceId)
    (interest : Interest) : (r.handleInterest source interest).2.AccountsAllBut missing := by
  unfold Relay.handleInterest
  split
  · next hsource =>
    obtain ⟨nonces, nonceSource, haccept⟩ := accept_eq
      ((r.touch source).count fun s => { s with interestsReceived := s.interestsReceived + 1 })
      interest
    have hcontains := ((r.faces.quiet_touch source r.clock).contains_eq source).trans hsource
    dsimp only
    rcases heq : accept _ interest with ⟨accepted, r'⟩
    rw [heq] at haccept
    dsimp only at haccept
    have haccounts : r'.AccountsAllBut missing := by
      rw [haccept]
      exact h.aside rfl rfl
    cases accepted with
    | none => exact haccounts.aside rfl rfl
    | some interest' =>
      have hready : Linked r' [] := by
        rw [haccept]
        exact hlinked.aside rfl rfl
      have hthere : r'.faces.contains source = true := by
        rw [haccept]
        exact hcontains
      exact haccounts.resolve hready hthere interest'
  · exact h

private theorem handleContent (h : r.AccountsAllBut missing) (hlinked : Linked r []) (source : FaceId)
    (content : Content) : (r.handleContent source content).2.AccountsAllBut missing := by
  unfold Relay.handleContent
  split
  · have htouched : AccountsAllBut
        ((r.touch source).count fun s => { s with contentReceived := s.contentReceived + 1 })
        missing := h.aside rfl rfl
    have hready : Linked
        ((r.touch source).count fun s => { s with contentReceived := s.contentReceived + 1 }) [] :=
      hlinked.aside rfl rfl
    dsimp only
    generalize (r.touch source).count _ = touched at htouched hready ⊢
    have hdelivered := hready.deliver content
    rw [List.append_nil] at hdelivered
    rcases heq : touched.pending.takeAnswered content with ⟨_ | ⟨e, entries⟩, pending⟩
    · exact htouched.aside rfl rfl
    · obtain ⟨store, stats, hcache⟩ := cache_eq { touched with pending } content false
      have htally := tally_cache { touched with pending } content false
      rw [heq] at hdelivered
      dsimp only at hcache ⊢
      rw [hcache] at htally ⊢
      have hserved : AccountsAllBut
          ({ touched with pending, store, stats }.serve content (e :: entries)).2 missing :=
        htouched.aside htally rfl
      apply hserved.wake
      rw [← map_fst_agenda (touched.serve content (e :: entries)).1.2 content.payload] at hdelivered
      exact hdelivered.aside rfl rfl
  · exact h

end AccountsAllBut

/-- A pending Interest that goes away counts the computations that it takes along. -/
theorem size_forget {r : Relay} (hnodup : r.computations.ids.Nodup) (e : PendingEntry) :
    (r.forget e).1 + (r.forget e).2.computations.size = r.computations.size ∧
      (r.forget e).2.computations.ids.Nodup := by
  have hstart : (0, r.computations).2.ids.Nodup := hnodup
  have h := ComputationTable.size_foldl_discardCounting e.computations hstart
  rw [← r.forget_computations e, Nat.zero_add] at h
  exact h

namespace AccountsAllBut

variable {r : Relay} {missing : Nat}

private theorem forget (h : r.AccountsAllBut missing) (hnodup : r.computations.ids.Nodup)
    (e : PendingEntry) : (r.forget e).2.AccountsAllBut (missing + (r.forget e).1) := by
  have hsize := (size_forget hnodup e).1
  have hstats : (r.forget e).2.stats = r.stats := rfl
  unfold AccountsAllBut at h ⊢
  rw [hstats]
  omega

private theorem forgetAll (h : r.AccountsAllBut missing) (hnodup : r.computations.ids.Nodup)
    (entries : List PendingEntry) :
    (r.forgetAll entries).2.AccountsAllBut (missing + (r.forgetAll entries).1) := by
  induction entries generalizing r missing with
  | nil => exact h
  | cons e entries ih =>
    have hrest := ih (h.forget hnodup e) (size_forget hnodup e).2
    rw [Nat.add_assoc] at hrest
    exact hrest

/-- A face that is removed says how many computations went away with it. -/
theorem removeFace (h : r.AccountsAllBut missing) (hlinked : Linked r []) (id : FaceId) :
    (r.removeFace id).2.AccountsAllBut (missing + (r.removeFace id).1.toOption.getD 0) := by
  unfold Relay.removeFace
  split
  · have hdropped : AccountsAllBut
        { r with
          faces := r.faces.erase id
          routes := r.routes.eraseFace id
          pending := (r.pending.dropRequester (.face id)).2 } missing := h.aside rfl rfl
    exact hdropped.forgetAll hlinked.nodup (r.pending.dropRequester (.face id)).1
  · exact h

end AccountsAllBut

/-- Whether the accounts are kept in the course of a tick, up to what the tick has discarded so far. -/
structure Sweep.KeepsAccounts (missing : Nat) (sweep : Sweep) : Prop where
  linked : Linked sweep.2 []
  accounts : sweep.2.AccountsAllBut (missing + sweep.1.computationsDiscarded)

namespace Sweep.KeepsAccounts

variable {missing : Nat} {sweep : Sweep}

private theorem sweepFace (h : KeepsAccounts missing sweep) (id : FaceId) :
    KeepsAccounts missing (Relay.sweepFace sweep id) := by
  obtain ⟨report, r⟩ := sweep
  have hlinked := h.linked.removeFace id
  have haccounts := h.accounts.removeFace h.linked id
  unfold Relay.sweepFace
  dsimp only at hlinked haccounts ⊢
  rcases heq : r.removeFace id with ⟨error | n, r'⟩
  · rw [heq] at hlinked haccounts
    exact ⟨hlinked, haccounts⟩
  · rw [heq] at hlinked haccounts
    rw [Nat.add_assoc] at haccounts
    exact ⟨hlinked, haccounts⟩

private theorem sweepPending (h : KeepsAccounts missing sweep) (id : PendingId) :
    KeepsAccounts missing (Relay.sweepPending sweep id) := by
  refine ⟨h.linked.swept (swept sweep id), ?_⟩
  obtain ⟨report, r⟩ := sweep
  have haccounts := h.accounts
  unfold Relay.sweepPending
  dsimp only at haccounts ⊢
  split
  · exact haccounts
  · next e he =>
    split
    · have herased : AccountsAllBut { r with pending := r.pending.erase id }
          (missing + report.computationsDiscarded) := haccounts.aside rfl rfl
      have hforgotten := herased.forget h.linked.nodup e
      rw [Nat.add_assoc] at hforgotten
      exact hforgotten
    · have hretried : AccountsAllBut
          { r with pending := r.pending.modify id fun e => { e with retries := e.retries + 1 } }
          (missing + report.computationsDiscarded) := haccounts.aside rfl rfl
      have hsent := hretried.propagate id
      split
      · next heq =>
        rw [heq] at hsent
        exact hsent
      · next heq =>
        rw [heq] at hsent
        exact hsent

private theorem sweepStore (h : KeepsAccounts missing sweep) :
    KeepsAccounts missing (Relay.sweepStore sweep) :=
  ⟨h.linked.aside rfl rfl, h.accounts.aside rfl rfl⟩

private theorem sweepNonces (h : KeepsAccounts missing sweep) :
    KeepsAccounts missing (Relay.sweepNonces sweep) :=
  ⟨h.linked.aside rfl rfl, h.accounts.aside rfl rfl⟩

private theorem foldl {α : Type} {step : Sweep → α → Sweep} (h : KeepsAccounts missing sweep)
    (hstep : ∀ {sweep} x, KeepsAccounts missing sweep → KeepsAccounts missing (step sweep x))
    (xs : List α) : KeepsAccounts missing (xs.foldl step sweep) := by
  induction xs generalizing sweep with
  | nil => exact h
  | cons x xs ih => exact ih (hstep x h)

end Sweep.KeepsAccounts

namespace AccountsAllBut

variable {r : Relay} {missing : Nat}

/-- A tick reports how many computations went away with faces and pending Interests. -/
theorem tick (h : r.AccountsAllBut missing) (hlinked : Linked r []) :
    r.tick.2.AccountsAllBut (missing + r.tick.1.computationsDiscarded) := by
  have hstart : Sweep.KeepsAccounts missing ({}, { r with clock := r.clock + 1 }) :=
    ⟨hlinked.aside rfl rfl, h.aside rfl rfl⟩
  have hfaces := hstart.foldl (fun id h => h.sweepFace id)
    (r.faces.idle (r.clock + 1) r.config.faceTimeout)
  have hpending := hfaces.sweepStore.foldl fun id h => h.sweepPending id
  unfold Relay.tick
  exact (hpending _).sweepNonces.accounts

private theorem addRoute (h : r.AccountsAllBut missing) (name : Name) (face : FaceId) (suite : Suite) :
    (r.addRoute name face suite).2.AccountsAllBut missing := by
  obtain ⟨routes, heq⟩ := r.addRoute_eq name face suite
  rw [heq]
  exact h.aside rfl rfl

private theorem apply (h : r.AccountsAllBut missing) (hlinked : Linked r []) (command : Command) :
    (r.apply command).2.AccountsAllBut (missing + replyDiscarded (r.apply command).1) := by
  cases command with
  | addFace interface peer flags => exact h.aside rfl rfl
  | removeFace face =>
    have hremoved := h.removeFace hlinked face
    unfold Relay.apply
    dsimp only
    rcases heq : r.removeFace face with ⟨error | n, r'⟩
    · rw [heq] at hremoved
      exact hremoved
    · rw [heq] at hremoved
      exact hremoved
  | addRoute uri face suite =>
    unfold Relay.apply withName
    dsimp only
    split
    · next name _ =>
      have hadded := h.addRoute name face suite
      rcases heq : r.addRoute name face suite with ⟨error | replaced, r'⟩
      · rw [heq] at hadded
        exact hadded
      · rw [heq] at hadded
        exact hadded
    · exact h
  | removeRoute uri suite =>
    unfold Relay.apply withName
    dsimp only
    split
    · exact h.aside rfl rfl
    · exact h
  | markStale uri suite =>
    unfold Relay.apply withName
    dsimp only
    split
    · exact h.aside rfl rfl
    · exact h
  | flushCache => exact h.aside rfl rfl
  | setCacheCapacity entries => exact h.aside rfl rfl

private theorem perform (h : r.AccountsAllBut missing) (hlinked : Linked r []) (op : Operation) :
    (r.perform op).AccountsAllBut (missing + r.discarded op) := by
  cases op with
  | faceForPeer interface peer => exact h.aside rfl rfl
  | addStaticFace interface peer flags => exact h.aside rfl rfl
  | removeFace face => exact h.removeFace hlinked face
  | addRoute name face suite => exact h.addRoute name face suite
  | cacheContent content isStatic =>
    obtain ⟨store, heq⟩ := r.cacheContent_eq content isStatic
    rw [Relay.perform, heq]
    exact h.aside rfl rfl
  | drainReady now => exact h.aside rfl rfl
  | handleInterest source interest => exact h.handleInterest hlinked source interest
  | handleContent source content => exact h.handleContent hlinked source content
  | tick => exact h.tick hlinked
  | apply command => exact h.apply hlinked command

private theorem performAll (h : r.AccountsAllBut missing) (hlinked : Linked r []) (ops : List Operation) :
    (r.performAll ops).AccountsAllBut (missing + r.discardedBy ops) := by
  induction ops generalizing r missing with
  | nil => exact h
  | cons op ops ih =>
    have hrest := ih (h.perform hlinked op) (hlinked.effect (r.effect op))
    rw [Nat.add_assoc] at hrest
    exact hrest

end AccountsAllBut

/-- Every computation that was started has completed, has failed, is suspended, or is among those that
operations said they have discarded, and is only one of these. -/
theorem computationsStarted_performAll {config : RelayConfig} {source : NonceSource} {r : Relay}
    (hnew : Relay.new config source = .ok r) (ops : List Operation) :
    (r.performAll ops).stats.computationsStarted =
      (r.performAll ops).stats.computationsCompleted + (r.performAll ops).stats.computationsFailed +
        (r.performAll ops).computations.size + r.discardedBy ops := by
  have hreachable : r.Reachable := .new hnew
  have hlinked : Linked r [] := linked_of_reachable hreachable
  have hstart : r.AccountsAllBut 0 := by
    unfold Relay.new at hnew
    split at hnew
    · cases hnew
    · cases hnew
      rfl
  have h := hstart.performAll hlinked ops
  rw [Nat.zero_add] at h
  exact h

/-- One computation is discarded by a tick, the second completes, the third fails and the last is
suspended. -/
theorem computationsStarted_performAll_four :
    ∃ r₀ r : Relay, ∃ ops : List Operation,
      Relay.new { maxInterestRetransmit := 0 } (.ofSeed 0) = .ok r₀ ∧
      ops = [.faceForPeer 0 (.unix "a"), .faceForPeer 1 (.unix "b"),
        .addRoute (.ofComponents [[0x61]]) ⟨2⟩ .ndn2013,
        .handleInterest ⟨1⟩ (.ofName (.ofComponents [[0x2F, 0x61], Name.expressionMarker])),
        .tick,
        .handleInterest ⟨1⟩ (.ofName (.ofComponents [[0x78], Name.expressionMarker])),
        .handleInterest ⟨1⟩ (.ofName (.ofComponents [[0x5C], Name.expressionMarker])),
        .handleInterest ⟨1⟩ (.ofName (.ofComponents [[0x2F, 0x61], Name.expressionMarker]))] ∧
      r = r₀.performAll ops ∧ (r.stats.tally, r.computations.size) = ((4, 1, 1), 1) ∧
      r₀.discardedBy ops = 1 := by
  have hrest (r₀ : Relay) (hnew : Relay.new { maxInterestRetransmit := 0 } (.ofSeed 0) = .ok r₀)
      (ops : List Operation)
      (hcounts : ((r₀.performAll ops).stats.tally, (r₀.performAll ops).computations.size) =
        ((4, 1, 1), 1)) :
      ((r₀.performAll ops).stats.tally, (r₀.performAll ops).computations.size) = ((4, 1, 1), 1) ∧
        r₀.discardedBy ops = 1 := by
    have h := computationsStarted_performAll hnew ops
    refine ⟨hcounts, ?_⟩
    simp only [RelayStats.tally, Prod.mk.injEq] at hcounts
    omega
  -- The result of the second computation is announced, and no computation waits for it.
  have hcounts {r r' s : Relay} {interest accepted : Interest} (result : Bytes)
      (before after : List Operation)
      (hsource : (r.performAll before).faces.contains ⟨1⟩ = true)
      (haccept : ((r.performAll before).interestReceived ⟨1⟩).accept interest = (some accepted, r'))
      (hreduces : r'.Reduces accepted)
      (hfinished : (r'.begun ⟨1⟩ accepted).2.carryOn (r'.begun ⟨1⟩ accepted).1 =
        (.ok (.finished accepted result), s))
      (hawaited : (s.announce accepted result).1 = [])
      (hlast : (((s.announce accepted result).2.performAll after).stats.tally,
        ((s.announce accepted result).2.performAll after).computations.size) = ((4, 1, 1), 1)) :
      ((r.performAll (before ++ .handleInterest ⟨1⟩ interest :: after)).stats.tally,
        (r.performAll (before ++ .handleInterest ⟨1⟩ interest :: after)).computations.size) =
          ((4, 1, 1), 1) := by
    have hcomputed := handleInterest_of_finished hsource haccept hreduces hfinished hawaited
    have hafter : r.performAll (before ++ .handleInterest ⟨1⟩ interest :: after) =
        ((r.performAll before).handleInterest ⟨1⟩ interest).2.performAll after :=
      List.foldl_append
    rw [hafter, hcomputed]
    exact hlast
  have hnew : Relay.new { maxInterestRetransmit := 0 } (.ofSeed 0) = .ok _ := rfl
  refine ⟨_, _, _, hnew, rfl, rfl, hrest _ hnew _ (hcounts [0x78]
    [.faceForPeer 0 (.unix "a"), .faceForPeer 1 (.unix "b"),
      .addRoute (.ofComponents [[0x61]]) ⟨2⟩ .ndn2013,
      .handleInterest ⟨1⟩ (.ofName (.ofComponents [[0x2F, 0x61], Name.expressionMarker])), .tick]
    [.handleInterest ⟨1⟩ (.ofName (.ofComponents [[0x5C], Name.expressionMarker])),
      .handleInterest ⟨1⟩ (.ofName (.ofComponents [[0x2F, 0x61], Name.expressionMarker]))]
    ?_ rfl ⟨?_, ?_, ?_⟩ (Prod.ext (eq_finished_of_result? ?_) rfl) ?_ ?_)⟩
  all_goals decide +kernel

end Relay

end NamedFunctions
