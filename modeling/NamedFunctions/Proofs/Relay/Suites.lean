import Mathlib.Data.Bool.Basic
import NamedFunctions.Proofs.Packet.Wire
import NamedFunctions.Proofs.Relay.Stock

/-!
# Suites do not meet

Names of different suites never match, so a packet of one suite finds Interests, data and routes of this
suite only. Computations carry that on: what a computation asks for and what it yields is of the suite of
its Interest, and whoever waits with an Interest of a suite works for Interests of the suite. The tables
have one thing in common, which is room in the content store.
-/

namespace NamedFunctions

private theorem Name.suite_of_agrees {how : Name.Comparison} {name other : Name}
    (h : name.agrees how other = true) : name.suite = other.suite := by
  unfold Name.agrees at h
  rw [Bool.and_eq_true] at h
  exact beq_iff_eq.mp h.1

private theorem Interest.suite_of_satisfiedBy {interest : Interest} {content : Content} {stale : Bool}
    (h : interest.satisfiedBy content stale = true) :
    interest.name.suite = content.name.suite := by
  unfold Interest.satisfiedBy at h
  rw [Bool.and_eq_true] at h
  exact Name.suite_of_agrees h.1

private theorem Interest.suite_of_asksSame {a b : Interest} (h : a.asksSame b = true) :
    a.name.suite = b.name.suite := by
  unfold Interest.asksSame at h
  rw [Bool.and_eq_true] at h
  exact Name.suite_of_agrees h.1

private theorem Name.suite_of_ofUri {uri : String} {suite : Suite} {name : Name}
    (h : Name.ofUri uri suite = .ok name) : name.suite = suite := by
  obtain ⟨components, rfl⟩ := Name.exists_of_ofUri h
  exact Name.suite_classify _

/-- The suite of data in the cache. -/
def CacheEntry.suite (e : CacheEntry) : Suite := e.content.name.suite

namespace ContentStore

variable {store store' : ContentStore} {e : CacheEntry} {s : Suite}

/-- Whether data of a suite is looked up or put in. -/
def Change.OfSuite (s : Suite) : Change → Prop
  | lookup interest _ => interest.name.suite = s
  | put content _ _ => content.name.suite = s
  | _ => False

/-- Whether an entry makes room for data that is put into a store. -/
structure MakesRoom (store : ContentStore) (content : Content) (e : CacheEntry) : Prop where
  mem : e ∈ store.entries
  /-- The data takes no other's place. -/
  missing : store.get? content.name = none
  full : store.capacity.any (· ≤ store.entries.length) = true
  evicted : ∃ entries, evict store.entries = some entries ∧ e ∉ entries

private theorem mem_serveFirst_of_suite_ne {interest : Interest} {now : Nat}
    {entries entries' : List CacheEntry} {content : Content}
    (h : serveFirst interest now entries = some (content, entries'))
    (hne : e.suite ≠ interest.name.suite) : e ∈ entries' ↔ e ∈ entries := by
  induction entries generalizing entries' with
  | nil => cases h
  | cons first older ih =>
    rw [serveFirst] at h
    split at h
    · next hanswers =>
      cases h
      have hsuite : first.suite = interest.name.suite := (Interest.suite_of_satisfiedBy hanswers).symm
      have hfirst : e ≠ first := fun heq => hne (heq ▸ hsuite)
      have hserved : e ≠ { first with served := first.served + 1, lastUsed := now } := by
        intro heq
        exact hne ((congrArg CacheEntry.suite heq).trans hsuite)
      simp [hfirst, hserved]
    · obtain ⟨⟨content', older'⟩, hserve, heq⟩ := Option.map_eq_some_iff.mp h
      cases heq
      rw [List.mem_cons, List.mem_cons, ih hserve]

private theorem mem_lookup_of_suite_ne {interest : Interest} (now : Nat)
    (hne : e.suite ≠ interest.name.suite) :
    e ∈ (store.change (.lookup interest now)).entries ↔ e ∈ store.entries := by
  unfold change lookup
  dsimp only
  cases hserve : serveFirst interest now store.entries with
  | none => exact .rfl
  | some found => exact mem_serveFirst_of_suite_ne hserve hne

/-- Where data is put in, data of another suite stays as it is or makes room. -/
theorem mem_put_of_suite_ne {content : Content} (isStatic : Bool) (now : Nat)
    (hne : e.suite ≠ content.name.suite) :
    (e ∈ (store.change (.put content isStatic now)).entries → e ∈ store.entries) ∧
      (e ∈ store.entries → e ∈ (store.change (.put content isStatic now)).entries ∨
        store.MakesRoom content e) := by
  have hfresh (isStatic : Bool) : e ≠ .fresh content isStatic now := by
    rintro rfl
    exact hne rfl
  unfold change put
  dsimp only
  split
  · exact ⟨id, .inl⟩
  · split
    · next old hold =>
      split
      · exact ⟨id, .inl⟩
      · have hkey : e.hasKey content.name = false := by
          by_contra hkey
          exact hne (Name.suite_of_agrees (Bool.eq_true_of_not_eq_false hkey))
        have hne' := hfresh (isStatic || old.isStatic)
        unfold CacheEntry.fresh at hne'
        simp +contextual [hne', hkey]
    · next hnone =>
      have hne' := hfresh isStatic
      unfold CacheEntry.fresh at hne'
      cases hroom : store.makeRoom with
      | none => exact ⟨id, .inl⟩
      | some entries =>
        have hthinned := Thinned.makeRoom hroom
        unfold makeRoom at hroom
        simp only [Option.map_some, Option.getD_some, List.mem_cons, hne', false_or]
        refine ⟨fun he => hthinned.sublist.subset he, fun he => ?_⟩
        split at hroom
        · next hfull =>
          by_cases hkept : e ∈ entries
          · exact .inl hkept
          · exact .inr ⟨he, hnone, hfull, entries, hroom, hkept⟩
        · cases hroom
          exact .inl he

/-- Whether a store has come about from another with data of one suite, and data of other suites is as it
was or has made room. -/
def KeepsOthers (s : Suite) (store store' : ContentStore) : Prop :=
  ∃ changes : List Change, (∀ c ∈ changes, c.OfSuite s) ∧ store' = changes.foldl change store ∧
    ∀ e : CacheEntry, e.suite ≠ s →
      (e ∈ store'.entries → e ∈ store.entries) ∧
        (e ∈ store.entries → e ∈ store'.entries ∨
          ∃ before content isStatic now after,
            changes = before ++ .put content isStatic now :: after ∧
              (before.foldl change store).MakesRoom content e)

namespace KeepsOthers

private theorem refl (s : Suite) (store : ContentStore) : KeepsOthers s store store := by
  refine ⟨[], List.forall_mem_nil _, rfl, fun e _ => ⟨id, .inl⟩⟩

private theorem lookup (h : KeepsOthers s store store') {interest : Interest} (now : Nat)
    (hsuite : interest.name.suite = s) :
    KeepsOthers s store (store'.change (.lookup interest now)) := by
  obtain ⟨changes, hchanges, rfl, hothers⟩ := h
  refine ⟨changes ++ [.lookup interest now], ?_, by rw [List.foldl_append]; rfl, fun e hne => ?_⟩
  · exact List.forall_mem_append.mpr ⟨hchanges, List.forall_mem_singleton.mpr hsuite⟩
  · obtain ⟨hback, hforth⟩ := hothers e hne
    rw [← hsuite] at hne
    rw [mem_lookup_of_suite_ne now hne]
    refine ⟨hback, fun he => (hforth he).imp_right ?_⟩
    rintro ⟨before, content, isStatic, now', after, rfl, hroom⟩
    exact ⟨before, content, isStatic, now', after ++ [.lookup interest now], by simp, hroom⟩

private theorem put (h : KeepsOthers s store store') {content : Content} (isStatic : Bool) (now : Nat)
    (hsuite : content.name.suite = s) :
    KeepsOthers s store (store'.change (.put content isStatic now)) := by
  obtain ⟨changes, hchanges, rfl, hothers⟩ := h
  refine ⟨changes ++ [.put content isStatic now], ?_, by rw [List.foldl_append]; rfl, fun e hne => ?_⟩
  · exact List.forall_mem_append.mpr ⟨hchanges, List.forall_mem_singleton.mpr hsuite⟩
  · obtain ⟨hback, hforth⟩ := hothers e hne
    rw [← hsuite] at hne
    obtain ⟨hback', hforth'⟩ := mem_put_of_suite_ne isStatic now hne
    refine ⟨fun he => hback (hback' he), fun he => ?_⟩
    rcases hforth he with hkept | ⟨before, content', isStatic', now', after, rfl, hroom⟩
    · refine (hforth' hkept).imp_right fun hroom => ?_
      exact ⟨changes, content, isStatic, now, [], rfl, hroom⟩
    · right
      exact ⟨before, content', isStatic', now', after ++ [.put content isStatic now], by simp, hroom⟩

end KeepsOthers

end ContentStore

/-- The suite of a pending Interest. -/
def PendingEntry.suite (e : PendingEntry) : Suite := e.interest.name.suite

namespace PendingTable

/-- The pending Interests of other suites than one. -/
def others (table : PendingTable) (s : Suite) : List PendingEntry :=
  table.entries.filter (·.suite != s)

variable {table : PendingTable} {s : Suite} {id : PendingId}

private theorem others_insert {interest : Interest} (hsuite : interest.name.suite = s)
    (requester : Requester) (now : Nat) :
    (table.insert interest requester now).2.others s = table.others s := by
  simp [others, insert, PendingEntry.suite, hsuite]

private theorem others_modify {change : PendingEntry → PendingEntry}
    (hsuite : ∀ e ∈ table.entries, e.id = id → e.suite = s)
    (hchange : ∀ e, (change e).interest = e.interest) :
    (table.modify id change).others s = table.others s := by
  have hsame (e : PendingEntry) : (if e.id = id then change e else e).suite = e.suite := by
    unfold PendingEntry.suite
    split
    · rw [hchange]
    · rfl
  unfold others modify
  dsimp only
  rw [List.filter_map]
  have hkept : table.entries.filter ((·.suite != s) ∘ fun e => if e.id = id then change e else e) =
      table.others s := List.filter_congr fun e _ => by simp [hsame]
  rw [hkept]
  refine (List.map_congr_left fun e he => ?_).trans (List.map_id _)
  obtain ⟨hmem, hother⟩ := List.mem_filter.mp he
  have hne : e.id ≠ id := fun heq => bne_iff_ne.mp hother (hsuite e hmem heq)
  rw [if_neg hne]
  rfl

private theorem others_filter {keep : PendingEntry → Bool}
    (hkeep : ∀ e ∈ table.entries, e.suite ≠ s → keep e = true) :
    others { table with entries := table.entries.filter keep } s = table.others s := by
  unfold others
  rw [List.filter_filter]
  apply List.filter_congr
  intro e he
  by_cases hsuite : e.suite = s
  · simp [hsuite]
  · simp [hkeep e he hsuite]

end PendingTable

/-- The packet that an operation handles, if any. -/
def Operation.packet? : Operation → Option Packet
  | handleInterest _ interest => some (.interest interest)
  | handleContent _ content => some (.content content)
  | _ => none

namespace Relay

variable {s : Suite} {r r₀ : Relay}

/-- Whether a relay has come about from another with packets of one suite, and what is of other suites is
as it was: pending Interests, suspended computations, routes and, unless it has made room, data. Only
packets of this suite have come onto queues. -/
structure KeepsOthers (s : Suite) (r r' : Relay) : Prop where
  pending : r'.pending.others s = r.pending.others s
  suspended : ∀ c : Computation, c.origin.name.suite ≠ s →
    (c ∈ r'.computations.suspended ↔ c ∈ r.computations.suspended)
  routes : r'.routes = r.routes
  stored : ContentStore.KeepsOthers s r.store r'.store
  queued : ∀ id, ∃ sent, r'.faces.queue id = r.faces.queue id ++ sent ∧
    ∀ packet ∈ sent, packet.name.suite = s

/-- Whether a number can be that of a computation for an Interest of a suite: none of another suite had it
at the start. -/
def Owns (r₀ : Relay) (s : Suite) (id : ComputationId) : Prop :=
  ∀ c ∈ r₀.computations.suspended, c.id = id → c.origin.name.suite = s

/-- What holds on the way from one relay to another while packets of a suite are handled. -/
structure Confined (s : Suite) (r₀ r : Relay) : Prop extends KeepsOthers s r₀ r where
  wellFormed : r.pending.WellFormed
  /-- Those who wait for data of the suite work for Interests of the suite. -/
  waiting : ∀ e ∈ r.pending.entries, e.suite = s → ∀ id ∈ e.computations, r₀.Owns s id
  issued : r₀.computations.nextId ≤ r.computations.nextId

namespace Confined

private theorem queue (h : Confined s r₀ r) {faces : FaceTable}
    (hqueue : ∀ id, ∃ sent, faces.queue id = r.faces.queue id ++ sent ∧
      ∀ packet ∈ sent, packet.name.suite = s) : Confined s r₀ { r with faces } := by
  refine ⟨⟨h.pending, h.suspended, h.routes, h.stored, fun id => ?_⟩, h.wellFormed, h.waiting,
    h.issued⟩
  obtain ⟨before, hbefore, hsuite⟩ := h.queued id
  obtain ⟨sent, hsent, hsuite'⟩ := hqueue id
  refine ⟨before ++ sent, ?_, List.forall_mem_append.mpr ⟨hsuite, hsuite'⟩⟩
  rw [← List.append_assoc, ← hbefore]
  exact hsent

private theorem send (h : Confined s r₀ r) (id : FaceId) {packet : Packet} (hsuite : packet.name.suite = s) :
    Confined s r₀ (r.send id packet).2 := by
  have hqueue := r.queue_send id packet
  obtain ⟨faces, hsend⟩ := r.send_eq id packet
  rw [hsend] at hqueue ⊢
  refine h.queue fun x => ⟨_, hqueue x, fun p hp => ?_⟩
  split at hp
  · rw [List.mem_singleton.mp hp]
    exact hsuite
  · exact absurd hp List.not_mem_nil

private theorem serve (h : Confined s r₀ r) {content : Content} (hsuite : content.name.suite = s)
    (entries : List PendingEntry) : Confined s r₀ (r.serve content entries).2 := by
  have hqueue (x : FaceId) : ∃ sent, (r.serve content entries).2.faces.queue x =
      r.faces.queue x ++ sent ∧ ∀ packet ∈ sent, packet.name.suite = s := by
    refine ⟨_, r.queue_serve content entries x, fun p hp => ?_⟩
    split at hp
    · rw [List.mem_singleton.mp hp]
      exact hsuite
    · exact absurd hp List.not_mem_nil
  have hserved := h.queue hqueue
  exact ⟨⟨hserved.pending, hserved.suspended, hserved.routes, hserved.stored, hserved.queued⟩,
    hserved.wellFormed, hserved.waiting, hserved.issued⟩

private theorem rework (h : Confined s r₀ r) {pending : PendingTable} (hwellFormed : pending.WellFormed)
    (hothers : pending.others s = r.pending.others s)
    (hwaiting : ∀ e ∈ pending.entries, e.suite = s → ∀ id ∈ e.computations, r₀.Owns s id) :
    Confined s r₀ { r with pending } :=
  ⟨⟨hothers.trans h.pending, h.suspended, h.routes, h.stored, h.queued⟩, hwellFormed, hwaiting,
    h.issued⟩

private theorem filter (h : Confined s r₀ r) {keep : PendingEntry → Bool}
    (hkeep : ∀ e ∈ r.pending.entries, e.suite ≠ s → keep e = true) :
    Confined s r₀
      { r with pending := { r.pending with entries := r.pending.entries.filter keep } } :=
  h.rework (h.wellFormed.filter keep) (PendingTable.others_filter hkeep)
    fun e he => h.waiting e (List.mem_of_mem_filter he)

private theorem insert (h : Confined s r₀ r) {interest : Interest} (hsuite : interest.name.suite = s)
    {requester : Requester} (hrequester : ∀ id, requester = .computation id → r₀.Owns s id) :
    Confined s r₀ { r with pending := (r.pending.insert interest requester r.clock).2 } := by
  refine h.rework (h.wellFormed.insert _ _ _) (PendingTable.others_insert hsuite _ _) ?_
  intro e he hs id hid
  rcases List.mem_append.mp he with he | he
  · exact h.waiting e he hs id hid
  · rw [List.mem_singleton.mp he] at hid
    obtain ⟨request, hrequest, heq⟩ := PendingEntry.mem_computations.mp hid
    rw [List.mem_singleton.mp hrequest] at heq
    exact hrequester id heq

private theorem join (h : Confined s r₀ r) {e : PendingEntry} (he : e ∈ r.pending.entries)
    (hsuite : e.suite = s) {requester : Requester} (nonce : Option UInt32)
    (hrequester : ∀ id, requester = .computation id → r₀.Owns s id) :
    Confined s r₀
      { r with pending := (r.pending.addRequester e.id requester nonce r.clock).2 } := by
  refine h.rework (h.wellFormed.modify _ fun _ => rfl)
    (PendingTable.others_modify (fun e' he' hid => ?_) fun _ => rfl) ?_
  · rw [h.wellFormed.eq_of_id he' he hid]
    exact hsuite
  · intro e' he' hs id hid
    obtain ⟨e₀, he₀, rfl⟩ := List.mem_map.mp he'
    have hs₀ : e₀.suite = s := by
      split at hs
      · exact hs
      · exact hs
    split at hid
    · rcases PendingEntry.hasRequester_join.mp (PendingEntry.hasRequester_computation.mpr hid) with
        hnow | hbefore
      · exact hrequester id hnow.symm
      · exact h.waiting e₀ he₀ hs₀ id (PendingEntry.hasRequester_computation.mp hbefore)
    · exact h.waiting e₀ he₀ hs₀ id hid

/-- A computation that works for an Interest of the suite comes or goes. -/
theorem rearrange (h : Confined s r₀ r) {computations : ComputationTable}
    (hsuspended : ∀ c : Computation, c.origin.name.suite ≠ s →
      (c ∈ computations.suspended ↔ c ∈ r.computations.suspended))
    (hissued : r.computations.nextId ≤ computations.nextId) :
    Confined s r₀ { r with computations } :=
  ⟨⟨h.pending, fun c hc => (hsuspended c hc).trans (h.suspended c hc), h.routes, h.stored, h.queued⟩,
    h.wellFormed, h.waiting, Nat.le_trans h.issued hissued⟩

/-- A computation with a number that computations of the suite can have is one of the suite. -/
theorem suite_of_owns (h : Confined s r₀ r) {c : Computation} (hc : c ∈ r.computations.suspended)
    (hid : r₀.Owns s c.id) : c.origin.name.suite = s := by
  by_contra hne
  exact hne (hid c ((h.suspended c hne).mp hc) rfl)

end Confined

/-- Packets of a suite, with all that they set off, keep to it. -/
theorem traffic_confined (hbelow : ∀ c ∈ r₀.computations.suspended, c.id.val < r₀.computations.nextId) :
    Traffic (fun i => i.name.suite = s) (fun c => c.name.suite = s) (r₀.Owns s)
      (Confined s r₀) where
  nonce _ h := h
  external h hname := (Name.suite_of_ofUri hname).trans h
  result _ h := h
  wellFormed h := h.wellFormed
  origin h hc hid := h.suite_of_owns hc hid
  same _ hi _ hsame := (Interest.suite_of_asksSame hsame).trans hi
  waiting h hc he hsatisfied hid := by
    have hsuite := (Interest.suite_of_satisfiedBy hsatisfied).trans hc
    exact h.waiting _ he hsuite _ hid
  aside _ _ _ h :=
    ⟨⟨h.pending, h.suspended, h.routes, h.stored, h.queued⟩, h.wellFormed, h.waiting, h.issued⟩
  touch {r} id h := by
    refine h.queue fun x => ⟨[], ?_, List.forall_mem_nil _⟩
    rw [FaceTable.queue_touch, List.append_nil]
  lookup {r i c store} h hi hlookup := by
    obtain ⟨e, he, rfl, hanswers⟩ := ContentStore.mem_of_lookup hlookup
    have hstored := h.stored.lookup r.clock hi
    rw [← store_of_lookup hlookup] at hstored
    refine ⟨(Interest.suite_of_satisfiedBy hanswers).symm.trans hi, ?_⟩
    exact ⟨⟨h.pending, h.suspended, h.routes, hstored, h.queued⟩, h.wellFormed, h.waiting, h.issued⟩
  put {r c} isStatic {outcome store} h hc hput := by
    have hstored := h.stored.put isStatic r.clock hc
    rw [← store_of_put hput] at hstored
    exact ⟨⟨h.pending, h.suspended, h.routes, hstored, h.queued⟩, h.wellFormed, h.waiting, h.issued⟩
  sendInterest id h hi := h.send id hi
  sendContent id h hc := h.send id hc
  serve entries h hc := h.serve hc entries
  insert h hi hrequester := h.insert hi hrequester
  join nonce h he hi hrequester := h.join he hi nonce hrequester
  erase {r id} h hid := by
    refine h.filter fun e he hne => bne_iff_ne.mpr fun heq => ?_
    exact hne (hid e he heq)
  take {r c} h hc := by
    refine h.filter fun e he hne => ?_
    rw [Bool.not_eq_true']
    by_contra hsatisfied
    have hsame := Interest.suite_of_satisfiedBy (Bool.eq_true_of_not_eq_false hsatisfied)
    exact hne (hsame.trans hc)
  begin {r} h := by
    refine ⟨fun c hc hid => ?_, h.rearrange (fun _ _ => .rfl) (Nat.le_succ _)⟩
    have hlt := hbelow c hc
    have hissued := h.issued
    rw [hid] at hlt
    dsimp only at hlt
    omega
  release {r id} h hid := by
    refine h.rearrange (fun c hne => ?_) (Nat.le_refl _)
    refine ⟨List.mem_of_mem_filter, fun hc => List.mem_filter.mpr ⟨hc, bne_iff_ne.mpr ?_⟩⟩
    rintro rfl
    exact hne (h.suite_of_owns hc hid)
  suspend {r c name} h hid hc _ := by
    refine h.rearrange (fun c' hne => ⟨fun hc' => ?_, fun hc' => ?_⟩) (Nat.le_refl _)
    · rcases ComputationTable.mem_insert hc' with rfl | hc'
      · exact absurd hc hne
      · exact hc'
    · have hval : c'.id.val ≠ c.id.val := by
        intro hval
        have heq : c'.id = c.id := congrArg ComputationId.mk hval
        exact hne (h.suite_of_owns hc' (heq ▸ hid))
      unfold ComputationTable.insert
      rcases Nat.lt_or_gt_of_ne hval with hlt | hgt
      · exact List.mem_append_left _ (List.mem_filter.mpr ⟨hc', decide_eq_true hlt⟩)
      · refine List.mem_append_right _ (List.mem_cons_of_mem _ ?_)
        exact List.mem_filter.mpr ⟨hc', decide_eq_true hgt⟩

/-- In a reachable relay, those who wait for data of a suite work for Interests of the suite. -/
theorem confined_of_reachable {r : Relay} (hr : r.Reachable) (s : Suite) : Confined s r r := by
  have hlinked := linked_of_reachable hr
  have hstocks : Stocks (fun _ => True) (fun _ => True) r := by
    apply stocks_of_reachable ⟨fun _ _ => trivial, fun _ _ => trivial, fun _ _ => trivial⟩
    apply hr.mono
    intro op _
    cases op <;> trivial
  refine ⟨⟨rfl, fun _ _ => .rfl, rfl, .refl s r.store, fun id => ⟨[], ?_, List.forall_mem_nil _⟩⟩,
    hlinked.wellFormed, ?_, Nat.le_refl _⟩
  · rw [List.append_nil]
  · rintro e he hsuite id hid c hc rfl
    obtain ⟨name, hawaiting, hsame⟩ := hlinked.supplied e he c hc hid
    obtain ⟨-, name', hawaits⟩ := hstocks.suspended c hc
    obtain ⟨uri, huri⟩ := hawaits.external
    have hname : name = name' := Option.some.inj (hawaiting.symm.trans hawaits.awaiting)
    calc c.origin.name.suite
      _ = name.suite := by rw [hname, Name.suite_of_ofUri huri]
      _ = e.interest.name.suite := (Interest.suite_of_asksSame hsame).symm
      _ = s := hsuite

/-- In a reachable relay, handling a packet of a suite changes nothing of another suite, with all the
computations that it sets off: pending Interests, suspended computations and routes stay what they are,
data stays as it is unless it makes room, and all packets that come onto queues are of the suite. -/
theorem keepsOthers_of_packet {r : Relay} (hr : r.Reachable) {op : Operation} {packet : Packet}
    (hop : op.packet? = some packet) : KeepsOthers packet.name.suite r (r.perform op) := by
  have hconfined := confined_of_reachable hr packet.name.suite
  have hbelow : ∀ c ∈ r.computations.suspended, c.id.val < r.computations.nextId := fun c hc =>
    (linked_of_reachable hr).below c.id (ComputationTable.mem_ids.mpr ⟨c, hc, rfl⟩)
  cases op with
  | handleInterest source interest =>
    cases hop
    exact ((traffic_confined hbelow).handleInterest hconfined rfl source).toKeepsOthers
  | handleContent source content =>
    cases hop
    exact ((traffic_confined hbelow).handleContent hconfined rfl source).toKeepsOthers
  | _ => cases hop

/-- NDN data arrives at a relay with room for one piece of data, where CCNx data is cached and a CCNx
Interest is pending. The Interest stays pending; the data makes room or stays. -/
theorem keepsOthers_of_packet_cached :
    ∃ r₀ r : Relay, Relay.new { maxCacheEntries := some 1 } (.ofSeed 0) = .ok r₀ ∧
      r = r₀.performAll
        [.faceForPeer 0 (.unix "a"), .faceForPeer 1 (.unix "b"),
          .addRoute (.ofComponents [[0x61]] .ccnx2014) ⟨2⟩ .ccnx2014,
          .addRoute (.ofComponents [[0x61]]) ⟨2⟩ .ndn2013,
          .cacheContent (.ofPayload (.ofComponents [[0x62]] .ccnx2014) [0x31]) false,
          .handleInterest ⟨1⟩ (.ofName (.ofComponents [[0x61]] .ccnx2014)),
          .handleInterest ⟨1⟩ (.ofName (.ofComponents [[0x61]]))] ∧
      r.pending.ids = [⟨0⟩, ⟨1⟩] ∧ (r.pending.others .ndn2013).map (·.id) = [⟨0⟩] ∧
      r.store.entries.map (·.suite) = [.ccnx2014] ∧
      KeepsOthers .ndn2013 r
        (r.perform (.handleContent ⟨2⟩ (.ofPayload (.ofComponents [[0x61]]) [0x32]))) := by
  have hkept (r : Relay) (hr : r.Reachable) : KeepsOthers .ndn2013 r
      (r.perform (.handleContent ⟨2⟩ (.ofPayload (.ofComponents [[0x61]]) [0x32]))) := by
    have hpacket : Operation.packet?
        (.handleContent ⟨2⟩ (.ofPayload (.ofComponents [[0x61]]) [0x32])) =
          some (.content (.ofPayload (.ofComponents [[0x61]]) [0x32])) := rfl
    exact keepsOthers_of_packet hr hpacket
  have hnew : Relay.new { maxCacheEntries := some 1 } (.ofSeed 0) = .ok _ := rfl
  refine ⟨_, _, hnew, rfl, ?_, ?_, ?_, hkept _ (.performAll (.new hnew) fun _ _ => trivial)⟩
  · decide +kernel
  · decide +kernel
  · decide +kernel

end Relay

end NamedFunctions
