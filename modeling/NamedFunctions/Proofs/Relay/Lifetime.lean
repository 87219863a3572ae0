import NamedFunctions.Proofs.Relay.Consistency
import NamedFunctions.Proofs.Relay.Continuation
import NamedFunctions.Proofs.Relay.Requests
import NamedFunctions.Proofs.Relay.Storage
import NamedFunctions.Proofs.Relay.Traffic

/-!
# How long Interests stay pending

With each tick a pending Interest runs out or is sent again, and how often it was sent again is the number
of ticks since it became pending. Those who join it refresh the tick of its last use, but never that number.
So each pending Interest is gone after a fixed number of ticks, and with it goes every computation that
waits there.
-/

namespace NamedFunctions

/-- How many ticks are among some operations. -/
def Operation.ticks (ops : List Operation) : Nat :=
  ops.countP fun op => match op with
    | tick => true
    | _ => false

private theorem Operation.ticks_tick_cons (ops : List Operation) :
    Operation.ticks (.tick :: ops) = 1 + Operation.ticks ops := by
  rw [ticks, List.countP_cons, Nat.add_comm]
  rfl

private theorem Operation.ticks_cons {op : Operation} (hop : op ≠ .tick) (ops : List Operation) :
    Operation.ticks (op :: ops) = 0 + Operation.ticks ops := by
  rw [ticks, List.countP_cons, Nat.add_comm]
  cases op with
  | tick => exact absurd rfl hop
  | _ => rfl

/-- All settings but the capacity of the content store, which is the only one that can be changed. -/
def RelayConfig.fixed (config : RelayConfig) : RelayConfig := { config with maxCacheEntries := none }

/-- How often a pending Interest is sent again, and for how many ticks it may be unused. -/
def RelayConfig.patience (config : RelayConfig) : Nat × Nat :=
  (config.maxInterestRetransmit, config.interestTimeout)

namespace PendingTable

/-- Whether a table can come about from another in the course of some ticks: what stays pending has been
sent again with each of them, and what is new with some of them at most. -/
structure Elapsed (ticks : Nat) (table table' : PendingTable) : Prop where
  nextId : table.nextId ≤ table'.nextId
  entries : ∀ e' ∈ table'.entries,
    (∃ e ∈ table.entries, e.id = e'.id ∧ e'.retries = e.retries + ticks) ∨
      table.nextId ≤ e'.id.val ∧ e'.retries ≤ ticks

namespace Elapsed

variable {table table' table'' : PendingTable} {n m : Nat}

private theorem refl (table : PendingTable) : Elapsed 0 table table :=
  ⟨Nat.le_refl _, fun e he => .inl ⟨e, he, rfl, rfl⟩⟩

private theorem trans (h : Elapsed n table table') (h' : Elapsed m table' table'') :
    Elapsed (n + m) table table'' := by
  refine ⟨Nat.le_trans h.nextId h'.nextId, fun e'' he'' => ?_⟩
  rcases h'.entries e'' he'' with ⟨e', he', hid', hretries'⟩ | ⟨hnew, hretries'⟩
  · rcases h.entries e' he' with ⟨e, he, hid, hretries⟩ | ⟨hnew, hretries⟩
    · exact .inl ⟨e, he, hid.trans hid', by omega⟩
    · exact .inr ⟨hid' ▸ hnew, by omega⟩
  · exact .inr ⟨Nat.le_trans h.nextId hnew, by omega⟩

private theorem insert (table : PendingTable) (interest : Interest) (requester : Requester) (now : Nat) :
    Elapsed 0 table (table.insert interest requester now).2 := by
  refine ⟨Nat.le_succ _, fun e he => ?_⟩
  rcases List.mem_append.mp he with he | he
  · exact .inl ⟨e, he, rfl, rfl⟩
  · rw [List.mem_singleton.mp he]
    exact .inr ⟨Nat.le_refl _, Nat.le_refl _⟩

private theorem modify (table : PendingTable) (id : PendingId) {change : PendingEntry → PendingEntry}
    (hid : ∀ e, (change e).id = e.id) (hretries : ∀ e, (change e).retries = e.retries) :
    Elapsed 0 table (table.modify id change) := by
  refine ⟨Nat.le_refl _, fun e' he' => ?_⟩
  obtain ⟨e, he, rfl⟩ := List.mem_map.mp he'
  refine .inl ⟨e, he, ?_⟩
  split
  · exact ⟨(hid e).symm, hretries e⟩
  · exact ⟨rfl, rfl⟩

private theorem filter (table : PendingTable) (keep : PendingEntry → Bool) :
    Elapsed 0 table { table with entries := table.entries.filter keep } :=
  ⟨Nat.le_refl _, fun e he => .inl ⟨e, List.mem_of_mem_filter he, rfl, rfl⟩⟩

private theorem withdraw (table : PendingTable) (interest : Interest) (requester : Requester) (now : Nat) :
    Elapsed 0 table ((table.insert interest requester now).2.erase
      (table.insert interest requester now).1) :=
  (Elapsed.insert table interest requester now).trans (.filter _ _)

private theorem dropRequester (table : PendingTable) (requester : Requester) :
    Elapsed 0 table (table.dropRequester requester).2 := by
  refine ⟨Nat.le_refl _, fun e' he' => ?_⟩
  obtain ⟨e, he, rfl, -⟩ := mem_dropRequester.mp he'
  exact .inl ⟨e, he, rfl, rfl⟩

end Elapsed

private theorem get?_erase_self (table : PendingTable) (id : PendingId) :
    (table.erase id).get? id = none := by
  rw [get?, List.find?_eq_none]
  intro e he
  simpa using (List.mem_filter.mp he).2

end PendingTable

namespace Relay

open PendingTable (Elapsed)

variable {r r' : Relay} {agenda agenda' : List ComputationId} {events : List Event}
  {kind : Operation → Prop}

/-- Packets, with all that they set off, leave the settings alone. -/
theorem traffic_config (config : RelayConfig) :
    Traffic (fun _ => True) (fun _ => True) (fun _ => True)
      (fun r => r.config = config ∧ r.pending.WellFormed) where
  nonce _ _ := trivial
  external _ _ := trivial
  result _ _ := trivial
  wellFormed h := h.2
  origin _ _ _ := trivial
  same _ _ _ _ := trivial
  waiting _ _ _ _ _ := trivial
  aside _ _ _ h := h
  touch _ h := h
  lookup h _ _ := ⟨trivial, h⟩
  put {_ _} _ {_ _} h _ _ := h
  sendInterest {r i} id h _ := by
    obtain ⟨faces, hsend⟩ := r.send_eq id (.interest i)
    rw [hsend]
    exact h
  sendContent {r c} id h _ := by
    obtain ⟨faces, hsend⟩ := r.send_eq id (.content c)
    rw [hsend]
    exact h
  serve _ h _ := h
  insert h _ _ := ⟨h.1, h.2.insert _ _ _⟩
  join _ h _ _ _ := ⟨h.1, h.2.modify _ fun _ => rfl⟩
  erase h _ := ⟨h.1, h.2.filter _⟩
  take h _ := ⟨h.1, h.2.filter _⟩
  begin h := ⟨trivial, h⟩
  release h _ := h
  suspend h _ _ _ := h

private theorem fixed_removeFace (r : Relay) (id : FaceId) :
    (r.removeFace id).2.config.fixed = r.config.fixed :=
  removeFace_induction (motive := fun s => s.config.fixed = r.config.fixed) r id (fun _ => rfl)
    fun _ _ => rfl

private theorem fixed_apply (r : Relay) (command : Command) :
    (r.apply command).2.config.fixed = r.config.fixed := by
  have hmanages := r.manages command
  generalize (r.apply command).2 = r' at hmanages
  cases hmanages with
  | added => rfl
  | removed face => exact r.fixed_removeFace face
  | aside => rfl

/-- No operation changes another setting. -/
theorem fixed_perform (hr : r.pending.WellFormed) (op : Operation) :
    (r.perform op).config.fixed = r.config.fixed := by
  cases op with
  | removeFace face => exact r.fixed_removeFace face
  | addRoute name face suite =>
    obtain ⟨routes, hroute⟩ := r.addRoute_eq name face suite
    rw [perform, hroute]
  | cacheContent content isStatic =>
    obtain ⟨store, hstore⟩ := r.cacheContent_eq content isStatic
    rw [perform, hstore]
  | handleInterest source interest =>
    have hconfig := ((traffic_config r.config).handleInterest ⟨rfl, hr⟩ trivial source
      (i := interest)).1
    exact congrArg RelayConfig.fixed hconfig
  | handleContent source content =>
    have hconfig := ((traffic_config r.config).handleContent ⟨rfl, hr⟩ trivial source
      (c := content)).1
    exact congrArg RelayConfig.fixed hconfig
  | tick =>
    refine tick_induction (motive := fun s => s.config.fixed = r.config.fixed) r rfl
      (fun s id hs => (s.fixed_removeFace id).trans hs) (fun s _ _ hs hswept => ?_)
      fun _ _ _ hs => hs
    cases hswept <;> exact hs
  | apply command => exact r.fixed_apply command
  | _ => rfl

/-- Operations leave the settings that a relay cannot change. -/
theorem fixed_performAll (h : Linked r []) (ops : List Operation) :
    (r.performAll ops).config.fixed = r.config.fixed := by
  induction ops generalizing r with
  | nil => rfl
  | cons op ops ih =>
    exact (ih (h.effect (r.effect op))).trans (fixed_perform h.wellFormed op)

/-- No operation changes how long Interests stay pending. -/
theorem patience_perform (hr : r.pending.WellFormed) (op : Operation) :
    (r.perform op).config.patience = r.config.patience := by
  have hpatience := congrArg RelayConfig.patience (fixed_perform hr op)
  exact hpatience

private theorem patience_performAll (h : Linked r []) (ops : List Operation) :
    (r.performAll ops).config.patience = r.config.patience := by
  have hpatience := congrArg RelayConfig.patience (fixed_performAll h ops)
  exact hpatience

private theorem Carried.elapsed {id : ComputationId} {outcome : Except RelayError Settled}
    (h : Carried r id outcome r') : Elapsed 0 r.pending r'.pending := by
  cases h with
  | stopped => exact .refl _
  | joined => exact .modify _ _ (fun _ => rfl) fun _ => rfl
  | issued => exact .insert _ _ _ _
  | stranded => exact .withdraw _ _ _ _

private theorem elapsed_step (h : Step r agenda events r' agenda') : Elapsed 0 r.pending r'.pending := by
  cases h with
  | aside hpending => exact hpending ▸ .refl _
  | ask => exact .insert _ _ _ _
  | join => exact .modify _ _ (fun _ => rfl) fun _ => rfl
  | withdraw => exact .withdraw _ _ _ _
  | answer source _ content =>
    rw [pending_send]
    exact .refl _
  | deliver => exact .filter _ _
  | resume _ _ hcarried => exact hcarried.elapsed
  | miss => exact .refl _
  | begin hcarried => exact hcarried.elapsed

private theorem elapsed_course (h : Course r agenda events r' agenda') : Elapsed 0 r.pending r'.pending := by
  induction h with
  | refl => exact .refl _
  | step first _ ih => exact (elapsed_step first).trans ih

private theorem elapsed_removeFace (r : Relay) (id : FaceId) :
    Elapsed 0 r.pending (r.removeFace id).2.pending :=
  removeFace_induction (motive := fun s => Elapsed 0 r.pending s.pending) r id (fun _ => .refl _)
    fun _ _ => .dropRequester _ _

/-- A tick that comes to the pending Interests has sent none again. -/
theorem elapsed_aged (hr : r.pending.WellFormed) :
    Elapsed 0 r.pending r.aged.2.pending ∧ r.aged.2.pending.WellFormed := by
  obtain ⟨store, haged⟩ := r.aged_eq
  rw [haged]
  refine List.foldlRecOn (motive := fun s : Relay => Elapsed 0 r.pending s.pending ∧ s.pending.WellFormed)
    _ _ ⟨.refl _, hr⟩ fun s hs id _ => ?_
  refine ⟨hs.1.trans (s.elapsed_removeFace id), ?_⟩
  exact removeFace_induction (motive := fun s => s.pending.WellFormed) s id (fun _ => hs.2)
    fun _ _ => hs.2.dropRequester _

private theorem config_aged (r : Relay) : r.aged.2.config = r.config := by
  obtain ⟨store, haged⟩ := r.aged_eq
  rw [haged]
  exact (clock_removeFaces { r with clock := r.clock + 1 } _).2

private theorem get?_of_swept {id : PendingId} (h : Swept r id r') :
    r'.pending.get? id = (r.pending.get? id).bind fun e =>
      if r.hasRunOut e then none else some { e with retries := e.retries + 1 } := by
  cases h with
  | missing hnone =>
    rw [hnone]
    rfl
  | expired he hout =>
    rw [he, Option.bind_some, if_pos hout]
    exact r.pending.get?_erase_self id
  | retried he hout =>
    have hid (e : PendingEntry) : { e with retries := e.retries + 1 }.id = e.id := rfl
    rw [he, Option.bind_some, if_neg hout]
    dsimp only
    rw [PendingTable.get?_modify _ _ _ hid, he, Option.map_some,
      if_pos (PendingTable.mem_of_get? he).2]

/-- Whether a tick comes to the pending Interest with a number when the relay is in some state. -/
def Reaches (r : Relay) (id : PendingId) (s : Relay) : Prop :=
  ∃ before after, r.aged.2.pending.ids = before ++ id :: after ∧
    s = (before.foldl sweepPending r.aged).2

/-- A tick comes to each pending Interest as it was when the first of them was reached. -/
theorem Reaches.spared {id : PendingId} {s : Relay} (h : Reaches r id s)
    (hr : r.pending.WellFormed) :
    s.pending.get? id = r.aged.2.pending.get? id ∧ s.clock = r.aged.2.clock ∧ s.config = r.config := by
  obtain ⟨before, after, hids, rfl⟩ := h
  have hnodup := (elapsed_aged hr).2.nodup
  rw [hids] at hnodup
  have hbefore : id ∉ before := fun hmem =>
    (List.nodup_append.mp hnodup).2.2 id hmem id List.mem_cons_self rfl
  have hspared := sparedBut_sweeps before r.aged
  exact ⟨hspared.others id hbefore, hspared.clock, hspared.config.trans r.config_aged⟩

/-- Once a tick has come to a pending Interest, it is gone if it had run out, and has been sent again
otherwise. -/
theorem get?_tick_of_reaches (hr : r.pending.WellFormed) {id : PendingId} {s : Relay}
    (hs : Reaches r id s) :
    r.tick.2.pending.get? id = (s.pending.get? id).bind fun e =>
      if s.hasRunOut e then none else some { e with retries := e.retries + 1 } := by
  obtain ⟨before, after, hids, rfl⟩ := hs
  have hnodup := (elapsed_aged hr).2.nodup
  rw [hids] at hnodup
  have hafter := (List.nodup_cons.mp (List.nodup_append.mp hnodup).2.1).1
  have hspared := sparedBut_sweeps after (sweepPending (before.foldl sweepPending r.aged) id)
  change (r.aged.2.pending.ids.foldl sweepPending r.aged).2.pending.get? id = _
  rw [hids, List.foldl_append, List.foldl_cons, hspared.others id hafter]
  exact get?_of_swept (swept _ id)

/-- What is pending after a tick was pending when the tick came to it, and had not run out. -/
theorem reaches_of_mem_tick (hr : r.pending.WellFormed) {e' : PendingEntry}
    (he' : r.tick.2.pending.get? e'.id = some e') :
    ∃ s e, Reaches r e'.id s ∧ s.pending.get? e'.id = some e ∧ s.hasRunOut e = false ∧
      e' = { e with retries := e.retries + 1 } := by
  by_cases hmem : e'.id ∈ r.aged.2.pending.ids
  · obtain ⟨before, after, hids⟩ := List.append_of_mem hmem
    have hreaches : Reaches r e'.id (before.foldl sweepPending r.aged).2 := ⟨before, after, hids, rfl⟩
    rw [get?_tick_of_reaches hr hreaches] at he'
    obtain ⟨e, he, hretried⟩ := Option.bind_eq_some_iff.mp he'
    split at hretried
    · cases hretried
    · next hstays =>
      exact ⟨_, e, hreaches, he, by simpa using hstays, (Option.some.inj hretried).symm⟩
  · have hnone : r.aged.2.pending.get? e'.id = none := PendingTable.get?_eq_none.mpr hmem
    have hspared := sparedBut_sweeps r.aged.2.pending.ids r.aged
    have hget : r.tick.2.pending.get? e'.id = r.aged.2.pending.get? e'.id :=
      hspared.others e'.id hmem
    rw [hget, hnone] at he'
    cases he'

/-- A tick lets Interests go away, and adds none. -/
theorem ids_tick (r : Relay) :
    r.tick.2.pending.nextId = r.pending.nextId ∧ r.tick.2.pending.ids ⊆ r.pending.ids := by
  refine tick_induction
    (motive := fun s => s.pending.nextId = r.pending.nextId ∧ s.pending.ids ⊆ r.pending.ids) r
    ⟨rfl, List.Subset.refl _⟩ (fun s id hs => ?_) (fun s id s' hs hswept => ?_) fun _ _ _ hs => hs
  · refine removeFace_induction
      (motive := fun s => s.pending.nextId = r.pending.nextId ∧ s.pending.ids ⊆ r.pending.ids) s id
      (fun _ => hs) fun routes nonces => ⟨hs.1, fun x hx => ?_⟩
    obtain ⟨e', he', rfl⟩ := PendingTable.mem_ids.mp hx
    obtain ⟨e, he, rfl, -⟩ := PendingTable.mem_dropRequester.mp he'
    exact hs.2 (PendingTable.mem_ids.mpr ⟨e, he, rfl⟩)
  · cases hswept with
    | missing => exact hs
    | expired =>
      refine ⟨hs.1, fun x hx => hs.2 ?_⟩
      obtain ⟨e, he, rfl⟩ := PendingTable.mem_ids.mp hx
      exact PendingTable.mem_ids.mpr ⟨e, List.mem_of_mem_filter he, rfl⟩
    | retried =>
      refine ⟨hs.1, fun x hx => hs.2 ?_⟩
      obtain ⟨e', he', rfl⟩ := PendingTable.mem_ids.mp hx
      obtain ⟨e, he, rfl⟩ := List.mem_map.mp he'
      refine PendingTable.mem_ids.mpr ⟨e, he, ?_⟩
      split
      · rfl
      · rfl

private theorem elapsed_perform (r : Relay) {op : Operation} (hop : op ≠ .tick) :
    Elapsed 0 r.pending (r.perform op).pending := by
  have heffect := r.effect op
  generalize r.perform op = r' at heffect
  cases heffect with
  | course hcourse => exact elapsed_course hcourse
  | faces => exact .refl _
  | removal id => exact r.elapsed_removeFace id
  | tick => exact absurd rfl hop

private theorem elapsed_tick (h : Linked r []) : Elapsed 1 r.pending r.tick.2.pending := by
  have hwellFormed : r.tick.2.pending.WellFormed := (h.effect (r.effect .tick)).wellFormed
  refine ⟨Nat.le_of_eq r.ids_tick.1.symm, fun e' he' => ?_⟩
  obtain ⟨s, e, hreaches, he, -, rfl⟩ :=
    reaches_of_mem_tick h.wellFormed (hwellFormed.get?_eq_some he')
  rw [(hreaches.spared h.wellFormed).1] at he
  have he := (PendingTable.mem_of_get? he).1
  rcases (elapsed_aged h.wellFormed).1.entries e he with ⟨e₀, he₀, hid, hretries⟩ | ⟨hnew, hretries⟩
  · exact .inl ⟨e₀, he₀, hid, congrArg (· + 1) hretries⟩
  · exact .inr ⟨hnew, Nat.succ_le_succ hretries⟩

/-- In the course of a run, what stays pending is sent again with each tick. -/
theorem elapsed_performAll (h : Linked r []) (ops : List Operation) :
    Elapsed (Operation.ticks ops) r.pending (r.performAll ops).pending ∧
      Linked (r.performAll ops) [] := by
  induction ops generalizing r with
  | nil => exact ⟨.refl _, h⟩
  | cons op ops ih =>
    obtain ⟨hrest, hlinked⟩ := ih (h.effect (r.effect op))
    refine ⟨?_, hlinked⟩
    by_cases hop : op = .tick
    · subst hop
      rw [Operation.ticks_tick_cons]
      exact (elapsed_tick h).trans hrest
    · rw [Operation.ticks_cons hop]
      exact (r.elapsed_perform hop).trans hrest

/-- No pending Interest is sent again more often than the settings say. -/
theorem retries_le_of_reachable (hr : ReachableBy kind r) :
    ∀ e ∈ r.pending.entries, e.retries ≤ r.config.maxInterestRetransmit := by
  induction hr with
  | new hnew =>
    obtain rfl := eq_of_new hnew
    exact fun _ h => absurd h List.not_mem_nil
  | @perform r op hr hop ih =>
    have hlinked := linked_of_reachable hr
    have hmax : (r.perform op).config.maxInterestRetransmit = r.config.maxInterestRetransmit :=
      congrArg Prod.fst (patience_perform hlinked.wellFormed op)
    rw [hmax]
    intro e' he'
    by_cases htick : op = .tick
    · subst htick
      have hwellFormed := (hlinked.effect (r.effect .tick)).wellFormed
      obtain ⟨s, e, hreaches, -, hout, rfl⟩ :=
        reaches_of_mem_tick hlinked.wellFormed (hwellFormed.get?_eq_some he')
      rw [hasRunOut, (hreaches.spared hlinked.wellFormed).2.2, Bool.or_eq_false_iff] at hout
      exact Nat.lt_of_not_le (of_decide_eq_false hout.2)
    · rcases (r.elapsed_perform htick).entries e' he' with ⟨e, he, -, hretries⟩ | ⟨-, hretries⟩
      · rw [hretries]
        exact ih e he
      · omega

/-- Whether a computation has begun, and waits in none of the pending Interests with later numbers. -/
structure WaitsBelow (r : Relay) (id : ComputationId) (bound : Nat) : Prop where
  begun : id.val < r.computations.nextId
  waits : ∀ e ∈ r.pending.entries, id ∈ e.computations → e.id.val < bound

namespace WaitsBelow

variable {id : ComputationId} {bound : Nat}

private theorem rework (h : WaitsBelow r id bound) (hnext : r.computations.nextId ≤ r'.computations.nextId)
    (hentries : ∀ e' ∈ r'.pending.entries, id ∈ e'.computations →
      ∃ e ∈ r.pending.entries, e.id = e'.id ∧ id ∈ e.computations) : WaitsBelow r' id bound := by
  refine ⟨Nat.lt_of_lt_of_le h.begun hnext, fun e' he' hid => ?_⟩
  obtain ⟨e, he, hsame, hmem⟩ := hentries e' he' hid
  exact hsame ▸ h.waits e he hmem

private theorem aside (h : WaitsBelow r id bound) (hpending : r'.pending = r.pending)
    (hnext : r.computations.nextId ≤ r'.computations.nextId) : WaitsBelow r' id bound :=
  h.rework hnext fun e he hid => ⟨e, hpending ▸ he, rfl, hid⟩

/-- Others may ask for data. -/
theorem insert (h : WaitsBelow r id bound) (interest : Interest) {requester : Requester}
    (hrequester : requester ≠ .computation id) :
    WaitsBelow { r with pending := (r.pending.insert interest requester r.clock).2 } id bound := by
  refine h.rework (Nat.le_refl _) fun e he hid => ?_
  rcases List.mem_append.mp he with he | he
  · exact ⟨e, he, rfl, hid⟩
  · rw [List.mem_singleton.mp he] at hid
    obtain ⟨request, hrequest, heq⟩ := PendingEntry.mem_computations.mp hid
    rw [List.mem_singleton.mp hrequest] at heq
    exact absurd heq hrequester

/-- Others may join those who wait. -/
theorem join (h : WaitsBelow r id bound) (entry : PendingId) {requester : Requester}
    (nonce : Option UInt32) (hrequester : requester ≠ .computation id) :
    WaitsBelow { r with pending := (r.pending.addRequester entry requester nonce r.clock).2 } id
      bound := by
  refine h.rework (Nat.le_refl _) fun e' he' hid => ?_
  obtain ⟨e, he, rfl⟩ := List.mem_map.mp he'
  refine ⟨e, he, ?_⟩
  split at hid
  · rcases PendingEntry.hasRequester_join.mp (PendingEntry.hasRequester_computation.mpr hid) with
      hnow | hbefore
    · exact absurd hnow.symm hrequester
    · exact ⟨by split <;> rfl, PendingEntry.hasRequester_computation.mp hbefore⟩
  · exact ⟨by split <;> rfl, hid⟩

private theorem filter (h : WaitsBelow r id bound) (keep : PendingEntry → Bool) :
    WaitsBelow
      { r with pending := { r.pending with entries := r.pending.entries.filter keep } } id bound :=
  h.rework (Nat.le_refl _) fun e he hid => ⟨e, List.mem_of_mem_filter he, rfl, hid⟩

/-- Other computations are taken further. -/
theorem carried (h : WaitsBelow r id bound) {other : ComputationId}
    {outcome : Except RelayError Settled} (hne : other ≠ id) (hcarried : Carried r other outcome r') :
    WaitsBelow r' id bound := by
  have hrequester : Requester.computation other ≠ .computation id := fun heq =>
    hne (Requester.computation.inj heq)
  cases hcarried with
  | stopped => exact h.aside rfl (Nat.le_refl _)
  | joined => exact (h.join _ none hrequester).aside rfl (Nat.le_refl _)
  | issued => exact (h.insert _ hrequester).aside rfl (Nat.le_refl _)
  | stranded => exact ((h.insert _ hrequester).filter _).aside rfl (Nat.le_refl _)

/-- No step lets a computation wait elsewhere unless it resumes it. -/
theorem step (h : WaitsBelow r id bound) (hstep : Step r agenda events r' agenda')
    (hresume : ∀ s payload, .resume s id payload ∉ events) : WaitsBelow r' id bound := by
  cases hstep with
  | aside hpending hcomputations => exact h.aside hpending (hcomputations ▸ Nat.le_refl _)
  | ask interest => exact h.insert interest (by simp)
  | join entry nonce => exact h.join entry nonce (by simp)
  | withdraw source interest => exact (h.insert interest (by simp)).filter _
  | answer source _ content =>
    exact h.aside (pending_send r source _)
      (Nat.le_of_eq (congrArg ComputationTable.nextId (computations_send r source _).symm))
  | deliver => exact (h.filter _).aside rfl (Nat.le_refl _)
  | @resume _ _ other _ _ payload _ hcarried =>
    have hne : other ≠ id := by
      rintro rfl
      exact hresume r payload List.mem_cons_self
    have htaken : WaitsBelow { r with computations := r.computations.erase other } id bound :=
      h.aside rfl (Nat.le_refl _)
    exact htaken.carried hne hcarried
  | miss => exact h
  | begin hcarried =>
    have hne : (⟨r.computations.nextId⟩ : ComputationId) ≠ id := by
      rintro rfl
      exact Nat.lt_irrefl _ h.begun
    have hbegun : WaitsBelow
        { r with computations := { r.computations with nextId := r.computations.nextId + 1 } } id
        bound := h.aside rfl (Nat.le_succ _)
    exact hbegun.carried hne hcarried

private theorem course (h : WaitsBelow r id bound) (hcourse : Course r agenda events r' agenda')
    (hresume : ∀ s payload, .resume s id payload ∉ events) : WaitsBelow r' id bound := by
  induction hcourse with
  | refl => exact h
  | step first _ ih =>
    refine ih (h.step first fun s payload hmem => ?_) fun s payload hmem => ?_
    · exact hresume s payload (List.mem_append_left _ hmem)
    · exact hresume s payload (List.mem_append_right _ hmem)

private theorem removeFace (h : WaitsBelow r id bound) (face : FaceId) :
    WaitsBelow (r.removeFace face).2 id bound := by
  refine removeFace_induction (motive := fun s => WaitsBelow s id bound) r face (fun _ => h) ?_
  intro routes nonces
  refine h.rework (Nat.le_refl _) fun e' he' hid => ?_
  obtain ⟨e, he, rfl, -⟩ := PendingTable.mem_dropRequester.mp he'
  rw [PendingEntry.computations_leave_face] at hid
  exact ⟨e, he, rfl, hid⟩

private theorem swept (h : WaitsBelow r id bound) {entry : PendingId} (hswept : Swept r entry r') :
    WaitsBelow r' id bound := by
  cases hswept with
  | missing => exact h
  | expired => exact (h.filter _).aside rfl (Nat.le_refl _)
  | retried =>
    refine h.rework (Nat.le_refl _) fun e' he' hid => ?_
    obtain ⟨e, he, rfl⟩ := List.mem_map.mp he'
    refine ⟨e, he, ?_⟩
    split at hid
    · exact ⟨by split <;> rfl, hid⟩
    · exact ⟨by split <;> rfl, hid⟩

private theorem perform (h : WaitsBelow r id bound) {op : Operation}
    (hresume : ∀ s payload, .resume s id payload ∉ r.journal op) :
    WaitsBelow (r.perform op) id bound := by
  have heffect := r.effect op
  generalize r.perform op = r' at heffect
  cases heffect with
  | course hcourse => exact h.course hcourse hresume
  | faces => exact h.aside rfl (Nat.le_refl _)
  | removal face => exact h.removeFace face
  | tick =>
    exact tick_induction (motive := fun s => WaitsBelow s id bound) r (h.aside rfl (Nat.le_refl _))
      (fun _ face hs => hs.removeFace face) (fun _ _ _ hs hswept => hs.swept hswept)
      fun _ _ _ hs => hs.aside rfl (Nat.le_refl _)

/-- A computation waits where it waited until it is resumed. -/
theorem performAll (h : WaitsBelow r id bound) {ops : List Operation}
    (hresume : ∀ s payload, .resume s id payload ∉ r.journalAll ops) :
    WaitsBelow (r.performAll ops) id bound := by
  induction ops generalizing r with
  | nil => exact h
  | cons op ops ih =>
    refine ih (h.perform fun s payload hmem => ?_) fun s payload hmem => ?_
    · exact hresume s payload (List.mem_append_left _ hmem)
    · exact hresume s payload (List.mem_append_right _ hmem)

end WaitsBelow

/-- When a tick comes to a pending Interest, it has been sent again with each tick since it became
pending. -/
theorem retries_of_reaches (hr : ReachableBy kind r) {op : Operation} {id : PendingId}
    (hnew : id ∉ r.pending.ids) (hcreated : id ∈ (r.perform op).pending.ids) {ops : List Operation}
    {s : Relay} (hs : Reaches ((r.perform op).performAll ops) id s) {e : PendingEntry}
    (he : s.pending.get? id = some e) : e.retries = Operation.ticks ops := by
  have hlinked := (linked_of_reachable hr).effect (r.effect op)
  obtain ⟨helapsed, hlater⟩ := elapsed_performAll hlinked ops
  obtain ⟨e₁, he₁, rfl⟩ := PendingTable.mem_ids.mp hcreated
  have hretries₁ : e₁.retries = 0 := by
    by_cases hop : op = .tick
    · subst hop
      exact absurd (r.ids_tick.2 hcreated) hnew
    · rcases (r.elapsed_perform hop).entries e₁ he₁ with ⟨e₀, he₀, hid, -⟩ | ⟨-, hretries⟩
      · exact absurd (PendingTable.mem_ids.mpr ⟨e₀, he₀, hid⟩) hnew
      · omega
  rw [(hs.spared hlater.wellFormed).1] at he
  obtain ⟨hmem, hid⟩ := PendingTable.mem_of_get? he
  rcases (helapsed.trans (elapsed_aged hlater.wellFormed).1).entries e hmem with
    ⟨e₂, he₂, hid₂, hretries⟩ | ⟨hlate, -⟩
  · rw [hlinked.wellFormed.eq_of_id he₂ he₁ (hid₂.trans hid)] at hretries
    omega
  · have hbelow := hlinked.wellFormed.below e₁.id hcreated
    rw [hid] at hlate
    omega

/-- After more ticks than an Interest is sent again at most, only later Interests are pending. -/
theorem nextId_le_of_ticks (hr : r.Reachable) {ops : List Operation}
    (hticks : r.config.maxInterestRetransmit < Operation.ticks ops) {id : PendingId}
    (hid : id ∈ (r.performAll ops).pending.ids) : r.pending.nextId ≤ id.val := by
  have hlinked := linked_of_reachable hr
  have hmax : (r.performAll ops).config.maxInterestRetransmit = r.config.maxInterestRetransmit :=
    congrArg Prod.fst (patience_performAll hlinked ops)
  obtain ⟨e, he, rfl⟩ := PendingTable.mem_ids.mp hid
  have hbound := retries_le_of_reachable (hr.performAll fun _ _ => trivial) e he
  rcases (elapsed_performAll hlinked ops).1.entries e he with ⟨_, -, -, hretries⟩ | ⟨hlater, -⟩
  · omega
  · exact hlater

/-- An Interest becomes pending, and what comes next takes `k - 1` ticks. If it is there still when the
next tick comes to it, then it goes away if `k` is more than Interests are sent again at most, or it was not
used for too long; otherwise it has now been sent again `k` times. So after one more tick than that no
Interest is pending that was before, and no computation is suspended that has not been resumed meanwhile. -/
theorem lifetime_of_reachable {r : Relay} (hr : r.Reachable) :
    (∀ op ops id k, id ∉ r.pending.ids → id ∈ (r.perform op).pending.ids →
      Operation.ticks ops + 1 = k →
        ∀ s e, Reaches ((r.perform op).performAll ops) id s → s.pending.get? id = some e →
          ((r.perform op).performAll ops).tick.2.pending.get? id =
            if k > r.config.maxInterestRetransmit ∨ s.clock - e.lastUsed ≥ r.config.interestTimeout then
              none
            else some { e with retries := k }) ∧
      ∀ ops, Operation.ticks ops ≥ r.config.maxInterestRetransmit + 1 →
        (∀ id ∈ r.pending.ids, id ∉ (r.performAll ops).pending.ids) ∧
          ∀ id ∈ r.computations.ids,
            (∃ s payload, .resume s id payload ∈ r.journalAll ops) ∨
              id ∉ (r.performAll ops).computations.ids := by
  have hlinked := linked_of_reachable hr
  refine ⟨fun op ops id k hnew hcreated hk s e hs he => ?_, fun ops hticks => ⟨fun id hid hlater => ?_,
    fun id hid => ?_⟩⟩
  · have hafter := hlinked.effect (r.effect op)
    have hlater := (elapsed_performAll hafter ops).2
    have hpatience := (patience_performAll hafter ops).trans (patience_perform hlinked.wellFormed op)
    have hretries := retries_of_reaches hr hnew hcreated hs he
    obtain ⟨hmax, htimeout⟩ := Prod.mk.inj hpatience
    rw [get?_tick_of_reaches hlater.wellFormed hs, he, Option.bind_some, hasRunOut,
      (hs.spared hlater.wellFormed).2.2, hmax, htimeout, hretries, hk]
    have hout : (decide (r.config.interestTimeout ≤ s.clock - e.lastUsed) ||
        decide (r.config.maxInterestRetransmit ≤ Operation.ticks ops)) = true ↔
        k > r.config.maxInterestRetransmit ∨ s.clock - e.lastUsed ≥ r.config.interestTimeout := by
      rw [Bool.or_eq_true, decide_eq_true_iff, decide_eq_true_iff]
      omega
    simp only [hout]
  · have hlate := nextId_le_of_ticks hr hticks hlater
    have hbelow := hlinked.wellFormed.below id hid
    omega
  · by_contra hstays
    obtain ⟨hnever, hsuspended⟩ := not_or.mp hstays
    have hwaits : WaitsBelow r id r.pending.nextId :=
      ⟨hlinked.below id hid, fun e he _ => hlinked.wellFormed.id_lt he⟩
    have hlater := hwaits.performAll fun s payload hmem => hnever ⟨s, payload, hmem⟩
    have hmatched := (elapsed_performAll hlinked ops).2.matched
    obtain ⟨e, he, hmem⟩ :=
      PendingTable.mem_waiting.mp (hmatched.symm.subset (not_not.mp hsuspended))
    have hbelow := hlater.waits e he hmem
    have hlate := nextId_le_of_ticks hr hticks (PendingTable.mem_ids.mpr ⟨e, he, rfl⟩)
    omega

/-- An Interest is sent again once at most. It is sent again with the first tick after it came, and goes
away with the second. -/
theorem lifetime_of_reachable_once :
    ∃ r₀ r : Relay, Relay.new { maxInterestRetransmit := 1 } (.ofSeed 0) = .ok r₀ ∧
      r = r₀.performAll
        [.faceForPeer 0 (.unix "a"), .faceForPeer 1 (.unix "b"),
          .addRoute (.ofComponents [[0x61]]) ⟨2⟩ .ndn2013] ∧
      let asked := r.perform (.handleInterest ⟨1⟩ (.ofName (.ofComponents [[0x61]])))
      (asked.tick.2.pending.get? ⟨0⟩).map (·.retries) = some 1 ∧
        (asked.performAll [.tick]).tick.2.pending.get? ⟨0⟩ = none ∧
        ⟨0⟩ ∉ (asked.performAll [.tick, .tick]).pending.ids := by
  have hlife (r : Relay) (hr : r.Reachable) (op : Operation) (hpatience : r.config.patience = (1, 4))
      (hnew : ⟨0⟩ ∉ r.pending.ids) (hcreated : ⟨0⟩ ∈ (r.perform op).pending.ids)
      {e₁ e₂ : PendingEntry} {s₁ s₂ : Relay} (hs₁ : Reaches (r.perform op) ⟨0⟩ s₁)
      (he₁ : s₁.pending.get? ⟨0⟩ = some e₁) (hused : s₁.clock - e₁.lastUsed < 4)
      (hs₂ : Reaches ((r.perform op).performAll [.tick]) ⟨0⟩ s₂)
      (he₂ : s₂.pending.get? ⟨0⟩ = some e₂) :
      ((r.perform op).tick.2.pending.get? ⟨0⟩).map (·.retries) = some 1 ∧
        ((r.perform op).performAll [.tick]).tick.2.pending.get? ⟨0⟩ = none ∧
        ⟨0⟩ ∉ ((r.perform op).performAll [.tick, .tick]).pending.ids := by
    obtain ⟨hmax, htimeout⟩ := Prod.mk.inj hpatience
    have hfirst := (lifetime_of_reachable hr).1 op [] ⟨0⟩ 1 hnew hcreated rfl s₁ e₁ hs₁ he₁
    have hsecond := (lifetime_of_reachable hr).1 op [.tick] ⟨0⟩ 2 hnew hcreated rfl s₂ e₂ hs₂ he₂
    rw [if_neg (by omega)] at hfirst
    rw [if_pos (.inl (by omega))] at hsecond
    have hasked : (r.perform op).Reachable := .perform hr trivial
    have hsame : (r.perform op).config.maxInterestRetransmit = 1 := by
      have hkept := patience_perform (linked_of_reachable hr).wellFormed op
      rw [hpatience] at hkept
      exact congrArg Prod.fst hkept
    refine ⟨?_, hsecond, ((lifetime_of_reachable hasked).2 [.tick, .tick] ?_).1 ⟨0⟩ hcreated⟩
    · exact congrArg (Option.map _) hfirst
    · rw [hsame]
      decide
  have hnew : Relay.new { maxInterestRetransmit := 1 } (.ofSeed 0) = .ok _ := rfl
  refine ⟨_, _, hnew, rfl, hlife _ (.performAll (.new hnew) fun _ _ => trivial) _ rfl ?_ ?_
    ⟨[], [], rfl, rfl⟩ rfl ?_ ⟨[], [], rfl, rfl⟩ rfl⟩
  · decide +kernel
  · decide +kernel
  · decide +kernel

end Relay

end NamedFunctions
