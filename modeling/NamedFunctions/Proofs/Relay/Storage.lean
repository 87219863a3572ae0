import NamedFunctions.Proofs.Relay.Invariant

/-!
# What becomes of the content store of a relay

Operations look up data and age it, and data is put in only by hand or because it is delivered. So what
the journals of a run say of deliveries decides what becomes of a pinned name.
-/

namespace NamedFunctions.Relay

open ContentStore (Change)

/-- Waiting for a name leaves the store. -/
theorem store_await (r : Relay) (c : Computation) (name : Name) :
    (r.await c name).2.store = r.store := by
  unfold await
  split
  · rfl
  · rw [issue_eq]
    split
    · exact store_propagate _ _
    · exact store_propagate _ _

section

variable {P : ContentStore → Prop}
  (hlookup : ∀ store interest now, P store → P (store.change (.lookup interest now)))

include hlookup

private theorem store_fetched {store store' : ContentStore} {interest : Interest} {now : Nat}
    {content : Content} (h : P store) (hhit : store.lookup interest now = some (content, store')) :
    P store' := by
  rw [store_of_lookup hhit]
  exact hlookup store interest now h

/-- A computation that is taken further looks up data. -/
theorem store_advance {r : Relay} (hr : P r.store) (c : Computation) (name : Name) :
    P (r.advance c name).2.store := by
  fun_induction advance r c name with
  | case1 r c name =>
    rw [store_await]
    exact hr
  | case2 r c name content store hhit => exact store_fetched hlookup hr hhit
  | case3 r c name content store hhit => exact store_fetched hlookup hr hhit
  | case4 r c name content store hhit r' c' name' _ _ ih => exact ih (store_fetched hlookup hr hhit)

private theorem store_carryOn {r : Relay} (hr : P r.store) (progress : Except ComputationError Progress) :
    P (r.carryOn progress).2.store := by
  have hsettled : P (r.settle progress).2.store := by
    unfold settle
    split
    · exact hr
    · exact hr
    · exact store_advance hlookup hr _ _
  rw [carryOn_eq]
  cases (r.settle progress).1 with
  | ok => exact hsettled
  | error => exact hsettled

/-- What holds of the store holds once a computation was resumed. -/
theorem store_resumeComputation {r : Relay} (hr : P r.store) (id : ComputationId)
    (payload : Bytes) : P (r.resumeComputation id payload).2.store := by
  cases hc : r.computations.get? id with
  | none =>
    rw [resumeComputation_of_none hc]
    exact hr
  | some c =>
    rw [resumeComputation_of_some hc]
    have herased : P { r with computations := r.computations.erase id }.store := hr
    exact store_carryOn hlookup herased _

/-- What holds of the store holds once a computation was begun. -/
theorem store_begin {r : Relay} (hr : P r.store) (interest : Interest) :
    P ((r.beginComputation interest).2.carryOn (r.beginComputation interest).1).2.store := by
  have hbegun : (r.beginComputation interest).2.store = r.store := by
    unfold beginComputation
    split <;> rfl
  exact store_carryOn hlookup (hbegun ▸ hr) _

end

/-- What the allowed changes keep of the content store is kept by all that is made of them. -/
theorem kept_store {P : ContentStore → Prop} {allowed : Change → Prop}
    (hlookup : ∀ interest now, allowed (.lookup interest now))
    (hchange : ∀ store c, allowed c → P store → P (store.change c)) :
    Kept allowed fun s => P s.store where
  aside hs hstore _ := hstore ▸ hs
  alter hs hc := hchange _ _ hc hs
  resume id payload hs :=
    store_resumeComputation (fun _ _ _ => hchange _ _ (hlookup _ _)) hs id payload
  begin interest hs := store_begin (fun _ _ _ => hchange _ _ (hlookup _ _)) hs interest
  discard _ hs := hs

/-- What is kept by all changes of the content store that an operation may make holds after it, and at
each event on the way. -/
theorem store_perform {P : ContentStore → Prop} {r : Relay} {op : Operation} (hr : P r.store)
    (hchange : ∀ store c, r.Alters op c → P store → P (store.change c)) :
    P (r.perform op).store ∧ ∀ event ∈ r.journal op, P event.before.store :=
  (kept_store (fun _ _ => trivial) hchange).perform hr

variable {kind : Operation → Prop} {r : Relay} {op : Operation}

/-- Whatever operations bring a relay about, its content store is well-formed. -/
theorem wellFormedStore_of_reachable (hr : ReachableBy kind r) : r.store.WellFormed := by
  induction hr with
  | new hnew =>
    obtain rfl := eq_of_new hnew
    exact .empty _
  | perform _ _ ih => exact (store_perform ih fun _ c _ h => h.change c).1

/-- The capacity stays as it is while packets are handled. -/
theorem capacity_change_of_alters (hop : r.journal op ≠ []) {c : Change} (hc : r.Alters op c)
    (store : ContentStore) : (store.change c).capacity = store.capacity := by
  apply ContentStore.capacity_change
  rintro capacity rfl
  cases hc
  exact hop rfl

/-- What happens in a run of some operations, the first of them first. -/
def journalAll (r : Relay) : List Operation → List Event
  | [] => []
  | op :: ops => r.journal op ++ (r.perform op).journalAll ops

/-- A name stays pinned through an operation. Data that is put in under it has to be of the kind, or to be
the same as what is there already. -/
theorem pins_perform {name : Name} {kept : Content → Prop} (h : r.store.Pins name kept)
    (hput : ∀ content isStatic,
      (op = .cacheContent content isStatic ∨ ∃ s, .deliver s content ∈ r.journal op) →
      content.name.key = name.key → kept content ∨ ∀ data, kept data → data.payload = content.payload) :
    (r.perform op).store.Pins name kept := by
  refine (store_perform (P := fun store => store.Pins name kept) h ?_).1
  intro store c hc hstore
  apply hstore.change c
  rintro content isStatic now rfl
  exact hput content isStatic hc

/-- A name stays pinned through every run. -/
theorem pins_performAll {name : Name} (h : r.store.Pins name fun _ => True) (ops : List Operation) :
    (r.performAll ops).store.Pins name fun _ => True := by
  induction ops generalizing r with
  | nil => exact h
  | cons op ops ih => exact ih (pins_perform h fun _ _ _ _ => .inl trivial)

/-- Data that pins its name stays there through a run in which no data is put in by hand, and none with
another payload is delivered under the name. -/
theorem pins_performAll_of_journalAll {content : Content}
    (h : r.store.Pins content.name (· = content)) {ops : List Operation}
    (hops : ∀ data isStatic, .cacheContent data isStatic ∉ ops)
    (hsame : ∀ s data, .deliver s data ∈ r.journalAll ops → data.name.key = content.name.key →
      data.payload = content.payload) :
    (r.performAll ops).store.Pins content.name (· = content) := by
  induction ops generalizing r with
  | nil => exact h
  | cons op ops ih =>
    have hhead : (r.perform op).store.Pins content.name (· = content) := by
      apply pins_perform h
      rintro data isStatic (rfl | ⟨s, hmem⟩) hkey
      · exact absurd List.mem_cons_self (hops data isStatic)
      · right
        rintro _ rfl
        exact (hsame s data (List.mem_append_left _ hmem) hkey).symm
    apply ih hhead
    · intro data isStatic hmem
      exact hops data isStatic (List.mem_cons_of_mem _ hmem)
    · intro s data hmem
      exact hsame s data (List.mem_append_right _ hmem)

end NamedFunctions.Relay
