import NamedFunctions.Proofs.Relay.Cascade
import NamedFunctions.Proofs.Relay.Layout

/-!
# Where Interests are sent

A pending Interest is sent along its route when it arrives, when a computation asks for data, however
deep in a cascade, and with each tick. `Sends` has a case for every place where that is done, each with
the relay at that moment. The layout is sound there, so no Interest is sent to a face that is missing.
-/

namespace NamedFunctions.Relay

/-- Taking a computation further from where its machine has stopped, an Interest of its own is sent: the
relay in which it is, and the number of the Interest. -/
inductive Issues : Relay → Except ComputationError Progress → Relay → PendingId → Prop where
  /-- The data is not cached, and nobody else has asked for it. -/
  | now {r : Relay} {c : Computation} {name : Name}
      (hmiss : r.store.lookup (.ofName name) r.clock = none)
      (hnew : r.pending.findSame (.ofName name) = none) :
      Issues r (.ok (.suspended c name)) (r.asking c name) ⟨r.pending.nextId⟩
  /-- The computation is resumed with cached data before. -/
  | later {r s : Relay} {c : Computation} {name : Name} {content : Content} {store : ContentStore}
      {id : PendingId} (hhit : r.store.lookup (.ofName name) r.clock = some (content, store))
      (h : Issues (r.fetched store) (c.resume r.computations.stepLimit content.payload) s id) :
      Issues r (.ok (.suspended c name)) s id

/-- Resuming computations in turn, an Interest of one of them is sent. -/
inductive WakeIssues : Relay → List (ComputationId × Bytes) → Relay → PendingId → Prop where
  | resumed {r s : Relay} {c : Computation} {computation : ComputationId} {payload : Bytes}
      {rest : List (ComputationId × Bytes)} {id : PendingId}
      (hc : r.computations.get? computation = some c)
      (h : Issues { r with computations := r.computations.erase computation }
        (c.resume r.computations.stepLimit payload) s id) :
      WakeIssues r ((computation, payload) :: rest) s id
  | stopped {r r' s : Relay} {computation : ComputationId} {payload : Bytes}
      {rest : List (ComputationId × Bytes)} {id : PendingId}
      (hresumed : r.resumeComputation computation payload = (none, r'))
      (h : WakeIssues r' rest s id) : WakeIssues r ((computation, payload) :: rest) s id
  | finished {r r' s : Relay} {computation : ComputationId} {payload : Bytes}
      {rest : List (ComputationId × Bytes)} {origin : Interest} {result : Bytes} {id : PendingId}
      (hresumed : r.resumeComputation computation payload = (some (origin, result), r'))
      (h : WakeIssues (r'.announce origin result).2 ((r'.announce origin result).1 ++ rest) s id) :
      WakeIssues r ((computation, payload) :: rest) s id

/-- Reducing an expression, an Interest of its computation, or of one that its result resumes, is sent. -/
inductive ReductionIssues (r : Relay) (interest : Interest) : Relay → PendingId → Prop where
  | begun {s : Relay} {id : PendingId}
      (h : Issues (r.reductionStarted.beginComputation interest).2
        (r.reductionStarted.beginComputation interest).1 s id) : ReductionIssues r interest s id
  | published {r' s : Relay} {origin : Interest} {result : Bytes} {id : PendingId}
      (hfinished : (r.reductionStarted.beginComputation interest).2.carryOn
        (r.reductionStarted.beginComputation interest).1 = (.ok (.finished origin result), r'))
      (h : WakeIssues (r'.announce origin result).2 (r'.announce origin result).1 s id) :
      ReductionIssues r interest s id

/-- In the course of an operation a pending Interest is sent along its route: the relay in which it is,
and the number of the Interest. -/
inductive Sends (r : Relay) : Operation → Relay → PendingId → Prop where
  /-- An Interest joins it, and its face has all Interests sent on. -/
  | joined {r' : Relay} {source : FaceId} {interest accepted : Interest} {id : PendingId}
      (hsource : r.faces.contains source = true)
      (haccept : (r.interestReceived source).accept interest = (some accepted, r'))
      (hmiss : r'.store.lookup accepted r'.clock = none)
      (hsame : r'.pending.findSame accepted = some id)
      (hforward : (r'.faces.get? source).any (·.flags.forwardAll) = true) :
      Sends r (.handleInterest source interest) (r'.joined source accepted id) id
  /-- It has arrived, and is no expression. -/
  | arrived {r' : Relay} {source : FaceId} {interest accepted : Interest}
      (hsource : r.faces.contains source = true)
      (haccept : (r.interestReceived source).accept interest = (some accepted, r'))
      (hmiss : r'.store.lookup accepted r'.clock = none)
      (hnew : r'.pending.findSame accepted = none)
      (hexpression : ¬ accepted.name.flags.expression = true) :
      Sends r (.handleInterest source interest)
        { r' with pending := (r'.pending.insert accepted (.face source) r'.clock).2 }
        (r'.pending.insert accepted (.face source) r'.clock).1
  /-- It is of a computation that is created for an expression, or resumed by its result. -/
  | reduced {r' s : Relay} {source : FaceId} {interest accepted : Interest} {id : PendingId}
      (hsource : r.faces.contains source = true)
      (haccept : (r.interestReceived source).accept interest = (some accepted, r'))
      (hreduces : r'.Reduces accepted)
      (h : ReductionIssues
        { r' with pending := (r'.pending.insert accepted (.face source) r'.clock).2 } accepted s id) :
      Sends r (.handleInterest source interest) s id
  /-- It is of a computation that data from elsewhere resumes. -/
  | delivered {r' s : Relay} {source : FaceId} {content : Content} {pending : PendingTable}
      {e : PendingEntry} {entries : List PendingEntry} {faces : Nat} {waiting : List ComputationId}
      {id : PendingId} (hsource : r.faces.contains source = true)
      (htake : (r.contentReceived source).pending.takeAnswered content = (e :: entries, pending))
      (hserve : ({ r.contentReceived source with pending }.cache content false).serve content
        (e :: entries) = ((faces, waiting), r'))
      (h : WakeIssues r' (waiting.map fun id => (id, content.payload)) s id) :
      Sends r (.handleContent source content) s id
  /-- A tick comes to it, and it has not run out. -/
  | retried {before after : List PendingId} {id : PendingId} {e : PendingEntry}
      (hids : r.aged.2.pending.ids = before ++ id :: after)
      (he : (before.foldl sweepPending r.aged).2.pending.get? id = some e)
      (hout : ¬ (before.foldl sweepPending r.aged).2.hasRunOut e = true) :
      Sends r .tick
        { (before.foldl sweepPending r.aged).2 with
          pending := (before.foldl sweepPending r.aged).2.pending.modify id fun e =>
            { e with retries := e.retries + 1 } }
        id

private theorem Issues.layout {r s : Relay} {progress : Except ComputationError Progress} {id : PendingId}
    (h : Issues r progress s id) : s.layout = r.layout := by
  induction h with
  | now => rfl
  | later _ _ ih => exact ih

private theorem WakeIssues.layout {r s : Relay} {agenda : List (ComputationId × Bytes)} {id : PendingId}
    (h : WakeIssues r agenda s id) : s.layout = r.layout := by
  induction h with
  | resumed _ h => exact h.layout
  | @stopped r r' _ computation payload _ _ hresumed _ ih =>
    have hlayout := r.layout_resumeComputation computation payload
    rw [hresumed] at hlayout
    exact ih.trans hlayout
  | @finished r r' _ computation payload _ origin result _ hresumed _ ih =>
    have hlayout := r.layout_resumeComputation computation payload
    rw [hresumed] at hlayout
    exact ih.trans ((r'.layout_announce origin result).trans hlayout)

private theorem ReductionIssues.layout {r s : Relay} {interest : Interest} {id : PendingId}
    (h : ReductionIssues r interest s id) : s.layout = r.layout := by
  have hbegun : (r.reductionStarted.beginComputation interest).2.layout = r.layout :=
    layout_beginComputation _ interest
  cases h with
  | begun h => exact h.layout.trans hbegun
  | @published r' _ origin result _ hfinished h =>
    have hcarried := layout_carryOn (r.reductionStarted.beginComputation interest).2
      (r.reductionStarted.beginComputation interest).1
    rw [hfinished] at hcarried
    exact h.layout.trans ((r'.layout_announce origin result).trans (hcarried.trans hbegun))

private theorem layout_accepted {r r' : Relay} {source : FaceId} {interest : Interest}
    {accepted : Option Interest}
    (haccept : (r.interestReceived source).accept interest = (accepted, r')) :
    r'.layout = r.layout := by
  have hlayout := (r.interestReceived source).layout_accept interest
  rw [haccept] at hlayout
  exact hlayout.trans (r.layout_touch source)

/-- The relay in which an operation begins to send Interests: a tick removes faces before, and other
operations than the handling of packets send none. -/
def untilPosting (r : Relay) : Operation → Relay
  | .handleInterest _ _ => r
  | .handleContent _ _ => r
  | .tick => r.aged.2
  | op => r.perform op

/-- The layout is the same wherever an operation sends an Interest. -/
theorem Sends.layout {r s : Relay} {op : Operation} {id : PendingId} (h : Sends r op s id) :
    s.layout = (r.untilPosting op).layout := by
  cases h with
  | joined _ haccept =>
    have haccepted := layout_accepted haccept
    exact haccepted
  | arrived _ haccept =>
    have haccepted := layout_accepted haccept
    exact haccepted
  | reduced _ haccept _ h =>
    have haccepted := layout_accepted haccept
    exact h.layout.trans haccepted
  | @delivered r' _ source content pending e entries _ _ _ _ _ hserve h =>
    have hserved := (layout_serve ({ r.contentReceived source with pending }.cache content false)
      content (e :: entries)).trans (layout_cache { r.contentReceived source with pending } content false)
    rw [hserve] at hserved
    exact h.layout.trans (hserved.trans (r.layout_touch source))
  | @retried before => exact layout_sweeps before r.aged

private theorem LaidOut.untilPosting {r : Relay} (hr : LaidOut r) (op : Operation) :
    LaidOut (r.untilPosting op) := by
  have hother (h : r.untilPosting op = r.perform op) : LaidOut (r.untilPosting op) :=
    h ▸ (Shifted.perform r op).sound hr
  cases op with
  | handleInterest => exact hr
  | handleContent => exact hr
  | tick =>
    exact aged_induction (motive := LaidOut) r (hr.of_layout rfl)
      (fun s id hs => (Shifted.removeFace s id).sound hs) fun _ _ hs => hs.of_layout rfl
  | _ => exact hother rfl

/-- Wherever an Interest is sent, the layout is sound. -/
theorem Sends.laidOut {r s : Relay} {op : Operation} {id : PendingId} (h : Sends r op s id)
    (hr : LaidOut r) : LaidOut s :=
  (hr.untilPosting op).of_layout h.layout

/-- An Interest that is sent along its route is sent to a face that is there. -/
theorem Sends.get?_ne_none {r s : Relay} {op : Operation} {id : PendingId} (h : Sends r op s id)
    (hr : LaidOut r) {name : Name} {route : Route} (hroute : s.routes.lookup name = some route) :
    s.faces.get? route.face ≠ none := by
  have hcontains := (h.laidOut hr).contains_of_lookup hroute
  rw [FaceTable.contains_eq_isSome] at hcontains
  exact Option.isSome_iff_ne_none.mp hcontains

end NamedFunctions.Relay
