import NamedFunctions.Relay.Delivery

/-!
# Aging

With each tick the relay removes what has been idle for too long, and sends pending Interests again
until they run out of retries or time.
-/

namespace NamedFunctions

/-- What a tick did. `nfn-relay/src/aging:6–16`. -/
structure AgingReport where
  facesRemoved : Nat := 0
  contentExpired : Nat := 0
  contentStale : Nat := 0
  interestsExpired : Nat := 0
  interestsRetransmitted : Nat := 0
  noncesExpired : Nat := 0
  computationsDiscarded : Nat := 0
deriving DecidableEq, Repr, Inhabited

namespace AgingReport

/-- Whether a tick did nothing. `nfn-relay/src/aging:19–21`. -/
def isEmpty (report : AgingReport) : Bool := report == {}

end AgingReport

namespace Relay

/-- A relay in the course of a tick, and what the tick did so far. -/
abbrev Sweep := AgingReport × Relay

/-- Remove a face that has been idle for too long. `nfn-relay/src/aging:35–40`. -/
def sweepFace : Sweep → FaceId → Sweep
  | (report, r), id =>
    match r.removeFace id with
    | (.ok discarded, r) =>
      ({ report with
          facesRemoved := report.facesRemoved + 1
          computationsDiscarded := report.computationsDiscarded + discarded }, r)
    | (.error _, r) => (report, r)

/-- Let data become stale, and remove data that has been idle for too long. `nfn-relay/src/aging:42–52`. -/
def sweepStore : Sweep → Sweep
  | (report, r) =>
    let (stale, store) := r.store.markExpired r.clock r.config.tickDuration
    let (expired, store) :=
      if r.config.contentTimeout > 0 then store.expireIdle r.clock r.config.contentTimeout
      else ([], store)
    ({ report with
        contentStale := report.contentStale + stale.length
        contentExpired := report.contentExpired + expired.length }, { r with store })

/-- Whether a pending Interest has run out of time or retries. `nfn-relay/src/aging:58–59`. -/
def hasRunOut (r : Relay) (e : PendingEntry) : Bool :=
  r.config.interestTimeout ≤ r.clock - e.lastUsed || r.config.maxInterestRetransmit ≤ e.retries

/-- Drop a pending Interest that has run out of time or retries, or send it again.
`nfn-relay/src/aging:54–71`. -/
def sweepPending : Sweep → PendingId → Sweep
  | (report, r), id =>
    match r.pending.get? id with
    | none => (report, r)
    | some e =>
      if r.hasRunOut e then
        let (discarded, r) := { r with pending := r.pending.erase id }.forget e
        ({ report with
            interestsExpired := report.interestsExpired + 1
            computationsDiscarded := report.computationsDiscarded + discarded }, r)
      else
        let pending := r.pending.modify id fun e => { e with retries := e.retries + 1 }
        match { r with pending }.propagate id with
        | (some _, r) =>
          ({ report with interestsRetransmitted := report.interestsRetransmitted + 1 }, r)
        | (none, r) => (report, r)

/-- Forget nonces that are too old. `nfn-relay/src/aging:73`. -/
def sweepNonces : Sweep → Sweep
  | (report, r) =>
    let (expired, nonces) := r.nonces.expire r.clock r.config.nonceTimeout
    ({ report with noncesExpired := report.noncesExpired + expired }, { r with nonces })

/-- Let the clock go on by a tick, and age faces, data, pending Interests and nonces, in this order.
`nfn-relay/src/aging:25–79`. -/
def tick (r : Relay) : AgingReport × Relay :=
  let r := { r with clock := r.clock + 1 }
  let sweep := (r.faces.idle r.clock r.config.faceTimeout).foldl sweepFace ({}, r)
  let sweep := sweepStore sweep
  let sweep := sweep.2.pending.ids.foldl sweepPending sweep
  sweepNonces sweep

end Relay

end NamedFunctions
