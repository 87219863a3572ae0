import NamedFunctions.Proofs.PendingTable.Gathering
import NamedFunctions.Proofs.Relay.Completion
import NamedFunctions.Proofs.Relay.Queueing

/-!
# What becomes of an Interest in no expression

An Interest that has been accepted is answered, joins a pending one, or is sent on; if there is no way for
it, it is taken back. Each of these touches the Interests that ask for the same only if it is one of them:
then it is sent on if it is the first, and joins the first if it is not.
-/

namespace NamedFunctions

/-- Whether a packet is an Interest that asks for the same as a given one. -/
def Packet.asks (interest : Interest) : Packet → Bool
  | .interest other => other.asksSame interest
  | .content _ => false

namespace FaceTable

/-- The Interests on the queue of a face that ask for the same as a given one. -/
def asked (table : FaceTable) (interest : Interest) (id : FaceId) : List Packet :=
  (table.queue id).filter (·.asks interest)

/-- The flags of the face with a number. -/
def flags (table : FaceTable) (id : FaceId) : Option FaceFlags := (table.get? id).map (·.flags)

/-- Noting that a face was used leaves what was asked of it. -/
theorem asked_touch (table : FaceTable) (id : FaceId) (now : Nat) (interest : Interest) (x : FaceId) :
    (table.touch id now).asked interest x = table.asked interest x := by
  rw [asked, queue_touch, asked]

/-- What is quiet leaves the flags. -/
theorem Quiet.flags_eq {table table' : FaceTable} (h : table.Quiet table') (id : FaceId) :
    table'.flags id = table.flags id := by
  have := congrArg (fun standing => standing.map Prod.snd) (h id)
  simpa [flags, Face.standing, Function.comp_def] using this

end FaceTable

namespace Relay

variable {r r' : Relay} {source : FaceId} {interest other : Interest}

private theorem flags_send (r : Relay) (id : FaceId) (packet : Packet) (x : FaceId) :
    (r.send id packet).2.faces.flags x = r.faces.flags x := by
  cases hf : r.faces.get? id with
  | none => rw [faces_send_of_missing hf]
  | some face =>
    rw [FaceTable.flags, get?_faces_send hf, FaceTable.flags]
    split
    · next h => rw [h, hf, Option.map_some, Option.map_some, Face.flags_enqueue]
    · rfl

private theorem flags_propagate (r : Relay) (id : PendingId) (x : FaceId) :
    (r.propagate id).2.faces.flags x = r.faces.flags x := by
  obtain ⟨faces, stats, heq, hquiet⟩ := r.propagate_eq id
  rw [heq]
  exact hquiet.flags_eq x

/-- A packet that does not ask for the same makes no difference. -/
theorem asked_send {packet : Packet} (h : packet.asks interest = false) (r : Relay) (id x : FaceId) :
    (r.send id packet).2.faces.asked interest x = r.faces.asked interest x := by
  rw [FaceTable.asked, queue_send, List.filter_append, FaceTable.asked]
  split
  · rw [List.filter_singleton, h, cond_false, List.append_nil]
  · exact List.append_nil _

/-- A pending Interest that does not ask for the same makes no difference when it is sent on. -/
theorem asked_propagate {id : PendingId}
    (h : ∀ e, r.pending.get? id = some e → e.interest.asksSame interest = false) (x : FaceId) :
    (r.propagate id).2.faces.asked interest x = r.faces.asked interest x := by
  rw [FaceTable.asked, queue_propagate, List.filter_append, FaceTable.asked]
  cases he : r.pending.get? id with
  | none => simp
  | some e =>
    have hasks : Packet.asks interest (.interest e.interest) = false := h e he
    split
    · simp [hasks]
    · simp

/-- An Interest of a face that is sent on is at the end of the queue of the face of its route. -/
theorem queue_sentOn (hr : r.pending.WellFormed) {b : FaceId}
    (hsent : (r.sentOn source interest).1 = some b) (x : FaceId) :
    (r.sentOn source interest).2.faces.queue x =
      r.faces.queue x ++ if x = b then [.interest interest] else [] := by
  have hget := (hr.insert interest (.face source) r.clock).get?_eq_some
    (List.mem_append_right _ List.mem_cons_self)
  have hqueue := queue_propagate
    { r with pending := (r.pending.insert interest (.face source) r.clock).2 }
    (r.pending.insert interest (.face source) r.clock).1 x
  rw [sentOn] at hsent
  rw [sentOn, hqueue, hsent]
  dsimp only
  rw [PendingTable.insert] at hget ⊢
  rw [hget]
  simp [eq_comm]

/-- What becomes of an Interest in no expression whose nonce is recorded, and of the relay. -/
inductive Resolves (r : Relay) (source : FaceId) (interest : Interest) :
    Except RelayError InterestOutcome → Relay → Prop where
  /-- It is answered from the content store. -/
  | answered {content : Content} {store : ContentStore} (stats : RelayStats)
      (hlookup : r.store.lookup interest r.clock = some (content, store)) :
      Resolves r source interest (.ok .cacheHit)
        { ((r.fetched store).send source (.content content)).2 with stats }
  /-- It joins a pending one. -/
  | joined {id : PendingId} (hsame : r.pending.findSame interest = some id) :
      Resolves r source interest (.ok .aggregated) (r.joined source interest id)
  /-- It joins a pending one, which its face has sent on all the same. -/
  | passed {id : PendingId} (outcome : InterestOutcome)
      (hsame : r.pending.findSame interest = some id)
      (hpasses : (r.faces.get? source).any (·.flags.forwardAll) = true) :
      Resolves r source interest (.ok outcome) ((r.joined source interest id).propagate id).2
  /-- It is sent on through a face. -/
  | forwarded {face : FaceId} (hnew : r.pending.findSame interest = none)
      (hsent : (r.sentOn source interest).1 = some face) :
      Resolves r source interest (.ok (.forwarded face)) (r.sentOn source interest).2
  /-- There is no way for it, and it is taken back. -/
  | stranded (error : RelayError) (stats : RelayStats)
      (hnew : r.pending.findSame interest = none) (hsent : (r.sentOn source interest).1 = none) :
      Resolves r source interest (.error error)
        { (r.sentOn source interest).2 with
          stats
          pending := (r.sentOn source interest).2.pending.erase
            (r.pending.insert interest (.face source) r.clock).1 }

/-- An Interest without an expression is resolved in one of these ways. -/
theorem resolves (hname : interest.name.flags.expression = false) (r : Relay) (source : FaceId) :
    Resolves r source interest (r.resolve source interest).1 (r.resolve source interest).2 := by
  cases hlookup : r.store.lookup interest r.clock with
  | some found =>
    obtain ⟨content, store⟩ := found
    rw [resolve, hlookup]
    dsimp only
    rcases hsent : send _ source (.content content) with ⟨_ | _, s⟩
    · obtain rfl : _ = s := congrArg Prod.snd hsent
      exact .answered _ hlookup
    · obtain rfl : _ = s := congrArg Prod.snd hsent
      exact .answered _ hlookup
  | none =>
    rw [resolve, hlookup]
    dsimp only
    cases hsame : r.pending.findSame interest with
    | some id =>
      dsimp only
      rw [aggregate]
      split
      · next hpasses =>
        rcases hsent : propagate _ id with ⟨_ | face, s⟩
        · obtain rfl : _ = s := congrArg Prod.snd hsent
          exact .passed _ hsame hpasses
        · obtain rfl : _ = s := congrArg Prod.snd hsent
          exact .passed _ hsame hpasses
      · exact .joined hsame
    | none =>
      dsimp only
      rw [if_neg (by simp [hname]), forward]
      dsimp only
      rcases hsent : propagate _ _ with ⟨_ | face, s⟩
      · obtain rfl : (r.sentOn source interest).2 = s := congrArg Prod.snd hsent
        exact .stranded _ _ hsame (congrArg Prod.fst hsent)
      · obtain rfl : (r.sentOn source interest).2 = s := congrArg Prod.snd hsent
        exact .forwarded hsame (congrArg Prod.fst hsent)

namespace Resolves

variable {outcome : Except RelayError InterestOutcome}

/-- Resolving an Interest leaves the nonces. -/
theorem nonces (h : Resolves r source interest outcome r') : r'.nonces = r.nonces := by
  cases h with
  | answered => exact nonces_send _ _ _
  | joined => rfl
  | passed => exact nonces_propagate _ _
  | forwarded => exact nonces_propagate _ _
  | stranded => exact nonces_propagate _ _

/-- Resolving an Interest leaves the flags of the faces. -/
theorem flags (h : Resolves r source interest outcome r') (x : FaceId) :
    r'.faces.flags x = r.faces.flags x := by
  cases h with
  | answered => exact flags_send _ _ _ _
  | joined => rfl
  | passed => exact flags_propagate _ _ _
  | forwarded => exact flags_propagate _ _ _
  | stranded => exact flags_propagate _ _ _

/-- Data for an Interest that was not there is not there after another one has come. -/
theorem lacks (h : Resolves r source other outcome r') (hr : r.store.Lacks interest) :
    r'.store.Lacks interest := by
  cases h with
  | answered _ hlookup =>
    rw [store_send]
    exact hr.lookup hlookup
  | joined => exact hr
  | passed =>
    rw [store_propagate]
    exact hr
  | forwarded =>
    rw [sentOn, store_propagate]
    exact hr
  | stranded =>
    rw [sentOn, store_propagate]
    exact hr

private theorem asking_joined (hr : r.pending.WellFormed) (hother : other.asksSame interest = false)
    {id : PendingId} (hsame : r.pending.findSame other = some id) :
    (r.joined source other id).pending.asking interest = r.pending.asking interest := by
  refine (PendingTable.asking_addRequester _ id _ _ _ interest).trans ?_
  conv_rhs => rw [← List.map_id (r.pending.asking interest)]
  refine List.map_congr_left fun e he => ?_
  rw [if_neg (hr.id_ne_of_mem_asking hother hsame he)]
  rfl

private theorem asking_insert_of_other (hother : other.asksSame interest = false) (r : Relay)
    (source : FaceId) :
    (r.pending.insert other (.face source) r.clock).2.asking interest = r.pending.asking interest := by
  rw [PendingTable.asking_insert, if_neg (by simp [hother]), List.append_nil]

/-- An Interest that does not ask for the same leaves those that do as they are. -/
theorem asking_of_other (h : Resolves r source other outcome r') (hr : r.pending.WellFormed)
    (hother : other.asksSame interest = false) :
    r'.pending.asking interest = r.pending.asking interest := by
  cases h with
  | answered => rw [pending_send]; rfl
  | joined hsame => exact asking_joined hr hother hsame
  | passed _ hsame =>
    rw [pending_propagate]
    exact asking_joined hr hother hsame
  | forwarded =>
    rw [sentOn, pending_propagate]
    exact asking_insert_of_other hother r source
  | stranded =>
    rw [sentOn, pending_propagate]
    exact hr.asking_erase_insert interest other _ _

/-- An Interest that does not ask for the same is sent on without those that do. -/
theorem asked_of_other (h : Resolves r source other outcome r') (hr : r.pending.WellFormed)
    (hother : other.asksSame interest = false) (x : FaceId) :
    r'.faces.asked interest x = r.faces.asked interest x := by
  have hsent : (r.sentOn source other).2.faces.asked interest x = r.faces.asked interest x := by
    refine asked_propagate (fun e he => ?_) x
    refine PendingTable.asksSame_of_get? (asking_insert_of_other hother r source) ?_ he
    intro e he hid
    have hbelow := hr.id_lt (PendingTable.mem_asking.mp he).1
    rw [hid] at hbelow
    exact Nat.lt_irrefl _ hbelow
  cases h with
  | answered => exact asked_send rfl _ _ _
  | joined => rfl
  | passed _ hsame =>
    exact asked_propagate (fun e he => PendingTable.asksSame_of_get?
      (asking_joined hr hother hsame) (fun e => hr.id_ne_of_mem_asking hother hsame) he) x
  | forwarded => exact hsent
  | stranded => exact hsent

/-- The first that asks for the same and is sent on gets an entry, and is on the queue of a face. -/
theorem of_forwarded {b : FaceId} (h : Resolves r source other (.ok (.forwarded b)) r')
    (hsame : other.asksSame interest = true) (hnone : r.pending.asking interest = [])
    (hr : r.pending.WellFormed) :
    (∃ e, r'.pending.asking interest = [e] ∧ e.Gathers [(source, other)]) ∧
      ∀ x, r'.faces.asked interest x =
        r.faces.asked interest x ++ if x = b then [.interest other] else [] := by
  generalize houtcome : Except.ok (InterestOutcome.forwarded b) = outcome at h
  cases h with
  | answered => cases houtcome
  | joined => cases houtcome
  | passed _ hfound =>
    rw [PendingTable.findSame_eq hsame, hnone] at hfound
    cases hfound
  | forwarded _ hsent =>
    cases houtcome
    refine ⟨⟨_, ?_, .single ⟨r.pending.nextId⟩ source other r.clock⟩, fun x => ?_⟩
    · rw [sentOn, pending_propagate]
      refine (PendingTable.asking_insert _ _ _ _ _).trans ?_
      rw [hnone, if_pos hsame, List.nil_append]
    · have hqueue := queue_sentOn hr hsent x
      rw [FaceTable.asked, hqueue, List.filter_append, FaceTable.asked]
      split
      · have hasks : Packet.asks interest (.interest other) = true := hsame
        rw [List.filter_singleton, hasks, cond_true]
      · rw [List.filter_nil]
  | stranded => cases houtcome

/-- Another one that asks for the same joins the first, and nothing is sent on. -/
theorem of_gathered (h : Resolves r source other outcome r') (hsame : other.asksSame interest = true)
    (hlacks : r.store.Lacks interest) {e : PendingEntry} (hone : r.pending.asking interest = [e])
    (hstays : (r.faces.get? source).any (·.flags.forwardAll) = false) :
    outcome = .ok .aggregated ∧
      r'.pending.asking interest = [e.join (.face source) other.nonce r.clock] ∧
      r'.faces = r.faces := by
  have hfind : r.pending.findSame other = some e.id := by
    rw [PendingTable.findSame_eq hsame, hone]
    rfl
  cases h with
  | answered _ hlookup =>
    rw [hlacks.lookup_eq_none hsame] at hlookup
    cases hlookup
  | joined hid =>
    obtain rfl := Option.some.inj (hfind.symm.trans hid)
    refine ⟨rfl, (PendingTable.asking_addRequester _ _ _ _ _ interest).trans ?_, rfl⟩
    rw [hone, List.map_singleton, if_pos rfl]
  | passed _ _ hpasses =>
    rw [hstays] at hpasses
    cases hpasses
  | forwarded hnew =>
    rw [hfind] at hnew
    cases hnew
  | stranded _ _ hnew =>
    rw [hfind] at hnew
    cases hnew

end Resolves

end Relay

end NamedFunctions
