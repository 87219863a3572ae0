import NamedFunctions.Proofs.Daemon.Sockets
import NamedFunctions.Proofs.RouteTable.Map

/-!
# What a daemon starts with

A configuration is valid if its faces refer to sockets and its routes to faces that are there. Of faces with
the same name the last one counts, and so does the last of several routes for the same key; faces for the
same peer are one face. With a valid configuration a start fails at most at a route whose URI cannot be read.
There is a face for each of a configuration as long as it has no more faces than there are numbers for them.
-/

namespace NamedFunctions

namespace Peer

private theorem same_self (peer : Peer) : peer.same peer = true := by
  cases peer <;> simp [same]

/-- Addresses of one peer are the same. -/
theorem same_of_same {a b c : Peer} (hb : b.same a = true) (hc : c.same a = true) : b.same c = true := by
  cases a <;> cases b <;> cases c <;> simp_all [same]

end Peer

namespace FaceTable

variable {table : FaceTable} {interface : Nat} {peer : Peer}

private theorem find?_setFlags (table : FaceTable) (id : FaceId) (flags : FaceFlags) (interface : Nat)
    (peer : Peer) :
    (table.modify id fun face => { face with flags }).find? interface peer =
      table.find? interface peer := by
  have hid (face : Face) : (if face.id = id then { face with flags } else face).id = face.id := by
    split <;> rfl
  have hplace (face : Face) :
      ((if face.id = id then { face with flags } else face).interface == interface &&
        (if face.id = id then { face with flags } else face).peer.same peer) =
        (face.interface == interface && face.peer.same peer) := by
    split <;> rfl
  simp only [find?, modify, List.find?_map, Option.map_map, Function.comp_def, hid, hplace]

/-- A peer is found on an interface if it has a face there. -/
theorem WellFormed.find?_eq_some_iff (h : table.WellFormed) {id : FaceId} :
    table.find? interface peer = some id ↔
      ∃ peer', table.placeOf id = some (interface, peer') ∧ peer'.same peer = true := by
  have hplace {id : FaceId} (hid : table.find? interface peer = some id) :
      ∃ peer', table.placeOf id = some (interface, peer') ∧ peer'.same peer = true := by
    obtain ⟨face, hface, rfl⟩ := Option.map_eq_some_iff.mp hid
    have hmatch := List.find?_some hface
    rw [Bool.and_eq_true, beq_iff_eq] at hmatch
    refine ⟨face.peer, ?_, hmatch.2⟩
    rw [placeOf, get?_eq_some_of_mem h.nodup (List.mem_of_find?_eq_some hface), Option.map_some, hmatch.1]
  refine ⟨hplace, ?_⟩
  rintro ⟨peer', hid, hsame⟩
  cases hfind : table.find? interface peer with
  | none =>
    obtain ⟨face, hface, heq⟩ := Option.map_eq_some_iff.mp hid
    obtain ⟨rfl, rfl⟩ := Prod.mk.inj heq
    have hother := List.find?_eq_none.mp (Option.map_eq_none_iff.mp hfind) face
      (List.mem_of_find?_eq_some hface)
    simp [hsame] at hother
  | some id' =>
    obtain ⟨peer'', hid', hsame'⟩ := hplace hfind
    rw [h.distinct id id' interface peer' peer'' hid hid' (Peer.same_of_same hsame hsame')]

/-- Whether a table has numbers left for so many faces. -/
structure Spares (table : FaceTable) (count : Nat) : Prop where
  wellFormed : table.WellFormed
  count_le : count ≤ UInt32.size
  /-- The next numbers belong to no face. -/
  free : ∀ k < count, table.get? ⟨table.nextId + UInt32.ofNat k⟩ = none

namespace Spares

variable {count : Nat}

private theorem of_empty (h : table.faces = []) (hcount : count ≤ UInt32.size) : table.Spares count := by
  have hnone (id : FaceId) : table.get? id = none := by rw [get?, h, List.find?_nil]
  refine ⟨⟨?_, fun id _ _ _ _ hplace => ?_⟩, hcount, fun _ _ => hnone _⟩
  · rw [ids, h]
    exact List.nodup_nil
  · rw [placeOf, hnone] at hplace
    cases hplace

private theorem get?_next (h : table.Spares (count + 1)) : table.get? ⟨table.nextId⟩ = none := by
  have hfirst := h.free 0 (Nat.succ_pos count)
  have hzero : table.nextId + UInt32.ofNat 0 = table.nextId := UInt32.add_zero table.nextId
  rwa [hzero] at hfirst

/-- A face takes up one number. -/
theorem add (h : table.Spares (count + 1)) (hnew : table.find? interface peer = none) (flags : FaceFlags)
    (now : Nat) : (table.add interface peer flags now).2.Spares count := by
  refine ⟨h.wellFormed.add hnew flags now, Nat.le_of_succ_le h.count_le, fun k hk => ?_⟩
  have hlater : (table.add interface peer flags now).2.nextId + UInt32.ofNat k =
      table.nextId + UInt32.ofNat (k + 1) := by
    rw [FaceTable.add, UInt32.add_assoc, UInt32.ofNat_add, UInt32.add_comm (UInt32.ofNat k)]
    rfl
  have hother : (⟨table.nextId + UInt32.ofNat (k + 1)⟩ : FaceId) ≠ ⟨table.nextId⟩ := by
    intro heq
    have hzero := UInt32.add_eq_left.mp (FaceId.mk.inj heq)
    have hsize : k + 1 < UInt32.size := Nat.lt_of_lt_of_le (Nat.succ_lt_succ hk) h.count_le
    have hnat := congrArg UInt32.toNat hzero
    rw [UInt32.toNat_ofNat_of_lt' hsize] at hnat
    exact absurd hnat (Nat.succ_ne_zero k)
  rw [hlater, get?_add, if_neg hother]
  exact h.free (k + 1) (Nat.succ_lt_succ hk)

private theorem create (h : table.Spares (count + 1)) (interface : Nat) (peer : Peer) (flags : FaceFlags)
    (now : Nat) : (table.create interface peer flags now).2.Spares count := by
  unfold FaceTable.create
  split
  · next id _ =>
    have hlayout := table.layout_setFlags id flags
    refine ⟨h.wellFormed.of_layout hlayout, Nat.le_of_succ_le h.count_le, fun k hk => ?_⟩
    dsimp only
    rw [get?_setFlags, Option.map_eq_none_iff]
    exact h.free k (Nat.lt_succ_of_lt hk)
  · next hnew => exact h.add hnew flags now

/-- A peer has the face that was created for it last, and other peers have the faces that they had. -/
theorem find?_create (h : table.Spares (count + 1)) (interface : Nat) (peer : Peer) (flags : FaceFlags)
    (now : Nat) :
    (table.create interface peer flags now).2.find? interface peer =
        some (table.create interface peer flags now).1 ∧
      ∀ interface' peer' id, table.find? interface' peer' = some id →
        (table.create interface peer flags now).2.find? interface' peer' = some id := by
  unfold FaceTable.create
  split
  · next id hfind =>
    refine ⟨(table.find?_setFlags id flags interface peer).trans hfind, fun interface' peer' id' hfind' => ?_⟩
    exact (table.find?_setFlags id flags interface' peer').trans hfind'
  · next hnew =>
    have hadded := h.wellFormed.add hnew flags now
    refine ⟨hadded.find?_eq_some_iff.mpr ⟨peer, ?_, peer.same_self⟩, fun interface' peer' id hfind => ?_⟩
    · rw [placeOf_add]
      exact if_pos rfl
    · obtain ⟨other, hplace, hsame⟩ := h.wellFormed.find?_eq_some_iff.mp hfind
      -- The face that is found has another number than the one that is added.
      have hid : id ≠ ⟨table.nextId⟩ := by
        rintro rfl
        rw [placeOf, h.get?_next] at hplace
        cases hplace
      refine hadded.find?_eq_some_iff.mpr ⟨other, ?_, hsame⟩
      rw [placeOf_add, if_neg hid, hplace]

end Spares

/-- What holds of all faces whatever their flags, and of the face that is added, holds of all faces then. -/
theorem forall_create {p : Face → Prop} (hold : ∀ face ∈ table.faces, p face) {flags : FaceFlags}
    (hflags : ∀ face, p face → p { face with flags }) (now : Nat)
    (hnew : p (table.newFace interface peer flags now)) :
    ∀ face ∈ (table.create interface peer flags now).2.faces, p face := by
  unfold create
  split
  · intro face' hface'
    obtain ⟨face, hface, rfl⟩ := List.mem_map.mp hface'
    split
    · exact hflags face (hold face hface)
    · exact hold face hface
  · exact forall_add hold hnew

end FaceTable

namespace Relay

/-- Nothing but the content store changes when data is loaded. -/
theorem exists_store_cacheAll (r : Relay) (contents : List Content) :
    ∃ store, (r.cacheAll contents).2 = { r with store } := by
  rw [Relay.cacheAll_eq]
  induction contents generalizing r with
  | nil => exact ⟨r.store, rfl⟩
  | cons content rest ih =>
    obtain ⟨store, hstore⟩ := r.cacheContent_eq content true
    obtain ⟨store', hrest⟩ := ih { r with store }
    refine ⟨store', ?_⟩
    rw [← hrest, ← hstore]
    rfl

end Relay

/-- Where something is found there is a last one of its kind. -/
theorem exists_find?_reverse {α : Type} {l : List α} {a : α} {p : α → Bool} (h : a ∈ l)
    (ha : p a = true) : ∃ last ∈ l, l.reverse.find? p = some last := by
  cases hlast : l.reverse.find? p with
  | none => exact absurd ha (List.find?_eq_none.mp hlast a (List.mem_reverse.mpr h))
  | some last => exact ⟨last, List.mem_reverse.mp (List.mem_of_find?_eq_some hlast), rfl⟩

/-- Whether a face of a relay leads where a face of a configuration does, and is there for good. -/
structure StaticFace.Describes (face : StaticFace) (f : Face) : Prop where
  interface : f.interface = face.interface
  peer : f.peer.same face.peer = true
  isStatic : f.flags.isStatic = true

/-- The last face of a name. -/
def StaticFace.lastNamed? (faces : List StaticFace) (name : String) : Option StaticFace :=
  faces.reverse.find? (·.name == name)

private theorem StaticFace.lastNamed?_cons (face : StaticFace) (faces : List StaticFace) (name : String) :
    lastNamed? (face :: faces) name =
      (lastNamed? faces name).or (if face.name = name then some face else none) := by
  simp [lastNamed?, List.find?_append, List.find?_singleton]

namespace StaticRoute

/-- Why the URI of a route cannot be read, if it cannot. -/
def uriError? (route : StaticRoute) : Option NameError :=
  match Name.ofUri route.uri route.suite with
  | .ok _ => none
  | .error error => some error

/-- What a route is kept under, if its URI can be read. -/
def key? (route : StaticRoute) : Option (Suite × List Bytes) :=
  (Name.ofUri route.uri route.suite).toOption.map fun name => (route.suite, name.components)

/-- The last route for a key. -/
def lastFor? (routes : List StaticRoute) (key : Suite × List Bytes) : Option StaticRoute :=
  routes.reverse.find? (·.key? == some key)

private theorem lastFor?_cons (route : StaticRoute) (routes : List StaticRoute) (key : Suite × List Bytes) :
    lastFor? (route :: routes) key =
      (lastFor? routes key).or (if route.key? = some key then some route else none) := by
  simp [lastFor?, List.find?_append, List.find?_singleton]

/-- A route whose URI can be read has a key. -/
theorem exists_key? {route : StaticRoute} (h : route.uriError? = none) : ∃ key, route.key? = some key := by
  unfold uriError? at h
  split at h
  · next huri =>
    rw [key?, huri]
    exact ⟨_, rfl⟩
  · cases h

/-- Among routes that include one for a key there is a last one. -/
theorem exists_lastFor? {routes : List StaticRoute} {route : StaticRoute} (h : route ∈ routes)
    {key : Suite × List Bytes} (hkey : route.key? = some key) :
    ∃ last ∈ routes, lastFor? routes key = some last :=
  exists_find?_reverse h (beq_iff_eq.mpr hkey)

end StaticRoute

/-- Whether a configuration refers only to what is there. -/
structure DaemonConfig.Valid (config : DaemonConfig) : Prop where
  relay : config.relay.firstZero = none
  faces : ∀ face ∈ config.faces, face.interface < config.effectiveInterfaces.length
  routes : ∀ route ∈ config.routes, ∃ face ∈ config.faces, face.name = route.face

private theorem DaemonConfig.validate_eq_ok_iff {config : DaemonConfig} :
    config.validate = .ok () ↔ config.Valid := by
  have hfaces : config.faces.find? (config.effectiveInterfaces.length ≤ ·.interface) = none ↔
      ∀ face ∈ config.faces, face.interface < config.effectiveInterfaces.length := by
    simp
  have hroutes : (config.routes.find? fun route => config.faces.all (·.name != route.face)) = none ↔
      ∀ route ∈ config.routes, ∃ face ∈ config.faces, face.name = route.face := by
    simp
  dsimp only [validate]
  split
  · next hzero =>
    refine iff_of_false (by simp) fun h => ?_
    rw [h.relay] at hzero
    cases hzero
  · next _ hface =>
    refine iff_of_false (by simp) fun h => ?_
    rw [hfaces.mpr h.faces] at hface
    cases hface
  · next hroute =>
    refine iff_of_false (by simp) fun h => ?_
    rw [hroutes.mpr h.routes] at hroute
    cases hroute
  · next hzero hface hroute => exact ⟨fun _ => ⟨hzero, hfaces.mp hface, hroutes.mp hroute⟩, fun _ => rfl⟩

namespace Daemon

variable {r : Relay} {known : List (String × FaceId)} {faces : List StaticFace}
  {routes : List StaticRoute}

private theorem routes_addFaces (r : Relay) (faces : List StaticFace) (known : List (String × FaceId)) :
    (addFaces r faces known).2.routes = r.routes := by
  induction faces generalizing r known with
  | nil => rfl
  | cons face faces ih => exact ih _ _

/-- Each face that is added has its name in front. -/
theorem names_addFaces (r : Relay) (faces : List StaticFace) (known : List (String × FaceId)) :
    (addFaces r faces known).1.map Prod.fst = (faces.map (·.name)).reverse ++ known.map Prod.fst := by
  induction faces generalizing r known with
  | nil => rfl
  | cons face faces ih =>
    rw [addFaces, ih, List.map_cons, List.map_cons, List.reverse_cons, List.append_assoc]
    rfl

/-- Names that stand for faces still do when faces are added. -/
theorem contains_addFaces (h : ∀ name id, (name, id) ∈ known → r.faces.contains id = true)
    (faces : List StaticFace) {name : String} {id : FaceId} (hmem : (name, id) ∈ (addFaces r faces known).1) :
    (addFaces r faces known).2.faces.contains id = true := by
  induction faces generalizing r known with
  | nil => exact h name id hmem
  | cons face faces ih =>
    refine ih (fun other id hother => ?_) hmem
    rcases List.mem_cons.mp hother with heq | hother
    · obtain ⟨-, rfl⟩ := Prod.mk.inj heq
      exact r.faces.contains_create face.interface face.peer _ r.clock
    · exact (r.faces.eased_create face.interface face.peer _ r.clock).contains id (h other id hother)

/-- A peer keeps its face. -/
theorem find?_addFaces (hspares : r.faces.Spares faces.length) {interface : Nat} {peer : Peer}
    {id : FaceId} (h : r.faces.find? interface peer = some id) (known : List (String × FaceId)) :
    (addFaces r faces known).2.faces.find? interface peer = some id := by
  induction faces generalizing r known with
  | nil => exact h
  | cons face faces ih =>
    exact ih (hspares.create face.interface face.peer _ r.clock)
      ((hspares.find?_create face.interface face.peer _ r.clock).2 interface peer id h) _

/-- Each face of a configuration has a face of the relay. -/
theorem exists_find?_addFaces (hspares : r.faces.Spares faces.length) (known : List (String × FaceId))
    {face : StaticFace} (hface : face ∈ faces) :
    ∃ id, (addFaces r faces known).2.faces.find? face.interface face.peer = some id := by
  induction faces generalizing r known with
  | nil => exact absurd hface List.not_mem_nil
  | cons first faces ih =>
    have hrest := hspares.create first.interface first.peer { first.flags with isStatic := true } r.clock
    rcases List.mem_cons.mp hface with rfl | hface
    · have hfind := (hspares.find?_create face.interface face.peer { face.flags with isStatic := true }
        r.clock).1
      exact ⟨_, find?_addFaces (r := (r.addStaticFace face.interface face.peer face.flags).2) hrest hfind _⟩
    · exact ih hrest _ hface

/-- A name stands for the face of the peer that the last face of that name leads to. -/
theorem lookup_addFaces (hspares : r.faces.Spares faces.length) (known : List (String × FaceId))
    (name : String) :
    (addFaces r faces known).1.lookup name =
      (StaticFace.lastNamed? faces name).elim (known.lookup name) fun face =>
        (addFaces r faces known).2.faces.find? face.interface face.peer := by
  induction faces generalizing r known with
  | nil => rfl
  | cons face faces ih =>
    have hrest := hspares.create face.interface face.peer { face.flags with isStatic := true } r.clock
    have hfind (known : List (String × FaceId)) :=
      find?_addFaces (r := (r.addStaticFace face.interface face.peer face.flags).2) hrest
        (hspares.find?_create face.interface face.peer { face.flags with isStatic := true } r.clock).1 known
    rw [addFaces, ih hrest, StaticFace.lastNamed?_cons]
    -- The name is that of a later face, or of this one, which keeps its number from here on.
    cases StaticFace.lastNamed? faces name with
    | some last => rfl
    | none =>
      rw [Option.none_or, Option.elim_none, List.lookup_cons]
      split
      · next hname =>
        rw [if_pos (eq_of_beq hname).symm, Option.elim_some]
        exact (hfind _).symm
      · next hname =>
        rw [if_neg fun heq => ne_of_beq_false hname heq.symm, Option.elim_none]

/-- All faces of a relay are faces of a configuration, if those before were. -/
theorem forall_addFaces {all : List StaticFace}
    (hr : ∀ f ∈ r.faces.faces, ∃ face ∈ all, face.Describes f) (hfaces : faces ⊆ all)
    (known : List (String × FaceId)) :
    ∀ f ∈ (addFaces r faces known).2.faces.faces, ∃ face ∈ all, face.Describes f := by
  induction faces generalizing r known with
  | nil => exact hr
  | cons face faces ih =>
    obtain ⟨hface, hfaces⟩ := List.cons_subset.mp hfaces
    refine ih (FaceTable.forall_create hr ?_ r.clock ?_) hfaces _
    · rintro f ⟨other, hother, hdescribes⟩
      exact ⟨other, hother, hdescribes.interface, hdescribes.peer, rfl⟩
    · exact ⟨face, hface, rfl, face.peer.same_self, rfl⟩

private theorem describes_addFaces (hempty : r.faces.faces = []) :
    ∀ f ∈ (addFaces r faces []).2.faces.faces, ∃ face ∈ faces, face.Describes f := by
  apply forall_addFaces
  · rw [hempty]
    exact List.forall_mem_nil _
  · exact List.Subset.refl faces

/-- Names stand for the faces of the relay that the last faces of these names lead to. -/
theorem lookup_addFaces_eq_some_iff (hspares : r.faces.Spares faces.length) {name : String}
    {id : FaceId} :
    (addFaces r faces []).1.lookup name = some id ↔ ∃ face,
      StaticFace.lastNamed? faces name = some face ∧
        (addFaces r faces []).2.faces.find? face.interface face.peer = some id := by
  rw [lookup_addFaces hspares]
  cases StaticFace.lastNamed? faces name with
  | none => simp
  | some face => simp

/-- A name that is among the first parts of pairs stands for the second part of one. -/
theorem exists_lookup_of_mem {name : String} (h : name ∈ known.map Prod.fst) :
    ∃ id, known.lookup name = some id ∧ (name, id) ∈ known := by
  cases hid : known.lookup name with
  | none =>
    obtain ⟨p, hp, rfl⟩ := List.mem_map.mp h
    simpa using List.lookup_eq_none_iff.mp hid p hp
  | some id =>
    obtain ⟨before, after, rfl, -⟩ := List.lookup_eq_some_iff.mp hid
    exact ⟨id, rfl, List.mem_append_right before List.mem_cons_self⟩

/-- Whether the faces that routes refer to are known and there. -/
def Resolves (known : List (String × FaceId)) (faces : FaceTable) (routes : List StaticRoute) : Prop :=
  ∀ route ∈ routes, ∃ id, known.lookup route.face = some id ∧ faces.contains id = true

private theorem addRoutes_cons_of_error {route : StaticRoute} {id : FaceId} {error : NameError}
    (hid : known.lookup route.face = some id) (huri : Name.ofUri route.uri route.suite = .error error) :
    addRoutes known r (route :: routes) = (.error (.relay (.invalidName error)), r) := by
  simp [addRoutes, hid, Relay.apply, Relay.withName, huri]

private theorem addRoutes_cons_of_ok {route : StaticRoute} {id : FaceId} {name : Name}
    (hid : known.lookup route.face = some id) (hface : r.faces.contains id = true)
    (huri : Name.ofUri route.uri route.suite = .ok name) :
    addRoutes known r (route :: routes) =
      addRoutes known { r with routes := (r.routes.insert name id route.suite).2 } routes := by
  simp [addRoutes, hid, Relay.apply, Relay.withName, huri, Relay.addRoute, hface, Except.map]

/-- The first URI that cannot be read is what ends the adding of routes. -/
theorem addRoutes_fst (h : Resolves known r.faces routes) :
    (addRoutes known r routes).1 =
      (routes.findSome? StaticRoute.uriError?).elim (.ok ()) fun error =>
        .error (.relay (.invalidName error)) := by
  induction routes generalizing r with
  | nil => rfl
  | cons route routes ih =>
    obtain ⟨⟨id, hid, hface⟩, hroutes⟩ := List.forall_mem_cons.mp h
    rw [List.findSome?_cons, StaticRoute.uriError?]
    cases huri : Name.ofUri route.uri route.suite with
    | error error => rw [addRoutes_cons_of_error hid huri, Option.elim_some]
    | ok name =>
      rw [addRoutes_cons_of_ok hid hface huri]
      exact ih hroutes

private theorem faces_addRoutes (h : Resolves known r.faces routes) :
    (addRoutes known r routes).2.faces = r.faces := by
  induction routes generalizing r with
  | nil => rfl
  | cons route routes ih =>
    obtain ⟨⟨id, hid, hface⟩, hroutes⟩ := List.forall_mem_cons.mp h
    cases huri : Name.ofUri route.uri route.suite with
    | error error => rw [addRoutes_cons_of_error hid huri]
    | ok name =>
      rw [addRoutes_cons_of_ok hid hface huri]
      exact ih hroutes

/-- A key leads to the face that the last route for it refers to. -/
theorem holds_addRoutes (h : Resolves known r.faces routes) (hdistinct : r.routes.Distinct)
    (hok : (addRoutes known r routes).1 = .ok ()) (key : Suite × List Bytes) (id : FaceId) :
    (addRoutes known r routes).2.routes.Holds key id ↔
      (StaticRoute.lastFor? routes key).elim (r.routes.Holds key id) fun route =>
        known.lookup route.face = some id := by
  induction routes generalizing r with
  | nil => rfl
  | cons route routes ih =>
    obtain ⟨⟨face, hface, hthere⟩, hroutes⟩ := List.forall_mem_cons.mp h
    cases huri : Name.ofUri route.uri route.suite with
    | error error =>
      rw [addRoutes_cons_of_error hface huri] at hok
      cases hok
    | ok name =>
      have hkey : route.key? = some (route.suite, name.components) := by
        rw [StaticRoute.key?, huri]
        rfl
      rw [addRoutes_cons_of_ok hface hthere huri] at hok ⊢
      have hrest := ih (r := { r with routes := (r.routes.insert name face route.suite).2 }) hroutes
        (hdistinct.insert name face route.suite) hok
      rw [hrest, StaticRoute.lastFor?_cons]
      -- Where a later route has the key, what this one puts there is put over.
      cases StaticRoute.lastFor? routes key with
      | some last => rfl
      | none =>
        rw [Option.none_or, Option.elim_none, hdistinct.holds_insert, hkey]
        by_cases hsame : (route.suite, name.components) = key
        · simp [hsame, hface]
        · simp [hsame]

variable {config : DaemonConfig} {d : Daemon}

private theorem exists_store_loadData (d : Daemon) (listing : Option (List DirectoryEntry)) :
    ∃ store, (d.loadData listing).2 = { d with relay := { d.relay with store } } := by
  unfold loadData
  split
  · exact ⟨d.relay.store, rfl⟩
  · exact ⟨d.relay.store, rfl⟩
  · next listing _ =>
    obtain ⟨store, hstore⟩ := d.relay.exists_store_cacheAll (listing.filterMap (·.content? d.format))
    refine ⟨store, ?_⟩
    rw [← hstore]
    rfl

/-- The names in the routes of a valid configuration stand for faces that are there. -/
theorem resolves_of_valid (hvalid : config.Valid) (r : Relay) :
    Resolves (addFaces r config.faces []).1 (addFaces r config.faces []).2.faces config.routes := by
  intro route hroute
  have hname : route.face ∈ (addFaces r config.faces []).1.map Prod.fst := by
    obtain ⟨face, hface, hname⟩ := hvalid.routes route hroute
    rw [names_addFaces, List.map_nil, List.append_nil, List.mem_reverse, ← hname]
    exact List.mem_map_of_mem hface
  obtain ⟨id, hid, hmem⟩ := exists_lookup_of_mem hname
  exact ⟨id, hid, contains_addFaces (by simp) config.faces hmem⟩

/-- The relay that the faces of a configuration are added to. -/
def loaded (d : Daemon) (listing : Option (List DirectoryEntry)) : Relay :=
  (d.bindInterfaces.loadData listing).2.relay

/-- Whether names are those of the faces of a configuration and stand for faces that are there for good, and
keys lead to the faces in the last routes for them. -/
structure Places (d : Daemon) (config : DaemonConfig) (known : List (String × FaceId)) : Prop where
  names : known.map Prod.fst = (config.faces.map (·.name)).reverse
  /-- Each of the faces leads through a socket that is bound. -/
  faces : ∀ id ∈ known.map Prod.snd, ∃ f ∈ d.relay.faces.faces, f.id = id ∧ f.flags.isStatic = true ∧
    ∃ socket, d.interfaces[f.interface]? = some socket ∧ socket.index = f.interface
  leads : ∀ key id, d.relay.routes.Holds key id ↔ ∃ route,
    StaticRoute.lastFor? config.routes key = some route ∧ known.lookup route.face = some id

/-- Whether a daemon has the sockets, faces and routes of a configuration, and no others. -/
structure Reflects (d : Daemon) (config : DaemonConfig) : Prop where
  sockets : d.interfaces.map (·.address) = config.effectiveInterfaces
  /-- A peer has one face on a socket. -/
  wellFormed : d.relay.faces.WellFormed
  /-- Each face is there for good and leads through a socket that is bound. -/
  faces : ∀ face ∈ config.faces, ∃ f ∈ d.relay.faces.faces,
    d.relay.faces.find? face.interface face.peer = some f.id ∧ face.Describes f ∧
      ∃ socket, d.interfaces[f.interface]? = some socket ∧ socket.index = f.interface
  noOther : ∀ f ∈ d.relay.faces.faces, ∃ face ∈ config.faces, face.Describes f
  distinct : d.relay.routes.Distinct
  /-- A key leads to the face of the last face that has the name in the last route for it. -/
  leads : ∀ key id, d.relay.routes.Holds key id ↔ ∃ route face,
    StaticRoute.lastFor? config.routes key = some route ∧
      StaticFace.lastNamed? config.faces route.face = some face ∧
        d.relay.faces.find? face.interface face.peer = some id
  /-- Each route has a key, which leads to a face. -/
  covers : ∀ route ∈ config.routes, ∃ key id, route.key? = some key ∧ d.relay.routes.Holds key id

section

variable {source : NonceSource} {listing : Option (List DirectoryEntry)}

private theorem address_start (hd : Daemon.new config source = .ok d)
    (listing : Option (List DirectoryEntry)) :
    (d.start listing).2.interfaces.map (·.address) = config.effectiveInterfaces := by
  obtain ⟨-, hconfig, -, hinterfaces⟩ := of_new hd
  rw [interfaces_start, bindInterfaces, hinterfaces, hconfig, List.nil_append, List.map_map]
  exact List.zipIdx_map_fst 0 _

private theorem length_start (hd : Daemon.new config source = .ok d)
    (listing : Option (List DirectoryEntry)) :
    (d.start listing).2.interfaces.length = config.effectiveInterfaces.length := by
  rw [← address_start hd listing, List.length_map]

/-- Before its faces and routes are added a daemon has none. -/
theorem loadData_of_new (hd : Daemon.new config source = .ok d)
    (listing : Option (List DirectoryEntry)) :
    (d.bindInterfaces.loadData listing).2.config = config ∧ (d.loaded listing).faces.faces = [] ∧
      (d.loaded listing).routes = {} := by
  obtain ⟨store, hstore⟩ := d.bindInterfaces.exists_store_loadData listing
  obtain ⟨-, hconfig, hrelay, -⟩ := of_new hd
  rw [loaded, hstore]
  refine ⟨hconfig, ?_, ?_⟩
  · change d.relay.faces.faces = []
    rw [Relay.eq_of_new hrelay]
  · change d.relay.routes = {}
    rw [Relay.eq_of_new hrelay]

private theorem start_of_error {error : StartError}
    (h : (d.bindInterfaces.loadData listing).1 = .error error) :
    d.start listing = (.error error, (d.bindInterfaces.loadData listing).2) := by
  unfold start
  split
  · next heq =>
    rw [heq] at h ⊢
    rw [← h]
  · next heq =>
    rw [heq] at h
    cases h

private theorem loaded_of_start (h : (d.start listing).1 = .ok ()) :
    (d.bindInterfaces.loadData listing).1 = .ok () := by
  cases hloaded : (d.bindInterfaces.loadData listing).1 with
  | error error =>
    rw [start_of_error hloaded] at h
    cases h
  | ok => rfl

/-- Once the data is loaded, the faces are added and then the routes. -/
theorem added_of_new (hd : Daemon.new config source = .ok d)
    (h : (d.bindInterfaces.loadData listing).1 = .ok ()) :
    ((d.start listing).1, (d.start listing).2.relay) =
        addRoutes (addFaces (d.loaded listing) config.faces []).1
          (addFaces (d.loaded listing) config.faces []).2 config.routes ∧
      (d.start listing).2.relay.faces = (addFaces (d.loaded listing) config.faces []).2.faces := by
  have hconfig := (loadData_of_new hd listing).1
  have hstart : ((d.start listing).1, (d.start listing).2.relay) =
      addRoutes (addFaces (d.loaded listing) config.faces []).1
        (addFaces (d.loaded listing) config.faces []).2 config.routes := by
    unfold start loaded
    split
    · next heq =>
      rw [heq] at h
      cases h
    · next heq =>
      rw [heq] at hconfig
      dsimp only at hconfig
      rw [heq, hconfig]
  have hresolves := resolves_of_valid (DaemonConfig.validate_eq_ok_iff.mp (of_new hd).1) (d.loaded listing)
  refine ⟨hstart, ?_⟩
  rw [← faces_addRoutes hresolves, ← hstart]

/-- However far a start comes, all faces lead through sockets that are bound. -/
theorem connected_start (hd : Daemon.new config source = .ok d)
    (listing : Option (List DirectoryEntry)) : (d.start listing).2.Connected := by
  have hvalid := DaemonConfig.validate_eq_ok_iff.mp (of_new hd).1
  rw [Connected, length_start hd, FaceTable.LeadsBelow]
  cases hloaded : (d.bindInterfaces.loadData listing).1 with
  | error error =>
    have hempty := (loadData_of_new hd listing).2.1
    rw [loaded] at hempty
    rw [start_of_error hloaded, hempty]
    exact fun face hface => absurd hface List.not_mem_nil
  | ok =>
    rw [(added_of_new hd hloaded).2]
    intro f hf
    obtain ⟨face, hface, hdescribes⟩ := describes_addFaces (loadData_of_new hd listing).2.1 f hf
    exact hdescribes.interface ▸ hvalid.faces face hface

/-- Once the data is loaded, only a URI that cannot be read is in the way. -/
theorem start_fst (hd : Daemon.new config source = .ok d)
    (h : (d.bindInterfaces.loadData listing).1 = .ok ()) :
    (d.start listing).1 = (config.routes.findSome? StaticRoute.uriError?).elim (.ok ()) fun error =>
      .error (.relay (.invalidName error)) := by
  have hresolves := resolves_of_valid (DaemonConfig.validate_eq_ok_iff.mp (of_new hd).1) (d.loaded listing)
  exact (congrArg Prod.fst (added_of_new hd h).1).trans (addRoutes_fst hresolves)

/-- After a start that does not fail, keys lead where the names in the routes for them have them lead. -/
theorem holds_start (hd : Daemon.new config source = .ok d) (hok : (d.start listing).1 = .ok ())
    (key : Suite × List Bytes) (id : FaceId) :
    (d.start listing).2.relay.routes.Holds key id ↔ ∃ route,
      StaticRoute.lastFor? config.routes key = some route ∧
        (addFaces (d.loaded listing) config.faces []).1.lookup route.face = some id := by
  have hresolves := resolves_of_valid (DaemonConfig.validate_eq_ok_iff.mp (of_new hd).1) (d.loaded listing)
  obtain ⟨hresult, hrelay⟩ := Prod.mk.inj (added_of_new hd (loaded_of_start hok)).1
  have hadded : (addFaces (d.loaded listing) config.faces []).2.routes = {} :=
    (routes_addFaces _ _ []).trans (loadData_of_new hd listing).2.2
  rw [hrelay, holds_addRoutes hresolves (hadded ▸ .empty) (hresult.symm.trans hok), hadded]
  cases StaticRoute.lastFor? config.routes key with
  | none => simp [RouteTable.Holds]
  | some route => simp

/-- After a start that does not fail, each route has a key that leads to a face. -/
theorem exists_holds_start (hd : Daemon.new config source = .ok d) (hok : (d.start listing).1 = .ok ())
    {route : StaticRoute} (hroute : route ∈ config.routes) :
    ∃ key id, route.key? = some key ∧ (d.start listing).2.relay.routes.Holds key id := by
  have hread : config.routes.findSome? StaticRoute.uriError? = none := by
    have hresult := start_fst hd (loaded_of_start hok)
    cases herror : config.routes.findSome? StaticRoute.uriError? with
    | none => rfl
    | some error =>
      rw [hok, herror] at hresult
      cases hresult
  have hresolves := resolves_of_valid (DaemonConfig.validate_eq_ok_iff.mp (of_new hd).1) (d.loaded listing)
  obtain ⟨key, hkey⟩ := StaticRoute.exists_key? (List.findSome?_eq_none_iff.mp hread route hroute)
  obtain ⟨last, hmem, hlast⟩ := StaticRoute.exists_lastFor? hroute hkey
  obtain ⟨id, hid, -⟩ := hresolves last hmem
  exact ⟨key, id, hkey, (holds_start hd hok key id).mpr ⟨last, hlast, hid⟩⟩

/-- After a start that does not fail, all faces are those of the configuration. -/
theorem describes_start (hd : Daemon.new config source = .ok d) (hok : (d.start listing).1 = .ok ()) :
    ∀ f ∈ (d.start listing).2.relay.faces.faces, ∃ face ∈ config.faces, face.Describes f := by
  rw [(added_of_new hd (loaded_of_start hok)).2]
  exact describes_addFaces (loadData_of_new hd listing).2.1

/-- After a start that does not fail, faces lead through sockets that are bound. -/
theorem exists_socket_start (hd : Daemon.new config source = .ok d) (hok : (d.start listing).1 = .ok ())
    {f : Face} (hf : f ∈ (d.start listing).2.relay.faces.faces) :
    ∃ socket, (d.start listing).2.interfaces[f.interface]? = some socket ∧ socket.index = f.interface := by
  obtain ⟨face, hface, hdescribes⟩ := describes_start hd hok f hf
  have hbelow := (DaemonConfig.validate_eq_ok_iff.mp (of_new hd).1).faces face hface
  rw [← hdescribes.interface, ← length_start hd listing] at hbelow
  exact exists_socket_of_lt (numbered_of_reachable (.started hd listing)) hbelow

/-- After a start that does not fail, the names that were given to faces stand for faces, and routes lead
to these. -/
theorem places_start (hd : Daemon.new config source = .ok d) (hok : (d.start listing).1 = .ok ()) :
    (d.start listing).2.Places config (addFaces (d.loaded listing) config.faces []).1 := by
  refine ⟨?_, fun id hid => ?_, holds_start hd hok⟩
  · rw [names_addFaces, List.map_nil, List.append_nil]
  · obtain ⟨⟨name, _⟩, hmem, rfl⟩ := List.mem_map.mp hid
    have hthere := contains_addFaces (by simp) config.faces hmem
    rw [← (added_of_new hd (loaded_of_start hok)).2, FaceTable.contains, List.any_eq_true] at hthere
    obtain ⟨f, hf, hid⟩ := hthere
    obtain ⟨_, -, hdescribes⟩ := describes_start hd hok f hf
    exact ⟨f, hf, eq_of_beq hid, hdescribes.isStatic, exists_socket_start hd hok hf⟩

/-- With no more faces than there are numbers, a start that does not fail comes to a daemon as it is
configured. -/
theorem reflects_start (hd : Daemon.new config source = .ok d) (hok : (d.start listing).1 = .ok ())
    (hfew : config.faces.length ≤ UInt32.size) : (d.start listing).2.Reflects config := by
  have hrelay := reachable_relay (.started hd listing)
  have hfaces := (added_of_new hd (loaded_of_start hok)).2
  have hspares := FaceTable.Spares.of_empty (loadData_of_new hd listing).2.1 hfew
  refine ⟨address_start hd listing, (Relay.laidOut_of_reachable hrelay).faces, fun face hface => ?_,
    describes_start hd hok, Relay.distinct_of_reachable hrelay, fun key id => ?_,
    fun _ => exists_holds_start hd hok⟩
  · obtain ⟨id, hid⟩ := exists_find?_addFaces hspares [] hface
    rw [← hfaces] at hid
    obtain ⟨f, hfound, rfl⟩ := Option.map_eq_some_iff.mp hid
    have hmem := List.mem_of_find?_eq_some hfound
    have hplace := List.find?_some hfound
    rw [Bool.and_eq_true, beq_iff_eq] at hplace
    obtain ⟨_, -, hdescribes⟩ := describes_start hd hok f hmem
    exact ⟨f, hmem, hid, ⟨hplace.1, hplace.2, hdescribes.isStatic⟩, exists_socket_start hd hok hmem⟩
  · rw [holds_start hd hok, hfaces]
    simp only [lookup_addFaces_eq_some_iff hspares]
    constructor
    · rintro ⟨route, hlast, face, hface, hid⟩
      exact ⟨route, face, hlast, hface, hid⟩
    · rintro ⟨route, face, hlast, hface, hid⟩
      exact ⟨route, hlast, face, hface, hid⟩

/-- Where a daemon comes about and its data is loaded, a start fails at the first route whose URI cannot be
read, if there is one, and not otherwise. If it does not fail, each face of the configuration was given the
number of one that is there for good, keys lead to these numbers, and with no more faces than numbers the
daemon is as it is configured. However far it comes, each packet that is released finds its socket from then
on, as long as datagrams arrive on sockets that are bound. -/
theorem starts_of_new (hd : Daemon.new config source = .ok d) (listing : Option (List DirectoryEntry)) :
    ((d.bindInterfaces.loadData listing).1 = .ok () →
      (d.start listing).1 = (config.routes.findSome? StaticRoute.uriError?).elim (.ok ()) fun error =>
        .error (.relay (.invalidName error))) ∧
    ((d.start listing).1 = .ok () →
      (d.start listing).2.Places config (addFaces (d.loaded listing) config.faces []).1 ∧
        (config.faces.length ≤ UInt32.size → (d.start listing).2.Reflects config)) ∧
    ∀ d', (d.start listing).2.RunsTo d' → ∀ now before o after,
      d'.released now = before ++ o :: after →
        ∃ socket, (before.foldl (queueOutbound d'.format) d'.interfaces)[o.interface]? = some socket ∧
          socket.index = o.interface := by
  have hreachable : (d.start listing).2.Reachable := .started hd listing
  refine ⟨start_fst hd, fun hok => ⟨places_start hd hok, reflects_start hd hok⟩,
    fun d' hruns now before o after hsplit => ?_⟩
  have hconnected := connected_of_runsTo hruns hreachable (connected_start hd listing)
  exact exists_socket_of_released (hruns.reachable hreachable) hconnected hsplit

end

/-- A configuration in which names, peers and keys occur more than once. -/
def crowded : DaemonConfig where
  faces :=
    [{ name := "left", peer := .udp (.v4 [10, 0, 0, 1] 6363) },
      { name := "right", peer := .udp (.v4 [10, 0, 0, 2] 6363) },
      { name := "left", peer := .udp (.v4 [10, 0, 0, 3] 6363) },
      { name := "again", peer := .udp (.v4 [10, 0, 0, 2] 6363) }]
  routes :=
    [{ uri := "/a", face := "right" }, { uri := "/b", face := "again" }, { uri := "/a", face := "left" }]

/-- Of two faces of a name and two routes for a key the last ones count, and two faces for a peer are one. -/
theorem crowded_starts :
    ∃ d, Daemon.new crowded (.ofSeed 0) = .ok d ∧ (d.start none).1 = .ok () ∧
      (d.start none).2.Reflects crowded ∧
      (d.start none).2.relay.faces.faces.length = 3 ∧
      (d.start none).2.relay.routes.routes.map (fun route => (route.key, route.face)) =
        [((.ndn2013, [[97]]), ⟨3⟩), ((.ndn2013, [[98]]), ⟨2⟩)] ∧
      ∀ d', (d.start none).2.RunsTo d' → ∀ now before o after,
        d'.released now = before ++ o :: after →
          ∃ socket, (before.foldl (queueOutbound d'.format) d'.interfaces)[o.interface]? = some socket ∧
            socket.index = o.interface := by
  refine ⟨_, rfl, ?_⟩
  obtain ⟨hstarts, hreflects, hsends⟩ :=
    starts_of_new (show Daemon.new crowded (.ofSeed 0) = .ok _ from rfl) none
  have hok := hstarts rfl
  refine ⟨hok, (hreflects hok).2 ?_, ?_, ?_, hsends⟩
  · decide
  · decide +kernel
  · decide +kernel

end Daemon

end NamedFunctions
