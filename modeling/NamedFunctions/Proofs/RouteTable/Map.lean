import Mathlib.Data.List.Induction
import NamedFunctions.Proofs.RouteTable

/-!
# Routes as a map

Whatever is done to a table of routes, it is a map from the first components of names in a suite to faces.
A key leads to the face that was put under it last, unless the key or that face was removed since. A look-up
finds the longest key that a name begins with; where candidates are as long as each other, the first counts.
-/

namespace NamedFunctions

namespace Name

/-- Whether a name begins with the components of another one, which has the same suite. -/
def LeadsTo (first name : Name) : Prop :=
  first.suite = name.suite ∧ first.components <+: name.components

private theorem agrees_route_iff {first name : Name} :
    first.agrees .route name = true ↔ first.LeadsTo name := by
  simp only [agrees, covers, LeadsTo, Bool.and_eq_true, beq_iff_eq, List.isPrefixOf_iff_prefix]

/-- Whether something belongs to the first of the longest candidates that a name begins with. -/
def FirstLongest {α : Type} (name : Name) (candidates : List (Name × α)) (a : α) : Prop :=
  ∃ before best after, candidates = before ++ (best, a) :: after ∧ best.LeadsTo name ∧
    (∀ other ∈ before, other.1.LeadsTo name → other.1.length < best.length) ∧
    ∀ other ∈ after, other.1.LeadsTo name → other.1.length ≤ best.length

/-- There is one such candidate at most. -/
theorem FirstLongest.unique {α : Type} {name : Name} {candidates : List (Name × α)} {a b : α}
    (ha : name.FirstLongest candidates a) (hb : name.FirstLongest candidates b) : a = b := by
  obtain ⟨before, best, after, rfl, hleads, hbefore, hafter⟩ := ha
  obtain ⟨before', best', after', hsplit, hleads', hbefore', hafter'⟩ := hb
  rcases List.append_eq_append_iff.mp hsplit with ⟨between, rfl, hrest⟩ | ⟨between, rfl, hrest⟩
  · cases between with
    | nil => exact congrArg Prod.snd (List.cons.inj hrest).1
    | cons first between =>
      obtain ⟨rfl, rfl⟩ := List.cons.inj hrest
      have hlt := hbefore' (best, a) (by simp) hleads
      have hle := hafter (best', b) (by simp) hleads'
      dsimp only at hlt hle
      omega
  · cases between with
    | nil => exact congrArg Prod.snd (List.cons.inj hrest).1.symm
    | cons first between =>
      obtain ⟨rfl, rfl⟩ := List.cons.inj hrest
      have hlt := hbefore (best', b) (by simp) hleads'
      have hle := hafter' (best, a) (by simp) hleads
      dsimp only at hlt hle
      omega

private theorem firstLongest_of_longestMatch {α : Type} {name : Name} {candidates : List (Name × α)} {a : α}
    (h : name.longestMatch candidates = some a) : name.FirstLongest candidates a := by
  have hsplit := split_of_longestMatch h
  simp only [agrees_route_iff] at hsplit
  exact hsplit

/-- What is found is what belongs to the first of the longest candidates. -/
theorem longestMatch_eq_some_iff {α : Type} {name : Name} {candidates : List (Name × α)} {a : α} :
    name.longestMatch candidates = some a ↔ name.FirstLongest candidates a := by
  refine ⟨firstLongest_of_longestMatch, fun h => ?_⟩
  cases hfound : name.longestMatch candidates with
  | none =>
    obtain ⟨before, best, after, rfl, hleads, -⟩ := h
    have hnone := longestMatch_eq_none_iff.mp hfound (best, a) (by simp)
    rw [agrees_route_iff.mpr hleads] at hnone
    cases hnone
  | some b => rw [(firstLongest_of_longestMatch hfound).unique h]

end Name

namespace RouteTable

/-- What is done to a table of routes. -/
inductive Change where
  | insert (name : Name) (face : FaceId) (suite : Suite)
  | erase (name : Name) (suite : Suite)
  | eraseFace (face : FaceId)
deriving DecidableEq, Repr

/-- The key that a change is about, unless it is about a face. -/
def Change.key? : Change → Option (Suite × List Bytes)
  | insert name _ suite => some (suite, name.components)
  | erase name suite => some (suite, name.components)
  | eraseFace _ => none

/-- The table after a change. -/
def change (table : RouteTable) : Change → RouteTable
  | .insert name face suite => (table.insert name face suite).2
  | .erase name suite => (table.erase name suite).2
  | .eraseFace face => table.eraseFace face

/-- The table after some changes. -/
def changeAll (table : RouteTable) (changes : List Change) : RouteTable := changes.foldl change table

private theorem changeAll_snoc (table : RouteTable) (changes : List Change) (c : Change) :
    table.changeAll (changes ++ [c]) = (table.changeAll changes).change c := by
  rw [changeAll, List.foldl_append]
  rfl

private theorem Distinct.change {table : RouteTable} (h : table.Distinct) (c : Change) :
    (table.change c).Distinct := by
  cases c with
  | insert name face suite => exact h.insert name face suite
  | erase name suite => exact h.erase name suite
  | eraseFace face => exact h.eraseFace face

private theorem distinct_changeAll (changes : List Change) : (changeAll {} changes).Distinct := by
  induction changes using List.reverseRecOn with
  | nil => exact .empty
  | append_singleton changes c ih =>
    rw [changeAll_snoc]
    exact ih.change c

/-- Whether there is a route through a face for a key. -/
def Holds (table : RouteTable) (key : Suite × List Bytes) (face : FaceId) : Prop :=
  ∃ route ∈ table.routes, route.key = key ∧ route.face = face

/-- Whether a face was the last one that was put under a key, and neither the key nor the face was
removed since. -/
def LastPut (changes : List Change) (key : Suite × List Bytes) (face : FaceId) : Prop :=
  ∃ before name after, changes = before ++ .insert name face key.1 :: after ∧ name.components = key.2 ∧
    ∀ c ∈ after, c.key? ≠ some key ∧ c ≠ .eraseFace face

/-- Whether a change puts a face under a key. -/
def Change.Puts (c : Change) (key : Suite × List Bytes) (face : FaceId) : Prop :=
  ∃ name, c = .insert name face key.1 ∧ name.components = key.2

private theorem Change.puts_insert {name : Name} {f face : FaceId} {suite : Suite}
    {key : Suite × List Bytes} :
    (Change.insert name f suite).Puts key face ↔ (suite, name.components) = key ∧ f = face := by
  constructor
  · rintro ⟨name', heq, hname⟩
    cases heq
    exact ⟨Prod.ext rfl hname, rfl⟩
  · rintro ⟨rfl, rfl⟩
    exact ⟨name, rfl, rfl⟩

private theorem not_lastPut_nil (key : Suite × List Bytes) (face : FaceId) : ¬ LastPut [] key face := by
  rintro ⟨before, name, after, hsplit, -⟩
  exact absurd hsplit (by simp)

/-- The last of some changes puts a face under a key, or leaves alone what was put there before. -/
theorem lastPut_snoc {changes : List Change} {c : Change} {key : Suite × List Bytes} {face : FaceId} :
    LastPut (changes ++ [c]) key face ↔
      c.Puts key face ∨ c.key? ≠ some key ∧ c ≠ .eraseFace face ∧ LastPut changes key face := by
  constructor
  · rintro ⟨before, name, after, hsplit, hname, hafter⟩
    rcases List.eq_nil_or_concat after with rfl | ⟨after, last, rfl⟩
    · obtain ⟨-, hlast⟩ := List.append_inj' hsplit rfl
      exact .inl ⟨name, List.singleton_inj.mp hlast, hname⟩
    · have hsplit' : changes ++ [c] = (before ++ .insert name face key.1 :: after) ++ [last] := by
        simpa using hsplit
      obtain ⟨hchanges, hlast⟩ := List.append_inj' hsplit' rfl
      obtain rfl := List.singleton_inj.mp hlast
      obtain ⟨hkey, hface⟩ := hafter c (by simp)
      exact .inr ⟨hkey, hface, before, name, after, hchanges, hname,
        fun d hd => hafter d (by simp [hd])⟩
  · rintro (⟨name, rfl, hname⟩ | ⟨hkey, hface, before, name, after, rfl, hname, hafter⟩)
    · exact ⟨changes, name, [], rfl, hname, fun d hd => absurd hd List.not_mem_nil⟩
    · refine ⟨before, name, after ++ [c], by simp, hname, fun d hd => ?_⟩
      rcases List.mem_append.mp hd with hd | hd
      · exact hafter d hd
      · rw [List.mem_singleton.mp hd]
        exact ⟨hkey, hface⟩

/-- Where keys are distinct, no route behind the one for a key is for that key. -/
theorem hasKey_eq_false {route : Route} {routes : List Route} {name : Name} {suite : Suite}
    (hnew : route.key ∉ routes.map Route.key) (hkey : route.hasKey name suite = true) {other : Route}
    (hother : other ∈ routes) : other.hasKey name suite = false := by
  rw [Bool.eq_false_iff]
  intro hsame
  apply hnew
  rw [Route.hasKey_iff.mp hkey, ← Route.hasKey_iff.mp hsame]
  exact List.mem_map_of_mem hother

/-- Where keys are distinct, the first route for a key is the only one that is given another face. -/
theorem redirect_eq_map {routes : List Route} (h : (routes.map Route.key).Nodup) (name : Name)
    (face : FaceId) (suite : Suite) :
    redirect name face suite routes =
      routes.map fun route => if route.hasKey name suite then { route with face } else route := by
  induction routes with
  | nil => rfl
  | cons route routes ih =>
    obtain ⟨hnew, h⟩ := List.nodup_cons.mp h
    rw [redirect, List.map_cons]
    split
    · next hkey =>
      congr 1
      rw [← List.map_id' routes, List.map_map]
      apply List.map_congr_left
      intro other hother
      simp [hasKey_eq_false hnew hkey hother]
    · rw [ih h]

/-- Where keys are distinct, the first route for a key is the only one that is removed. -/
theorem eraseP_eq_filter {routes : List Route} (h : (routes.map Route.key).Nodup) (name : Name)
    (suite : Suite) :
    routes.eraseP (·.hasKey name suite) = routes.filter (!·.hasKey name suite) := by
  induction routes with
  | nil => rfl
  | cons route routes ih =>
    obtain ⟨hnew, h⟩ := List.nodup_cons.mp h
    by_cases hkey : route.hasKey name suite = true
    · have hrest : routes.filter (!·.hasKey name suite) = routes := by
        rw [List.filter_eq_self]
        intro other hother
        rw [hasKey_eq_false hnew hkey hother]
        rfl
      simp [hkey, hrest]
    · simp [hkey, ih h]

variable {table : RouteTable} {key : Suite × List Bytes} {face : FaceId}

/-- A route that is put in stands under its key, and the others where they were. -/
theorem Distinct.holds_insert (h : table.Distinct) (name : Name) (f : FaceId) (suite : Suite) :
    (table.insert name f suite).2.Holds key face ↔
      (suite, name.components) = key ∧ f = face ∨
        (suite, name.components) ≠ key ∧ table.Holds key face := by
  unfold RouteTable.insert
  split
  · next hthere =>
    rw [Holds, redirect_eq_map h]
    constructor
    · rintro ⟨_, hroute, hkey, rfl⟩
      obtain ⟨route, hmem, rfl⟩ := List.mem_map.mp hroute
      by_cases hsame : route.hasKey name suite = true
      · rw [if_pos hsame] at hkey ⊢
        exact .inl ⟨(Route.hasKey_iff.mp hsame).symm.trans hkey, rfl⟩
      · rw [if_neg hsame] at hkey ⊢
        refine .inr ⟨fun heq => hsame (Route.hasKey_iff.mpr ?_), route, hmem, hkey, rfl⟩
        rw [hkey, heq]
    · rintro (⟨rfl, rfl⟩ | ⟨hne, route, hmem, rfl, rfl⟩)
      · obtain ⟨route, hmem, hsame⟩ := List.any_eq_true.mp hthere
        refine ⟨_, List.mem_map_of_mem hmem, ?_⟩
        rw [if_pos hsame]
        exact ⟨Route.hasKey_iff.mp hsame, rfl⟩
      · refine ⟨_, List.mem_map_of_mem hmem, ?_⟩
        rw [if_neg fun hsame => hne (Route.hasKey_iff.mp hsame).symm]
        exact ⟨rfl, rfl⟩
  · next hnew =>
    constructor
    · rintro ⟨route, hroute, hkey, hface⟩
      rcases List.mem_append.mp hroute with hmem | hadded
      · refine .inr ⟨fun heq => hnew (List.any_eq_true.mpr ⟨route, hmem, ?_⟩), route, hmem, hkey, hface⟩
        rw [Route.hasKey_iff, hkey, heq]
      · rw [List.mem_singleton.mp hadded] at hkey hface
        exact .inl ⟨hkey, hface⟩
    · rintro (⟨hkey, hface⟩ | ⟨-, route, hmem, hheld⟩)
      · exact ⟨_, List.mem_append_right _ (List.mem_singleton_self _), hkey, hface⟩
      · exact ⟨route, List.mem_append_left _ hmem, hheld⟩

private theorem Distinct.holds_erase (h : table.Distinct) (name : Name) (suite : Suite) :
    (table.erase name suite).2.Holds key face ↔
      (suite, name.components) ≠ key ∧ table.Holds key face := by
  rw [RouteTable.erase, Holds, eraseP_eq_filter h, Holds]
  constructor
  · rintro ⟨route, hroute, rfl, hface⟩
    obtain ⟨hmem, hother⟩ := List.mem_filter.mp hroute
    refine ⟨fun heq => ?_, route, hmem, rfl, hface⟩
    rw [Route.hasKey_iff.mpr heq.symm] at hother
    cases hother
  · rintro ⟨hne, route, hmem, rfl, hface⟩
    refine ⟨route, List.mem_filter.mpr ⟨hmem, ?_⟩, rfl, hface⟩
    rw [Bool.not_eq_true', Bool.eq_false_iff]
    exact fun hsame => hne (Route.hasKey_iff.mp hsame).symm

private theorem holds_eraseFace (f : FaceId) :
    (table.eraseFace f).Holds key face ↔ f ≠ face ∧ table.Holds key face := by
  constructor
  · rintro ⟨route, hroute, hkey, rfl⟩
    obtain ⟨hmem, hother⟩ := List.mem_filter.mp hroute
    exact ⟨Ne.symm (bne_iff_ne.mp hother), route, hmem, hkey, rfl⟩
  · rintro ⟨hne, route, hmem, hkey, rfl⟩
    exact ⟨route, List.mem_filter.mpr ⟨hmem, bne_iff_ne.mpr hne.symm⟩, hkey, rfl⟩

/-- A change puts a face under a key, or leaves alone what the key leads to. -/
theorem Distinct.holds_change (h : table.Distinct) (c : Change) :
    (table.change c).Holds key face ↔
      c.Puts key face ∨ c.key? ≠ some key ∧ c ≠ .eraseFace face ∧ table.Holds key face := by
  cases c with
  | insert name f suite =>
    rw [RouteTable.change, h.holds_insert, Change.puts_insert]
    simp [Change.key?]
  | erase name suite =>
    rw [RouteTable.change, h.holds_erase]
    simp [Change.key?, Change.Puts]
  | eraseFace f =>
    rw [RouteTable.change, holds_eraseFace]
    simp [Change.key?, Change.Puts]

private theorem holds_changeAll (changes : List Change) (key : Suite × List Bytes) (face : FaceId) :
    (changeAll {} changes).Holds key face ↔ LastPut changes key face := by
  induction changes using List.reverseRecOn with
  | nil =>
    refine iff_of_false ?_ (not_lastPut_nil key face)
    rintro ⟨route, hroute, -⟩
    exact absurd hroute List.not_mem_nil
  | append_singleton changes c ih =>
    rw [changeAll_snoc, (distinct_changeAll changes).holds_change, lastPut_snoc, ih]

private theorem lookup_eq_none_iff {name : Name} :
    table.lookup name = none ↔ ∀ route ∈ table.routes, ¬ route.name.LeadsTo name := by
  rw [lookup, Name.longestMatch_eq_none_iff, List.forall_mem_map]
  simp only [Bool.eq_false_iff, ne_eq, Name.agrees_route_iff]

/-- Where keys are distinct, the longest of the routes that lead to a name is found. -/
theorem Distinct.lookup_eq_some_iff (h : table.Distinct) {name : Name} {route : Route} :
    table.lookup name = some route ↔ route ∈ table.routes ∧ route.name.LeadsTo name ∧
      ∀ other ∈ table.routes, other.name.LeadsTo name → other.name.length ≤ route.name.length := by
  constructor
  · intro hfound
    have hleads := h.leads_of_lookup hfound
    refine ⟨hleads.mem, Name.agrees_route_iff.mp hleads.covers, fun other hother hagrees => ?_⟩
    rcases hleads.longest other hother (Name.agrees_route_iff.mpr hagrees) with rfl | hlt
    · exact Nat.le_refl _
    · exact Nat.le_of_lt hlt
  · rintro ⟨hmem, hcovers, hlongest⟩
    cases hfound : table.lookup name with
    | none => exact absurd hcovers (lookup_eq_none_iff.mp hfound route hmem)
    | some found =>
      have hleads := h.leads_of_lookup hfound
      rcases hleads.longest route hmem (Name.agrees_route_iff.mpr hcovers) with rfl | hlt
      · rfl
      · have hle := hlongest found hleads.mem (Name.agrees_route_iff.mp hleads.covers)
        omega

/-- After any changes there is one route at most for a key, and it leads to the face that was put there last
unless the key or the face was removed since. A look-up finds the longest route that leads to a name, and
none exactly if none leads there. Among any candidates the first of the longest is found. -/
theorem map_of_changeAll (changes : List Change) :
    (changeAll {} changes).Distinct ∧
    (∀ key face, (changeAll {} changes).Holds key face ↔ LastPut changes key face) ∧
    (∀ name route, (changeAll {} changes).lookup name = some route ↔
      route ∈ (changeAll {} changes).routes ∧ route.name.LeadsTo name ∧
        ∀ other ∈ (changeAll {} changes).routes, other.name.LeadsTo name →
          other.name.length ≤ route.name.length) ∧
    (∀ name, (changeAll {} changes).lookup name = none ↔
      ∀ route ∈ (changeAll {} changes).routes, ¬ route.name.LeadsTo name) ∧
    ∀ (α : Type) (name : Name) (candidates : List (Name × α)),
      (∀ a, name.longestMatch candidates = some a ↔ name.FirstLongest candidates a) ∧
      (name.longestMatch candidates = none ↔ ∀ candidate ∈ candidates, ¬ candidate.1.LeadsTo name) := by
  have hdistinct := distinct_changeAll changes
  refine ⟨hdistinct, holds_changeAll changes, fun name route => hdistinct.lookup_eq_some_iff,
    fun name => lookup_eq_none_iff, fun α name candidates => ⟨fun a => Name.longestMatch_eq_some_iff, ?_⟩⟩
  rw [Name.longestMatch_eq_none_iff]
  simp only [Bool.eq_false_iff, ne_eq, Name.agrees_route_iff]

end RouteTable

end NamedFunctions
