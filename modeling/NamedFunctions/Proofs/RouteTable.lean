import Mathlib.Data.List.Nodup
import NamedFunctions.RouteTable

/-!
# Routes

A table of routes is distinct if it has one route at most for the same components in the same suite. An
Interest leaves by the one that covers most of its name, and there is no other that does.
-/

namespace NamedFunctions

namespace Route

/-- What no two routes of a table have in common. -/
def key (route : Route) : Suite × List Bytes := (route.name.suite, route.name.components)

/-- A route is kept under a suite and a name if that is its key. -/
theorem hasKey_iff {route : Route} {name : Name} {suite : Suite} :
    route.hasKey name suite = true ↔ route.key = (suite, name.components) := by
  simp only [hasKey, key, Bool.and_eq_true, beq_iff_eq, Prod.mk.injEq]

end Route

namespace RouteTable

/-- Whether there is one route at most for the same components in the same suite. -/
def Distinct (table : RouteTable) : Prop := (table.routes.map Route.key).Nodup

/-- Whether a route is the one for a name: it covers the name, and is longer than all others that do. -/
structure Leads (table : RouteTable) (name : Name) (route : Route) : Prop where
  mem : route ∈ table.routes
  covers : route.name.agrees .route name = true
  longest : ∀ other ∈ table.routes, other.name.agrees .route name = true →
    other = route ∨ other.name.length < route.name.length

variable {table : RouteTable}

/-- A route that is found is in the table. -/
theorem mem_of_lookup {name : Name} {route : Route} (h : table.lookup name = some route) :
    route ∈ table.routes := by
  obtain ⟨candidate, hmem, rfl, -⟩ := Name.exists_of_longestMatch h
  obtain ⟨route, hroute, rfl⟩ := List.mem_map.mp hmem
  exact hroute

/-- Two routes to a name that are as long as each other are for the same components. -/
theorem key_eq_of_agrees {name : Name} {route other : Route}
    (hroute : route.name.agrees .route name = true) (hother : other.name.agrees .route name = true)
    (hlength : other.name.length = route.name.length) : other.key = route.key := by
  simp only [Name.agrees, Bool.and_eq_true, beq_iff_eq, Name.covers, List.isPrefixOf_iff_prefix]
    at hroute hother
  have hcomponents : other.name.components = route.name.components :=
    (List.prefix_of_prefix_length_le hother.2 hroute.2 (Nat.le_of_eq hlength)).eq_of_length hlength
  rw [Route.key, Route.key, hcomponents, hother.1, hroute.1]

/-- The route that is found for a name is the only longest one. -/
theorem Distinct.leads_of_lookup (hdistinct : table.Distinct) {name : Name} {route : Route}
    (h : table.lookup name = some route) : table.Leads name route := by
  obtain ⟨candidate, hmem, rfl, hcovers, hlongest⟩ := Name.exists_of_longestMatch h
  obtain ⟨route, hroute, rfl⟩ := List.mem_map.mp hmem
  refine ⟨hroute, hcovers, ?_⟩
  intro other hother hagrees
  have hle := hlongest (other.name, other) (List.mem_map_of_mem hother) hagrees
  rcases Nat.lt_or_eq_of_le hle with hlt | heq
  · exact .inr hlt
  · left
    exact List.inj_on_of_nodup_map hdistinct hother hroute (key_eq_of_agrees hcovers hagrees heq)

/-- A route that leads elsewhere is for the same name. -/
theorem map_key_redirect (name : Name) (face : FaceId) (suite : Suite) (routes : List Route) :
    (redirect name face suite routes).map Route.key = routes.map Route.key := by
  induction routes with
  | nil => rfl
  | cons route routes ih =>
    rw [redirect]
    split
    · rfl
    · rw [List.map_cons, List.map_cons, ih]

/-- A route that is there once one leads elsewhere was there before, or leads there. -/
theorem mem_redirect {name : Name} {face : FaceId} {suite : Suite} {routes : List Route} {route : Route}
    (h : route ∈ redirect name face suite routes) : route ∈ routes ∨ route.face = face := by
  induction routes with
  | nil => exact .inl h
  | cons first routes ih =>
    rw [redirect] at h
    split at h
    · rcases List.mem_cons.mp h with rfl | h
      · exact .inr rfl
      · exact .inl (List.mem_cons_of_mem first h)
    · rcases List.mem_cons.mp h with rfl | h
      · exact .inl List.mem_cons_self
      · exact (ih h).imp (List.mem_cons_of_mem first) id

namespace Distinct

/-- The keys of no routes are distinct. -/
theorem empty : Distinct {} := List.nodup_nil

/-- A route that is put in keeps the keys distinct. -/
theorem insert (h : table.Distinct) (name : Name) (face : FaceId) (suite : Suite) :
    (table.insert name face suite).2.Distinct := by
  unfold RouteTable.insert
  split
  · rw [Distinct, map_key_redirect]
    exact h
  · next hnew =>
    rw [Distinct, List.map_append, List.nodup_append]
    refine ⟨h, List.nodup_singleton _, ?_⟩
    rintro key hkey _ hadded rfl
    obtain ⟨route, hroute, hsame⟩ := List.mem_map.mp hkey
    rw [List.mem_singleton.mp hadded] at hsame
    exact hnew (List.any_eq_true.mpr ⟨route, hroute, Route.hasKey_iff.mpr hsame⟩)

/-- Erasing a route keeps the keys distinct. -/
theorem erase (h : table.Distinct) (name : Name) (suite : Suite) :
    (table.erase name suite).2.Distinct :=
  (List.eraseP_sublist.map _).nodup h

/-- Erasing the routes through a face keeps the keys distinct. -/
theorem eraseFace (h : table.Distinct) (face : FaceId) : (table.eraseFace face).Distinct :=
  (List.filter_sublist.map _).nodup h

end Distinct

end RouteTable

end NamedFunctions
