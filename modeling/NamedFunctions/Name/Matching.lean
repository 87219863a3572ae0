import NamedFunctions.Name

/-!
# Matching names

Components are compared octet by octet. A name covers another if its components are the first ones
of the other. Three comparisons are built on that; each fails for names of different suites.
-/

namespace NamedFunctions.Name

/-- Whether the components of a name are the first components of another. `nfn-core/src/name:144–153`. -/
def covers (name other : Name) : Bool := name.components.isPrefixOf other.components

/-- The number of components that two lists share at their start. `nfn-core/src/name:155–162`. -/
def sharedLength : List Bytes → List Bytes → Nat
  | a :: as, b :: bs => if a = b then sharedLength as bs + 1 else 0
  | _, _ => 0

/-- The number of components that two names share at their start. `nfn-core/src/name:155–162`. -/
def commonLength (name other : Name) : Nat := sharedLength name.components other.components

/-- How two names are compared. `nfn-relay/src/matcher:8–17`. -/
inductive Comparison where
  /-- Components and chunk are the same: requests for the same data. -/
  | exact
  /-- The first covers the second and names no other chunk: a request and data for it. -/
  | request
  /-- The first covers the second: a route and a name that it leads to. -/
  | route
deriving DecidableEq, Repr

/-- Whether two names agree under a comparison. `nfn-relay/src/matcher:21–35`. -/
def agrees (how : Comparison) (name other : Name) : Bool :=
  name.suite == other.suite &&
    match how with
    | .exact => name.components == other.components && name.chunk == other.chunk
    | .request => (name.chunk.isNone || name.chunk == other.chunk) && name.covers other
    | .route => name.covers other

/-- What two names have in common if they are exactly the same. `nfn-relay/src/content_store:44–48`. -/
def key (name : Name) : Suite × List Bytes × Option UInt32 :=
  (name.suite, name.components, name.chunk)

/-- Names agree exactly if their keys are the same. -/
theorem agrees_exact_iff {name other : Name} :
    name.agrees .exact other = true ↔ name.key = other.key := by
  simp only [agrees, key, Bool.and_eq_true, beq_iff_eq, Prod.mk.injEq]

/-- The number of components of the first name that match the second, if they agree.
`nfn-relay/src/matcher:19–35`. -/
def compare (how : Comparison) (name other : Name) : Option Nat :=
  if agrees how name other then some name.length else none

/-- The better of two routes to a name: a later one has to be longer. `nfn-relay/src/matcher:79–83`. -/
private def longer (name : Name) {α : Type} (best : Option (Nat × α)) (candidate : Name × α) :
    Option (Nat × α) :=
  match compare .route candidate.1 name with
  | none => best
  | some length =>
    match best with
    | some (bestLength, _) => if length > bestLength then some (length, candidate.2) else best
    | none => some (length, candidate.2)

/-- What belongs to the longest candidate that covers a name; of two equally long ones the first counts.
`nfn-relay/src/matcher:71–86`. -/
def longestMatch {α : Type} (name : Name) (candidates : List (Name × α)) : Option α :=
  (candidates.foldl (longer name) none).map (·.2)

/-- Whether what is best belongs to a candidate that covers a name, is longer than those before it that
do, and no shorter than those behind it; or there is no best, and none covers the name. -/
private def IsBest {α : Type} (name : Name) (candidates : List (Name × α)) :
    Option (Nat × α) → Prop
  | none => ∀ candidate ∈ candidates, candidate.1.agrees .route name = false
  | some (length, a) =>
    ∃ before best after, candidates = before ++ (best, a) :: after ∧
      best.agrees .route name = true ∧ best.length = length ∧
      (∀ other ∈ before, other.1.agrees .route name = true → other.1.length < length) ∧
      ∀ other ∈ after, other.1.agrees .route name = true → other.1.length ≤ length

private theorem isBest_longer {α : Type} {name : Name} {candidates : List (Name × α)}
    {best : Option (Nat × α)} (h : IsBest name candidates best) (candidate : Name × α) :
    IsBest name (candidates ++ [candidate]) (longer name best candidate) := by
  unfold longer compare
  by_cases hcovers : agrees .route candidate.1 name = true
  · simp only [hcovers, if_true]
    cases best with
    | none =>
      refine ⟨candidates, candidate.1, [], rfl, hcovers, rfl, fun other hother hagrees => ?_,
        fun other hother => absurd hother List.not_mem_nil⟩
      rw [h other hother] at hagrees
      cases hagrees
    | some found =>
      obtain ⟨before, old, after, rfl, holdCovers, hlength, hbefore, hafter⟩ := h
      dsimp only
      split
      · next hlonger =>
        refine ⟨_, candidate.1, [], rfl, hcovers, rfl, fun other hother hagrees => ?_,
          fun other hother => absurd hother List.not_mem_nil⟩
        rcases List.mem_append.mp hother with hother | hother
        · exact Nat.lt_trans (hbefore other hother hagrees) hlonger
        · rcases List.mem_cons.mp hother with rfl | hother
          · exact hlength ▸ hlonger
          · exact Nat.lt_of_le_of_lt (hafter other hother hagrees) hlonger
      · next hshorter =>
        refine ⟨before, old, after ++ [candidate], by simp, holdCovers, hlength, hbefore,
          fun other hother hagrees => ?_⟩
        rcases List.mem_append.mp hother with hother | hother
        · exact hafter other hother hagrees
        · rw [List.mem_singleton.mp hother]
          exact Nat.le_of_not_lt hshorter
  · simp only [hcovers, Bool.false_eq_true, if_false]
    cases best with
    | none =>
      intro other hother
      rcases List.mem_append.mp hother with hother | hother
      · exact h other hother
      · rw [List.mem_singleton.mp hother]
        exact Bool.eq_false_iff.mpr hcovers
    | some found =>
      obtain ⟨before, old, after, rfl, holdCovers, hlength, hbefore, hafter⟩ := h
      refine ⟨before, old, after ++ [candidate], by simp, holdCovers, hlength, hbefore,
        fun other hother hagrees => ?_⟩
      rcases List.mem_append.mp hother with hother | hother
      · exact hafter other hother hagrees
      · rw [List.mem_singleton.mp hother] at hagrees
        exact absurd hagrees hcovers

private theorem isBest_foldl {α : Type} {name : Name} {before : List (Name × α)}
    {best : Option (Nat × α)} (h : IsBest name before best) (candidates : List (Name × α)) :
    IsBest name (before ++ candidates) (candidates.foldl (longer name) best) := by
  induction candidates generalizing before best with
  | nil =>
    rw [List.append_nil]
    exact h
  | cons candidate candidates ih =>
    rw [List.append_cons]
    exact ih (isBest_longer h candidate)

private theorem isBest_candidates {α : Type} (name : Name) (candidates : List (Name × α)) :
    IsBest name candidates (candidates.foldl (longer name) none) := by
  have hempty : IsBest name [] (none : Option (Nat × α)) := fun _ h => absurd h List.not_mem_nil
  exact isBest_foldl hempty candidates

/-- Nothing is found exactly if no candidate covers the name. -/
theorem longestMatch_eq_none_iff {α : Type} {name : Name} {candidates : List (Name × α)} :
    name.longestMatch candidates = none ↔
      ∀ candidate ∈ candidates, candidate.1.agrees .route name = false := by
  have hbest := isBest_candidates name candidates
  rw [longestMatch, Option.map_eq_none_iff]
  cases hfound : candidates.foldl (longer name) none with
  | none =>
    rw [hfound] at hbest
    exact ⟨fun _ => hbest, fun _ => rfl⟩
  | some found =>
    rw [hfound] at hbest
    obtain ⟨before, best, after, rfl, hcovers, -⟩ := hbest
    refine ⟨fun h => absurd h (Option.some_ne_none found), fun h => ?_⟩
    have hnone := h (best, found.2) (List.mem_append_right _ List.mem_cons_self)
    rw [hcovers] at hnone
    cases hnone

/-- What is found belongs to the first of the longest candidates that cover the name. -/
theorem split_of_longestMatch {α : Type} {name : Name} {candidates : List (Name × α)} {a : α}
    (h : name.longestMatch candidates = some a) :
    ∃ before best after, candidates = before ++ (best, a) :: after ∧
      best.agrees .route name = true ∧
      (∀ other ∈ before, other.1.agrees .route name = true → other.1.length < best.length) ∧
      ∀ other ∈ after, other.1.agrees .route name = true → other.1.length ≤ best.length := by
  have hbest := isBest_candidates name candidates
  obtain ⟨⟨length, a⟩, hfound, rfl⟩ := Option.map_eq_some_iff.mp h
  rw [hfound] at hbest
  obtain ⟨before, best, after, hsplit, hcovers, rfl, hbefore, hafter⟩ := hbest
  exact ⟨before, best, after, hsplit, hcovers, hbefore, hafter⟩

/-- What is found belongs to a candidate that covers the name, and none that covers it is longer. -/
theorem exists_of_longestMatch {α : Type} {name : Name} {candidates : List (Name × α)} {a : α}
    (h : name.longestMatch candidates = some a) :
    ∃ candidate ∈ candidates, candidate.2 = a ∧ candidate.1.agrees .route name = true ∧
      ∀ other ∈ candidates, other.1.agrees .route name = true →
        other.1.length ≤ candidate.1.length := by
  obtain ⟨before, best, after, rfl, hcovers, hbefore, hafter⟩ := split_of_longestMatch h
  refine ⟨(best, a), List.mem_append_right _ List.mem_cons_self, rfl, hcovers,
    fun other hother hagrees => ?_⟩
  rcases List.mem_append.mp hother with hother | hother
  · exact Nat.le_of_lt (hbefore other hother hagrees)
  · rcases List.mem_cons.mp hother with rfl | hother
    · exact Nat.le_refl _
    · exact hafter other hother hagrees

end NamedFunctions.Name
