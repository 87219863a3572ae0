import NamedFunctions.Proofs.ContentStore.Refinement

/-!
# Static data is there to stay

Once the entry for a name is static there is always a static one for it, and it does not become stale.
Neither a full store nor a lower capacity, nor a time-out, nor other data under the name changes that.
-/

namespace NamedFunctions

namespace ContentStore

/-- A static entry pins its name. -/
theorem WellFormed.pins_of_static {store : ContentStore} (h : store.WellFormed) {name : Name}
    {e : CacheEntry} (hget : store.get? name = some e) (hstatic : e.isStatic = true) :
    store.Pins name fun _ => True := by
  obtain ⟨hmem, hkey⟩ := mem_of_get? hget
  refine ⟨⟨e, hmem, hkey⟩, fun e' he' hkey' => ⟨?_, trivial⟩⟩
  rw [h.eq_of_key he' hmem (hkey'.trans hkey.symm)]
  exact hstatic

/-- Whatever is done to a list of entries, a static entry is followed by one that is static and fresh. -/
theorem WellFormed.get?_changeAll {store : ContentStore} (h : store.WellFormed) {name : Name}
    {e : CacheEntry} (hget : store.get? name = some e) (hstatic : e.isStatic = true)
    (changes : List Change) :
    ∃ e', (store.changeAll changes).get? name = some e' ∧ e'.isStatic = true ∧ e'.isStale = false := by
  have hpins : (store.changeAll changes).Pins name fun _ => True :=
    changeAll_induction (motive := fun store => store.Pins name fun _ => True)
      (h.pins_of_static hget hstatic)
      (fun _ c hpins => hpins.change c fun _ _ _ _ _ => .inl trivial) changes
  obtain ⟨e', hget', hstatic', _⟩ := hpins.get?
  exact ⟨e', hget', hstatic', (h.changeAll changes).fresh e' (mem_of_get? hget').1 hstatic'⟩

end ContentStore

namespace IndexedStore

open ContentStore (Change)

/-- Once the entry for a name is static, whatever is done to the store, there is a static entry for the
name that is not stale. -/
theorem static_of_performAll {capacity : Option Nat} {before : List Change} {name : Name}
    {e : CacheEntry} (hget : (performAll { capacity } before).2.get? name = some e)
    (hstatic : e.isStatic = true) (after : List Change) :
    ∃ e', (performAll { capacity } (before ++ after)).2.get? name = some e' ∧
      e'.isStatic = true ∧ e'.isStale = false := by
  rw [get?_performAll] at hget
  rw [get?_performAll, ContentStore.changeAll_append]
  exact ((ContentStore.WellFormed.empty capacity).changeAll before).get?_changeAll hget hstatic after

/-- Other data takes the place of static data, caching is turned off and the store is emptied, and there
is static data under the name still. -/
theorem static_when_turned_off :
    let name : Name := { components := [[97]] }
    let before : List Change := [.put (.ofPayload name [1]) true 0]
    let after : List Change := [.put (.ofPayload name [2]) false 1, .setCapacity (some 0), .flush]
    ∃ e', (performAll { capacity := some 1 } (before ++ after)).2.get? name = some e' ∧
      e'.isStatic = true ∧ e'.isStale = false := by
  intro name before after
  have hget : (performAll { capacity := some 1 } before).2.get? name =
      some (.fresh (.ofPayload name [1]) true 0) := by
    rw [get?_performAll]
    decide
  exact static_of_performAll hget rfl after

end IndexedStore

end NamedFunctions
