import NamedFunctions.Proofs.ContentStore.Refinement

/-!
# Data that has just been put in

Data that is put into a store is there under its name, fresh, and static if that was asked for; whoever it
satisfies is answered by a look-up. One case is different: the same payload is under the name already. Then
the entry stays what it is, be it stale, of another publisher, or not static.
-/

namespace NamedFunctions

/-- Data under the same name that tells the same of its publisher satisfies the same Interests. -/
theorem Interest.satisfiedBy_congr {content content' : Content} (hkey : content.name.key = content'.name.key)
    (hdetails : content.details = content'.details) (interest : Interest) (stale : Bool) :
    interest.satisfiedBy content stale = interest.satisfiedBy content' stale := by
  obtain ⟨name, _, _, _⟩ := content
  obtain ⟨name', _, _, _⟩ := content'
  cases name
  cases name'
  cases hkey
  cases hdetails
  rfl

/-- Whether an entry is as good as one of data that has just been put in. -/
structure CacheEntry.StandsFor (e : CacheEntry) (content : Content) (isStatic : Bool) : Prop where
  payload : e.content.payload = content.payload
  details : e.content.details = content.details
  isStatic : isStatic = true → e.isStatic = true
  isFresh : e.isStale = false

namespace ContentStore

variable {store store' : ContentStore} {content : Content} {isStatic : Bool} {now : Nat}
  {outcome : PutOutcome}

private theorem get?_cons_fresh (content : Content) (isStatic : Bool) (now : Nat) (entries : List CacheEntry)
    (capacity : Option Nat) :
    get? { entries := .fresh content isStatic now :: entries, capacity } content.name =
      some (.fresh content isStatic now) :=
  List.find?_cons_of_pos (CacheEntry.hasKey_iff.mpr rfl)

/-- After data was put in its entry stands for it, if that with the same payload did which was there. -/
theorem exists_standsFor_of_put (hput : store.put content isStatic now = some (outcome, store'))
    (hcaching : outcome ≠ .transient)
    (hsame : ∀ old, store.get? content.name = some old → old.content.payload = content.payload →
      old.StandsFor content isStatic) :
    ∃ e, store'.get? content.name = some e ∧ e.StandsFor content isStatic := by
  have hcapacity : store.capacity ≠ some 0 := by
    intro hzero
    rw [put, if_pos hzero] at hput
    cases hput
    exact hcaching rfl
  cases hget : store.get? content.name with
  | none =>
    rw [put_of_none hcapacity hget] at hput
    obtain ⟨entries, -, heq⟩ := Option.map_eq_some_iff.mp hput
    cases heq
    exact ⟨_, get?_cons_fresh content isStatic now entries _, rfl, rfl, id, rfl⟩
  | some old =>
    by_cases hpayload : old.content.payload = content.payload
    · rw [put_of_same hcapacity hget hpayload] at hput
      cases hput
      exact ⟨old, hget, hsame old hget hpayload⟩
    · rw [put_of_other hcapacity hget hpayload] at hput
      cases hput
      refine ⟨_, get?_cons_fresh content _ now _ _, rfl, rfl, fun hstatic => ?_, rfl⟩
      rw [CacheEntry.fresh, hstatic, Bool.true_or]

/-- An entry that stands for data answers every Interest that the data satisfies. -/
theorem answers_of_standsFor {e : CacheEntry} (hget : store.get? content.name = some e)
    (h : e.StandsFor content isStatic) {interest : Interest}
    (hsatisfied : interest.satisfiedBy content false = true) : e.answers interest = true := by
  rw [CacheEntry.answers, h.isFresh, Interest.satisfiedBy_congr (mem_of_get? hget).2 h.details]
  exact hsatisfied

/-- Where an entry stands for data, an Interest that the data satisfies has a newest answer. -/
theorem exists_newest_of_standsFor {e : CacheEntry} (hget : store.get? content.name = some e)
    (h : e.StandsFor content isStatic) {interest : Interest}
    (hsatisfied : interest.satisfiedBy content false = true) :
    ∃ newest ∈ store.entries, newest.answers interest = true ∧
      store.entries.find? (·.answers interest) = some newest := by
  have hanswers := answers_of_standsFor hget h hsatisfied
  cases hfind : store.entries.find? (·.answers interest) with
  | none => exact absurd hanswers (List.find?_eq_none.mp hfind e (mem_of_get? hget).1)
  | some newest =>
    have hnewest := List.find?_some hfind
    exact ⟨newest, List.mem_of_find?_eq_some hfind, hnewest, rfl⟩

end ContentStore

end NamedFunctions
