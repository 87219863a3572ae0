import NamedFunctions.ContentStore
import NamedFunctions.Proofs.Packet.Matching

/-!
# Answers from the content store

What a look-up hands out is the data of an entry that answers the Interest as it is, fresh or stale. Where no
data answers an Interest, none does after other look-ups.
-/

namespace NamedFunctions

/-- An Interest for fresh data is not satisfied by stale data. -/
theorem Interest.isFresh_of_satisfiedBy {interest : Interest} {content : Content} {stale : Bool}
    (h : interest.satisfiedBy content stale = true) (hfresh : interest.selectors.mustBeFresh = true) :
    stale = false := by
  simp only [satisfiedBy, Selectors.accept, hfresh, Bool.and_true, Bool.and_eq_true] at h
  simpa using h.2.2

namespace ContentStore

/-- The data that is handed out is that of an entry that answers the Interest. -/
theorem mem_of_serveFirst {interest : Interest} {now : Nat} {entries entries' : List CacheEntry}
    {content : Content} (h : serveFirst interest now entries = some (content, entries')) :
    ∃ e ∈ entries, e.content = content ∧ e.answers interest = true := by
  induction entries generalizing entries' with
  | nil => cases h
  | cons e older ih =>
    rw [serveFirst] at h
    split at h
    · next hanswers =>
      cases h
      exact ⟨e, List.mem_cons_self, rfl, hanswers⟩
    · obtain ⟨⟨content', older'⟩, hserve, heq⟩ := Option.map_eq_some_iff.mp h
      cases heq
      obtain ⟨e', he', hcontent, hanswers⟩ := ih hserve
      exact ⟨e', List.mem_cons_of_mem e he', hcontent, hanswers⟩

/-- Data that is found is that of an entry which answers the Interest. -/
theorem mem_of_lookup {store store' : ContentStore} {interest : Interest} {now : Nat}
    {content : Content} (h : store.lookup interest now = some (content, store')) :
    ∃ e ∈ store.entries, e.content = content ∧ e.answers interest = true := by
  obtain ⟨⟨content', entries⟩, hserve, heq⟩ := Option.map_eq_some_iff.mp h
  cases heq
  exact mem_of_serveFirst hserve

/-- Nothing is served where no entry answers. -/
theorem serveFirst_eq_none {interest : Interest} {now : Nat} {entries : List CacheEntry}
    (h : ∀ e ∈ entries, e.answers interest = false) : serveFirst interest now entries = none := by
  induction entries with
  | nil => rfl
  | cons e older ih =>
    rw [List.forall_mem_cons] at h
    rw [serveFirst, h.1, if_neg Bool.false_ne_true, ih h.2]
    rfl

/-- Whether no data in a store answers an Interest. -/
def Lacks (store : ContentStore) (interest : Interest) : Prop :=
  ∀ e ∈ store.entries, e.answers interest = false

namespace Lacks

variable {store store' : ContentStore} {interest other : Interest}

/-- Whoever asks for the same is not answered either. -/
theorem lookup_eq_none (h : store.Lacks interest) (hsame : other.asksSame interest = true)
    (now : Nat) : store.lookup other now = none := by
  have hother : ∀ e ∈ store.entries, e.answers other = false := by
    intro e he
    rw [CacheEntry.answers, Interest.satisfiedBy_of_asksSame hsame]
    exact h e he
  rw [ContentStore.lookup, serveFirst_eq_none hother, Option.map_none]

private theorem forall_of_serveFirst {entries entries' : List CacheEntry} {now : Nat} {content : Content}
    (h : ∀ e ∈ entries, e.answers interest = false)
    (hserve : serveFirst other now entries = some (content, entries')) :
    ∀ e ∈ entries', e.answers interest = false := by
  induction entries generalizing entries' with
  | nil => cases hserve
  | cons e older ih =>
    obtain ⟨he, holder⟩ := List.forall_mem_cons.mp h
    rw [serveFirst] at hserve
    split at hserve
    · cases hserve
      exact List.forall_mem_cons.mpr ⟨he, holder⟩
    · obtain ⟨⟨content', older'⟩, hrest, heq⟩ := Option.map_eq_some_iff.mp hserve
      cases heq
      exact List.forall_mem_cons.mpr ⟨he, ih holder hrest⟩

/-- Data that answers another Interest answers no more than before. -/
theorem lookup (h : store.Lacks interest) {now : Nat} {content : Content}
    (hlookup : store.lookup other now = some (content, store')) : store'.Lacks interest := by
  obtain ⟨⟨content', entries⟩, hserve, heq⟩ := Option.map_eq_some_iff.mp hlookup
  cases heq
  exact forall_of_serveFirst h hserve

end Lacks

end ContentStore

end NamedFunctions
