import Mathlib.Data.List.Pairwise
import NamedFunctions.Proofs.PendingTable

/-!
# Tidy tables of pending Interests

In a tidy table no two Interests ask for the same, somebody waits in each entry, nobody waits there
twice, and no nonce is kept twice. An Interest that is looked for before it is added, and requesters that
join an entry once, keep it so.
-/

namespace NamedFunctions

namespace PendingEntry

/-- Whether somebody waits, nobody twice, and no nonce is kept twice. -/
structure WellFormed (e : PendingEntry) : Prop where
  requested : e.requests ≠ []
  requesters : (e.requests.map (·.requester)).Nodup
  nonces : e.nonces.Nodup

namespace WellFormed

variable {e : PendingEntry}

private theorem join (h : e.WellFormed) (requester : Requester) (nonce : Option UInt32) (now : Nat) :
    (e.join requester nonce now).WellFormed := by
  have hnonces : (e.nonces ++ nonce.toList.filter (· ∉ e.nonces)).Nodup := by
    rw [List.nodup_append]
    refine ⟨h.nonces, ?_, ?_⟩
    · cases nonce with
      | none => exact List.nodup_nil
      | some n => exact (List.nodup_singleton n).filter _
    · rintro n hn _ hnew rfl
      exact absurd hn (by simpa using (List.mem_filter.mp hnew).2)
  by_cases hwaits : e.hasRequester requester = true
  · have hsame : (e.join requester nonce now).requests = e.requests := if_pos hwaits
    exact ⟨hsame ▸ h.requested, hsame ▸ h.requesters, hnonces⟩
  · have hmore : (e.join requester nonce now).requests = e.requests ++ [⟨requester, now⟩] :=
      if_neg hwaits
    refine ⟨?_, ?_, hnonces⟩
    · rw [hmore]
      exact List.append_ne_nil_of_right_ne_nil _ (List.cons_ne_nil _ _)
    · rw [hmore, List.map_append, List.nodup_append]
      refine ⟨h.requesters, List.nodup_singleton _, ?_⟩
      rintro _ hold _ hnew rfl
      obtain ⟨request, hrequest, heq⟩ := List.mem_map.mp hold
      obtain rfl := List.mem_singleton.mp hnew
      exact hwaits (hasRequester_iff.mpr ⟨request, hrequest, heq⟩)

/-- With somebody left an entry is well-formed when another one leaves. -/
theorem leave (h : e.WellFormed) {requester : Requester} (hleft : (e.leave requester).requests ≠ []) :
    (e.leave requester).WellFormed :=
  ⟨hleft, (List.filter_sublist.map _).nodup h.requesters, h.nonces⟩

end WellFormed

end PendingEntry

namespace PendingTable

/-- Whether the numbers tell entries apart, and so does what their Interests ask for, and each entry is
well-formed. -/
structure Tidy (table : PendingTable) : Prop where
  wellFormed : table.WellFormed
  distinct : (table.entries.map (·.interest)).Pairwise fun a b => a.asksSame b = false
  entries : ∀ e ∈ table.entries, e.WellFormed

namespace Tidy

variable {table : PendingTable}

/-- A table without entries is tidy. -/
theorem empty : Tidy {} := ⟨.empty, .nil, fun _ h => absurd h List.not_mem_nil⟩

/-- An Interest may become a pending one if no other asks for the same. -/
theorem insert (h : table.Tidy) {interest : Interest} (hnew : table.findSame interest = none)
    (requester : Requester) (now : Nat) : (table.insert interest requester now).2.Tidy := by
  refine ⟨h.wellFormed.insert interest requester now, ?_, ?_⟩
  · have hnone := List.find?_eq_none.mp (Option.map_eq_none_iff.mp hnew)
    rw [PendingTable.insert, List.map_append, List.pairwise_append]
    refine ⟨h.distinct, List.pairwise_singleton _ _, ?_⟩
    intro a ha b hb
    obtain ⟨e, he, rfl⟩ := List.mem_map.mp ha
    obtain rfl := List.mem_singleton.mp hb
    simpa using hnone e he
  · intro e he
    rcases List.mem_append.mp he with he | he
    · exact h.entries e he
    · obtain rfl := List.mem_singleton.mp he
      refine ⟨List.cons_ne_nil _ _, List.nodup_singleton _, ?_⟩
      cases interest.nonce <;> simp

/-- An entry may be changed if it goes on to ask for the same. -/
theorem modify (h : table.Tidy) (id : PendingId) {change : PendingEntry → PendingEntry}
    (hid : ∀ e, (change e).id = e.id) (hinterest : ∀ e, (change e).interest = e.interest)
    (hentry : ∀ e, e.WellFormed → (change e).WellFormed) : (table.modify id change).Tidy := by
  refine ⟨h.wellFormed.modify id hid, ?_, ?_⟩
  · have hinterests : (table.modify id change).entries.map (·.interest) =
        table.entries.map (·.interest) := by
      rw [PendingTable.modify, List.map_map]
      apply List.map_congr_left
      intro e _
      rw [Function.comp_apply]
      split
      · exact hinterest e
      · rfl
    rw [hinterests]
    exact h.distinct
  · intro e' he'
    obtain ⟨e, he, rfl⟩ := List.mem_map.mp he'
    split
    · exact hentry e (h.entries e he)
    · exact h.entries e he

/-- A requester that joins keeps a table tidy. -/
theorem join (h : table.Tidy) (id : PendingId) (requester : Requester) (nonce : Option UInt32)
    (now : Nat) : (table.addRequester id requester nonce now).2.Tidy :=
  h.modify id (fun _ => rfl) (fun _ => rfl) fun _ he => he.join requester nonce now

/-- Entries may go away. -/
theorem filter (h : table.Tidy) (keep : PendingEntry → Bool) :
    Tidy { table with entries := table.entries.filter keep } :=
  ⟨h.wellFormed.filter keep, h.distinct.sublist (List.filter_sublist.map _),
    fun e he => h.entries e (List.mem_of_mem_filter he)⟩

/-- An entry may be taken back. -/
theorem withdraw (h : table.Tidy) (interest : Interest) (requester : Requester) (now : Nat) :
    Tidy ((table.insert interest requester now).2.erase
      (table.insert interest requester now).1) := by
  have hentries := h.wellFormed.entries_erase_insert interest requester now
  refine ⟨(h.wellFormed.insert interest requester now).filter _, ?_, ?_⟩
  · rw [hentries]
    exact h.distinct
  · rw [hentries]
    exact h.entries

/-- Dropping a requester keeps a table tidy. -/
theorem dropRequester (h : table.Tidy) (requester : Requester) :
    (table.dropRequester requester).2.Tidy := by
  refine ⟨h.wellFormed.dropRequester requester, ?_, ?_⟩
  · have hinterests : (table.entries.map (·.leave requester)).map (·.interest) =
        table.entries.map (·.interest) := List.map_map
    have hdistinct := h.distinct
    rw [← hinterests] at hdistinct
    exact hdistinct.sublist (List.filter_sublist.map _)
  · intro e' he'
    obtain ⟨e, he, rfl, hleft⟩ := mem_dropRequester.mp he'
    exact (h.entries e he).leave hleft

end Tidy

end PendingTable

end NamedFunctions
