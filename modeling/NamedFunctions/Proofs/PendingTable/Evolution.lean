import Mathlib.Logic.Relation
import NamedFunctions.Proofs.PendingTable

/-!
# What becomes of a table of pending Interests

All that is done to a table comes to three things: an Interest is added under a number of its own, entries
are changed that go on to be for the same Interest, and entries go away. So the Interest that is pending
under a number is the same until it goes away, and no other has its number then.
-/

namespace NamedFunctions.PendingTable

/-- What a table comes to when something is done to it. -/
inductive Evolves (table : PendingTable) : PendingTable → Prop where
  /-- An Interest is added. -/
  | insert (interest : Interest) (requester : Requester) (now : Nat) :
      Evolves table (table.insert interest requester now).2
  /-- Entries are changed, but for their numbers and Interests. -/
  | map {change : PendingEntry → PendingEntry} (hid : ∀ e, (change e).id = e.id)
      (hinterest : ∀ e, (change e).interest = e.interest) :
      Evolves table { table with entries := table.entries.map change }
  /-- Entries go away. -/
  | filter (keep : PendingEntry → Bool) :
      Evolves table { table with entries := table.entries.filter keep }

/-- What a table comes to in any number of such steps. -/
def Evolved : PendingTable → PendingTable → Prop := Relation.ReflTransGen Evolves

namespace Evolved

variable {table table' table'' : PendingTable}

/-- A table may stay. -/
theorem refl (table : PendingTable) : Evolved table table := Relation.ReflTransGen.refl

/-- Evolution goes on. -/
theorem trans (h : Evolved table table') (h' : Evolved table' table'') : Evolved table table'' :=
  Relation.ReflTransGen.trans h h'

/-- A new entry is part of it. -/
theorem insert (table : PendingTable) (interest : Interest) (requester : Requester) (now : Nat) :
    Evolved table (table.insert interest requester now).2 :=
  .single (.insert interest requester now)

/-- Entries may go away. -/
theorem filter (table : PendingTable) (keep : PendingEntry → Bool) :
    Evolved table { table with entries := table.entries.filter keep } := .single (.filter keep)

/-- An entry is changed, but for its number and its Interest. -/
theorem modify (table : PendingTable) (id : PendingId) {change : PendingEntry → PendingEntry}
    (hid : ∀ e, (change e).id = e.id) (hinterest : ∀ e, (change e).interest = e.interest) :
    Evolved table (table.modify id change) := by
  refine .single (.map (fun e => ?_) fun e => ?_)
  · split
    · exact hid e
    · rfl
  · split
    · exact hinterest e
    · rfl

/-- A requester may come. -/
theorem addRequester (table : PendingTable) (id : PendingId) (requester : Requester)
    (nonce : Option UInt32) (now : Nat) :
    Evolved table (table.addRequester id requester nonce now).2 :=
  .modify table id (fun _ => rfl) fun _ => rfl

/-- An Interest is added and taken back. -/
theorem withdraw (table : PendingTable) (interest : Interest) (requester : Requester) (now : Nat) :
    Evolved table ((table.insert interest requester now).2.erase
      (table.insert interest requester now).1) :=
  (Evolved.insert table interest requester now).trans (.filter _ _)

/-- A requester may go. -/
theorem dropRequester (table : PendingTable) (requester : Requester) :
    Evolved table (table.dropRequester requester).2 := by
  have hleave : Evolved table
      { table with entries := table.entries.map (·.leave requester) } :=
    .single (.map (fun _ => rfl) fun _ => rfl)
  exact hleave.trans (.filter _ _)

end Evolved

/-- Whether a number has been given, and whatever is pending under it is a given Interest. -/
structure Holds (table : PendingTable) (id : PendingId) (interest : Interest) : Prop where
  below : id.val < table.nextId
  interest_eq : ∀ e ∈ table.entries, e.id = id → e.interest = interest

namespace Holds

variable {table table' : PendingTable} {id : PendingId} {interest : Interest}

/-- A number holds the Interest that is pending under it. -/
theorem of_mem (h : table.WellFormed) {e : PendingEntry} (he : e ∈ table.entries) :
    table.Holds e.id e.interest :=
  ⟨h.id_lt he,
    fun _ he' hid => congrArg PendingEntry.interest (h.eq_of_id he' he hid)⟩

private theorem evolves (h : table.Holds id interest) (hevolves : Evolves table table') :
    table'.Holds id interest := by
  cases hevolves with
  | insert other requester now =>
    refine ⟨Nat.lt_succ_of_lt h.below, fun e he hid => ?_⟩
    rcases List.mem_append.mp he with he | he
    · exact h.interest_eq e he hid
    · have hnew : table.nextId = id.val := by
        rw [← hid, List.mem_singleton.mp he]
      exact absurd h.below (hnew ▸ Nat.lt_irrefl _)
  | map hid hinterest =>
    refine ⟨h.below, fun e' he' hsame => ?_⟩
    obtain ⟨e, he, rfl⟩ := List.mem_map.mp he'
    rw [hinterest]
    exact h.interest_eq e he ((hid e).symm.trans hsame)
  | filter keep =>
    exact ⟨h.below, fun e he => h.interest_eq e (List.mem_of_mem_filter he)⟩

/-- Whatever becomes of a table, the Interest under a number stays what it is. -/
theorem evolved (h : table.Holds id interest) (hevolved : Evolved table table') :
    table'.Holds id interest := by
  induction hevolved with
  | refl => exact h
  | tail _ hevolves ih => exact ih.evolves hevolves

end Holds

end NamedFunctions.PendingTable
