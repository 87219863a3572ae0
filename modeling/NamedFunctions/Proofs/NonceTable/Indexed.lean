import NamedFunctions.NonceTable.Indexed
import NamedFunctions.Proofs.NonceTable
import NamedFunctions.Proofs.Relay.Retransmission

/-!
# A map and a queue of nonces are a list

The queue lists the nonces that are in the map, each once, whatever is done to the table. So the two stand
for a list of nonces with ticks, and there is a square for each operation. What is known of the list holds of
the map and the queue.
-/

namespace NamedFunctions.IndexedNonces

open NonceTable (Change)

/-- Whether a queue lists the nonces of a map, each once. -/
structure Agree (seen : Std.HashMap UInt32 Nat) (order : List UInt32) : Prop where
  nodup : order.Nodup
  mem_iff : ∀ nonce, nonce ∈ order ↔ nonce ∈ seen

/-- The nonces of a queue with the ticks of their recording. -/
def timed (seen : Std.HashMap UInt32 Nat) (order : List UInt32) : List (UInt32 × Nat) :=
  order.map fun nonce => (nonce, seen.getD nonce 0)

variable {seen seen' : Std.HashMap UInt32 Nat} {order : List UInt32} {nonce : UInt32}

private theorem timed_congr (h : ∀ n ∈ order, seen'.getD n 0 = seen.getD n 0) :
    timed seen' order = timed seen order :=
  List.map_congr_left fun n hn => by rw [h n hn]

private theorem timed_snoc (h : nonce ∉ order) (now : Nat) :
    timed (seen.insert nonce now) (order ++ [nonce]) = timed seen order ++ [(nonce, now)] := by
  rw [timed, List.map_append]
  congr 1
  · refine timed_congr fun n hn => ?_
    have hne : nonce ≠ n := fun heq => h (heq ▸ hn)
    rw [Std.HashMap.getD_insert, if_neg (by simpa using hne)]
  · simp

private theorem timed_erase :
    timed (seen.erase nonce) (order.filter (· != nonce)) = (timed seen order).filter (·.1 != nonce) := by
  have hkept : (timed seen order).filter (·.1 != nonce) = timed seen (order.filter (· != nonce)) :=
    List.filter_map
  rw [hkept]
  refine timed_congr fun n hn => ?_
  have hne : nonce ≠ n := (bne_iff_ne.mp (List.mem_filter.mp hn).2).symm
  rw [Std.HashMap.getD_erase, if_neg (by simpa using hne)]

namespace Agree

private theorem size_eq (h : Agree seen order) : seen.size = order.length := by
  have hperm : seen.keys.Perm order := by
    rw [List.perm_ext_iff_of_nodup Std.HashMap.nodup_keys h.nodup]
    intro nonce
    rw [Std.HashMap.mem_keys, h.mem_iff]
  rw [← hperm.length_eq, Std.HashMap.length_keys]

private theorem contains_iff (h : Agree seen order) : seen.contains nonce = true ↔ nonce ∈ order := by
  rw [h.mem_iff, Std.HashMap.mem_iff_contains]

/-- A nonce that is removed leaves both. -/
theorem erase (h : Agree seen order) (nonce : UInt32) :
    Agree (seen.erase nonce) (order.filter (· != nonce)) := by
  refine ⟨h.nodup.filter _, fun other => ?_⟩
  rw [Std.HashMap.mem_erase, List.mem_filter, h.mem_iff, bne_iff_ne, beq_eq_false_iff_ne, and_comm,
    ne_comm]

/-- The first of the queue leaves both. -/
theorem tail {oldest : UInt32} (h : Agree seen (oldest :: order)) :
    Agree (seen.erase oldest) order ∧ oldest ∉ order := by
  obtain ⟨hfirst, hrest⟩ := List.nodup_cons.mp h.nodup
  have hothers : (oldest :: order).filter (· != oldest) = order := by
    rw [List.filter_cons_of_neg (by simp), List.filter_eq_self]
    intro other hother
    rw [bne_iff_ne]
    rintro rfl
    exact hfirst hother
  have herased := h.erase oldest
  rw [hothers] at herased
  exact ⟨herased, hfirst⟩

/-- A nonce that is recorded comes to the end of the queue. -/
theorem insert (h : Agree seen order) (hnew : nonce ∉ order) (now : Nat) :
    Agree (seen.insert nonce now) (order ++ [nonce]) := by
  refine ⟨?_, fun other => ?_⟩
  · rw [List.nodup_append]
    refine ⟨h.nodup, List.nodup_singleton nonce, ?_⟩
    rintro other hother _ hlast rfl
    exact hnew (List.mem_singleton.mp hlast ▸ hother)
  · rw [Std.HashMap.mem_insert, List.mem_append, List.mem_singleton, h.mem_iff, beq_iff_eq, or_comm,
      eq_comm]

/-- What is kept of the map is kept of the queue, each nonce with its tick. -/
theorem timed_filter (h : Agree seen order) (keep : Nat → Bool) :
    timed (seen.filter fun _ tick => keep tick)
        (order.filter (seen.filter fun _ tick => keep tick).contains) =
      (timed seen order).filter (keep ·.2) := by
  have hget {n : UInt32} (hn : n ∈ order) : (seen.filter fun _ tick => keep tick)[n]? =
      if keep (seen.getD n 0) then some (seen.getD n 0) else none := by
    rw [Std.HashMap.getElem?_filter', Std.HashMap.getElem?_eq_some_getD ((h.mem_iff n).mp hn),
      Option.filter_some]
  have hkept : (timed seen order).filter (keep ·.2) =
      timed seen (order.filter fun n => keep (seen.getD n 0)) := List.filter_map
  have hsame : order.filter (seen.filter fun _ tick => keep tick).contains =
      order.filter fun n => keep (seen.getD n 0) := by
    refine List.filter_congr fun n hn => ?_
    rw [Std.HashMap.contains_eq_isSome_getElem?, hget hn]
    split <;> simp [*]
  rw [hkept, hsame]
  refine timed_congr fun n hn => ?_
  obtain ⟨hn, hkeep⟩ := List.mem_filter.mp hn
  rw [Std.HashMap.getD_eq_getD_getElem?, hget hn, if_pos hkeep]
  rfl

private theorem filter (h : Agree seen order) (keep : UInt32 → Nat → Bool) :
    Agree (seen.filter keep) (order.filter (seen.filter keep).contains) := by
  refine ⟨h.nodup.filter _, fun other => ?_⟩
  rw [List.mem_filter, h.mem_iff, ← Std.HashMap.mem_iff_contains, and_iff_right_iff_imp]
  exact fun hother => Std.HashMap.mem_of_mem_filter hother

/-- Room is made by forgetting as many of the first in the queue as it takes. -/
theorem makeRoom (h : Agree seen order) (capacity : Nat) :
    let kept := order.drop (order.length + 1 - capacity)
    ∃ seen', IndexedNonces.makeRoom capacity seen order = (seen', kept) ∧ Agree seen' kept ∧
      timed seen' kept = timed seen kept := by
  induction order generalizing seen with
  | nil => exact ⟨seen, by simp [IndexedNonces.makeRoom], by simpa using h, rfl⟩
  | cons oldest order ih =>
    have hsize := h.size_eq
    rw [List.length_cons] at hsize ⊢
    rw [IndexedNonces.makeRoom]
    split
    · next hfull =>
      obtain ⟨hrest, hfirst⟩ := h.tail
      obtain ⟨seen', hroom, hagree, htimed⟩ := ih hrest
      have hdrop : (oldest :: order).drop (order.length + 1 + 1 - capacity) =
          order.drop (order.length + 1 - capacity) := by
        rw [Nat.sub_add_comm (hsize ▸ hfull), List.drop_succ_cons]
      rw [hdrop]
      refine ⟨seen', hroom, hagree, htimed.trans (timed_congr fun n hn => ?_)⟩
      have hne : oldest ≠ n := fun heq => hfirst (heq ▸ List.mem_of_mem_drop hn)
      rw [Std.HashMap.getD_erase, if_neg (by simpa using hne)]
    · next hroom =>
      have hnone : order.length + 1 + 1 - capacity = 0 := by omega
      rw [hnone, List.drop_zero]
      exact ⟨seen, rfl, h, rfl⟩

end Agree

/-- The list of nonces that a map and a queue stand for. -/
def toTable (table : IndexedNonces) : NonceTable :=
  { records := timed table.seen table.order, capacity := table.capacity }

/-- Whether the queue lists the nonces in the map, each once. -/
def WellFormed (table : IndexedNonces) : Prop := Agree table.seen table.order

private theorem nonces_toTable (table : IndexedNonces) : table.toTable.nonces = table.order := by
  rw [NonceTable.nonces, toTable, timed, List.map_map]
  exact List.map_id' table.order

namespace WellFormed

variable {table : IndexedNonces} {now : Nat}

private theorem empty (capacity : Nat) : WellFormed { capacity } :=
  ⟨List.nodup_nil, fun nonce => by simp⟩

private theorem contains_toTable (h : table.WellFormed) (nonce : UInt32) :
    table.toTable.contains nonce = table.contains nonce := by
  rw [Bool.eq_iff_iff, NonceTable.contains_iff, nonces_toTable, contains, Agree.contains_iff h]

private theorem size_toTable (h : table.WellFormed) : table.toTable.size = table.size := by
  rw [← NonceTable.length_nonces, nonces_toTable, size, Agree.size_eq h]

private theorem record (h : table.WellFormed) (nonce : UInt32) (now : Nat) :
    (table.record nonce now).2.WellFormed ∧
      (table.record nonce now).2.toTable = (table.toTable.record nonce now).2 := by
  cases hknown : table.contains nonce with
  | true =>
    have hlist := hknown
    rw [← h.contains_toTable] at hlist
    rw [IndexedNonces.record, if_pos hknown, NonceTable.record_of_known hlist]
    exact ⟨h, rfl⟩
  | false =>
    have hlist := hknown
    rw [← h.contains_toTable] at hlist
    obtain ⟨seen', hroom, hagree, htimed⟩ := Agree.makeRoom h table.capacity
    have hnew : nonce ∉ table.order.drop (table.order.length + 1 - table.capacity) := by
      intro hmem
      rw [contains, Agree.contains_iff h |>.mpr (List.mem_of_mem_drop hmem)] at hknown
      cases hknown
    rw [IndexedNonces.record, if_neg (Bool.eq_false_iff.mp hknown), hroom]
    refine ⟨hagree.insert hnew now, ?_⟩
    have hsize : table.toTable.size = table.order.length := h.size_toTable.trans (Agree.size_eq h)
    have hkept : timed table.seen (table.order.drop (table.order.length + 1 - table.capacity)) =
        table.toTable.records.drop (table.order.length + 1 - table.capacity) := List.map_drop
    rw [NonceTable.record, if_neg (Bool.eq_false_iff.mp hlist)]
    dsimp only
    rw [toTable, timed_snoc hnew, htimed, hkept, hsize]
    rfl

private theorem erase (h : table.WellFormed) (nonce : UInt32) :
    (table.erase nonce).2.WellFormed ∧
      (table.erase nonce).2.toTable = table.toTable.erase nonce := by
  cases hknown : table.contains nonce with
  | true =>
    rw [IndexedNonces.erase, if_pos hknown]
    refine ⟨Agree.erase h nonce, ?_⟩
    rw [toTable, timed_erase]
    rfl
  | false =>
    rw [IndexedNonces.erase, if_neg (Bool.eq_false_iff.mp hknown)]
    refine ⟨h, ?_⟩
    have hothers : table.toTable.records.filter (·.1 != nonce) = table.toTable.records := by
      rw [List.filter_eq_self]
      intro record hrecord
      rw [bne_iff_ne]
      rintro rfl
      rw [← h.contains_toTable, NonceTable.contains_iff.mpr (List.mem_map_of_mem hrecord)] at hknown
      cases hknown
    rw [NonceTable.erase, hothers]

private theorem expire (h : table.WellFormed) (now timeout : Nat) :
    (table.expire now timeout).2.WellFormed ∧
      (table.expire now timeout).2.toTable = (table.toTable.expire now timeout).2 := by
  refine ⟨Agree.filter h _, ?_⟩
  have htimed := Agree.timed_filter h fun tick => now - tick ≤ timeout
  rw [toTable, IndexedNonces.expire, htimed]
  rfl

end WellFormed

/-- The table after a change. -/
def change (table : IndexedNonces) : Change → IndexedNonces
  | .record nonce now => (table.record nonce now).2
  | .erase nonce => (table.erase nonce).2
  | .expire now timeout => (table.expire now timeout).2

/-- The table after some changes. -/
def changeAll (table : IndexedNonces) (changes : List Change) : IndexedNonces :=
  changes.foldl change table

/-- The nonce that a change records, unless it is known. -/
def recordedBy (table : IndexedNonces) : Change → List UInt32
  | .record nonce now => if (table.record nonce now).1 then [nonce] else []
  | .erase _ => []
  | .expire _ _ => []

/-- The nonces that some changes record, in the order of their recording. -/
def recorded (table : IndexedNonces) : List Change → List UInt32
  | [] => []
  | c :: changes => table.recordedBy c ++ (table.change c).recorded changes

private theorem fst_record (table : IndexedNonces) (nonce : UInt32) (now : Nat) :
    (table.record nonce now).1 = !table.contains nonce := by
  unfold record
  split
  · next h => simp [h]
  · next h => simp [h]

private theorem capacity_change (table : IndexedNonces) (c : Change) :
    (table.change c).capacity = table.capacity := by
  cases c with
  | record nonce now =>
    rw [change, record]
    split <;> rfl
  | erase nonce =>
    rw [change, erase]
    split <;> rfl
  | expire now timeout => rfl

private theorem capacity_changeAll (table : IndexedNonces) (changes : List Change) :
    (table.changeAll changes).capacity = table.capacity := by
  induction changes generalizing table with
  | nil => rfl
  | cons c changes ih => exact (ih (table.change c)).trans (capacity_change table c)

namespace WellFormed

variable {table : IndexedNonces}

private theorem recordedBy_eq (h : table.WellFormed) (c : Change) :
    table.recordedBy c = table.toTable.recordedBy c := by
  cases c with
  | record nonce now =>
    rw [recordedBy, fst_record, NonceTable.recordedBy, NonceTable.fst_record, h.contains_toTable]
  | erase nonce => rfl
  | expire now timeout => rfl

/-- There is a square for each change. -/
theorem change (h : table.WellFormed) (c : Change) :
    (table.change c).WellFormed ∧ (table.change c).toTable = table.toTable.change c := by
  cases c with
  | record nonce now => exact h.record nonce now
  | erase nonce => exact h.erase nonce
  | expire now timeout => exact h.expire now timeout

private theorem changeAll (h : table.WellFormed) (changes : List Change) :
    (table.changeAll changes).WellFormed ∧
      (table.changeAll changes).toTable = table.toTable.changeAll changes := by
  induction changes generalizing table with
  | nil => exact ⟨h, rfl⟩
  | cons c changes ih =>
    obtain ⟨hchange, htable⟩ := h.change c
    obtain ⟨hall, hlist⟩ := ih hchange
    refine ⟨hall, hlist.trans ?_⟩
    rw [htable]
    rfl

private theorem recorded_eq (h : table.WellFormed) (changes : List Change) :
    table.recorded changes = table.toTable.recorded changes := by
  induction changes generalizing table with
  | nil => rfl
  | cons c changes ih =>
    obtain ⟨hchange, htable⟩ := h.change c
    rw [recorded, h.recordedBy_eq c, ih hchange, htable]
    rfl

/-- If a nonce has to make room for another one, the table is full and the nonce is the earliest. -/
theorem head_of_record (h : table.WellFormed) (hsize : table.size ≤ table.capacity)
    {nonce other : UInt32} {now : Nat} (hthere : table.contains other = true)
    (hgone : (table.record nonce now).2.contains other = false) :
    table.size = table.capacity ∧ table.order.head? = some other := by
  obtain ⟨hwf, htable⟩ := h.record nonce now
  rw [← hwf.contains_toTable, htable] at hgone
  rw [← h.contains_toTable] at hthere
  rw [← h.size_toTable] at hsize ⊢
  rw [← nonces_toTable]
  exact NonceTable.head_of_record hsize hthere hgone

/-- A nonce that was not known stays, unless it is removed or found to be too old, or as many others as the
table holds are recorded. -/
theorem contains_changeAll (h : table.WellFormed) {nonce : UInt32} {now : Nat}
    (hnew : (table.record nonce now).1 = true) (after : List Change) (herase : .erase nonce ∉ after)
    (hexpire : ∀ tick timeout, .expire tick timeout ∈ after → tick - now ≤ timeout)
    (hcount : ((recorded (table.record nonce now).2 after).toFinset.erase nonce).card < table.capacity) :
    ((table.record nonce now).2.changeAll after).contains nonce = true := by
  obtain ⟨hwf, htable⟩ := h.record nonce now
  obtain ⟨hall, hlist⟩ := hwf.changeAll after
  rw [fst_record, Bool.not_eq_true', ← h.contains_toTable] at hnew
  have hnodup : (table.record nonce now).2.toTable.nonces.Nodup := by
    rw [nonces_toTable]
    exact hwf.nodup
  rw [hwf.recorded_eq] at hcount
  rw [← hall.contains_toTable, hlist]
  rw [htable] at hnodup hcount ⊢
  have hcapacity : (table.toTable.record nonce now).2.capacity = table.capacity :=
    NonceTable.capacity_change (.record nonce now)
  refine (NonceTable.retains_record hnew now).changeAll hnodup after herase hexpire ?_
  rw [Finset.empty_union, hcapacity]
  exact hcount

end WellFormed

/-- After any changes the queue lists the nonces in the map, each once, in the order in which they were
recorded last, and there are no more than the table holds. A nonce is recorded exactly if it is not known,
and then one other nonce is forgotten at most: the earliest, if the table is full. So a nonce that was
recorded stays known, and an Interest with it is taken for one that has come back, until it is removed or
found to be too old, or until as many other nonces as the table holds were recorded after it. -/
theorem known_of_changeAll {capacity : Nat} (hcapacity : 1 ≤ capacity) (changes : List Change) :
    let table := changeAll { capacity } changes
    (table.order.Nodup ∧ (∀ nonce, nonce ∈ table.order ↔ nonce ∈ table.seen) ∧
      table.order.Sublist (recorded { capacity } changes).dedup ∧ table.size ≤ capacity) ∧
    (∀ nonce now, ((table.record nonce now).1 = true ↔ table.contains nonce = false) ∧
      ((table.record nonce now).1 = false → (table.record nonce now).2 = table) ∧
      ∀ other, table.contains other = true → (table.record nonce now).2.contains other = false →
        table.size = capacity ∧ table.order.head? = some other) ∧
    ∀ nonce now after, (table.record nonce now).1 = true → .erase nonce ∉ after →
      (∀ tick timeout, .expire tick timeout ∈ after → tick - now ≤ timeout) →
      ((recorded (table.record nonce now).2 after).toFinset.erase nonce).card < capacity →
      ((table.record nonce now).2.changeAll after).contains nonce = true ∧
      ∀ (r : Relay) (source : FaceId) (interest : Interest),
        r.nonces = ((table.record nonce now).2.changeAll after).toTable →
        r.faces.contains source = true → interest.nonce = some nonce →
        (r.handleInterest source interest).1 = .error (.duplicateNonce nonce) := by
  intro table
  have hempty := WellFormed.empty capacity
  obtain ⟨hwf, htable⟩ : table.WellFormed ∧ table.toTable = _ := hempty.changeAll changes
  have hheld : table.capacity = capacity := capacity_changeAll { capacity } changes
  have hsize : table.size ≤ capacity := by
    have hzero : (toTable { capacity }).size ≤ (toTable { capacity }).capacity := Nat.zero_le capacity
    rw [← hwf.size_toTable, htable]
    exact NonceTable.size_changeAll hcapacity hzero changes
  refine ⟨⟨hwf.nodup, hwf.mem_iff, ?_, hsize⟩, fun nonce now => ⟨?_, ?_, ?_⟩, ?_⟩
  · have hnone : (toTable { capacity }).nonces.Sublist (List.dedup []) := List.Sublist.refl []
    have hsub := NonceTable.sublist_changeAll hnone changes
    rw [← htable, nonces_toTable, List.nil_append, ← hempty.recorded_eq] at hsub
    exact hsub
  · rw [fst_record, Bool.not_eq_true']
  · intro hknown
    rw [fst_record, Bool.not_eq_false'] at hknown
    rw [record, if_pos hknown]
  · intro other hthere hgone
    rw [← hheld] at hsize ⊢
    exact hwf.head_of_record hsize hthere hgone
  · intro nonce now after hnew herase hexpire hcount
    have hknown := hwf.contains_changeAll hnew after herase hexpire (hheld ▸ hcount)
    refine ⟨hknown, fun r source interest hnonces hsource hnonce => ?_⟩
    have hwf' := ((hwf.record nonce now).1.changeAll after).1
    rw [← hwf'.contains_toTable, ← hnonces] at hknown
    rw [Relay.handleInterest_of_known hsource hnonce hknown]

/-- In a table for two nonces one stays known while another is recorded twice, removed in between. -/
theorem known_of_changeAll_again :
    let table := changeAll { capacity := 2 } [.record 1 0, .record 2 0, .erase 2]
    (table.record 3 5).1 = true ∧
      ((table.record 3 5).2.changeAll
        [.record 4 6, .expire 7 3, .record 3 7, .erase 4, .record 4 8]).contains 3 = true := by
  intro table
  obtain ⟨hwf, htable⟩ := (WellFormed.empty 2).changeAll [.record 1 0, .record 2 0, .erase 2]
  obtain ⟨hwf', htable'⟩ := hwf.record 3 5
  have hnew : (table.record 3 5).1 = true := by
    rw [fst_record, ← hwf.contains_toTable, htable]
    decide
  refine ⟨hnew, ((known_of_changeAll (by decide) _).2.2 3 5 _ hnew (by decide) ?_ ?_).1⟩
  · intro tick timeout hexpire
    obtain ⟨rfl, rfl⟩ : tick = 7 ∧ timeout = 3 := by simpa using hexpire
    decide
  · rw [hwf'.recorded_eq, htable', htable]
    decide

end NamedFunctions.IndexedNonces
