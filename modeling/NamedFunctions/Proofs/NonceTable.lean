import Mathlib.Data.Finset.Card
import Mathlib.Data.List.Dedup
import NamedFunctions.NonceTable

/-!
# How long nonces are known

Nonces stand in the table in the order in which they were recorded last. A nonce that is recorded stays
until it is removed or has become too old, or until as many other nonces as the table holds were recorded
after it.
-/

namespace NamedFunctions.NonceTable

variable {table : NonceTable} {nonce other : UInt32} {now : Nat}

/-- What is done to a table of nonces. -/
inductive Change where
  | record (nonce : UInt32) (now : Nat)
  | erase (nonce : UInt32)
  | expire (now timeout : Nat)
deriving DecidableEq, Repr

/-- The table after a change. -/
def change (table : NonceTable) : Change → NonceTable
  | .record nonce now => (table.record nonce now).2
  | .erase nonce => table.erase nonce
  | .expire now timeout => (table.expire now timeout).2

/-- The table after some changes. -/
def changeAll (table : NonceTable) (changes : List Change) : NonceTable := changes.foldl change table

/-- The nonce that a change records, unless it is known. -/
def recordedBy (table : NonceTable) : Change → List UInt32
  | .record nonce now => if (table.record nonce now).1 then [nonce] else []
  | .erase _ => []
  | .expire _ _ => []

/-- The nonces that some changes record, in the order of their recording. -/
def recorded (table : NonceTable) : List Change → List UInt32
  | [] => []
  | c :: changes => table.recordedBy c ++ (table.change c).recorded changes

/-- The nonces that are known, the earliest first. -/
def nonces (table : NonceTable) : List UInt32 := table.records.map (·.1)

/-- A table contains the nonces that it has. -/
theorem contains_iff : table.contains nonce = true ↔ nonce ∈ table.nonces := by
  simp [contains, nonces]

/-- There are as many nonces as records. -/
theorem length_nonces (table : NonceTable) : table.nonces.length = table.size := List.length_map _

/-- A nonce is recorded if it is new. -/
theorem fst_record : (table.record nonce now).1 = !table.contains nonce := by
  unfold record
  split
  · next h => simp [h]
  · next h => simp [h]

/-- A nonce that is known changes nothing. -/
theorem record_of_known (h : table.contains nonce = true) : table.record nonce now = (false, table) :=
  if_pos h

/-- A nonce that is not known comes behind all others, the earliest of which make room for it. -/
theorem records_record (h : table.contains nonce = false) :
    (table.record nonce now).2.records =
      table.records.drop (table.size + 1 - table.capacity) ++ [(nonce, now)] := by
  rw [record, if_neg (Bool.eq_false_iff.mp h)]

private theorem nonces_record (h : table.contains nonce = false) :
    (table.record nonce now).2.nonces =
      table.nonces.drop (table.size + 1 - table.capacity) ++ [nonce] := by
  rw [nonces, records_record h, List.map_append, List.map_drop]
  rfl

private theorem nonces_erase : (table.erase nonce).nonces = table.nonces.filter (· != nonce) := by
  rw [nonces, nonces, erase, List.filter_map]
  rfl

private theorem nonces_expire_sublist (timeout : Nat) :
    (table.expire now timeout).2.nonces.Sublist table.nonces :=
  List.filter_sublist.map _

/-- Changes leave the capacity. -/
theorem capacity_change (c : Change) : (table.change c).capacity = table.capacity := by
  cases c with
  | record nonce now =>
    rw [change, record]
    split <;> rfl
  | erase nonce => rfl
  | expire now timeout => rfl

/-- Of a list with one more element at its end, all that is equal to it before goes. -/
theorem dedup_snoc (nonces : List UInt32) (nonce : UInt32) :
    (nonces ++ [nonce]).dedup = nonces.dedup.filter (· != nonce) ++ [nonce] := by
  induction nonces with
  | nil => rfl
  | cons first nonces ih =>
    by_cases hlater : first ∈ nonces
    · rw [List.cons_append, List.dedup_cons_of_mem (by simp [hlater]), ih,
        List.dedup_cons_of_mem hlater]
    · by_cases hsame : first = nonce
      · rw [List.cons_append, List.dedup_cons_of_mem (by simp [hsame]), ih,
          List.dedup_cons_of_notMem hlater]
        simp [hsame]
      · rw [List.cons_append, List.dedup_cons_of_notMem (by simp [hlater, hsame]), ih,
          List.dedup_cons_of_notMem hlater]
        simp [hsame]

/-- The nonces of a table stand in the order in which they were recorded last. -/
theorem sublist_change {before : List UInt32} (h : table.nonces.Sublist before.dedup) (c : Change) :
    (table.change c).nonces.Sublist (before ++ table.recordedBy c).dedup := by
  cases c with
  | record nonce now =>
    rw [change, recordedBy, fst_record]
    cases hknown : table.contains nonce with
    | true =>
      rw [record_of_known hknown]
      simpa using h
    | false =>
      have hother : ∀ n ∈ table.nonces, (n != nonce) = true := by
        intro n hn
        rw [bne_iff_ne]
        rintro rfl
        rw [contains_iff.mpr hn] at hknown
        cases hknown
      have hkept : table.nonces.Sublist (before.dedup.filter (· != nonce)) := by
        rw [← List.filter_eq_self.mpr hother]
        exact h.filter _
      rw [nonces_record hknown, Bool.not_false, if_pos rfl, dedup_snoc]
      exact ((List.drop_sublist _ _).trans hkept).append (List.Sublist.refl _)
  | erase nonce =>
    rw [change, nonces_erase, recordedBy, List.append_nil]
    exact List.filter_sublist.trans h
  | expire now timeout =>
    rw [change, recordedBy, List.append_nil]
    exact (nonces_expire_sublist timeout).trans h

/-- The nonces are among those that were there or were recorded, in this order. -/
theorem sublist_changeAll {before : List UInt32} (h : table.nonces.Sublist before.dedup)
    (changes : List Change) :
    (table.changeAll changes).nonces.Sublist (before ++ table.recorded changes).dedup := by
  induction changes generalizing table before with
  | nil =>
    rw [recorded, List.append_nil]
    exact h
  | cons c changes ih =>
    rw [recorded, ← List.append_assoc]
    exact ih (sublist_change h c)

/-- Room for one nonce is room enough: the table never holds more than it may. -/
theorem size_change (hcapacity : 1 ≤ table.capacity) (h : table.size ≤ table.capacity) (c : Change) :
    (table.change c).size ≤ table.capacity := by
  cases c with
  | record nonce now =>
    cases hknown : table.contains nonce with
    | true =>
      rw [change, record_of_known hknown]
      exact h
    | false =>
      rw [change, size, records_record hknown, List.length_append, List.length_drop,
        List.length_singleton]
      rw [size] at h ⊢
      omega
  | erase nonce => exact Nat.le_trans (List.length_filter_le _ _) h
  | expire now timeout => exact Nat.le_trans (List.length_filter_le _ _) h

/-- A table never has more records than it may. -/
theorem size_changeAll (hcapacity : 1 ≤ table.capacity) (h : table.size ≤ table.capacity)
    (changes : List Change) : (table.changeAll changes).size ≤ table.capacity := by
  induction changes generalizing table with
  | nil => exact h
  | cons c changes ih =>
    rw [← capacity_change c] at hcapacity ⊢
    refine ih hcapacity ?_
    rw [capacity_change c]
    exact size_change (capacity_change c ▸ hcapacity) h c

/-- If a nonce has to make room for another one, the table is full and the nonce is the earliest. -/
theorem head_of_record (h : table.size ≤ table.capacity) (hthere : table.contains other = true)
    (hgone : (table.record nonce now).2.contains other = false) :
    table.size = table.capacity ∧ table.nonces.head? = some other := by
  cases hknown : table.contains nonce with
  | true =>
    rw [record_of_known hknown, hthere] at hgone
    cases hgone
  | false =>
    have hdropped : other ∉ table.nonces.drop (table.size + 1 - table.capacity) := by
      intro hkept
      have hmem : other ∈ (table.record nonce now).2.nonces := by
        rw [nonces_record hknown]
        exact List.mem_append_left _ hkept
      rw [contains_iff.mpr hmem] at hgone
      cases hgone
    have hmem := contains_iff.mp hthere
    rcases Nat.lt_or_eq_of_le h with hroom | hfull
    · rw [Nat.sub_eq_zero_of_le hroom, List.drop_zero] at hdropped
      exact absurd hmem hdropped
    · refine ⟨hfull, ?_⟩
      rw [hfull, Nat.add_sub_cancel_left] at hdropped
      cases hnonces : table.nonces with
      | nil =>
        rw [hnonces] at hmem
        cases hmem
      | cons first rest =>
        rw [hnonces] at hmem hdropped
        rcases List.mem_cons.mp hmem with rfl | hrest
        · rfl
        · exact absurd hrest hdropped

private theorem nodup_change (h : table.nonces.Nodup) (c : Change) : (table.change c).nonces.Nodup := by
  have hsame : table.nonces.Sublist table.nonces.dedup := by rw [List.dedup_eq_self.mpr h]
  exact (sublist_change hsame c).nodup (List.nodup_dedup _)

/-- Whether a nonce is known since a tick, with no others behind it than some. -/
def Retains (table : NonceTable) (nonce : UInt32) (now : Nat) (after : Finset UInt32) : Prop :=
  ∃ earlier later, table.records = earlier ++ (nonce, now) :: later ∧ ∀ record ∈ later, record.1 ∈ after

variable {after : Finset UInt32}

private theorem Retains.contains (h : table.Retains nonce now after) : table.contains nonce = true := by
  obtain ⟨earlier, later, hrecords, -⟩ := h
  rw [contains_iff, nonces, hrecords]
  simp

/-- What is kept of a table may be anything that keeps the nonce. -/
theorem Retains.filter (h : table.Retains nonce now after) {keep : UInt32 × Nat → Bool}
    (hkeep : keep (nonce, now) = true) :
    Retains { table with records := table.records.filter keep } nonce now after := by
  obtain ⟨earlier, later, hrecords, hlater⟩ := h
  refine ⟨earlier.filter keep, later.filter keep, ?_, fun record hrecord => ?_⟩
  · change table.records.filter keep = _
    rw [hrecords, List.filter_append, List.filter_cons_of_pos hkeep]
  · exact hlater record (List.mem_of_mem_filter hrecord)

/-- A nonce makes room for another one only if there are as many behind it, with that one, as the table
holds. -/
theorem Retains.record (h : table.Retains nonce now after) (hnodup : table.nonces.Nodup)
    (hnew : table.contains other = false) (tick : Nat)
    (hcount : ((after ∪ {other}).erase nonce).card < table.capacity) :
    (table.record other tick).2.Retains nonce now (after ∪ {other}) := by
  have hother : other ∉ table.nonces := by
    rw [← contains_iff, hnew]
    exact Bool.false_ne_true
  obtain ⟨earlier, later, hrecords, hlater⟩ := h
  have hnonces : table.nonces = earlier.map (·.1) ++ nonce :: later.map (·.1) := by
    rw [nonces, hrecords, List.map_append, List.map_cons]
  rw [hnonces] at hnodup hother
  have hbehind : (other :: later.map (·.1)).Nodup ∧ nonce ∉ other :: later.map (·.1) := by
    rw [List.nodup_append, List.nodup_cons] at hnodup
    simp only [List.mem_append, List.mem_cons, not_or] at hother
    refine ⟨List.nodup_cons.mpr ⟨hother.2.2, hnodup.2.1.2⟩, ?_⟩
    rw [List.mem_cons, not_or]
    exact ⟨Ne.symm hother.2.1, hnodup.2.1.1⟩
  have hroom : table.size + 1 - table.capacity ≤ earlier.length := by
    have hsub : (other :: later.map (·.1)).toFinset ⊆ (after ∪ {other}).erase nonce := by
      intro n hn
      rw [List.mem_toFinset] at hn
      refine Finset.mem_erase.mpr ⟨fun heq => hbehind.2 (heq ▸ hn), ?_⟩
      rcases List.mem_cons.mp hn with rfl | hn
      · simp
      · obtain ⟨record, hrecord, rfl⟩ := List.mem_map.mp hn
        exact Finset.mem_union_left _ (hlater record hrecord)
    have hle := Finset.card_le_card hsub
    rw [List.toFinset_card_of_nodup hbehind.1, List.length_cons, List.length_map] at hle
    rw [size, hrecords, List.length_append, List.length_cons]
    omega
  refine ⟨earlier.drop (table.size + 1 - table.capacity), later ++ [(other, tick)], ?_,
    fun record hrecord => ?_⟩
  · rw [records_record hnew, hrecords, List.drop_append_of_le_length hroom]
    simp
  · rcases List.mem_append.mp hrecord with hrecord | hrecord
    · exact Finset.mem_union_left _ (hlater record hrecord)
    · rw [List.mem_singleton.mp hrecord]
      simp

/-- A nonce outlasts a change that does not remove it, does not find it too old, and is not one too many. -/
theorem Retains.change (h : table.Retains nonce now after) (hnodup : table.nonces.Nodup) (c : Change)
    (herase : c ≠ .erase nonce)
    (hexpire : ∀ tick timeout, c = .expire tick timeout → tick - now ≤ timeout)
    (hcount : ((after ∪ (table.recordedBy c).toFinset).erase nonce).card < table.capacity) :
    (table.change c).Retains nonce now (after ∪ (table.recordedBy c).toFinset) := by
  cases c with
  | record other tick =>
    rw [recordedBy, fst_record] at hcount ⊢
    cases hknown : table.contains other with
    | true =>
      rw [NonceTable.change, record_of_known hknown]
      simpa using h
    | false =>
      rw [hknown] at hcount
      exact h.record hnodup hknown tick hcount
  | erase other =>
    have hkeep : (nonce != other) = true := bne_iff_ne.mpr fun heq => herase (heq ▸ rfl)
    rw [recordedBy, List.toFinset_nil, Finset.union_empty]
    exact h.filter hkeep
  | expire tick timeout =>
    have hkeep : decide (tick - now ≤ timeout) = true := decide_eq_true (hexpire tick timeout rfl)
    rw [recordedBy, List.toFinset_nil, Finset.union_empty]
    exact h.filter hkeep

/-- A nonce stays known through any changes that erase it not, give it its time, and record too few others. -/
theorem Retains.changeAll (h : table.Retains nonce now after) (hnodup : table.nonces.Nodup)
    (changes : List Change) (herase : .erase nonce ∉ changes)
    (hexpire : ∀ tick timeout, .expire tick timeout ∈ changes → tick - now ≤ timeout)
    (hcount : ((after ∪ (table.recorded changes).toFinset).erase nonce).card < table.capacity) :
    (table.changeAll changes).contains nonce = true := by
  induction changes generalizing table after with
  | nil => exact h.contains
  | cons c changes ih =>
    rw [recorded, List.toFinset_append, ← Finset.union_assoc] at hcount
    have hfirst : ((after ∪ (table.recordedBy c).toFinset).erase nonce).card < table.capacity :=
      Nat.lt_of_le_of_lt (Finset.card_le_card (Finset.erase_subset_erase _ Finset.subset_union_left))
        hcount
    refine ih (h.change hnodup c ?_ ?_ hfirst) (nodup_change hnodup c) ?_ ?_ ?_
    · exact fun heq => herase (heq ▸ List.mem_cons_self)
    · exact fun tick timeout heq => hexpire tick timeout (heq ▸ List.mem_cons_self)
    · exact fun hmem => herase (List.mem_cons_of_mem c hmem)
    · exact fun tick timeout hmem => hexpire tick timeout (List.mem_cons_of_mem c hmem)
    · rw [capacity_change]
      exact hcount

/-- A nonce that was not known is retained from the tick of its recording on. -/
theorem retains_record (hnew : table.contains nonce = false) (now : Nat) :
    (table.record nonce now).2.Retains nonce now ∅ :=
  ⟨_, [], records_record hnew, fun _ h => absurd h List.not_mem_nil⟩

end NamedFunctions.NonceTable
