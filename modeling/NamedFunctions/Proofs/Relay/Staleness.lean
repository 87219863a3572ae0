import NamedFunctions.Proofs.ContentStore.Staleness
import NamedFunctions.Proofs.Relay.Lifetime
import NamedFunctions.Proofs.Relay.Replay

/-!
# Freshness over runs

An entry of the content store that is not static is stale if its freshness was over at the last tick, counted
from the tick at which it was put in, or if a command has named it since. Look-ups make no difference.
-/

namespace NamedFunctions

/-- Whether an operation is the command that the data of an entry be stale from now on. -/
def Operation.Names (op : Operation) (e : CacheEntry) : Prop :=
  ∃ uri suite name, op = .apply (.markStale uri suite) ∧ Name.ofUri uri suite = .ok name ∧
    e.content.name.key = name.key

private theorem Operation.not_names_tick {e : CacheEntry} : ¬ Operation.Names .tick e := by
  rintro ⟨uri, suite, name, heq, -⟩
  cases heq

namespace Relay

open ContentStore (Change)

variable {r : Relay} {op : Operation} {seq : Nat} {e e' : CacheEntry}

/-- Whether an operation lets an entry become stale that is not. -/
def Spoils (r : Relay) (op : Operation) (e : CacheEntry) : Prop :=
  e.isStatic = false ∧
    (op = .tick ∧ e.Outlived (r.clock + 1) r.config.tickDuration ∨ op.Names e)

private theorem exists_spoils_iff : (∃ c ∈ r.changes op, c.Spoils e) ↔ r.Spoils op e := by
  constructor
  · rintro ⟨c, hc, hspoils⟩
    cases c with
    | markStale name =>
      obtain ⟨uri, suite, rfl, hname⟩ := markStale_mem_changes_iff.mp hc
      exact ⟨hspoils.1, .inr ⟨uri, suite, name, rfl, hname, hspoils.2⟩⟩
    | markExpired now tick =>
      obtain ⟨rfl, rfl, rfl⟩ := markExpired_mem_changes_iff.mp hc
      exact ⟨hspoils.1, .inl ⟨rfl, hspoils.2⟩⟩
    | _ => exact hspoils.elim
  · rintro ⟨hmoves, ⟨rfl, hover⟩ | ⟨uri, suite, name, rfl, hname, hkey⟩⟩
    · exact ⟨_, markExpired_mem_changes_iff.mpr ⟨rfl, rfl, rfl⟩, hmoves, hover⟩
    · exact ⟨_, markStale_mem_changes_iff.mpr ⟨uri, suite, rfl, hname⟩, hmoves, hkey⟩

/-- After one more operation an entry is there that was there before, stale if it was or becomes so, or one
that the operation has put in. -/
theorem getElem?_indexed_append {ops : List Operation}
    (he' : (r.indexed (ops ++ [op])).entries[seq]? = some e') :
    (∃ e, (r.indexed ops).entries[seq]? = some e ∧ e.Aged ((r.performAll ops).Spoils op e) e') ∨
      (r.indexed ops).entries[seq]? = none ∧ e'.isStale = false ∧
        ∃ isStatic, .put e'.content isStatic e'.storedAt ∈ (r.performAll ops).changes op := by
  have hwell := r.wellFormed_indexed ops
  rw [indexed_append] at he'
  rcases IndexedStore.getElem?_performAll hwell _ he' with
    ⟨e, he, haged⟩ | ⟨hseq, ⟨isStatic, hput⟩, hstale⟩
  · exact .inl ⟨e, he, haged.congr exists_spoils_iff⟩
  · refine .inr ⟨?_, ?_, isStatic, hput⟩
    · refine Option.eq_none_iff_forall_ne_some.mpr fun e he => ?_
      exact absurd (hwell.below seq e he) (Nat.not_lt.mpr hseq)
    · -- What puts data in is neither a tick nor a command.
      obtain ⟨-, htick, hcommand⟩ := of_put_mem_changes hput
      refine Bool.eq_false_iff.mpr fun h => ?_
      rcases (exists_spoils_iff.mp (hstale h)).2 with ⟨hop, -⟩ | ⟨uri, suite, -, hop, -⟩
      · exact htick hop
      · exact hcommand _ hop

/-- Whether an entry has been put in by an operation of a run, between those before and those after it, and
has been there ever since: with the same data, from the same tick, and stale at most if it is in the end. -/
structure StoredSince (r : Relay) (before : List Operation) (op : Operation) (after : List Operation)
    (seq : Nat) (e : CacheEntry) : Prop where
  absent : (r.indexed before).entries[seq]? = none
  clock : (r.performAll before).clock = e.storedAt
  put : ∃ isStatic, .put e.content isStatic e.storedAt ∈ (r.performAll before).changes op
  present : ∀ between rest, after = between ++ rest →
    ∃ e₁, (r.indexed (before ++ op :: between)).entries[seq]? = some e₁ ∧
      e₁.content = e.content ∧ e₁.isStatic = e.isStatic ∧ e₁.storedAt = e.storedAt ∧
      (e₁.isStale = true → e.isStale = true)

/-- An entry is kept by the operation that puts it in. -/
theorem StoredSince.of_put {before : List Operation}
    (he : (r.indexed (before ++ [op])).entries[seq]? = some e)
    (habsent : (r.indexed before).entries[seq]? = none)
    (hput : ∃ isStatic, .put e.content isStatic e.storedAt ∈ (r.performAll before).changes op) :
    r.StoredSince before op [] seq e where
  absent := habsent
  clock := by
    obtain ⟨isStatic, hput⟩ := hput
    exact (of_put_mem_changes hput).1.symm
  put := hput
  present := by
    intro between rest hafter
    obtain ⟨rfl, rfl⟩ := List.append_eq_nil_iff.mp hafter.symm
    exact ⟨e, he, rfl, rfl, rfl, id⟩

/-- It is kept by one more operation after which it is there. -/
theorem StoredSince.snoc {before after : List Operation} {op' : Operation} {stale : Prop}
    (h : r.StoredSince before op after seq e) (haged : e.Aged stale e')
    (he' : (r.indexed (before ++ op :: (after ++ [op']))).entries[seq]? = some e') :
    r.StoredSince before op (after ++ [op']) seq e' where
  absent := h.absent
  clock := h.clock.trans haged.storedAt.symm
  put := by
    rw [haged.content, haged.storedAt]
    exact h.put
  present := by
    intro between rest hafter
    rcases List.eq_nil_or_concat' rest with rfl | ⟨rest, last, rfl⟩
    · rw [List.append_nil] at hafter
      exact ⟨e', hafter ▸ he', rfl, rfl, rfl, id⟩
    · rw [← List.append_assoc] at hafter
      obtain ⟨hafter, -⟩ := List.append_inj' hafter rfl
      obtain ⟨e₁, he₁, hcontent, hstatic, hstored, hstale⟩ := h.present between rest hafter
      exact ⟨e₁, he₁, hcontent.trans haged.content.symm, hstatic.trans haged.isStatic.symm,
        hstored.trans haged.storedAt.symm, fun h => haged.isStale.mpr (.inl (hstale h))⟩

/-- The time from one tick to the next stays the same. -/
theorem tickDuration_performAll (h : Linked r []) (ops : List Operation) :
    (r.performAll ops).config.tickDuration = r.config.tickDuration := by
  have hfixed := congrArg RelayConfig.tickDuration (fixed_performAll h ops)
  exact hfixed

/-- Whether an entry has to be stale at some tick, after some operations since it was put in. -/
def Due (tick : Duration) (now : Nat) (after : List Operation) (e : CacheEntry) : Prop :=
  e.isStatic = false ∧ (e.storedAt < now ∧ e.Outlived now tick ∨ ∃ op ∈ after, op.Names e)

private theorem due_congr {stale : Prop} (h : e.Aged stale e') (tick : Duration) (now : Nat)
    (after : List Operation) : Due tick now after e' ↔ Due tick now after e := by
  unfold Due CacheEntry.Outlived Operation.Names
  rw [h.content, h.isStatic, h.storedAt]

/-- One more operation makes an entry due if it lets it become stale. -/
theorem due_snoc (hstored : e.storedAt ≤ r.clock) (op : Operation) (after : List Operation) :
    Due r.config.tickDuration (r.perform op).clock (after ++ [op]) e ↔
      Due r.config.tickDuration r.clock after e ∨ r.Spoils op e := by
  have hnamed : (∃ op' ∈ after ++ [op], op'.Names e) ↔ (∃ op' ∈ after, op'.Names e) ∨ op.Names e := by
    simp [or_and_right, exists_or]
  unfold Due Spoils
  rw [hnamed, ← and_or_left]
  refine and_congr_right fun _ => ?_
  by_cases hop : op = .tick
  · subst hop
    have hlt : e.storedAt < r.clock + 1 := Nat.lt_succ_of_le hstored
    -- What was over before the tick is over after it.
    have hmono : e.storedAt < r.clock ∧ e.Outlived r.clock r.config.tickDuration →
        e.Outlived (r.clock + 1) r.config.tickDuration := fun h => h.2.mono (Nat.le_succ _)
    rw [clock_perform_tick]
    simp only [hlt, Operation.not_names_tick, true_and, or_false]
    rw [or_right_comm, or_iff_right_of_imp hmono]
  · rw [clock_perform_of_ne hop]
    simp only [hop, false_and, false_or, or_assoc]

private theorem clock_le_perform (r : Relay) (op : Operation) : r.clock ≤ (r.perform op).clock := by
  by_cases hop : op = .tick
  · rw [hop, clock_perform_tick]
    exact Nat.le_succ _
  · rw [clock_perform_of_ne hop]

/-- Every entry has been put in at some point of a run and kept since, and it is stale if it has to be. -/
theorem exists_storedSince (h : Linked r []) (ops : List Operation)
    (he : (r.indexed ops).entries[seq]? = some e) :
    ∃ before op after, ops = before ++ op :: after ∧ r.StoredSince before op after seq e ∧
      e.storedAt ≤ (r.performAll ops).clock ∧
      (ops.getLast? = some .tick → e.storedAt < (r.performAll ops).clock) ∧
      (e.isStale = true ↔ Due r.config.tickDuration (r.performAll ops).clock after e) := by
  induction ops using List.reverseRecOn generalizing e with
  | nil =>
    have hnone : (r.indexed []).entries[seq]? = none := Std.TreeMap.getElem?_emptyc
    cases hnone.symm.trans he
  | append_singleton ops op ih =>
    have hsnoc : r.performAll (ops ++ [op]) = (r.performAll ops).perform op := List.foldl_concat ..
    rw [hsnoc, List.getLast?_concat]
    rcases getElem?_indexed_append he with ⟨e₀, he₀, haged⟩ | ⟨habsent, hstale, hput⟩
    · obtain ⟨before, op₀, after, rfl, hsince, hstored, -, hdue⟩ := ih he₀
      have hassoc : before ++ op₀ :: after ++ [op] = before ++ op₀ :: (after ++ [op]) := by simp
      refine ⟨before, op₀, after ++ [op], hassoc, hsince.snoc haged (hassoc ▸ he), ?_, ?_, ?_⟩
      · rw [haged.storedAt]
        exact hstored.trans (clock_le_perform _ op)
      · intro hop
        rw [haged.storedAt, Option.some.inj hop, clock_perform_tick]
        exact Nat.lt_succ_of_le hstored
      · rw [haged.isStale, due_congr haged, hdue, ← tickDuration_performAll h, ← due_snoc hstored]
    · obtain ⟨isStatic, hmem⟩ := hput
      obtain ⟨hclock, hop, -⟩ := of_put_mem_changes hmem
      rw [clock_perform_of_ne hop, ← hclock]
      refine ⟨ops, op, [], rfl, .of_put he habsent ⟨isStatic, hmem⟩, Nat.le_refl _,
        fun h => absurd (Option.some.inj h) hop, ?_⟩
      rw [hstale]
      simp [Due]

/-- The content store of a relay is the one with an index, and in that every entry has been put in by some
operation and kept since. It is stale if a tick has found its freshness over, as it is by now, or a command
has named it, and not for another reason. -/
theorem stale_of_performAll {config : RelayConfig} {source : NonceSource}
    (hnew : Relay.new config source = .ok r) (ops : List Operation) :
    (r.indexed ops).toStore = (r.performAll ops).store ∧
      ∀ (seq : Nat) (e : CacheEntry), (r.indexed ops).entries[seq]? = some e →
        ∃ before op after, ops = before ++ op :: after ∧ r.StoredSince before op after seq e ∧
          (ops.getLast? = some .tick → e.storedAt < (r.performAll ops).clock) ∧
          (e.isStale = true ↔
            e.isStatic = false ∧
              ((∃ freshness, e.content.freshness = some freshness ∧
                  e.storedAt < (r.performAll ops).clock ∧
                  freshness.milliseconds ≤
                    ((r.performAll ops).clock - e.storedAt) * config.tickInterval) ∨
                ∃ op ∈ after, op.Names e)) := by
  have hempty : r.store.entries = [] := by rw [eq_of_new hnew]
  have htick : max r.config.tickDuration.milliseconds 1 = config.tickInterval := by
    rw [eq_of_new hnew, RelayConfig.tickDuration, Duration.milliseconds_ofMilliseconds]
    exact Nat.max_eq_left (value_pos_of_new hnew .tickInterval)
  refine ⟨toStore_indexed hempty ops, fun seq e he => ?_⟩
  have hreachable : r.Reachable := .new hnew
  obtain ⟨before, op, after, hops, hsince, -, hlast, hdue⟩ :=
    exists_storedSince (linked_of_reachable hreachable) ops he
  refine ⟨before, op, after, hops, hsince, hlast, hdue.trans (and_congr_right fun _ => or_congr_left ?_)⟩
  simp only [CacheEntry.Outlived, htick]
  constructor
  · rintro ⟨hlt, freshness, hfreshness, hover⟩
    exact ⟨freshness, hfreshness, hlt, hover⟩
  · rintro ⟨freshness, hfreshness, hlt, hover⟩
    exact ⟨hlt, freshness, hfreshness, hover⟩

/-- Data that is fresh for one and a half seconds is stale after two ticks, although it has answered an
Interest in between, and data that is fresh for two and a half is not. -/
theorem stale_of_performAll_hit :
    ∃ (r : Relay) (x y : Content) (ops : List Operation),
      Relay.new {} (.ofSeed 0) = .ok r ∧
      x = { Content.ofPayload (.ofComponents [[0x78]]) [1] with freshness := some (.ofMilliseconds 1500) } ∧
      y = { Content.ofPayload (.ofComponents [[0x79]]) [2] with freshness := some (.ofMilliseconds 2500) } ∧
      ops =
        [.faceForPeer 0 (.unix "a"), .cacheContent x false, .cacheContent y false, .tick,
          .handleInterest ⟨1⟩ (.ofName x.name), .tick] ∧
      (r.performAll ops).store.entries.map (fun e => (e.content, e.isStatic, e.storedAt, e.served)) =
        [(y, false, 0, 0), (x, false, 0, 1)] ∧
      ∀ e ∈ (r.performAll ops).store.entries, (e.isStale = true ↔ e.content = x) := by
  have hstale {r : Relay} {x y : Content} {ops : List Operation}
      (hnew : Relay.new {} (.ofSeed 0) = .ok r)
      (hx : x.freshness = some (.ofMilliseconds 1500))
      (hy : y.freshness = some (.ofMilliseconds 2500))
      (hops : ops =
        [.faceForPeer 0 (.unix "a"), .cacheContent x false, .cacheContent y false, .tick,
          .handleInterest ⟨1⟩ (.ofName x.name), .tick])
      (hclock : (r.performAll ops).clock = 2)
      (hentries : (r.performAll ops).store.entries.map
        (fun e => (e.content, e.isStatic, e.storedAt, e.served)) =
          [(y, false, 0, 0), (x, false, 0, 1)]) :
      (r.performAll ops).store.entries.map (fun e => (e.content, e.isStatic, e.storedAt, e.served)) =
          [(y, false, 0, 0), (x, false, 0, 1)] ∧
        ∀ e ∈ (r.performAll ops).store.entries, (e.isStale = true ↔ e.content = x) := by
    refine ⟨hentries, fun e he => ?_⟩
    obtain ⟨hstore, hall⟩ := stale_of_performAll hnew ops
    have hmem : (e.content, e.isStatic, e.storedAt, e.served) ∈
        [(y, false, 0, 0), (x, false, 0, 1)] := hentries ▸ List.mem_map_of_mem he
    rw [← hstore] at he
    obtain ⟨seq, he⟩ := IndexedStore.mem_newestFirst.mp he
    obtain ⟨before, op, after, hsplit, -, -, hiff⟩ := hall seq e he
    have hunnamed : ¬ ∃ op ∈ after, op.Names e := by
      rintro ⟨op', hop', uri, suite, name, rfl, -⟩
      have hop'' : Operation.apply (.markStale uri suite) ∈ ops := by simp [hsplit, hop']
      simp [hops] at hop''
    simp only [List.mem_cons, List.not_mem_nil, or_false, Prod.mk.injEq] at hmem
    rw [hiff, hclock, or_iff_left hunnamed]
    rcases hmem with ⟨hcontent, hmoves, hstored, -⟩ | ⟨hcontent, hmoves, hstored, -⟩
    · have hne : y ≠ x := fun heq => absurd (hy.symm.trans (heq ▸ hx)) (by decide)
      simp [hcontent, hmoves, hstored, hy, hne]
    · simp [hcontent, hmoves, hstored, hx]
  exact ⟨_, _, _, _, rfl, rfl, rfl, rfl, hstale rfl rfl rfl rfl rfl (by decide +kernel)⟩

end Relay

end NamedFunctions
