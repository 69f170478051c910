import Vektordb.Db.Concurrent
import Vektordb.Db.History
import Vektordb.Order.Tiles

/-!
What is left when every call has returned. The database is at rest: every row has its node and its
code, nobody has a lock and the thread pool has nothing to do. The new rows are those of the calls,
one call after the other.
-/

namespace Vektordb

open Interaction LittleEndian VectorStore

namespace Db

variable {env : Env} {w : World} {threads : List Thread} {careful : Prop} {schedule : List Nat}
  {after : Pool sig Shared Response}

/-- Every client has its answer. -/
def Answered {σ : Type} (threads : List Thread) (after : Pool sig σ Response) : Prop :=
  ∀ (i : Nat) request, threads[i]? = some (.client request) →
    ∃ response, after.threads[i]? = some (.ret response)

theorem Reached.resting (reached : Reached env w threads careful schedule after)
    (answered : Answered threads after) {i : Nat} (client : Clients threads i) :
    ∃ st : Standing, st.Idle ∧ Stands env (crewOf env w threads careful) i st after.state := by
  obtain ⟨request, isClient⟩ := client
  obtain ⟨response, returned⟩ := answered i request isClient
  obtain ⟨base, rows, next, -, leaves⟩ := (reached.served isClient returned).leaves
  exact ⟨next, leaves.idle, leaves.stands⟩

theorem Reached.released (reached : Reached env w threads careful schedule after)
    (answered : Answered threads after) (i : Nat) (lock : Lock) : ¬ after.state.1.Holds i lock := by
  intro holds
  obtain ⟨st, idle, stands⟩ := reached.resting answered (reached.guarded.inv.locking.members lock i holds)
  exact stands.released (idle.mode lock) holds

theorem Reached.complete (reached : Reached env w threads careful schedule after)
    (answered : Answered threads after) (x : Nat) : ¬ after.state.2.uncoded x := by
  intro uncoded
  obtain ⟨i, -, -, holds⟩ := reached.guarded.inv.assigned.owner x uncoded
  exact reached.released answered i .maintenance holds

theorem Reached.db (reached : Reached env w threads careful schedule after) :
    after.state.1.db = w.db := by
  have kept := reached.guarded.inv
  have dim : after.state.1.store.dim = w.db.dim := kept.shelved.dim
  have config : after.state.1.index.config = w.db.config := kept.graphed.config
  have durable : after.state.1.wal.isSome = w.db.durable := kept.durable
  unfold World.db at dim config durable ⊢
  rw [dim, config, durable]

theorem Reached.ready (reached : Reached env w threads careful schedule after)
    (answered : Answered threads after) : Ready env after.state.1 := by
  have kept := reached.guarded.inv
  have db := reached.db
  have complete := reached.complete answered
  have assigned := kept.assigned
  have none : after.state.2.uncoded = fun _ => False :=
    funext fun x => eq_false (complete x)
  constructor
  case shelved =>
      rw [db]
      exact kept.shelved
  case graphed =>
      rw [db]
      exact kept.graphed
  case owners => exact assigned.owners
  case nodes => exact fun x below => assigned.nodes x below (complete x)
  case coded =>
      rw [← none]
      exact kept.coded
  case journaled => exact kept.journaled.weaken False.elim
  case counted =>
      by_contra beyond
      exact absurd (kept.secured.counted _ (Nat.lt_of_not_le beyond)).1 (lt_irrefl _)
  case ahead => exact kept.secured.ahead
  case locks =>
      intro lock
      have nobody : ∀ i, i ∉ (after.state.1.locks lock).shared := fun i shared =>
        reached.released answered i lock (.inl shared)
      have shared := List.eq_nil_iff_forall_not_mem.mpr nobody
      have exclusive : (after.state.1.locks lock).exclusive = Option.none :=
        Option.eq_none_iff_forall_ne_some.mpr fun i owns => reached.released answered i lock (.inr owns)
      change Holders.mk _ _ = _
      rw [shared, exclusive]
      rfl
  case pending =>
      apply List.eq_nil_iff_forall_not_mem.mpr
      intro x member
      exact complete x (assigned.pending x member).1
  case running =>
      apply List.eq_nil_iff_forall_not_mem.mpr
      intro x member
      obtain ⟨i, inHand, -⟩ := assigned.running x member
      exact complete x (assigned.hand x i inHand)

theorem Ready.complete (ready : Ready env w) : w.index.Dense w.store.count ∧
    ∀ state, w.pq = some state → state.codes = w.encodeAll env state.pq :=
  ⟨ready.graphed.dense ready.nodes, fun state trained => (ready.coded state trained).exact fun _ => id⟩

/-! ### One call after the other -/

theorem Reached.covered (reached : Reached env w threads careful schedule after) {x : Nat}
    (low : w.store.count ≤ x) (high : x < after.state.1.store.count) :
    ∃ i, Clients threads i ∧ after.state.1.owners[x]? = some i := by
  have assigned := reached.guarded.inv.assigned
  have inside : x < after.state.1.owners.length := by
    rw [assigned.owners]
    exact high
  have owner := List.getElem?_eq_getElem inside
  obtain ⟨request, isThread, -⟩ := assigned.authors x _ low owner
  exact ⟨_, ⟨request, isThread⟩, owner⟩

theorem Leaves.inBatch {crew : Crew} {i base : Nat} {rows : List Row} {next : Standing} {s : Shared}
    (ready : Ready env w)
    (leaves : Leaves env crew i (Standing.start i (atRest env w)) base rows next s) {x : Nat}
    (low : w.store.count ≤ x) (owner : s.1.owners[x]? = some i) : InBatch base rows.length x := by
  by_contra outside
  have isRow := (leaves.stands.owned x).mp owner
  rw [leaves.content x, if_neg outside] at isRow
  have before := getElem?_of_lt (((ready.stands crew i).owned x).mpr isRow)
  rw [ready.owners] at before
  exact absurd before (Nat.not_lt.mpr low)

/-- The new rows are the blocks of the calls; a thread of the pool has none. -/
theorem Reached.tiles (reached : Reached env w threads careful schedule after) (ready : Ready env w)
    (answered : Answered threads after) :
    ∃ (base : Nat → Nat) (rows : Nat → List Row),
      (∀ i request response, threads[i]? = some (.client request) →
        after.threads[i]? = some (.ret response) → Stores w.db request response (base i) (rows i)) ∧
      (∀ i, ¬ Clients threads i → rows i = []) ∧
      Tiling.Tiles base rows after.state.1.row (List.range threads.length) w.store.count
        after.state.1.store.count := by
  classical
  obtain ⟨place, placed⟩ := reached.places
  obtain ⟨rows, isRows⟩ : ∃ rows : Nat → List Row, rows = fun i =>
      if Clients threads i then (place i).2 else [] := ⟨_, rfl⟩
  have ofClient : ∀ {i}, Clients threads i → rows i = (place i).2 := by
    intro i client
    rw [isRows]
    exact if_pos client
  have ofHelper : ∀ i, ¬ Clients threads i → rows i = [] := by
    intro i helper
    rw [isRows]
    exact if_neg helper
  have left : ∀ {i}, Clients threads i →
      ∃ next, Leaves env (crewOf env w threads careful) i
        (Standing.start i (atRest env w)) (place i).1 (rows i) next after.state := by
    intro i client
    obtain ⟨request, isClient⟩ := client
    obtain ⟨response, returned⟩ := answered i request isClient
    rw [ofClient ⟨request, isClient⟩]
    exact (placed i request response isClient returned).2
  have isClient : ∀ {i x}, Tiling.Inside (place i).1 (rows i) x → Clients threads i := by
    intro i x inside
    by_contra helper
    have high := inside.2
    rw [ofHelper i helper] at high
    exact absurd high (Nat.not_lt.mpr inside.1)
  have kept := reached.guarded.inv
  refine ⟨fun i => (place i).1, rows, ?_, ofHelper, ?_⟩
  · intro i request response client returned
    rw [ofClient ⟨request, client⟩]
    exact (placed i request response client returned).1
  · constructor
    case covered =>
        intro x low high
        obtain ⟨i, client, owner⟩ := reached.covered low high
        obtain ⟨next, leaves⟩ := left client
        obtain ⟨request, isThread⟩ := client
        exact ⟨i, List.mem_range.mpr (getElem?_of_lt isThread), leaves.inBatch ready low owner⟩
    case within =>
        intro i _ x inside
        obtain ⟨next, leaves⟩ := left (isClient inside)
        have preserved := leaves.preserved kept inside
        exact ⟨reached.new ready leaves inside, preserved.inside, preserved.row⟩
    case apart =>
        intro i _ j _ x inside inside'
        obtain ⟨next, leaves⟩ := left (isClient inside)
        obtain ⟨next', leaves'⟩ := left (isClient inside')
        exact Reached.apart leaves leaves' inside inside'

/-- When every call has returned, in whatever order their actions came, the rows are those that were
there before and then those of the calls, one call after the other; every row has its node and its
code, and the database is at rest again. -/
theorem concurrent_calls_serial (levels : Env.Level env) (ready : Ready env w)
    {plain : Pool sig World Response}
    (ran : (service env w threads).runs (handle env) schedule = some plain)
    (answered : Answered threads plain) :
    (∃ (order : List Nat) (base : Nat → Nat) (rows : Nat → List Row),
      order.Perm (List.range threads.length) ∧
      plain.state.rows = w.rows ++ order.flatMap rows ∧
      (∀ i request response, threads[i]? = some (.client request) →
        plain.threads[i]? = some (.ret response) → Stores w.db request response (base i) (rows i)) ∧
      (∀ i, ¬ Clients threads i → rows i = []) ∧
      ∀ front i rest, order = front ++ i :: rest → rows i ≠ [] →
        base i = w.store.count + (front.flatMap rows).length) ∧
      Ready env plain.state ∧ plain.state.index.Dense plain.state.store.count ∧
      ∀ state, plain.state.pq = some state → state.codes = plain.state.encodeAll env state.pq := by
  obtain ⟨later, reached⟩ := reached_plain levels ready ran
  have rest : Ready env plain.state := reached.ready answered
  refine ⟨?_, rest, rest.complete⟩
  obtain ⟨base, rows, stores, helpers, tiles⟩ := reached.tiles ready answered
  obtain ⟨order, perm, whole, placed⟩ := tiles.serial List.nodup_range
  refine ⟨order, base, rows, perm, ?_, stores, helpers, placed⟩
  have grown : w.store.count ≤ plain.state.store.count := by
    by_contra shrunk
    have last := (reached.before ready (Nat.lt_of_not_le shrunk)).1
    exact Nat.lt_irrefl _ last
  have old : (List.range w.store.count).map plain.state.row = w.rows := by
    apply List.map_congr_left
    intro x member
    exact (reached.before ready (List.mem_range.mp member)).2
  unfold World.rows at old ⊢
  rw [← old, ← whole]
  change _ = _ ++ (List.range' w.store.count (plain.state.store.count - w.store.count)).map
    plain.state.row
  rw [← List.map_append, List.range_eq_range', List.range_eq_range']
  have parts : List.range' 0 w.store.count ++
      List.range' (0 + w.store.count) (plain.state.store.count - w.store.count) =
        List.range' 0 (w.store.count + (plain.state.store.count - w.store.count)) :=
    List.range'_append_1
  rw [Nat.zero_add, Nat.add_sub_cancel' grown] at parts
  rw [← parts]

theorem answered_all {σ : Type} {pool : Pool sig σ Response}
    (length : pool.threads.length = threads.length)
    (all : ∀ answer ∈ answers pool, answer.isSome = true) : Answered threads pool := by
  intro i request client
  have inside := getElem?_of_lt client
  rw [← length] at inside
  have shown : i < (answers pool).length := by
    unfold answers
    rwa [List.length_map]
  obtain ⟨response, isAnswer⟩ := Option.isSome_iff_exists.mp (all _ (List.getElem_mem shown))
  refine ⟨response, answers_some ?_⟩
  rw [List.getElem?_eq_getElem shown, isAnswer]

end Db

end Vektordb
