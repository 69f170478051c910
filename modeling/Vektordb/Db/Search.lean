import Vektordb.Db.Program
import Vektordb.Hnsw.Beam
import Vektordb.Hnsw.Built

/-!
Searches of a database at rest. If the beam has room for all nodes that layer 0 reaches from the
end of the descent, the graph search returns the nearest of them, and the search over codes, once
re-ranked, does too.
-/

namespace Vektordb

open Interaction LittleEndian Smallest

namespace World

def distanceTo (env : Env) (w : World) (query : Row) (id : Nat) : F32 :=
  env.kernel w.kernel query (w.row id)

theorem release_acquire {w held : World} {agent : Nat} {lock : Lock}
    (acquired : w.acquire agent lock false = .ok held ()) : held.release agent lock false = w := by
  unfold acquire at acquired
  rw [if_neg (by decide)] at acquired
  split at acquired
  · cases acquired
    unfold release setLock
    rw [if_neg (by decide)]
    dsimp only
    rw [Function.update_self, List.erase_cons_head, Function.update_idem, Function.update_eq_self]
  · cases acquired

theorem acquire_shared {w held : World} {agent : Nat} {lock : Lock}
    (acquired : w.acquire agent lock false = .ok held ()) :
    ∃ locks, held = { w with locks := locks } := by
  unfold acquire at acquired
  rw [if_neg (by decide)] at acquired
  split at acquired
  · cases acquired
    exact ⟨_, rfl⟩
  · cases acquired

end World

namespace Db

variable {env : Env} {agent : Nat} {w : World}

theorem call_run (action : Action) {after : World} {answer : Answer action}
    (answered : handle env agent w action = .ok after answer) :
    (call action).run (handle env) agent w = .done after answer :=
  (Prog.run_act_ok answered _).trans rfl

theorem withLock_run {held : World} {lock : Lock} {α : Type} {body : Prog sig α} {value : α}
    (acquired : w.acquire agent lock false = .ok held ())
    (ran : body.run (handle env) agent held = .done held value) :
    (withLock lock false body).run (handle env) agent w = .done w value := by
  have first : (call (.acquire lock false)).run (handle env) agent w = .done held () :=
    call_run (.acquire lock false) acquired
  have last : (call (.release lock false)).run (handle env) agent held = .done w () := by
    apply call_run (.release lock false)
    simp only [handle, World.release_acquire acquired]
  unfold withLock
  rw [Prog.run_bind_done first, Prog.run_bind_done ran, Prog.run_bind_done last]
  rfl

theorem reads {dist : Nat → Prog sig F32} {value : Nat → F32}
    (oracle : ∀ x, w.index.HasLayer 0 x → (dist x).run (handle env) agent w = .done w (value x)) :
    Hnsw.Reads (handle env) agent dist w w.index value where
  entry := rfl
  len := rfl
  links layer x list present := by
    unfold Hnsw.listAt at present
    apply call_run (.index (.links x layer))
    simp only [handle, Hnsw.handle, present]
  dist := oracle

variable {config : HnswConfig} {ids : List Nat}

theorem reached_built {d : Distances} {g : Hnsw} (built : Hnsw.Built d config ids g) {ep x : Nat}
    (stands : g.Stands 0 ep) (reaches : g.Reaches 0 ep x) : x ∈ ids := by
  obtain ⟨node, held, -⟩ := built.contains.layered.navigable 0 x (stands.reaches reaches)
  rw [← built.contains.nodes x, held]
  rfl

theorem nearest_all {value : Nat → F32} {k n : Nat} {reach : List Nat} (distinct : reach.Nodup)
    (inside : ∀ x ∈ reach, x < n) (all : ∀ x < n, x ∈ reach) {out : List Neighbor}
    (searched : Exact.Search value k n out) : Exact.nearest value k reach = out := by
  rw [searched.eq]
  apply smallest_perm
  apply List.Perm.map
  apply (List.perm_ext_iff_of_nodup distinct List.nodup_range).mpr
  intro x
  rw [List.mem_range]
  exact ⟨inside x, all x⟩

/-- A search that ends its descent at `landing` returns the first `k` of the nodes that layer 0
reaches from there, by distance and id, if these are at most `width`; if they are all rows, it
returns what the exact search does. -/
def ReturnsNearest (env : Env) (w : World) (query : Row) (k width : Nat) (landing : Option Nat)
    (outcome : Outcome World (Result (List Neighbor))) : Prop :=
  ∀ reach : List Nat, reach.Nodup → (∀ x, x ∈ reach ↔ ∃ ep ∈ landing, w.index.Reaches 0 ep x) →
    reach.length ≤ width →
    outcome = .done w (.ok (Exact.nearest (w.distanceTo env query) k reach)) ∧
      ((∀ x < w.store.count, x ∈ reach) →
        ∀ out, Exact.Search (w.distanceTo env query) k w.store.count out →
          outcome = .done w (.ok out))

theorem returnsNearest (built : Hnsw.Built (w.distances env) config ids w.index)
    (stored : ∀ id ∈ ids, id < w.store.count) {query : Row} {k width : Nat} {landing : Option Nat}
    {outcome : Outcome World (Result (List Neighbor))}
    (stands : ∀ ep ∈ landing, w.index.Stands 0 ep)
    (found : ∀ reach : List Nat, reach.Nodup →
      (∀ x, x ∈ reach ↔ ∃ ep ∈ landing, w.index.Reaches 0 ep x) → reach.length ≤ width →
      outcome = .done w (.ok (Exact.nearest (w.distanceTo env query) k reach))) :
    ReturnsNearest env w query k width landing outcome := by
  intro reach distinct all room
  have nearest := found reach distinct all room
  refine ⟨nearest, ?_⟩
  intro whole out searched
  have inside : ∀ x ∈ reach, x < w.store.count := by
    intro x member
    obtain ⟨ep, here, reaches⟩ := (all x).mp member
    exact stored x (reached_built built (stands ep here) reaches)
  rw [nearest, nearest_all distinct inside whole searched]

theorem search_nearest (built : Hnsw.Built (w.distances env) config ids w.index)
    (stored : ∀ id ∈ ids, id < w.store.count) {query : Row} (dim : query.length = w.store.dim) :
    ∃ landing, (Hnsw.descent fun id => call (.measure query id)).run (handle env) agent w =
        .done w landing ∧
      ∀ k ef visited, ReturnsNearest env w query k (max ef k) landing
        ((search w.db query k ef visited).run (handle env) agent w) := by
  have readable : Hnsw.Reads (handle env) agent (fun id => call (.measure query id)) w w.index
      (w.distanceTo env query) := reads fun _ _ => rfl
  have navigable := built.contains.layered.navigable
  obtain ⟨landing, descended, -, stands⟩ := Hnsw.descent_reads readable navigable
  refine ⟨landing, descended, ?_⟩
  intro k ef visited
  apply returnsNearest built stored stands
  intro reach distinct all room
  have ran := Hnsw.searchWithOracle_exact readable navigable descended visited distinct all room
  unfold search
  rw [if_neg (fun other : query.length ≠ w.db.dim => other dim), Prog.run_bind_done ran]
  rfl

/-! ### Search over codes -/

theorem rescore_run (query : Row) (hits : List Neighbor) :
    (rescore query hits).run (handle env) agent w =
      .done w (Exact.scored (w.distanceTo env query) (hits.map Neighbor.id)) := by
  induction hits with
  | nil => rfl
  | cons hit rest ih =>
      unfold rescore
      have measured : (call (.measure query hit.id)).run (handle env) agent w =
          .done w (w.distanceTo env query hit.id) := rfl
      rw [Prog.run_bind_done measured, Prog.run_bind_done ih]
      rfl

/-- Whatever oracle chose them, hits that are scored anew and cut to `k` are the nearest. -/
theorem rerank_nearest {value oracle : Nat → F32} {k fetch : Nat} {reach : List Nat}
    (room : reach.length ≤ fetch) :
    ((Exact.scored value ((Exact.nearest oracle fetch reach).map Neighbor.id)).insertionSort
      (· ≤ ·)).take k = Exact.nearest value k reach := by
  have hits := (Exact.nearest_perm oracle room).map Neighbor.id
  rw [Exact.ids_scored] at hits
  exact smallest_perm k (hits.map _)

def codeDistance (env : Env) (state : PqState) (table : List F32) (id : Nat) : F32 :=
  ProductQuantizer.adcDistance env.pq table ((state.codes.drop (id * state.pq.m)).take state.pq.m)

theorem searchPq_nearest (built : Hnsw.Built (w.distances env) config ids w.index)
    (stored : ∀ id ∈ ids, id < w.store.count) {query : Row} (dim : query.length = w.store.dim)
    {state : PqState} (trained : w.pq = some state)
    (covers : w.store.count * state.pq.m ≤ state.codes.length) {held : World}
    (shared : w.acquire agent .pq false = .ok held ()) :
    ∃ landing, (Hnsw.descent fun id => call (.score (state.pq.adcTable env.pq query) id)).run
        (handle env) agent held = .done held landing ∧
      ∀ k ef rerank visited, 1 ≤ rerank → k * rerank < 2 ^ 64 →
        ReturnsNearest env w query k (k * rerank) landing
          ((searchPq env w.db query k ef rerank visited).run (handle env) agent w) := by
  obtain ⟨locks, isHeld⟩ := World.acquire_shared shared
  let table := state.pq.adcTable env.pq query
  have scores : ∀ x, w.index.HasLayer 0 x → (call (.score table x)).run (handle env) agent held =
      .done held (codeDistance env state table x) := by
    rintro x ⟨node, present, -⟩
    have below : x < w.store.count := stored x (by
      rw [← built.contains.nodes x, present]
      rfl)
    have inside : x * state.pq.m + state.pq.m ≤ state.codes.length := by
      rw [← Nat.succ_mul]
      exact (Nat.mul_le_mul_right _ below).trans covers
    have score : held.score env table x = Option.some (codeDistance env state table x) := by
      rw [isHeld]
      unfold World.score
      rw [show ({ w with locks := locks } : World).pq = Option.some state from trained]
      dsimp only
      rw [if_pos inside]
      rfl
    apply call_run (.score table x)
    simp only [handle, score]
  have readable : Hnsw.Reads (handle env) agent (fun id => call (.score table id)) held w.index
      (codeDistance env state table) := by
    have sameIndex : held.index = w.index := by rw [isHeld]
    rw [← sameIndex] at scores ⊢
    exact reads scores
  have navigable := built.contains.layered.navigable
  obtain ⟨landing, descended, -, stands⟩ := Hnsw.descent_reads readable navigable
  refine ⟨landing, descended, ?_⟩
  intro k ef rerank visited some fits
  apply returnsNearest built stored stands
  intro reach distinct all room
  have wide : reach.length ≤ max (max ef (k * rerank)) (k * rerank) :=
    room.trans (Nat.le_max_right _ _)
  have ran := Hnsw.searchWithOracle_exact readable navigable descended visited distinct all wide
  have rescored : ∀ hits, (rescore query hits).run (handle env) agent held =
      .done held (Exact.scored (w.distanceTo env query) (hits.map Neighbor.id)) := by
    intro hits
    have sameDistance : held.distanceTo env query = w.distanceTo env query := by rw [isHeld]; rfl
    rw [← sameDistance]
    exact rescore_run query hits
  have quantizer : (call .quantizer).run (handle env) agent held =
      .done held (Option.some state.pq) := by
    apply call_run .quantizer
    rw [isHeld]
    simp only [handle, trained, Option.map_some]
  unfold searchPq
  rw [if_neg (fun other : query.length ≠ w.db.dim => other dim)]
  apply withLock_run shared
  rw [Prog.run_bind_done quantizer]
  dsimp only
  rw [if_neg (by omega), if_neg (by omega), Prog.run_bind_done ran, if_neg (by omega),
    Prog.run_bind_done (rescored _), rerank_nearest room]
  rfl

/-- Large beams make both searches exact: whenever the beam has room for all that the search can
reach on layer 0, it returns the nearest of that. -/
theorem large_beam_exact (env : Env) (agent : Nat) (w : World) {config : HnswConfig}
    {ids : List Nat} (built : Hnsw.Built (w.distances env) config ids w.index)
    (stored : ∀ id ∈ ids, id < w.store.count) (query : Row) (dim : query.length = w.store.dim) :
    (∃ landing, (Hnsw.descent fun id => call (.measure query id)).run (handle env) agent w =
        .done w landing ∧
      ∀ k ef visited, ReturnsNearest env w query k (max ef k) landing
        ((search w.db query k ef visited).run (handle env) agent w)) ∧
    ∀ state held, w.pq = some state → w.store.count * state.pq.m ≤ state.codes.length →
      w.acquire agent .pq false = .ok held () →
      ∃ landing, (Hnsw.descent fun id => call (.score (state.pq.adcTable env.pq query) id)).run
          (handle env) agent held = .done held landing ∧
        ∀ k ef rerank visited, 1 ≤ rerank → k * rerank < 2 ^ 64 →
          ReturnsNearest env w query k (k * rerank) landing
            ((searchPq env w.db query k ef rerank visited).run (handle env) agent w) :=
  ⟨search_nearest built stored dim, fun _ _ trained covers shared =>
    searchPq_nearest built stored dim trained covers shared⟩

/-- Rows that are equal are at distance 0 and any others at distance 1; all levels are 0. -/
def discrete : Env where
  hash := Crc32.hash
  hash_lt := Crc32.hash_lt
  kernel _ a b := if a = b then F32.ofNat 0 else F32.ofNat 0x3F800000
  level _ _ := 0
  pq :=
    { l2 := fun a b => if a = b then F32.ofNat 0 else F32.ofNat 0x3F800000
      add := fun a _ => a
      kmeans := fun _ _ d _ _ => ⟨List.replicate (Pq.K * d) (F32.ofNat 0), List.length_replicate⟩ }

def pairWorld (index : Hnsw) : World :=
  { World.start ⟨some ⟨135168, (Image.blank.write 4160 (F32.toLeBytes (F32.ofNat 0x3F800000))),
      Image.blank⟩, none, none, none⟩ with
    store := ⟨1, 64, 2, 1⟩
    index := index }

theorem large_beam_exact_pair : ∃ index landing,
    (Hnsw.descent fun id => call (.measure [F32.ofNat 0] id)).run (handle discrete) 0
      (pairWorld index) = .done (pairWorld index) landing ∧
    ReturnsNearest discrete (pairWorld index) [F32.ofNat 0] 1 2 landing
      ((search (pairWorld index).db [F32.ofNat 0] 1 2 VisitedSet.new).run (handle discrete) 0
        (pairWorld index)) := by
  have done : (Hnsw.build ((pairWorld Hnsw.raceIndex).distances discrete) (fun _ => 0) ⟨2, 4, .l2⟩
      2).isSome = true := by decide +kernel
  obtain ⟨index, built⟩ := Option.isSome_iff_exists.mp done
  have inOrder : Hnsw.Built ((pairWorld index).distances discrete) ⟨2, 4, .l2⟩ [1, 0] index :=
    Hnsw.build_built (fun _ => by decide) built
  have stored : ∀ id ∈ [1, 0], id < 2 := by decide
  obtain ⟨⟨landing, descended, found⟩, -⟩ :=
    large_beam_exact discrete 0 (pairWorld index) inOrder stored [F32.ofNat 0] rfl
  exact ⟨index, landing, descended, found 1 2 VisitedSet.new⟩

end Db

end Vektordb
