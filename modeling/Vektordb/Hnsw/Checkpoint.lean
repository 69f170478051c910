import Vektordb.Hnsw.Persist

/-!
Checkpoints of an index that was built concurrently. As long as every list that an insert
links for itself fits, a finished build is within its degree bounds and its snapshot loads
again. Five inserts in a bad order leave a list that is too long, and the snapshot that was
written of it is refused.
-/

namespace Vektordb

open Interaction LittleEndian Persist

namespace Hnsw

variable {d : Distances} {config : HnswConfig} {g : Hnsw} {calls : List Call}
  {schedule : List Nat} {reached : Pool sig Hnsw (List Neighbor)}

theorem Startable.owned (startable : Startable g calls)
    (ran : (startPool g calls).runs (handle d) schedule = some reached) :
    Owned (owners calls startable.distinct) (fun id => (g.nodes.get id).isSome = true)
      reached.state :=
  (startable.guarded.runs ran (Pool.Meets.always (fun _ _ _ => trivial) _ _)).inv

theorem Startable.finished (startable : Startable g calls)
    (ran : (startPool g calls).runs (handle d) schedule = some reached) {i id level : Nat}
    {visited : VisitedSet} {result : List Neighbor}
    (atCall : calls[i]? = some (Call.insert id level visited))
    (returned : reached.threads[i]? = some (.ret result)) : reached.state.HasLevel id level :=
  ((startable.guarded.runs ran (Pool.Meets.always (fun _ _ _ => trivial) _ _)).returned returned
    id level visited atCall).1

theorem runs_threads_length {first after : Pool sig Hnsw (List Neighbor)}
    (ran : first.runs (handle d) schedule = some after) :
    after.threads.length = first.threads.length := by
  induction schedule generalizing first with
  | nil =>
      cases ran
      rfl
  | cons agent rest ih =>
      obtain ⟨middle, stepped, later⟩ := Option.bind_eq_some_iff.mp ran
      obtain ⟨op, next, t, answer, -, -, rfl⟩ := Pool.step_cases stepped
      rw [ih later, List.length_set]

theorem mem_inserts {id : Nat} (member : id ∈ calls.filterMap Call.inserts) :
    ∃ (i : Nat) (level : Nat) (visited : VisitedSet), calls[i]? = some (Call.insert id level visited) := by
  obtain ⟨call, present, inserts⟩ := List.mem_filterMap.mp member
  obtain ⟨i, atCall⟩ := List.mem_iff_getElem?.mp present
  cases call with
  | insert other level visited =>
      cases inserts
      exact ⟨i, level, visited, atCall⟩
  | search => cases inserts

/-- When all calls have returned, the published nodes are the inserted ids, each at its level. -/
theorem finished_dense {n : Nat} (opened : Hnsw.new config = .ok g)
    (ran : (startPool g calls).runs (handle d) schedule = some reached)
    (ids : (calls.filterMap Call.inserts).Perm (List.range n))
    (inRange : ∀ id level visited, Call.insert id level visited ∈ calls →
      id < 1024 * (2 ^ 40 - 1) ∧ level < 255)
    (returned : ∀ p ∈ reached.threads, ∃ result, p = .ret result) :
    Dense n reached.state ∧ ∀ id level, reached.state.HasLevel id level →
      ∃ visited, Call.insert id level visited ∈ calls := by
  have startable := startable_new opened (ids.nodup_iff.mpr List.nodup_range) inRange
  have published : ∀ id < n, ∃ level visited, Call.insert id level visited ∈ calls ∧
      reached.state.HasLevel id level := by
    intro id below
    obtain ⟨i, level, visited, atCall⟩ := mem_inserts (ids.mem_iff.mpr (List.mem_range.mpr below))
    have inside : i < reached.threads.length := by
      rw [runs_threads_length ran]
      simpa only [startPool, List.length_map] using (List.getElem?_eq_some_iff.mp atCall).1
    obtain ⟨result, same⟩ := returned _ (List.getElem_mem inside)
    have atThread : reached.threads[i]? = some (.ret result) := by
      rw [List.getElem?_eq_getElem inside, same]
    exact ⟨level, visited, List.mem_of_getElem? atCall, startable.finished ran atCall atThread⟩
  have below : ∀ id, (reached.state.nodes.get id).isSome = true → id < n := by
    intro id present
    rcases (startable.owned ran).owned id present with before | ⟨i, owned⟩
    · rw [(layered_new opened).2.2 id] at before
      cases before
    · obtain ⟨call, atCall, inserts⟩ := Option.bind_eq_some_iff.mp owned
      exact List.mem_range.mp (ids.mem_iff.mp
        (List.mem_filterMap.mpr ⟨call, List.mem_of_getElem? atCall, inserts⟩))
  refine ⟨⟨?_, fun id => ⟨below id, fun inside => ?_⟩⟩, fun id level has => ?_⟩
  · rcases Nat.eq_zero_or_pos n with none | positive
    · subst none
      refine reached.state.nodes.last.resolve_right fun some => ?_
      exact absurd (below _ some) (Nat.not_lt_zero _)
    · obtain ⟨level, visited, -, node, held, -⟩ := published (n - 1) (by omega)
      have longer := SegVec.get_lt_len held
      have shorter := below _ (reached.state.nodes.last.resolve_left (by omega))
      show reached.state.nodes.len = n
      omega
  · obtain ⟨level, visited, -, node, held, -⟩ := published id inside
    rw [held]
    rfl
  · obtain ⟨node, held, same⟩ := has
    obtain ⟨level', visited, member, node', held', same'⟩ := published id
      (below id (by rw [held]; rfl))
    rw [held] at held'
    cases held'
    exact ⟨visited, same ▸ same'.symm ▸ member⟩

/-- While every insert finds its own lists untouched when it links them, the degree bound holds at
every moment, and a snapshot of the finished build is accepted. -/
theorem concurrent_build_loadable {hash : Bytes → Nat} (small : ∀ bytes, hash bytes < 2 ^ 32)
    (opened : Hnsw.new config = .ok g)
    (ran : (startPool g calls).runs (handle d) schedule = some reached)
    (untouched : (startPool g calls).Meets (handle d) (fun _ s action => Untouched s action)
      schedule) :
    (∀ id node layer list, reached.state.nodes.get id = some node →
      node.links[layer]? = some list →
      list.Nodup ∧ list.length ≤ config.maxDegree layer) ∧
    ∀ n walLsn, (calls.filterMap Call.inserts).Perm (List.range n) →
      n ≤ 1024 * (2 ^ 40 - 1) → walLsn < 2 ^ 64 →
      (∀ id level visited, Call.insert id level visited ∈ calls → level ≤ 63) →
      (∀ p ∈ reached.threads, ∃ result, p = .ret result) →
      ∃ bytes index, reached.state.save hash walLsn = some bytes ∧
        Hnsw.load hash bytes = .ok (index, walLsn) := by
  have sameConfig : g.config = config := (layered_new opened).2.1
  obtain ⟨configThere, bounded⟩ :=
    ((degrees_guarded (bounded_new opened) calls).runs ran untouched).inv
  rw [sameConfig] at configThere
  refine ⟨fun id node layer list held present => ?_, ?_⟩
  · have within := bounded id node layer list held present
    rwa [configThere] at within
  · intro n walLsn ids room smallLsn levels returned
    have inRange : ∀ id level visited, Call.insert id level visited ∈ calls →
        id < 1024 * (2 ^ 40 - 1) ∧ level < 255 := by
      intro id level visited member
      have below := List.mem_range.mp (ids.mem_iff.mp
        (List.mem_filterMap.mpr ⟨_, member, rfl⟩))
      have low := levels id level visited member
      omega
    have startable := startable_new opened (ids.nodup_iff.mpr List.nodup_range) inRange
    obtain ⟨dense, byCall⟩ := finished_dense opened ran ids inRange returned
    have m : 2 ≤ reached.state.config.m ∧ reached.state.config.m ≤ 4096 := by
      rw [configThere]
      unfold Hnsw.new at opened
      split at opened
      · assumption
      · cases opened
    obtain ⟨bytes, saved, loaded⟩ := load_save small (startable.owned ran).layered bounded dense
      room m (fun id level has => by
        obtain ⟨visited, member⟩ := byCall id level has
        exact levels id level visited member) smallLsn
    exact ⟨bytes, _, saved, loaded⟩

/-! ### Five nodes on a line -/

def linePosition (id : Nat) : Int := [0, 1, 2, 10, 11].getD id 0

def lineDistances : Distances := fun a b => F32.ofNat (linePosition a - linePosition b).natAbs

def lineCalls : List Call :=
  [.insert 0 2 VisitedSet.new, .insert 1 1 VisitedSet.new, .insert 2 1 VisitedSet.new,
    .insert 3 2 VisitedSet.new, .insert 4 1 VisitedSet.new]

def lineIndex : Hnsw := ⟨⟨2, 4, .l2⟩, SegVec.new, ENTRY_NONE⟩

def hasReturned {α : Type} : Prog sig α → Bool
  | .ret _ => true
  | _ => false

theorem hasReturned_iff {α : Type} {p : Prog sig α} :
    hasReturned p = true ↔ ∃ result, p = .ret result := by
  cases p with
  | ret value => exact iff_of_true rfl ⟨value, rfl⟩
  | spin => exact iff_of_false Bool.false_ne_true fun ⟨_, same⟩ => by cases same
  | act op next => exact iff_of_false Bool.false_ne_true fun ⟨_, same⟩ => by cases same

/-- Three inserts in turns; the first has little to do. -/
def calmSchedule : List Nat :=
  (List.replicate 3 [0, 1, 2]).flatten ++ (List.replicate 15 [1, 2]).flatten

theorem concurrent_build_loadable_calm :
    ∃ reached bytes index,
      (startPool lineIndex (lineCalls.take 3)).runs (handle lineDistances) calmSchedule =
        some reached ∧
      reached.state.save Crc32.hash 7 = some bytes ∧
      Hnsw.load Crc32.hash bytes = .ok (index, 7) := by
  have finishes : (((startPool lineIndex (lineCalls.take 3)).runs (handle lineDistances)
      calmSchedule).map fun reached => reached.threads.all hasReturned) = some true := by
    decide +kernel
  have untouched : (startPool lineIndex (lineCalls.take 3)).Meets (handle lineDistances)
      (fun _ s action => Untouched s action) calmSchedule := by decide +kernel
  obtain ⟨reached, ran, returned⟩ := Option.map_eq_some_iff.mp finishes
  have opened : Hnsw.new ⟨2, 4, .l2⟩ = .ok lineIndex := rfl
  have ids : ((lineCalls.take 3).filterMap Call.inserts).Perm (List.range 3) :=
    List.Perm.of_eq rfl
  have levels : ∀ id level visited, Call.insert id level visited ∈ lineCalls.take 3 →
      level ≤ 63 := by
    intro id level visited member
    simp only [lineCalls, List.take_succ_cons, List.take_zero, List.mem_cons, Call.insert.injEq,
      List.not_mem_nil, or_false] at member
    omega
  obtain ⟨bytes, index, saved, loaded⟩ :=
    (concurrent_build_loadable Crc32.hash_lt opened ran untouched).2 3 7 ids (by decide) (by decide)
      levels fun p member => hasReturned_iff.mp (List.all_eq_true.mp returned p member)
  exact ⟨reached, bytes, index, ran, saved, loaded⟩

/-- Insert 3 is linked on its upper layer when insert 4 puts a back-link on its layer 1; then it adds
its own choice of two there. -/
def overfullSchedule : List Nat :=
  List.replicate 3 0 ++ List.replicate 17 1 ++ List.replicate 23 2 ++ List.replicate 12 3 ++
    List.replicate 20 4 ++ List.replicate 20 3

def refusal (hash : Bytes → Nat) (g : Hnsw) (walLsn : Nat) (nodes : List Node) : Option Error :=
  let file := payload g walLsn nodes ++ encode 4 (hash (payload g walLsn nodes))
  match readIndex hash file file with
  | .error e => some e
  | .ok _ => none

theorem save_eq {hash : Bytes → Nat} {g : Hnsw} {walLsn : Nat} {nodes : List Node}
    (collected : (List.range g.len).mapM g.nodes.get = some nodes) :
    g.save hash walLsn = some (payload g walLsn nodes ++ encode 4 (hash (payload g walLsn nodes))) := by
  simp only [save, collected, Option.bind_eq_bind, Option.bind_some]

theorem load_refused {hash : Bytes → Nat} (small : ∀ bytes, hash bytes < 2 ^ 32) {g : Hnsw}
    {walLsn : Nat} {nodes : List Node} {e : Error}
    (refused : refusal hash g walLsn nodes = some e) :
    Hnsw.load hash (payload g walLsn nodes ++ encode 4 (hash (payload g walLsn nodes))) =
      .error e := by
  rw [load_framed small]
  unfold refusal at refused
  dsimp only at refused
  split at refused
  · rename_i failed
    rw [failed]
    cases refused
    rfl
  · cases refused

/-- All five inserts have returned, node 3 has three links on layer 1 where two are allowed,
and the snapshot that `save` writes is refused by `load`. -/
theorem concurrent_build_overfull :
    ∃ reached node list bytes,
      (startPool lineIndex lineCalls).runs (handle lineDistances) overfullSchedule =
        some reached ∧
      (∀ p ∈ reached.threads, ∃ result, p = .ret result) ∧
      reached.state.nodes.get 3 = some node ∧ node.links[1]? = some list ∧
      reached.state.config.maxDegree 1 < list.length ∧
      reached.state.save Crc32.hash 0 = some bytes ∧
      Hnsw.load Crc32.hash bytes = .error (.corrupt "snapshot: absurd degree") := by
  have ends : (((startPool lineIndex lineCalls).runs (handle lineDistances)
      overfullSchedule).map fun reached => (reached.threads.all hasReturned,
        reached.state.config.maxDegree 1, (reached.state.nodes.get 3).bind (·.links[1]?),
        ((List.range reached.state.len).mapM reached.state.nodes.get).map
          (refusal Crc32.hash reached.state 0))) =
      some (true, 2, some [4, 2, 1], some (some (.corrupt "snapshot: absurd degree"))) := by
    decide +kernel
  obtain ⟨reached, ran, facts⟩ := Option.map_eq_some_iff.mp ends
  simp only [Prod.mk.injEq] at facts
  obtain ⟨returned, max, links, snapshot⟩ := facts
  obtain ⟨node, held, present⟩ := Option.bind_eq_some_iff.mp links
  obtain ⟨nodes, collected, refused⟩ := Option.map_eq_some_iff.mp snapshot
  refine ⟨reached, node, [4, 2, 1], _, ran, fun p member =>
    hasReturned_iff.mp (List.all_eq_true.mp returned p member), held, present, ?_,
    save_eq collected, load_refused Crc32.hash_lt refused⟩
  rw [max]
  decide

end Hnsw

end Vektordb
