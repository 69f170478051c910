import Vektordb.Db.History
import Vektordb.Db.Reopening

/-!
Any number of calls at once, in any order of their actions. What they have stored stays, each row at
an id of its own; when all of them have returned the database is at rest again, and its rows are
those it had before and then those of the calls, one call after the other.
-/

namespace Vektordb

open Interaction LittleEndian VectorStore

namespace Db

variable {env : Env} {w : World} {threads : List Thread} {careful : Prop} {schedule : List Nat}
  {after : Pool sig Shared Response}

/-! ### Every run -/

/-- Where the thread of an agent ends. -/
def Finishes (env : Env) (w : World) (threads : List Thread) (careful : Prop) (i : Nat) (t : Shared)
    (response : Response) : Prop :=
  ∃ thread, threads[i]? = some thread ∧
    Ended env (crewOf env w threads careful) i (Standing.start i (atRest env w)) thread t response

theorem service_guarded (levels : Env.Level env) (ready : Ready env w) (threads : List Thread)
    (careful : Prop) :
    ((service env w threads).beside (idleLedger env w)).Guarded (noted env)
      (sharing env (crewOf env w threads careful)) (Finishes env w threads careful) := by
  have kept : Consistent env (crewOf env w threads careful) (atRest env w).1
      (atRest env w).2 := ready.consistent threads careful
  refine ⟨kept, ?_⟩
  intro i p atAgent
  change (threads.map (Thread.run env w.db))[i]? = some p at atAgent
  rw [List.getElem?_map] at atAgent
  obtain ⟨thread, isThread, rfl⟩ := Option.map_eq_some_iff.mp atAgent
  have secure := thread_secure levels thread ?_ ?_ (idle_start i (atRest env w)) kept
    (ready.stands _ i)
  · exact secure.mono fun t response _ ended => ⟨thread, isThread, ended⟩
  · rintro request rfl
    exact ⟨⟨request, isThread⟩, fun writes => ⟨request, isThread, writes⟩⟩
  · rintro visited rfl ⟨request, isClient⟩
    rw [isThread] at isClient
    cases isClient

structure Reached (env : Env) (w : World) (threads : List Thread) (careful : Prop)
    (schedule : List Nat) (after : Pool sig Shared Response) : Prop where
  guarded : after.Guarded (noted env) (sharing env (crewOf env w threads careful))
    (Finishes env w threads careful)
  settled : ∀ x, Settled (atRest env w) x → SameRow x (atRest env w) after.state
  idle : ∀ i, i ∉ schedule →
    Relies (crewOf env w threads careful) i (atRest env w) after.state
  inside : ∀ i ∈ schedule, i < threads.length
  length : after.threads.length = threads.length

theorem reached (levels : Env.Level env) (ready : Ready env w)
    (ran : ((service env w threads).beside (idleLedger env w)).runs (noted env) schedule = some after)
    (assumed : ((service env w threads).beside (idleLedger env w)).Meets (noted env)
      (sharing env (crewOf env w threads careful)).assumes schedule) :
    Reached env w threads careful schedule after := by
  have guarded := service_guarded levels ready threads careful
  constructor
  case guarded => exact guarded.runs ran assumed
  case settled =>
      intro x settled
      have same := guarded.runs_rel (r := fun s t => Settled s x → SameRow x s t)
        (fun s _ => SameRow.refl x s) ?_ ?_ ran assumed
      · exact same settled
      · intro s t u first second here
        exact (first here).trans (second ((first here).settled here))
      · intro i s t _ guarantees here
        exact Guarantees.rows guarantees x (.inr here)
  case idle => exact fun i apart => guarded.idle ran assumed apart
  case inside =>
      intro i acts
      have inside := Pool.runs_mem ran acts
      rwa [show ((service env w threads).beside (idleLedger env w)).threads.length = threads.length from
        List.length_map ..] at inside
  case length =>
      rw [Pool.runs_length ran]
      exact List.length_map ..

theorem reached_plain (levels : Env.Level env) (ready : Ready env w)
    {plain : Pool sig World Response}
    (ran : (service env w threads).runs (handle env) schedule = some plain) :
    ∃ later, Reached env w threads False schedule (plain.beside later) := by
  obtain ⟨later, noted⟩ := Pool.runs_beside ran note (idleLedger env w)
  exact ⟨later, reached levels ready noted
    (Pool.Meets.always (fun _ _ _ impossible => impossible.elim) _ _)⟩

/-! ### What calls have stored -/

/-- Consecutive rows that are stored, linked and, if there is a codebook, encoded. -/
structure Preserved (env : Env) (w : World) (base : Nat) (rows : List Row) (x : Nat) : Prop where
  inside : x < w.store.count
  row : rows[x - base]? = some (w.row x)
  linked : (w.index.nodes.get x).isSome = true
  coded : ∀ state, w.pq = some state → HasCode env state x (w.row x)

variable {i j : Nat} {request : Request} {response : Response} {crew : Crew} {s : Shared}
  {st next : Standing} {base : Nat} {rows : List Row}

theorem Leaves.preserved (kept : Consistent env crew s.1 s.2) (leaves : Leaves env crew i st base rows next s)
    {x : Nat} (inside : InBatch base rows.length x) : Preserved env s.1 base rows x := by
  have stands := leaves.stands
  obtain ⟨low, high⟩ := inside
  have at_ : rows[x - base]? = some rows[x - base] := List.getElem?_eq_getElem (by omega)
  have isRow : next.rows x = some rows[x - base] := by
    rw [leaves.content x, if_pos ⟨low, high⟩, at_]
  have isSome : (next.rows x).isSome = true := by
    rw [isRow]
    rfl
  have owner := (stands.owned x).mpr isSome
  have below := getElem?_of_lt owner
  rw [kept.assigned.owners] at below
  have complete : ¬ s.2.uncoded x := fun uncoded =>
    leaves.idle.coded x ((stands.uncoded x isSome).mp uncoded)
  constructor
  case inside => exact below
  case row =>
      rw [stands.rows x _ isRow]
      exact at_
  case linked => exact kept.assigned.nodes x below complete
  case coded => exact fun state trained => (kept.coded state trained).codes x below complete

namespace Reached

theorem served (reached : Reached env w threads careful schedule after)
    (client : threads[i]? = some (.client request))
    (returned : after.threads[i]? = some (.ret response)) :
    Served env (crewOf env w threads careful) i (Standing.start i (atRest env w)) request
      after.state response := by
  obtain ⟨thread, isThread, ended⟩ := reached.guarded.returned returned
  rw [client] at isThread
  cases isThread
  exact ended

theorem new (reached : Reached env w threads careful schedule after) (ready : Ready env w)
    (leaves : Leaves env (crewOf env w threads careful) i (Standing.start i (atRest env w)) base rows
      next after.state) {x : Nat} (inside : InBatch base rows.length x) : w.store.count ≤ x := by
  by_contra below
  have settled : Settled (atRest env w) x := by
    refine ⟨?_, fun uncoded => uncoded⟩
    change x < w.owners.length
    rw [ready.owners]
    exact Nat.lt_of_not_le below
  have same := (reached.settled x settled).owner
  have isRow : (next.rows x).isSome = true := by
    rw [leaves.content x, if_pos inside, List.getElem?_eq_getElem (by
      have low := inside.1
      have high := inside.2
      omega)]
    rfl
  have owner := (leaves.stands.owned x).mpr isRow
  rw [same] at owner
  have noRow := leaves.new x inside
  have before := ((ready.stands (crewOf env w threads careful) i).owned x).mp owner
  rw [noRow] at before
  cases before

theorem before (reached : Reached env w threads careful schedule after) (ready : Ready env w) {x : Nat}
    (below : x < w.store.count) :
    x < after.state.1.store.count ∧ after.state.1.row x = w.row x := by
  have settled : Settled (atRest env w) x := by
    refine ⟨?_, fun uncoded => uncoded⟩
    change x < w.owners.length
    rw [ready.owners]
    exact below
  have same := reached.settled x settled
  have inside := (same.settled settled).1
  rw [reached.guarded.inv.assigned.owners] at inside
  exact ⟨inside, same.row⟩

theorem apart {st' next' : Standing} {base' : Nat} {rows' : List Row} {crew' : Crew}
    (leaves : Leaves env crew i st base rows next s) (leaves' : Leaves env crew' j st' base' rows' next' s)
    {x : Nat} (inside : InBatch base rows.length x) (inside' : InBatch base' rows'.length x) :
    i = j := by
  have owner : s.1.owners[x]? = some i := by
    apply (leaves.stands.owned x).mpr
    rw [leaves.content x, if_pos inside, List.getElem?_eq_getElem (by
      have low := inside.1
      have high := inside.2
      omega)]
    rfl
  have owner' : s.1.owners[x]? = some j := by
    apply (leaves'.stands.owned x).mpr
    rw [leaves'.content x, if_pos inside', List.getElem?_eq_getElem (by
      have low := inside'.1
      have high := inside'.2
      omega)]
    rfl
  exact Option.some.inj (owner.symm.trans owner')

theorem places (reached : Reached env w threads careful schedule after) :
    ∃ place : Nat → Nat × List Row, ∀ i request response,
      threads[i]? = some (.client request) → after.threads[i]? = some (.ret response) →
        Stores w.db request response (place i).1 (place i).2 ∧
          ∃ next, Leaves env (crewOf env w threads careful) i (Standing.start i (atRest env w))
            (place i).1 (place i).2 next after.state := by
  have each : ∀ i, ∃ p : Nat × List Row, ∀ request response,
      threads[i]? = some (.client request) → after.threads[i]? = some (.ret response) →
        Stores w.db request response p.1 p.2 ∧
          ∃ next, Leaves env (crewOf env w threads careful) i (Standing.start i (atRest env w))
            p.1 p.2 next after.state := ?_
  · choose place placed using each
    exact ⟨place, placed⟩
  intro i
  by_cases called : ∃ request response, threads[i]? = some (.client request) ∧
      after.threads[i]? = some (.ret response)
  · obtain ⟨request, response, client, returned⟩ := called
    obtain ⟨base, rows, next, stores, leaves⟩ := (reached.served client returned).leaves
    refine ⟨(base, rows), ?_⟩
    intro request' response' client' returned'
    rw [client] at client'
    rw [returned] at returned'
    cases client'
    cases returned'
    exact ⟨stores, next, leaves⟩
  · refine ⟨(0, []), ?_⟩
    intro request response client returned
    exact absurd ⟨request, response, client, returned⟩ called

end Reached

/-- Whatever calls run at once, in any order of their actions: the rows of a call that has returned
are new, stored as they were given, linked and, if there is a codebook, encoded; no two calls share
one; and the rows that were there before are as they were. -/
theorem concurrent_calls_keep (levels : Env.Level env) (ready : Ready env w)
    {plain : Pool sig World Response}
    (ran : (service env w threads).runs (handle env) schedule = some plain) :
    (∃ place : Nat → Nat × List Row,
      (∀ i request response, threads[i]? = some (.client request) →
        plain.threads[i]? = some (.ret response) →
          Stores w.db request response (place i).1 (place i).2 ∧
          (∀ x, InBatch (place i).1 (place i).2.length x →
            w.store.count ≤ x ∧ Preserved env plain.state (place i).1 (place i).2 x) ∧
          ∀ j request' response', threads[j]? = some (.client request') →
            plain.threads[j]? = some (.ret response') → ∀ x,
              InBatch (place i).1 (place i).2.length x → InBatch (place j).1 (place j).2.length x →
                i = j)) ∧
      ∀ x < w.store.count, plain.state.row x = w.row x := by
  obtain ⟨later, reached⟩ := reached_plain levels ready ran
  obtain ⟨place, placed⟩ := reached.places
  have kept := reached.guarded.inv
  refine ⟨⟨place, ?_⟩, ?_⟩
  · intro i request response client returned
    obtain ⟨stores, next, leaves⟩ := placed i request response client returned
    refine ⟨stores, ?_, ?_⟩
    · intro x inside
      exact ⟨reached.new ready leaves inside, leaves.preserved kept inside⟩
    · intro j request' response' client' returned' x inside inside'
      obtain ⟨-, next', leaves'⟩ := placed j request' response' client' returned'
      exact Reached.apart leaves leaves' inside inside'
  · exact fun x below => (reached.before ready below).2

/-! ### An example: two inserts -/

theorem plain_levels : Env.Level plain := fun _ _ => Nat.zero_lt_succ 254

def plainNew : World :=
  (plainOpen true (newDirectory none)).stateOr (World.start (newDirectory none))

theorem plain_new : plainOpen true (newDirectory none) = .done plainNew (.ok ()) :=
  Outcome.done_stateOr (by decide +kernel) _

theorem plain_ready : Ready plain plainNew :=
  (((intact_new plain none).open plain_levels (plainOptions true) (fun _ => VisitedSet.new) 1).run_post
    plain_new).2 rfl

def answers {σ : Type} (pool : Pool sig σ Response) : List (Option Response) :=
  pool.threads.map fun thread => match thread with
    | .ret response => some response
    | _ => none

theorem answers_some {σ : Type} {pool : Pool sig σ Response} {response : Response}
    (returned : (answers pool)[i]? = some (some response)) :
    pool.threads[i]? = some (.ret response) := by
  unfold answers at returned
  rw [List.getElem?_map] at returned
  obtain ⟨thread, atAgent, isAnswer⟩ := Option.map_eq_some_iff.mp returned
  rw [atAgent]
  cases thread with
  | ret value =>
      cases isAnswer
      rfl
  | spin => cases isAnswer
  | act op next => cases isAnswer

def plainPair : List Thread :=
  [.client (.insert [F32.ofNat 1] VisitedSet.new), .client (.insert [F32.ofNat 2] VisitedSet.new)]

/-- Both take the maintenance lock; then the first stores its row and links it while the second
waits for the log. -/
def plainTurns : List Nat := [0, 1, 0, 0, 0, 0, 0, 1, 0, 1, 0, 1, 0, 1, 0, 1, 0, 1, 0, 1, 0, 1] ++
  List.replicate 11 1

def servedBy (env : Env) (w : World) (threads : List Thread) (schedule : List Nat) :
    Pool sig World Response :=
  ((service env w threads).runs (handle env) schedule).getD (service env w threads)

theorem served_by {env : Env} {w : World} {threads : List Thread} {schedule : List Nat}
    (ran : ((service env w threads).runs (handle env) schedule).isSome = true) :
    (service env w threads).runs (handle env) schedule = some (servedBy env w threads schedule) := by
  obtain ⟨pool, done⟩ := Option.isSome_iff_exists.mp ran
  unfold servedBy
  rw [done]
  rfl

abbrev plainServed (threads : List Thread) (schedule : List Nat) : Pool sig World Response :=
  servedBy plain plainNew threads schedule

theorem plain_served (threads : List Thread) (schedule : List Nat)
    (ran : ((service plain plainNew threads).runs (handle plain) schedule).isSome = true) :
    (service plain plainNew threads).runs (handle plain) schedule =
      some (plainServed threads schedule) := served_by ran

end Db

end Vektordb
