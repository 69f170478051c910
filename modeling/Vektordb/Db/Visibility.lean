import Vektordb.Db.Quiescence

/-!
What a call finds of the calls that have returned before it begins: their rows can be read, and its
own rows come after them. What a search finds is in the graph, at its own distance.
-/

namespace Vektordb

open Interaction LittleEndian

namespace Db

variable {env : Env} {crew : Crew} {w : World} {threads : List Thread} {careful : Prop}
  {schedule first rest : List Nat} {after : Pool sig Shared Response} {i j : Nat} {s t : Shared}
  {middle last : Pool sig World Response} {ledger : Ledger}

/-! ### Acknowledged rows -/

/-- The rows that a call asks to be stored. -/
def Request.rows (db : Db) : Request → List Row
  | .insert vector _ => [vector]
  | .addBatch batch => chunksExact db.dim batch
  | _ => []

theorem Stores.acknowledged {db : Db} {request : Request} {id base : Nat} {rows : List Row}
    (stores : Stores db request (.id (.ok id)) base rows) : base = id ∧ rows = request.rows db := by
  cases stores with
  | insert vector visited id => exact ⟨rfl, rfl⟩
  | batch batch base => exact ⟨rfl, rfl⟩

/-- A row that has been acknowledged. -/
def Kept (s : Shared) (x : Nat) (row : Row) : Prop := Settled s x ∧ s.1.row x = row

theorem kept_stable (env : Env) (crew : Crew) (i x : Nat) (row : Row) :
    (sharing env crew).Stable i fun s => Kept s x row := by
  rintro s t moved - ⟨settled, isRow⟩
  have same := Relies.rows moved x (.inr settled)
  exact ⟨same.settled settled, same.row.trans isRow⟩

theorem get_stored (w : World) {x : Nat} (below : x < w.store.count) :
    w.store.get w.file x = .ok (w.row x) := by
  unfold VectorStore.get
  exact if_neg (Nat.not_le.mpr below)

theorem get_kept {x : Nat} {row : Row} (kept : Consistent env crew s.1 s.2) (here : Kept s x row) :
    Secure (noted env) (sharing env crew) i (fun _ response => response = .row (.ok row))
      ((Request.get x).run env crew.db) s := by
  have stable := kept_stable env crew i x row
  have reads : Does (noted env) (sharing env crew) i (.get x) (fun s => Kept s x row)
      fun _ (result : Result Row) => result = .ok row := by
    apply does_read
    · exact fun _ _ => rfl
    · exact fun _ ok => .inl ok
    · rintro t keptThere ⟨settled, isRow⟩
      refine ⟨t.1.store.get t.1.file x, rfl, ?_⟩
      have inside := settled.1
      rw [keptThere.assigned.owners] at inside
      exact (get_stored t.1 inside).trans (congrArg Except.ok isRow)
  have same : ∀ result : Result Row, (sharing env crew).Stable i fun _ => result = .ok row :=
    fun _ _ _ _ _ isOk => isOk
  apply secure_answer kept (reads.secure stable same here) same
  rintro t result rfl
  rfl

theorem Leaves.kept {base : Nat} {rows : List Row} {st next : Standing}
    (leaves : Leaves env crew i st base rows next s) {x : Nat}
    (inside : InBatch base rows.length x) :
    Settled s x ∧ s.1.owners[x]? = some i := by
  have isRow : (next.rows x).isSome = true := by
    rw [leaves.content x, if_pos inside, List.getElem?_eq_getElem (by
      have low := inside.1
      have high := inside.2
      omega)]
    rfl
  have owner := (leaves.stands.owned x).mpr isRow
  refine ⟨⟨getElem?_of_lt owner, ?_⟩, owner⟩
  intro uncoded
  exact leaves.idle.coded x ((leaves.stands.uncoded x isRow).mp uncoded)

theorem Reached.acknowledged {i : Nat} {request : Request} {base k : Nat} {row : Row}
    (reached : Reached env w threads careful first (middle.beside ledger))
    (client : threads[i]? = some (.client request))
    (returned : middle.threads[i]? = some (.ret (.id (.ok base))))
    (isRow : (request.rows w.db)[k]? = some row) :
    Kept (middle.state, ledger) (base + k) row ∧ middle.state.owners[base + k]? = some i := by
  obtain ⟨base', rows, next, stores, leaves⟩ := (reached.served client returned).leaves
  obtain ⟨rfl, rfl⟩ := stores.acknowledged
  have short := (List.getElem?_eq_some_iff.mp isRow).1
  have inside : InBatch base' (request.rows w.db).length (base' + k) := ⟨by omega, by omega⟩
  obtain ⟨settled, owner⟩ := leaves.kept inside
  refine ⟨⟨settled, ?_⟩, owner⟩
  have there := (leaves.preserved reached.guarded.inv inside).row
  rw [Nat.add_sub_cancel_left] at there
  exact Option.some.inj (there.symm.trans isRow)

/-- What has been acknowledged is there for every call that begins later: reading an id returns the
row that was stored under it. -/
theorem acknowledged_rows_visible (levels : Env.Level env) (ready : Ready env w)
    {middle after : Pool sig World Response}
    (ran : (service env w threads).runs (handle env) first = some middle)
    (went : middle.runs (handle env) rest = some after) {request : Request} {base k : Nat} {row : Row}
    {response : Response} (client : threads[i]? = some (.client request))
    (acknowledged : middle.threads[i]? = some (.ret (.id (.ok base))))
    (isRow : (request.rows w.db)[k]? = some row)
    (reader : threads[j]? = some (.client (.get (base + k)))) (later : j ∉ first)
    (returned : after.threads[j]? = some (.ret response)) : response = .row (.ok row) := by
  obtain ⟨ledger, reached⟩ := reached_plain levels ready ran
  have inv := reached.guarded.inv
  have kept : Kept (middle.state, ledger) (base + k) row :=
    (reached.acknowledged client acknowledged isRow).1
  have begins : middle.threads[j]? = some ((Request.get (base + k)).run env w.db) := by
    rw [Pool.runs_idle ran later]
    change (threads.map (Thread.run env w.db))[j]? = _
    rw [List.getElem?_map, reader]
    rfl
  have guarded : (middle.beside ledger).Guarded (noted env)
      (sharing env (crewOf env w threads False))
      fun agent _ value => agent = j → value = .row (.ok row) := by
    refine ⟨inv, ?_⟩
    intro agent p atAgent
    by_cases same : agent = j
    · subst same
      have isReader : some p = some ((Request.get (base + k)).run env w.db) := atAgent.symm.trans begins
      cases isReader
      have reads : Secure (noted env) (sharing env (crewOf env w threads False)) agent
          (fun _ response => response = .row (.ok row)) ((Request.get (base + k)).run env w.db)
          (middle.state, ledger) := get_kept inv kept
      exact reads.mono fun _ _ _ isOk _ => isOk
    · exact (reached.guarded.secure agent p atAgent).mono fun _ _ _ _ isReader => absurd isReader same
  obtain ⟨final, noted⟩ := Pool.runs_beside went note ledger
  have ends := guarded.runs noted (Pool.Meets.always (fun _ _ _ impossible => impossible.elim) _ _)
  exact ends.returned returned rfl

theorem plain_went (threads : List Thread) (first rest : List Nat)
    (ran : ((service plain plainNew threads).runs (handle plain) first).isSome = true)
    (whole : ((service plain plainNew threads).runs (handle plain) (first ++ rest)).isSome =
      true) :
    (plainServed threads first).runs (handle plain) rest = some (plainServed threads (first ++ rest)) := by
  have went := plain_served threads (first ++ rest) whole
  rwa [Pool.runs_append, plain_served threads first ran, Option.bind_some] at went

/-! ### The order of calls -/

/-- Nobody comes before a complete row any more. -/
structure Passed (s t : Shared) : Prop where
  rows : ∀ x, Settled s x → SameRow x s t
  prior : ∀ y, Settled s y → ∀ x ≤ y, t.1.owners[x]? = s.1.owners[x]?

theorem Passed.refl (s : Shared) : Passed s s := ⟨fun x _ => SameRow.refl x s, fun _ _ _ _ => rfl⟩

theorem Passed.trans {u : Shared} (left : Passed s t) (right : Passed t u) : Passed s u := by
  constructor
  case rows =>
      intro x settled
      exact (left.rows x settled).trans (right.rows x ((left.rows x settled).settled settled))
  case prior =>
      intro y settled x le
      have later := (left.rows y settled).settled settled
      exact (right.prior y later x le).trans (left.prior y settled x le)

theorem Reached.onward (reached : Reached env w threads False first (middle.beside ledger))
    (went : middle.runs (handle env) rest = some last) : ∃ final,
    Consistent env (crewOf env w threads False) last.state final ∧
      Passed (middle.state, ledger) (last.state, final) := by
  obtain ⟨final, noted⟩ := Pool.runs_beside went note ledger
  have assumed : (middle.beside ledger).Meets ((handle env).noting note)
      (sharing env (crewOf env w threads False)).assumes rest :=
    Pool.Meets.always (fun _ _ _ impossible => impossible.elim) _ _
  refine ⟨final, (reached.guarded.runs noted assumed).inv, ?_⟩
  exact reached.guarded.runs_rel Passed.refl (fun _ _ _ => Passed.trans)
    (fun _ _ _ _ guarantees => ⟨fun x settled => Guarantees.rows guarantees x (.inr settled),
      Guarantees.prior guarantees⟩) noted assumed

/-- The rows of a call come after those of every call that had returned before it began. -/
theorem later_calls_come_after (levels : Env.Level env) (ready : Ready env w)
    {middle after : Pool sig World Response}
    (ran : (service env w threads).runs (handle env) first = some middle)
    (went : middle.runs (handle env) rest = some after) {earlier request : Request} {base id : Nat}
    (before : threads[i]? = some (.client earlier))
    (acknowledged : middle.threads[i]? = some (.ret (.id (.ok base))))
    (client : threads[j]? = some (.client request)) (later : j ∉ first)
    (returned : after.threads[j]? = some (.ret (.id (.ok id)))) {k l : Nat}
    (here : k < (earlier.rows w.db).length) (there : l < (request.rows w.db).length) :
    base + k < id + l := by
  obtain ⟨ledger, reached⟩ := reached_plain levels ready ran
  have settled : Settled (middle.state, ledger) (base + k) :=
    (reached.acknowledged before acknowledged (List.getElem?_eq_getElem here)).1.1
  have whole : (service env w threads).runs (handle env) (first ++ rest) = some after := by
    rw [Pool.runs_append, ran]
    exact went
  obtain ⟨final, -, passed⟩ := reached.onward went
  obtain ⟨_, reached'⟩ := reached_plain levels ready whole
  obtain ⟨id', rows', next', stores', leaves'⟩ := (reached'.served client returned).leaves
  obtain ⟨rfl, rfl⟩ := stores'.acknowledged
  have inside : InBatch id' (request.rows w.db).length (id' + l) := ⟨by omega, by omega⟩
  have owner : after.state.owners[id' + l]? = some j := (leaves'.kept inside).2
  by_contra overtaken
  have same := passed.prior (base + k) settled (id' + l) (Nat.le_of_not_lt overtaken)
  have early : w.owners[id' + l]? = some j :=
    ((reached.idle j later).owned (id' + l)).mp (same.symm.trans owner)
  have below := getElem?_of_lt early
  rw [ready.owners] at below
  exact absurd below (Nat.not_lt.mpr (reached'.new ready leaves' inside))

/-! ### Searches -/

/-- Whatever goes on meanwhile, a search finds at most `k` different rows, in the order of their
distances; each of them is in the graph, and its distance is the one from the query to the row as it
is stored. So does a search over codes that measures its candidates again. -/
theorem concurrent_searches_exact (levels : Env.Level env) (ready : Ready env w)
    {plain : Pool sig World Response}
    (ran : (service env w threads).runs (handle env) schedule = some plain) {query : Row}
    {k ef : Nat} {visited : VisitedSet} {hits : List Neighbor}
    (client : threads[i]? = some (.client (.search query k ef visited)) ∨
      ∃ rerank, rerank ≠ 0 ∧ threads[i]? = some (.client (.searchPq query k ef rerank visited)))
    (returned : plain.threads[i]? = some (.ret (.hits (.ok hits)))) :
    Hnsw.Hits (Exactly env query plain.state) k hits := by
  obtain ⟨later, reached⟩ := reached_plain levels ready ran
  rcases client with plainly | ⟨rerank, ranked, coded⟩
  · exact (reached.served plainly returned).finds
  · obtain ⟨pq, found⟩ := (reached.served coded returned).finds
    simp only [if_neg ranked] at found
    exact found

end Db

end Vektordb
