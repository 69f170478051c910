import Vektordb.Db.Program
import Vektordb.Storage.Crash
import Vektordb.Storage.Refinement
import Vektordb.Wal.Exact

/-!
Recovery. `Restores` says what a directory holds for the next process: a header that counts some
of the rows, a snapshot for some of these, and a log of the rows behind the snapshot. Opening such
a directory replays the log, and the replay either stops at a record that disagrees with the row
on file or brings store and graph to the end of the log.
-/

namespace Vektordb

open Interaction LittleEndian VectorStore

def distancesOf (env : Env) (metric : Metric) (rows : List Row) : Distances := fun a b =>
  env.kernel metric (rows.getD a []) (rows.getD b [])

def Wal.recordId : Nat × WalOp → Nat
  | (_, .insert id _) => id

def Directory.loadIndex (env : Env) (config : HnswConfig) (dir : Directory) :
    Result (Hnsw × Nat) :=
  match dir.snap with
  | some bytes => Hnsw.load env.hash bytes
  | none => (Hnsw.new config).map fun index => (index, 0)

theorem World.openIndex_ok {env : Env} {config : HnswConfig} {w : World} {index : Hnsw}
    {replayFrom : Nat} (loads : w.dir.loadIndex env config = .ok (index, replayFrom)) :
    w.openIndex env config = .ok { w with index := index, kernel := index.config.metric }
      (.ok (index.config, replayFrom)) := by
  unfold Directory.loadIndex at loads
  unfold World.openIndex
  cases saved : w.dir.snap with
  | none =>
      rw [saved] at loads
      dsimp only at loads ⊢
      rw [loads]
  | some bytes =>
      rw [saved] at loads
      dsimp only at loads ⊢
      rw [loads]

/-- The bytes are the frames of the records and a part of one more. -/
structure Logs (hash : Bytes → Nat) (bytes : Bytes) (entries : List (Nat × WalOp)) : Prop where
  encodable : ∀ entry ∈ entries, Wal.Encodable entry
  lsns : ∀ entry ∈ entries, entry.1 + 1 < 2 ^ 64
  torn : ∃ entry count, Wal.Encodable entry ∧
    count < (Wal.frame hash entry.1 entry.2).length ∧
    bytes = Wal.frames hash entries ++ (Wal.frame hash entry.1 entry.2).take count

theorem Logs.whole {hash : Bytes → Nat} {entries : List (Nat × WalOp)}
    (encodable : ∀ entry ∈ entries, Wal.Encodable entry)
    (lsns : ∀ entry ∈ entries, entry.1 + 1 < 2 ^ 64) :
    Logs hash (Wal.frames hash entries) entries := by
  refine ⟨encodable, lsns, (0, .insert 0 []), 0, ?_, ?_, ?_⟩
  · exact ⟨by decide, fun id vector same => by cases same; decide, by decide⟩
  · rw [Wal.frame_length]
    omega
  · rw [List.take_zero, List.append_nil]

theorem Logs.empty (hash : Bytes → Nat) : Logs hash [] [] := by
  change Logs hash (Wal.frames hash []) []
  apply Logs.whole
  · intro entry member
    cases member
  · intro entry member
    cases member

theorem Logs.opens {hash : Bytes → Nat} (small : ∀ bytes, hash bytes < 2 ^ 32) {bytes : Bytes}
    {entries : List (Nat × WalOp)} (logs : Logs hash bytes entries) (policy : SyncPolicy) :
    Wal.open hash policy bytes =
      (.ok (⟨policy, Wal.nextAfter 0 entries, false⟩, entries), Wal.frames hash entries) := by
  obtain ⟨entry, count, next, part, rfl⟩ := logs.torn
  exact Wal.open_torn small policy logs.encodable logs.lsns next count part

/-! ### Kills -/

namespace Db

/-- Every directory that a kill at this action may leave satisfies the condition. -/
def Keeps (env : Env) (P : Directory → Prop) (w : World) (op : Action) : Prop :=
  ∀ dir, dir = w.dir ∨ Left env w op dir → P dir

/-- An action that a kill cannot tear apart. -/
def Action.Whole : Action → Prop
  | .append _ => False
  | .walAppend _ => False
  | _ => True

theorem Keeps.whole {env : Env} {P : Directory → Prop} {w : World} {op : Action}
    (kept : P w.dir) (whole : op.Whole := by trivial) : Keeps env P w op := by
  rintro dir (rfl | left)
  · exact kept
  · cases left with
    | append => exact whole.elim
    | walAppend => exact whole.elim

variable {env : Env} {α β : Type} {P : Directory → Prop}

theorem Killed.kept {p : Prog sig α} {w : World} {post : World → α → Prop} {dir : Directory}
    (killed : Killed env p w dir) (leads : p.Leads (handle env) 0 (Keeps env P) post w)
    (final : ∀ t value, post t value → P t.dir) : P dir := by
  obtain ⟨q, t, visited, how⟩ := killed
  have there := leads.visits visited
  cases q with
  | ret value =>
      rcases how with rfl | ⟨op, next, same, -⟩
      · exact final t value there
      · cases same
  | spin => exact there.elim
  | act op next =>
      apply there.1
      rcases how with rfl | ⟨op', next', same, left⟩
      · exact .inl rfl
      · cases same
        exact .inr left

theorem leads_call {during : World → Action → Prop} {post : World → β → Prop} {action : Action}
    {f : Answer action → Prog sig β} {w t : World} {answer : Answer action}
    (here : during w action) (answered : handle env 0 w action = .ok t answer)
    (rest : (f answer).Leads (handle env) 0 during post t) :
    (call action >>= f).Leads (handle env) 0 during post w :=
  Prog.Leads.act (S := sig) here answered rest

theorem leads_attempt {during : World → Action → Prop} {mid : World → Result α → Prop}
    {post : World → Result β → Prop} {first : Prog sig (Result α)}
    {next : α → Prog sig (Result β)} {w : World}
    (leads : first.Leads (handle env) 0 during mid w)
    (succeeds : ∀ t value, mid t (.ok value) → (next value).Leads (handle env) 0 during post t)
    (fails : ∀ t e, mid t (.error e) → post t (.error e)) :
    (attempt first next).Leads (handle env) 0 during post w := by
  apply leads.bind
  intro t result reached
  cases result with
  | ok value => exact succeeds t value reached
  | error e => exact Prog.Leads.ret (fails t e reached)

/-! ### The open database -/

/-- A database in memory: the rows in its store, the graph of the first `nodes` of them, and who
holds its locks. -/
structure Live (env : Env) (config : HnswConfig) (dim : Nat) (locks : Lock → Holders)
    (nodes : Nat) (w : World) (rows : List Row) : Prop where
  locks : w.locks = locks
  pending : w.pending = []
  running : w.running = []
  stored : ∃ flushed undo, Represents dim w.store w.file rows flushed undo
  kernel : w.kernel = config.metric
  sound : Hnsw.Sound (distancesOf env config.metric rows) (env.level config.m) config nodes w.index
  nodes_le : nodes ≤ rows.length
  quantizer : ∀ state, w.pq = some state → state.pq.dim = dim
  granted : w.refusals = []

theorem distancesOf_agree {env : Env} {metric : Metric} {n : Nat} {rows more : List Row}
    (same : ∀ id < n, rows[id]? = more[id]?) :
    Hnsw.AgreeBelow n (distancesOf env metric rows) (distancesOf env metric more) := by
  intro a b belowA belowB
  simp only [distancesOf, List.getD_eq_getElem?_getD, same a belowA, same b belowB]

variable {config : HnswConfig} {dim nodes : Nat} {locks : Lock → Holders} {w : World}
  {rows : List Row}

theorem Live.sameDim (live : Live env config dim locks nodes w rows) : w.store.dim = dim := by
  obtain ⟨flushed, undo, rep⟩ := live.stored
  exact rep.sameDim

theorem Live.attached (live : Live env config dim locks nodes w rows) :
    Attached w.store w.file := by
  obtain ⟨flushed, undo, rep⟩ := live.stored
  exact rep.attached

theorem Live.count (live : Live env config dim locks nodes w rows) :
    w.store.count = rows.length := by
  obtain ⟨flushed, undo, rep⟩ := live.stored
  exact rep.count

theorem Live.holds (live : Live env config dim locks nodes w rows) :
    Holds dim w.file.image rows := by
  obtain ⟨flushed, undo, rep⟩ := live.stored
  exact rep.holds

theorem Live.header_le (live : Live env config dim locks nodes w rows) :
    headerCount w.file.image ≤ rows.length := by
  obtain ⟨flushed, undo, rep⟩ := live.stored
  rw [rep.header]
  exact rep.front.length_le

theorem Live.row (live : Live env config dim locks nodes w rows) {id : Nat} {row : Row}
    (at_ : rows[id]? = some row) : w.row id = row := by
  change w.store.getUnchecked w.file id = row
  rw [getUnchecked_eq live.attached.stride, live.sameDim]
  exact live.holds id row at_

theorem Live.agree (live : Live env config dim locks nodes w rows) :
    Hnsw.AgreeBelow rows.length (distancesOf env config.metric rows) (w.distances env) := by
  intro a b belowA belowB
  have rowA := live.row (List.getElem?_eq_getElem belowA)
  have rowB := live.row (List.getElem?_eq_getElem belowB)
  simp only [distancesOf, World.distances, live.kernel, rowA, rowB,
    List.getD_eq_getElem?_getD, List.getElem?_eq_getElem belowA, List.getElem?_eq_getElem belowB,
    Option.getD_some]

theorem Live.capacity (live : Live env config dim locks nodes w rows) :
    rows.length ≤ SegVec.CAPACITY := by
  rw [← live.count, ← CAPACITY_eq]
  exact live.attached.count_le

theorem handle_index {agent : Nat} {op : Hnsw.Action} {index : Hnsw} {answer : Hnsw.Answer op}
    (answered : Hnsw.handle (w.distances env) agent w.index op = .ok index answer) :
    handle env agent w (.index op) = .ok { w with index := index } answer := by
  simp only [handle, answered]

theorem leads_index {post : World → α → Prop} {p : Prog Hnsw.sig α} {after : Hnsw} {value : α}
    (ran : p.run (Hnsw.handle (w.distances env)) 0 w.index = .done after value) (kept : P w.dir)
    (holds : post { w with index := after } value) :
    (p.lift sig).Leads (handle env) 0 (Keeps env P) post w := by
  have step : ∀ {β : Type} (g g' : Hnsw) (op : Hnsw.Action) (answer : Hnsw.Answer op)
      (f : Hnsw.Answer op → Prog sig β) (final : World → β → Prop),
      Hnsw.handle (w.distances env) 0 g op = .ok g' answer →
      (f answer).Leads (handle env) 0 (Keeps env P) final { w with index := g' } →
      ((Supports.call (S := Hnsw.sig) (T := sig) op) >>= f).Leads (handle env) 0 (Keeps env P) final
        { w with index := g } := by
    intro β g g' op answer f final answered rest
    have same : handle env 0 { w with index := g } (.index op) =
        .ok { w with index := g' } answer :=
      handle_index (w := { w with index := g }) answered
    exact Prog.Leads.act (S := sig) (Keeps.whole kept) same rest
  exact Prog.Leads.lift (S := Hnsw.sig) (T := sig) step ran holds

theorem small_levels {level : Nat → Nat} (levels : ∀ id, level id ≤ 63) (id : Nat) :
    level id < 255 := by
  have bound := levels id
  omega

theorem Live.link (live : Live env config dim locks nodes w rows)
    (levels : ∀ id, env.level config.m id ≤ 63) (more : nodes < rows.length)
    (visited : VisitedSet) (kept : P w.dir) :
    (Hnsw.insert w.index.config nodes (env.level config.m nodes) visited).Leads (handle env) 0
      (Keeps env P) (fun t (_ : Unit) => ∃ index, t = { w with index := index } ∧
        index.config = w.index.config ∧
        Live env config dim locks (nodes + 1) t rows) w := by
  have fits := small_levels levels
  have inside : nodes < SegVec.CAPACITY := more.trans_le live.capacity
  obtain ⟨after, ran, sound⟩ := live.sound.insert inside (fits nodes)
    (live.agree.mono more) visited
  have lifted : (Hnsw.insert w.index.config nodes (env.level config.m nodes) visited :
      Prog sig Unit) = (Hnsw.insert w.index.config nodes (env.level config.m nodes)
        visited).lift sig := (Hnsw.insert_lift _ _ _ _).symm
  rw [lifted]
  exact leads_index ran kept ⟨after, rfl, live.sound.insert_config inside (fits nodes) ran,
    { live with sound := sound, nodes_le := more }⟩

/-! ### Appending a row -/

structure Appended (dim n : Nat) (w t : World) : Prop where
  frontier : Frontier dim n w.file t.file
  dir : t.dir = { w.dir with store := some t.file }
  index : t.index = w.index
  wal : t.wal = w.wal
  pq : t.pq = w.pq
  faults : t.faults = w.faults

theorem Live.append (live : Live env config dim locks nodes w rows)
    (levels : ∀ id, env.level config.m id ≤ 63) (vector : Row) :
    ∃ t result, handle env 0 w (.append vector) = .ok t result ∧ Appended dim rows.length w t ∧
      ((∃ e, result = .error e ∧ (∀ message, e ≠ .io message) ∧
          Live env config dim locks nodes t rows) ∨
        (result = .ok rows.length ∧ vector.length = dim ∧
          Live env config dim locks nodes t (rows ++ [vector]) ∧
          ∃ flushed, Represents dim t.store t.file (rows ++ [vector]) flushed true)) := by
  obtain ⟨flushed, undo, rep⟩ := live.stored
  obtain ⟨result, store, file, done⟩ : ∃ result store file,
      w.store.append w.file vector = (result, store, file) := ⟨_, _, _, rfl⟩
  have frontier := append_frontier live.attached live.sameDim live.count.ge done
  change ∃ t result, w.append 0 vector = .ok t result ∧ _
  unfold World.append
  rw [World.appendRow_granted live.granted, done]
  rcases rep.append done with ⟨e, rfl, after⟩ | ⟨rfl, after⟩
  · have notIo := (append_error live.attached done).2.2
    refine ⟨_, _, rfl, ⟨frontier, rfl, rfl, rfl, rfl, rfl⟩, .inl ⟨e, rfl, notIo, ?_⟩⟩
    exact { live with
      stored := ⟨flushed, false, after⟩
      granted := congrArg List.tail live.granted }
  · have sameLength : vector.length = dim := by
      obtain ⟨grown, mapped, -, -, ⟨e, same, -⟩ | ⟨-, sameLength, -⟩⟩ :=
        VectorStore.append_cases live.attached done
      · cases same
      · exact sameLength.trans live.sameDim
    refine ⟨_, _, rfl, ⟨frontier, rfl, rfl, rfl, rfl, rfl⟩,
      .inr ⟨rfl, sameLength, ?_, flushed, after⟩⟩
    have same : Hnsw.AgreeBelow nodes (distancesOf env config.metric rows)
        (distancesOf env config.metric (rows ++ [vector])) := by
      apply distancesOf_agree
      intro id below
      rw [List.getElem?_append_left (below.trans_le live.nodes_le)]
    refine { live with
      stored := ⟨flushed, true, after⟩
      sound := ?_
      nodes_le := ?_
      granted := congrArg List.tail live.granted }
    · exact live.sound.congr (live.nodes_le.trans live.capacity) (small_levels levels) same
    · rw [List.length_append]
      exact live.nodes_le.trans (Nat.le_add_right _ _)

theorem Live.append_room (live : Live env config dim locks nodes w rows)
    (levels : ∀ id, env.level config.m id ≤ 63) {vector : Row} (sameLength : vector.length = dim)
    (room : Reaches dim (rows.length + 1) w.file) :
    ∃ t, handle env 0 w (.append vector) = .ok t (.ok rows.length) ∧
      Appended dim rows.length w t ∧ Live env config dim locks nodes t (rows ++ [vector]) := by
  obtain ⟨t, result, answered, appended, ⟨e, rfl, -, -⟩ | ⟨rfl, -, after, -⟩⟩ :=
    live.append levels vector
  · have inside : w.store.count < CAPACITY := by
      rw [live.count]
      exact room.capacity
    have reaches : segEnd w.store.rowStride (locate w.store.count).1 ≤ w.file.len := by
      rw [live.attached.stride, live.sameDim, live.count]
      exact room.len
    obtain ⟨mapped, done, -⟩ :=
      append_ok live.attached (sameLength.trans live.sameDim.symm) inside reaches
    change w.append 0 vector = _ at answered
    unfold World.append at answered
    rw [World.appendRow_granted live.granted, done] at answered
    cases answered
  · exact ⟨t, answered, appended, after⟩

theorem Keeps.append {vector : Row} (live : Live env config dim locks nodes w rows)
    (kept : P w.dir) (torn : ∀ file, Frontier dim rows.length w.file file →
      P { w.dir with store := some file }) : Keeps env P w (.append vector) := by
  rintro dir (rfl | left)
  · exact kept
  · obtain ⟨-, store, grown, count, -, mapping⟩ := left
    apply torn
    exact torn_append_frontier live.attached live.sameDim live.count.ge mapping _

/-! ### Replay -/

/-- A directory that differs from another one only in the store file behind the first `n` rows,
and in that a torn end of the log may be cut off. -/
structure Undisturbed (hash : Bytes → Nat) (dim n : Nat) (entries : List (Nat × WalOp))
    (first dir : Directory) : Prop where
  isStored : dir.store = some dir.file
  frontier : Frontier dim n first.file dir.file
  snap : dir.snap = first.snap
  codebook : dir.codebook = first.codebook
  wal : dir.walBytes = first.walBytes ∨ dir.walBytes = Wal.frames hash entries

theorem Undisturbed.behind {hash : Bytes → Nat} {n : Nat} {entries : List (Nat × WalOp)}
    {first dir : Directory} (undisturbed : Undisturbed hash dim n entries first dir)
    {file : StoreFile} (frontier : Frontier dim n dir.file file) :
    Undisturbed hash dim n entries first { dir with store := some file } :=
  { undisturbed with
    isStored := rfl
    frontier := undisturbed.frontier.trans frontier }

theorem restoreRow_append {n : Nat} {entries : List (Nat × WalOp)} {first : Directory}
    (live : Live env config dim locks nodes w rows) (levels : ∀ id, env.level config.m id ≤ 63)
    {vector : Row} (sameLength : vector.length = dim)
    (room : Reaches dim (rows.length + 1) w.file) (le : n ≤ rows.length)
    (undisturbed : Undisturbed env.hash dim n entries first w.dir) :
    (restoreRow rows.length vector).Leads (handle env) 0
      (Keeps env (Undisturbed env.hash dim n entries first)) (fun t result => result = .ok () ∧
        Appended dim rows.length w t ∧
        Undisturbed env.hash dim n entries first t.dir ∧
        Live env config dim locks nodes t (rows ++ [vector])) w := by
  obtain ⟨t, answered, appended, after⟩ := live.append_room levels sameLength room
  have kept : Keeps env (Undisturbed env.hash dim n entries first) w (.append vector) :=
    Keeps.append live undisturbed fun file frontier => undisturbed.behind (frontier.mono le)
  have behind : Undisturbed env.hash dim n entries first t.dir := by
    rw [appended.dir]
    exact undisturbed.behind (appended.frontier.mono le)
  unfold restoreRow
  refine leads_call (Keeps.whole undisturbed) rfl ?_
  rw [if_pos live.count.symm]
  unfold attempt
  refine leads_call kept answered ?_
  exact Prog.Leads.ret ⟨rfl, appended, behind, after⟩

def disagrees (id : Nat) : Error :=
  .corrupt ("WAL vector " ++ toString id ++ " disagrees with vector store")

theorem restoreRow_compare (live : Live env config dim locks nodes w rows) {id : Nat}
    {row vector : Row} (at_ : rows[id]? = some row) (kept : P w.dir) :
    (restoreRow id vector).Leads (handle env) 0 (Keeps env P) (fun t result => t = w ∧
      result = if row.eq vector = false then .error (disagrees id) else .ok ()) w := by
  have below : id < rows.length := (List.getElem?_eq_some_iff.mp at_).1
  have counted : id < w.store.count := below.trans_eq live.count.symm
  have read : w.store.get w.file id = .ok row := by
    unfold VectorStore.get
    rw [if_neg (Nat.not_le.mpr counted)]
    exact congrArg Except.ok (live.row at_)
  unfold restoreRow
  refine leads_call (Keeps.whole kept) rfl ?_
  rw [if_neg (Nat.ne_of_lt counted), if_neg (Nat.not_lt.mpr counted.le)]
  unfold attempt
  refine leads_call (Keeps.whole kept) rfl ?_
  rw [read]
  dsimp only
  split
  · exact Prog.Leads.ret ⟨rfl, rfl⟩
  · exact Prog.Leads.ret ⟨rfl, rfl⟩

theorem restoreNode_present (live : Live env config dim locks nodes w rows) {id : Nat}
    (below : id < nodes) (loaded : HnswConfig) (scratch : Nat → VisitedSet) (kept : P w.dir) :
    (restoreNode env loaded scratch id).Leads (handle env) 0 (Keeps env P)
      (fun t result => t = w ∧ result = .ok ()) w := by
  have inside : id < w.index.len := below.trans_eq live.sound.dense.1.symm
  unfold restoreNode
  refine leads_call (Keeps.whole kept) rfl ?_
  rw [if_neg (Nat.ne_of_lt inside), if_neg (Nat.not_lt.mpr inside.le)]
  exact Prog.Leads.ret ⟨rfl, rfl⟩

theorem restoreNode_next (live : Live env config dim locks nodes w rows)
    (levels : ∀ id, env.level config.m id ≤ 63) (more : nodes < rows.length)
    (scratch : Nat → VisitedSet) (kept : P w.dir) :
    (restoreNode env w.index.config scratch nodes).Leads (handle env) 0 (Keeps env P)
      (fun t result => result = .ok () ∧ ∃ index, t = { w with index := index } ∧
        index.config = w.index.config ∧
        Live env config dim locks (nodes + 1) t rows) w := by
  have len : w.index.len = nodes := live.sound.dense.1
  have linked := live.link levels more (scratch nodes) kept
  rw [← live.sound.m] at linked
  unfold restoreNode
  refine leads_call (Keeps.whole kept) rfl ?_
  rw [if_pos len.symm]
  apply linked.bind
  intro t _ after
  exact Prog.Leads.ret ⟨rfl, after⟩

/-! ### Replaying the log

The log covers the rows below `linked`, the header counts `n` of them or of more, and the records
from `replayFrom` on are replayed. -/

/-- The records that are still to be replayed once the store has `count` rows and the graph
`nodes` nodes. -/
structure Remaining (rows : List Row) (linked n replayFrom count nodes : Nat)
    (rest : List (Nat × WalOp)) : Prop where
  ordered : rest.Pairwise fun left right => Wal.recordId left < Wal.recordId right
  agree : ∀ lsn id vector, (lsn, .insert id vector) ∈ rest → id < linked ∧
    (n ≤ id → rows[id]? = some vector)
  logged : ∀ id, nodes ≤ id → id < linked → ∃ lsn vector, (lsn, .insert id vector) ∈ rest ∧
    replayFrom ≤ lsn
  fresh : ∀ entry ∈ rest, Wal.recordId entry < count → Wal.recordId entry < n

/-- The replayed records of counted rows compare equal to the rows on file. -/
def Agrees (rows : List Row) (n replayFrom : Nat) (rest : List (Nat × WalOp)) : Prop :=
  ∀ lsn id vector, (lsn, .insert id vector) ∈ rest → replayFrom ≤ lsn → id < n →
    (rows.getD id []).eq vector = true

section Remaining

variable {linked n replayFrom count lsn id : Nat} {vector : Row} {rest : List (Nat × WalOp)}

theorem Agrees.cons_iff : Agrees rows n replayFrom ((lsn, .insert id vector) :: rest) ↔
    (replayFrom ≤ lsn → id < n → (rows.getD id []).eq vector = true) ∧
      Agrees rows n replayFrom rest := by
  constructor
  · intro all
    exact ⟨all lsn id vector (List.mem_cons_self ..), fun l i v member =>
      all l i v (List.mem_cons_of_mem _ member)⟩
  · rintro ⟨head, tail⟩ l i v member
    rcases List.mem_cons.mp member with same | old
    · cases same
      exact head
    · exact tail l i v old

theorem Remaining.skip
    (remaining : Remaining rows linked n replayFrom count nodes ((lsn, .insert id vector) :: rest))
    (covered : lsn < replayFrom) : Remaining rows linked n replayFrom count nodes rest where
  ordered := (List.pairwise_cons.mp remaining.ordered).2
  agree l i v member := remaining.agree l i v (List.mem_cons_of_mem _ member)
  logged i low high := by
    obtain ⟨l, v, member, above⟩ := remaining.logged i low high
    rcases List.mem_cons.mp member with same | old
    · cases same
      omega
    · exact ⟨l, v, old, above⟩
  fresh entry member := remaining.fresh entry (List.mem_cons_of_mem _ member)

theorem Remaining.least
    (remaining : Remaining rows linked n replayFrom count nodes
      ((lsn, .insert id vector) :: rest)) : id ≤ nodes := by
  by_contra ahead
  have inside := (remaining.agree lsn id vector (List.mem_cons_self ..)).1
  obtain ⟨l, v, member, -⟩ := remaining.logged nodes le_rfl (by omega)
  rcases List.mem_cons.mp member with same | old
  · cases same
    omega
  · have later : id < nodes := (List.pairwise_cons.mp remaining.ordered).1 _ old
    omega

theorem Remaining.next {count' nodes' : Nat}
    (remaining : Remaining rows linked n replayFrom count nodes ((lsn, .insert id vector) :: rest))
    (counted : count' = count ∨ count' = id + 1) (node : nodes ≤ nodes') (below : id < nodes') :
    Remaining rows linked n replayFrom count' nodes' rest where
  ordered := (List.pairwise_cons.mp remaining.ordered).2
  agree l i v member := remaining.agree l i v (List.mem_cons_of_mem _ member)
  logged i low high := by
    obtain ⟨l, v, member, above⟩ := remaining.logged i (node.trans low) high
    rcases List.mem_cons.mp member with same | old
    · cases same
      omega
    · exact ⟨l, v, old, above⟩
  fresh entry member before := by
    have later : id < Wal.recordId entry := (List.pairwise_cons.mp remaining.ordered).1 entry member
    rcases counted with rfl | rfl
    · exact remaining.fresh entry (List.mem_cons_of_mem _ member) before
    · omega

end Remaining

structure Replaying (env : Env) (config : HnswConfig) (dim : Nat) (first : Directory)
    (entries : List (Nat × WalOp)) (rows : List Row) (linked n count nodes : Nat) (before w : World) :
    Prop where
  live : Live env config dim (fun _ => Holders.free) nodes w (rows.take count)
  header : n ≤ count
  nodes_le : nodes ≤ linked
  count_le : count ≤ max n linked
  undisturbed : Undisturbed env.hash dim n entries first w.dir
  config : w.index.config = before.index.config
  wal : w.wal = before.wal
  log : w.dir.wal = before.dir.wal
  faults : w.faults = before.faults

section Replaying

variable {first : Directory} {entries rest : List (Nat × WalOp)} {before : World}
  {linked n replayFrom count lsn id : Nat} {vector : Row}

theorem Replaying.row (replaying : Replaying env config dim first entries rows linked n count nodes
      before w)
    (remaining : Remaining rows linked n replayFrom count nodes ((lsn, .insert id vector) :: rest))
    (levels : ∀ id, env.level config.m id ≤ 63) (lengths : ∀ row ∈ rows, row.length = dim)
    (room : Reaches dim rows.length first.file) (whole : linked ≤ rows.length ∧ n ≤ rows.length) :
    (restoreRow id vector).Leads (handle env) 0
      (Keeps env (Undisturbed env.hash dim n entries first)) (fun t result =>
        (result = .ok () ∧ (id < n → (rows.getD id []).eq vector = true) ∧
          ∃ count', (count' = count ∨ count' = id + 1) ∧ id < count' ∧
            Replaying env config dim first entries rows linked n count' nodes before t) ∨
        (result = .error (disagrees id) ∧ id < n ∧ (rows.getD id []).eq vector = false ∧
          Undisturbed env.hash dim n entries first t.dir)) w := by
  have live := replaying.live
  have least := remaining.least
  have inside := remaining.agree lsn id vector (List.mem_cons_self ..)
  have taken : (rows.take count).length = count := by
    have bound := replaying.count_le
    rw [List.length_take]
    omega
  have nodesCounted : nodes ≤ count := live.nodes_le.trans_eq taken
  rcases Nat.lt_or_ge id count with old | ahead
  · -- The row is on file, from an earlier process or from this replay.
    have below : id < rows.length := by omega
    have at_ : (rows.take count)[id]? = some rows[id] := by
      rw [List.getElem?_take_of_lt old, List.getElem?_eq_getElem below]
    have same : rows.getD id [] = rows[id] := by
      rw [List.getD_eq_getElem?_getD, List.getElem?_eq_getElem below, Option.getD_some]
    have counted : id < n := remaining.fresh _ (List.mem_cons_self ..) old
    apply (restoreRow_compare live at_ replaying.undisturbed).mono
    rintro t result ⟨rfl, rfl⟩
    rw [same]
    split
    · rename_i differs
      exact .inr ⟨rfl, counted, differs, replaying.undisturbed⟩
    · rename_i agrees
      exact .inl ⟨rfl, fun _ => eq_true_of_ne_false agrees, count, .inl rfl, old, replaying⟩
  · obtain rfl : id = count := by omega
    have at_ : rows[id]? = some vector := inside.2 replaying.header
    have sameLength : vector.length = dim := lengths vector (List.mem_of_getElem? at_)
    have longer : Reaches dim ((rows.take id).length + 1) w.file := by
      have frontier := replaying.undisturbed.frontier
      rw [taken]
      exact (room.longer frontier.len frontier.small).mono (by omega)
    have appends := restoreRow_append live levels sameLength longer
      (replaying.header.trans taken.ge) replaying.undisturbed
    have extended : rows.take id ++ [vector] = rows.take (id + 1) := by
      rw [List.take_add_one, at_]
      rfl
    rw [taken, extended] at appends
    apply appends.mono
    rintro t result ⟨rfl, appended, undisturbed, after⟩
    refine .inl ⟨rfl, fun counted => ?_, id + 1, .inr rfl, Nat.lt_succ_self id, ?_⟩
    · have header := replaying.header
      omega
    · refine ⟨after, replaying.header.trans (Nat.le_succ id), replaying.nodes_le, by omega,
        undisturbed, ?_, appended.wal.trans replaying.wal, ?_,
        appended.faults.trans replaying.faults⟩
      · rw [appended.index, replaying.config]
      · rw [appended.dir]
        exact replaying.log

theorem Replaying.node (replaying : Replaying env config dim first entries rows linked n count nodes
      before w)
    (levels : ∀ id, env.level config.m id ≤ 63) (least : id ≤ nodes) (inside : id < linked)
    (stored : id < (rows.take count).length) (scratch : Nat → VisitedSet) :
    (restoreNode env before.index.config scratch id).Leads (handle env) 0
      (Keeps env (Undisturbed env.hash dim n entries first)) (fun t result => result = .ok () ∧
        ∃ nodes', nodes ≤ nodes' ∧ id < nodes' ∧
          Replaying env config dim first entries rows linked n count nodes' before t) w := by
  rcases Nat.lt_or_eq_of_le least with old | rfl
  · apply (restoreNode_present replaying.live old _ scratch replaying.undisturbed).mono
    rintro t result ⟨rfl, rfl⟩
    exact ⟨rfl, nodes, le_rfl, old, replaying⟩
  · have next := restoreNode_next replaying.live levels stored scratch replaying.undisturbed
    rw [replaying.config] at next
    apply next.mono
    rintro t result ⟨rfl, index, rfl, sameConfig, after⟩
    exact ⟨rfl, id + 1, Nat.le_succ id, Nat.lt_succ_self id, after, replaying.header, inside,
      replaying.count_le, replaying.undisturbed, sameConfig, replaying.wal,
      replaying.log, replaying.faults⟩

/-- The replay goes through to the end of the log, or stops at a record that disagrees. -/
theorem Replaying.replay (replaying : Replaying env config dim first entries rows linked n count
      nodes before w)
    (remaining : Remaining rows linked n replayFrom count nodes rest)
    (levels : ∀ id, env.level config.m id ≤ 63) (lengths : ∀ row ∈ rows, row.length = dim)
    (room : Reaches dim rows.length first.file) (whole : linked ≤ rows.length ∧ n ≤ rows.length)
    (scratch : Nat → VisitedSet) :
    (replay env before.index.config scratch replayFrom rest).Leads (handle env) 0
      (Keeps env (Undisturbed env.hash dim n entries first)) (fun t result =>
        (Agrees rows n replayFrom rest ∧ result = .ok () ∧
          Replaying env config dim first entries rows linked n (max n linked) linked before t) ∨
        (¬ Agrees rows n replayFrom rest ∧ (∃ id, result = .error (disagrees id)) ∧
          Undisturbed env.hash dim n entries first t.dir)) w := by
  induction rest generalizing count nodes w with
  | nil =>
      have all : nodes = linked := by
        have bound := replaying.nodes_le
        by_contra missing
        obtain ⟨l, v, member, -⟩ := remaining.logged nodes le_rfl (by omega)
        cases member
      have counted : count = max n linked := by
        have bound := replaying.count_le
        have header := replaying.header
        have stored := replaying.live.nodes_le.trans (List.length_take_le _ _)
        omega
      subst all counted
      exact Prog.Leads.ret (.inl ⟨nofun, rfl, replaying⟩)
  | cons head rest ih =>
      obtain ⟨lsn, ⟨id, vector⟩⟩ := head
      rw [Agrees.cons_iff]
      unfold Db.replay
      by_cases covered : lsn < replayFrom
      · rw [if_pos covered]
        apply (ih replaying (remaining.skip covered)).mono
        have here : replayFrom ≤ lsn → id < n → (rows.getD id []).eq vector = true := by omega
        intro t result
        rw [and_iff_right here]
        exact fun done => done
      · rw [if_neg covered]
        have inside := (remaining.agree lsn id vector (List.mem_cons_self ..)).1
        apply leads_attempt (replaying.row remaining levels lengths room whole)
        · rintro t ⟨⟩ (⟨-, here, count', counted, stored, after⟩ | ⟨same, -⟩)
          · have onFile : id < (rows.take count').length := by
              rw [List.length_take]
              omega
            apply leads_attempt (after.node levels remaining.least inside onFile scratch)
            · rintro u ⟨⟩ ⟨-, nodes', node, below, later⟩
              apply (ih later (remaining.next counted node below)).mono
              intro v result
              rw [and_iff_right fun _ => here]
              exact fun done => done
            · rintro u e ⟨same, -⟩
              cases same
          · cases same
        · rintro t e (⟨same, -⟩ | ⟨same, counted, differs, undisturbed⟩)
          · cases same
          · refine .inr ⟨fun all => ?_, ⟨id, same⟩, undisturbed⟩
            rw [all.1 (Nat.le_of_not_lt covered) counted] at differs
            cases differs

end Replaying

/-! ### Opening -/

/-- A directory from which the first `linked` of the rows come back by the snapshot and the log;
the header may count more of them than that. -/
structure Restores (env : Env) (config : HnswConfig) (dim : Nat) (dir : Directory)
    (rows : List Row) (linked : Nat) (index : Hnsw) (replayFrom : Nat)
    (entries : List (Nat × WalOp)) : Prop where
  isStored : dir.store = some dir.file
  counts : Counts dim dir.file.image rows index.len
  reaches : Reaches dim rows.length dir.file
  lengths : ∀ row ∈ rows, row.length = dim
  loads : dir.loadIndex env config = .ok (index, replayFrom)
  sound : Hnsw.Sound (distancesOf env config.metric rows) (env.level config.m) config index.len
    index
  logs : Logs env.hash dir.walBytes entries
  ordered : entries.Pairwise fun left right => Wal.recordId left < Wal.recordId right
  agree : ∀ lsn id vector, (lsn, .insert id vector) ∈ entries → id < linked ∧
    (headerCount dir.file.image ≤ id → rows[id]? = some vector)
  logged : ∀ id, index.len ≤ id → id < linked → ∃ lsn vector,
    (lsn, .insert id vector) ∈ entries ∧ replayFrom ≤ lsn
  covered : index.len ≤ linked
  length : rows.length = max (headerCount dir.file.image) linked
  codebook : ∀ raw, dir.codebook = some raw → ∃ pq, Pq.loadCodebook env.hash raw = .ok pq ∧
    pq.dim = dim

structure Opened (env : Env) (config : HnswConfig) (dim : Nat) (opts : DbOptions)
    (first : Directory) (rows : List Row) (linked replayFrom : Nat)
    (entries : List (Nat × WalOp)) (w : World) : Prop where
  live : Live env config dim (fun _ => Holders.free) linked w rows
  undisturbed : Undisturbed env.hash dim (headerCount first.file.image) entries first w.dir
  wal : w.wal = if opts.enableWal then
    some ⟨opts.sync, max (Wal.nextAfter 0 entries) replayFrom, false⟩ else none
  log : opts.enableWal = true → w.dir.walBytes = Wal.frames env.hash entries
  faults : w.faults = []

def lengthMismatch (nodes rows : Nat) : Error :=
  .corrupt ("index/store length mismatch: index has " ++ toString nodes ++ ", store has " ++
    toString rows)

section Restores

variable {dir : Directory} {linked replayFrom : Nat} {index : Hnsw}
  {entries : List (Nat × WalOp)}

theorem Restores.header_le (restores : Restores env config dim dir rows linked index replayFrom
    entries) : headerCount dir.file.image ≤ rows.length := by
  have length := restores.length
  omega

structure Attaching (dir : Directory) (w : World) : Prop where
  dir : w.dir = dir
  locks : w.locks = fun _ => Holders.free
  pending : w.pending = []
  running : w.running = []
  wal : w.wal = none
  pq : w.pq = none
  faults : w.faults = []
  granted : w.refusals = []

theorem Restores.attachStore (restores : Restores env config dim dir rows linked index replayFrom
      entries) :
    ∃ t, handle env 0 (World.start dir) (.openStore dim) = .ok t (.ok dim) ∧ Attaching dir t ∧
      Represents dim t.store t.file (rows.take (headerCount dir.file.image))
        (rows.take (headerCount dir.file.image)) false := by
  obtain ⟨mapped, opened, attached⟩ := open_ok restores.counts.formatted
    (restores.reaches.mono restores.header_le)
  have counted : (rows.take (headerCount dir.file.image)).length = headerCount dir.file.image :=
    List.length_take_of_le restores.header_le
  change ∃ t, (World.start dir).openStore dim = .ok t (.ok dim) ∧ _
  unfold World.openStore
  rw [show (World.start dir).dir.store = some dir.file from restores.isStored]
  dsimp only
  rw [opened]
  refine ⟨_, rfl, ⟨rfl, rfl, rfl, rfl, rfl, rfl, rfl, rfl⟩, ?_⟩
  exact ⟨rfl, counted.symm, attached, restores.counts.formatted, restores.counts.holds,
    counted.symm, List.prefix_rfl, nofun⟩

theorem Restores.attachIndex (restores : Restores env config dim dir rows linked index replayFrom
      entries) {t : World} (attaching : Attaching dir t)
    (stored : Represents dim t.store t.file (rows.take (headerCount dir.file.image))
        (rows.take (headerCount dir.file.image)) false)
    (levels : ∀ id, env.level config.m id ≤ 63) :
    ∃ u, handle env 0 t (.openIndex config) = .ok u (.ok (index.config, replayFrom)) ∧
      Attaching dir u ∧ u.index = index ∧
      Live env config dim (fun _ => Holders.free) index.len u
        (rows.take (headerCount dir.file.image)) := by
  have counted : (rows.take (headerCount dir.file.image)).length = headerCount dir.file.image :=
    List.length_take_of_le restores.header_le
  have same : Hnsw.AgreeBelow index.len (distancesOf env config.metric rows)
      (distancesOf env config.metric (rows.take (headerCount dir.file.image))) := by
    apply distancesOf_agree
    intro id below
    rw [List.getElem?_take_of_lt (below.trans_le restores.counts.least)]
  have inside : index.len ≤ SegVec.CAPACITY := by
    rw [← CAPACITY_eq]
    exact restores.counts.least.trans (restores.header_le.trans restores.reaches.capacity)
  have loads := restores.loads
  rw [← attaching.dir] at loads
  refine ⟨_, World.openIndex_ok loads, ⟨attaching.dir, attaching.locks, attaching.pending,
    attaching.running, attaching.wal, attaching.pq, attaching.faults, attaching.granted⟩, rfl, ?_⟩
  refine ⟨attaching.locks, attaching.pending, attaching.running, ⟨_, false, stored⟩,
    restores.sound.metric, restores.sound.congr inside (small_levels levels) same, ?_, ?_,
    attaching.granted⟩
  · rw [counted]
    exact restores.counts.least
  · intro state trained
    have nothing : t.pq = some state := trained
    rw [attaching.pq] at nothing
    cases nothing

def Recovered (env : Env) (config : HnswConfig) (dim : Nat) (opts : DbOptions) (dir : Directory)
    (rows : List Row) (linked replayFrom : Nat) (entries : List (Nat × WalOp)) (t : World)
    (result : Result Unit) : Prop :=
  (Agrees rows (headerCount dir.file.image) replayFrom entries ∧ result = .ok () ∧
    Opened env config dim opts dir rows linked replayFrom entries t) ∨
  (¬ Agrees rows (headerCount dir.file.image) replayFrom entries ∧
    (∃ id, result = .error (disagrees id)) ∧
    Undisturbed env.hash dim (headerCount dir.file.image) entries dir t.dir)

theorem Restores.undisturbed (restores : Restores env config dim dir rows linked index replayFrom
      entries) : Undisturbed env.hash dim (headerCount dir.file.image) entries dir dir :=
  ⟨restores.isStored, Frontier.refl .., rfl, rfl, .inl rfl⟩

theorem Restores.remaining (restores : Restores env config dim dir rows linked index replayFrom
      entries) :
    Remaining rows linked (headerCount dir.file.image) replayFrom (headerCount dir.file.image)
      index.len entries :=
  ⟨restores.ordered, restores.agree, restores.logged, fun _ _ below => below⟩

theorem Restores.openWal (restores : Restores env config dim dir rows linked index replayFrom
      entries) {u : World} (attaching : Attaching dir u) (policy : SyncPolicy) :
    handle env 0 u (.openWal policy replayFrom) =
      .ok { u with
        dir := { u.dir with wal := some (Wal.frames env.hash entries) }
        wal := some ⟨policy, max (Wal.nextAfter 0 entries) replayFrom, false⟩ } (.ok entries) := by
  have opens := restores.logs.opens env.hash_lt policy
  rw [← attaching.dir] at opens
  change u.openWal env policy replayFrom = _
  unfold World.openWal
  rw [opens]
  rfl

theorem Restores.unlogged (restores : Restores env config dim dir rows linked index replayFrom
      entries) (nothing : dir.walBytes = []) : entries = [] ∧ linked = index.len := by
  obtain ⟨entry, count, -, -, bytes⟩ := restores.logs.torn
  have none : Wal.frames env.hash entries = [] := by
    rw [nothing] at bytes
    exact (List.append_eq_nil_iff.mp bytes.symm).1
  have empty : entries = [] := by
    have few := Wal.length_le_frames env.hash entries
    rw [none] at few
    exact List.length_eq_zero_iff.mp (Nat.le_zero.mp few)
  refine ⟨empty, ?_⟩
  by_contra missing
  have covered := restores.covered
  obtain ⟨lsn, vector, member, -⟩ := restores.logged index.len le_rfl (by omega)
  rw [empty] at member
  cases member

theorem Restores.recover (restores : Restores env config dim dir rows linked index replayFrom
      entries) {u : World} (attaching : Attaching dir u) (sameIndex : u.index = index)
    (live : Live env config dim (fun _ => Holders.free) index.len u
        (rows.take (headerCount dir.file.image)))
    (levels : ∀ id, env.level config.m id ≤ 63) (opts : DbOptions) (scratch : Nat → VisitedSet) :
    (recover env opts scratch index.config replayFrom).Leads (handle env) 0
      (Keeps env (Undisturbed env.hash dim (headerCount dir.file.image) entries dir))
      (Recovered env config dim opts dir rows linked replayFrom entries) u := by
  have start : Undisturbed env.hash dim (headerCount dir.file.image) entries dir u.dir := by
    rw [attaching.dir]
    exact restores.undisturbed
  have length := restores.length
  unfold Db.recover
  refine leads_call (Keeps.whole start) rfl ?_
  by_cases logged : (opts.enableWal || decide (0 < u.dir.walBytes.length)) = true
  · rw [if_pos logged]
    have answered := restores.openWal attaching opts.sync
    generalize isOpened : ({ u with
        dir := { u.dir with wal := some (Wal.frames env.hash entries) }
        wal := some ⟨opts.sync, max (Wal.nextAfter 0 entries) replayFrom, false⟩ } : World) = v
      at answered
    have replaying : Replaying env config dim dir entries rows linked
        (headerCount dir.file.image) (headerCount dir.file.image) index.len v v := by
      subst isOpened
      refine ⟨⟨live.locks, live.pending, live.running, live.stored, live.kernel, live.sound,
        live.nodes_le, live.quantizer, live.granted⟩, le_rfl, restores.covered, Nat.le_max_left _ _,
        ?_, rfl, rfl, rfl, rfl⟩
      exact ⟨start.isStored, start.frontier, start.snap, start.codebook, .inr rfl⟩
    have sameConfig : v.index.config = index.config := by
      subst isOpened
      exact congrArg Hnsw.config sameIndex
    have replays := replaying.replay restores.remaining levels restores.lengths restores.reaches
      ⟨by omega, by omega⟩ scratch
    rw [sameConfig] at replays
    have isLog : v.dir.wal = some (Wal.frames env.hash entries) := by
      subst isOpened
      rfl
    have isWal : v.wal = some ⟨opts.sync, max (Wal.nextAfter 0 entries) replayFrom, false⟩ := by
      subst isOpened
      rfl
    have noFault : v.faults = [] := by
      subst isOpened
      exact attaching.faults
    unfold attempt
    refine leads_call (Keeps.whole start) answered ?_
    apply replays.bind
    rintro t result (⟨agrees, rfl, after⟩ | ⟨differs, ⟨id, rfl⟩, undisturbed⟩)
    · have final := after.live
      rw [List.take_of_length_le (by omega)] at final
      have bytes : t.dir.walBytes = Wal.frames env.hash entries := by
        unfold Directory.walBytes
        rw [after.log, isLog]
        rfl
      dsimp only
      split
      · rename_i enabled
        refine Prog.Leads.ret (.inl ⟨agrees, rfl, final, after.undisturbed, ?_, fun _ => bytes,
          after.faults.trans noFault⟩)
        rw [if_pos enabled, after.wal, isWal]
      · rename_i disabled
        refine leads_call (Keeps.whole after.undisturbed) rfl ?_
        refine Prog.Leads.ret (.inl ⟨agrees, rfl, ?_, after.undisturbed, ?_, fun _ => bytes,
          after.faults.trans noFault⟩)
        · exact ⟨final.locks, final.pending, final.running, final.stored, final.kernel, final.sound,
            final.nodes_le, final.quantizer, final.granted⟩
        · rw [if_neg disabled]
    · exact Prog.Leads.ret (.inr ⟨differs, ⟨id, rfl⟩, undisturbed⟩)
  · rw [if_neg logged]
    have disabled : ¬ opts.enableWal = true := fun enabled => logged (by rw [enabled]; rfl)
    have nothing : u.dir.walBytes = [] := by
      by_contra some
      have positive : 0 < u.dir.walBytes.length := List.length_pos_iff.mpr some
      exact logged (by rw [decide_eq_true positive, Bool.or_true])
    obtain ⟨rfl, same⟩ := restores.unlogged (attaching.dir ▸ nothing)
    subst same
    have header := restores.counts.least
    rw [List.take_of_length_le (by omega)] at live
    refine Prog.Leads.ret (.inl ⟨nofun, rfl, live, start, ?_, ?_, attaching.faults⟩)
    · rw [if_neg disabled]
      exact attaching.wal
    · intro enabled
      exact absurd enabled disabled

theorem Restores.openCodebook (restores : Restores env config dim dir rows linked index replayFrom
      entries) {opts : DbOptions} {t : World}
    (opened : Opened env config dim opts dir rows linked replayFrom entries t) :
    ∃ u, handle env 0 t .openCodebook = .ok u (.ok ()) ∧
      Opened env config dim opts dir rows linked replayFrom entries u := by
  have live := opened.live
  have sameBook : t.dir.codebook = dir.codebook := opened.undisturbed.codebook
  change ∃ u, t.openCodebook env = .ok u (.ok ()) ∧ _
  unfold World.openCodebook
  rw [sameBook]
  cases saved : dir.codebook with
  | none => exact ⟨t, rfl, opened⟩
  | some raw =>
      obtain ⟨pq, loaded, sameDim⟩ := restores.codebook raw saved
      dsimp only
      rw [loaded]
      dsimp only
      rw [if_neg (not_not.mpr (sameDim.trans live.sameDim.symm))]
      refine ⟨_, rfl, ⟨live.locks, live.pending, live.running, live.stored, live.kernel, live.sound,
        live.nodes_le, ?_, live.granted⟩, opened.undisturbed, opened.wal, opened.log, opened.faults⟩
      intro state trained
      cases trained
      exact sameDim

inductive Ends (env : Env) (config : HnswConfig) (dim : Nat) (opts : DbOptions) (dir : Directory)
    (rows : List Row) (linked replayFrom : Nat) (entries : List (Nat × WalOp)) (t : World) :
    Result Unit → Prop
  | opened (agrees : Agrees rows (headerCount dir.file.image) replayFrom entries)
      (whole : linked = rows.length)
      (final : Opened env config dim opts dir rows linked replayFrom entries t) :
      Ends env config dim opts dir rows linked replayFrom entries t (.ok ())
  | mismatch (agrees : Agrees rows (headerCount dir.file.image) replayFrom entries)
      (ahead : linked < rows.length)
      (kept : Undisturbed env.hash dim (headerCount dir.file.image) entries dir t.dir) :
      Ends env config dim opts dir rows linked replayFrom entries t
        (.error (lengthMismatch linked rows.length))
  | disagreement (id : Nat)
      (differs : ¬ Agrees rows (headerCount dir.file.image) replayFrom entries)
      (kept : Undisturbed env.hash dim (headerCount dir.file.image) entries dir t.dir) :
      Ends env config dim opts dir rows linked replayFrom entries t (.error (disagrees id))

/-- Opening brings back the rows if the log agrees with those on file and the header does not
count more than it and the snapshot cover, and fails otherwise. -/
theorem Restores.open (restores : Restores env config dim dir rows linked index replayFrom entries)
    (levels : ∀ id, env.level config.m id ≤ 63) (opts : DbOptions) (sameConfig : opts.config = config)
    (scratch : Nat → VisitedSet) :
    (Db.open env opts scratch dim).Leads (handle env) 0
      (Keeps env (Undisturbed env.hash dim (headerCount dir.file.image) entries dir))
      (Ends env config dim opts dir rows linked replayFrom entries) (World.start dir) := by
  obtain ⟨first, openedStore, attaching, stored⟩ := restores.attachStore
  obtain ⟨second, openedIndex, attached, sameIndex, live⟩ :=
    restores.attachIndex attaching stored levels
  have length := restores.length
  have start := restores.undisturbed
  have kept : Undisturbed env.hash dim (headerCount dir.file.image) entries dir first.dir := by
    rw [attaching.dir]
    exact start
  unfold Db.open
  rw [sameConfig]
  unfold attempt
  refine leads_call (Keeps.whole start) openedStore ?_
  dsimp only
  rw [if_neg (not_not.mpr rfl)]
  refine leads_call (Keeps.whole kept) openedIndex ?_
  dsimp only
  apply (restores.recover attached sameIndex live levels opts scratch).bind
  rintro t result (⟨agrees, rfl, opened⟩ | ⟨differs, ⟨id, rfl⟩, undisturbed⟩)
  · have nodes : t.index.len = linked := opened.live.sound.dense.1
    have count : t.store.count = rows.length := opened.live.count
    dsimp only
    refine leads_call (Keeps.whole opened.undisturbed) rfl ?_
    refine leads_call (Keeps.whole opened.undisturbed) rfl ?_
    rw [nodes, count]
    by_cases whole : linked = rows.length
    · rw [if_neg (not_not.mpr whole)]
      obtain ⟨u, answered, final⟩ := restores.openCodebook opened
      exact Prog.Leads.act (S := sig) (Keeps.whole opened.undisturbed) answered
        (Prog.Leads.ret (.opened agrees whole final))
    · rw [if_pos whole]
      exact Prog.Leads.ret (.mismatch agrees (by omega) opened.undisturbed)
  · exact Prog.Leads.ret (.disagreement id differs undisturbed)

end Restores

end Db

end Vektordb
