import Vektordb.Interaction.Ghost
import Vektordb.Db.Codes
import Vektordb.Db.Logging

/-!
What holds of the open database at every moment, whatever calls are under way. A ledger beside it
says which agent is to link a row, which rows have no code yet and which are not in the log.
`Consistent` is the invariant, `Relies` what an agent may count on while others act, `Guarantees`
what its own actions leave to the others; the locks decide which parts only their holder changes.
-/

namespace Vektordb

open Interaction LittleEndian VectorStore

namespace Db

/-! ### The ledger -/

structure Ledger where
  /-- The agent that links an id. -/
  hand : Nat → Option Nat
  /-- The rows whose code is not written yet. -/
  uncoded : Nat → Prop
  /-- The rows that a new start may not bring back. -/
  unlogged : Nat → Prop

namespace Ledger

def take (l : Ledger) (id agent : Nat) : Ledger :=
  { l with hand := Function.update l.hand id (some agent) }

def drop (l : Ledger) (id : Nat) : Ledger := { l with hand := Function.update l.hand id none }

def enter (l : Ledger) (id agent : Nat) : Ledger :=
  ⟨Function.update l.hand id (some agent), fun x => x = id ∨ l.uncoded x,
    fun x => x = id ∨ l.unlogged x⟩

def leave (l : Ledger) (id : Nat) : Ledger :=
  { l with hand := Function.update l.hand id none, uncoded := fun x => x ≠ id ∧ l.uncoded x }

def record (l : Ledger) (id : Nat) : Ledger := { l with unlogged := fun x => x ≠ id ∧ l.unlogged x }

def retract (l : Ledger) (id : Nat) : Ledger := (l.leave id).record id

end Ledger

def InBatch (base n x : Nat) : Prop := base ≤ x ∧ x < base + n

instance (base n x : Nat) : Decidable (InBatch base n x) := inferInstanceAs (Decidable (_ ∧ _))

def note (agent : Nat) (l : Ledger) : (action : Action) → Answer action → Ledger
  | .append _, .ok id => l.enter id agent
  | .rollbackLast id, .ok () => l.retract id
  | .walAppend (.insert id _), .ok _ => l.record id
  | .encodeRow id _, () => l.leave id
  | .encodeBatch base n, () => { l with uncoded := fun x => ¬ InBatch base n x ∧ l.uncoded x }
  | .submit base n, () => { l with hand := fun x => if InBatch base n x then none else l.hand x }
  | .take, id => l.take id agent
  | .finish id, () => l.drop id
  | _, _ => l

abbrev Shared := World × Ledger

def noted (env : Env) : Handler sig Shared := Handler.noting (handle env) note

/-- Who acts: which agents run calls, and which of these insert rows beside those that were there.
With `careful` a schedule promises that searches over codes are not led to rows under way; with
`strict` every row has gone through the log since the store was created. -/
structure Crew where
  db : Db
  calls : Nat → Prop
  writes : Nat → Prop
  founded : Nat
  careful : Prop
  strict : Prop

end Db

/-! ### Locks -/

namespace World

def Owns (w : World) (agent : Nat) (lock : Lock) : Prop := (w.locks lock).exclusive = some agent

def Holds (w : World) (agent : Nat) (lock : Lock) : Prop :=
  agent ∈ (w.locks lock).shared ∨ w.Owns agent lock

end World

def SameHolding (agent : Nat) (before after : Holders) : Prop :=
  after.shared.count agent = before.shared.count agent ∧
    (after.exclusive = some agent ↔ before.exclusive = some agent)

theorem SameHolding.refl (agent : Nat) (holders : Holders) : SameHolding agent holders holders :=
  ⟨rfl, Iff.rfl⟩

theorem SameHolding.trans {agent : Nat} {first middle last : Holders}
    (left : SameHolding agent first middle) (right : SameHolding agent middle last) :
    SameHolding agent first last :=
  ⟨right.1.trans left.1, right.2.trans left.2⟩

theorem SameHolding.mem {agent : Nat} {before after : Holders}
    (same : SameHolding agent before after) : agent ∈ after.shared ↔ agent ∈ before.shared := by
  rw [← List.count_pos_iff, ← List.count_pos_iff, same.1]

namespace Db

/-! ### The invariant -/

structure Shelved (db : Db) (store : VectorStore) (dir : Directory) : Prop where
  isStored : dir.store = some dir.file
  formatted : Formatted db.dim dir.file.image
  attached : Attached store dir.file
  dim : store.dim = db.dim

structure Graphed (db : Db) (index : Hnsw) (count : Nat) : Prop where
  layered : index.Layered
  moderate : index.Moderate
  config : index.config = db.config
  m : db.config.m ≤ 4096
  inside : ∀ x, (index.nodes.get x).isSome = true → x < count

/-- Every row without a code belongs to an agent that is inserting it, and one without a node is
in somebody's hand or waits for the thread pool. -/
structure Assigned (crew : Crew) (w : World) (l : Ledger) : Prop where
  owners : w.owners.length = w.store.count
  authors : ∀ x i : Nat, crew.founded ≤ x → w.owners[x]? = some i → crew.writes i
  nodes : ∀ x < w.store.count, ¬ l.uncoded x → (w.index.nodes.get x).isSome = true
  inside : ∀ x, l.uncoded x → x < w.store.count
  owner : ∀ x, l.uncoded x →
    ∃ i, w.owners[x]? = some i ∧ crew.writes i ∧ w.Holds i .maintenance
  hand : ∀ x i, l.hand x = some i → l.uncoded x
  held : ∀ x i, l.hand x = some i → w.owners[x]? = some i ∨ x ∈ w.running
  running : ∀ x ∈ w.running, ∃ i, l.hand x = some i ∧ w.owners[x]? ≠ some i ∧ ¬ crew.calls i
  once : w.running.Nodup
  pending : ∀ x ∈ w.pending, l.uncoded x ∧ l.hand x = none ∧ w.index.nodes.get x = none
  distinct : w.pending.Nodup
  linked : ∀ x, l.uncoded x → (w.index.nodes.get x).isSome = true ∨ x ∈ w.pending ∨
    x ∈ w.running ∨ ∃ i, w.owners[x]? = some i ∧ l.hand x = some i

/-- A lock is not shared while somebody has it alone. -/
structure Locking (crew : Crew) (locks : Lock → Holders) : Prop where
  alone : ∀ lock i, (locks lock).exclusive = some i → (locks lock).shared = []
  members : ∀ lock i, i ∈ (locks lock).shared ∨ (locks lock).exclusive = some i → crew.calls i

/-- The counter of the log is that of the store. -/
def Even (w : World) : Prop := ∀ wal, w.wal = some wal → wal.nextLsn = w.store.count

/-- What an open log and the rows have in common if every row has gone through it. Only the owner
of the WAL lock is between a row and its record. -/
structure InStep (env : Env) (w : World) (l : Ledger) : Prop where
  isOpen : w.wal.isSome = true
  coded : ∀ x, l.unlogged x → l.uncoded x
  agrees : ∀ lsn id vector, InLog env w.dir lsn id vector → id < w.store.count → w.row id = vector
  even : w.locks .wal = Holders.free → Even w

structure Consistent (env : Env) (crew : Crew) (w : World) (l : Ledger) : Prop where
  shelved : Shelved crew.db w.store w.dir
  graphed : Graphed crew.db w.index w.store.count
  assigned : Assigned crew w l
  coded : ∀ state, w.pq = some state → Coded env w.row w.store.count l.uncoded state
  journaled : Journaled env crew.strict w.dir w.wal w.store.count
  inStep : crew.strict → InStep env w l
  secured : Secured env w.dir w.row w.store.count l.unlogged l.uncoded
  durable : w.wal.isSome = crew.db.durable
  locking : Locking crew w.locks

theorem Locking.apart {crew : Crew} {w : World} (locking : Locking crew w.locks) {i j : Nat}
    {lock : Lock} (owns : w.Owns i lock) (holds : w.Holds j lock) : j = i := by
  rcases holds with shared | exclusive
  · rw [locking.alone lock i owns] at shared
    cases shared
  · exact Option.some.inj (exclusive.symm.trans owns)

/-! ### Rely and guarantee -/

/-- Nothing that the maintenance lock protects has changed. -/
structure Frozen (s t : Shared) : Prop where
  store : t.1.store = s.1.store
  dir : t.1.dir = s.1.dir
  wal : t.1.wal = s.1.wal
  pq : t.1.pq = s.1.pq
  owners : t.1.owners = s.1.owners
  faults : t.1.faults = s.1.faults
  uncoded : t.2.uncoded = s.2.uncoded
  unlogged : t.2.unlogged = s.2.unlogged

theorem Frozen.refl (s : Shared) : Frozen s s := ⟨rfl, rfl, rfl, rfl, rfl, rfl, rfl, rfl⟩

theorem Frozen.trans {s t u : Shared} (first : Frozen s t) (second : Frozen t u) : Frozen s u :=
  ⟨second.store.trans first.store, second.dir.trans first.dir, second.wal.trans first.wal,
    second.pq.trans first.pq, second.owners.trans first.owners,
    second.faults.trans first.faults, second.uncoded.trans first.uncoded,
    second.unlogged.trans first.unlogged⟩

theorem Frozen.row {s t : Shared} (frozen : Frozen s t) (x : Nat) : t.1.row x = s.1.row x := by
  unfold World.row World.file
  rw [frozen.store, frozen.dir]

/-- A row that is complete. -/
def Settled (s : Shared) (x : Nat) : Prop := x < s.1.owners.length ∧ ¬ s.2.uncoded x

structure SameRow (x : Nat) (s t : Shared) : Prop where
  row : t.1.row x = s.1.row x
  uncoded : t.2.uncoded x ↔ s.2.uncoded x
  unlogged : t.2.unlogged x ↔ s.2.unlogged x
  owner : t.1.owners[x]? = s.1.owners[x]?

theorem SameRow.refl (x : Nat) (s : Shared) : SameRow x s s := ⟨rfl, Iff.rfl, Iff.rfl, rfl⟩

theorem SameRow.trans {x : Nat} {s t u : Shared} (first : SameRow x s t) (second : SameRow x t u) :
    SameRow x s u :=
  ⟨second.row.trans first.row, second.uncoded.trans first.uncoded,
    second.unlogged.trans first.unlogged, second.owner.trans first.owner⟩

theorem SameRow.settled {x : Nat} {s t : Shared} (same : SameRow x s t) (settled : Settled s x) :
    Settled t x := by
  refine ⟨?_, fun uncoded => settled.2 (same.uncoded.mp uncoded)⟩
  have there := same.owner
  rw [List.getElem?_eq_getElem settled.1] at there
  exact (List.getElem?_eq_some_iff.mp there).1

/-- What the WAL lock protects. -/
structure SameLog (s t : Shared) : Prop where
  wal : t.1.wal = s.1.wal
  file : t.1.dir.wal = s.1.dir.wal
  store : s.1.wal.isSome = true → t.1.store = s.1.store ∧ t.1.owners = s.1.owners

theorem SameLog.refl (s : Shared) : SameLog s s := ⟨rfl, rfl, fun _ => ⟨rfl, rfl⟩⟩

theorem SameLog.trans {s t u : Shared} (first : SameLog s t) (second : SameLog t u) : SameLog s u := by
  refine ⟨second.wal.trans first.wal, second.file.trans first.file, ?_⟩
  intro durable
  obtain ⟨store, owners⟩ := first.store durable
  rw [← first.wal] at durable
  obtain ⟨later, others⟩ := second.store durable
  exact ⟨later.trans store, others.trans owners⟩

theorem isSome_grows {g after : Hnsw} (grows : Hnsw.Grows g after) {x : Nat}
    (present : (g.nodes.get x).isSome = true) : (after.nodes.get x).isSome = true := by
  obtain ⟨node, held⟩ := Option.isSome_iff_exists.mp present
  obtain ⟨other, there, -⟩ := grows.level x node.level ⟨node, held, rfl⟩
  rw [there]
  rfl

structure Relies (crew : Crew) (i : Nat) (s t : Shared) : Prop where
  grows : Hnsw.Grows s.1.index t.1.index
  hands : ∀ x, t.2.hand x = some i ↔ s.2.hand x = some i
  fresh : ∀ x, s.2.hand x = some i → s.1.index.nodes.get x = none →
    t.1.index.nodes.get x = none
  short : ∀ x n, s.2.hand x = some i → Hnsw.Within s.1.index x n → Hnsw.Within t.1.index x n
  calm : ∀ x, (s.1.index.nodes.get x).isSome = true → s.2.hand x = none → t.2.hand x = none
  owned : ∀ x : Nat, t.1.owners[x]? = some i ↔ s.1.owners[x]? = some i
  rows : ∀ x : Nat, s.1.owners[x]? = some i ∨ Settled s x → SameRow x s t
  content : ∀ x, (s.1.index.nodes.get x).isSome = true → t.1.row x = s.1.row x
  kernel : t.1.kernel = s.1.kernel
  prior : ∀ y, Settled s y → ∀ x ≤ y, t.1.owners[x]? = s.1.owners[x]?
  held : ∀ lock, SameHolding i (s.1.locks lock) (t.1.locks lock)
  frozen : s.1.Owns i .maintenance ∨ (∀ j, crew.calls j → j = i) → Frozen s t
  wal : s.1.Owns i .wal → SameLog s t
  pq : s.1.Holds i .pq → t.1.pq = s.1.pq

structure Guarantees (i : Nat) (s t : Shared) : Prop where
  grows : Hnsw.Grows s.1.index t.1.index
  hands : ∀ j x, j ≠ i → (t.2.hand x = some j ↔ s.2.hand x = some j)
  fresh : ∀ j x, j ≠ i → s.2.hand x = some j → s.1.index.nodes.get x = none →
    t.1.index.nodes.get x = none
  short : ∀ j x n, j ≠ i → s.2.hand x = some j → Hnsw.Within s.1.index x n →
    Hnsw.Within t.1.index x n
  calm : ∀ x, (s.1.index.nodes.get x).isSome = true → s.2.hand x = none → t.2.hand x = none
  owned : ∀ j x : Nat, j ≠ i → (t.1.owners[x]? = some j ↔ s.1.owners[x]? = some j)
  rows : ∀ x : Nat, (∃ j, j ≠ i ∧ s.1.owners[x]? = some j) ∨ Settled s x → SameRow x s t
  content : ∀ x, (s.1.index.nodes.get x).isSome = true → t.1.row x = s.1.row x
  kernel : t.1.kernel = s.1.kernel
  prior : ∀ y, Settled s y → ∀ x ≤ y, t.1.owners[x]? = s.1.owners[x]?
  held : ∀ j lock, j ≠ i → SameHolding j (s.1.locks lock) (t.1.locks lock)
  frozen : ¬ s.1.Holds i .maintenance → Frozen s t
  wal : ¬ s.1.Owns i .wal → SameLog s t
  pq : ¬ s.1.Owns i .pq → t.1.pq = s.1.pq

theorem Relies.refl (crew : Crew) (i : Nat) (s : Shared) : Relies crew i s s :=
  ⟨Hnsw.Grows.refl _, fun _ => Iff.rfl, fun _ _ free => free, fun _ _ _ within => within,
    fun _ _ free => free, fun _ => Iff.rfl, fun x _ => SameRow.refl x s, fun _ _ => rfl, rfl,
    fun _ _ _ _ => rfl, fun _ => SameHolding.refl i _,
    fun _ => Frozen.refl s, fun _ => SameLog.refl s, fun _ => rfl⟩

theorem owns_congr {i : Nat} {w t : World} {lock : Lock}
    (same : SameHolding i (w.locks lock) (t.locks lock)) : t.Owns i lock ↔ w.Owns i lock := same.2

theorem holds_congr {i : Nat} {w t : World} {lock : Lock}
    (same : SameHolding i (w.locks lock) (t.locks lock)) : t.Holds i lock ↔ w.Holds i lock :=
  or_congr same.mem same.2

theorem Relies.trans {crew : Crew} {i : Nat} {s t u : Shared} (first : Relies crew i s t)
    (second : Relies crew i t u) : Relies crew i s u := by
  constructor
  case grows => exact first.grows.trans second.grows
  case hands => exact fun x => (second.hands x).trans (first.hands x)
  case fresh =>
      intro x mine free
      exact second.fresh x ((first.hands x).mpr mine) (first.fresh x mine free)
  case short =>
      intro x n mine within
      exact second.short x n ((first.hands x).mpr mine) (first.short x n mine within)
  case calm =>
      intro x present free
      exact second.calm x (isSome_grows first.grows present) (first.calm x present free)
  case owned => exact fun x => (second.owned x).trans (first.owned x)
  case rows =>
      intro x known
      have same := first.rows x known
      refine same.trans (second.rows x ?_)
      rcases known with own | settled
      · exact .inl ((first.owned x).mpr own)
      · exact .inr (same.settled settled)
  case content =>
      intro x present
      exact (second.content x (isSome_grows first.grows present)).trans (first.content x present)
  case kernel => exact second.kernel.trans first.kernel
  case prior =>
      intro y settled x le
      have later := (first.rows y (.inr settled)).settled settled
      exact (second.prior y later x le).trans (first.prior y settled x le)
  case held => exact fun lock => (first.held lock).trans (second.held lock)
  case frozen =>
      intro alone
      refine (first.frozen alone).trans (second.frozen ?_)
      exact alone.imp_left (owns_congr (first.held .maintenance)).mpr
  case wal =>
      intro owns
      exact (first.wal owns).trans (second.wal ((owns_congr (first.held .wal)).mpr owns))
  case pq =>
      intro holds
      exact (second.pq ((holds_congr (first.held .pq)).mpr holds)).trans (first.pq holds)

theorem Guarantees.relies {env : Env} {crew : Crew} {i j : Nat} {s t : Shared}
    (guarantees : Guarantees i s t) (different : i ≠ j) (kept : Consistent env crew s.1 s.2) :
    Relies crew j s t := by
  have other : j ≠ i := Ne.symm different
  have locking := kept.locking
  constructor
  case grows => exact guarantees.grows
  case hands => exact fun x => guarantees.hands j x other
  case fresh => exact fun x => guarantees.fresh j x other
  case short => exact fun x n => guarantees.short j x n other
  case calm => exact guarantees.calm
  case owned => exact fun x => guarantees.owned j x other
  case rows =>
      intro x known
      exact guarantees.rows x (known.imp_left fun own => ⟨j, other, own⟩)
  case content => exact guarantees.content
  case kernel => exact guarantees.kernel
  case prior => exact guarantees.prior
  case held => exact fun lock => guarantees.held j lock other
  case frozen =>
      intro alone
      apply guarantees.frozen
      intro holds
      rcases alone with owns | only
      · exact different (locking.apart owns holds)
      · exact different (only i (locking.members _ i holds))
  case wal =>
      intro owns
      apply guarantees.wal
      intro mine
      exact different (locking.apart owns (.inr mine))
  case pq =>
      intro holds
      apply guarantees.pq
      intro mine
      exact different (locking.apart mine holds).symm

/-! ### The discipline -/

/-- The order in which locks are taken. -/
def rank : Lock → Nat
  | .maintenance => 0
  | .wal => 1
  | .pq => 1

/-- Actions that may have to wait. A call waits for a lock with locks of lower rank, and for the
thread pool with the maintenance lock at most; a thread of the pool waits for an id with nothing in
hand. -/
def Waits (crew : Crew) (i : Nat) (s : Shared) : Action → Prop
  | .acquire lock _ => crew.calls i ∧ ∀ held, s.1.Holds i held → rank held < rank lock
  | .take => ¬ crew.calls i ∧ ∀ x, s.2.hand x ≠ some i
  | .join => crew.calls i ∧ ∀ held, s.1.Holds i held → held = .maintenance
  | _ => False

/-- What a search over codes finds when it reads the graph has a code. -/
def Unhurried (i : Nat) (s : Shared) : Action → Prop
  | .index .entry => i ∈ (s.1.locks .pq).shared → s.1.index.entry ≠ ENTRY_NONE →
      ¬ s.2.uncoded (unpackEntry s.1.index.entry).1
  | .index (.links id layer) => i ∈ (s.1.locks .pq).shared → ∀ list,
      s.1.index.listAt layer id = some list → ∀ nb ∈ list, ¬ s.2.uncoded nb
  | _ => True

/-- The log is about to take the record of the last row. -/
structure Inscribing (env : Env) (w : World) (id : Nat) : Prop where
  isOpen : w.wal.isSome = true
  count : w.store.count = id + 1
  few : ∀ wal, w.wal = some wal → wal.nextLsn ≤ id
  known : ∀ wal entries, w.wal = some wal → Logs env.hash w.dir.walBytes entries →
    ∀ entry ∈ entries, entry.1 < wal.nextLsn → Wal.recordId entry < id

/-- What is promised about an action before it is performed. -/
def Promised (env : Env) (crew : Crew) (i : Nat) (s : Shared) : Action → Prop
  | .walAppend (.insert id _) => Inscribing env s.1 id
  | .score _ id => crew.careful → ∃ state, s.1.pq = some state ∧ id < s.1.store.count ∧
      HasCode env state id (s.1.row id)
  | op => (∃ u answer, handle env i s.1 op = .ok u answer) ∨ Waits crew i s op

def sharing (env : Env) (crew : Crew) : Discipline sig Shared where
  inv s := Consistent env crew s.1 s.2
  rely := Relies crew
  guar := Guarantees
  assumes i s op := crew.careful → Unhurried i s op
  safe := Promised env crew
  mayStop := False
  rely_refl := Relies.refl crew
  rely_trans := Relies.trans
  guar_rely different kept _ guarantees := guarantees.relies different kept

end Db

end Vektordb
