import Vektordb.Db.Ledger

/-!
What one action of the database keeps while other calls are under way, with the locks that it needs:
taking and giving up locks, the actions of the graph, and adding a row to the store or taking it
back.
-/

namespace Vektordb

open Interaction LittleEndian VectorStore

namespace Db

variable {env : Env} {crew : Crew} {i : Nat} {w t : World} {l : Ledger}

theorem Guarantees.refl (i : Nat) (s : Shared) : Guarantees i s s :=
  ⟨Hnsw.Grows.refl _, fun _ _ _ => Iff.rfl, fun _ _ _ _ free => free,
    fun _ _ _ _ _ within => within, fun _ _ free => free, fun _ _ _ => Iff.rfl,
    fun x _ => SameRow.refl x s, fun _ _ => rfl, rfl, fun _ _ _ _ => rfl,
    fun j _ _ => SameHolding.refl j _,
    fun _ => Frozen.refl s, fun _ => SameLog.refl s, fun _ => rfl⟩

structure Still (i : Nat) (s t : Shared) : Prop where
  index : t.1.index = s.1.index
  locks : t.1.locks = s.1.locks
  hands : ∀ j x, j ≠ i → (t.2.hand x = some j ↔ s.2.hand x = some j)
  calm : ∀ x, (s.1.index.nodes.get x).isSome = true → s.2.hand x = none → t.2.hand x = none
  owned : ∀ j x : Nat, j ≠ i → (t.1.owners[x]? = some j ↔ s.1.owners[x]? = some j)
  rows : ∀ x : Nat, (∃ j, j ≠ i ∧ s.1.owners[x]? = some j) ∨ Settled s x → SameRow x s t
  content : ∀ x, (s.1.index.nodes.get x).isSome = true → t.1.row x = s.1.row x
  kernel : t.1.kernel = s.1.kernel
  prior : ∀ y, Settled s y → ∀ x ≤ y, t.1.owners[x]? = s.1.owners[x]?
  frozen : ¬ s.1.Holds i .maintenance → Frozen s t
  wal : ¬ s.1.Owns i .wal → SameLog s t
  pq : ¬ s.1.Owns i .pq → t.1.pq = s.1.pq

theorem Still.guarantees {s u : Shared} (still : Still i s u) : Guarantees i s u := by
  constructor
  case grows => rw [still.index]; exact Hnsw.Grows.refl _
  case hands => exact still.hands
  case fresh =>
      intro j x _ _ free
      rw [still.index]
      exact free
  case short =>
      intro j x n _ _ within
      rw [still.index]
      exact within
  case calm => exact still.calm
  case owned => exact still.owned
  case rows => exact still.rows
  case content => exact still.content
  case kernel => exact still.kernel
  case prior => exact still.prior
  case held =>
      intro j lock _
      rw [still.locks]
      exact SameHolding.refl j _
  case frozen => exact still.frozen
  case wal => exact still.wal
  case pq => exact still.pq

/-! ### Locks -/

/-- Who may hold what when one agent takes or gives up a lock. -/
structure Exchange (crew : Crew) (w : World) (l : Ledger) (i : Nat) (lock : Lock)
    (holders : Holders) : Prop where
  alone : ∀ j, holders.exclusive = some j → holders.shared = []
  members : ∀ j, j ∈ holders.shared ∨ holders.exclusive = some j → crew.calls j
  others : ∀ j, j ≠ i → SameHolding j (w.locks lock) holders
  keeps : lock = .maintenance → ∀ x : Nat, l.uncoded x → w.owners[x]? = some i →
    i ∈ holders.shared ∨ holders.exclusive = some i

theorem setLock_locks (w : World) (lock other : Lock) (holders : Holders) :
    (w.setLock lock holders).locks other = if other = lock then holders else w.locks other := by
  unfold World.setLock
  dsimp only
  by_cases same : other = lock
  · subst same
    rw [Function.update_self, if_pos rfl]
  · rw [Function.update_of_ne same, if_neg same]

theorem Consistent.setLock (kept : Consistent env crew w l) {lock : Lock} {holders : Holders}
    (exchange : Exchange crew w l i lock holders)
    (even : lock = .wal → holders = Holders.free → crew.strict → Even w) :
    Consistent env crew (w.setLock lock holders) l ∧
      Guarantees i (w, l) (w.setLock lock holders, l) := by
  have locks := setLock_locks w lock
  have held : ∀ j other, j ≠ i →
      SameHolding j (w.locks other) ((w.setLock lock holders).locks other) := by
    intro j other different
    rw [locks]
    by_cases same : other = lock
    · subst same
      rw [if_pos rfl]
      exact exchange.others j different
    · rw [if_neg same]
      exact SameHolding.refl j _
  refine ⟨⟨kept.shelved, kept.graphed, ?_, kept.coded, kept.journaled, ?_, kept.secured,
    kept.durable, ?_⟩, ?_⟩
  rotate_left
  · intro strict
    refine { kept.inStep strict with even := ?_ }
    intro free
    rw [locks] at free
    by_cases same : .wal = lock
    · rw [if_pos same] at free
      exact even same.symm free strict
    · rw [if_neg same] at free
      exact (kept.inStep strict).even free
  rotate_right
  · refine { kept.assigned with owner := ?_ }
    intro x uncoded
    obtain ⟨j, owner, writes, holds⟩ := kept.assigned.owner x uncoded
    refine ⟨j, owner, writes, ?_⟩
    by_cases own : j = i
    · subst own
      by_cases maintenance : lock = .maintenance
      · subst maintenance
        have still := exchange.keeps rfl x uncoded owner
        unfold World.Holds World.Owns
        rw [locks, if_pos rfl]
        exact still
      · unfold World.Holds World.Owns
        rw [locks, if_neg (Ne.symm maintenance)]
        exact holds
    · exact (holds_congr (held j .maintenance own)).mpr holds
  · constructor
    case alone =>
        intro other j owns
        rw [locks] at owns ⊢
        by_cases same : other = lock
        · rw [if_pos same] at owns ⊢
          exact exchange.alone j owns
        · rw [if_neg same] at owns ⊢
          exact kept.locking.alone other j owns
    case members =>
        intro other j holds
        rw [locks] at holds
        by_cases same : other = lock
        · rw [if_pos same] at holds
          exact exchange.members j holds
        · rw [if_neg same] at holds
          exact kept.locking.members other j holds
  · exact ⟨Hnsw.Grows.refl _, fun _ _ _ => Iff.rfl, fun _ _ _ _ free => free,
      fun _ _ _ _ _ within => within, fun _ _ free => free, fun _ _ _ => Iff.rfl,
      fun _ _ => ⟨rfl, Iff.rfl, Iff.rfl, rfl⟩, fun _ _ => rfl, rfl, fun _ _ _ _ => rfl,
      fun j other different => held j other different,
      fun _ => ⟨rfl, rfl, rfl, rfl, rfl, rfl, rfl, rfl⟩, fun _ => ⟨rfl, rfl, fun _ => ⟨rfl, rfl⟩⟩,
      fun _ => rfl⟩

theorem acquire_cases {lock : Lock} {exclusive : Bool}
    (answered : w.acquire i lock exclusive = .ok t ()) :
    ∃ holders, t = w.setLock lock holders ∧
      ((exclusive = true ∧ w.locks lock = Holders.free ∧ holders = ⟨[], some i⟩) ∨
        (exclusive = false ∧ (w.locks lock).exclusive = none ∧
          holders = { w.locks lock with shared := i :: (w.locks lock).shared })) := by
  unfold World.acquire at answered
  dsimp only at answered
  cases exclusive with
  | true =>
      rw [if_pos rfl] at answered
      split at answered
      · rename_i free
        cases answered
        exact ⟨_, rfl, .inl ⟨rfl, free, rfl⟩⟩
      · cases answered
  | false =>
      rw [if_neg (by decide)] at answered
      split at answered
      · rename_i free
        cases answered
        exact ⟨_, rfl, .inr ⟨rfl, free, rfl⟩⟩
      · cases answered

theorem Consistent.acquire (kept : Consistent env crew w l) (calls : crew.calls i) {lock : Lock}
    {exclusive : Bool} (answered : w.acquire i lock exclusive = .ok t ()) :
    Consistent env crew t l ∧ Guarantees i (w, l) (t, l) := by
  obtain ⟨holders, rfl, taken⟩ := acquire_cases answered
  have exchange : Exchange crew w l i lock holders := by
    rcases taken with ⟨-, free, rfl⟩ | ⟨-, free, rfl⟩
    · constructor
      case alone => exact fun _ _ => rfl
      case members =>
          rintro j (shared | mine)
          · cases shared
          · cases mine
            exact calls
      case others =>
          intro j different
          rw [free]
          refine ⟨rfl, ?_, nofun⟩
          intro mine
          exact absurd (Option.some.inj mine).symm different
      case keeps => exact fun _ _ _ _ => .inr rfl
    · constructor
      case alone =>
          intro j owns
          rw [free] at owns
          cases owns
      case members =>
          rintro j (shared | owns)
          · rcases List.mem_cons.mp shared with rfl | before
            · exact calls
            · exact kept.locking.members lock j (.inl before)
          · exact kept.locking.members lock j (.inr owns)
      case others =>
          intro j different
          exact ⟨List.count_cons_of_ne (Ne.symm different), Iff.rfl⟩
      case keeps => exact fun _ _ _ _ => .inl (List.mem_cons_self ..)
  apply kept.setLock exchange
  rintro - isFree
  rcases taken with ⟨-, -, rfl⟩ | ⟨-, -, rfl⟩
  · cases isFree
  · cases isFree

theorem Consistent.release (kept : Consistent env crew w l) {lock : Lock} {exclusive : Bool}
    (holds : exclusive = true → w.Owns i lock)
    (done : lock = .maintenance → ∀ x : Nat, l.uncoded x → w.owners[x]? ≠ some i)
    (even : lock = .wal → crew.strict → Even w) :
    Consistent env crew (w.release i lock exclusive) l ∧
      Guarantees i (w, l) (w.release i lock exclusive, l) := by
  unfold World.release
  dsimp only
  cases exclusive with
  | true =>
      rw [if_pos rfl]
      have owns := holds rfl
      refine kept.setLock ?_ fun isLog _ => even isLog
      constructor
      case alone => nofun
      case members =>
          rintro j (shared | owned)
          · exact kept.locking.members lock j (.inl shared)
          · cases owned
      case others =>
          intro j different
          refine ⟨rfl, nofun, ?_⟩
          intro theirs
          exact absurd (Option.some.inj (theirs.symm.trans owns)) different
      case keeps => exact fun maintenance x uncoded owner => absurd owner (done maintenance x uncoded)
  | false =>
      rw [if_neg (by decide)]
      refine kept.setLock ?_ fun isLog _ => even isLog
      constructor
      case alone =>
          intro j owns
          rw [kept.locking.alone lock j owns]
          rfl
      case members =>
          rintro j (shared | owned)
          · exact kept.locking.members lock j (.inl (List.mem_of_mem_erase shared))
          · exact kept.locking.members lock j (.inr owned)
      case others =>
          intro j different
          exact ⟨List.count_erase_of_ne different, Iff.rfl⟩
      case keeps => exact fun maintenance x uncoded owner => absurd owner (done maintenance x uncoded)

/-! ### The graph -/

/-- Which actions an agent may perform on the index: it publishes and links what is in its hand. -/
def Entitled (db : Db) (w : World) (l : Ledger) (i : Nat) : Hnsw.Action → Prop
  | .publish x _ => l.hand x = some i
  | .linkOwn x layer chosen => l.hand x = some i ∧ Hnsw.Within w.index x (layer + 1) ∧
      chosen.Nodup ∧ chosen.length ≤ db.config.m
  | .linkBack _ layer _ max => max = db.config.maxDegree layer
  | _ => True

theorem Entitled.chosen {db : Db} (config : w.index.config = db.config) {action : Hnsw.Action}
    (entitled : Entitled db w l i action) : Hnsw.Chosen w.index.config action := by
  rw [config]
  cases action <;> first | trivial | exact entitled.2.2

theorem Consistent.index (kept : Consistent env crew w l) {action : Hnsw.Action} {g : Hnsw}
    {answer : Hnsw.Answer action} (safe : w.index.Safe action)
    (entitled : Entitled crew.db w l i action)
    (done : Hnsw.handle (w.distances env) i w.index action = .ok g answer) :
    Consistent env crew { w with index := g } l ∧ Guarantees i (w, l) ({ w with index := g }, l) := by
  have advances := kept.graphed.layered.handle safe done
  have grows := advances.grows
  have chosen := entitled.chosen kept.graphed.config
  have others : ∀ x, l.hand x ≠ some i → w.index.nodes.get x = none → g.nodes.get x = none := by
    intro x foreign free
    apply Hnsw.handle_fresh done _ free
    rintro y level rfl rfl
    exact foreign entitled
  refine ⟨⟨kept.shelved, ⟨advances.layered, ?_, ?_, kept.graphed.m, ?_⟩, ?_, kept.coded,
    kept.journaled, fun strict => { kept.inStep strict with }, kept.secured, kept.durable, kept.locking⟩, ?_⟩
  · apply kept.graphed.moderate.handle chosen _ done
    rintro x layer links rfl
    exact entitled.2.1
  · exact grows.config.trans kept.graphed.config
  · intro x present
    by_cases mine : l.hand x = some i
    · exact kept.assigned.inside x (kept.assigned.hand x i mine)
    · apply kept.graphed.inside x
      by_contra absent
      rw [Option.not_isSome_iff_eq_none] at absent
      have still : g.nodes.get x = none := others x mine absent
      change (g.nodes.get x).isSome = true at present
      rw [still] at present
      cases present
  · have assigned := kept.assigned
    refine { assigned with nodes := ?_, pending := ?_, linked := ?_ }
    · intro x below coded
      exact isSome_grows grows (assigned.nodes x below coded)
    · intro x member
      obtain ⟨uncoded, nobody, free⟩ := assigned.pending x member
      refine ⟨uncoded, nobody, others x ?_ free⟩
      rw [nobody]
      nofun
    · intro x uncoded
      exact (assigned.linked x uncoded).imp_left (isSome_grows grows)
  · constructor
    case grows => exact grows
    case hands => exact fun _ _ _ => Iff.rfl
    case fresh =>
        intro j x different theirs
        apply others x
        intro mine
        exact different (Option.some.inj (theirs.symm.trans mine))
    case short =>
        intro j x n different theirs within
        apply within.handle chosen _ done
        rintro layer links rfl
        exact absurd (Option.some.inj (theirs.symm.trans entitled.1)) different
    case calm => exact fun _ _ free => free
    case owned => exact fun _ _ _ => Iff.rfl
    case rows => exact fun _ _ => ⟨rfl, Iff.rfl, Iff.rfl, rfl⟩
    case content => exact fun _ _ => rfl
    case kernel => rfl
    case prior => exact fun _ _ _ _ => rfl
    case held => exact fun j lock _ => SameHolding.refl j _
    case frozen => exact fun _ => ⟨rfl, rfl, rfl, rfl, rfl, rfl, rfl, rfl⟩
    case wal => exact fun _ => ⟨rfl, rfl, fun _ => ⟨rfl, rfl⟩⟩
    case pq => exact fun _ => rfl

/-! ### Rows -/

theorem Shelved.row_eq {db : Db} (shelved : Shelved db w.store w.dir) (x : Nat) :
    w.row x = rowAt db.dim w.dir.file.image x := by
  unfold World.row
  rw [getUnchecked_eq shelved.attached.stride, shelved.dim]
  rfl

/-- What an append answers, beside the rows that were there. -/
structure Added (i : Nat) (vector : Row) (w t : World) (result : Result Nat) : Prop where
  rest : t = { w with
    store := t.store
    dir := { w.dir with store := t.dir.store }
    owners := t.owners
    refusals := t.refusals }
  dim : t.store.dim = w.store.dim
  header : headerCount t.dir.file.image = headerCount w.dir.file.image
  rows : ∀ x < w.store.count, t.row x = w.row x
  outcome : (∃ e, result = .error e ∧ t.store.count = w.store.count ∧ t.owners = w.owners) ∨
    (result = .ok w.store.count ∧ vector.length = w.store.dim ∧
      t.store.count = w.store.count + 1 ∧ t.owners = w.owners ++ [i] ∧
      t.row w.store.count = vector)

/-- Where the system refuses a segment, only the file may have changed. -/
theorem appendRow_cases {answer : Result Nat} {store : VectorStore} {file : StoreFile} {vector : Row}
    (attached : Attached w.store w.file) (appended : w.appendRow vector = (answer, store, file)) :
    w.store.append w.file vector = (answer, store, file) ∨
      (∃ e, answer = .error e) ∧ store = w.store ∧ Grown w.file file := by
  unfold World.appendRow at appended
  split at appended
  · exact .inl appended
  · exact appendUnmapped_cases attached appended

theorem Shelved.append {db : Db} (shelved : Shelved db w.store w.dir) {vector : Row}
    {result : Result Nat} (done : w.append i vector = .ok t result) :
    Shelved db t.store t.dir ∧ Added i vector w t result := by
  obtain ⟨answer, store, file, appended⟩ :
      ∃ answer store file, w.appendRow vector = (answer, store, file) := ⟨_, _, _, rfl⟩
  have frontier : Frontier db.dim w.store.count w.file file := by
    rcases appendRow_cases shelved.attached appended with plain | ⟨-, -, growth⟩
    · exact append_frontier shelved.attached shelved.dim le_rfl plain
    · exact growth.frontier (shelved.attached.inside shelved.dim le_rfl)
  unfold World.append at done
  rw [appended] at done
  obtain ⟨grown, mapped, attached, ends⟩ :
      ∃ grown mapped, Attached { w.store with mapped := mapped } grown ∧
        ((∃ e, answer = .error e ∧ store = { w.store with mapped := mapped } ∧ file = grown) ∨
          (answer = .ok w.store.count ∧ vector.length = w.store.dim ∧
            store = { w.store with count := w.store.count + 1, mapped := mapped } ∧
            (locate w.store.count).1 < mapped ∧
            file = grown.write (rowAddress w.store.rowStride w.store.count) vector.toLeBytes)) := by
    rcases appendRow_cases shelved.attached appended with plain | ⟨⟨e, rfl⟩, rfl, growth⟩
    · obtain ⟨grown, mapped, -, attached, ends⟩ := VectorStore.append_cases shelved.attached plain
      exact ⟨grown, mapped, attached, ends⟩
    · exact ⟨file, w.store.mapped, shelved.attached.grown growth, .inl ⟨e, rfl, rfl, rfl⟩⟩
  have stride : (strideFor w.store.dim) = w.store.rowStride := shelved.attached.stride.symm
  rcases ends with ⟨e, rfl, rfl, rfl⟩ | ⟨rfl, sameLength, rfl, within, rfl⟩
  · cases done
    have after : Shelved db { w.store with mapped := mapped } { w.dir with store := some file } :=
      ⟨rfl, frontier.image.formatted shelved.formatted, attached, shelved.dim⟩
    refine ⟨after, rfl, rfl, frontier.image.header.symm, ?_, .inl ⟨e, rfl, rfl, rfl⟩⟩
    intro x below
    rw [shelved.row_eq]
    exact (Shelved.row_eq (w := { w with
      store := { w.store with mapped := mapped }
      dir := { w.dir with store := some file } }) after x).trans (frontier.image.rowAt below).symm
  · cases done
    have after : Shelved db { w.store with count := w.store.count + 1, mapped := mapped }
        { w.dir with store := some (grown.write (rowAddress w.store.rowStride w.store.count)
          vector.toLeBytes) } := by
      refine ⟨rfl, frontier.image.formatted shelved.formatted, ?_, shelved.dim⟩
      have written := attached.write (rowAddress w.store.rowStride w.store.count) vector.toLeBytes
      refine { written with counted := ?_ }
      intro id below
      have order := locate_mono (Nat.le_of_lt_succ below)
      exact order.trans_lt within
    have rows := fun x => Shelved.row_eq (w := { w with
      store := { w.store with count := w.store.count + 1, mapped := mapped }
      dir := { w.dir with store := some (grown.write
        (rowAddress w.store.rowStride w.store.count) vector.toLeBytes) } }) after x
    refine ⟨after, rfl, rfl, frontier.image.header.symm, ?_, .inr ⟨rfl, sameLength, rfl, rfl, ?_⟩⟩
    · intro x below
      rw [shelved.row_eq]
      exact (rows x).trans (frontier.image.rowAt below).symm
    · refine (rows w.store.count).trans ?_
      change rowAt db.dim (grown.image.write (rowAddress w.store.rowStride w.store.count)
        vector.toLeBytes) w.store.count = vector
      rw [rowAddress_eq, ← stride, shelved.dim]
      exact rowAt_write_same grown.image (sameLength.trans shelved.dim)

theorem getElem?_of_lt {α : Type} {values : List α} {x : Nat} {value : α}
    (at_ : values[x]? = some value) : x < values.length := (List.getElem?_eq_some_iff.mp at_).1

namespace Added

variable {vector : Row} {result : Result Nat}

theorem index (added : Added i vector w t result) : t.index = w.index :=
  (congrArg World.index added.rest).trans rfl

theorem wal (added : Added i vector w t result) : t.wal = w.wal := (congrArg World.wal added.rest).trans rfl

theorem kernel (added : Added i vector w t result) : t.kernel = w.kernel :=
  (congrArg World.kernel added.rest).trans rfl

theorem pq (added : Added i vector w t result) : t.pq = w.pq := (congrArg World.pq added.rest).trans rfl

theorem locks (added : Added i vector w t result) : t.locks = w.locks :=
  (congrArg World.locks added.rest).trans rfl

theorem pending (added : Added i vector w t result) : t.pending = w.pending :=
  (congrArg World.pending added.rest).trans rfl

theorem running (added : Added i vector w t result) : t.running = w.running :=
  (congrArg World.running added.rest).trans rfl

theorem logFile (added : Added i vector w t result) : t.dir.wal = w.dir.wal :=
  congrArg (fun world => world.dir.wal) added.rest

theorem snap (added : Added i vector w t result) : t.dir.snap = w.dir.snap :=
  congrArg (fun world => world.dir.snap) added.rest

theorem walBytes (added : Added i vector w t result) : t.dir.walBytes = w.dir.walBytes :=
  congrArg (fun file => file.getD []) added.logFile

end Added

theorem Assigned.known (assigned : Assigned crew w l) {x : Nat}
    (known : (∃ j, j ≠ i ∧ w.owners[x]? = some j) ∨ Settled (w, l) x) : x < w.store.count := by
  rw [← assigned.owners]
  rcases known with ⟨j, -, owner⟩ | settled
  · exact getElem?_of_lt owner
  · exact settled.1

theorem Consistent.unchanged (kept : Consistent env crew w l) (shelved : Shelved crew.db t.store t.dir)
    {vector : Row} {result : Result Nat} (added : Added i vector w t result)
    (holds : w.Holds i .maintenance) (count : t.store.count = w.store.count)
    (owners : t.owners = w.owners) (log : w.wal.isSome = true → w.Owns i .wal) :
    Consistent env crew t l ∧ Guarantees i (w, l) (t, l) := by
  have assigned := kept.assigned
  have index := added.index
  refine ⟨⟨shelved, ?_, ?_, ?_, ?_, ?_, ?_, ?_, ?_⟩, ?_⟩
  · rw [index, count]
    exact kept.graphed
  · constructor
    case owners => rw [owners, count, assigned.owners]
    case authors => rw [owners]; exact assigned.authors
    case nodes => rw [count, index]; exact assigned.nodes
    case inside => rw [count]; exact assigned.inside
    case owner =>
        unfold World.Holds World.Owns
        rw [owners, added.locks]
        exact assigned.owner
    case hand => exact assigned.hand
    case held => rw [owners, added.running]; exact assigned.held
    case running => rw [added.running, owners]; exact assigned.running
    case once => rw [added.running]; exact assigned.once
    case pending => rw [added.pending, index]; exact assigned.pending
    case distinct => rw [added.pending]; exact assigned.distinct
    case linked => rw [added.pending, added.running, index, owners]; exact assigned.linked
  · intro state isPq
    rw [added.pq] at isPq
    have coded := kept.coded state isPq
    refine ⟨?_, ?_⟩
    · rw [count]
      exact coded.length
    · intro x below settled
      rw [count] at below
      rw [added.rows x below]
      exact coded.codes x below settled
  · rw [added.wal]
    exact kept.journaled.moved added.walBytes added.snap count.ge
  · intro strict
    have inStep := kept.inStep strict
    constructor
    case isOpen =>
        rw [added.wal]
        exact inStep.isOpen
    case coded => exact inStep.coded
    case agrees =>
        intro lsn id vector recorded below
        rw [count] at below
        rw [added.rows id below]
        have before := Extends.of_eq added.walBytes.symm lsn id vector recorded
        exact inStep.agrees lsn id vector before below
    case even =>
        unfold Even
        rw [added.locks, added.wal, count]
        exact inStep.even
  · rw [count]
    exact kept.secured.moved added.header added.snap (.of_eq added.walBytes) added.rows
  · rw [added.wal]
    exact kept.durable
  · rw [added.locks]
    exact kept.locking
  · apply Still.guarantees
    constructor
    case index => exact index
    case locks => exact added.locks
    case hands => exact fun _ _ _ => Iff.rfl
    case calm => exact fun _ _ free => free
    case owned =>
        intro j x _
        change t.owners[x]? = some j ↔ w.owners[x]? = some j
        rw [owners]
    case rows =>
        intro x known
        exact ⟨added.rows x (assigned.known known), Iff.rfl, Iff.rfl,
          congrArg (fun list : List Nat => list[x]?) owners⟩
    case content => exact fun x present => added.rows x (kept.graphed.inside x present)
    case kernel => exact added.kernel
    case prior => exact fun _ _ x _ => congrArg (fun list : List Nat => list[x]?) owners
    case frozen => exact fun free => absurd holds free
    case wal =>
        intro free
        exact ⟨added.wal, added.logFile, fun durable => absurd (log durable) free⟩
    case pq => exact fun _ => added.pq

theorem Consistent.append (kept : Consistent env crew w l) (writes : crew.writes i)
    (holds : w.Holds i .maintenance) (log : w.wal.isSome = true → w.Owns i .wal)
    (fresh : crew.strict → ∀ lsn id row, InLog env w.dir lsn id row → id < w.store.count)
    {vector : Row} {result : Result Nat} (done : w.append i vector = .ok t result) :
    Consistent env crew t (note i l (.append vector) result) ∧
      Guarantees i (w, l) (t, note i l (.append vector) result) ∧ Added i vector w t result := by
  obtain ⟨shelved, added⟩ := kept.shelved.append done
  have assigned := kept.assigned
  have index := added.index
  rcases added.outcome with ⟨e, rfl, count, owners⟩ | ⟨rfl, -, count, owners, -⟩
  · obtain ⟨after, guarantees⟩ := kept.unchanged shelved added holds count owners log
    exact ⟨after, guarantees, added⟩
  · have old : ∀ {x : Nat}, x < w.store.count → t.owners[x]? = w.owners[x]? := by
      intro x below
      rw [owners, List.getElem?_append_left (by rwa [assigned.owners])]
    have last : t.owners[w.store.count]? = some i := by
      rw [owners, ← assigned.owners, List.getElem?_append_right le_rfl, Nat.sub_self]
      rfl
    have longer : t.owners.length = w.store.count + 1 := by
      rw [owners, List.length_append, assigned.owners]
      rfl
    have handOf : ∀ x, x ≠ w.store.count → (l.enter w.store.count i).hand x = l.hand x :=
      fun x apart => Function.update_of_ne apart _ _
    have below : ∀ {x}, l.uncoded x → x ≠ w.store.count := fun {x} uncoded =>
      (assigned.inside x uncoded).ne
    refine ⟨⟨shelved, ?_, ?_, ?_, ?_, ?_, ?_, ?_, ?_⟩, ?_, added⟩
    · rw [index, count]
      refine { kept.graphed with inside := ?_ }
      intro x present
      exact (kept.graphed.inside x present).trans (Nat.lt_succ_self _)
    · constructor
      case owners => rw [longer, count]
      case authors =>
          intro x j late owner
          by_cases inside : x < w.store.count
          · exact assigned.authors x j late ((old inside).symm.trans owner)
          · have bound := getElem?_of_lt owner
            obtain rfl : x = w.store.count := by omega
            exact Option.some.inj (last.symm.trans owner) ▸ writes
      case nodes =>
          intro x inside coded
          rw [index]
          rw [count] at inside
          have apart : x ≠ w.store.count := fun same => coded (.inl same)
          exact assigned.nodes x (by omega) fun uncoded => coded (.inr uncoded)
      case inside =>
          rintro x (rfl | uncoded)
          · rw [count]
            exact Nat.lt_succ_self _
          · rw [count]
            exact (assigned.inside x uncoded).trans (Nat.lt_succ_self _)
      case owner =>
          unfold World.Holds World.Owns
          rw [added.locks]
          rintro x (rfl | uncoded)
          · exact ⟨i, last, writes, holds⟩
          · rw [old (assigned.inside x uncoded)]
            exact assigned.owner x uncoded
      case hand =>
          intro x j inHand
          by_cases new : x = w.store.count
          · exact .inl new
          · exact .inr (assigned.hand x j ((handOf x new).symm.trans inHand))
      case held =>
          intro x j inHand
          rw [added.running]
          by_cases new : x = w.store.count
          · subst new
            change Function.update l.hand w.store.count (some i) w.store.count = some j at inHand
            rw [Function.update_self] at inHand
            exact .inl (last.trans inHand)
          · have before := (handOf x new).symm.trans inHand
            rw [old (assigned.inside x (assigned.hand x j before))]
            exact assigned.held x j before
      case running =>
          rw [added.running]
          intro x member
          obtain ⟨j, before, foreign⟩ := assigned.running x member
          have uncoded := assigned.hand x j before
          refine ⟨j, (handOf x (below uncoded)).trans before, ?_, foreign.2⟩
          rw [old (assigned.inside x uncoded)]
          exact foreign.1
      case once => rw [added.running]; exact assigned.once
      case pending =>
          rw [added.pending, index]
          intro x member
          obtain ⟨uncoded, nobody, free⟩ := assigned.pending x member
          exact ⟨.inr uncoded, (handOf x (below uncoded)).trans nobody, free⟩
      case distinct => rw [added.pending]; exact assigned.distinct
      case linked =>
          rw [added.pending, added.running, index]
          rintro x (rfl | uncoded)
          · exact .inr (.inr (.inr ⟨i, last, Function.update_self ..⟩))
          · rw [old (assigned.inside x uncoded)]
            change _ ∨ _ ∨ _ ∨ ∃ j, _ ∧ (l.enter w.store.count i).hand x = some j
            rw [handOf x (below uncoded)]
            exact assigned.linked x uncoded
    · intro state isPq
      rw [added.pq] at isPq
      have coded := kept.coded state isPq
      constructor
      case length =>
          obtain ⟨top, le, short, ends⟩ := coded.length
          refine ⟨top, by omega, short, ?_⟩
          by_cases empty : top = 0
          · exact .inl empty
          · right
            rintro (same | uncoded)
            · omega
            · exact ends.resolve_left empty uncoded
      case codes =>
          intro x inside settled
          rw [count] at inside
          have apart : x ≠ w.store.count := fun same => settled (.inl same)
          have old : x < w.store.count := by omega
          rw [added.rows x old]
          exact coded.codes x old fun uncoded => settled (.inr uncoded)
    · rw [added.wal]
      exact kept.journaled.moved added.walBytes added.snap (by omega)
    · intro strict
      have inStep := kept.inStep strict
      constructor
      case isOpen =>
          rw [added.wal]
          exact inStep.isOpen
      case coded => exact fun x unlogged => unlogged.imp_right (inStep.coded x)
      case agrees =>
          intro lsn id vector recorded _
          have before := Extends.of_eq added.walBytes.symm lsn id vector recorded
          have below := fresh strict lsn id vector before
          rw [added.rows id below]
          exact inStep.agrees lsn id vector before below
      case even =>
          intro free
          have owns := log inStep.isOpen
          unfold World.Owns at owns
          rw [← added.locks, free] at owns
          cases owns
    · rw [count]
      exact (kept.secured.moved added.header added.snap (.of_eq added.walBytes) added.rows).enter
    · rw [added.wal]
      exact kept.durable
    · rw [added.locks]
      exact kept.locking
    · apply Still.guarantees
      constructor
      case index => exact index
      case locks => exact added.locks
      case hands =>
          intro j x different
          change (l.enter w.store.count i).hand x = some j ↔ l.hand x = some j
          by_cases new : x = w.store.count
          · subst new
            change Function.update l.hand w.store.count (some i) w.store.count = some j ↔ _
            rw [Function.update_self]
            constructor
            · intro mine
              exact absurd (Option.some.inj mine).symm different
            · intro theirs
              exact absurd rfl (below (assigned.hand _ j theirs))
          · rw [handOf x new]
      case calm =>
          intro x present free
          have inside := kept.graphed.inside x present
          exact (handOf x inside.ne).trans free
      case owned =>
          intro j x different
          change t.owners[x]? = some j ↔ w.owners[x]? = some j
          by_cases inside : x < w.store.count
          · rw [old inside]
          · constructor
            · intro theirs
              have bound := getElem?_of_lt theirs
              obtain rfl : x = w.store.count := by omega
              exact absurd (Option.some.inj (theirs.symm.trans last)) different
            · intro theirs
              have bound := getElem?_of_lt theirs
              rw [assigned.owners] at bound
              exact absurd bound inside
      case rows =>
          intro x known
          have inside := assigned.known known
          have other : ∀ p : Prop, (x = w.store.count ∨ p) ↔ p :=
            fun p => or_iff_right inside.ne
          exact ⟨added.rows x inside, other _, other _, old inside⟩
      case content => exact fun x present => added.rows x (kept.graphed.inside x present)
      case kernel => exact added.kernel
      case prior =>
          intro y settled x le
          apply old
          have below : y < w.owners.length := settled.1
          rw [assigned.owners] at below
          exact le.trans_lt below
      case frozen => exact fun free => absurd holds free
      case wal =>
          intro free
          exact ⟨added.wal, added.logFile, fun durable => absurd (log durable) free⟩
      case pq => exact fun _ => added.pq

/-- The last row, about to be taken back by the agent that appended it and has not linked it. -/
structure Retracting (env : Env) (w : World) (l : Ledger) (i id : Nat) : Prop where
  recording : Inscribing env w id
  owner : w.owners[id]? = some i
  hand : l.hand id = some i
  unlinked : w.index.nodes.get id = none

def World.retract (w : World) (id : Nat) : World :=
  { w with store := { w.store with count := id }, owners := w.owners.dropLast }

theorem rollbackLast_retract {id : Nat} (count : w.store.count = id + 1) :
    w.rollbackLast id = .ok (World.retract w id) (.ok ()) := by
  unfold World.rollbackLast VectorStore.rollbackLast
  rw [if_neg (not_not.mpr count)]
  rfl

theorem Consistent.retract (kept : Consistent env crew w l) {id : Nat}
    (retracting : Retracting env w l i id) (holds : w.Holds i .maintenance)
    (owns : w.Owns i .wal) :
    Consistent env crew (World.retract w id) (l.retract id) ∧
      Guarantees i (w, l) (World.retract w id, l.retract id) := by
  have assigned := kept.assigned
  have recording := retracting.recording
  have count := recording.count
  have old : ∀ {x : Nat}, x < id → w.owners.dropLast[x]? = w.owners[x]? := by
    intro x below
    rw [List.getElem?_dropLast, assigned.owners, count, Nat.add_sub_cancel, if_pos below]
  have handOf : ∀ x, x ≠ id → (l.retract id).hand x = l.hand x :=
    fun x apart => Function.update_of_ne apart _ _
  have handSelf : (l.retract id).hand id = none := Function.update_self ..
  have among : ∀ {x}, x < w.store.count → x ≠ id → x < id := fun {x} inside apart => by omega
  refine ⟨⟨?_, ?_, ?_, ?_, ?_, ?_, ?_, kept.durable, kept.locking⟩, ?_⟩
  · have shelved := kept.shelved
    exact ⟨shelved.isStored, shelved.formatted,
      shelved.attached.recount (count.symm ▸ Nat.le_succ id), shelved.dim⟩
  · refine { kept.graphed with inside := ?_ }
    intro x present
    apply among (kept.graphed.inside x present)
    rintro rfl
    change (w.index.nodes.get x).isSome = true at present
    rw [retracting.unlinked] at present
    cases present
  · constructor
    case owners =>
        change w.owners.dropLast.length = id
        rw [List.length_dropLast, assigned.owners, count, Nat.add_sub_cancel]
    case authors =>
        intro x j late owner
        have bound : x < w.owners.dropLast.length := getElem?_of_lt owner
        rw [List.length_dropLast, assigned.owners, count, Nat.add_sub_cancel] at bound
        exact assigned.authors x j late ((old bound).symm.trans owner)
    case nodes =>
        intro x inside coded
        have below : x < id := inside
        exact assigned.nodes x (by omega) fun uncoded => coded ⟨below.ne, uncoded⟩
    case inside => exact fun x uncoded => among (assigned.inside x uncoded.2) uncoded.1
    case owner =>
        intro x uncoded
        obtain ⟨j, owner, rest⟩ := assigned.owner x uncoded.2
        exact ⟨j, (old (among (assigned.inside x uncoded.2) uncoded.1)).trans owner, rest⟩
    case hand =>
        intro x j inHand
        by_cases last : x = id
        · rw [last, handSelf] at inHand
          cases inHand
        · exact ⟨last, assigned.hand x j ((handOf x last).symm.trans inHand)⟩
    case held =>
        intro x j inHand
        by_cases last : x = id
        · rw [last, handSelf] at inHand
          cases inHand
        · have before := (handOf x last).symm.trans inHand
          change w.owners.dropLast[x]? = some j ∨ x ∈ w.running
          rw [old (among (assigned.inside x (assigned.hand x j before)) last)]
          exact assigned.held x j before
    case running =>
        intro x member
        obtain ⟨j, before, foreign⟩ := assigned.running x member
        have apart : x ≠ id := by
          rintro rfl
          rw [retracting.hand] at before
          exact foreign.1 (before ▸ retracting.owner)
        refine ⟨j, (handOf x apart).trans before, ?_, foreign.2⟩
        change w.owners.dropLast[x]? ≠ some j
        rw [old (among (assigned.inside x (assigned.hand x j before)) apart)]
        exact foreign.1
    case once => exact assigned.once
    case pending =>
        intro x member
        obtain ⟨uncoded, nobody, free⟩ := assigned.pending x member
        have apart : x ≠ id := by
          rintro rfl
          rw [retracting.hand] at nobody
          cases nobody
        exact ⟨⟨apart, uncoded⟩, (handOf x apart).trans nobody, free⟩
    case distinct => exact assigned.distinct
    case linked =>
        intro x uncoded
        have below := among (assigned.inside x uncoded.2) uncoded.1
        change _ ∨ _ ∨ _ ∨ ∃ j, w.owners.dropLast[x]? = some j ∧ (l.retract id).hand x = some j
        rw [handOf x uncoded.1, old below]
        exact assigned.linked x uncoded.2
  · intro state isPq
    have coded := kept.coded state isPq
    constructor
    case length =>
        obtain ⟨top, le, short, ends⟩ := coded.length
        have uncoded := assigned.hand id i retracting.hand
        refine ⟨top, ?_, short, ?_⟩
        · change top ≤ id
          by_contra more
          obtain rfl : top = id + 1 := by omega
          exact ends.elim (Nat.succ_ne_zero id) fun coded => coded uncoded
        · exact ends.imp_right fun coded uncoded => coded uncoded.2
    case codes =>
        intro x inside settled
        have below : x < id := inside
        exact coded.codes x (by omega) fun uncoded => settled ⟨below.ne, uncoded⟩
  · obtain ⟨entries, next, journal, aligned, writing⟩ := kept.journaled
    refine ⟨entries, next, journal, aligned, ?_⟩
    intro wal isOpen
    exact ⟨recording.few wal isOpen, recording.known wal entries isOpen journal.logs,
      (writing wal isOpen).healthy⟩
  · intro strict
    have inStep := kept.inStep strict
    constructor
    case isOpen => exact inStep.isOpen
    case coded => exact fun x unlogged => ⟨unlogged.1, inStep.coded x unlogged.2⟩
    case agrees =>
        intro lsn x vector recorded below
        exact inStep.agrees lsn x vector recorded (below.trans (count ▸ Nat.lt_succ_self id))
    case even =>
        intro free
        unfold World.Owns at owns
        rw [show w.locks .wal = Holders.free from free] at owns
        cases owns
  · exact kept.secured.retract count (assigned.hand id i retracting.hand)
  · apply Still.guarantees
    constructor
    case index => rfl
    case locks => rfl
    case hands =>
        intro j x different
        change (l.retract id).hand x = some j ↔ l.hand x = some j
        by_cases last : x = id
        · rw [last, handSelf, retracting.hand]
          exact ⟨nofun, fun mine => absurd (Option.some.inj mine).symm different⟩
        · rw [handOf x last]
    case calm =>
        intro x _ free
        by_cases last : x = id
        · rw [last]
          exact handSelf
        · exact (handOf x last).trans free
    case owned =>
        intro j x different
        change w.owners.dropLast[x]? = some j ↔ w.owners[x]? = some j
        by_cases below : x < id
        · rw [old below]
        · constructor
          · intro theirs
            have bound := getElem?_of_lt theirs
            rw [List.length_dropLast, assigned.owners] at bound
            omega
          · intro theirs
            have bound := getElem?_of_lt theirs
            rw [assigned.owners] at bound
            obtain rfl : x = id := by omega
            exact absurd (Option.some.inj (theirs.symm.trans retracting.owner)) different
    case rows =>
        intro x known
        have apart : x ≠ id := by
          rintro rfl
          rcases known with ⟨j, different, owner⟩ | settled
          · exact different (Option.some.inj (owner.symm.trans retracting.owner))
          · exact settled.2 (assigned.hand x i retracting.hand)
        have other : ∀ p : Prop, (x ≠ id ∧ p) ↔ p := fun p => and_iff_right apart
        exact ⟨rfl, other _, other _, old (among (assigned.known known) apart)⟩
    case content => exact fun _ _ => rfl
    case kernel => rfl
    case prior =>
        intro y settled x le
        have below : y < w.owners.length := settled.1
        rw [assigned.owners] at below
        have apart : y ≠ id := by
          rintro rfl
          exact settled.2 (assigned.hand y i retracting.hand)
        exact old (le.trans_lt (among below apart))
    case frozen => exact fun free => absurd holds free
    case wal => exact fun free => absurd owns free
    case pq => exact fun _ => rfl

end Db

end Vektordb
