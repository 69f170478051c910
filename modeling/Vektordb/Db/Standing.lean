import Vektordb.Interaction.Assertion
import Vektordb.Db.Filing
import Vektordb.Db.Coding

/-!
What an agent knows of the shared database while it runs a call: the locks it has, the rows it has
appended, which of these are complete, what it has in hand, and, while nobody else can change them,
the number of rows, the acknowledged records and the codebook. The others cannot invalidate it, and
each action changes it in one way.
-/

namespace Vektordb

open Interaction LittleEndian VectorStore

namespace Db

inductive Mode where
  | free
  | shared
  | exclusive
  deriving DecidableEq

/-- What an agent with this mode has of a lock. -/
structure Mode.Of (mode : Mode) (i : Nat) (holders : Holders) : Prop where
  shared : holders.shared.count i = if mode = .shared then 1 else 0
  exclusive : holders.exclusive = some i ↔ mode = .exclusive

/-- What the holder of the maintenance lock counts. -/
structure Tally where
  count : Nat
  acked : List (Nat × WalOp)
  quantizer : Option ProductQuantizer

def Tally.of (env : Env) (w : World) : Tally :=
  ⟨w.store.count, acknowledged env w.dir w.wal, w.pq.map PqState.pq⟩

structure Standing where
  mode : Lock → Mode
  /-- The rows that the agent has appended. -/
  rows : Nat → Option Row
  uncoded : Nat → Prop
  unlogged : Nat → Prop
  hand : Nat → Prop
  /-- What is in hand and has no node yet. -/
  fresh : Nat → Prop
  tally : Option Tally

/-- Nobody else runs a call. -/
def Solo (crew : Crew) (i : Nat) : Prop := ∀ j, crew.calls j → j = i

structure Stands (env : Env) (crew : Crew) (i : Nat) (st : Standing) (s : Shared) : Prop where
  locks : ∀ lock, (st.mode lock).Of i (s.1.locks lock)
  owned : ∀ x : Nat, s.1.owners[x]? = some i ↔ (st.rows x).isSome = true
  rows : ∀ x row, st.rows x = some row → s.1.row x = row
  uncoded : ∀ x, (st.rows x).isSome = true → (s.2.uncoded x ↔ st.uncoded x)
  unlogged : ∀ x, (st.rows x).isSome = true → (s.2.unlogged x ↔ st.unlogged x)
  hand : ∀ x, s.2.hand x = some i ↔ st.hand x
  fresh : ∀ x, st.fresh x → st.hand x ∧ s.1.index.nodes.get x = none
  tally : ∀ tally, st.tally = some tally →
    (st.mode .maintenance = .exclusive ∨ Solo crew i) ∧ Tally.of env s.1 = tally

variable {env : Env} {crew : Crew} {i : Nat} {st : Standing} {s t : Shared}

theorem Mode.Of.same {mode : Mode} {before after : Holders} (isOf : mode.Of i before)
    (same : SameHolding i before after) : mode.Of i after :=
  ⟨same.1.trans isOf.shared, same.2.trans isOf.exclusive⟩

theorem Frozen.tally (frozen : Frozen s t) : Tally.of env t.1 = Tally.of env s.1 := by
  unfold Tally.of
  rw [frozen.store, frozen.dir, frozen.wal, frozen.pq]

namespace Stands

theorem owns (stands : Stands env crew i st s) {lock : Lock} (mode : st.mode lock = .exclusive) :
    s.1.Owns i lock := (stands.locks lock).exclusive.mpr mode

theorem holds (stands : Stands env crew i st s) {lock : Lock} (mode : st.mode lock ≠ .free) :
    s.1.Holds i lock := by
  have isOf := stands.locks lock
  cases isMode : st.mode lock with
  | free => exact absurd isMode mode
  | shared =>
      left
      apply List.count_pos_iff.mp
      rw [isOf.shared, isMode]
      exact Nat.zero_lt_one
  | exclusive => exact .inr (stands.owns isMode)

theorem released (stands : Stands env crew i st s) {lock : Lock} (mode : st.mode lock = .free) :
    ¬ s.1.Holds i lock := by
  have isOf := stands.locks lock
  rintro (shared | owns)
  · have some := List.count_pos_iff.mpr shared
    rw [isOf.shared, mode] at some
    cases some
  · have exclusive := isOf.exclusive.mp owns
    rw [mode] at exclusive
    cases exclusive

theorem frozen (stands : Stands env crew i st s)
    (alone : st.mode .maintenance = .exclusive ∨ Solo crew i) (moved : Relies crew i s t) :
    Frozen s t := by
  apply moved.frozen
  rcases alone with exclusive | solo
  · exact .inl (stands.owns exclusive)
  · exact .inr solo

end Stands

theorem stands_stable (env : Env) (crew : Crew) (i : Nat) (st : Standing) :
    (sharing env crew).Stable i (Stands env crew i st) := by
  intro s t moved _ stands
  constructor
  case locks => exact fun lock => (stands.locks lock).same (moved.held lock)
  case owned => exact fun x => (moved.owned x).trans (stands.owned x)
  case rows =>
      intro x row isRow
      have mine := (stands.owned x).mpr (by rw [isRow]; rfl)
      exact (moved.rows x (.inl mine)).row.trans (stands.rows x row isRow)
  case uncoded =>
      intro x isRow
      have mine := (stands.owned x).mpr isRow
      exact (moved.rows x (.inl mine)).uncoded.trans (stands.uncoded x isRow)
  case unlogged =>
      intro x isRow
      have mine := (stands.owned x).mpr isRow
      exact (moved.rows x (.inl mine)).unlogged.trans (stands.unlogged x isRow)
  case hand => exact fun x => (moved.hands x).trans (stands.hand x)
  case fresh =>
      intro x isFresh
      obtain ⟨inHand, free⟩ := stands.fresh x isFresh
      exact ⟨inHand, moved.fresh x ((stands.hand x).mpr inHand) free⟩
  case tally =>
      intro tally isTally
      obtain ⟨alone, same⟩ := stands.tally tally isTally
      exact ⟨alone, (stands.frozen alone moved).tally.trans same⟩

def Standing.start (i : Nat) (s : Shared) : Standing where
  mode _ := .free
  rows x := if s.1.owners[x]? = some i then some (s.1.row x) else none
  uncoded _ := False
  unlogged := s.2.unlogged
  hand _ := False
  fresh _ := False
  tally := none

namespace Standing

structure Idle (st : Standing) : Prop where
  mode : ∀ lock, st.mode lock = .free
  coded : ∀ x, ¬ st.uncoded x
  hand : ∀ x, ¬ st.hand x

def lock (st : Standing) (lock : Lock) (mode : Mode) : Standing :=
  { st with mode := Function.update st.mode lock mode }

def recount (st : Standing) (tally : Option Tally) : Standing := { st with tally := tally }

def enter (st : Standing) (id : Nat) (vector : Row) : Standing :=
  ⟨st.mode, Function.update st.rows id (some vector), fun x => x = id ∨ st.uncoded x,
    fun x => x = id ∨ st.unlogged x, fun x => x = id ∨ st.hand x, fun x => x = id ∨ st.fresh x,
    st.tally.map fun tally => { tally with count := id + 1 }⟩

def record (st : Standing) (lsn id : Nat) (vector : Row) : Standing :=
  { st with
    unlogged := fun x => x ≠ id ∧ st.unlogged x
    tally := st.tally.map fun tally =>
      { tally with acked := tally.acked ++ [(lsn, .insert id vector)] } }

def complete (st : Standing) (id : Nat) : Standing :=
  { st with
    uncoded := fun x => x ≠ id ∧ st.uncoded x
    hand := fun x => x ≠ id ∧ st.hand x
    fresh := fun x => x ≠ id ∧ st.fresh x }

def completeBatch (st : Standing) (base n : Nat) : Standing :=
  { st with uncoded := fun x => ¬ InBatch base n x ∧ st.uncoded x }

def passOn (st : Standing) (base n : Nat) : Standing :=
  { st with
    hand := fun x => ¬ InBatch base n x ∧ st.hand x
    fresh := fun x => ¬ InBatch base n x ∧ st.fresh x }

def take (st : Standing) (id : Nat) : Standing :=
  { st with hand := fun x => x = id ∨ st.hand x, fresh := fun x => x = id ∨ st.fresh x }

def link (st : Standing) (id : Nat) : Standing := { st with fresh := fun x => x ≠ id ∧ st.fresh x }

def drop (st : Standing) (id : Nat) : Standing :=
  { st with hand := fun x => x ≠ id ∧ st.hand x, fresh := fun x => x ≠ id ∧ st.fresh x }

end Standing

/-! ### Actions that change nothing -/

theorem does_read {op : Action} {known : Shared → Prop} {post : Shared → Answer op → Prop}
    (silent : ∀ l answer, note i l op answer = l)
    (promised : ∀ t, (∃ u answer, handle env i t.1 op = .ok u answer) → Promised env crew i t op)
    (reads : ∀ t : Shared, Consistent env crew t.1 t.2 → known t →
      ∃ answer, handle env i t.1 op = .ok t.1 answer ∧ post t answer) :
    Does (noted env) (sharing env crew) i op known post := by
  intro t kept _ holds
  obtain ⟨answer, answered, after⟩ := reads t kept holds
  refine ⟨promised t ⟨t.1, answer, answered⟩, ?_⟩
  intro u other done
  obtain ⟨inner, noted⟩ := Handler.noting_inv done
  obtain ⟨v, l⟩ := u
  change handle env i t.1 op = .ok v other at inner
  obtain rfl : l = t.2 := noted.trans (silent t.2 other)
  rw [answered] at inner
  cases inner
  exact ⟨kept, Guarantees.refl i t, after⟩

theorem does_act {op : Action} {known : Shared → Prop} {post : Shared → Answer op → Prop}
    (acts : ∀ t : Shared, Consistent env crew t.1 t.2 → known t → Promised env crew i t op ∧
      ∀ w answer, handle env i t.1 op = .ok w answer →
        Consistent env crew w (note i t.2 op answer) ∧ Guarantees i t (w, note i t.2 op answer) ∧
          post (w, note i t.2 op answer) answer) :
    Does (noted env) (sharing env crew) i op known post := by
  intro t kept _ holds
  obtain ⟨promised, steps⟩ := acts t kept holds
  refine ⟨promised, ?_⟩
  intro u answer done
  obtain ⟨inner, noted⟩ := Handler.noting_inv done
  obtain ⟨w, l⟩ := u
  change l = note i t.2 op answer at noted
  subst noted
  exact steps w answer inner

/-! ### Locks -/

def Mode.wanted (exclusive : Bool) : Mode := if exclusive then .exclusive else .shared

theorem Stands.setLock (stands : Stands env crew i st s) {lock : Lock} {mode : Mode}
    {holders : Holders} (isOf : mode.Of i holders) (tally : Option Tally)
    (counted : ∀ τ, tally = some τ → st.tally = some τ ∧ (lock ≠ .maintenance ∨ Solo crew i)) :
    Stands env crew i ((st.lock lock mode).recount tally) (s.1.setLock lock holders, s.2) := by
  constructor
  case locks =>
      intro other
      change (Function.update st.mode lock mode other).Of i ((s.1.setLock lock holders).locks other)
      rw [setLock_locks]
      by_cases same : other = lock
      · subst same
        rw [Function.update_self, if_pos rfl]
        exact isOf
      · rw [Function.update_of_ne same, if_neg same]
        exact stands.locks other
  case owned => exact stands.owned
  case rows => exact stands.rows
  case uncoded => exact stands.uncoded
  case unlogged => exact stands.unlogged
  case hand => exact stands.hand
  case fresh => exact stands.fresh
  case tally =>
      intro τ isTally
      obtain ⟨before, still⟩ := counted τ isTally
      obtain ⟨alone, same⟩ := stands.tally τ before
      refine ⟨?_, same⟩
      change Function.update st.mode lock mode .maintenance = _ ∨ _
      rcases still with other | solo
      · rw [Function.update_of_ne (Ne.symm other)]
        exact alone
      · exact .inr solo

/-- Every lock of the agent comes before this one. -/
def Standing.Below (st : Standing) (lock : Lock) : Prop :=
  ∀ held, st.mode held ≠ .free → rank held < rank lock

theorem Standing.Below.free {lock : Lock} (below : st.Below lock) : st.mode lock = .free := by
  by_contra held
  exact absurd (below lock held) (lt_irrefl _)

theorem Standing.below_of {lock : Lock} (log : st.mode .wal = .free) (pq : st.mode .pq = .free)
    (other : lock ≠ .maintenance) : st.Below lock := by
  intro held isHeld
  cases held with
  | maintenance =>
      cases lock with
      | maintenance => exact absurd rfl other
      | wal => exact Nat.zero_lt_one
      | pq => exact Nat.zero_lt_one
  | wal => exact absurd log isHeld
  | pq => exact absurd pq isHeld

theorem Standing.Idle.below (idle : st.Idle) (lock : Lock) : st.Below lock :=
  fun held isHeld => absurd (idle.mode held) isHeld

theorem Stands.holds_inv (stands : Stands env crew i st s) {lock : Lock}
    (holds : s.1.Holds i lock) : st.mode lock ≠ .free :=
  fun free => stands.released free holds

theorem does_acquire (calls : crew.calls i) {lock : Lock} (exclusive : Bool)
    (below : st.Below lock) :
    Does (noted env) (sharing env crew) i (.acquire lock exclusive) (Stands env crew i st)
      fun t _ => Stands env crew i (st.lock lock (Mode.wanted exclusive)) t := by
  apply does_act
  intro t kept stands
  have mode := below.free
  refine ⟨.inr ⟨calls, fun held holds => below held (stands.holds_inv holds)⟩, ?_⟩
  intro w answer done
  obtain ⟨after, guarantees⟩ := kept.acquire calls done
  refine ⟨after, guarantees, ?_⟩
  obtain ⟨holders, rfl, taken⟩ := acquire_cases done
  refine stands.setLock ?_ st.tally ?_
  · have before := stands.locks lock
    rw [mode] at before
    rcases taken with ⟨rfl, -, rfl⟩ | ⟨rfl, free, rfl⟩
    · exact ⟨rfl, fun _ => rfl, fun _ => rfl⟩
    · refine ⟨?_, ?_⟩
      · change (i :: (t.1.locks lock).shared).count i = 1
        rw [List.count_cons_self, before.shared]
        rfl
      · change (t.1.locks lock).exclusive = some i ↔ _
        rw [free]
        exact ⟨nofun, nofun⟩
  · intro τ isTally
    refine ⟨isTally, ?_⟩
    by_cases isMaintenance : lock = .maintenance
    · right
      obtain ⟨exclusive | solo, -⟩ := stands.tally τ isTally
      · rw [← isMaintenance, mode] at exclusive
        cases exclusive
      · exact solo
    · exact .inl isMaintenance

/-- Outside the WAL lock every row of a strict log has its record. -/
def Paired (crew : Crew) (s : Shared) : Prop := crew.strict → Even s.1

theorem paired_stable (env : Env) (crew : Crew) (log : st.mode .wal = .exclusive) :
    (sharing env crew).Stable i fun t => Stands env crew i st t ∧ Paired crew t := by
  rintro s t moved kept ⟨stands, even⟩
  refine ⟨stands_stable env crew i st s t moved kept stands, ?_⟩
  intro strict wal isOpen
  have same := Relies.wal moved (stands.owns log)
  rw [same.wal] at isOpen
  rw [(same.store (by rw [isOpen]; rfl)).1]
  exact even strict wal isOpen

theorem does_acquireLog (calls : crew.calls i) (below : st.Below .wal) :
    Does (noted env) (sharing env crew) i (.acquire .wal true) (Stands env crew i st)
      fun t _ => Stands env crew i (st.lock .wal .exclusive) t ∧ Paired crew t := by
  apply (does_acquire calls true below).also
  intro t u answer kept _ done strict
  obtain ⟨inner, -⟩ := Handler.noting_inv done
  have acquired : t.1.acquire i .wal true = .ok u.1 () := inner
  obtain ⟨holders, same, ⟨-, free, -⟩ | ⟨impossible, -⟩⟩ := acquire_cases acquired
  · rw [same]
    exact (Consistent.inStep kept strict).even free
  · cases impossible

theorem does_release {lock : Lock} (exclusive : Bool) (mode : st.mode lock = Mode.wanted exclusive)
    (done : lock = .maintenance → ∀ x, ¬ st.uncoded x) {tally : Option Tally}
    (counted : ∀ τ, tally = some τ → st.tally = some τ ∧ (lock ≠ .maintenance ∨ Solo crew i)) :
    Does (noted env) (sharing env crew) i (.release lock exclusive)
      (fun t => Stands env crew i st t ∧ (lock = .wal → Paired crew t))
      fun t _ => Stands env crew i ((st.lock lock .free).recount tally) t := by
  apply does_act
  rintro t kept ⟨stands, even⟩
  refine ⟨.inl ⟨_, (), rfl⟩, ?_⟩
  intro w answer answered
  cases answered
  have complete : lock = .maintenance → ∀ x : Nat, t.2.uncoded x → t.1.owners[x]? ≠ some i := by
    intro maintenance x uncoded mine
    have isRow := (stands.owned x).mp mine
    exact done maintenance x ((stands.uncoded x isRow).mp uncoded)
  have owns : exclusive = true → t.1.Owns i lock := by
    rintro rfl
    exact stands.owns mode
  obtain ⟨after, guarantees⟩ := kept.release owns complete even
  refine ⟨after, guarantees, ?_⟩
  have before := stands.locks lock
  change Stands env crew i _ (t.1.release i lock exclusive, t.2)
  unfold World.release
  dsimp only
  cases exclusive with
  | true =>
      rw [if_pos rfl]
      refine stands.setLock ?_ _ counted
      refine ⟨?_, nofun, nofun⟩
      rw [before.shared, mode]
      rfl
  | false =>
      rw [if_neg (by decide)]
      refine stands.setLock ?_ _ counted
      refine ⟨?_, ?_⟩
      · change ((t.1.locks lock).shared.erase i).count i = 0
        rw [List.count_erase_self, before.shared, mode]
        rfl
      · rw [before.exclusive, mode]
        exact ⟨nofun, nofun⟩

/-! ### Rows -/

theorem Inscribing.moved {id : Nat} (recording : Inscribing env s.1 id) (moved : Relies crew i s t)
    (owns : s.1.Owns i .wal) : Inscribing env t.1 id := by
  have same := moved.wal owns
  obtain ⟨store, -⟩ := same.store recording.isOpen
  constructor
  case isOpen =>
      rw [same.wal]
      exact recording.isOpen
  case count =>
      rw [store]
      exact recording.count
  case few =>
      rw [same.wal]
      exact recording.few
  case known =>
      unfold Directory.walBytes
      rw [same.wal, same.file]
      exact recording.known

/-- A row that its agent has appended last and not recorded. -/
structure Entered (env : Env) (crew : Crew) (i : Nat) (st : Standing) (id : Nat) (s : Shared) :
    Prop where
  stands : Stands env crew i st s
  recording : crew.db.durable = true → Inscribing env s.1 id
  next : crew.strict → ∀ wal, s.1.wal = some wal → wal.nextLsn = id

theorem Consistent.durable_of {w : World} {l : Ledger} (kept : Consistent env crew w l)
    (strict : crew.strict) : crew.db.durable = true :=
  kept.durable.symm.trans (kept.inStep strict).isOpen

theorem entered_stable (env : Env) (crew : Crew) (i : Nat) {id : Nat}
    (log : crew.db.durable = true → st.mode .wal = .exclusive) :
    (sharing env crew).Stable i (Entered env crew i st id) := by
  intro s t moved kept entered
  have stands := entered.stands
  constructor
  case stands => exact stands_stable env crew i st s t moved kept stands
  case recording => exact fun durable => (entered.recording durable).moved moved (stands.owns (log durable))
  case next =>
      intro strict
      rw [(Relies.wal moved (stands.owns (log (Consistent.durable_of kept strict)))).wal]
      exact entered.next strict

def AfterAppend (env : Env) (crew : Crew) (i : Nat) (st : Standing) (vector : Row) (t : Shared) :
    Result Nat → Prop
  | .ok id => Entered env crew i (st.enter id vector) id t ∧ id < SegVec.CAPACITY ∧
      st.rows id = none ∧ ¬ st.hand id ∧ ¬ st.fresh id ∧ ∀ τ, st.tally = some τ → id = τ.count
  | .error _ => Stands env crew i st t ∧ Paired crew t

/-- The log is about to take the record of a row that is not there yet. -/
def Fit (crew : Crew) (s : Shared) : Prop :=
  crew.strict → Even s.1 ∧ ∀ wal, s.1.wal = some wal → wal.poisoned = false

theorem afterAppend_stable (env : Env) (crew : Crew)
    (log : crew.db.durable = true → st.mode .wal = .exclusive) (vector : Row) (result : Result Nat) :
    (sharing env crew).Stable i fun t => AfterAppend env crew i st vector t result := by
  cases result with
  | ok id =>
      have entered : (sharing env crew).Stable i (Entered env crew i (st.enter id vector) id) :=
        entered_stable env crew i log
      exact entered.and fun _ _ _ _ still => still
  | error e =>
      rintro s t moved kept ⟨stands, even⟩
      refine ⟨stands_stable env crew i st s t moved kept stands, ?_⟩
      intro strict
      have durable := Consistent.durable_of kept strict
      exact (paired_stable env crew (log durable) s t moved kept ⟨stands, even⟩).2 strict

theorem Fit.fresh (fit : Fit crew s) (kept : Consistent env crew s.1 s.2) (strict : crew.strict) :
    ∀ lsn id row, InLog env s.1.dir lsn id row → id < s.1.store.count := by
  rintro lsn id row ⟨entries, logs, member⟩
  obtain ⟨entries', next, journal, aligned, writing⟩ := kept.journaled
  obtain rfl := Logs.unique env.hash_lt logs journal.logs
  obtain ⟨wal, isOpen⟩ := Option.isSome_iff_exists.mp (kept.inStep strict).isOpen
  obtain ⟨even, healthy⟩ := fit strict
  have below := journal.consecutive.lt member
  have isNext := ((writing wal isOpen).healthy (healthy wal isOpen)).1
  have isCount := even wal isOpen
  have same : lsn = id := (aligned strict).lsns _ member
  have early : lsn < next := below
  omega

theorem does_append (writes : crew.writes i) (mode : st.mode .maintenance ≠ .free)
    (log : crew.db.durable = true → st.mode .wal = .exclusive) (vector : Row) :
    Does (noted env) (sharing env crew) i (.append vector)
      (fun t => Stands env crew i st t ∧ Fit crew t)
      fun t result => AfterAppend env crew i st vector t result := by
  apply does_act
  rintro t kept ⟨stands, fit⟩
  refine ⟨.inl ?_, ?_⟩
  · change ∃ u answer, t.1.append i vector = .ok u answer
    unfold World.append
    split <;> exact ⟨_, _, rfl⟩
  · intro w result done
    have isOpen : t.1.wal.isSome = true → t.1.Owns i .wal := by
      intro some
      exact stands.owns (log (kept.durable.symm.trans some))
    obtain ⟨after, guarantees, added⟩ :=
      kept.append writes (stands.holds mode) isOpen (fit.fresh kept) done
    refine ⟨after, guarantees, ?_⟩
    have assigned := kept.assigned
    have sameTally : w.store.count = t.1.store.count →
        Tally.of env w = Tally.of env t.1 := by
      intro count
      unfold Tally.of acknowledged
      rw [count, added.wal, added.pq, added.walBytes]
    rcases added.outcome with ⟨e, rfl, count, owners⟩ | ⟨rfl, length, count, owners, row⟩
    · refine ⟨?_, ?_⟩
      rotate_left
      · intro strict
        unfold Even
        rw [added.wal, count]
        exact (fit strict).1
      change Stands env crew i st (w, t.2)
      constructor
      case locks =>
          rw [added.locks]
          exact stands.locks
      case owned =>
          rw [owners]
          exact stands.owned
      case rows =>
          intro x row isRow
          have mine := (stands.owned x).mpr (by rw [isRow]; rfl)
          have inside := getElem?_of_lt mine
          rw [assigned.owners] at inside
          exact (added.rows x inside).trans (stands.rows x row isRow)
      case uncoded => exact stands.uncoded
      case unlogged => exact stands.unlogged
      case hand => exact stands.hand
      case fresh =>
          rw [added.index]
          exact stands.fresh
      case tally =>
          intro τ isTally
          obtain ⟨alone, same⟩ := stands.tally τ isTally
          exact ⟨alone, (sameTally count).trans same⟩
    · have noRow : st.rows t.1.store.count = none := by
        rw [← Option.not_isSome_iff_eq_none, ← stands.owned]
        intro mine
        have inside := getElem?_of_lt mine
        rw [assigned.owners] at inside
        exact Nat.lt_irrefl _ inside
      have noHand : ¬ st.hand t.1.store.count := by
        intro hand
        have uncoded := assigned.hand _ i ((stands.hand _).mpr hand)
        exact Nat.lt_irrefl _ (assigned.inside _ uncoded)
      have lastOwner : w.owners[t.1.store.count]? = some i := by
        rw [owners, ← assigned.owners, List.getElem?_append_right le_rfl, Nat.sub_self]
        rfl
      have oldOwner : ∀ {x : Nat}, x ≠ t.1.store.count → w.owners[x]? = t.1.owners[x]? := by
        intro x apart
        rw [owners]
        by_cases inside : x < t.1.owners.length
        · exact List.getElem?_append_left inside
        · rw [List.getElem?_eq_none (Nat.le_of_not_lt inside), List.getElem?_eq_none]
          rw [List.length_append, List.length_singleton]
          rw [assigned.owners] at inside ⊢
          omega
      have inside : t.1.store.count < SegVec.CAPACITY := by
        have capacity := after.shelved.attached.count_le
        rw [count, CAPACITY_eq] at capacity
        exact capacity
      have noFresh : ¬ st.fresh t.1.store.count := fun isFresh => noHand (stands.fresh _ isFresh).1
      have next : crew.strict → ∀ wal, w.wal = some wal → wal.nextLsn = t.1.store.count := by
        rw [added.wal]
        exact fun strict => (fit strict).1
      refine ⟨⟨?_, ?_, next⟩, inside, noRow, noHand, noFresh, ?_⟩
      · constructor
        case locks =>
            rw [added.locks]
            exact stands.locks
        case owned =>
            intro x
            change w.owners[x]? = some i ↔ (Function.update st.rows _ (some vector) x).isSome = true
            by_cases new : x = t.1.store.count
            · subst new
              rw [Function.update_self, lastOwner]
              exact ⟨fun _ => rfl, fun _ => rfl⟩
            · rw [Function.update_of_ne new, oldOwner new]
              exact stands.owned x
        case rows =>
            intro x content isRow
            change Function.update st.rows _ (some vector) x = some content at isRow
            by_cases new : x = t.1.store.count
            · subst new
              rw [Function.update_self] at isRow
              cases isRow
              exact row
            · rw [Function.update_of_ne new] at isRow
              have mine := (stands.owned x).mpr (by rw [isRow]; rfl)
              have inside := getElem?_of_lt mine
              rw [assigned.owners] at inside
              exact (added.rows x inside).trans (stands.rows x content isRow)
        case uncoded =>
            intro x isRow
            change (Function.update st.rows _ (some vector) x).isSome = true at isRow
            change (x = t.1.store.count ∨ t.2.uncoded x) ↔ (x = t.1.store.count ∨ st.uncoded x)
            by_cases new : x = t.1.store.count
            · exact ⟨fun _ => .inl new, fun _ => .inl new⟩
            · rw [Function.update_of_ne new] at isRow
              exact or_congr_right (stands.uncoded x isRow)
        case unlogged =>
            intro x isRow
            change (Function.update st.rows _ (some vector) x).isSome = true at isRow
            change (x = t.1.store.count ∨ t.2.unlogged x) ↔ (x = t.1.store.count ∨ st.unlogged x)
            by_cases new : x = t.1.store.count
            · exact ⟨fun _ => .inl new, fun _ => .inl new⟩
            · rw [Function.update_of_ne new] at isRow
              exact or_congr_right (stands.unlogged x isRow)
        case hand =>
            intro x
            change Function.update t.2.hand t.1.store.count (some i) x = some i ↔
              (x = t.1.store.count ∨ st.hand x)
            by_cases new : x = t.1.store.count
            · subst new
              rw [Function.update_self]
              exact ⟨fun _ => .inl rfl, fun _ => rfl⟩
            · rw [Function.update_of_ne new, stands.hand x]
              exact ⟨.inr, fun either => either.resolve_left new⟩
        case fresh =>
            change ∀ x, (x = t.1.store.count ∨ st.fresh x) →
              (x = t.1.store.count ∨ st.hand x) ∧ w.index.nodes.get x = none
            rw [added.index]
            rintro x (rfl | isFresh)
            · refine ⟨.inl rfl, Option.not_isSome_iff_eq_none.mp ?_⟩
              intro present
              exact Nat.lt_irrefl _ (kept.graphed.inside _ present)
            · obtain ⟨inHand, free⟩ := stands.fresh x isFresh
              exact ⟨.inr inHand, free⟩
        case tally =>
            intro τ isTally
            obtain ⟨before, isBefore, rfl⟩ := Option.map_eq_some_iff.mp isTally
            obtain ⟨alone, same⟩ := stands.tally before isBefore
            refine ⟨alone, ?_⟩
            rw [← same]
            unfold Tally.of acknowledged
            rw [count, added.wal, added.pq, added.walBytes]
      · intro durable
        obtain ⟨entries, next, journal, -, writing⟩ := kept.journaled
        constructor
        case isOpen =>
            change w.wal.isSome = true
            rw [added.wal]
            exact kept.durable.trans durable
        case count => exact count
        case few =>
            change ∀ wal, w.wal = some wal → _
            rw [added.wal]
            exact fun wal isOpen => (writing wal isOpen).few
        case known =>
            change ∀ wal entries, w.wal = some wal → Logs env.hash w.dir.walBytes entries → _
            rw [added.wal, added.walBytes]
            intro wal others isOpen logs
            rw [← Logs.unique env.hash_lt journal.logs logs]
            exact (writing wal isOpen).known
      · intro τ isTally
        obtain ⟨-, same⟩ := stands.tally τ isTally
        rw [← same]
        rfl

theorem Stands.refile (stands : Stands env crew i st s) (dir : Directory) (log : Option Wal)
    (faults : List Wal.Fault) (rows : ∀ x, s.1.store.getUnchecked dir.file x = s.1.row x)
    (tally : Option Tally) (counted : ∀ τ, tally = some τ → ∃ before, st.tally = some before ∧
      (Tally.of env s.1 = before → Tally.of env (World.refile s.1 dir log faults) = τ)) :
    Stands env crew i (st.recount tally) (World.refile s.1 dir log faults, s.2) := by
  constructor
  case locks => exact stands.locks
  case owned => exact stands.owned
  case rows =>
      intro x row isRow
      exact (rows x).trans (stands.rows x row isRow)
  case uncoded => exact stands.uncoded
  case unlogged => exact stands.unlogged
  case hand => exact stands.hand
  case fresh => exact stands.fresh
  case tally =>
      intro τ isTally
      obtain ⟨before, isBefore, leads⟩ := counted τ isTally
      obtain ⟨alone, same⟩ := stands.tally before isBefore
      exact ⟨alone, leads same⟩

def AfterRecord (env : Env) (crew : Crew) (i : Nat) (st : Standing) (id : Nat) (vector : Row)
    (t : Shared) : Result Nat → Prop
  | .ok lsn => Stands env crew i (st.record lsn id vector) t ∧ Paired crew t
  | .error _ => Entered env crew i st id t

theorem afterRecord_stable (env : Env) (crew : Crew) (i id : Nat)
    (log : st.mode .wal = .exclusive) (vector : Row) (result : Result Nat) :
    (sharing env crew).Stable i fun t => AfterRecord env crew i st id vector t result := by
  cases result with
  | ok lsn =>
      have still : (st.record lsn id vector).mode .wal = .exclusive := log
      exact paired_stable env crew still
  | error e => exact entered_stable env crew i fun _ => log

theorem Stands.record (stands : Stands env crew i st s) (id : Nat) :
    Stands env crew i { st with unlogged := fun x => x ≠ id ∧ st.unlogged x }
      (s.1, s.2.record id) :=
  ⟨stands.locks, stands.owned, stands.rows, stands.uncoded,
    fun x isRow => and_congr_right fun _ => stands.unlogged x isRow, stands.hand, stands.fresh,
    stands.tally⟩

theorem does_walAppend (mode : st.mode .maintenance ≠ .free) (log : st.mode .wal = .exclusive)
    (durable : crew.db.durable = true) {id : Nat} {vector : Row} (isRow : st.rows id = some vector)
    (uncoded : st.uncoded id) :
    Does (noted env) (sharing env crew) i (.walAppend (.insert id vector)) (Entered env crew i st id)
      fun t result => AfterRecord env crew i st id vector t result := by
  apply does_act
  intro t kept entered
  have stands := entered.stands
  have recording := entered.recording durable
  refine ⟨recording, ?_⟩
  intro w result done
  have isSome : (st.rows id).isSome = true := by
    rw [isRow]
    rfl
  obtain ⟨after, guarantees, recorded⟩ := kept.walAppend (stands.holds mode) (stands.owns log)
    recording (stands.rows id vector isRow) ((stands.owned id).mpr isSome)
    ((stands.uncoded id isSome).mpr uncoded) entered.next done
  refine ⟨after, guarantees, ?_⟩
  obtain ⟨bytes, wal, rfl⟩ := recorded.files
  have numbered : ∀ strict : crew.strict, ∀ old, t.1.wal = some old → old.nextLsn = id := entered.next
  rcases recorded.outcome with ⟨e, rfl, still, acked, lsn⟩ | ⟨lsn, rfl, acked, lsns⟩
  · refine ⟨?_, fun _ => still, ?_⟩
    rotate_left
    · intro strict log isLog
      cases isLog
      obtain ⟨old, isOpen, same⟩ := Option.map_eq_some_iff.mp lsn.symm
      exact same.symm.trans (numbered strict old isOpen)
    refine stands.refile { t.1.dir with wal := some bytes } (some wal) t.1.faults.tail
      (fun _ => rfl) st.tally ?_
    intro τ isTally
    refine ⟨τ, isTally, ?_⟩
    intro same
    rw [← same]
    unfold Tally.of
    rw [acked]
    rfl
  · refine ⟨?_, ?_⟩
    rotate_left
    · intro strict log isLog
      cases isLog
      obtain ⟨old, isOpen, same⟩ := Option.map_eq_some_iff.mp lsns.symm
      have isId := numbered strict old isOpen
      have count : t.1.store.count = id + 1 := recording.count
      change wal.nextLsn = t.1.store.count
      omega
    refine (stands.record id).refile { t.1.dir with wal := some bytes } (some wal)
      t.1.faults.tail (fun _ => rfl) (st.record lsn id vector).tally ?_
    intro τ isTally
    obtain ⟨before, isBefore, rfl⟩ := Option.map_eq_some_iff.mp isTally
    refine ⟨before, isBefore, ?_⟩
    intro same
    rw [← same]
    unfold Tally.of
    rw [acked]
    rfl

theorem does_rollback {id : Nat} {vector : Row} (mode : st.mode .maintenance ≠ .free)
    (log : st.mode .wal = .exclusive) (durable : crew.db.durable = true) (noRow : st.rows id = none)
    (noHand : ¬ st.hand id) (noFresh : ¬ st.fresh id)
    (counted : ∀ τ, st.tally = some τ → id = τ.count) :
    Does (noted env) (sharing env crew) i (.rollbackLast id)
      (Entered env crew i (st.enter id vector) id)
      fun t result => result = .ok () ∧ Stands env crew i st t ∧ Paired crew t := by
  apply does_act
  intro t kept entered
  have stands := entered.stands
  have recording := entered.recording durable
  have answered : handle env i t.1 (.rollbackLast id) = .ok (World.retract t.1 id) (.ok ()) :=
    rollbackLast_retract recording.count
  refine ⟨.inl ⟨_, _, answered⟩, ?_⟩
  intro w result done
  rw [answered] at done
  cases done
  have inHand : t.2.hand id = some i := (stands.hand id).mpr (.inl rfl)
  have owner : t.1.owners[id]? = some i := by
    rw [stands.owned]
    change (Function.update st.rows id (some vector) id).isSome = true
    rw [Function.update_self]
    rfl
  have retracting : Retracting env t.1 t.2 i id := ⟨recording, owner, inHand, (stands.fresh id (.inl rfl)).2⟩
  obtain ⟨after, guarantees⟩ := kept.retract retracting (stands.holds mode) (stands.owns log)
  refine ⟨after, guarantees, rfl, ?_, entered.next⟩
  have length : t.1.owners.length = id + 1 := kept.assigned.owners.trans recording.count
  change Stands env crew i st (World.retract t.1 id, t.2.retract id)
  have rowOf : ∀ {x : Nat}, x ≠ id → Function.update st.rows id (some vector) x = st.rows x :=
    fun apart => Function.update_of_ne apart _ _
  constructor
  case locks => exact stands.locks
  case owned =>
      intro x
      change t.1.owners.dropLast[x]? = some i ↔ _
      rw [List.getElem?_dropLast, length, Nat.add_sub_cancel]
      by_cases below : x < id
      · rw [if_pos below, stands.owned x]
        change (Function.update st.rows id (some vector) x).isSome = true ↔ _
        rw [rowOf below.ne]
      · rw [if_neg below]
        refine ⟨nofun, ?_⟩
        intro isRow
        have apart : x ≠ id := by
          rintro rfl
          rw [noRow] at isRow
          cases isRow
        have mine : t.1.owners[x]? = some i := by
          rw [stands.owned]
          change (Function.update st.rows id (some vector) x).isSome = true
          rw [rowOf apart]
          exact isRow
        have inside := getElem?_of_lt mine
        omega
  case rows =>
      intro x row isRow
      apply stands.rows x row
      change Function.update st.rows id (some vector) x = some row
      rw [rowOf, isRow]
      rintro rfl
      rw [noRow] at isRow
      cases isRow
  case uncoded =>
      intro x isRow
      have apart : x ≠ id := by
        rintro rfl
        rw [noRow] at isRow
        cases isRow
      have same := stands.uncoded x (by
        change (Function.update st.rows id (some vector) x).isSome = true
        rw [rowOf apart]
        exact isRow)
      change (x ≠ id ∧ t.2.uncoded x) ↔ st.uncoded x
      rw [same]
      exact ⟨fun both => both.2.resolve_left apart, fun uncoded => ⟨apart, .inr uncoded⟩⟩
  case unlogged =>
      intro x isRow
      have apart : x ≠ id := by
        rintro rfl
        rw [noRow] at isRow
        cases isRow
      have same := stands.unlogged x (by
        change (Function.update st.rows id (some vector) x).isSome = true
        rw [rowOf apart]
        exact isRow)
      change (x ≠ id ∧ t.2.unlogged x) ↔ st.unlogged x
      rw [same]
      exact ⟨fun both => both.2.resolve_left apart, fun unlogged => ⟨apart, .inr unlogged⟩⟩
  case hand =>
      intro x
      change Function.update t.2.hand id none x = some i ↔ st.hand x
      by_cases same : x = id
      · subst same
        rw [Function.update_self]
        exact ⟨nofun, fun hand => absurd hand noHand⟩
      · rw [Function.update_of_ne same, stands.hand]
        exact ⟨fun either => either.resolve_left same, .inr⟩
  case fresh =>
      intro x isFresh
      obtain ⟨inHand, free⟩ := stands.fresh x (.inr isFresh)
      refine ⟨inHand.resolve_left ?_, free⟩
      rintro rfl
      exact noFresh isFresh
  case tally =>
      intro τ isTally
      obtain ⟨alone, same⟩ := stands.tally { τ with count := id + 1 } (by
        change st.tally.map _ = _
        rw [isTally]
        rfl)
      refine ⟨alone, ?_⟩
      obtain rfl := counted τ isTally
      have acked := congrArg Tally.acked same
      have quantizer := congrArg Tally.quantizer same
      change Tally.mk τ.count (Tally.of env t.1).acked (Tally.of env t.1).quantizer = τ
      rw [acked, quantizer]

/-! ### Codes -/

theorem Stands.recode (stands : Stands env crew i st s) (pq : Option PqState)
    (quantizer : pq.map PqState.pq = s.1.pq.map PqState.pq) {after : Ledger} {st' : Standing}
    (mode : st'.mode = st.mode) (rows : st'.rows = st.rows) (tally : st'.tally = st.tally)
    (uncoded : ∀ x, (st.rows x).isSome = true → (after.uncoded x ↔ st'.uncoded x))
    (unlogged : after.unlogged = s.2.unlogged ∧ st'.unlogged = st.unlogged)
    (hand : ∀ x, after.hand x = some i ↔ st'.hand x)
    (fresh : ∀ x, st'.fresh x → st.fresh x ∧ st'.hand x) :
    Stands env crew i st' ({ s.1 with pq := pq }, after) := by
  constructor
  case locks =>
      rw [mode]
      exact stands.locks
  case owned =>
      rw [rows]
      exact stands.owned
  case rows =>
      rw [rows]
      exact stands.rows
  case uncoded =>
      rw [rows]
      exact uncoded
  case unlogged =>
      rw [rows, unlogged.1, unlogged.2]
      exact stands.unlogged
  case hand => exact hand
  case fresh =>
      intro x isFresh
      obtain ⟨before, inHand⟩ := fresh x isFresh
      exact ⟨inHand, (stands.fresh x before).2⟩
  case tally =>
      rw [tally, mode]
      intro τ isTally
      obtain ⟨alone, same⟩ := stands.tally τ isTally
      refine ⟨alone, ?_⟩
      rw [← same]
      unfold Tally.of
      rw [← quantizer]

/-- A row whose node is in the graph. -/
structure Linked (env : Env) (crew : Crew) (i : Nat) (st : Standing) (id : Nat) (s : Shared) :
    Prop where
  stands : Stands env crew i st s
  present : (s.1.index.nodes.get id).isSome = true

theorem linked_stable (env : Env) (crew : Crew) (i : Nat) (st : Standing) (id : Nat) :
    (sharing env crew).Stable i (Linked env crew i st id) := by
  intro s t moved kept linked
  exact ⟨stands_stable env crew i st s t moved kept linked.stands,
    isSome_grows moved.grows linked.present⟩

theorem does_encodeRow {id : Nat} {vector : Row} (mode : st.mode .maintenance ≠ .free)
    (pq : st.mode .pq = .exclusive) (isRow : st.rows id = some vector) (hand : st.hand id)
    (logged : crew.strict → ¬ st.unlogged id) :
    Does (noted env) (sharing env crew) i (.encodeRow id vector) (Linked env crew i st id)
      fun t _ => Stands env crew i (st.complete id) t := by
  apply does_act
  intro t kept linked
  have stands := linked.stands
  refine ⟨.inl ⟨_, _, rfl⟩, ?_⟩
  intro w answer done
  cases done
  have isSome : (st.rows id).isSome = true := by
    rw [isRow]
    rfl
  obtain ⟨after, guarantees⟩ := kept.encodeRow (stands.holds mode) (stands.owns pq)
    ((stands.owned id).mpr isSome) ((stands.hand id).mpr hand) linked.present
    (stands.rows id vector isRow)
    fun strict unlogged => logged strict ((stands.unlogged id isSome).mp unlogged)
  refine ⟨after, guarantees, ?_⟩
  change Stands env crew i _ (t.1.encodeRow env id vector, t.2.leave id)
  rw [encodeRow_eq_withCode]
  apply stands.recode
  · rw [Option.map_map]
    rfl
  · rfl
  · rfl
  · rfl
  · intro x mine
    exact and_congr_right fun _ => stands.uncoded x mine
  · exact ⟨rfl, rfl⟩
  · intro x
    change Function.update t.2.hand id none x = some i ↔ (x ≠ id ∧ st.hand x)
    by_cases same : x = id
    · subst same
      rw [Function.update_self]
      exact ⟨nofun, fun both => absurd rfl both.1⟩
    · rw [Function.update_of_ne same, stands.hand]
      exact ⟨fun hand => ⟨same, hand⟩, fun both => both.2⟩
  · rintro x ⟨apart, isFresh⟩
    exact ⟨isFresh, apart, (stands.fresh x isFresh).1⟩

structure LinkedBatch (env : Env) (crew : Crew) (i : Nat) (st : Standing) (base n : Nat)
    (s : Shared) : Prop where
  stands : Stands env crew i st s
  present : ∀ x, InBatch base n x → (s.1.index.nodes.get x).isSome = true ∧ s.2.hand x = none

theorem linkedBatch_stable (env : Env) (crew : Crew) (i : Nat) (st : Standing) (base n : Nat) :
    (sharing env crew).Stable i (LinkedBatch env crew i st base n) := by
  intro s t moved kept linked
  refine ⟨stands_stable env crew i st s t moved kept linked.stands, ?_⟩
  intro x inside
  obtain ⟨present, free⟩ := linked.present x inside
  exact ⟨isSome_grows moved.grows present, moved.calm x present free⟩

/-- With the maintenance lock to itself, an agent knows every row without a code. -/
theorem Stands.uncoded_mine (stands : Stands env crew i st s)
    (kept : Consistent env crew s.1 s.2) (mode : st.mode .maintenance = .exclusive) {x : Nat}
    (uncoded : s.2.uncoded x) : (st.rows x).isSome = true ∧ st.uncoded x := by
  obtain ⟨j, owner, -, holds⟩ := kept.assigned.owner x uncoded
  obtain rfl := kept.locking.apart (stands.owns mode) holds
  have isRow := (stands.owned x).mp owner
  exact ⟨isRow, (stands.uncoded x isRow).mp uncoded⟩

theorem does_encodeBatch {base n : Nat} {τ : Tally} (mode : st.mode .maintenance = .exclusive)
    (pq : st.mode .pq = .exclusive) (counted : st.tally = some τ) (count : τ.count = base + n)
    (rows : ∀ x, InBatch base n x → (st.rows x).isSome = true)
    (only : ∀ x, st.uncoded x → InBatch base n x)
    (logged : crew.strict → ∀ x, InBatch base n x → ¬ st.unlogged x) :
    Does (noted env) (sharing env crew) i (.encodeBatch base n) (LinkedBatch env crew i st base n)
      fun t _ => Stands env crew i (st.completeBatch base n) t := by
  apply does_act
  intro t kept linked
  have stands := linked.stands
  refine ⟨.inl ⟨_, _, rfl⟩, ?_⟩
  intro w answer done
  cases done
  have length : t.1.store.count = base + n := by
    obtain ⟨-, same⟩ := stands.tally τ counted
    rw [← count, ← same]
    rfl
  have before : ∀ x < base, ¬ t.2.uncoded x := by
    intro x below uncoded
    have inBatch := only x (stands.uncoded_mine kept mode uncoded).2
    exact absurd below (Nat.not_lt.mpr inBatch.1)
  have batch : ∀ x, InBatch base n x → (t.1.index.nodes.get x).isSome = true ∧ t.2.hand x = none ∧
      t.1.owners[x]? = some i := by
    intro x inBatch
    obtain ⟨present, free⟩ := linked.present x inBatch
    exact ⟨present, free, (stands.owned x).mpr (rows x inBatch)⟩
  have holds : st.mode .maintenance ≠ .free := by
    rw [mode]
    nofun
  obtain ⟨after, guarantees⟩ := kept.encodeBatch (stands.holds holds) (stands.owns pq) length before
    batch fun strict x inBatch unlogged =>
      logged strict x inBatch ((stands.unlogged x (rows x inBatch)).mp unlogged)
  refine ⟨after, guarantees, ?_⟩
  rw [encodeBatch_eq_withBatch]
  apply stands.recode
  · rw [Option.map_map]
    rfl
  · rfl
  · rfl
  · rfl
  · intro x mine
    exact and_congr_right fun _ => stands.uncoded x mine
  · exact ⟨rfl, rfl⟩
  · exact stands.hand
  · exact fun x isFresh => ⟨isFresh, (stands.fresh x isFresh).1⟩

theorem Frozen.encodeAll (frozen : Frozen s t) (pq : ProductQuantizer) :
    t.1.encodeAll env pq = s.1.encodeAll env pq := by
  unfold World.encodeAll
  rw [frozen.store]
  congr 1
  funext id
  rw [frozen.row]

/-- Every row has been encoded under a codebook that is not in place yet. -/
structure Encoded (env : Env) (crew : Crew) (i : Nat) (st : Standing) (pq : ProductQuantizer)
    (codes : Bytes) (s : Shared) : Prop where
  stands : Stands env crew i st s
  codes : codes = s.1.encodeAll env pq

theorem encoded_stable (env : Env) (crew : Crew) (mode : st.mode .maintenance = .exclusive)
    (pq : ProductQuantizer) (codes : Bytes) :
    (sharing env crew).Stable i (Encoded env crew i st pq codes) := by
  intro s t moved kept encoded
  refine ⟨stands_stable env crew i st s t moved kept encoded.stands, ?_⟩
  rw [(encoded.stands.frozen (.inl mode) moved).encodeAll]
  exact encoded.codes

theorem does_encodeAll (pq : ProductQuantizer) :
    Does (noted env) (sharing env crew) i (.encodeAll pq) (Stands env crew i st)
      fun t codes => Encoded env crew i st pq codes t := by
  apply does_read
  · exact fun _ _ => rfl
  · exact fun _ ok => .inl ok
  · exact fun t _ stands => ⟨_, rfl, stands, rfl⟩

theorem does_setPq {pq : ProductQuantizer} {codes : Bytes}
    (mode : st.mode .maintenance = .exclusive) (lock : st.mode .pq = .exclusive)
    (complete : ∀ x, ¬ st.uncoded x) :
    Does (noted env) (sharing env crew) i (.setPq ⟨pq, codes⟩) (Encoded env crew i st pq codes)
      fun t _ => Stands env crew i (st.recount none) t := by
  apply does_act
  intro t kept encoded
  have stands := encoded.stands
  refine ⟨.inl ⟨_, _, rfl⟩, ?_⟩
  intro w answer done
  cases done
  have holds : st.mode .maintenance ≠ .free := by
    rw [mode]
    nofun
  have all : ∀ x, ¬ t.2.uncoded x := fun x uncoded =>
    complete x (stands.uncoded_mine kept mode uncoded).2
  obtain ⟨after, guarantees⟩ := kept.setPq (stands.holds holds) (stands.owns lock) all pq
  rw [encoded.codes]
  exact ⟨after, guarantees, stands.locks, stands.owned, stands.rows, stands.uncoded, stands.unlogged,
    stands.hand, stands.fresh, nofun⟩

/-! ### Files -/

/-- The actions of a checkpoint on files. -/
def Files : Action → Prop
  | .storeCount => True
  | .syncPages => True
  | .saveCodebook => True
  | .saveIndex _ => True
  | .resetWal => True
  | _ => False

theorem replaceFile_refiles {w u : World} {dir : Directory} {result : Result Unit}
    (done : w.replaceFile dir = .ok u result) : ∃ dir log faults, u = World.refile w dir log faults := by
  rcases replaceFile_cases w dir with whole | ⟨message, failed | whole⟩
  · rw [whole] at done
    cases done
    exact ⟨_, _, _, rfl⟩
  · rw [failed] at done
    cases done
    exact ⟨_, _, _, rfl⟩
  · rw [whole] at done
    cases done
    exact ⟨_, _, _, rfl⟩

theorem files_refile {op : Action} (files : Files op) {w u : World} {answer : Answer op}
    (done : handle env i w op = .ok u answer) :
    ∃ dir log faults, u = World.refile w dir log faults := by
  cases op with
  | storeCount =>
      cases done
      exact ⟨_, _, _, rfl⟩
  | syncPages =>
      change w.syncPages = .ok u answer at done
      rcases syncPages_cases w with whole | ⟨message, failed⟩
      · rw [whole] at done
        cases done
        exact ⟨_, _, _, rfl⟩
      · rw [failed] at done
        cases done
        exact ⟨_, _, _, rfl⟩
  | saveCodebook =>
      change w.saveCodebook env = .ok u answer at done
      unfold World.saveCodebook at done
      cases trained : w.pq with
      | none =>
          rw [trained] at done
          cases done
          exact ⟨w.dir, w.wal, w.faults, rfl⟩
      | some state =>
          rw [trained] at done
          exact replaceFile_refiles done
  | saveIndex lsn =>
      change w.saveIndex env lsn = .ok u answer at done
      unfold World.saveIndex at done
      cases saved : w.index.save env.hash lsn with
      | none => rw [saved] at done; cases done
      | some bytes =>
          rw [saved] at done
          exact replaceFile_refiles done
  | resetWal =>
      change w.resetWal = .ok u answer at done
      unfold World.resetWal at done
      cases isOpen : w.wal with
      | none => rw [isOpen] at done; cases done
      | some wal =>
          rw [isOpen] at done
          cases done
          exact ⟨_, _, _, rfl⟩
  | _ => exact files.elim

theorem does_file {op : Action} (files : Files op) (complete : ∀ x, ¬ st.uncoded x)
    {known : Shared → Prop} (post : World → Answer op → Prop) (stands : ∀ t, known t → Stands env crew i st t)
    (silent : ∀ l answer, note i l op answer = l)
    (answers : ∀ t : Shared, Consistent env crew t.1 t.2 → known t → Promised env crew i t op)
    (keeps : ∀ (t : Shared) w answer, Consistent env crew t.1 t.2 → known t →
      handle env i t.1 op = .ok w answer →
        Consistent env crew w t.2 ∧ Guarantees i t (w, t.2) ∧ post w answer) :
    Does (noted env) (sharing env crew) i op known
      fun t answer => Stands env crew i (st.recount none) t ∧ post t.1 answer := by
  apply does_act
  intro t kept holds
  refine ⟨answers t kept holds, ?_⟩
  intro w answer done
  have quiet : note i t.2 op answer = t.2 := silent t.2 answer
  rw [quiet]
  obtain ⟨after, guarantees, ends⟩ := keeps t w answer kept holds done
  refine ⟨after, guarantees, ?_, ends⟩
  have before := stands t holds
  obtain ⟨dir, log, faults, rfl⟩ := files_refile files done
  constructor
  case locks => exact before.locks
  case owned => exact before.owned
  case rows =>
      intro x row isRow
      change st.rows x = some row at isRow
      have isSome : (st.rows x).isSome = true := by
        rw [isRow]
        rfl
      have mine := (before.owned x).mpr isSome
      have settled : Settled t x := by
        refine ⟨getElem?_of_lt mine, ?_⟩
        exact fun uncoded => complete x ((before.uncoded x isSome).mp uncoded)
      exact (guarantees.rows x (.inr settled)).row.trans (before.rows x row isRow)
  case uncoded => exact before.uncoded
  case unlogged => exact before.unlogged
  case hand => exact before.hand
  case fresh => exact before.fresh
  case tally => exact nofun

/-- What depends on the store and the directory only stays while the agent has the maintenance lock
to itself. -/
theorem shut_stable (env : Env) (crew : Crew) (mode : st.mode .maintenance = .exclusive)
    (shut : VectorStore → Directory → Prop) :
    (sharing env crew).Stable i fun t => Stands env crew i st t ∧ shut t.1.store t.1.dir := by
  rintro s t moved kept ⟨stands, holds⟩
  have frozen := stands.frozen (.inl mode) moved
  refine ⟨stands_stable env crew i st s t moved kept stands, ?_⟩
  rw [frozen.store, frozen.dir]
  exact holds

theorem flushed_stable (env : Env) (crew : Crew) (mode : st.mode .maintenance = .exclusive) :
    (sharing env crew).Stable i fun t => Stands env crew i st t ∧ Flushed t.1 :=
  shut_stable env crew mode fun store dir => headerCount dir.file.image = store.count

/-- What a checkpoint has of the store and of the log. -/
def Steady (crew : Crew) (s : Shared) : Prop := Flushed s.1 ∧ Paired crew s

theorem steady_stable (env : Env) (crew : Crew) (mode : st.mode .maintenance = .exclusive) :
    (sharing env crew).Stable i fun t => Stands env crew i st t ∧ Steady crew t := by
  rintro s t moved kept ⟨stands, flushed, even⟩
  have frozen := stands.frozen (.inl mode) moved
  obtain ⟨still, later⟩ := flushed_stable env crew mode s t moved kept ⟨stands, flushed⟩
  refine ⟨still, later, ?_⟩
  unfold Paired Even
  rw [frozen.wal, frozen.store]
  exact even

structure Saved (env : Env) (w : World) : Prop where
  flushed : Flushed w
  sealed : Sealed env w.dir w.store.count

theorem saved_stable (env : Env) (crew : Crew) (mode : st.mode .maintenance = .exclusive) :
    (sharing env crew).Stable i fun t => Stands env crew i st t ∧ Saved env t.1 ∧ Paired crew t := by
  rintro s t moved kept ⟨stands, saved, even⟩
  have frozen := stands.frozen (.inl mode) moved
  obtain ⟨still, flushed, later⟩ :=
    steady_stable env crew mode s t moved kept ⟨stands, saved.flushed, even⟩
  refine ⟨still, ⟨flushed, ?_⟩, later⟩
  rw [frozen.store, frozen.dir]
  exact saved.sealed

theorem Stands.complete (stands : Stands env crew i st s) (kept : Consistent env crew s.1 s.2)
    (mode : st.mode .maintenance = .exclusive) (complete : ∀ x, ¬ st.uncoded x) :
    ∀ x, ¬ s.2.uncoded x :=
  fun x uncoded => complete x (stands.uncoded_mine kept mode uncoded).2

theorem Mode.held {mode : Mode} (exclusive : mode = .exclusive) : mode ≠ .free := by
  rw [exclusive]
  nofun

theorem does_storeCount (mode : st.mode .maintenance = .exclusive)
    (complete : ∀ x, ¬ st.uncoded x) :
    Does (noted env) (sharing env crew) i .storeCount (Stands env crew i st)
      fun t _ => Stands env crew i (st.recount none) t ∧ Flushed t.1 := by
  apply does_file (show Files .storeCount from trivial) complete (fun w _ => Flushed w)
  case stands => exact fun _ stands => stands
  case silent => exact fun _ _ => rfl
  case answers => exact fun _ _ _ => .inl ⟨_, _, rfl⟩
  case keeps =>
      intro t w answer kept stands done
      cases done
      exact kept.storeCount (stands.holds (Mode.held mode)) (stands.complete kept mode complete)

theorem does_syncPages (mode : st.mode .maintenance ≠ .free) (complete : ∀ x, ¬ st.uncoded x) :
    Does (noted env) (sharing env crew) i .syncPages
      (fun t => Stands env crew i st t ∧ Flushed t.1)
      fun t _ => Stands env crew i (st.recount none) t ∧ Flushed t.1 := by
  apply does_file (show Files .syncPages from trivial) complete (fun w _ => Flushed w)
  case stands => exact fun _ known => known.1
  case silent => exact fun _ _ => rfl
  case answers =>
      intro t _ _
      left
      rcases syncPages_cases t.1 with whole | ⟨message, failed⟩
      · exact ⟨_, _, whole⟩
      · exact ⟨_, _, failed⟩
  case keeps =>
      intro t w answer kept known done
      obtain ⟨after, guarantees, still⟩ := kept.syncPages (known.1.holds mode) done
      exact ⟨after, guarantees, still known.2⟩

theorem replaceFile_answers (w : World) (dir : Directory) :
    ∃ u answer, w.replaceFile dir = .ok u answer := by
  rcases replaceFile_cases w dir with whole | ⟨message, failed | whole⟩
  · exact ⟨_, _, whole⟩
  · exact ⟨_, _, failed⟩
  · exact ⟨_, _, whole⟩

theorem does_saveCodebook (mode : st.mode .maintenance ≠ .free) (complete : ∀ x, ¬ st.uncoded x) :
    Does (noted env) (sharing env crew) i .saveCodebook
      (fun t => Stands env crew i st t ∧ Flushed t.1)
      fun t _ => Stands env crew i (st.recount none) t ∧ Flushed t.1 := by
  apply does_file (show Files .saveCodebook from trivial) complete (fun w _ => Flushed w)
  case stands => exact fun _ known => known.1
  case silent => exact fun _ _ => rfl
  case answers =>
      intro t _ _
      left
      change ∃ u answer, t.1.saveCodebook env = .ok u answer
      unfold World.saveCodebook
      split
      · exact ⟨_, _, rfl⟩
      · exact replaceFile_answers _ _
  case keeps =>
      intro t w answer kept known done
      obtain ⟨after, guarantees, still⟩ := kept.saveCodebook (known.1.holds mode) done
      exact ⟨after, guarantees, still known.2⟩

/-- The number that a snapshot is to name. -/
structure Marked (env : Env) (crew : Crew) (i : Nat) (st : Standing) (lsn : Nat) (s : Shared) :
    Prop where
  stands : Stands env crew i st s
  flushed : Flushed s.1
  even : Paired crew s
  mark : Watermark s.1 lsn

theorem marked_stable (env : Env) (crew : Crew) (lsn : Nat) (mode : st.mode .maintenance = .exclusive) :
    (sharing env crew).Stable i (Marked env crew i st lsn) := by
  intro s t moved kept marked
  have wal := (marked.stands.frozen (.inl mode) moved).wal
  obtain ⟨still, flushed, even⟩ :=
    steady_stable env crew mode s t moved kept ⟨marked.stands, marked.flushed, marked.even⟩
  refine ⟨still, flushed, even, ?_, ?_⟩
  · rw [wal]
    exact marked.mark.closed
  · rw [wal]
    exact marked.mark.healthy

theorem saveIndex_rest {w u : World} {lsn : Nat} {result : Result Unit}
    (done : w.saveIndex env lsn = .ok u result) : u.wal = w.wal ∧ u.store = w.store := by
  unfold World.saveIndex at done
  cases saved : w.index.save env.hash lsn with
  | none => rw [saved] at done; cases done
  | some bytes =>
      rw [saved] at done
      rcases replaceFile_cases w { w.dir with snap := some bytes } with whole | ⟨message, failed | whole⟩
      · cases whole.symm.trans done
        exact ⟨rfl, rfl⟩
      · cases failed.symm.trans done
        exact ⟨rfl, rfl⟩
      · cases whole.symm.trans done
        exact ⟨rfl, rfl⟩

theorem resetWal_rest {w u : World} {result : Result Unit} (done : w.resetWal = .ok u result) :
    u.wal.map Wal.nextLsn = w.wal.map Wal.nextLsn ∧ u.store = w.store := by
  unfold World.resetWal at done
  cases isOpen : w.wal with
  | none => rw [isOpen] at done; cases done
  | some wal =>
      rw [isOpen] at done
      dsimp only at done
      unfold Wal.reset Wal.ensureHealthy at done
      cases harmed : wal.poisoned with
      | true =>
          rw [harmed] at done
          cases done
          exact ⟨rfl, rfl⟩
      | false =>
          rw [harmed] at done
          cases fault : w.fault with
          | none => rw [fault] at done; cases done; exact ⟨rfl, rfl⟩
          | write count message => rw [fault] at done; cases done; exact ⟨rfl, rfl⟩
          | sync message => rw [fault] at done; cases done; exact ⟨rfl, rfl⟩

theorem does_saveIndex (mode : st.mode .maintenance = .exclusive) (complete : ∀ x, ¬ st.uncoded x)
    (lsn : Nat) :
    Does (noted env) (sharing env crew) i (.saveIndex lsn) (Marked env crew i st lsn)
      fun t result => Stands env crew i (st.recount none) t ∧
        (result = .ok () → Saved env t.1) ∧ (crew.strict → Even t.1) := by
  apply does_file (show Files (.saveIndex lsn) from trivial) complete
    (fun w result => (result = .ok () → Saved env w) ∧ (crew.strict → Even w))
  case stands => exact fun _ marked => marked.stands
  case silent => exact fun _ _ => rfl
  case answers =>
      intro t kept marked
      left
      obtain ⟨bytes, saved⟩ : ∃ bytes, t.1.index.save env.hash lsn = some bytes :=
        save_isSome (kept.complete (marked.stands.complete kept mode complete)) lsn
      change ∃ u answer, t.1.saveIndex env lsn = .ok u answer
      unfold World.saveIndex
      rw [saved]
      exact replaceFile_answers _ _
  case keeps =>
      intro t w answer kept marked done
      have stands := marked.stands
      obtain ⟨after, guarantees, saved⟩ := kept.saveIndex (stands.holds (Mode.held mode))
        (stands.complete kept mode complete) marked.flushed marked.mark marked.even done
      refine ⟨after, guarantees, fun isOk => ⟨(saved isOk).1, (saved isOk).2⟩, ?_⟩
      obtain ⟨wal, store⟩ := saveIndex_rest done
      unfold Even
      rw [wal, store]
      exact marked.even

theorem does_resetWal (mode : st.mode .maintenance = .exclusive) (log : st.mode .wal = .exclusive)
    (durable : crew.db.durable = true) (complete : ∀ x, ¬ st.uncoded x) :
    Does (noted env) (sharing env crew) i .resetWal
      (fun t => Stands env crew i st t ∧ Saved env t.1 ∧ Paired crew t)
      fun t _ => Stands env crew i (st.recount none) t ∧ (crew.strict → Even t.1) := by
  apply does_file (show Files .resetWal from trivial) complete (fun w _ => crew.strict → Even w)
  case stands => exact fun _ known => known.1
  case silent => exact fun _ _ => rfl
  case answers =>
      intro t kept _
      left
      obtain ⟨wal, isOpen⟩ := Option.isSome_iff_exists.mp (kept.durable.trans durable)
      change ∃ u answer, t.1.resetWal = .ok u answer
      unfold World.resetWal
      rw [isOpen]
      exact ⟨_, _, rfl⟩
  case keeps =>
      rintro t w answer kept ⟨stands, saved, even⟩ done
      obtain ⟨after, guarantees⟩ := kept.resetWal (stands.holds (Mode.held mode))
        (stands.owns log) (stands.complete kept mode complete) saved.flushed saved.sealed done
      refine ⟨after, guarantees, ?_⟩
      obtain ⟨lsns, store⟩ := resetWal_rest done
      intro strict wal isOpen
      rw [isOpen] at lsns
      obtain ⟨old, isOld, same⟩ := Option.map_eq_some_iff.mp lsns.symm
      rw [store, ← same]
      exact even strict old isOld

theorem does_ensureHealthy (durable : crew.db.durable = true) :
    Does (noted env) (sharing env crew) i .ensureHealthy (Stands env crew i st)
      fun t result => Stands env crew i st t ∧
        (result = .ok () → ∀ wal, t.1.wal = some wal → wal.poisoned = false) := by
  apply does_read
  · exact fun _ _ => rfl
  · exact fun _ ok => .inl ok
  · intro t kept stands
    obtain ⟨wal, isOpen⟩ := Option.isSome_iff_exists.mp (kept.durable.trans durable)
    refine ⟨wal.ensureHealthy, ?_, stands, ?_⟩
    · unfold handle
      dsimp only
      rw [isOpen]
    · intro healthy other isOther
      rw [isOpen] at isOther
      cases isOther
      unfold Wal.ensureHealthy at healthy
      cases poisoned : wal.poisoned with
      | true => rw [poisoned] at healthy; cases healthy
      | false => rfl

theorem ensureHealthy_quiet {w u : World} {result : Result Unit}
    (done : handle env i w .ensureHealthy = .ok u result) : u = w := by
  unfold handle at done
  dsimp only at done
  cases isOpen : w.wal with
  | none =>
      rw [isOpen] at done
      cases done
  | some wal =>
      rw [isOpen] at done
      cases done
      rfl

theorem does_nextLsn (durable : crew.db.durable = true) :
    Does (noted env) (sharing env crew) i .nextLsn
      (fun t => Stands env crew i st t ∧ Steady crew t ∧
        ∀ wal, t.1.wal = some wal → wal.poisoned = false)
      fun t lsn => Marked env crew i st lsn t := by
  apply does_read
  · exact fun _ _ => rfl
  · exact fun _ ok => .inl ok
  · rintro t kept ⟨stands, ⟨flushed, even⟩, healthy⟩
    obtain ⟨wal, isOpen⟩ := Option.isSome_iff_exists.mp (kept.durable.trans durable)
    refine ⟨wal.nextLsn, ?_, stands, flushed, even, ?_, ?_⟩
    · unfold handle
      dsimp only
      rw [isOpen]
    · rw [isOpen]
      nofun
    · intro other isOther
      rw [isOpen] at isOther
      cases isOther
      exact ⟨healthy wal isOpen, rfl⟩

/-! ### Tasks -/

theorem does_submit {base n : Nat} (batch : ∀ x, InBatch base n x → st.fresh x ∧ (st.rows x).isSome = true) :
    Does (noted env) (sharing env crew) i (.submit base n) (Stands env crew i st)
      fun t _ => Stands env crew i (st.passOn base n) t := by
  apply does_act
  intro t kept stands
  refine ⟨.inl ⟨_, _, rfl⟩, ?_⟩
  intro w answer done
  cases done
  have mine : ∀ x, InBatch base n x → t.2.hand x = some i ∧ t.1.owners[x]? = some i ∧
      t.1.index.nodes.get x = none := by
    intro x inside
    obtain ⟨isFresh, isRow⟩ := batch x inside
    obtain ⟨inHand, free⟩ := stands.fresh x isFresh
    exact ⟨(stands.hand x).mpr inHand, (stands.owned x).mpr isRow, free⟩
  obtain ⟨after, guarantees⟩ := kept.submit mine
  refine ⟨after, guarantees, stands.locks, stands.owned, stands.rows, stands.uncoded, stands.unlogged, ?_,
    fun x isFresh => ⟨⟨isFresh.1, (stands.fresh x isFresh.2).1⟩, (stands.fresh x isFresh.2).2⟩,
    stands.tally⟩
  intro x
  change (if InBatch base n x then none else t.2.hand x) = some i ↔ (¬ InBatch base n x ∧ st.hand x)
  by_cases inside : InBatch base n x
  · rw [if_pos inside]
    exact ⟨nofun, fun both => absurd inside both.1⟩
  · rw [if_neg inside, stands.hand]
    exact ⟨fun hand => ⟨inside, hand⟩, fun both => both.2⟩

theorem does_join (calls : crew.calls i) (log : st.mode .wal = .free) (pq : st.mode .pq = .free)
    {base n : Nat} (batch : ∀ x, InBatch base n x →
      ¬ st.hand x ∧ (st.rows x).isSome = true ∧ st.uncoded x) :
    Does (noted env) (sharing env crew) i .join (Stands env crew i st)
      fun t _ => LinkedBatch env crew i st base n t := by
  apply does_act
  intro t kept stands
  have only : ∀ held, t.1.Holds i held → held = .maintenance := by
    intro held holds
    cases held with
    | maintenance => rfl
    | wal => exact absurd log (stands.holds_inv holds)
    | pq => exact absurd pq (stands.holds_inv holds)
  refine ⟨.inr ⟨calls, only⟩, ?_⟩
  intro w answer done
  have joined : (if t.1.pending = [] ∧ t.1.running = [] then Reply.ok t.1 () else .blocked) =
      .ok w answer := done
  split at joined
  · rename_i idle
    cases joined
    refine ⟨kept, Guarantees.refl i t, stands, ?_⟩
    intro x inside
    obtain ⟨noHand, isRow, uncoded⟩ := batch x inside
    have assigned := kept.assigned
    have owner := (stands.owned x).mpr isRow
    have others : ∀ j, t.1.owners[x]? = some j → t.2.hand x ≠ some j := by
      intro j isOwner inHand
      rw [owner] at isOwner
      cases isOwner
      exact noHand ((stands.hand x).mp inHand)
    have nobody : t.2.hand x = none := by
      cases inHand : t.2.hand x with
      | none => rfl
      | some j =>
          rcases assigned.held x j inHand with isOwner | member
          · exact absurd inHand (others j isOwner)
          · rw [idle.2] at member
            cases member
    refine ⟨?_, nobody⟩
    rcases assigned.linked x ((stands.uncoded x isRow).mpr uncoded) with
      present | pending | running | ⟨j, isOwner, inHand⟩
    · exact present
    · rw [idle.1] at pending
      cases pending
    · rw [idle.2] at running
      cases running
    · exact absurd inHand (others j isOwner)
  · cases joined

theorem does_take (worker : ¬ crew.calls i) (idle : ∀ x, ¬ st.hand x) :
    Does (noted env) (sharing env crew) i .take (Stands env crew i st)
      fun t (id : Nat) => Stands env crew i (st.take id) t ∧ id < SegVec.CAPACITY ∧
        st.rows id = none := by
  apply does_act
  intro t kept stands
  refine ⟨.inr ⟨worker, fun x inHand => idle x ((stands.hand x).mp inHand)⟩, ?_⟩
  intro w id done
  unfold handle at done
  dsimp only at done
  cases waiting : t.1.pending with
  | nil => rw [waiting] at done; cases done
  | cons other rest =>
      rw [waiting] at done
      cases done
      have assigned := kept.assigned
      obtain ⟨uncoded, nobody, free⟩ := assigned.pending id (waiting ▸ List.mem_cons_self ..)
      obtain ⟨after, guarantees⟩ := kept.take worker waiting
      refine ⟨after, guarantees, ⟨stands.locks, stands.owned, stands.rows, stands.uncoded, stands.unlogged, ?_,
        ?_, stands.tally⟩, ?_, ?_⟩
      · intro x
        change Function.update t.2.hand id (some i) x = some i ↔ (x = id ∨ st.hand x)
        by_cases same : x = id
        · subst same
          rw [Function.update_self]
          exact ⟨fun _ => .inl rfl, fun _ => rfl⟩
        · rw [Function.update_of_ne same, stands.hand]
          exact ⟨.inr, fun either => either.resolve_left same⟩
      · rintro x (rfl | isFresh)
        · exact ⟨.inl rfl, free⟩
        · obtain ⟨inHand, absent⟩ := stands.fresh x isFresh
          exact ⟨.inr inHand, absent⟩
      · have inside := assigned.inside id uncoded
        have capacity := kept.shelved.attached.count_le
        rw [CAPACITY_eq] at capacity
        exact inside.trans_le capacity
      · apply Option.not_isSome_iff_eq_none.mp
        intro isRow
        have mine := (stands.owned id).mpr isRow
        obtain ⟨j, owner, -, holds⟩ := assigned.owner id uncoded
        rw [mine] at owner
        cases owner
        exact worker (kept.locking.members .maintenance i holds)

theorem does_finish {id : Nat} (hand : st.hand id) (noRow : st.rows id = none) :
    Does (noted env) (sharing env crew) i (.finish id) (Linked env crew i st id)
      fun t _ => Stands env crew i (st.drop id) t := by
  apply does_act
  intro t kept linked
  have stands := linked.stands
  refine ⟨.inl ⟨_, _, rfl⟩, ?_⟩
  intro w answer done
  cases done
  have foreign : t.1.owners[id]? ≠ some i := by
    intro mine
    have isRow := (stands.owned id).mp mine
    rw [noRow] at isRow
    cases isRow
  obtain ⟨after, guarantees⟩ := kept.finish ((stands.hand id).mpr hand) linked.present foreign
  refine ⟨after, guarantees, stands.locks, stands.owned, stands.rows, stands.uncoded, stands.unlogged, ?_,
    fun x isFresh => ⟨⟨isFresh.1, (stands.fresh x isFresh.2).1⟩, (stands.fresh x isFresh.2).2⟩,
    stands.tally⟩
  intro x
  change Function.update t.2.hand id none x = some i ↔ (x ≠ id ∧ st.hand x)
  by_cases same : x = id
  · subst same
    rw [Function.update_self]
    exact ⟨nofun, fun both => absurd rfl both.1⟩
  · rw [Function.update_of_ne same, stands.hand]
    exact ⟨fun hand => ⟨same, hand⟩, fun both => both.2⟩

end Db

end Vektordb
