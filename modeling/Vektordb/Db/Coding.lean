import Vektordb.Db.Sharing

/-!
The actions that complete rows: codes are written under the lock of the codes, and the rows of a
batch pass from the call that appended them through the thread pool.
-/

namespace Vektordb

open Interaction LittleEndian VectorStore

namespace Db

variable {env : Env} {crew : Crew} {i : Nat} {w t : World} {l : Ledger}

/-! ### Codes -/

/-- New codes, with which rows in the store of one agent become complete. -/
structure Recoding (env : Env) (crew : Crew) (w : World) (l : Ledger) (i : Nat) (pq : Option PqState)
    (after : Ledger) : Prop where
  hands : ∀ x, after.hand x = l.hand x ∨ l.hand x = some i ∧ w.owners[x]? = some i ∧
    (w.index.nodes.get x).isSome = true ∧ after.hand x = none
  fewer : ∀ x, after.uncoded x → l.uncoded x
  logged : after.unlogged = l.unlogged
  recorded : crew.strict → ∀ x, l.unlogged x → l.uncoded x → after.uncoded x
  done : ∀ x, l.uncoded x → ¬ after.uncoded x → (w.index.nodes.get x).isSome = true ∧
    after.hand x = none ∧ w.owners[x]? = some i
  coded : ∀ state, pq = some state → Coded env w.row w.store.count after.uncoded state

theorem Recoding.hand_of {pq : Option PqState} {after : Ledger}
    (recoding : Recoding env crew w l i pq after) {x j : Nat} (inHand : after.hand x = some j) :
    l.hand x = some j := by
  rcases recoding.hands x with same | ⟨-, -, -, none⟩
  · exact same.symm.trans inHand
  · rw [none] at inHand
    cases inHand

theorem Consistent.recode (kept : Consistent env crew w l) (holds : w.Holds i .maintenance)
    (owns : w.Owns i .pq) {pq : Option PqState} {after : Ledger}
    (recoding : Recoding env crew w l i pq after) :
    Consistent env crew { w with pq := pq } after ∧
      Guarantees i (w, l) ({ w with pq := pq }, after) := by
  have assigned := kept.assigned
  have still : ∀ x, l.uncoded x → (after.hand x ≠ none ∨ w.owners[x]? ≠ some i ∨
      w.index.nodes.get x = none) → after.uncoded x := by
    intro x uncoded other
    by_contra done
    obtain ⟨present, free, owner⟩ := recoding.done x uncoded done
    rcases other with inHand | foreign | absent
    · exact inHand free
    · exact foreign owner
    · rw [absent] at present
      cases present
  refine ⟨⟨kept.shelved, kept.graphed, ?_, recoding.coded, kept.journaled, ?_, ?_, kept.durable,
    kept.locking⟩, ?_⟩
  · constructor
    case owners => exact assigned.owners
    case authors => exact assigned.authors
    case nodes =>
        intro x inside coded
        by_cases uncoded : l.uncoded x
        · exact (recoding.done x uncoded coded).1
        · exact assigned.nodes x inside uncoded
    case inside => exact fun x uncoded => assigned.inside x (recoding.fewer x uncoded)
    case owner => exact fun x uncoded => assigned.owner x (recoding.fewer x uncoded)
    case hand =>
        intro x j inHand
        apply still x (assigned.hand x j (recoding.hand_of inHand))
        left
        rw [inHand]
        nofun
    case held => exact fun x j inHand => assigned.held x j (recoding.hand_of inHand)
    case running =>
        intro x member
        obtain ⟨j, before, foreign⟩ := assigned.running x member
        refine ⟨j, ?_, foreign⟩
        rcases recoding.hands x with same | ⟨mine, owner, -, -⟩
        · exact same.trans before
        · rw [mine] at before
          exact absurd (before ▸ owner) foreign.1
    case once => exact assigned.once
    case pending =>
        intro x member
        obtain ⟨uncoded, nobody, free⟩ := assigned.pending x member
        refine ⟨still x uncoded (.inr (.inr free)), ?_, free⟩
        rcases recoding.hands x with same | ⟨-, -, -, none⟩
        · exact same.trans nobody
        · exact none
    case distinct => exact assigned.distinct
    case linked =>
        intro x uncoded
        rcases assigned.linked x (recoding.fewer x uncoded) with
          present | pending | running | ⟨j, owner, inHand⟩
        · exact .inl present
        · exact .inr (.inl pending)
        · exact .inr (.inr (.inl running))
        · rcases recoding.hands x with same | ⟨-, -, present, -⟩
          · exact .inr (.inr (.inr ⟨j, owner, same.trans inHand⟩))
          · exact .inl present
  · intro strict
    refine { kept.inStep strict with coded := ?_ }
    rw [recoding.logged]
    exact fun x unlogged => recoding.recorded strict x unlogged ((kept.inStep strict).coded x unlogged)
  · rw [recoding.logged]
    exact kept.secured.coded recoding.fewer
  · apply Still.guarantees
    constructor
    case index => rfl
    case locks => rfl
    case hands =>
        intro j x different
        change after.hand x = some j ↔ l.hand x = some j
        rcases recoding.hands x with same | ⟨mine, -, -, none⟩
        · rw [same]
        · rw [mine, none]
          exact ⟨nofun, fun same => absurd (Option.some.inj same).symm different⟩
    case calm =>
        intro x _ free
        rcases recoding.hands x with same | ⟨-, -, -, none⟩
        · exact same.trans free
        · exact none
    case owned => exact fun _ _ _ => Iff.rfl
    case rows =>
        intro x known
        refine ⟨rfl, ⟨recoding.fewer x, ?_⟩, by rw [recoding.logged], rfl⟩
        intro uncoded
        rcases known with ⟨j, different, owner⟩ | settled
        · apply still x uncoded (.inr (.inl _))
          rw [owner]
          exact fun same => different (Option.some.inj same)
        · exact absurd uncoded settled.2
    case content => exact fun _ _ => rfl
    case kernel => rfl
    case prior => exact fun _ _ _ _ => rfl
    case frozen => exact fun free => absurd holds free
    case wal => exact fun _ => ⟨rfl, rfl, fun _ => ⟨rfl, rfl⟩⟩
    case pq => exact fun free => absurd owns free

theorem Consistent.setPq (kept : Consistent env crew w l) (holds : w.Holds i .maintenance)
    (owns : w.Owns i .pq) (complete : ∀ x, ¬ l.uncoded x) (pq : ProductQuantizer) :
    Consistent env crew { w with pq := some ⟨pq, w.encodeAll env pq⟩ } l ∧
      Guarantees i (w, l) ({ w with pq := some ⟨pq, w.encodeAll env pq⟩ }, l) := by
  apply kept.recode holds owns
  constructor
  case hands => exact fun _ => .inl rfl
  case fewer => exact fun _ uncoded => uncoded
  case logged => rfl
  case recorded => exact fun _ _ _ uncoded => uncoded
  case done => exact fun x uncoded => absurd uncoded (complete x)
  case coded =>
      intro state isPq
      cases isPq
      exact coded_all env w.row w.store.count pq complete

theorem encodeRow_eq_withCode (env : Env) (w : World) (id : Nat) (vector : Row) :
    w.encodeRow env id vector = { w with
      pq := w.pq.map fun state => { state with codes := withCode env state id vector } } := by
  unfold World.encodeRow
  cases pq : w.pq with
  | none =>
      obtain ⟨dir, store, index, kernel, wal, pq, locks, pending, running, faults, refusals, owners⟩ := w
      cases pq
      rfl
  | some state => rfl

theorem Consistent.encodeRow (kept : Consistent env crew w l) (holds : w.Holds i .maintenance)
    (owns : w.Owns i .pq) {id : Nat} (owner : w.owners[id]? = some i) (inHand : l.hand id = some i)
    (present : (w.index.nodes.get id).isSome = true) {vector : Row} (row : w.row id = vector)
    (logged : crew.strict → ¬ l.unlogged id) :
    Consistent env crew (w.encodeRow env id vector) (l.leave id) ∧
      Guarantees i (w, l) (w.encodeRow env id vector, l.leave id) := by
  rw [encodeRow_eq_withCode]
  apply kept.recode holds owns
  have handSelf : (l.leave id).hand id = none := Function.update_self ..
  constructor
  case hands =>
      intro x
      by_cases same : x = id
      · subst same
        exact .inr ⟨inHand, owner, present, handSelf⟩
      · exact .inl (Function.update_of_ne same _ _)
  case fewer => exact fun _ uncoded => uncoded.2
  case logged => rfl
  case recorded =>
      rintro strict x unlogged uncoded
      refine ⟨?_, uncoded⟩
      rintro rfl
      exact logged strict unlogged
  case done =>
      intro x uncoded coded
      have same : x = id := by
        by_contra apart
        exact coded ⟨apart, uncoded⟩
      subst same
      exact ⟨present, handSelf, owner⟩
  case coded =>
      intro state isPq
      obtain ⟨before, isBefore, rfl⟩ := Option.map_eq_some_iff.mp isPq
      rw [← row]
      exact (kept.coded before isBefore).withCode (kept.graphed.inside id present)

theorem encodeBatch_eq_withBatch (env : Env) (w : World) (base n : Nat) :
    w.encodeBatch env base n = { w with
      pq := w.pq.map fun state => { state with codes := withBatch env state w.row base n } } := by
  unfold World.encodeBatch
  cases pq : w.pq with
  | none =>
      obtain ⟨dir, store, index, kernel, wal, pq, locks, pending, running, faults, refusals, owners⟩ := w
      cases pq
      rfl
  | some state => rfl

theorem Consistent.encodeBatch (kept : Consistent env crew w l) (holds : w.Holds i .maintenance)
    (owns : w.Owns i .pq) {base n : Nat} (count : w.store.count = base + n)
    (before : ∀ x < base, ¬ l.uncoded x)
    (linked : ∀ x, InBatch base n x → (w.index.nodes.get x).isSome = true ∧ l.hand x = none ∧
      w.owners[x]? = some i)
    (logged : crew.strict → ∀ x, InBatch base n x → ¬ l.unlogged x) :
    Consistent env crew (w.encodeBatch env base n) (note i l (.encodeBatch base n) ()) ∧
      Guarantees i (w, l) (w.encodeBatch env base n, note i l (.encodeBatch base n) ()) := by
  rw [encodeBatch_eq_withBatch]
  apply kept.recode holds owns
  constructor
  case hands => exact fun _ => .inl rfl
  case fewer => exact fun _ uncoded => uncoded.2
  case logged => rfl
  case recorded =>
      exact fun strict x unlogged uncoded => ⟨fun inside => logged strict x inside unlogged, uncoded⟩
  case done =>
      intro x uncoded coded
      have inBatch : InBatch base n x := by
        by_contra outside
        exact coded ⟨outside, uncoded⟩
      obtain ⟨present, free, owner⟩ := linked x inBatch
      exact ⟨present, free, owner⟩
  case coded =>
      intro state isPq
      obtain ⟨old, isOld, rfl⟩ := Option.map_eq_some_iff.mp isPq
      have coded := kept.coded old isOld
      rw [count] at coded ⊢
      exact coded.withBatch before

/-! ### Tasks of the thread pool -/

/-- Only the tasks and the hands are new. -/
theorem Consistent.retask (kept : Consistent env crew w l) (pending running : List Nat)
    (hand : Nat → Option Nat)
    (assigned : Assigned crew { w with pending := pending, running := running }
      { l with hand := hand })
    (hands : ∀ j x, j ≠ i → (hand x = some j ↔ l.hand x = some j))
    (calm : ∀ x, (w.index.nodes.get x).isSome = true → l.hand x = none → hand x = none) :
    Consistent env crew { w with pending := pending, running := running } { l with hand := hand } ∧
      Guarantees i (w, l)
        ({ w with pending := pending, running := running }, { l with hand := hand }) := by
  refine ⟨⟨kept.shelved, kept.graphed, assigned, kept.coded, kept.journaled,
    fun strict => { kept.inStep strict with }, kept.secured, kept.durable, kept.locking⟩, ?_⟩
  apply Still.guarantees
  exact ⟨rfl, rfl, hands, calm, fun _ _ _ => Iff.rfl, fun _ _ => ⟨rfl, Iff.rfl, Iff.rfl, rfl⟩,
    fun _ _ => rfl, rfl, fun _ _ _ _ => rfl, fun _ => ⟨rfl, rfl, rfl, rfl, rfl, rfl, rfl, rfl⟩,
    fun _ => ⟨rfl, rfl, fun _ => ⟨rfl, rfl⟩⟩, fun _ => rfl⟩

theorem mem_batch {base n x : Nat} : x ∈ List.range' base n ↔ InBatch base n x := by
  rw [List.mem_range'_1]
  rfl

theorem Consistent.submit (kept : Consistent env crew w l) {base n : Nat}
    (batch : ∀ x, InBatch base n x → l.hand x = some i ∧ w.owners[x]? = some i ∧
      w.index.nodes.get x = none) :
    Consistent env crew { w with pending := w.pending ++ List.range' base n }
        (note i l (.submit base n) ()) ∧
      Guarantees i (w, l) ({ w with pending := w.pending ++ List.range' base n },
        note i l (.submit base n) ()) := by
  have assigned := kept.assigned
  have handIn : ∀ {x}, InBatch base n x → (if InBatch base n x then none else l.hand x) = none :=
    fun inside => if_pos inside
  have handOut : ∀ {x}, ¬ InBatch base n x →
      (if InBatch base n x then none else l.hand x) = l.hand x := fun outside => if_neg outside
  apply kept.retask (w.pending ++ List.range' base n) w.running
    (fun x => if InBatch base n x then none else l.hand x)
  · constructor
    case owners => exact assigned.owners
    case authors => exact assigned.authors
    case nodes => exact assigned.nodes
    case inside => exact assigned.inside
    case owner => exact assigned.owner
    case hand =>
        intro x j inHand
        by_cases inside : InBatch base n x
        · cases (handIn inside).symm.trans inHand
        · exact assigned.hand x j ((handOut inside).symm.trans inHand)
    case held =>
        intro x j inHand
        by_cases inside : InBatch base n x
        · cases (handIn inside).symm.trans inHand
        · exact assigned.held x j ((handOut inside).symm.trans inHand)
    case running =>
        intro x member
        obtain ⟨j, before, foreign⟩ := assigned.running x member
        refine ⟨j, ?_, foreign⟩
        by_cases inside : InBatch base n x
        · obtain ⟨mine, owner, -⟩ := batch x inside
          rw [mine] at before
          exact absurd (before ▸ owner) foreign.1
        · exact (handOut inside).trans before
    case once => exact assigned.once
    case pending =>
        intro x member
        rcases List.mem_append.mp member with old | new
        · obtain ⟨uncoded, nobody, free⟩ := assigned.pending x old
          refine ⟨uncoded, ?_, free⟩
          by_cases inside : InBatch base n x
          · exact handIn inside
          · exact (handOut inside).trans nobody
        · have inside := mem_batch.mp new
          obtain ⟨mine, -, free⟩ := batch x inside
          exact ⟨assigned.hand x i mine, handIn inside, free⟩
    case distinct =>
        apply List.nodup_append'.mpr
        refine ⟨assigned.distinct, List.nodup_range', ?_⟩
        intro x old new
        obtain ⟨-, nobody, -⟩ := assigned.pending x old
        obtain ⟨mine, -, -⟩ := batch x (mem_batch.mp new)
        rw [mine] at nobody
        cases nobody
    case linked =>
        intro x uncoded
        by_cases inside : InBatch base n x
        · exact .inr (.inl (List.mem_append_right _ (mem_batch.mpr inside)))
        · rcases assigned.linked x uncoded with present | pending | running | ⟨j, owner, inHand⟩
          · exact .inl present
          · exact .inr (.inl (List.mem_append_left _ pending))
          · exact .inr (.inr (.inl running))
          · exact .inr (.inr (.inr ⟨j, owner, (handOut inside).trans inHand⟩))
  · intro j x different
    by_cases inside : InBatch base n x
    · obtain ⟨mine, -, -⟩ := batch x inside
      rw [handIn inside, mine]
      exact ⟨nofun, fun same => absurd (Option.some.inj same).symm different⟩
    · rw [handOut inside]
  · intro x _ free
    by_cases inside : InBatch base n x
    · exact handIn inside
    · exact (handOut inside).trans free

theorem Consistent.take (kept : Consistent env crew w l) (worker : ¬ crew.calls i) {id : Nat}
    {rest : List Nat} (waiting : w.pending = id :: rest) :
    Consistent env crew { w with pending := rest, running := id :: w.running } (l.take id i) ∧
      Guarantees i (w, l) ({ w with pending := rest, running := id :: w.running }, l.take id i) := by
  have assigned := kept.assigned
  obtain ⟨uncoded, nobody, free⟩ := assigned.pending id (waiting ▸ List.mem_cons_self ..)
  have distinct := assigned.distinct
  rw [waiting, List.nodup_cons] at distinct
  have handSelf : Function.update l.hand id (some i) id = some i := Function.update_self ..
  have handOf : ∀ {x}, x ≠ id → Function.update l.hand id (some i) x = l.hand x :=
    fun apart => Function.update_of_ne apart _ _
  have foreign : w.owners[id]? ≠ some i := by
    intro mine
    obtain ⟨j, owner, -, holds⟩ := assigned.owner id uncoded
    rw [mine] at owner
    cases owner
    exact worker (kept.locking.members .maintenance i holds)
  apply kept.retask rest (id :: w.running) (Function.update l.hand id (some i))
  · constructor
    case owners => exact assigned.owners
    case authors => exact assigned.authors
    case nodes => exact assigned.nodes
    case inside => exact assigned.inside
    case owner => exact assigned.owner
    case hand =>
        intro x j inHand
        by_cases same : x = id
        · exact same ▸ uncoded
        · exact assigned.hand x j ((handOf same).symm.trans inHand)
    case held =>
        intro x j inHand
        by_cases same : x = id
        · exact .inr (same ▸ List.mem_cons_self ..)
        · exact (assigned.held x j ((handOf same).symm.trans inHand)).imp_right
            (List.mem_cons_of_mem id)
    case running =>
        intro x member
        by_cases same : x = id
        · subst same
          exact ⟨i, handSelf, foreign, worker⟩
        · obtain ⟨j, before, other⟩ := assigned.running x ((List.mem_cons.mp member).resolve_left same)
          exact ⟨j, (handOf same).trans before, other⟩
    case once =>
        refine List.nodup_cons.mpr ⟨?_, assigned.once⟩
        intro member
        obtain ⟨j, before, -⟩ := assigned.running id member
        rw [nobody] at before
        cases before
    case pending =>
        intro x member
        obtain ⟨still, none, absent⟩ := assigned.pending x (waiting ▸ List.mem_cons_of_mem id member)
        have apart : x ≠ id := by
          rintro rfl
          exact distinct.1 member
        exact ⟨still, (handOf apart).trans none, absent⟩
    case distinct => exact distinct.2
    case linked =>
        intro x uncoded
        by_cases same : x = id
        · exact .inr (.inr (.inl (same ▸ List.mem_cons_self ..)))
        · rcases assigned.linked x uncoded with present | pending | running | ⟨j, owner, inHand⟩
          · exact .inl present
          · rw [waiting] at pending
            exact .inr (.inl ((List.mem_cons.mp pending).resolve_left same))
          · exact .inr (.inr (.inl (List.mem_cons_of_mem id running)))
          · exact .inr (.inr (.inr ⟨j, owner, (handOf same).trans inHand⟩))
  · intro j x different
    by_cases same : x = id
    · subst same
      rw [handSelf, nobody]
      exact ⟨fun mine => absurd (Option.some.inj mine).symm different, nofun⟩
    · rw [handOf same]
  · intro x present none
    have apart : x ≠ id := by
      rintro rfl
      rw [free] at present
      cases present
    exact (handOf apart).trans none

theorem Consistent.finish (kept : Consistent env crew w l) {id : Nat} (inHand : l.hand id = some i)
    (present : (w.index.nodes.get id).isSome = true) (foreign : w.owners[id]? ≠ some i) :
    Consistent env crew { w with running := w.running.erase id } (l.drop id) ∧
      Guarantees i (w, l) ({ w with running := w.running.erase id }, l.drop id) := by
  have assigned := kept.assigned
  have handSelf : Function.update l.hand id none id = none := Function.update_self ..
  have handOf : ∀ {x}, x ≠ id → Function.update l.hand id none x = l.hand x :=
    fun apart => Function.update_of_ne apart _ _
  apply kept.retask w.pending (w.running.erase id) (Function.update l.hand id none)
  · constructor
    case owners => exact assigned.owners
    case authors => exact assigned.authors
    case nodes => exact assigned.nodes
    case inside => exact assigned.inside
    case owner => exact assigned.owner
    case hand =>
        intro x j held
        by_cases same : x = id
        · subst same
          cases handSelf.symm.trans held
        · exact assigned.hand x j ((handOf same).symm.trans held)
    case held =>
        intro x j held
        by_cases same : x = id
        · subst same
          cases handSelf.symm.trans held
        · exact (assigned.held x j ((handOf same).symm.trans held)).imp_right
            fun running => (List.mem_erase_of_ne same).mpr running
    case running =>
        intro x member
        obtain ⟨apart, before⟩ := assigned.once.mem_erase_iff.mp member
        obtain ⟨j, held, other⟩ := assigned.running x before
        exact ⟨j, (handOf apart).trans held, other⟩
    case once => exact assigned.once.erase id
    case pending =>
        intro x member
        obtain ⟨uncoded, nobody, free⟩ := assigned.pending x member
        refine ⟨uncoded, ?_, free⟩
        by_cases same : x = id
        · rw [same]
          exact handSelf
        · exact (handOf same).trans nobody
    case distinct => exact assigned.distinct
    case linked =>
        intro x uncoded
        by_cases same : x = id
        · exact .inl (same ▸ present)
        · rcases assigned.linked x uncoded with there | pending | running | ⟨j, owner, held⟩
          · exact .inl there
          · exact .inr (.inl pending)
          · exact .inr (.inr (.inl ((List.mem_erase_of_ne same).mpr running)))
          · exact .inr (.inr (.inr ⟨j, owner, (handOf same).trans held⟩))
  · intro j x different
    by_cases same : x = id
    · subst same
      rw [handSelf, inHand]
      exact ⟨nofun, fun mine => absurd (Option.some.inj mine).symm different⟩
    · rw [handOf same]
  · intro x _ none
    by_cases same : x = id
    · rw [same]
      exact handSelf
    · exact (handOf same).trans none

end Db

end Vektordb
