import Vektordb.Db.Calls

/-!
A batch among other calls. Its rows are appended one after the other while the maintenance lock is
exclusive, up to the first that fails; the thread pool links what has been appended, and the codes
are written for exactly these rows.
-/

namespace Vektordb

open Interaction LittleEndian

namespace Db

variable {env : Env} {crew : Crew} {i : Nat} {st after : Standing} {s t : Shared} {τ : Tally}
  {rows : List Row}

/-! ### The rows of a batch -/

def logOps (base : Nat) (rows : List Row) : List WalOp :=
  rows.mapIdx fun k row => .insert (base + k) row

/-- The standing after rows have been appended, beginning with the count of the tally. -/
structure Brought (durable : Bool) (st : Standing) (τ : Tally) (rows : List Row) (after : Standing) :
    Prop where
  mode : after.mode = st.mode
  content : ∀ x, after.rows x =
    if InBatch τ.count rows.length x then rows[x - τ.count]? else st.rows x
  uncoded : ∀ x, after.uncoded x ↔ InBatch τ.count rows.length x ∨ st.uncoded x
  unlogged : durable = true → ∀ x, InBatch τ.count rows.length x → ¬ after.unlogged x
  hand : ∀ x, after.hand x ↔ InBatch τ.count rows.length x ∨ st.hand x
  fresh : ∀ x, after.fresh x ↔ InBatch τ.count rows.length x ∨ st.fresh x
  tally : ∃ records : List (Nat × WalOp),
    after.tally = some ⟨τ.count + rows.length, τ.acked ++ records, τ.quantizer⟩ ∧
      records.map Prod.snd = if durable then logOps τ.count rows else []

theorem brought_nil (durable : Bool) (counted : st.tally = some τ) : Brought durable st τ [] st := by
  have outside : ∀ {x}, ¬ InBatch τ.count 0 x := fun inside => by
    have high := inside.2
    have low := inside.1
    omega
  constructor
  case mode => rfl
  case content => exact fun x => (if_neg outside).symm
  case uncoded => exact fun x => ⟨.inr, fun either => either.resolve_left outside⟩
  case unlogged => exact fun _ x inside => absurd inside outside
  case hand => exact fun x => ⟨.inr, fun either => either.resolve_left outside⟩
  case fresh => exact fun x => ⟨.inr, fun either => either.resolve_left outside⟩
  case tally =>
      refine ⟨[], ?_, ?_⟩
      · rw [counted, List.append_nil]
        rfl
      · cases durable <;> rfl

theorem inBatch_succ {base n x : Nat} : InBatch base (n + 1) x ↔ x = base + n ∨ InBatch base n x := by
  unfold InBatch
  omega

theorem Brought.push {durable : Bool} (brought : Brought durable st τ rows after) {vector : Row}
    {id : Nat} {next : Standing} (logged : Logged durable after next id vector)
    (counted : ∀ tally, after.tally = some tally → id = tally.count) :
    id = τ.count + rows.length ∧ Brought durable st τ (rows ++ [vector]) next := by
  obtain ⟨records, isTally, ops⟩ := brought.tally
  obtain rfl : id = τ.count + rows.length := counted _ isTally
  have length : (rows ++ [vector]).length = rows.length + 1 := List.length_append
  have outside : ¬ InBatch τ.count rows.length (τ.count + rows.length) := fun inside =>
    Nat.lt_irrefl _ inside.2
  refine ⟨rfl, ?_⟩
  constructor
  case mode => exact logged.mode.trans brought.mode
  case content =>
      intro x
      rw [logged.rows, length]
      by_cases new : x = τ.count + rows.length
      · subst new
        rw [Function.update_self, if_pos (inBatch_succ.mpr (.inl rfl)), Nat.add_sub_cancel_left,
          List.getElem?_append_right le_rfl, Nat.sub_self]
        rfl
      · rw [Function.update_of_ne new, brought.content x]
        by_cases inside : InBatch τ.count rows.length x
        · rw [if_pos inside, if_pos (inBatch_succ.mpr (.inr inside)), List.getElem?_append_left]
          have low := inside.1
          have high := inside.2
          omega
        · rw [if_neg inside, if_neg]
          exact fun either => (inBatch_succ.mp either).elim new inside
  case uncoded =>
      intro x
      rw [logged.uncoded, brought.uncoded, length, inBatch_succ, or_assoc]
  case unlogged =>
      rintro rfl x inside
      rw [length, inBatch_succ] at inside
      rw [logged.unlogged]
      rintro ⟨apart, unlogged⟩
      exact brought.unlogged rfl x (inside.resolve_left apart) unlogged
  case hand =>
      intro x
      rw [logged.hand_iff, brought.hand, length, inBatch_succ, or_assoc]
  case fresh =>
      intro x
      rw [logged.fresh_iff, brought.fresh, length, inBatch_succ, or_assoc]
  case tally =>
      obtain ⟨more, isNext, op⟩ := logged.tally isTally
      refine ⟨records ++ more, ?_, ?_⟩
      · rw [isNext, length, List.append_assoc]
        rfl
      · rw [List.map_append, ops, op]
        cases durable with
        | true => exact List.mapIdx_concat.symm
        | false => rfl

/-- Where the first phase of a batch ends: a front of its rows is in the store, all of them unless a
row failed. -/
structure PhaseOne (env : Env) (crew : Crew) (i : Nat) (st : Standing) (τ : Tally) (rows : List Row)
    (t : Shared) (result : Nat × Option Error) : Prop where
  few : result.1 ≤ rows.length
  whole : result.2 = none → result.1 = rows.length
  short : ∀ e, result.2 = some e → result.1 < rows.length
  brought : ∃ after, Brought crew.db.durable st τ (rows.take result.1) after ∧
    Stands env crew i after t

theorem appendRows_secure (calls : crew.calls i) (writes : crew.writes i)
    (mode : st.mode .maintenance = .exclusive) (log : st.mode .wal = .free)
    (pq : st.mode .pq = .free) {ready rest : List Row}
    (parts : rows = ready ++ rest) (brought : Brought crew.db.durable st τ ready after)
    (kept : Consistent env crew s.1 s.2) (here : Stands env crew i after s) :
    Secure (noted env) (sharing env crew) i (fun t result => PhaseOne env crew i st τ rows t result)
      (appendRows crew.db rest ready.length) s := by
  induction rest generalizing ready after s with
  | nil =>
      rw [List.append_nil] at parts
      subst parts
      apply Secure.ret
      intro t moved keptThere
      have stands := stands_stable env crew i after s t moved keptThere here
      refine ⟨le_rfl, fun _ => rfl, nofun, after, ?_, stands⟩
      rw [List.take_length]
      exact brought
  | cons vector rest ih =>
      have modes := brought.mode
      have held : after.mode .maintenance ≠ .free := by
        rw [modes, mode]
        nofun
      have free : after.mode .wal = .free ∧ after.mode .pq = .free := by
        rw [modes]
        exact ⟨log, pq⟩
      apply Secure.bind kept
        (insertRowStorageOnly_secure calls writes held free.1 free.2 vector kept here)
      intro t result keptRow outcome
      cases outcome with
      | stored id next logged stands inside noRow counted =>
          obtain ⟨-, pushed⟩ := brought.push logged counted
          have longer : (ready ++ [vector]).length = ready.length + 1 := List.length_append
          have later := ih (by rw [parts, List.append_assoc]; rfl) pushed keptRow stands
          rw [longer] at later
          exact later
      | refused e stands =>
          apply Secure.ret
          intro u moved keptThere
          have still := stands_stable env crew i after t u moved keptThere stands
          have shorter : ready.length < rows.length := by
            rw [parts, List.length_append, List.length_cons]
            omega
          refine ⟨shorter.le, nofun, fun _ _ => shorter, after, ?_, still⟩
          · rw [parts, List.take_left]
            exact brought

/-! ### The thread pool and the codes -/

def Standing.finishBatch (st : Standing) (base n : Nat) : Standing :=
  (st.passOn base n).completeBatch base n

theorem linkedBatch_parts (env : Env) (crew : Crew) (i : Nat) (base n : Nat) :
    (sharing env crew).Stable i fun t =>
      ∀ x, InBatch base n x → (t.1.index.nodes.get x).isSome = true ∧ t.2.hand x = none := by
  intro s t moved _ linked x inside
  obtain ⟨present, free⟩ := linked x inside
  exact ⟨isSome_grows (Relies.grows moved) present, Relies.calm moved x present free⟩

theorem encodeBatch_secure (calls : crew.calls i) {base n : Nat}
    (mode : st.mode .maintenance = .exclusive) (log : st.mode .wal = .free)
    (free : st.mode .pq = .free) (counted : st.tally = some τ) (count : τ.count = base + n)
    (rows : ∀ x, InBatch base n x → (st.rows x).isSome = true)
    (only : ∀ x, st.uncoded x → InBatch base n x)
    (logged : crew.strict → ∀ x, InBatch base n x → ¬ st.unlogged x)
    (kept : Consistent env crew s.1 s.2) (here : LinkedBatch env crew i st base n s) :
    Secure (noted env) (sharing env crew) i
      (fun t _ => Stands env crew i (st.completeBatch base n) t)
      (withLock .pq true (call (.encodeBatch base n))) s := by
  have wanted : (st.lock .pq (Mode.wanted true)).mode .pq = .exclusive := (lock_self st .pq _).trans rfl
  have mode' : (st.lock .pq (Mode.wanted true)).mode .maintenance = .exclusive := by
    rw [lock_other st _ (by decide)]
    exact mode
  apply secure_framed true _ calls (Standing.below_of log free (by decide)) kept
    ⟨here.stands, here.present⟩ (fun _ _ _ there => there)
    (fun _ => (stands_stable env crew i _).and (linkedBatch_parts env crew i base n))
  case runs =>
      intro t keptThere stands there
      have encodes : Does (noted env) (sharing env crew) i (.encodeBatch base n)
          (LinkedBatch env crew i (st.lock .pq (Mode.wanted true)) base n)
          fun t _ => Stands env crew i ((st.lock .pq (Mode.wanted true)).completeBatch base n) t := by
        apply does_encodeBatch
        · exact mode'
        · exact wanted
        · exact counted
        · exact count
        · exact rows
        · exact only
        · exact logged
      exact encodes.secure (linkedBatch_stable env crew i _ base n) (fun _ => stands_stable env crew i _)
        ⟨stands, there⟩
  case stable => exact fun _ => stands_stable env crew i _
  case gives =>
      intro t _ keptThere stands
      exact unlock_secure true free stands

theorem finishBatch_secure (calls : crew.calls i) {base n : Nat}
    (mode : st.mode .maintenance = .exclusive) (log : st.mode .wal = .free)
    (free : st.mode .pq = .free) (counted : st.tally = some τ) (count : τ.count = base + n)
    (rows : ∀ x, InBatch base n x → st.fresh x ∧ (st.rows x).isSome = true ∧ st.uncoded x)
    (only : ∀ x, st.uncoded x → InBatch base n x)
    (logged : crew.strict → ∀ x, InBatch base n x → ¬ st.unlogged x)
    (kept : Consistent env crew s.1 s.2)
    (here : Stands env crew i st s) :
    Secure (noted env) (sharing env crew) i
      (fun t _ => Stands env crew i (st.finishBatch base n) t) (finishBatch base n) s := by
  have submits : Does (noted env) (sharing env crew) i (.submit base n) (Stands env crew i st)
      fun t _ => Stands env crew i (st.passOn base n) t :=
    does_submit fun x inside => ⟨(rows x inside).1, (rows x inside).2.1⟩
  apply Secure.bind kept (submits.secure (stands_stable env crew i st)
    (fun _ => stands_stable env crew i _) here)
  intro t _ keptThere passed
  have joins : Does (noted env) (sharing env crew) i .join (Stands env crew i (st.passOn base n))
      fun t _ => LinkedBatch env crew i (st.passOn base n) base n t := by
    apply does_join calls
    case log => exact log
    case pq => exact free
    case batch =>
        intro x inside
        exact ⟨fun hand => hand.1 inside, (rows x inside).2⟩
  apply Secure.bind keptThere (joins.secure (stands_stable env crew i _)
    (fun _ => linkedBatch_stable env crew i _ base n) passed)
  intro u _ keptLinked linked
  have modes : (st.passOn base n).mode .maintenance = .exclusive ∧
      (st.passOn base n).mode .wal = .free ∧ (st.passOn base n).mode .pq = .free := ⟨mode, log, free⟩
  have tally : (st.passOn base n).tally = some τ := counted
  exact encodeBatch_secure calls modes.1 modes.2.1 modes.2.2 tally count
    (fun x inside => (rows x inside).2.1) only logged keptLinked linked

/-! ### Where a call that appends rows ends -/

/-- Its agent is idle again and has these rows more, from an id on. -/
structure Leaves (env : Env) (crew : Crew) (i : Nat) (st : Standing) (base : Nat) (rows : List Row)
    (after : Standing) (t : Shared) : Prop where
  idle : after.Idle
  content : ∀ x, after.rows x = if InBatch base rows.length x then rows[x - base]? else st.rows x
  new : ∀ x, InBatch base rows.length x → st.rows x = none
  logged : crew.db.durable = true → ∀ x, InBatch base rows.length x → ¬ after.unlogged x
  stands : Stands env crew i after t

/-- What has been counted while nobody else ran a call. -/
def Counts (durable : Bool) (st : Standing) (rows : List Row) (after : Standing) : Prop :=
  ∀ τ, st.tally = some τ → ∃ records : List (Nat × WalOp),
    after.tally = some ⟨τ.count + rows.length, τ.acked ++ records, τ.quantizer⟩ ∧
      records.map Prod.snd = if durable then logOps τ.count rows else []

inductive Appends (env : Env) (crew : Crew) (i : Nat) (st : Standing) (rows : List Row) (t : Shared) :
    Result Nat → Prop
  | whole (base : Nat) (after : Standing) (leaves : Leaves env crew i st base rows after t)
      (counts : Counts crew.db.durable st rows after) : Appends env crew i st rows t (.ok base)
  | front (base inserted : Nat) (e : Error) (after : Standing)
      (few : inserted = 0 ∨ inserted < rows.length)
      (leaves : Leaves env crew i st base (rows.take inserted) after t)
      (counts : Counts crew.db.durable st (rows.take inserted) after) :
      Appends env crew i st rows t (.error e)

theorem Leaves.moved {base : Nat} (leaves : Leaves env crew i st base rows after s)
    (moved : Relies crew i s t) (kept : Consistent env crew t.1 t.2) :
    Leaves env crew i st base rows after t :=
  ⟨leaves.idle, leaves.content, leaves.new, leaves.logged,
    stands_stable env crew i after s t moved kept leaves.stands⟩

theorem appends_stable (env : Env) (crew : Crew) (i : Nat) (st : Standing) (rows : List Row)
    (result : Result Nat) :
    (sharing env crew).Stable i fun t => Appends env crew i st rows t result := by
  intro s t moved kept appends
  cases appends with
  | whole base after leaves counts => exact .whole base after (leaves.moved moved kept) counts
  | front base inserted e after few leaves counts =>
      exact .front base inserted e after few (leaves.moved moved kept) counts

theorem not_inBatch_zero {base x : Nat} : ¬ InBatch base 0 x := fun inside =>
  Nat.lt_irrefl _ (inside.1.trans_lt inside.2)

theorem leaves_nil (idle : st.Idle) (base : Nat) (stands : Stands env crew i st t) :
    Leaves env crew i st base [] st t :=
  ⟨idle, fun _ => (if_neg not_inBatch_zero).symm, fun _ inside => absurd inside not_inBatch_zero,
    fun _ _ inside => absurd inside not_inBatch_zero, stands⟩

theorem counts_nil (durable : Bool) (st : Standing) : Counts durable st [] st := by
  intro τ isTally
  refine ⟨[], ?_, ?_⟩
  · rw [isTally, List.append_nil]
    rfl
  · cases durable <;> rfl

theorem inBatch_one {id x : Nat} : InBatch id 1 x ↔ x = id := by
  unfold InBatch
  omega

theorem InsertOutcome.appends {vector : Row} {result : Result Nat} (idle : st.Idle)
    (outcome : InsertOutcome env crew i st vector t result) :
    Appends env crew i st [vector] t result := by
  cases outcome with
  | stored id after logged noRow counted stands =>
      refine .whole id _ ⟨⟨?_, ?_, ?_⟩, ?_, ?_, ?_, stands⟩ ?_
      · intro lock
        change after.mode lock = .free
        rw [logged.mode]
        exact idle.mode lock
      · rintro x ⟨apart, uncoded⟩
        exact idle.coded x (((logged.uncoded x).mp uncoded).resolve_left apart)
      · rintro x ⟨apart, hand⟩
        exact idle.hand x (((logged.hand_iff x).mp hand).resolve_left apart)
      · intro x
        change after.rows x = _
        rw [logged.rows, List.length_singleton]
        by_cases same : x = id
        · subst same
          rw [Function.update_self, if_pos (inBatch_one.mpr rfl), Nat.sub_self]
          rfl
        · rw [Function.update_of_ne same, if_neg (mt inBatch_one.mp same)]
      · intro x inside
        rw [inBatch_one.mp inside]
        exact noRow
      · intro durable x inside unlogged
        rw [durable] at logged
        exact ((logged.unlogged x).mp unlogged).1 (inBatch_one.mp inside)
      · intro τ isTally
        obtain rfl := counted τ isTally
        exact logged.tally isTally
  | refused e stands =>
      exact .front 0 0 e st (.inl rfl) (leaves_nil idle 0 stands) (counts_nil _ st)

/-! ### A batch -/

theorem Stands.count (stands : Stands env crew i st s) (mode : st.mode .maintenance = .exclusive) :
    Stands env crew i (st.recount (some (Tally.of env s.1))) s :=
  ⟨stands.locks, stands.owned, stands.rows, stands.uncoded, stands.unlogged, stands.hand,
    stands.fresh, fun _ isTally => ⟨.inl mode, Option.some.inj isTally⟩⟩

def Standing.alone (st : Standing) (τ : Tally) : Standing :=
  (st.lock .maintenance (Mode.wanted true)).recount (some τ)

/-- A batch whose codes are written, before its agent gives up the maintenance lock. -/
structure Finished (env : Env) (crew : Crew) (i : Nat) (st : Standing) (rows : List Row) (τ : Tally)
    (t : Shared) : Prop where
  next : ∀ x, τ.count ≤ x → st.rows x = none
  agrees : ∀ τ', st.tally = some τ' → τ = τ' ∧ Solo crew i
  brought : ∃ after, Brought crew.db.durable (st.alone τ) τ rows after ∧
    Stands env crew i (after.finishBatch τ.count rows.length) t

theorem finished_stable (env : Env) (crew : Crew) (i : Nat) (st : Standing) (rows : List Row)
    (τ : Tally) : (sharing env crew).Stable i (Finished env crew i st rows τ) := by
  rintro s t moved kept ⟨next, agrees, after, brought, stands⟩
  exact ⟨next, agrees, after, brought, stands_stable env crew i _ s t moved kept stands⟩

theorem finishBatch_zero (st : Standing) (base : Nat) : st.finishBatch base 0 = st := by
  have drop : ∀ p : Nat → Prop, (fun x => ¬ InBatch base 0 x ∧ p x) = p := by
    intro p
    funext x
    exact propext ⟨fun both => both.2, fun holds => ⟨not_inBatch_zero, holds⟩⟩
  unfold Standing.finishBatch Standing.passOn Standing.completeBatch
  simp only [drop]

theorem finished_leaves (idle : st.Idle) (finished : Finished env crew i st rows τ s) :
    Secure (noted env) (sharing env crew) i
      (fun t _ => ∃ after, Leaves env crew i st τ.count rows after t ∧
        Counts crew.db.durable st rows after)
      (call (.release .maintenance true)) s := by
  obtain ⟨next, agrees, after, brought, stands⟩ := finished
  have again : ((after.finishBatch τ.count rows.length).lock .maintenance .free).lock .maintenance
      (Mode.wanted true) = after.finishBatch τ.count rows.length := by
    apply lock_again
    change after.mode .maintenance = _
    rw [brought.mode]
    exact lock_self st .maintenance (Mode.wanted true)
  obtain ⟨records, isTally, ops⟩ := brought.tally
  rw [← again] at stands
  have ready : ((after.finishBatch τ.count rows.length).lock .maintenance .free).mode .maintenance =
      .free := lock_self _ _ _
  have complete : ∀ x, ¬ ((after.finishBatch τ.count rows.length).lock .maintenance .free).uncoded x := by
    rintro x ⟨outside, uncoded⟩
    exact ((brought.uncoded x).mp uncoded).elim outside (idle.coded x)
  apply (leave_secure true ready complete (st.tally.bind fun _ => after.tally) _ stands).mono
  · intro t _ _ ends
    refine ⟨((after.finishBatch τ.count rows.length).lock .maintenance .free).recount
      (st.tally.bind fun _ => after.tally), ⟨⟨?_, complete, ?_⟩, brought.content,
        fun x inside => next x inside.1, brought.unlogged, ends⟩, ?_⟩
    · intro lock
      by_cases same : lock = .maintenance
      · subst same
        exact ready
      · change Function.update after.mode .maintenance .free lock = .free
        rw [Function.update_of_ne same, brought.mode]
        exact (lock_other st _ same).trans (idle.mode lock)
    · rintro x ⟨outside, hand⟩
      exact ((brought.hand x).mp hand).elim outside (idle.hand x)
    · intro τ' isBefore
      obtain ⟨rfl, -⟩ := agrees τ' isBefore
      refine ⟨records, ?_, ops⟩
      change st.tally.bind _ = _
      rw [isBefore]
      exact isTally
  · intro τ' isBound
    obtain ⟨before, isBefore, isAfter⟩ := Option.bind_eq_some_iff.mp isBound
    exact ⟨isAfter, (agrees before isBefore).2⟩

inductive BatchBody (env : Env) (crew : Crew) (i : Nat) (st : Standing) (rows : List Row) (t : Shared) :
    Result Nat → Prop
  | whole (τ : Tally) (finished : Finished env crew i st rows τ t) :
      BatchBody env crew i st rows t (.ok τ.count)
  | front (τ : Tally) (inserted : Nat) (e : Error) (few : inserted = 0 ∨ inserted < rows.length)
      (finished : Finished env crew i st (rows.take inserted) τ t) :
      BatchBody env crew i st rows t (.error e)

theorem batchBody_secure (calls : crew.calls i) (writes : crew.writes i) (idle : st.Idle)
    (next : ∀ x, τ.count ≤ x → st.rows x = none)
    (agrees : ∀ τ', st.tally = some τ' → τ = τ' ∧ Solo crew i)
    (kept : Consistent env crew s.1 s.2) (here : Stands env crew i (st.alone τ) s) :
    Secure (noted env) (sharing env crew) i (fun t result => BatchBody env crew i st rows t result)
      (do
        let (inserted, failure) ← appendRows crew.db rows 0
        finishBatch τ.count inserted
        pure (match failure with
          | none => .ok τ.count
          | some e => .error e) : Prog sig (Result Nat)) s := by
  have mode : (st.alone τ).mode .maintenance = .exclusive := (lock_self st .maintenance _).trans rfl
  have others : ∀ lock, lock ≠ .maintenance → (st.alone τ).mode lock = .free :=
    fun lock other => (lock_other st _ other).trans (idle.mode lock)
  apply Secure.bind kept (appendRows_secure calls writes mode (others .wal (by decide))
    (others .pq (by decide))
    (List.nil_append rows).symm (brought_nil _ rfl) kept here)
  rintro t ⟨inserted, failure⟩ keptThere ⟨few, whole, short, after, brought, stands⟩
  have length : (rows.take inserted).length = inserted := List.length_take_of_le few
  obtain ⟨records, isTally, -⟩ := brought.tally
  have content : ∀ x, InBatch τ.count inserted x → (after.rows x).isSome = true := by
    intro x inside
    rw [brought.content x, length, if_pos inside, List.getElem?_eq_getElem]
    · rfl
    · have low := inside.1
      have high := inside.2
      rw [length]
      omega
  rw [length] at isTally
  have finishes := finishBatch_secure (n := inserted) calls (by rw [brought.mode]; exact mode)
    (by rw [brought.mode]; exact others .wal (by decide))
    (by rw [brought.mode]; exact others .pq (by decide)) isTally rfl
    (fun x inside => ⟨(brought.fresh x).mpr (.inl (by rw [length]; exact inside)), content x inside,
      (brought.uncoded x).mpr (.inl (by rw [length]; exact inside))⟩)
    (fun x uncoded => by
      have either := (brought.uncoded x).mp uncoded
      rw [length] at either
      exact either.resolve_right (idle.coded x))
    (fun strict x inside => brought.unlogged (Consistent.durable_of keptThere strict) x
      (by rw [length]; exact inside)) keptThere stands
  apply Secure.bind keptThere finishes
  intro u _ _ ends
  apply Secure.ret
  intro v moved keptLater
  have finished : Finished env crew i st (rows.take inserted) τ v := by
    refine finished_stable env crew i st _ τ u v moved keptLater ⟨next, agrees, after, brought, ?_⟩
    rw [length]
    exact ends
  cases failure with
  | none =>
      have all : inserted = rows.length := whole rfl
      rw [all, List.take_length] at finished
      exact .whole τ finished
  | some e => exact .front τ inserted e (.inr (short e rfl)) finished

theorem does_storeLen (counted : st.tally = some τ) :
    Does (noted env) (sharing env crew) i .storeLen (Stands env crew i st)
      fun t (len : Nat) => len = τ.count ∧ Stands env crew i st t := by
  apply does_read
  · exact fun _ _ => rfl
  · exact fun _ ok => .inl ok
  · intro t _ stands
    obtain ⟨-, same⟩ := stands.tally τ counted
    exact ⟨t.1.store.count, rfl, congrArg Tally.count same, stands⟩

theorem addBatch_secure (calls : crew.calls i) (writes : crew.writes i) (idle : st.Idle) (batch : Row)
    (kept : Consistent env crew s.1 s.2) (here : Stands env crew i st s) :
    Secure (noted env) (sharing env crew) i
      (fun t result => Appends env crew i st (chunksExact crew.db.dim batch) t result)
      (addBatch crew.db batch) s := by
  apply secure_withLock true calls (idle.below _) kept here
  case gives =>
      intro t result _ (body : BatchBody env crew i st (chunksExact crew.db.dim batch) t result)
      cases body with
      | whole τ finished =>
          apply (finished_leaves idle finished).mono
          rintro u - - ⟨after, leaves, counts⟩
          exact .whole τ.count after leaves counts
      | front τ inserted e few finished =>
          apply (finished_leaves idle finished).mono
          rintro u - - ⟨after, leaves, counts⟩
          exact .front τ.count inserted e after few leaves counts
  case stable => exact fun result => appends_stable env crew i st _ result
  case runs =>
      intro t keptThere stands
      have mode : (st.lock .maintenance (Mode.wanted true)).mode .maintenance = .exclusive :=
        (lock_self st .maintenance _).trans rfl
      obtain ⟨τ, isCount⟩ : ∃ τ, τ = Tally.of env t.1 := ⟨_, rfl⟩
      have alone : Stands env crew i (st.alone τ) t := by
        rw [isCount]
        exact stands.count mode
      have next : ∀ x, τ.count ≤ x → st.rows x = none := by
        intro x beyond
        rw [← Option.not_isSome_iff_eq_none]
        intro isRow
        have inside := getElem?_of_lt ((stands.owned x).mpr isRow)
        rw [keptThere.assigned.owners] at inside
        rw [isCount] at beyond
        exact absurd inside (Nat.not_lt.mpr beyond)
      have agrees : ∀ τ', st.tally = some τ' → τ = τ' ∧ Solo crew i := by
        intro τ' isTally
        have counted := (here.tally τ' isTally).1.resolve_left (by
          rw [idle.mode]
          nofun)
        exact ⟨isCount.trans (stands.tally τ' isTally).2, counted⟩
      split
      · apply Secure.ret
        intro u moved keptLater
        have still := stands_stable env crew i _ t u moved keptLater alone
        refine BatchBody.front τ 0 _ (.inl rfl) ⟨next, agrees, _, brought_nil _ rfl, ?_⟩
        change Stands env crew i ((st.alone τ).finishBatch τ.count 0) u
        rw [finishBatch_zero]
        exact still
      · have counts : Does (noted env) (sharing env crew) i .storeLen (Stands env crew i (st.alone τ))
            fun t (len : Nat) => len = τ.count ∧ Stands env crew i (st.alone τ) t := does_storeLen rfl
        apply Secure.bind keptThere (counts.secure (stands_stable env crew i _)
          (fun _ => Discipline.Stable.and (fun _ _ _ _ same => same) (stands_stable env crew i _)) alone)
        rintro u len keptCount ⟨rfl, still⟩
        exact batchBody_secure calls writes idle next agrees keptCount still

end Db

end Vektordb
