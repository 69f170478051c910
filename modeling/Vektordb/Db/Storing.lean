import Vektordb.Db.Hosting

/-!
The part of an insert that a batch shares with it: one row goes into the store and its record into
the log, under the WAL lock, or neither does.
-/

namespace Vektordb

open Interaction LittleEndian

namespace Db

variable {env : Env} {crew : Crew} {i : Nat} {st : Standing} {s t : Shared} {α β : Type}

/-! ### Blocks -/

theorem secure_attempt {first : Prog sig (Result α)} {next : α → Prog sig (Result β)}
    {mid : Shared → Result α → Prop} {post : Shared → Result β → Prop}
    (kept : Consistent env crew s.1 s.2)
    (begins : Secure (noted env) (sharing env crew) i mid first s)
    (succeeds : ∀ t value, Consistent env crew t.1 t.2 → mid t (.ok value) →
      Secure (noted env) (sharing env crew) i post (next value) t)
    (fails : ∀ t e, mid t (.error e) → post t (.error e))
    (stable : ∀ result, (sharing env crew).Stable i fun t => mid t result) :
    Secure (noted env) (sharing env crew) i post (attempt first next) s := by
  apply Secure.bind kept begins
  intro t result keptThere holds
  cases result with
  | ok value => exact succeeds t value keptThere holds
  | error e =>
      apply Secure.ret
      intro u moved keptLater
      exact fails u e (stable (.error e) t u moved keptLater holds)

/-- What taking and giving up locks leaves alone. -/
def Lockless (frame : Shared → Prop) : Prop :=
  ∀ s lock holders, frame s → frame (s.1.setLock lock holders, s.2)

theorem Lockless.acquire {frame : Shared → Prop} (lockless : Lockless frame) {lock : Lock}
    {exclusive : Bool} {u : Shared} {answer : Answer (.acquire lock exclusive)}
    (done : noted env i t (.acquire lock exclusive) = .ok u answer) (holds : frame t) : frame u := by
  obtain ⟨inner, noted⟩ := Handler.noting_inv done
  obtain ⟨holders, same, -⟩ := acquire_cases inner
  obtain ⟨w, l⟩ := u
  obtain rfl : w = t.1.setLock lock holders := same
  obtain rfl : l = t.2 := noted
  exact lockless t lock holders holds

theorem Lockless.release {frame : Shared → Prop} (lockless : Lockless frame) {lock : Lock}
    {exclusive : Bool} {u : Shared} {answer : Answer (.release lock exclusive)}
    (done : noted env i t (.release lock exclusive) = .ok u answer) (holds : frame t) : frame u := by
  obtain ⟨inner, noted⟩ := Handler.noting_inv done
  obtain ⟨w, l⟩ := u
  have same : t.1.release i lock exclusive = w := (Reply.ok.inj inner).1
  obtain rfl : l = t.2 := noted
  rw [← same]
  unfold World.release
  dsimp only
  split
  · exact lockless t lock _ holds
  · exact lockless t lock _ holds

theorem secure_locked {body : Prog sig α} {lock : Lock} {exclusive : Bool} {known held : Shared → Prop}
    {mid post : Shared → α → Prop} (kept : Consistent env crew s.1 s.2) (here : known s)
    (acquires : Does (noted env) (sharing env crew) i (.acquire lock exclusive) known
      fun t _ => held t)
    (before : (sharing env crew).Stable i known) (during : (sharing env crew).Stable i held)
    (runs : ∀ t, Consistent env crew t.1 t.2 → held t →
      Secure (noted env) (sharing env crew) i mid body t)
    (gives : ∀ t value, Consistent env crew t.1 t.2 → mid t value →
      Secure (noted env) (sharing env crew) i (fun u _ => post u value)
        (call (.release lock exclusive)) t)
    (stable : ∀ value, (sharing env crew).Stable i fun t => post t value) :
    Secure (noted env) (sharing env crew) i post (withLock lock exclusive body) s := by
  apply Secure.bind kept (acquires.secure before (fun _ => during) here)
  intro t _ keptThere holds
  apply Secure.bind keptThere (runs t keptThere holds)
  intro u value keptBody after
  apply Secure.bind keptBody (gives u value keptBody after)
  intro v _ _ ends
  apply Secure.ret
  intro x moved keptLater
  exact stable value v x moved keptLater ends

/-- A block under a lock, with what holds besides the standing of its agent. -/
theorem secure_framed {body : Prog sig α} {lock : Lock} (exclusive : Bool)
    (frame : Shared → Prop) {mid post : Shared → α → Prop} (calls : crew.calls i)
    (below : st.Below lock) (kept : Consistent env crew s.1 s.2)
    (here : Stands env crew i st s ∧ frame s) (lockless : Lockless frame)
    (framed : ∀ mode, (sharing env crew).Stable i fun t =>
      Stands env crew i (st.lock lock mode) t ∧ frame t)
    (runs : ∀ t, Consistent env crew t.1 t.2 →
      Stands env crew i (st.lock lock (Mode.wanted exclusive)) t → frame t →
      Secure (noted env) (sharing env crew) i mid body t)
    (gives : ∀ t value, Consistent env crew t.1 t.2 → mid t value →
      Secure (noted env) (sharing env crew) i (fun u _ => post u value)
        (call (.release lock exclusive)) t)
    (stable : ∀ value, (sharing env crew).Stable i fun t => post t value) :
    Secure (noted env) (sharing env crew) i post (withLock lock exclusive body) s := by
  have acquires : Does (noted env) (sharing env crew) i (.acquire lock exclusive)
      (fun t => Stands env crew i st t ∧ frame t)
      fun t _ => Stands env crew i (st.lock lock (Mode.wanted exclusive)) t ∧ frame t :=
    (does_acquire calls exclusive below).frame fun _ _ _ done holds => lockless.acquire done holds
  have before := framed .free
  rw [show st.lock lock .free = st by
    unfold Standing.lock
    rw [← below.free, Function.update_eq_self]] at before
  exact secure_locked kept here acquires before (framed _)
    (fun t keptThere holds => runs t keptThere holds.1 holds.2) gives stable

theorem secure_withLock {body : Prog sig α} {lock : Lock} (exclusive : Bool)
    {mid post : Shared → α → Prop} (calls : crew.calls i) (below : st.Below lock)
    (kept : Consistent env crew s.1 s.2) (here : Stands env crew i st s)
    (runs : ∀ t, Consistent env crew t.1 t.2 →
      Stands env crew i (st.lock lock (Mode.wanted exclusive)) t →
      Secure (noted env) (sharing env crew) i mid body t)
    (gives : ∀ t value, Consistent env crew t.1 t.2 → mid t value →
      Secure (noted env) (sharing env crew) i (fun u _ => post u value)
        (call (.release lock exclusive)) t)
    (stable : ∀ value, (sharing env crew).Stable i fun t => post t value) :
    Secure (noted env) (sharing env crew) i post (withLock lock exclusive body) s := by
  apply secure_framed exclusive (fun _ => True) calls below kept ⟨here, trivial⟩
    (fun _ _ _ _ => trivial)
  case framed => exact fun _ => (stands_stable env crew i _).and fun _ _ _ _ _ => trivial
  case runs => exact fun t keptThere stands _ => runs t keptThere stands
  case gives => exact gives
  case stable => exact stable

theorem lock_self (st : Standing) (lock : Lock) (mode : Mode) : (st.lock lock mode).mode lock = mode :=
  Function.update_self ..

theorem lock_other (st : Standing) {lock other : Lock} (mode : Mode) (different : other ≠ lock) :
    (st.lock lock mode).mode other = st.mode other := Function.update_of_ne different ..

theorem lock_free {lock : Lock} {mode : Mode} (free : st.mode lock = .free) :
    (st.lock lock mode).lock lock .free = st := by
  unfold Standing.lock
  dsimp only
  rw [Function.update_idem, ← free, Function.update_eq_self]

theorem lock_again {lock : Lock} {mode held : Mode} (isHeld : st.mode lock = held) :
    (st.lock lock mode).lock lock held = st := by
  unfold Standing.lock
  dsimp only
  rw [Function.update_idem, ← isHeld, Function.update_eq_self]

/-! ### One row -/

/-- A row that has been stored, and logged if there is a log. -/
def Logged (durable : Bool) (st after : Standing) (id : Nat) (vector : Row) : Prop :=
  if durable then ∃ lsn, after = (st.enter id vector).record lsn id vector
  else after = st.enter id vector

inductive RowOutcome (env : Env) (crew : Crew) (i : Nat) (st : Standing) (vector : Row) (t : Shared) :
    Result Nat → Prop
  | stored (id : Nat) (after : Standing) (logged : Logged crew.db.durable st after id vector)
      (stands : Stands env crew i after t) (inside : id < SegVec.CAPACITY)
      (noRow : st.rows id = none)
      (counted : ∀ τ, st.tally = some τ → id = τ.count) : RowOutcome env crew i st vector t (.ok id)
  | refused (e : Error) (stands : Stands env crew i st t) : RowOutcome env crew i st vector t (.error e)

theorem Logged.mode {durable : Bool} {after : Standing} {id : Nat} {vector : Row}
    (logged : Logged durable st after id vector) : after.mode = st.mode := by
  unfold Logged at logged
  split at logged
  · obtain ⟨lsn, rfl⟩ := logged
    rfl
  · subst logged
    rfl

theorem Logged.rows {durable : Bool} {after : Standing} {id : Nat} {vector : Row}
    (logged : Logged durable st after id vector) :
    after.rows = Function.update st.rows id (some vector) := by
  unfold Logged at logged
  split at logged
  · obtain ⟨lsn, rfl⟩ := logged
    rfl
  · subst logged
    rfl

theorem Logged.uncoded {durable : Bool} {after : Standing} {id : Nat} {vector : Row}
    (logged : Logged durable st after id vector) (x : Nat) :
    after.uncoded x ↔ x = id ∨ st.uncoded x := by
  unfold Logged at logged
  split at logged
  · obtain ⟨lsn, rfl⟩ := logged
    exact Iff.rfl
  · subst logged
    exact Iff.rfl

theorem Logged.unlogged {after : Standing} {id : Nat} {vector : Row}
    (logged : Logged true st after id vector) (x : Nat) :
    after.unlogged x ↔ x ≠ id ∧ st.unlogged x := by
  obtain ⟨lsn, rfl⟩ := logged
  change (x ≠ id ∧ (x = id ∨ st.unlogged x)) ↔ _
  exact and_congr_right fun apart => ⟨fun either => either.resolve_left apart, .inr⟩

theorem Logged.recorded {after : Standing} {id : Nat} {vector : Row} {durable : Bool}
    (logged : Logged durable st after id vector) (isDurable : durable = true) :
    ¬ after.unlogged id := by
  subst isDurable
  exact fun unlogged => ((logged.unlogged id).mp unlogged).1 rfl

theorem Logged.hand_iff {durable : Bool} {after : Standing} {id : Nat} {vector : Row}
    (logged : Logged durable st after id vector) (x : Nat) : after.hand x ↔ x = id ∨ st.hand x := by
  unfold Logged at logged
  split at logged
  · obtain ⟨lsn, rfl⟩ := logged
    exact Iff.rfl
  · subst logged
    exact Iff.rfl

theorem Logged.fresh_iff {durable : Bool} {after : Standing} {id : Nat} {vector : Row}
    (logged : Logged durable st after id vector) (x : Nat) : after.fresh x ↔ x = id ∨ st.fresh x := by
  unfold Logged at logged
  split at logged
  · obtain ⟨lsn, rfl⟩ := logged
    exact Iff.rfl
  · subst logged
    exact Iff.rfl

theorem Logged.tally {durable : Bool} {after : Standing} {id : Nat} {vector : Row} {τ : Tally}
    (logged : Logged durable st after id vector) (counted : st.tally = some τ) :
    ∃ records : List (Nat × WalOp),
      after.tally = some ⟨id + 1, τ.acked ++ records, τ.quantizer⟩ ∧
        records.map Prod.snd = if durable then [.insert id vector] else [] := by
  cases durable with
  | true =>
      obtain ⟨lsn, rfl⟩ := logged
      refine ⟨[(lsn, .insert id vector)], ?_, rfl⟩
      change (st.tally.map _).map _ = _
      rw [counted]
      rfl
  | false =>
      obtain rfl : after = st.enter id vector := logged
      refine ⟨[], ?_, rfl⟩
      change st.tally.map _ = _
      rw [counted, List.append_nil]
      rfl

theorem Logged.lock {durable : Bool} {after : Standing} {id : Nat} {vector : Row} {lock : Lock}
    {mode : Mode} (logged : Logged durable (st.lock lock mode) after id vector)
    (free : st.mode lock = .free) : Logged durable st (after.lock lock .free) id vector := by
  unfold Logged at logged ⊢
  split at logged
  · rename_i isDurable
    rw [if_pos isDurable]
    obtain ⟨lsn, rfl⟩ := logged
    refine ⟨lsn, ?_⟩
    change (((st.enter id vector).record lsn id vector).lock lock mode).lock lock .free = _
    exact lock_free free
  · rename_i isDurable
    rw [if_neg isDurable]
    subst logged
    change ((st.enter id vector).lock lock mode).lock lock .free = _
    exact lock_free free

theorem rowOutcome_stable (env : Env) (crew : Crew) (i : Nat) (st : Standing) (vector : Row)
    (result : Result Nat) :
    (sharing env crew).Stable i fun t => RowOutcome env crew i st vector t result := by
  intro s t moved kept holds
  cases holds with
  | stored id after logged stands inside noRow counted =>
      have still := stands_stable env crew i after s t moved kept stands
      exact .stored id after logged still inside noRow counted
  | refused e stands => exact .refused e (stands_stable env crew i st s t moved kept stands)

theorem fit_stable (env : Env) (crew : Crew) (log : st.mode .wal = .exclusive) :
    (sharing env crew).Stable i fun t => Stands env crew i st t ∧ Fit crew t := by
  rintro s t moved kept ⟨stands, fit⟩
  have even : Paired crew s := fun strict => (fit strict).1
  obtain ⟨still, later⟩ := paired_stable env crew log s t moved kept ⟨stands, even⟩
  refine ⟨still, fun strict => ⟨later strict, ?_⟩⟩
  rw [(Relies.wal moved (stands.owns log)).wal]
  exact (fit strict).2

theorem does_check (durable : crew.db.durable = true) :
    Does (noted env) (sharing env crew) i .ensureHealthy
      (fun t => Stands env crew i st t ∧ Paired crew t)
      fun t result => Stands env crew i st t ∧ Paired crew t ∧ (result = .ok () → Fit crew t) := by
  have framed : Does (noted env) (sharing env crew) i .ensureHealthy
      (fun t => Stands env crew i st t ∧ Paired crew t)
      fun t result => (Stands env crew i st t ∧
        (result = .ok () → ∀ wal, t.1.wal = some wal → wal.poisoned = false)) ∧ Paired crew t := by
    apply (does_ensureHealthy durable).frame
    intro t u answer done even
    obtain ⟨inner, -⟩ := Handler.noting_inv done
    unfold Paired
    rw [ensureHealthy_quiet inner]
    exact even
  apply framed.weaken (fun _ _ known => known)
  rintro t result - ⟨⟨stands, healthy⟩, even⟩
  exact ⟨stands, even, fun isOk strict => ⟨even strict, healthy isOk⟩⟩

/-- A row and its record under the WAL lock. -/
theorem insertLogged_secure (writes : crew.writes i) (mode : st.mode .maintenance ≠ .free)
    (log : st.mode .wal = .exclusive) (durable : crew.db.durable = true) (vector : Row)
    (kept : Consistent env crew s.1 s.2) (here : Stands env crew i st s ∧ Paired crew s) :
    Secure (noted env) (sharing env crew) i
      (fun t result => RowOutcome env crew i st vector t result ∧ Paired crew t)
      (insertLogged vector) s := by
  have stable := paired_stable (i := i) env crew log
  have checked : ∀ result : Result Unit, (sharing env crew).Stable i fun t =>
      Stands env crew i st t ∧ Paired crew t ∧ (result = .ok () → Fit crew t) := by
    rintro result t u moved keptLater ⟨stands, even, fit⟩
    obtain ⟨still, later⟩ := stable t u moved keptLater ⟨stands, even⟩
    refine ⟨still, later, ?_⟩
    intro isOk
    exact (fit_stable env crew log t u moved keptLater ⟨stands, fit isOk⟩).2
  apply secure_attempt kept ((does_check durable).secure stable checked here)
  case fails => exact fun t e after => ⟨.refused e after.1, after.2.1⟩
  case stable => exact checked
  case succeeds =>
      rintro t _ keptThere ⟨stands, -, fit⟩
      have appends := (does_append writes mode (fun _ => log) vector).secure (fit_stable env crew log)
        (fun result => afterAppend_stable env crew (fun _ => log) vector result) ⟨stands, fit rfl⟩
      apply secure_attempt keptThere appends
      case fails => exact fun u e after => ⟨.refused e after.1, after.2⟩
      case stable => exact fun result => afterAppend_stable env crew (fun _ => log) vector result
      case succeeds =>
          rintro u id keptRow ⟨entered, inside, noRow, noHand, noFresh, counted⟩
          have still : (st.enter id vector).mode .wal = .exclusive := log
          have records : Does (noted env) (sharing env crew) i (.walAppend (.insert id vector))
              (Entered env crew i (st.enter id vector) id)
              fun t result => AfterRecord env crew i (st.enter id vector) id vector t result := by
            apply does_walAppend
            · exact mode
            · exact log
            · exact durable
            · exact Function.update_self ..
            · exact .inl rfl
          apply Secure.bind keptRow (records.secure (entered_stable env crew i fun _ => still)
            (fun result => afterRecord_stable env crew i id still vector result) entered)
          intro v result keptLog after
          cases result with
          | ok lsn =>
              apply Secure.ret
              intro x moved keptLater
              have logged : Logged crew.db.durable st ((st.enter id vector).record lsn id vector) id
                  vector := by
                unfold Logged
                rw [if_pos durable]
                exact ⟨lsn, rfl⟩
              obtain ⟨ends, even⟩ := afterRecord_stable env crew i id still vector (.ok lsn) v x moved
                keptLater after
              exact ⟨.stored id _ logged ends inside noRow counted, even⟩
          | error e =>
              have undone : ∀ result : Result Unit, (sharing env crew).Stable i fun t =>
                  result = .ok () ∧ Stands env crew i st t ∧ Paired crew t :=
                fun _ => Discipline.Stable.and (fun _ _ _ _ same => same) stable
              have undoes := (does_rollback mode log durable noRow noHand noFresh counted).secure
                (entered_stable env crew i fun _ => still) undone after
              apply secure_attempt keptLog undoes
              case fails => exact fun x e ends => nomatch ends.1
              case stable => exact undone
              case succeeds =>
                  rintro x _ - ⟨-, ends⟩
                  apply Secure.ret
                  intro y moved keptLater
                  obtain ⟨stands, even⟩ := stable x y moved keptLater ends
                  exact ⟨.refused e stands, even⟩

theorem does_unlockLog (mode : st.mode .wal = .exclusive) :
    Does (noted env) (sharing env crew) i (.release .wal true)
      (fun t => Stands env crew i st t ∧ Paired crew t)
      fun t _ => Stands env crew i (st.lock .wal .free) t := by
  have released : Does (noted env) (sharing env crew) i (.release .wal true)
      (fun t => Stands env crew i st t ∧ (Lock.wal = .wal → Paired crew t))
      fun t _ => Stands env crew i ((st.lock .wal .free).recount st.tally) t := by
    apply does_release true mode
    · exact nofun
    · exact fun τ isTally => ⟨isTally, .inl (by decide)⟩
  exact released.weaken (fun _ _ known => ⟨known.1, fun _ => known.2⟩) fun _ _ _ ends => ends

theorem does_unlock (exclusive : Bool) (free : st.mode .pq = .free) :
    Does (noted env) (sharing env crew) i (.release .pq exclusive)
      (Stands env crew i (st.lock .pq (Mode.wanted exclusive))) fun t _ => Stands env crew i st t := by
  have released : Does (noted env) (sharing env crew) i (.release .pq exclusive)
      (fun t => Stands env crew i (st.lock .pq (Mode.wanted exclusive)) t ∧
        (Lock.pq = .wal → Paired crew t))
      fun t _ => Stands env crew i
        (((st.lock .pq (Mode.wanted exclusive)).lock .pq .free).recount st.tally) t := by
    apply does_release exclusive (lock_self st .pq _)
    · exact nofun
    · exact fun τ isTally => ⟨isTally, .inl (by decide)⟩
  apply released.weaken (fun _ _ stands => ⟨stands, nofun⟩)
  intro u _ _ ends
  rw [lock_free free] at ends
  exact ends

theorem unlock_secure (exclusive : Bool) (free : st.mode .pq = .free)
    (here : Stands env crew i (st.lock .pq (Mode.wanted exclusive)) s) :
    Secure (noted env) (sharing env crew) i (fun t _ => Stands env crew i st t)
      (call (.release .pq exclusive)) s :=
  (does_unlock exclusive free).secure (stands_stable env crew i _)
    (fun _ => stands_stable env crew i _) here

theorem leave_secure (exclusive : Bool) (free : st.mode .maintenance = .free)
    (complete : ∀ x, ¬ st.uncoded x) (tally : Option Tally)
    (counted : ∀ τ, tally = some τ → st.tally = some τ ∧ Solo crew i)
    (here : Stands env crew i (st.lock .maintenance (Mode.wanted exclusive)) s) :
    Secure (noted env) (sharing env crew) i (fun t _ => Stands env crew i (st.recount tally) t)
      (call (.release .maintenance exclusive)) s := by
  have releases : Does (noted env) (sharing env crew) i (.release .maintenance exclusive)
      (Stands env crew i (st.lock .maintenance (Mode.wanted exclusive)))
      fun t _ => Stands env crew i (st.recount tally) t := by
    have released : Does (noted env) (sharing env crew) i (.release .maintenance exclusive)
        (fun t => Stands env crew i (st.lock .maintenance (Mode.wanted exclusive)) t ∧
          (Lock.maintenance = .wal → Paired crew t)) fun t _ => Stands env crew
          i (((st.lock .maintenance (Mode.wanted exclusive)).lock .maintenance .free).recount tally)
          t := by
      apply does_release exclusive (lock_self st _ _) (fun _ => complete)
      intro τ isTally
      obtain ⟨before, solo⟩ := counted τ isTally
      exact ⟨before, .inr solo⟩
    apply released.weaken (fun _ _ stands => ⟨stands, nofun⟩)
    intro u _ _ ends
    rw [lock_free free] at ends
    exact ends
  exact releases.secure (stands_stable env crew i _) (fun _ => stands_stable env crew i _) here

theorem insertRowStorageOnly_secure (calls : crew.calls i) (writes : crew.writes i)
    (mode : st.mode .maintenance ≠ .free) (free : st.mode .wal = .free)
    (pq : st.mode .pq = .free) (vector : Row) (kept : Consistent env crew s.1 s.2)
    (here : Stands env crew i st s) :
    Secure (noted env) (sharing env crew) i (fun t result => RowOutcome env crew i st vector t result)
      (insertRowStorageOnly crew.db vector) s := by
  have stable := stands_stable env crew i st
  unfold insertRowStorageOnly
  split
  · rename_i durable
    have wanted : (st.lock .wal .exclusive).mode .wal = .exclusive := lock_self st .wal _
    have mode' : (st.lock .wal .exclusive).mode .maintenance ≠ .free := by
      rw [lock_other st _ (by decide)]
      exact mode
    apply secure_locked kept here (does_acquireLog calls (Standing.below_of free pq (by decide))) stable
      (paired_stable env crew wanted)
    case runs =>
        intro t keptThere held
        exact insertLogged_secure writes mode' wanted durable vector keptThere held
    case stable => exact fun result => rowOutcome_stable env crew i st vector result
    case gives =>
        rintro t result keptThere ⟨outcome, even⟩
        cases outcome with
        | stored id after logged stands inside noRow counted =>
            have held : after.mode .wal = .exclusive := by
              rw [logged.mode]
              exact wanted
            have row := logged.lock free
            have released : Does (noted env) (sharing env crew) i (.release .wal true)
                (fun t => Stands env crew i after t ∧ Paired crew t)
                fun t _ => RowOutcome env crew i st vector t (.ok id) :=
              (does_unlockLog held).weaken (fun _ _ known => known)
                fun _ _ _ ends => .stored id _ row ends inside noRow counted
            exact released.secure (paired_stable env crew held)
              (fun _ => rowOutcome_stable env crew i st vector _) ⟨stands, even⟩
        | refused e stands =>
            have released : Does (noted env) (sharing env crew) i (.release .wal true)
                (fun t => Stands env crew i (st.lock .wal .exclusive) t ∧ Paired crew t)
                fun t _ => RowOutcome env crew i st vector t (.error e) := by
              apply (does_unlockLog wanted).weaken (fun _ _ known => known)
              intro u _ _ ends
              rw [lock_free free] at ends
              exact .refused e ends
            exact released.secure (paired_stable env crew wanted)
              (fun _ => rowOutcome_stable env crew i st vector _) ⟨stands, even⟩
  · rename_i volatile
    have log : crew.db.durable = true → st.mode .wal = .exclusive := fun durable => absurd durable volatile
    have appends : Does (noted env) (sharing env crew) i (.append vector) (Stands env crew i st)
        fun t result => RowOutcome env crew i st vector t result := by
      apply (does_append writes mode log vector).weaken
      case stronger =>
          intro t keptThere stands
          exact ⟨stands, fun strict => absurd (Consistent.durable_of keptThere strict) volatile⟩
      intro t result _ after
      cases result with
      | error e => exact .refused e after.1
      | ok id =>
          obtain ⟨entered, inside, noRow, -, -, counted⟩ := after
          have logged : Logged crew.db.durable st (st.enter id vector) id vector := by
            unfold Logged
            rw [if_neg volatile]
          exact .stored id _ logged entered.stands inside noRow counted
    exact appends.secure stable (fun result => rowOutcome_stable env crew i st vector result) here

end Db

end Vektordb
