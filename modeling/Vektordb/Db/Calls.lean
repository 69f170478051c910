import Vektordb.Db.Storing

/-!
The calls of the database among other calls: what each of them keeps, and where it leaves the agent
that made it.
-/

namespace Vektordb

open Interaction LittleEndian

namespace Db

variable {env : Env} {crew : Crew} {i : Nat} {st : Standing} {s t : Shared} {α β : Type}

def Env.Level (env : Env) : Prop := ∀ m id, env.level m id < 255

/-! ### Insert -/

inductive InsertOutcome (env : Env) (crew : Crew) (i : Nat) (st : Standing) (vector : Row)
    (t : Shared) : Result Nat → Prop
  | stored (id : Nat) (after : Standing) (logged : Logged crew.db.durable st after id vector)
      (noRow : st.rows id = none) (counted : ∀ τ, st.tally = some τ → id = τ.count)
      (stands : Stands env crew i (after.complete id) t) :
      InsertOutcome env crew i st vector t (.ok id)
  | refused (e : Error) (stands : Stands env crew i st t) :
      InsertOutcome env crew i st vector t (.error e)

theorem insertOutcome_stable (env : Env) (crew : Crew) (i : Nat) (st : Standing) (vector : Row)
    (result : Result Nat) :
    (sharing env crew).Stable i fun t => InsertOutcome env crew i st vector t result := by
  intro s t moved kept outcome
  cases outcome with
  | stored id after logged noRow counted stands =>
      exact .stored id after logged noRow counted (stands_stable env crew i _ s t moved kept stands)
  | refused e stands => exact .refused e (stands_stable env crew i _ s t moved kept stands)

theorem encodeRow_secure {id : Nat} {vector : Row} (calls : crew.calls i)
    (mode : st.mode .maintenance ≠ .free) (log : st.mode .wal = .free) (free : st.mode .pq = .free)
    (isRow : st.rows id = some vector) (hand : st.hand id) (logged : crew.strict → ¬ st.unlogged id)
    (kept : Consistent env crew s.1 s.2)
    (here : Linked env crew i st id s) :
    Secure (noted env) (sharing env crew) i (fun t _ => Stands env crew i (st.complete id) t)
      (withLock .pq true (call (.encodeRow id vector))) s := by
  have wanted : (st.lock .pq (Mode.wanted true)).mode .pq = .exclusive := (lock_self st .pq _).trans rfl
  have mode' : (st.lock .pq (Mode.wanted true)).mode .maintenance ≠ .free := by
    rw [lock_other st _ (by decide)]
    exact mode
  have present : (sharing env crew).Stable i fun t => (t.1.index.nodes.get id).isSome = true :=
    fun _ _ moved _ there => isSome_grows (Relies.grows moved) there
  apply secure_framed true _ calls (Standing.below_of log free (by decide)) kept
    ⟨here.stands, here.present⟩ (fun _ _ _ there => there)
    (fun _ => (stands_stable env crew i _).and present)
  case runs =>
      intro t keptThere stands there
      have encodes : Does (noted env) (sharing env crew) i (.encodeRow id vector)
          (Linked env crew i (st.lock .pq (Mode.wanted true)) id)
          fun t _ => Stands env crew i ((st.lock .pq (Mode.wanted true)).complete id) t := by
        apply does_encodeRow
        · exact mode'
        · exact wanted
        · exact isRow
        · exact hand
        · exact logged
      exact encodes.secure (linked_stable env crew i _ id) (fun _ => stands_stable env crew i _)
        ⟨stands, there⟩
  case stable => exact fun _ => stands_stable env crew i _
  case gives =>
      intro t _ keptThere stands
      exact unlock_secure true free stands

theorem complete_link (st : Standing) (id : Nat) : (st.link id).complete id = st.complete id := by
  unfold Standing.link Standing.complete
  simp only [Standing.mk.injEq, true_and, and_true]
  funext x
  exact propext ⟨fun both => both.2, fun both => ⟨both.1, both⟩⟩

theorem linkAndEncode_secure (levels : Env.Level env) {id : Nat} {vector : Row} (calls : crew.calls i)
    (mode : st.mode .maintenance ≠ .free) (log : st.mode .wal = .free) (free : st.mode .pq = .free)
    (isRow : st.rows id = some vector) (fresh : st.fresh id) (only : ∀ x, st.fresh x → x = id)
    (inside : id < SegVec.CAPACITY) (logged : crew.strict → ¬ st.unlogged id) (visited : VisitedSet)
    (kept : Consistent env crew s.1 s.2)
    (here : Stands env crew i st s) :
    Secure (noted env) (sharing env crew) i
      (fun t result => result = .ok id ∧ Stands env crew i (st.complete id) t)
      (do
        Hnsw.insert crew.db.config id (env.level crew.db.config.m id) visited
        withLock .pq true (call (.encodeRow id vector))
        pure (Except.ok id) : Prog sig (Result Nat)) s := by
  have hand : (st.link id).hand id := (here.fresh id fresh).1
  have row : (st.link id).rows id = some vector := isRow
  have modes : (st.link id).mode .maintenance ≠ .free ∧ (st.link id).mode .wal = .free ∧
      (st.link id).mode .pq = .free := ⟨mode, log, free⟩
  apply Secure.bind kept (insert_links visited fresh only inside (levels _ id) kept here)
  intro t _ keptLinked linked
  have recorded : crew.strict → ¬ (st.link id).unlogged id := logged
  have encoded := encodeRow_secure calls modes.1 modes.2.1 modes.2.2 row hand recorded keptLinked linked
  rw [complete_link] at encoded
  apply Secure.bind keptLinked encoded
  intro u _ _ stands
  apply Secure.ret
  intro v moved keptLater
  exact ⟨rfl, stands_stable env crew i _ u v moved keptLater stands⟩

theorem storeAndLink_secure (levels : Env.Level env) (calls : crew.calls i) (writes : crew.writes i)
    (mode : st.mode .maintenance ≠ .free) (log : st.mode .wal = .free) (pq : st.mode .pq = .free)
    (none : ∀ x, ¬ st.fresh x) (vector : Row) (visited : VisitedSet)
    (kept : Consistent env crew s.1 s.2) (here : Stands env crew i st s) :
    Secure (noted env) (sharing env crew) i
      (fun t result => InsertOutcome env crew i st vector t result)
      (attempt (insertRowStorageOnly crew.db vector) fun id => do
        Hnsw.insert crew.db.config id (env.level crew.db.config.m id) visited
        withLock .pq true (call (.encodeRow id vector))
        pure (.ok id)) s := by
  apply secure_attempt kept (insertRowStorageOnly_secure calls writes mode log pq vector kept here)
  case stable => exact fun result => rowOutcome_stable env crew i st vector result
  case fails =>
      intro t e outcome
      cases outcome with
      | refused _ stands => exact .refused e stands
  case succeeds =>
      intro t id keptRow outcome
      cases outcome with
      | stored _ after logged stands inside noRow counted =>
          have modes := logged.mode
          have isRow : after.rows id = some vector := by
            rw [logged.rows, Function.update_self]
          have only : ∀ x, after.fresh x → x = id :=
            fun x isFresh => ((logged.fresh_iff x).mp isFresh).resolve_right (none x)
          have linked := linkAndEncode_secure levels calls (by rw [modes]; exact mode)
            (by rw [modes]; exact log) (by rw [modes]; exact pq) isRow
            ((logged.fresh_iff id).mpr (.inl rfl)) only inside
            (fun strict => logged.recorded (Consistent.durable_of keptRow strict)) visited keptRow
            stands
          apply linked.mono
          rintro u result - ⟨rfl, stands⟩
          exact .stored id after logged noRow counted stands

theorem insert_secure (levels : Env.Level env) (calls : crew.calls i) (writes : crew.writes i)
    (idle : st.Idle) (vector : Row) (visited : VisitedSet) (kept : Consistent env crew s.1 s.2)
    (here : Stands env crew i st s) :
    Secure (noted env) (sharing env crew) i
      (fun t result => InsertOutcome env crew i st vector t result)
      (insert env crew.db vector visited) s := by
  have held : (st.lock .maintenance (Mode.wanted false)).mode .maintenance = .shared :=
    (lock_self st .maintenance _).trans rfl
  have others : ∀ lock, lock ≠ .maintenance →
      (st.lock .maintenance (Mode.wanted false)).mode lock = .free :=
    fun lock other => (lock_other st _ other).trans (idle.mode lock)
  have mode : (st.lock .maintenance (Mode.wanted false)).mode .maintenance ≠ .free := by
    rw [held]
    nofun
  apply secure_withLock false calls (idle.below _) kept here
    (fun t keptThere stands => storeAndLink_secure levels calls writes
      mode (others .wal (by decide)) (others .pq (by decide))
      (fun x isFresh => idle.hand x (stands.fresh x isFresh).1) vector visited keptThere stands)
  case stable => exact fun result => insertOutcome_stable env crew i st vector result
  case gives =>
      intro t result _ outcome
      cases outcome with
      | stored id after logged noRow counted stands =>
          have row := logged.lock (idle.mode .maintenance)
          have again : ((after.lock .maintenance .free).complete id).lock .maintenance
              (Mode.wanted false) = after.complete id := by
            change ((after.lock .maintenance .free).lock .maintenance (Mode.wanted false)).complete id = _
            rw [lock_again]
            rw [logged.mode]
            exact held
          have complete : ∀ x, ¬ ((after.lock .maintenance .free).complete id).uncoded x := by
            rintro x ⟨apart, uncoded⟩
            rcases (logged.uncoded x).mp uncoded with same | before
            · exact apart same
            · exact idle.coded x before
          have solo : ∀ τ, after.tally = some τ → Solo crew i := by
            intro τ isTally
            refine (stands.tally τ isTally).1.resolve_left ?_
            change after.mode .maintenance ≠ .exclusive
            rw [logged.mode, held]
            nofun
          rw [← again] at stands
          apply (leave_secure false _ complete after.tally _ stands).mono
          · exact fun _ _ _ ends => .stored id _ row noRow counted ends
          · exact lock_self after .maintenance .free
          · exact fun τ isTally => ⟨isTally, solo τ isTally⟩
      | refused e stands =>
          apply (leave_secure false (idle.mode _) idle.coded st.tally _ stands).mono
          · exact fun _ _ _ ends => .refused e ends
          · intro τ isTally
            refine ⟨isTally, (stands.tally τ isTally).1.resolve_left ?_⟩
            rw [held]
            nofun

end Db

end Vektordb
