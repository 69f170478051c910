import Vektordb.Db.Batches

/-!
The calls that append no rows: training, checkpoints and what a thread of the pool does. Each of
them leaves its agent with the rows that it had.
-/

namespace Vektordb

open Interaction LittleEndian

namespace Db

variable {env : Env} {crew : Crew} {i : Nat} {st : Standing} {s t : Shared}

/-! ### The thread pool -/

theorem take_link_drop {id : Nat} (hand : ¬ st.hand id) (fresh : ¬ st.fresh id) :
    ((st.take id).link id).drop id = st := by
  have restore : ∀ p : Nat → Prop, ¬ p id → (fun x => x ≠ id ∧ (x = id ∨ p x)) = p := by
    intro p free
    funext x
    refine propext ⟨fun both => both.2.resolve_left both.1, fun holds => ⟨?_, .inr holds⟩⟩
    rintro rfl
    exact free holds
  have again : (fun x => x ≠ id ∧ x ≠ id ∧ (x = id ∨ st.fresh x)) = st.fresh := by
    simp only [and_self_left]
    exact restore st.fresh fresh
  unfold Standing.take Standing.link Standing.drop
  simp only [restore st.hand hand, again]

/-- A thread of the pool takes an id, links it and is idle again. -/
theorem worker_secure (levels : Env.Level env) (helper : ¬ crew.calls i) (idle : st.Idle)
    (visited : VisitedSet) (kept : Consistent env crew s.1 s.2) (here : Stands env crew i st s) :
    Secure (noted env) (sharing env crew) i (fun t _ => Stands env crew i st t)
      (worker env crew.db visited) s := by
  have takes := (does_take helper idle.hand).secure (stands_stable env crew i st)
    (fun _ => Discipline.Stable.and (stands_stable env crew i _) fun _ _ _ _ same => same) here
  apply Secure.bind kept takes
  rintro t id keptThere ⟨taken, inside, noRow⟩
  have noFresh : ∀ x, ¬ st.fresh x := fun x isFresh => idle.hand x (here.fresh x isFresh).1
  have only : ∀ x, (st.take id).fresh x → x = id := fun x isFresh => isFresh.resolve_right (noFresh x)
  have isFresh : (st.take id).fresh id := .inl rfl
  apply Secure.bind keptThere
    (insert_links visited isFresh only inside (levels _ id) keptThere taken)
  intro u _ _ linked
  have finishes : Does (noted env) (sharing env crew) i (.finish id)
      (Linked env crew i ((st.take id).link id) id)
      fun t _ => Stands env crew i (((st.take id).link id).drop id) t := by
    apply does_finish
    · exact .inl rfl
    · exact noRow
  rw [take_link_drop (idle.hand id) (noFresh id)] at finishes
  exact finishes.secure (linked_stable env crew i _ id) (fun _ => stands_stable env crew i st) linked

/-! ### Training -/

theorem Stands.forget (stands : Stands env crew i st s) : Stands env crew i (st.recount none) s :=
  ⟨stands.locks, stands.owned, stands.rows, stands.uncoded, stands.unlogged, stands.hand,
    stands.fresh, nofun⟩

theorem does_look {op : Action} (silent : ∀ l answer, note i l op answer = l)
    (promised : ∀ t, (∃ u answer, handle env i t.1 op = .ok u answer) → Promised env crew i t op)
    (answers : ∀ w : World, ∃ answer, handle env i w op = .ok w answer) :
    Does (noted env) (sharing env crew) i op (Stands env crew i st)
      fun t _ => Stands env crew i st t := by
  apply does_read silent promised
  intro t _ stands
  obtain ⟨answer, answered⟩ := answers t.1
  exact ⟨answer, answered, stands⟩

theorem gather_secure (ids : List Nat) (samples : Row) (kept : Consistent env crew s.1 s.2)
    (here : Stands env crew i st s) :
    Secure (noted env) (sharing env crew) i (fun t _ => Stands env crew i st t)
      (gather ids samples) s := by
  have stable := stands_stable env crew i st
  induction ids generalizing samples s with
  | nil => exact Secure.ret fun t moved keptThere => stable s t moved keptThere here
  | cons id rest ih =>
      have reads : Does (noted env) (sharing env crew) i (.row id) (Stands env crew i st)
          fun t _ => Stands env crew i st t :=
        does_look (fun _ _ => rfl) (fun _ ok => .inl ok) fun w => ⟨w.row id, rfl⟩
      apply Secure.bind kept (reads.secure stable (fun _ => stable) here)
      intro t (row : Row) keptThere stands
      exact ih (samples ++ row) keptThere stands

theorem publish_secure (calls : crew.calls i) (mode : st.mode .maintenance = .exclusive)
    (log : st.mode .wal = .free) (free : st.mode .pq = .free) (complete : ∀ x, ¬ st.uncoded x)
    (pq : ProductQuantizer) (codes : Bytes) (kept : Consistent env crew s.1 s.2)
    (here : Encoded env crew i st pq codes s) :
    Secure (noted env) (sharing env crew) i (fun t _ => Stands env crew i (st.recount none) t)
      (withLock .pq true (call (.setPq ⟨pq, codes⟩))) s := by
  have wanted : (st.lock .pq (Mode.wanted true)).mode .pq = .exclusive := (lock_self st .pq _).trans rfl
  have held : ∀ mode', (st.lock .pq mode').mode .maintenance = .exclusive :=
    fun mode' => (lock_other st _ (by decide)).trans mode
  have framed : ∀ mode', (sharing env crew).Stable i fun t =>
      Stands env crew i (st.lock .pq mode') t ∧ codes = t.1.encodeAll env pq := by
    rintro mode' t u moved keptLater ⟨stands, same⟩
    obtain ⟨still, there⟩ :=
      encoded_stable env crew (held mode') pq codes t u moved keptLater ⟨stands, same⟩
    exact ⟨still, there⟩
  apply secure_framed true _ calls (Standing.below_of log free (by decide)) kept
    ⟨here.stands, here.codes⟩ (fun _ _ _ there => there) framed
  case runs =>
      intro t keptThere stands same
      have sets : Does (noted env) (sharing env crew) i (.setPq ⟨pq, codes⟩)
          (Encoded env crew i (st.lock .pq (Mode.wanted true)) pq codes)
          fun t _ => Stands env crew i ((st.recount none).lock .pq (Mode.wanted true)) t := by
        apply does_setPq
        · exact held _
        · exact wanted
        · exact complete
      exact sets.secure (encoded_stable env crew (held _) pq codes) (fun _ => stands_stable env crew i _)
        ⟨stands, same⟩
  case stable => exact fun _ => stands_stable env crew i _
  case gives =>
      intro t _ _ stands
      have free' : (st.recount none).mode .pq = .free := free
      exact unlock_secure true free' stands

theorem trainPq_secure (calls : crew.calls i) (idle : st.Idle) (m iters maxSamples : Nat)
    (seeds : Nat → Nat) (kept : Consistent env crew s.1 s.2) (here : Stands env crew i st s) :
    Secure (noted env) (sharing env crew) i (fun t _ => Stands env crew i (st.recount none) t)
      (trainPq env crew.db m iters maxSamples seeds) s := by
  have stable := stands_stable env crew i st
  have later := stands_stable env crew i (st.recount none)
  have stops : ∀ (t : Shared) (result : Result Unit), Stands env crew i st t →
      Secure (noted env) (sharing env crew) i (fun t _ => Stands env crew i (st.recount none) t)
        (.ret result) t := by
    intro t result stands
    exact Secure.ret fun u moved keptThere => later t u moved keptThere stands.forget
  unfold trainPq
  split
  · exact stops s _ here
  have counts : Does (noted env) (sharing env crew) i .storeLen (Stands env crew i st)
      fun t _ => Stands env crew i st t :=
    does_look (fun _ _ => rfl) (fun _ ok => .inl ok) fun w => ⟨w.store.count, rfl⟩
  apply Secure.bind kept (counts.secure stable (fun _ => stable) here)
  intro t n keptCount stands
  split
  · exact stops t _ stands
  split
  · exact stops t _ stands
  split
  · exact stops t _ stands
  apply Secure.bind keptCount (gather_secure _ [] keptCount stands)
  intro u samples keptSamples still
  cases ProductQuantizer.train env.pq samples crew.db.dim m iters seeds with
  | error e => exact stops u _ still
  | ok pq =>
      have ready : (st.lock .maintenance (Mode.wanted true)).mode .maintenance = .exclusive :=
        (lock_self st .maintenance _).trans rfl
      have others : ∀ lock, lock ≠ .maintenance →
          (st.lock .maintenance (Mode.wanted true)).mode lock = .free :=
        fun lock other => (lock_other st _ other).trans (idle.mode lock)
      apply secure_withLock true calls (idle.below _) keptSamples still
      case stable => exact fun _ => later
      case gives =>
          intro v result _ (ends : Stands env crew i
            ((st.recount none).lock .maintenance (Mode.wanted true)) v)
          apply (leave_secure true _ _ none _ ends).mono
          · exact fun _ _ _ gone => gone
          · exact idle.mode .maintenance
          · exact idle.coded
          · exact nofun
      case runs =>
          intro v keptAlone alone
          have encodes : Does (noted env) (sharing env crew) i (.encodeAll pq)
              (Stands env crew i (st.lock .maintenance (Mode.wanted true)))
              fun t codes => Encoded env crew i (st.lock .maintenance (Mode.wanted true)) pq codes t :=
            does_encodeAll pq
          apply Secure.bind keptAlone (encodes.secure (stands_stable env crew i _)
            (fun codes => encoded_stable env crew ready pq codes) alone)
          intro x codes keptCodes encoded
          have publishes := publish_secure calls ready (others .wal (by decide))
            (others .pq (by decide)) idle.coded pq codes keptCodes encoded
          apply Secure.bind keptCodes publishes
          intro y _ _ ends
          apply Secure.ret
          intro z moved keptLast
          exact stands_stable env crew i _ y z moved keptLast ends

/-! ### Checkpoints -/

/-- An agent that has the maintenance lock to itself, no row without a code and nothing counted. -/
structure Standing.Sealing (st : Standing) : Prop where
  mode : st.mode .maintenance = .exclusive
  complete : ∀ x, ¬ st.uncoded x
  tally : st.recount none = st

theorem Standing.Sealing.held (sealing : st.Sealing) : st.mode .maintenance ≠ .free := by
  rw [sealing.mode]
  nofun

theorem Standing.Sealing.lock (sealing : st.Sealing) {lock : Lock} (mode : Mode)
    (other : lock ≠ .maintenance) : (st.lock lock mode).Sealing := by
  refine ⟨(lock_other st mode other.symm).trans sealing.mode, sealing.complete, ?_⟩
  change (st.recount none).lock lock mode = _
  rw [sealing.tally]

theorem flush_secure (sealing : st.Sealing) (kept : Consistent env crew s.1 s.2)
    (here : Stands env crew i st s) :
    Secure (noted env) (sharing env crew) i (fun t _ => Stands env crew i st t ∧ Flushed t.1)
      flush s := by
  have counted := flushed_stable (i := i) env crew sealing.mode
  have counts : Does (noted env) (sharing env crew) i .storeCount (Stands env crew i st)
      fun t _ => Stands env crew i (st.recount none) t ∧ Flushed t.1 :=
    does_storeCount sealing.mode sealing.complete
  have syncs : Does (noted env) (sharing env crew) i .syncPages
      (fun t => Stands env crew i st t ∧ Flushed t.1)
      fun t _ => Stands env crew i (st.recount none) t ∧ Flushed t.1 :=
    does_syncPages sealing.held sealing.complete
  rw [sealing.tally] at counts syncs
  apply Secure.bind kept (counts.secure (stands_stable env crew i st) (fun _ => counted) here)
  intro t _ _ flushed
  exact syncs.secure counted (fun _ => counted) flushed

theorem keepCodebook_secure (calls : crew.calls i) (sealing : st.Sealing)
    (log : st.mode .wal = .free) (free : st.mode .pq = .free) (kept : Consistent env crew s.1 s.2)
    (here : Stands env crew i st s ∧ Flushed s.1) :
    Secure (noted env) (sharing env crew) i (fun t _ => Stands env crew i st t ∧ Flushed t.1)
      (withLock .pq false (call .saveCodebook)) s := by
  have inside := sealing.lock (Mode.wanted false) (show Lock.pq ≠ .maintenance by decide)
  have locked := fun mode => flushed_stable (i := i) env crew
    (sealing.lock mode (show Lock.pq ≠ .maintenance by decide)).mode
  have lockless : Lockless fun t => Flushed t.1 := fun _ _ _ flushed => flushed
  have releases : Does (noted env) (sharing env crew) i (.release .pq false)
      (fun t => Stands env crew i (st.lock .pq (Mode.wanted false)) t ∧ Flushed t.1)
      fun t _ => Stands env crew i st t ∧ Flushed t.1 :=
    (does_unlock false free).frame fun _ _ _ done flushed => lockless.release done flushed
  have saves : Does (noted env) (sharing env crew) i .saveCodebook
      (fun t => Stands env crew i (st.lock .pq (Mode.wanted false)) t ∧ Flushed t.1)
      fun t _ => Stands env crew i ((st.lock .pq (Mode.wanted false)).recount none) t ∧
        Flushed t.1 := does_saveCodebook inside.held inside.complete
  rw [inside.tally] at saves
  apply secure_framed false (fun t => Flushed t.1) calls (Standing.below_of log free (by decide))
    kept here lockless locked
  case runs =>
      intro t _ stands flushed
      exact saves.secure (locked _) (fun _ => locked _) ⟨stands, flushed⟩
  case stable => exact fun _ => flushed_stable env crew sealing.mode
  case gives =>
      intro t _ _ ends
      exact releases.secure (locked _) (fun _ => flushed_stable env crew sealing.mode) ends

theorem snapshot_secure (sealing : st.Sealing) (log : st.mode .wal = .exclusive)
    (durable : crew.db.durable = true) (kept : Consistent env crew s.1 s.2)
    (here : Stands env crew i st s ∧ Steady crew s) :
    Secure (noted env) (sharing env crew) i (fun t _ => Stands env crew i st t ∧ Paired crew t)
      (attempt (call .ensureHealthy) fun _ => do
        let lsn ← call .nextLsn
        attempt (call (.saveIndex lsn)) fun _ => call .resetWal) s := by
  have ended := paired_stable (i := i) env crew log
  have steady := steady_stable (i := i) env crew sealing.mode
  have calm : (sharing env crew).Stable i fun t => Stands env crew i st t ∧ Steady crew t ∧
      ∀ wal, t.1.wal = some wal → wal.poisoned = false := by
    rintro t u moved keptLater ⟨stands, flushed, healthy⟩
    obtain ⟨still, later⟩ := steady t u moved keptLater ⟨stands, flushed⟩
    refine ⟨still, later, ?_⟩
    rw [(stands.frozen (.inl sealing.mode) moved).wal]
    exact healthy
  have checks : Does (noted env) (sharing env crew) i .ensureHealthy
      (fun t => Stands env crew i st t ∧ Steady crew t)
      fun t result => (Stands env crew i st t ∧
        (result = .ok () → ∀ wal, t.1.wal = some wal → wal.poisoned = false)) ∧ Steady crew t := by
    apply (does_ensureHealthy durable).frame
    intro t u answer done flushed
    obtain ⟨inner, -⟩ := Handler.noting_inv done
    unfold Steady Paired
    rw [ensureHealthy_quiet inner]
    exact flushed
  have checked : ∀ result : Result Unit, (sharing env crew).Stable i fun t =>
      (Stands env crew i st t ∧
        (result = .ok () → ∀ wal, t.1.wal = some wal → wal.poisoned = false)) ∧ Steady crew t := by
    rintro result t u moved keptLater ⟨⟨stands, healthy⟩, flushed⟩
    obtain ⟨still, later⟩ := steady t u moved keptLater ⟨stands, flushed⟩
    refine ⟨⟨still, ?_⟩, later⟩
    intro isOk
    exact (calm t u moved keptLater ⟨stands, flushed, healthy isOk⟩).2.2
  have numbers : Does (noted env) (sharing env crew) i .nextLsn
      (fun t => Stands env crew i st t ∧ Steady crew t ∧
        ∀ wal, t.1.wal = some wal → wal.poisoned = false)
      fun t lsn => Marked env crew i st lsn t := does_nextLsn durable
  have resets : Does (noted env) (sharing env crew) i .resetWal
      (fun t => Stands env crew i st t ∧ Saved env t.1 ∧ Paired crew t)
      fun t _ => Stands env crew i (st.recount none) t ∧ Paired crew t :=
    does_resetWal sealing.mode log durable sealing.complete
  rw [sealing.tally] at resets
  apply secure_attempt kept (checks.secure steady checked here)
  case fails => exact fun t e after => ⟨after.1.1, after.2.2⟩
  case stable => exact checked
  case succeeds =>
      rintro t _ keptThere ⟨⟨stands, healthy⟩, flushed⟩
      apply Secure.bind keptThere (numbers.secure calm
        (fun lsn => marked_stable env crew lsn sealing.mode) ⟨stands, flushed, healthy rfl⟩)
      intro u (lsn : Nat) keptMark marked
      have saves : Does (noted env) (sharing env crew) i (.saveIndex lsn)
          (Marked env crew i st lsn) fun t result => Stands env crew i (st.recount none) t ∧
            (result = .ok () → Saved env t.1) ∧ Paired crew t :=
        does_saveIndex sealing.mode sealing.complete lsn
      rw [sealing.tally] at saves
      have saved : ∀ result : Result Unit, (sharing env crew).Stable i fun t =>
          Stands env crew i st t ∧ (result = .ok () → Saved env t.1) ∧ Paired crew t := by
        rintro result v x moved keptLater ⟨stands, saved, even⟩
        obtain ⟨still, later⟩ := ended v x moved keptLater ⟨stands, even⟩
        refine ⟨still, ?_, later⟩
        intro isOk
        have both := saved_stable env crew sealing.mode v x moved keptLater ⟨stands, saved isOk, even⟩
        exact both.2.1
      apply secure_attempt keptMark
        (saves.secure (marked_stable env crew lsn sealing.mode) saved marked)
      case fails => exact fun _ _ ends => ⟨ends.1, ends.2.2⟩
      case stable => exact saved
      case succeeds =>
          rintro v _ _ ⟨stands, ends, even⟩
          exact resets.secure (saved_stable env crew sealing.mode) (fun _ => ended)
            ⟨stands, ends rfl, even⟩

theorem checkpoint_secure (calls : crew.calls i) (idle : st.Idle) (kept : Consistent env crew s.1 s.2)
    (here : Stands env crew i st s) :
    Secure (noted env) (sharing env crew) i (fun t _ => Stands env crew i (st.recount none) t)
      (checkpoint crew.db) s := by
  obtain ⟨inner, isInner⟩ : ∃ inner, inner = (st.recount none).lock .maintenance (Mode.wanted true) :=
    ⟨_, rfl⟩
  have ready : (st.recount none).Idle := ⟨idle.mode, idle.coded, idle.hand⟩
  have sealing : inner.Sealing := by
    subst isInner
    exact ⟨lock_self (st.recount none) .maintenance _, idle.coded, rfl⟩
  have others : ∀ lock, lock ≠ .maintenance → inner.mode lock = .free := by
    subst isInner
    exact fun lock other => (lock_other _ _ other).trans (ready.mode lock)
  apply secure_withLock true calls (ready.below _) kept here.forget
  case stable => exact fun _ => stands_stable env crew i _
  case gives =>
      intro t _ _ (ends : Stands env crew i ((st.recount none).lock .maintenance (Mode.wanted true)) t)
      exact leave_secure true (ready.mode _) ready.coded none nofun ends
  case runs =>
      intro t keptThere stands
      rw [← isInner] at stands ⊢
      have stable := stands_stable env crew i inner
      have counted := flushed_stable (i := i) env crew sealing.mode
      apply secure_attempt keptThere (flush_secure sealing keptThere stands)
      case fails => exact fun _ _ ends => ends.1
      case stable => exact fun _ => counted
      case succeeds =>
          intro u _ keptFlush flushed
          apply secure_attempt keptFlush
            (keepCodebook_secure calls sealing (others .wal (by decide)) (others .pq (by decide)) keptFlush
              flushed)
          case fails => exact fun _ _ ends => ends.1
          case stable => exact fun _ => counted
          case succeeds =>
              intro v _ keptBook saved
              split
              · rename_i durable
                have inside := sealing.lock .exclusive (show Lock.wal ≠ .maintenance by decide)
                have held : (inner.lock .wal .exclusive).mode .wal = .exclusive := lock_self inner .wal _
                have free := others .wal (by decide)
                have acquires : Does (noted env) (sharing env crew) i (.acquire .wal true)
                    (fun t => Stands env crew i inner t ∧ Flushed t.1)
                    fun t _ => Stands env crew i (inner.lock .wal .exclusive) t ∧ Steady crew t := by
                  have framed : Does (noted env) (sharing env crew) i (.acquire .wal true)
                      (fun t => Stands env crew i inner t ∧ Flushed t.1)
                      fun t _ => (Stands env crew i (inner.lock .wal .exclusive) t ∧ Paired crew t) ∧
                        Flushed t.1 := by
                    apply (does_acquireLog calls
                      (Standing.below_of free (others .pq (by decide)) (by decide))).frame
                    have lockless : Lockless fun t => Flushed t.1 := fun _ _ _ flushed => flushed
                    exact fun _ _ _ done flushed => lockless.acquire done flushed
                  exact framed.weaken (fun _ _ known => known)
                    fun _ _ _ after => ⟨after.1.1, after.2, after.1.2⟩
                apply secure_locked keptBook saved acquires counted (steady_stable env crew inside.mode)
                case stable => exact fun _ => stable
                case runs => exact fun x keptLog here => snapshot_secure inside held durable keptLog here
                case gives =>
                    rintro x result - ends
                    have released : Does (noted env) (sharing env crew) i (.release .wal true)
                        (fun t => Stands env crew i (inner.lock .wal .exclusive) t ∧ Paired crew t)
                        fun t _ => Stands env crew i inner t := by
                      apply (does_unlockLog held).weaken (fun _ _ known => known)
                      intro u _ _ gone
                      rw [lock_free free] at gone
                      exact gone
                    exact released.secure (paired_stable env crew held) (fun _ => stable) ends
              · rename_i volatile
                have saves : Does (noted env) (sharing env crew) i (.saveIndex 0)
                    (Marked env crew i inner 0)
                    fun t _ => Stands env crew i (inner.recount none) t :=
                  (does_saveIndex sealing.mode sealing.complete 0).weaken (fun _ _ known => known)
                    fun _ _ _ after => after.1
                rw [sealing.tally] at saves
                refine saves.secure (marked_stable env crew 0 sealing.mode) (fun _ => stable)
                  ⟨saved.1, saved.2,
                    fun strict => absurd (Consistent.durable_of keptBook strict) volatile, ?_⟩
                have closed : v.1.wal = none := by
                  rw [← Option.not_isSome_iff_eq_none, keptBook.durable]
                  exact volatile
                exact ⟨fun _ => rfl, fun wal isOpen => by rw [closed] at isOpen; cases isOpen⟩

end Db

end Vektordb
