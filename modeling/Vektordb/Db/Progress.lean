import Vektordb.Db.Quiescence

/-!
Calls that run at once do not wait for each other in a circle. A lock is taken with locks of lower
rank only, and what a batch waits for is in the hands of threads that wait for no lock; so as long as
the thread pool has threads left and no search over codes has panicked, somebody can go on, until
every call has returned.
-/

namespace Vektordb

open Interaction LittleEndian

namespace Db

variable {env : Env} {crew : Crew} {w : World} {threads : List Thread} {careful : Prop}
  {schedule : List Nat} {after : Pool sig Shared Response} {i : Nat} {s : Shared}

theorem Promised.cases {op : Action} (promised : Promised env crew i s op) :
    (∃ u answer, handle env i s.1 op = .ok u answer) ∨ Waits crew i s op ∨
      ∃ table id, op = .score table id ∧ s.1.score env table id = none := by
  cases op with
  | walAppend record =>
      cases record with
      | insert id vector =>
          left
          have isOpen := Inscribing.isOpen promised
          obtain ⟨wal, isWal⟩ := Option.isSome_iff_exists.mp isOpen
          change ∃ u answer, s.1.walAppend env (.insert id vector) = .ok u answer
          unfold World.walAppend
          rw [isWal]
          exact ⟨_, _, rfl⟩
  | score table id =>
      cases scored : s.1.score env table id with
      | none => exact .inr (.inr ⟨table, id, rfl, scored⟩)
      | some distance =>
          left
          refine ⟨s.1, distance, ?_⟩
          unfold handle
          dsimp only
          rw [scored]
  | _ => exact promised.imp_right .inl

theorem acquire_free (env : Env) (i : Nat) {w : World} {lock : Lock}
    (free : w.locks lock = Holders.free) (exclusive : Bool) :
    ∃ u answer, handle env i w (.acquire lock exclusive) = .ok u answer := by
  change ∃ u answer, w.acquire i lock exclusive = .ok u answer
  unfold World.acquire
  cases exclusive with
  | true => exact ⟨_, _, by rw [if_pos rfl, if_pos free]⟩
  | false => exact ⟨_, _, by rw [if_neg (by decide), if_pos (by rw [free]; rfl)]⟩

theorem join_drained (env : Env) (i : Nat) {w : World} (drained : w.pending = [] ∧ w.running = []) :
    handle env i w .join = .ok w () := by
  change (if w.pending = [] ∧ w.running = [] then Reply.ok w () else .blocked) = _
  exact if_pos drained

theorem locks_free {w : World} {lock : Lock} (nobody : ∀ i, ¬ w.Holds i lock) :
    w.locks lock = Holders.free := by
  have shared : (w.locks lock).shared = [] :=
    List.eq_nil_iff_forall_not_mem.mpr fun i member => nobody i (.inl member)
  have exclusive : (w.locks lock).exclusive = none :=
    Option.eq_none_iff_forall_ne_some.mpr fun i owns => nobody i (.inr owns)
  change Holders.mk _ _ = _
  rw [shared, exclusive]
  rfl

/-- Nobody can go on, although no search has panicked and the pool has threads left. -/
structure Stuck (env : Env) (after : Pool sig Shared Response) : Prop where
  still : ∀ (i : Nat) op next, after.threads[i]? = some (.act op next) →
    ∀ u answer, handle env i after.state.1 op ≠ .ok u answer
  calm : ∀ (i : Nat) table id next, after.threads[i]? = some (.act (.score table id) next) →
    after.state.1.score env table id ≠ none
  helped : after.state.1.pending ≠ [] → ∃ (i : Nat) (next : Nat → Prog sig Response),
    after.threads[i]? = some (.act .take next)

namespace Reached

variable {op : Action} {next : Answer op → Prog sig Response}

theorem promised (reached : Reached env w threads careful schedule after)
    (atAgent : after.threads[i]? = some (.act op next))
    (unhurried : careful → Unhurried i after.state op) :
    Promised env (crewOf env w threads careful) i after.state op :=
  reached.guarded.safe atAgent unhurried

theorem stopped (reached : Reached env w threads False schedule after) (stuck : Stuck env after)
    {p : Prog sig Response} (atAgent : after.threads[i]? = some p) :
    (∃ response, p = .ret response) ∨ ∃ op next, p = .act op next ∧
      Waits (crewOf env w threads False) i after.state op := by
  cases p with
  | ret response => exact .inl ⟨response, rfl⟩
  | spin => exact (reached.guarded.secure i _ atAgent).elim
  | act op next =>
      right
      rcases (reached.promised atAgent False.elim).cases with
        ⟨u, answer, answered⟩ | waits | ⟨table, id, rfl, panics⟩
      · exact absurd answered (stuck.still i op next atAgent u answer)
      · exact ⟨op, next, rfl, waits⟩
      · exact absurd panics (stuck.calm i table id next atAgent)

theorem spent (reached : Reached env w threads careful schedule after) {response : Response}
    (returned : after.threads[i]? = some (.ret response)) :
    (∀ lock, ¬ after.state.1.Holds i lock) ∧ ∀ x, after.state.2.hand x ≠ some i := by
  obtain ⟨thread, isThread, ended⟩ := reached.guarded.returned returned
  have idle : ∃ st : Standing, st.Idle ∧
      Stands env (crewOf env w threads careful) i st after.state := by
    cases thread with
    | client request =>
        obtain ⟨base, rows, next, -, leaves⟩ := ended.leaves
        exact ⟨next, leaves.idle, leaves.stands⟩
    | helper visited => exact ⟨_, idle_start i _, ended.2⟩
  obtain ⟨st, idle, stands⟩ := idle
  exact ⟨fun lock => stands.released (idle.mode lock), fun x inHand => idle.hand x ((stands.hand x).mp inHand)⟩

theorem drained (reached : Reached env w threads False schedule after) (stuck : Stuck env after) :
    after.state.1.pending = [] ∧ after.state.1.running = [] := by
  have assigned := reached.guarded.inv.assigned
  constructor
  · by_contra some
    obtain ⟨i, next, atAgent⟩ := stuck.helped some
    obtain ⟨id, rest, waiting⟩ := List.exists_cons_of_ne_nil some
    apply stuck.still i .take next atAgent { after.state.1 with
      pending := rest, running := id :: after.state.1.running } id
    unfold handle
    dsimp only
    rw [waiting]
  · apply List.eq_nil_iff_forall_not_mem.mpr
    intro x member
    obtain ⟨i, inHand, -, helper⟩ := assigned.running x member
    have acts : i ∈ schedule := by
      by_contra idle
      exact absurd (((reached.idle i idle).hands x).mp inHand) nofun
    obtain ⟨p, atAgent⟩ : ∃ p, after.threads[i]? = some p := by
      have inside := reached.inside i acts
      rw [← reached.length] at inside
      exact ⟨_, List.getElem?_eq_getElem inside⟩
    rcases reached.stopped stuck atAgent with ⟨response, rfl⟩ | ⟨op, next, rfl, waits⟩
    · exact (reached.spent atAgent).2 x inHand
    · cases op with
      | acquire lock exclusive => exact helper waits.1
      | take => exact waits.2 x inHand
      | join => exact helper waits.1
      | _ => exact waits

/-- A lock is held by a client that waits for a lock of higher rank. -/
theorem holder (reached : Reached env w threads False schedule after) (stuck : Stuck env after)
    {lock : Lock} (holds : after.state.1.Holds i lock) :
    ∃ other exclusive next, after.threads[i]? = some (.act (.acquire other exclusive) next) ∧
      rank lock < rank other := by
  have calls := reached.guarded.inv.locking.members lock i holds
  obtain ⟨request, client⟩ := calls
  obtain ⟨p, atAgent⟩ : ∃ p, after.threads[i]? = some p := by
    have inside := getElem?_of_lt client
    rw [← reached.length] at inside
    exact ⟨_, List.getElem?_eq_getElem inside⟩
  rcases reached.stopped stuck atAgent with ⟨response, rfl⟩ | ⟨op, next, rfl, waits⟩
  · exact absurd holds ((reached.spent atAgent).1 lock)
  · cases op with
    | acquire other exclusive => exact ⟨other, exclusive, next, atAgent, waits.2 lock holds⟩
    | take => exact absurd ⟨request, client⟩ waits.1
    | join =>
        exact absurd (join_drained env i (reached.drained stuck))
          (stuck.still i .join next atAgent _ _)
    | _ => exact waits.elim

theorem unlocked (reached : Reached env w threads False schedule after) (stuck : Stuck env after)
    (lock : Lock) : after.state.1.locks lock = Holders.free := by
  have high : ∀ other, 0 < rank other → after.state.1.locks other = Holders.free := by
    intro other positive
    apply locks_free
    intro j holds
    obtain ⟨higher, -, -, -, above⟩ := reached.holder stuck holds
    cases higher <;> cases other <;> simp only [rank] at above positive <;> omega
  apply locks_free
  intro j holds
  obtain ⟨higher, exclusive, next, atAgent, above⟩ := reached.holder stuck holds
  have free := high higher (Nat.zero_lt_of_lt above)
  obtain ⟨u, answer, answered⟩ := acquire_free env j free exclusive
  exact stuck.still j _ next atAgent u answer answered

theorem answered (reached : Reached env w threads False schedule after) (stuck : Stuck env after) :
    Answered threads after := by
  intro j request client
  obtain ⟨p, atAgent⟩ : ∃ p, after.threads[j]? = some p := by
    have inside := getElem?_of_lt client
    rw [← reached.length] at inside
    exact ⟨_, List.getElem?_eq_getElem inside⟩
  rcases reached.stopped stuck atAgent with ⟨response, rfl⟩ | ⟨op, next, rfl, waits⟩
  · exact ⟨response, atAgent⟩
  · cases op with
    | acquire lock exclusive =>
        obtain ⟨u, answer, answered⟩ := acquire_free env j (reached.unlocked stuck lock) exclusive
        exact absurd answered (stuck.still j _ next atAgent u answer)
    | take => exact absurd ⟨request, client⟩ waits.1
    | join =>
        exact absurd (join_drained env j (reached.drained stuck))
          (stuck.still j .join next atAgent _ _)
    | _ => exact waits.elim

end Reached

/-- Any number of calls at once never stand still: after any schedule some thread can perform its
next action, or every call has returned and the database is at rest; unless a search over codes has
panicked or a batch waits for a thread of a pool that has none left. -/
theorem concurrent_calls_progress (levels : Env.Level env) (ready : Ready env w)
    {plain : Pool sig World Response}
    (ran : (service env w threads).runs (handle env) schedule = some plain) :
    (∃ i, (plain.step (handle env) i).isSome = true) ∨
      (Answered threads plain ∧ Ready env plain.state) ∨
      (∃ (i : Nat) (table : List F32) (id : Nat) (next : F32 → Prog sig Response),
        plain.threads[i]? = some (.act (.score table id) next) ∧
          plain.state.score env table id = none) ∨
      plain.state.pending ≠ [] ∧ ∀ (i : Nat) (next : Nat → Prog sig Response),
        plain.threads[i]? ≠ some (.act .take next) := by
  obtain ⟨later, reached⟩ := reached_plain levels ready ran
  by_cases moves : ∃ i, (plain.step (handle env) i).isSome = true
  · exact .inl moves
  by_cases panics : ∃ (i : Nat) (table : List F32) (id : Nat) (next : F32 → Prog sig Response),
      plain.threads[i]? = some (.act (.score table id) next) ∧ plain.state.score env table id = none
  · exact .inr (.inr (.inl panics))
  by_cases starved : plain.state.pending ≠ [] ∧ ∀ (i : Nat) (next : Nat → Prog sig Response),
      plain.threads[i]? ≠ some (.act .take next)
  · exact .inr (.inr (.inr starved))
  have stuck : Stuck env (plain.beside later) := by
    constructor
    case still =>
        intro i op next atAgent u answer answered
        apply moves
        refine ⟨i, ?_⟩
        have here : plain.threads[i]? = some (.act op next) := atAgent
        have there : handle env i plain.state op = .ok u answer := answered
        unfold Pool.step
        rw [here]
        dsimp only
        rw [there]
        rfl
    case calm => exact fun i table id next atAgent scored => panics ⟨i, table, id, next, atAgent, scored⟩
    case helped =>
        intro waiting
        by_contra none
        exact starved ⟨waiting, fun i next atAgent => none ⟨i, next, atAgent⟩⟩
  have answered := reached.answered stuck
  exact .inr (.inl ⟨answered, reached.ready answered⟩)

end Db

end Vektordb
