import Vektordb.Db.Accounting
import Vektordb.Db.Visibility

/-!
Searches over codes among inserts. An insert publishes its node before it has written the code of its
row, and a search that already has the codes keeps it from doing so; a search that is led to such a
row slices past the codes, or scores the zeros that another insert has put there. A search that is
led only to rows whose call has given up the maintenance lock always finds their codes.
-/

namespace Vektordb

open Interaction LittleEndian

namespace World

instance (w : World) (agent : Nat) (lock : Lock) : Decidable (w.Holds agent lock) :=
  inferInstanceAs (Decidable (_ ∨ _ = _))

end World

namespace Db

variable {env : Env} {w : World} {threads : List Thread} {schedule : List Nat}
  {plain : Pool sig World Response} {s t : Shared} {i : Nat}

/-- The insert or batch that appended the row, if it is a new one, has given up the maintenance lock. -/
def Released (founded : Nat) (w : World) (id : Nat) : Prop :=
  founded ≤ id → ∀ owner ∈ w.owners[id]?, ¬ w.Holds owner .maintenance

instance (founded : Nat) (w : World) (id : Nat) : Decidable (Released founded w id) :=
  inferInstanceAs (Decidable (_ → _))

/-- The ids that reading the graph leads to. -/
def ledTo (w : World) : Action → List Nat
  | .index .entry =>
      if w.index.entry = ENTRY_NONE then [] else [(unpackEntry w.index.entry).1]
  | .index (.links id layer) => (w.index.listAt layer id).getD []
  | _ => []

/-- A search that has the codes is led to released rows only. -/
def Patient (founded i : Nat) (w : World) (op : sig.Op) : Prop :=
  i ∈ (w.locks .pq).shared → ∀ x ∈ ledTo w op, Released founded w x

instance (founded i : Nat) (w : World) (op : sig.Op) : Decidable (Patient founded i w op) :=
  inferInstanceAs (Decidable (_ → ∀ x ∈ _, _))

def Founded (founded : Nat) (s : Shared) : Prop := ∀ x < founded, Settled s x

theorem Founded.step {founded : Nat} (here : Founded founded s) (guarantees : Guarantees i s t) :
    Founded founded t := by
  intro x below
  exact (guarantees.rows x (.inr (here x below))).settled (here x below)

theorem Released.coded {crew : Crew} {founded x : Nat} (kept : Consistent env crew s.1 s.2)
    (here : Founded founded s) (released : Released founded s.1 x) : ¬ s.2.uncoded x := by
  intro uncoded
  obtain ⟨owner, appended, -, holds⟩ := kept.assigned.owner x uncoded
  refine released ?_ owner appended holds
  by_contra below
  exact (here x (Nat.lt_of_not_le below)).2 uncoded

theorem Patient.unhurried {crew : Crew} {founded : Nat} {op : Action}
    (kept : Consistent env crew s.1 s.2) (here : Founded founded s)
    (patient : Patient founded i s.1 op) : Unhurried i s op := by
  have coded : i ∈ (s.1.locks .pq).shared → ∀ x ∈ ledTo s.1 op, ¬ s.2.uncoded x :=
    fun shared x member => (patient shared x member).coded kept here
  cases op with
  | index action =>
      cases action with
      | entry =>
          intro shared some
          apply coded shared
          unfold ledTo
          rw [if_neg some]
          exact List.mem_singleton_self _
      | links id layer =>
          intro shared list isList nb member
          apply coded shared
          change nb ∈ (s.1.index.listAt layer id).getD []
          rw [isList]
          exact member
      | _ => trivial
  | _ => trivial

theorem reached_patient (levels : Env.Level env) (ready : Ready env w)
    (ran : (service env w threads).runs (handle env) schedule = some plain)
    (patient : (service env w threads).Meets (handle env) (Patient w.store.count) schedule) :
    ∃ later, Reached env w threads True schedule (plain.beside later) := by
  obtain ⟨later, noted⟩ := Pool.runs_beside ran note (idleLedger env w)
  refine ⟨later, reached levels ready noted ?_⟩
  have founded : Founded w.store.count (atRest env w) := by
    intro x below
    refine ⟨?_, id⟩
    change x < w.owners.length
    rwa [ready.owners]
  apply (service_guarded levels ready threads True).meets (patient.beside note _) founded
  · exact fun agent s t guarantees here => Founded.step here guarantees
  · exact fun agent s op kept here promise _ => Patient.unhurried kept here promise

/-- As long as searches over codes read only lists of released rows, each row that one of them scores
has its code, the one of the row as it is stored. -/
theorem patient_searches_coded (levels : Env.Level env) (life : Life env (.resting w))
    (ran : (service env w threads).runs (handle env) schedule = some plain)
    (patient : (service env w threads).Meets (handle env) (Patient w.store.count) schedule)
    {table : List F32} {id : Nat} {next : F32 → Prog sig Response}
    (scores : plain.threads[i]? = some (.act (.score table id) next)) :
    ∃ state, plain.state.pq = some state ∧ id < plain.state.store.count ∧
      id * state.pq.m + state.pq.m ≤ state.codes.length ∧
      (state.codes.drop (id * state.pq.m)).take state.pq.m =
        state.pq.encode env.pq (plain.state.row id) := by
  obtain ⟨later, reached⟩ := reached_patient levels (life.sound levels) ran patient
  obtain ⟨state, trained, below, fits, code⟩ :=
    reached.guarded.safe scores (fun _ => trivial) trivial
  exact ⟨state, trained, below, fits, code⟩

/-! ### Examples -/

def scored {σ : Type} (pool : Pool sig σ Response) (i : Nat) : Option Nat :=
  match pool.threads[i]? with
  | some (.act (.score _ id) _) => some id
  | _ => none

theorem scored_some {σ : Type} {pool : Pool sig σ Response} {id : Nat}
    (about : scored pool i = some id) :
    ∃ table next, pool.threads[i]? = some (.act (.score table id) next) := by
  unfold scored at about
  split at about
  · rename_i table other next atAgent
    cases about
    exact ⟨table, next, atAgent⟩
  · cases about

def countingHurried : List Thread :=
  [.client (.insert [F32.ofNat 5] VisitedSet.new), .client (.insert [F32.ofNat 7] VisitedSet.new),
    .client (.searchPq [F32.ofNat 5] 1 4 0 VisitedSet.new)]

/-- The first insert is over when the search begins, and the second publishes its node while the
search has the codes. -/
def countingPatient : List Nat := List.replicate 13 0 ++ [1, 2, 1, 1, 1, 1, 1, 2, 1, 2]

theorem counting_patient :
    ((service counting countingNew countingHurried).runs (handle counting)
        countingPatient).isSome = true ∧
      (service counting countingNew countingHurried).Meets (handle counting)
        (Patient countingNew.store.count) countingPatient ∧
      scored (countingServed countingHurried countingPatient) 2 = some 0 ∧
      (countingServed countingHurried countingPatient).state.index.len = 2 := by decide +kernel

theorem patient_searches_coded_first :
    (countingServed countingHurried countingPatient).state.index.len = 2 ∧
      ∃ state, (countingServed countingHurried countingPatient).state.pq = some state ∧
        0 * state.pq.m + state.pq.m ≤ state.codes.length := by
  obtain ⟨runs, patient, about, len⟩ := counting_patient
  obtain ⟨table, next, scores⟩ := scored_some about
  obtain ⟨state, trained, -, fits, -⟩ :=
    patient_searches_coded counting_levels counting_life (counting_served runs) patient scores
  exact ⟨len, state, trained, fits⟩

def countingSliced : List Nat := List.replicate 9 0 ++ [2, 2, 2]

def countingZeroed : List Nat := List.replicate 9 0 ++ List.replicate 20 1 ++ [2, 2, 2]

theorem counting_hurried :
    (((service counting countingNew countingHurried).runs (handle counting)
        countingSliced).isSome = true ∧
      scored (countingServed countingHurried countingSliced) 2 = some 0 ∧
      ((countingServed countingHurried countingSliced).state.pq.any fun state =>
        state.codes.length < state.pq.m) = true) ∧
    ((service counting countingNew countingHurried).runs (handle counting)
        countingZeroed).isSome = true ∧
      scored (countingServed countingHurried countingZeroed) 2 = some 0 ∧
      ((countingServed countingHurried countingZeroed).state.pq.any fun state =>
        state.codes.take state.pq.m = [0] ∧
          state.pq.encode counting.pq
            ((countingServed countingHurried countingZeroed).state.row 0) = [5]) = true := by
  decide +kernel

/-- A search is about to score the row of an insert that has not written its code: past the codes, or
where another insert has put a zero. -/
theorem searches_among_inserts_uncoded : Life counting (.resting countingNew) ∧
    (∃ plain table next, (service counting countingNew countingHurried).runs (handle counting)
        countingSliced = some plain ∧
      plain.threads[2]? = some (.act (.score table 0) next) ∧
      ∃ state, plain.state.pq = some state ∧ state.codes.length < 0 * state.pq.m + state.pq.m) ∧
    ∃ plain table next, (service counting countingNew countingHurried).runs (handle counting)
        countingZeroed = some plain ∧
      plain.threads[2]? = some (.act (.score table 0) next) ∧
      ∃ state, plain.state.pq = some state ∧
        (state.codes.drop (0 * state.pq.m)).take state.pq.m = [0] ∧
        state.pq.encode counting.pq (plain.state.row 0) = [5] := by
  obtain ⟨⟨ran, about, short⟩, ran', about', zero⟩ := counting_hurried
  refine ⟨counting_life, ?_, ?_⟩
  · obtain ⟨table, next, scores⟩ := scored_some about
    obtain ⟨state, trained, outside⟩ := (Option.any_eq_true ..).mp short
    refine ⟨_, table, next, counting_served ran, scores, state, trained, ?_⟩
    rw [Nat.zero_mul, Nat.zero_add]
    exact of_decide_eq_true outside
  · obtain ⟨table, next, scores⟩ := scored_some about'
    obtain ⟨state, trained, codes⟩ := (Option.any_eq_true ..).mp zero
    refine ⟨_, table, next, counting_served ran', scores, state, trained, ?_⟩
    rw [Nat.zero_mul]
    exact of_decide_eq_true codes

end Db

end Vektordb
