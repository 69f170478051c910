import Vektordb.Db.Lifetime
import Vektordb.Db.Progress

/-!
The codes at any moment of a round of calls. Whatever else is under way, when no insert and no batch
is, there is exactly one code for each row, and it is that of the row under the codebook in use.
-/

namespace Vektordb

open Interaction LittleEndian

namespace Db

variable {env : Env} {w : World} {threads : List Thread} {careful : Prop} {schedule : List Nat}
  {after : Pool sig Shared Response} {i : Nat}

/-- No insert and no batch is in flight: each has returned or has not begun. -/
def Quiet {σ : Type} (threads : List Thread) (schedule : List Nat) (after : Pool sig σ Response) :
    Prop :=
  ∀ (i : Nat) request, threads[i]? = some (.client request) → request.Writes →
    i ∉ schedule ∨ ∃ response, after.threads[i]? = some (.ret response)

theorem Reached.unlocking (reached : Reached env w threads careful schedule after)
    (ready : Ready env w) (idle : i ∉ schedule) (lock : Lock) : ¬ after.state.1.Holds i lock := by
  intro holds
  have before := (holds_congr ((reached.idle i idle).held lock)).mp holds
  unfold World.Holds World.Owns at before
  change i ∈ (w.locks lock).shared ∨ (w.locks lock).exclusive = some i at before
  rw [ready.locks] at before
  rcases before with shared | exclusive
  · cases shared
  · cases exclusive

theorem Reached.encoded (reached : Reached env w threads careful schedule after)
    (ready : Ready env w) (quiet : Quiet threads schedule after) (x : Nat) :
    ¬ after.state.2.uncoded x := by
  intro uncoded
  obtain ⟨i, -, ⟨request, client, writes⟩, holds⟩ := reached.guarded.inv.assigned.owner x uncoded
  rcases quiet i request client writes with idle | ⟨response, returned⟩
  · exact reached.unlocking ready idle .maintenance holds
  · exact (reached.spent returned).1 .maintenance holds

/-- In every state in which no insert and no batch is in flight, after any number of processes and
rounds of calls, the codes are those of the rows under the codebook in use, one for each row and in
their order. -/
theorem quiet_codes_exact (levels : Env.Level env) (life : Life env (.resting w))
    {plain : Pool sig World Response}
    (ran : (service env w threads).runs (handle env) schedule = some plain)
    (quiet : Quiet threads schedule plain) {state : PqState} (trained : plain.state.pq = some state) :
    state.codes.length = plain.state.store.count * state.pq.m ∧
      (∀ id < plain.state.store.count, (state.codes.drop (id * state.pq.m)).take state.pq.m =
        state.pq.encode env.pq (plain.state.row id)) ∧
      state.codes = plain.state.encodeAll env state.pq := by
  have ready : Ready env w := life.sound levels
  obtain ⟨later, reached⟩ := reached_plain levels ready ran
  have complete : ∀ x, ¬ later.uncoded x := reached.encoded ready quiet
  have coded := reached.guarded.inv.coded state trained
  exact ⟨coded.exact_length complete, fun id below => (coded.codes id below (complete id)).2,
    coded.exact complete⟩

/-! ### An example: two inserts that finish in the other order -/

def countingBook : ProductQuantizer where
  dim := 1
  m := 1
  subDim := 1
  centroids := (List.range 256).map F32.ofNat
  m_pos := Nat.one_pos
  subDim_pos := Nat.one_pos
  pieces := rfl
  size := by
    rw [List.length_map, List.length_range]
    rfl

def counting : Env :=
  { plain with pq := { plain.pq with l2 := fun a b => if a = b then F32.ofNat 0 else F32.ofNat 1 } }

/-- A new database under the codebook. -/
def countingDirectory : Directory := newDirectory (some (Pq.saveCodebook counting.hash countingBook))

def countingOpen : Outcome World (Result Unit) :=
  (Db.open counting (plainOptions true) (fun _ => VisitedSet.new) 1).run (handle counting) 0
    (World.start countingDirectory)

def countingNew : World := countingOpen.stateOr (World.start countingDirectory)

theorem counting_levels : Env.Level counting := fun _ _ => Nat.zero_lt_succ 254

theorem counting_life : Life counting (.resting countingNew) :=
  .opened (.new _) (Outcome.done_stateOr (by decide +kernel) _)

def countingThreads : List Thread :=
  [.client (.insert [F32.ofNat 5] VisitedSet.new), .client (.insert [F32.ofNat 7] VisitedSet.new),
    .client (.insert [F32.ofNat 9] VisitedSet.new),
    .client (.searchPq [F32.ofNat 7] 1 4 0 VisitedSet.new)]

/-- The second insert writes its code while the first has none, and the search has the codes. -/
def countingTurns : List Nat :=
  List.replicate 9 0 ++ List.replicate 20 1 ++ List.replicate 4 0 ++ [3, 3, 3]

def countingServed (threads : List Thread) (schedule : List Nat) : Pool sig World Response :=
  servedBy counting countingNew threads schedule

theorem counting_served {threads : List Thread} {schedule : List Nat}
    (ran : ((service counting countingNew threads).runs (handle counting) schedule).isSome = true) :
    (service counting countingNew threads).runs (handle counting) schedule =
      some (countingServed threads schedule) := served_by ran

theorem counting_answers :
    ((service counting countingNew countingThreads).runs (handle counting)
        countingTurns).isSome = true ∧
      (answers (countingServed countingThreads countingTurns)).take 2 =
        [some (.id (.ok 0)), some (.id (.ok 1))] ∧
      (countingServed countingThreads countingTurns).state.pq.map PqState.codes = some [5, 7] := by
  decide +kernel

theorem counting_quiet : Quiet countingThreads countingTurns
    (countingServed countingThreads countingTurns) := by
  have both : ∀ j < 2, ∃ response,
      (countingServed countingThreads countingTurns).threads[j]? = some (.ret response) := by
    intro j below
    have here : (answers (countingServed countingThreads countingTurns))[j]? =
        [some (Response.id (.ok 0)), some (.id (.ok 1))][j]? := by
      rw [← counting_answers.2.1, List.getElem?_take_of_lt below]
    rcases (show j = 0 ∨ j = 1 by omega) with rfl | rfl
    · exact ⟨_, answers_some here⟩
    · exact ⟨_, answers_some here⟩
  intro i request client writes
  match i, client with
  | 0, _ => exact .inr (both 0 (by decide))
  | 1, _ => exact .inr (both 1 (by decide))
  | 2, _ => exact .inl (by decide)
  | 3, client =>
      cases client
      exact writes.elim

theorem quiet_codes_exact_crossing :
    (countingServed countingThreads countingTurns).state.pq.map PqState.codes = some [5, 7] ∧
      ∀ state, (countingServed countingThreads countingTurns).state.pq = some state →
        state.codes = (countingServed countingThreads countingTurns).state.encodeAll counting
          state.pq := by
  obtain ⟨runs, -, codes⟩ := counting_answers
  refine ⟨codes, ?_⟩
  intro state trained
  obtain ⟨-, -, whole⟩ := quiet_codes_exact counting_levels counting_life (counting_served runs)
    counting_quiet trained
  exact whole

end Db

end Vektordb
