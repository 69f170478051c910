import Vektordb.Db.Lifetime
import Vektordb.Db.Visibility

/-!
The ids that calls get. Whatever runs at once, whatever the operating system does to the writes and
whichever rows are taken back, no two rows share an id, none is missing, and what has been returned
once is found under its id from then on.
-/

namespace Vektordb

open Interaction LittleEndian VectorStore

namespace Db

variable {env : Env} {w : World} {threads : List Thread} {careful : Prop} {first rest : List Nat}
  {middle after : Pool sig World Response} {ledger : Ledger}

/-- What the calls of a process have stored, when some have returned at `middle` and more by
`after`. -/
structure Allocated (env : Env) (w : World) (threads : List Thread)
    (middle after : Pool sig World Response) : Prop where
  /-- Two calls have no id in common. -/
  distinct : ∀ (i j : Nat) request request' a b k l, i ≠ j →
    threads[i]? = some (.client request) → threads[j]? = some (.client request') →
      after.threads[i]? = some (.ret (.id (.ok a))) → after.threads[j]? = some (.ret (.id (.ok b))) →
        k < (request.rows w.db).length → l < (request'.rows w.db).length → a + k ≠ b + l
  /-- When all have returned, the new ids are those of the rows that calls have stored, the rows of
  each call on end and in their order. -/
  owned : Answered threads after → ∃ (base : Nat → Nat) (rows : Nat → List Row),
    (∀ i request response, threads[i]? = some (.client request) →
      after.threads[i]? = some (.ret response) → Stores w.db request response (base i) (rows i)) ∧
    (∀ i, ¬ Clients threads i → rows i = []) ∧
    Tiling.Tiles base rows after.state.row (List.range threads.length) w.store.count
      after.state.store.count
  /-- A row that was acknowledged is returned ever after. -/
  kept : ∀ (i : Nat) request a k row, threads[i]? = some (.client request) →
    middle.threads[i]? = some (.ret (.id (.ok a))) → (request.rows w.db)[k]? = some row →
      after.state.store.get after.state.file (a + k) = .ok row
  old : ∀ x < w.store.count, after.state.store.get after.state.file x = .ok (w.row x)
  logged : ∃ entries next, Logs env.hash after.state.dir.walBytes entries ∧
    Consecutive next entries ∧
    entries.Pairwise fun left right => Wal.recordId left < Wal.recordId right
  indexed : after.state.index.len ≤ after.state.store.count

/-- For every interleaving of the calls of a process, on a database with any past, with and without a
log and with writes that fail. -/
theorem concurrent_inserts_allocated (levels : Env.Level env) (life : Life env (.resting w))
    (ran : (service env w threads).runs (handle env) first = some middle)
    (went : middle.runs (handle env) rest = some after) : Allocated env w threads middle after := by
  have ready : Ready env w := life.sound levels
  have whole : (service env w threads).runs (handle env) (first ++ rest) = some after := by
    rw [Pool.runs_append, ran]
    exact went
  obtain ⟨ledger, early⟩ := reached_plain levels ready ran
  obtain ⟨last, late⟩ := reached_plain levels ready whole
  obtain ⟨final, kept, passed⟩ := early.onward went
  have inv : Consistent env (crewOf env w threads False) after.state last := late.guarded.inv
  constructor
  case distinct =>
      intro i j request request' a b k l different client client' returned returned' here there same
      have mine := (late.acknowledged client returned (List.getElem?_eq_getElem here)).2
      have theirs := (late.acknowledged client' returned' (List.getElem?_eq_getElem there)).2
      rw [same] at mine
      exact different (Option.some.inj (mine.symm.trans theirs))
  case owned =>
      intro answered
      exact late.tiles ready answered
  case kept =>
      intro i request a k row client returned isRow
      obtain ⟨settled, here⟩ := (early.acknowledged client returned isRow).1
      have same := passed.rows (a + k) settled
      have below := (same.settled settled).1
      rw [kept.assigned.owners] at below
      rw [get_stored after.state below]
      exact congrArg Except.ok (same.row.trans here)
  case old =>
      intro x below
      obtain ⟨inside, same⟩ := late.before ready below
      rw [← same]
      exact get_stored after.state inside
  case logged =>
      obtain ⟨entries, next, journal, -, -⟩ := inv.journaled
      exact ⟨entries, next, journal.logs, journal.consecutive, journal.ordered⟩
  case indexed => exact inv.graphed.len_le

def plainFour : List Thread := plainPair ++
  [.client (.addBatch [F32.ofNat 3, F32.ofNat 4]), .helper VisitedSet.new, .helper VisitedSet.new]

def plainLinking : List Nat :=
  List.replicate 13 2 ++ (List.replicate 15 [3, 4]).flatten ++ List.replicate 5 2

theorem concurrent_inserts_allocated_four : Answered plainFour
      (plainServed plainFour (plainTurns ++ plainLinking)) ∧
    Allocated plain plainNew plainFour (plainServed plainFour plainTurns)
      (plainServed plainFour (plainTurns ++ plainLinking)) := by
  refine ⟨answered_all (by decide +kernel) (by decide +kernel), ?_⟩
  exact concurrent_inserts_allocated plain_levels plain_life
    (plain_served plainFour plainTurns (by decide +kernel))
    (plain_went plainFour plainTurns plainLinking (by decide +kernel) (by decide +kernel))

def plainEmpty : List Thread := [.client (.addBatch []), .client (.addBatch [])]

/-- An empty batch is answered with the id that the next row will get. -/
theorem empty_batches_share_id : ∃ after, Life plain (.resting plainNew) ∧
    (service plain plainNew plainEmpty).runs (handle plain)
      (List.replicate 8 0 ++ List.replicate 8 1) = some after ∧
    after.threads[0]? = some (.ret (.id (.ok 0))) ∧
    after.threads[1]? = some (.ret (.id (.ok 0))) := by
  have ran := plain_served plainEmpty (List.replicate 8 0 ++ List.replicate 8 1) (by decide +kernel)
  exact ⟨_, plain_life, ran, answers_some (by decide +kernel), answers_some (by decide +kernel)⟩

end Db

end Vektordb
