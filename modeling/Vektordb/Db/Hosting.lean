import Vektordb.Hnsw.InsertSafety
import Vektordb.Db.Standing

/-!
The shared database as a host of inserts into its graph and of searches in it. An insert links the
id in the hand of its agent and leaves all else that the agent knows as it was.
-/

namespace Vektordb

open Interaction LittleEndian

namespace Db

variable {env : Env} {crew : Crew} {i : Nat} {st : Standing} {s t : Shared}

/-- What an agent claims of the id in its hand. -/
def handClaim (i id : Nat) : Hnsw.Claim Shared where
  id := id
  mine s := s.2.hand id = some i
  ready n s := s.2.hand id = some i ∧ Hnsw.Within s.1.index id n

theorem index_answered {w u : World} {action : Hnsw.Action} {answer : Hnsw.Answer action}
    (done : handle env i w (.index action) = .ok u answer) :
    ∃ g, Hnsw.handle (w.distances env) i w.index action = .ok g answer ∧
      u = { w with index := g } := by
  unfold handle at done
  dsimp only at done
  cases handled : Hnsw.handle (w.distances env) i w.index action with
  | ok g value =>
      rw [handled] at done
      cases done
      exact ⟨g, rfl, rfl⟩
  | blocked => rw [handled] at done; cases done
  | fault => rw [handled] at done; cases done

theorem handClaim_leaves {id : Nat} {d : Distances} {action : Hnsw.Action} {g : Hnsw}
    {answer : Hnsw.Answer action} (config : s.1.index.config = crew.db.config)
    (permitted : (handClaim i id).permits crew.db.config s action)
    (done : Hnsw.handle d i s.1.index action = .ok g answer) :
    (handClaim i id).leaves s ({ s.1 with index := g }, s.2) action := by
  have chosen : Hnsw.Chosen s.1.index.config action := by
    rw [config]
    cases action <;> first | trivial | exact permitted.2 | exact permitted.2.2
  have keeps : (∀ layer links, action ≠ .linkOwn id layer links) → ∀ n,
      (handClaim i id).ready n s → (handClaim i id).ready n ({ s.1 with index := g }, s.2) := by
    rintro other n ⟨mine, within⟩
    refine ⟨mine, within.handle chosen ?_ done⟩
    intro layer links isOwn
    exact absurd isOwn (other layer links)
  cases action with
  | publish x level =>
      obtain ⟨rfl, mine⟩ := permitted
      exact ⟨mine, Hnsw.within_publish done⟩
  | linkOwn x layer links =>
      obtain ⟨rfl, ⟨mine, within⟩, -⟩ := permitted
      refine ⟨mine, ?_⟩
      have below : Hnsw.Within s.1.index x layer := fun low isBelow => within low (Nat.lt_succ_of_lt isBelow)
      apply below.handle chosen _ done
      intro other others same
      cases same
      exact le_rfl
  | _ => exact keeps (fun _ _ => nofun)

theorem handClaim_entitled {id : Nat} {action : Hnsw.Action}
    (permitted : (handClaim i id).permits crew.db.config s action) :
    Entitled crew.db s.1 s.2 i action := by
  cases action with
  | publish x level =>
      obtain ⟨rfl, mine⟩ := permitted
      exact mine
  | linkOwn x layer links =>
      obtain ⟨rfl, ⟨mine, within⟩, nodup, few⟩ := permitted
      exact ⟨mine, within, nodup, few⟩
  | linkBack nb layer x max => exact permitted.2
  | _ => trivial

theorem hosts (env : Env) (crew : Crew) (i id : Nat) :
    Hnsw.Hosts (noted env) (sharing env crew) i (fun s => s.1.index) crew.db.config
      (handClaim i id) where
  layered kept := Consistent.graphed kept |>.layered
  grows moved := Relies.grows moved
  mine_stable moved mine := (Relies.hands moved id).mpr mine
  fresh moved mine free := Relies.fresh moved id mine free
  ready_stable moved ready := ⟨(Relies.hands moved id).mpr ready.1,
    Relies.short moved id _ ready.1 ready.2⟩
  ready_lower le ready := ⟨ready.1, fun layer below => ready.2 layer (below.trans_le le)⟩
  act action post s permitted posts := by
    apply Secure.act
    intro t moved kept _
    obtain ⟨safe, permits⟩ := permitted t moved kept
    have consistent : Consistent env crew t.1 t.2 := kept
    refine ⟨.inl ?_, ?_⟩
    · obtain ⟨g, answer, answered⟩ :=
        @Hnsw.Safe.answered t.1.index (t.1.distances env) i _ safe
      exact ⟨{ t.1 with index := g }, answer, handle_index answered⟩
    · intro u answer done
      obtain ⟨inner, noted⟩ := Handler.noting_inv done
      obtain ⟨w, l⟩ := u
      obtain ⟨g, handled, isWorld⟩ := index_answered inner
      obtain rfl : w = { t.1 with index := g } := isWorld
      obtain rfl : l = t.2 := noted
      obtain ⟨after, guarantees⟩ := consistent.index safe (handClaim_entitled permits) handled
      refine ⟨after, guarantees, Secure.ret ?_⟩
      intro v later keptLater
      refine posts t _ answer v moved kept ⟨_, handled⟩ ?_ ?_ later keptLater
      · intro same
        change g = t.1.index at same
        rw [same]
      · exact handClaim_leaves consistent.graphed.config permits handled

/-! ### Frames -/

theorem Stands.index (stands : Stands env crew i st s) (none : ∀ x, ¬ st.fresh x) (g : Hnsw) :
    Stands env crew i st ({ s.1 with index := g }, s.2) :=
  ⟨stands.locks, stands.owned, stands.rows, stands.uncoded, stands.unlogged, stands.hand,
    fun x isFresh => absurd isFresh (none x), stands.tally⟩

theorem Stands.link (stands : Stands env crew i st s) (id : Nat) :
    Stands env crew i (st.link id) s :=
  ⟨stands.locks, stands.owned, stands.rows, stands.uncoded, stands.unlogged, stands.hand,
    fun x isFresh => stands.fresh x isFresh.2, stands.tally⟩

def OfIndex (op : Action) : Prop := ∃ action, op = .index action

theorem insert_only (config : HnswConfig) (id level : Nat) (visited : VisitedSet) :
    (Hnsw.insert (T := sig) config id level visited).Only OfIndex := by
  rw [← Hnsw.insert_lift]
  apply Prog.Only.lift
  exact fun action => ⟨⟨action, rfl⟩, fun _ => trivial⟩

/-- An insert into the graph, by the agent that has this id in hand and no other one without a
node. -/
theorem insert_links {id level : Nat} (visited : VisitedSet) (fresh : st.fresh id)
    (only : ∀ x, st.fresh x → x = id) (inside : id < SegVec.CAPACITY) (small : level < 255)
    (kept : Consistent env crew s.1 s.2) (here : Stands env crew i st s) :
    Secure (noted env) (sharing env crew) i (fun t _ => Linked env crew i (st.link id) id t)
      (Hnsw.insert crew.db.config id level visited) s := by
  obtain ⟨hand, free⟩ := here.fresh id fresh
  have none : ∀ x, ¬ (st.link id).fresh x := fun x isFresh => isFresh.1 (only x isFresh.2)
  have inserted := (hosts env crew i id).insert_secure level visited kept
    ((here.hand id).mpr hand) free inside small
  have framed := inserted.frame (insert_only crew.db.config id level visited) (here.link id)
    (fun t u moved keptThere holds => stands_stable env crew i _ t u moved keptThere holds) (by
      rintro t u op answer ⟨action, rfl⟩ holds done
      obtain ⟨inner, noted⟩ := Handler.noting_inv done
      obtain ⟨w, l⟩ := u
      obtain ⟨g, -, isWorld⟩ := index_answered inner
      obtain rfl : w = { t.1 with index := g } := isWorld
      obtain rfl : l = t.2 := noted
      exact holds.index none g)
  apply framed.mono
  rintro t - - ⟨⟨hasLevel, -⟩, holds⟩
  refine ⟨holds, ?_⟩
  obtain ⟨node, held, -⟩ := hasLevel
  exact congrArg Option.isSome held

end Db

end Vektordb
