import Vektordb.Hnsw.Program

/-!
The programs of the index are written once for every signature that has its actions. Read inside
a larger one they are the programs over the index alone, lifted.
-/

namespace Vektordb

open Interaction

namespace Hnsw

variable {U : Sig} [Supports sig U]

theorem lift_call (action : Action) :
    (call action : Prog sig (Answer action)).lift U = call action :=
  Prog.lift_perform (S := sig) U action

theorem lift_call_bind {β : Type} (action : Action) {f : Answer action → Prog sig β}
    {g : Answer action → Prog U β} (rest : ∀ answer, (f answer).lift U = g answer) :
    (call action >>= f).lift U = (call action >>= g) := by
  rw [Prog.lift_bind, lift_call]
  congr 1
  funext answer
  exact rest answer

theorem lift_bind_congr {α β : Type} {p : Prog sig α} {q : Prog U α} {f : α → Prog sig β}
    {g : α → Prog U β} (first : p.lift U = q) (rest : ∀ value, (f value).lift U = g value) :
    (p >>= f).lift U = (q >>= g) := by
  rw [Prog.lift_bind, first]
  congr 1
  funext value
  exact rest value

variable (dist : Nat → Prog sig F32)

theorem relax_lift (list : List Nat) (entry : Nat) (best : F32) (improved : Bool) :
    (relax dist list entry best improved).lift U =
      relax (fun x => (dist x).lift U) list entry best improved := by
  induction list generalizing entry best improved with
  | nil => rfl
  | cons next rest ih =>
      refine lift_bind_congr rfl fun d => ?_
      split
      · exact ih next d true
      · exact ih entry best improved

theorem greedyLoop_lift (layer fuel entry : Nat) (best : F32) :
    (greedyLoop dist layer fuel entry best).lift U =
      greedyLoop (fun x => (dist x).lift U) layer fuel entry best := by
  induction fuel generalizing entry best with
  | zero => rfl
  | succ fuel ih =>
      refine lift_call_bind (.links entry layer) fun list => ?_
      refine lift_bind_congr (relax_lift dist list entry best false) fun found => ?_
      obtain ⟨next, closest, improved⟩ := found
      dsimp only
      split
      · exact ih next closest
      · rfl

theorem descendLayers_lift (layers : List Nat) (ep : Nat) (epDist : F32) :
    (descendLayers dist layers ep epDist).lift U =
      descendLayers (fun x => (dist x).lift U) layers ep epDist := by
  induction layers generalizing ep epDist with
  | nil => rfl
  | cons layer rest ih =>
      exact lift_bind_congr (greedyLoop_lift dist layer descendBound ep epDist) fun found =>
        ih found.1 found.2

theorem scanLinks_lift (ef : Nat) (list : List Nat) (visited : VisitedSet)
    (candidates results : Heap) :
    (scanLinks dist ef list visited candidates results).lift U =
      scanLinks (fun x => (dist x).lift U) ef list visited candidates results := by
  induction list generalizing visited candidates results with
  | nil => rfl
  | cons next rest ih =>
      unfold scanLinks
      dsimp only
      split
      · exact ih _ candidates results
      · refine lift_bind_congr rfl fun d => ?_
        split
        · exact ih _ _ _
        · exact ih _ candidates results

theorem searchLoop_lift (ef layer fuel : Nat) (visited : VisitedSet) (candidates results : Heap) :
    (searchLoop dist ef layer fuel visited candidates results).lift U =
      searchLoop (fun x => (dist x).lift U) ef layer fuel visited candidates results := by
  induction fuel generalizing visited candidates results with
  | zero => rfl
  | succ fuel ih =>
      cases candidates with
      | nil => rfl
      | cons current open_ =>
          unfold searchLoop
          dsimp only
          split
          · rfl
          · refine lift_call_bind (.links current.id layer) fun list => ?_
            exact lift_bind_congr (scanLinks_lift dist ef list visited open_ results) fun found =>
              ih found.1 found.2.1 found.2.2

theorem searchLayer_lift (visited : VisitedSet) (entry ef layer : Nat) :
    (searchLayer dist visited entry ef layer).lift U =
      searchLayer (fun x => (dist x).lift U) visited entry ef layer :=
  lift_call_bind .len fun _ => lift_bind_congr rfl fun _ =>
    searchLoop_lift dist ef layer searchBound _ _ _

theorem linkBackAll_lift (id layer max : Nat) (chosen : List Nat) :
    (linkBackAll id layer max chosen : Prog sig Unit).lift U = linkBackAll id layer max chosen := by
  induction chosen with
  | nil => rfl
  | cons nb rest ih => exact lift_call_bind (.linkBack nb layer id max) fun _ => ih

theorem distance_lift (id : Nat) :
    (fun x => ((call (.distance id x) : Prog sig F32).lift U)) = fun x => call (.distance id x) := by
  funext x
  exact lift_call (.distance id x)

theorem connectLayer_lift (config : HnswConfig) (id layer : Nat) (visited : VisitedSet)
    (ep : Nat) : (connectLayer config id layer visited ep : Prog sig _).lift U =
      connectLayer config id layer visited ep := by
  refine lift_bind_congr ?_ fun found => lift_call_bind _ fun chosen =>
    lift_call_bind _ fun _ => lift_bind_congr (linkBackAll_lift _ _ _ chosen) fun _ => rfl
  rw [searchLayer_lift, distance_lift]

theorem connectLayers_lift (config : HnswConfig) (id layer : Nat) (visited : VisitedSet)
    (ep : Nat) : (connectLayers config id layer visited ep : Prog sig Unit).lift U =
      connectLayers config id layer visited ep := by
  induction layer generalizing visited ep with
  | zero => exact lift_bind_congr (connectLayer_lift config id 0 visited ep) fun _ => rfl
  | succ layer ih =>
      exact lift_bind_congr (connectLayer_lift config id (layer + 1) visited ep) fun found =>
        ih found.1 found.2

theorem link_lift (config : HnswConfig) (id level : Nat) (visited : VisitedSet) :
    (link config id level visited : Prog sig Unit).lift U = link config id level visited := by
  refine lift_call_bind .entry fun packed => ?_
  refine lift_call_bind (.distance id (unpackEntry packed).1) fun d => ?_
  refine lift_bind_congr ?_ fun found => lift_bind_congr (connectLayers_lift ..) fun _ => ?_
  · rw [descendLayers_lift, distance_lift]
  · split
    · exact lift_call _
    · rfl

/-- The insert inside a larger program is the insert alone, lifted. -/
theorem insert_lift (config : HnswConfig) (id level : Nat) (visited : VisitedSet) :
    (insert config id level visited : Prog sig Unit).lift U = insert config id level visited := by
  refine lift_call_bind (.publish id level) fun _ => lift_call_bind .entry fun packed => ?_
  split
  · refine lift_call_bind (.claimEntry id level) fun claimed => ?_
    split
    · rfl
    · exact link_lift config id level visited
  · exact link_lift config id level visited

end Hnsw

end Vektordb
