import Vektordb.Hnsw.Traversal
import Vektordb.Hnsw.Lists

/-!
Inserts and searches that stay among ids known beforehand. `known layer x` is fixed for the whole
call, so nothing has to be said about what other calls leave behind; `Linking` collects the
actions that an insert performs under it, and every insert and every search is secure once they
are.
-/

namespace Vektordb

open Interaction

namespace Hnsw

variable {T : Sig} [Supports sig T] {σ : Type}

/-- What a discipline grants to the insert of one id. `entered` says that the index has an entry
point. -/
structure Linking (h : Handler T σ) (D : Discipline T σ) (i : Nat) (known : Nat → Nat → Prop)
    (entered : σ → Prop) (config : HnswConfig) (id level : Nat) : Prop where
  walk : Walkable h D i (fun x => call (.distance id x)) fun layer _ x => known layer x
  entered_stable : ∀ {s t}, D.rely i s t → entered s → entered t
  load : ∀ {s}, D.inv s → Secure h D i (fun t packed => (packed ≠ ENTRY_NONE → entered t) ∧
    (entered s → known (unpackEntry packed).2 (unpackEntry packed).1)) (call .entry) s
  claim : ∀ {s}, D.inv s →
    Secure h D i (fun t claimed => claimed = false → entered t) (call (.claimEntry id level)) s
  raise : ∀ {s}, D.inv s → Secure h D i (fun _ _ => True) (call (.raiseEntry id level)) s
  select : ∀ {s} layer (found : List Neighbor), D.inv s → (∀ n ∈ found, known layer n.id) →
    (found.map Neighbor.id).Nodup →
    Secure h D i (fun _ chosen => (∀ x ∈ chosen, known layer x) ∧ chosen.Nodup ∧
      chosen.length ≤ config.m) (call (.select (found.filter fun n => n.id ≠ id) config.m)) s
  own : ∀ {s} layer chosen, D.inv s → layer ≤ level → (∀ x ∈ chosen, known layer x) →
    chosen.Nodup → chosen.length ≤ config.m →
    Secure h D i (fun _ _ => True) (call (.linkOwn id layer chosen)) s
  back : ∀ {s} nb layer, D.inv s → layer ≤ level → known layer nb →
    Secure h D i (fun _ _ => True) (call (.linkBack nb layer id (config.maxDegree layer))) s

def place (config : HnswConfig) (id level : Nat) (visited : VisitedSet) : Prog T Unit := do
  let packed ← call .entry
  if packed = ENTRY_NONE then do
    let claimed ← call (.claimEntry id level)
    if claimed then pure ()
    else link config id level visited
  else link config id level visited

theorem insert_eq (config : HnswConfig) (id level : Nat) (visited : VisitedSet) :
    (insert config id level visited : Prog T Unit) =
      (call (.publish id level) >>= fun _ => place config id level visited) := rfl

namespace Linking

variable {h : Handler T σ} {D : Discipline T σ} {i : Nat} {known : Nat → Nat → Prop}
  {entered : σ → Prop} {config : HnswConfig} {id level : Nat}

theorem linkBackAll_secure (linking : Linking h D i known entered config id level) {s : σ}
    {layer : Nat} (chosen : List Nat) (kept : D.inv s) (le : layer ≤ level)
    (among : ∀ x ∈ chosen, known layer x) :
    Secure h D i (fun _ _ => True) (linkBackAll id layer (config.maxDegree layer) chosen) s := by
  induction chosen generalizing s with
  | nil => exact Secure.ret fun _ _ _ => trivial
  | cons nb rest ih =>
      apply Secure.bind kept (linking.back nb layer kept le (among nb (List.mem_cons_self ..)))
      intro t _ keptThere _
      exact ih keptThere fun x member => among x (List.mem_cons_of_mem nb member)

theorem connectLayer_secure (linking : Linking h D i known entered config id level) {s : σ}
    {layer : Nat} (visited : VisitedSet) (ep : Nat) (kept : D.inv s) (le : layer ≤ level)
    (start : known layer ep) :
    Secure h D i (fun _ result => known layer result.2)
      (connectLayer config id layer visited ep) s := by
  apply Secure.bind kept
    (searchLayer_secure linking.walk layer visited ep config.efConstruction kept start)
  rintro t ⟨visited', found⟩ keptFound ⟨-, among, distinct⟩
  dsimp only at among distinct ⊢
  have seed : known layer ((found.head?.map Neighbor.id).getD ep) := by
    cases found with
    | nil => exact start
    | cons best rest => exact among best (List.mem_cons_self ..)
  apply Secure.bind keptFound (linking.select layer found keptFound among distinct)
  rintro u chosen keptChosen ⟨amongChosen, distinctChosen, few⟩
  apply Secure.bind keptChosen
    (linking.own layer chosen keptChosen le amongChosen distinctChosen few)
  intro v _ keptOwn _
  apply Secure.bind keptOwn (linking.linkBackAll_secure chosen keptOwn le amongChosen)
  intro w _ _ _
  exact Secure.ret fun _ _ _ => seed

theorem connectLayers_secure (linking : Linking h D i known entered config id level) {s : σ}
    {layer : Nat} (visited : VisitedSet) (ep : Nat) (kept : D.inv s) (le : layer ≤ level)
    (start : known layer ep) :
    Secure h D i (fun _ _ => True) (connectLayers config id layer visited ep) s := by
  induction layer generalizing s visited ep with
  | zero =>
      apply Secure.bind kept (linking.connectLayer_secure visited ep kept le start)
      intro t _ _ _
      exact Secure.ret fun _ _ _ => trivial
  | succ layer ih =>
      apply Secure.bind kept (linking.connectLayer_secure visited ep kept le start)
      intro t result keptThere seed
      have lower : known layer result.2 := linking.walk.lower (s := t) (Nat.le_succ layer) seed
      exact ih result.1 result.2 keptThere (Nat.le_of_succ_le le) lower

theorem link_secure (linking : Linking h D i known entered config id level) {s : σ}
    (visited : VisitedSet) (kept : D.inv s) (some : entered s) :
    Secure h D i (fun _ _ => True) (link config id level visited) s := by
  apply Secure.bind kept (linking.load kept)
  rintro t packed keptThere ⟨-, named⟩
  have start : known (unpackEntry packed).2 (unpackEntry packed).1 := named some
  have ground : known 0 (unpackEntry packed).1 := linking.walk.lower (s := t) (Nat.zero_le _) start
  apply Secure.bind keptThere (linking.walk.dist t 0 _ keptThere ground)
  intro u value keptDist _
  apply Secure.bind keptDist
    (descend_secure linking.walk level (unpackEntry packed).2 _ value keptDist start)
  rintro v result keptEp ⟨-, found⟩
  apply Secure.bind keptEp
    (linking.connectLayers_secure visited result.1 keptEp (Nat.min_le_left _ _) found)
  intro w _ keptLinked _
  split
  · exact linking.raise keptLinked
  · exact Secure.ret fun _ _ _ => trivial

/-- What an insert does after it has published its node. -/
theorem placed_secure (linking : Linking h D i known entered config id level) {s : σ}
    (visited : VisitedSet) (kept : D.inv s) :
    Secure h D i (fun _ _ => True) (place config id level visited) s := by
  apply Secure.bind kept (linking.load kept)
  rintro t packed keptThere ⟨seen, -⟩
  split
  · apply Secure.bind keptThere (linking.claim keptThere)
    intro u claimed keptClaim lost
    split
    · exact Secure.ret fun _ _ _ => trivial
    · rename_i other
      exact linking.link_secure visited keptClaim (lost (Bool.not_eq_true _ ▸ other))
  · rename_i some
    exact linking.link_secure visited keptThere (seen some)

end Linking

theorem searchWithOracle_known {h : Handler T σ} {D : Discipline T σ} {i : Nat}
    {dist : Nat → Prog T F32} {known : Nat → Nat → Prop}
    (walk : Walkable h D i dist fun layer _ x => known layer x)
    (load : ∀ {s}, D.inv s → Secure h D i (fun _ packed => packed ≠ ENTRY_NONE →
      known (unpackEntry packed).2 (unpackEntry packed).1) (call .entry) s)
    (visited : VisitedSet) (k ef : Nat) {s : σ} (kept : D.inv s) :
    Secure h D i (fun _ result => ∀ n ∈ result, known 0 n.id)
      (searchWithOracle dist visited k ef) s := by
  apply Secure.bind kept (load kept)
  intro t packed keptThere named
  split
  · exact Secure.ret fun _ _ _ n member => absurd member List.not_mem_nil
  · rename_i some
    have start := named some
    have ground : known 0 (unpackEntry packed).1 := walk.lower (s := t) (Nat.zero_le _) start
    apply Secure.bind keptThere (walk.dist t 0 _ keptThere ground)
    intro u value keptDist _
    apply Secure.bind keptDist (descend_secure walk 0 (unpackEntry packed).2 _ value keptDist start)
    rintro v result keptEp ⟨-, found⟩
    rw [Nat.zero_min] at found
    apply Secure.bind keptEp (searchLayer_secure walk 0 visited result.1 (max ef k) keptEp found)
    rintro w ⟨visited', found'⟩ _ ⟨-, among, -⟩
    exact Secure.ret fun _ _ _ n member => among n (List.mem_of_mem_take member)

end Hnsw

end Vektordb
