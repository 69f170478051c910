import Vektordb.Hnsw.Guide
import Vektordb.Hnsw.Interleaving
import Vektordb.Hnsw.Region

/-!
The length of adjacency lists under concurrent inserts. Back-links re-select an over-full
list, but the list of the new node itself is only extended: `Fits` is the exact condition
under which that extension stays within the bound of its layer, and an `Untouched` list has room
for whatever is chosen.
-/

namespace Vektordb

open Interaction

/-! ### The extension of the own list -/

theorem destutter'_append (chosen : List Nat) {first : Nat} {cur : List Nat}
    (distinct : (first :: cur).Nodup) :
    (cur ++ chosen).destutter' (· ≠ ·) first =
      (first :: cur).dropLast ++
        chosen.destutter' (· ≠ ·) ((first :: cur).getLast (List.cons_ne_nil _ _)) := by
  induction cur generalizing first with
  | nil => rfl
  | cons next rest ih =>
      have apart : first ≠ next := fun same =>
        (List.nodup_cons.mp distinct).1 (same ▸ List.mem_cons_self ..)
      rw [List.cons_append, List.destutter'_cons_pos _ apart,
        ih (List.nodup_cons.mp distinct).2, List.dropLast_cons_cons, List.getLast_cons_cons]
      rfl

/-- Two lists without repetition: `dedup` drops the first chosen id if it repeats the last
present one, and nothing else. -/
theorem ownLinks_cases {chosen cur : List Nat} (distinct : cur.Nodup)
    (distinctChosen : chosen.Nodup) :
    (∃ x tail, chosen = x :: tail ∧ cur.getLast? = some x ∧ ownLinks chosen cur = cur ++ tail) ∨
      (∀ x, cur.getLast? = some x → chosen.head? ≠ some x) ∧ ownLinks chosen cur = cur ++ chosen := by
  have chain : ∀ {first : Nat} {rest : List Nat}, (first :: rest).Nodup →
      rest.destutter' (· ≠ ·) first = first :: rest := fun nodup =>
    List.destutter'_of_isChain_cons _ _ (List.Pairwise.isChain nodup)
  unfold ownLinks
  cases cur with
  | nil =>
      refine .inr ⟨fun x last => by simp at last, ?_⟩
      exact List.destutter_of_isChain _ _ (List.Pairwise.isChain distinctChosen)
  | cons first rest =>
      have whole := List.dropLast_append_getLast (List.cons_ne_nil first rest)
      have last := List.getLast?_eq_some_getLast (List.cons_ne_nil first rest)
      rw [List.cons_append, List.destutter_cons', destutter'_append chosen distinct]
      cases chosen with
      | nil =>
          refine .inr ⟨fun x _ => by simp, ?_⟩
          rw [List.destutter'_nil, whole, List.append_nil]
      | cons x tail =>
          by_cases same : (first :: rest).getLast (List.cons_ne_nil _ _) = x
          · refine .inl ⟨x, tail, rfl, by rw [last, same], ?_⟩
            rw [List.destutter'_cons_neg _ (by simp only [same, ne_eq, not_true_eq_false,
              not_false_eq_true]), same, chain distinctChosen]
            conv_rhs => rw [← whole, same]
            rw [List.append_assoc, List.singleton_append]
          · refine .inr ⟨fun y isLast head => same ?_, ?_⟩
            · rw [last] at isLast
              exact (Option.some.inj isLast).trans (Option.some.inj head).symm
            · rw [List.destutter'_cons_pos _ same, chain distinctChosen]
              calc (first :: rest).dropLast ++ (first :: rest).getLast _ :: x :: tail =
                  ((first :: rest).dropLast ++ [(first :: rest).getLast _]) ++ x :: tail := by
                    rw [List.append_assoc, List.singleton_append]
                _ = first :: (rest ++ x :: tail) := by rw [whole, List.cons_append]

/-- The ids already on a list and the chosen ones, in that order, make up a list within the
bound: none is on both, except that the chosen ones may start with the last one present. -/
def Extends (max : Nat) (cur chosen : List Nat) : Prop :=
  (∀ x ∈ chosen, x ∈ cur → cur.getLast? = some x ∧ chosen.head? = some x) ∧
    cur.length + (chosen.filter fun x => x ∉ cur).length ≤ max

theorem ownLinks_bounded_iff {max : Nat} {chosen cur : List Nat} (distinct : cur.Nodup)
    (distinctChosen : chosen.Nodup) :
    ((ownLinks chosen cur).Nodup ∧ (ownLinks chosen cur).length ≤ max) ↔
      Extends max cur chosen := by
  rcases ownLinks_cases distinct distinctChosen with
    ⟨x, tail, rfl, last, same⟩ | ⟨apart, same⟩
  · have present : x ∈ cur := List.mem_of_getLast? last
    have absent : x ∉ tail := (List.nodup_cons.mp distinctChosen).1
    rw [same, List.length_append, List.nodup_append]
    constructor
    · rintro ⟨⟨-, -, disjoint⟩, short⟩
      have all : ∀ y ∈ tail, y ∉ cur := fun y member there => disjoint y there y member rfl
      refine ⟨fun y member there => ?_, ?_⟩
      · rcases List.mem_cons.mp member with rfl | member
        · exact ⟨last, rfl⟩
        · exact absurd there (all y member)
      · rw [List.filter_cons_of_neg (by simpa using present),
          List.filter_eq_self.mpr fun y member => decide_eq_true (all y member)]
        exact short
    · rintro ⟨overlap, short⟩
      have all : ∀ y ∈ tail, y ∉ cur := fun y member there => by
        have head := (overlap y (List.mem_cons_of_mem x member) there).2
        cases head
        exact absent member
      rw [List.filter_cons_of_neg (by simpa using present),
        List.filter_eq_self.mpr fun y member => decide_eq_true (all y member)] at short
      exact ⟨⟨distinct, (List.nodup_cons.mp distinctChosen).2,
        fun y there z member equal => all z member (equal ▸ there)⟩, short⟩
  · rw [same, List.length_append, List.nodup_append]
    constructor
    · rintro ⟨⟨-, -, disjoint⟩, short⟩
      have all : ∀ y ∈ chosen, y ∉ cur := fun y member there => disjoint y there y member rfl
      refine ⟨fun y member there => absurd there (all y member), ?_⟩
      rw [List.filter_eq_self.mpr fun y member => decide_eq_true (all y member)]
      exact short
    · rintro ⟨overlap, short⟩
      have all : ∀ y ∈ chosen, y ∉ cur := fun y member there =>
        have both := overlap y member there
        apart y both.1 both.2
      rw [List.filter_eq_self.mpr fun y member => decide_eq_true (all y member)] at short
      exact ⟨⟨distinct, distinctChosen,
        fun y there z member equal => all z member (equal ▸ there)⟩, short⟩

/-! ### One action -/

namespace Hnsw

def Bounded (g : Hnsw) : Prop :=
  ∀ id node layer list, g.nodes.get id = some node → node.links[layer]? = some list →
    list.Nodup ∧ list.length ≤ g.config.maxDegree layer

/-- When an insert links its own list, what others have put there before leaves room. -/
def Fits (g : Hnsw) : Action → Prop
  | .linkOwn id layer chosen => ∀ node cur, g.nodes.get id = some node →
      node.links[layer]? = some cur → Extends (g.config.maxDegree layer) cur chosen
  | _ => True

/-- When an insert links its own list, nobody has put a back-link there before. -/
def Untouched (g : Hnsw) : Action → Prop
  | .linkOwn id layer _ => (g.listAt layer id).getD [] = []
  | _ => True

instance (g : Hnsw) : (action : Action) → Decidable (Untouched g action)
  | .linkOwn id layer _ => inferInstanceAs (Decidable ((g.listAt layer id).getD [] = []))
  | .publish _ _ => .isTrue trivial
  | .entry => .isTrue trivial
  | .claimEntry _ _ => .isTrue trivial
  | .raiseEntry _ _ => .isTrue trivial
  | .len => .isTrue trivial
  | .links _ _ => .isTrue trivial
  | .distance _ _ => .isTrue trivial
  | .select _ _ => .isTrue trivial
  | .linkBack _ _ _ _ => .isTrue trivial

/-- The arguments that `insert` passes: at most `m` distinct ids are chosen, and a back-link is
bounded by its layer. -/
def Chosen (config : HnswConfig) : Action → Prop
  | .linkOwn _ _ chosen => chosen.Nodup ∧ chosen.length ≤ config.m
  | .linkBack _ layer _ max => max = config.maxDegree layer
  | _ => True

theorem fits_empty {g : Hnsw} {id layer : Nat} {chosen : List Nat}
    (empty : ∀ node cur, g.nodes.get id = some node → node.links[layer]? = some cur → cur = [])
    (few : chosen.length ≤ g.config.m) : Fits g (.linkOwn id layer chosen) := by
  intro node cur held present
  rw [empty node cur held present]
  refine ⟨fun x _ there => (by cases there), ?_⟩
  calc ([] : List Nat).length + (chosen.filter fun x => x ∉ []).length
      ≤ chosen.length := by
        rw [List.length_nil, Nat.zero_add]
        exact List.length_filter_le _ chosen
    _ ≤ g.config.m := few
    _ ≤ g.config.maxDegree layer := by
        unfold HnswConfig.maxDegree
        split <;> omega

theorem Untouched.fits {g : Hnsw} {action : Action} (untouched : Untouched g action)
    (chosen : Chosen g.config action) : Fits g action := by
  cases action with
  | linkOwn id layer list =>
      apply fits_empty _ chosen.2
      intro node cur held present
      have here : g.listAt layer id = some cur := by
        unfold listAt
        rw [held]
        exact present
      change (g.listAt layer id).getD [] = [] at untouched
      rw [here] at untouched
      exact untouched
  | _ => trivial

theorem bounded_new {config : HnswConfig} {g : Hnsw} (opened : Hnsw.new config = .ok g) :
    Bounded g := fun id node layer list held => by
  rw [(layered_new opened).2.2 id] at held
  cases held

theorem Bounded.publish {g : Hnsw} (bounded : Bounded g) {id level : Nat} {nodes : SegVec Node}
    (done : g.nodes.set id (Node.new level) = some nodes) :
    Bounded { g with nodes := nodes } := by
  intro x node layer list held present
  simp only [(SegVec.set_some done).2.2] at held
  split at held
  · cases held
    have empty : list = [] := List.eq_of_mem_replicate (List.mem_of_getElem? present)
    rw [empty]
    exact ⟨List.nodup_nil, Nat.zero_le _⟩
  · exact bounded x node layer list held present

theorem Bounded.setEntry {g : Hnsw} (bounded : Bounded g) (entry : Nat) :
    Bounded { g with entry := entry } :=
  fun id node layer list held present => bounded id node layer list held present

theorem Bounded.rewrite_iff {g after : Hnsw} (bounded : Bounded g) {id layer : Nat}
    {mutate : List Nat → List Nat} (done : g.rewriteLinks id layer mutate = some after) :
    Bounded after ↔ ∀ node cur, g.nodes.get id = some node → node.links[layer]? = some cur →
      (mutate cur).Nodup ∧ (mutate cur).length ≤ g.config.maxDegree layer := by
  obtain ⟨node, cur, held, present, config, -, -, get⟩ := rewriteLinks_some done
  constructor
  · intro boundedAfter node' cur' held' present'
    rw [held] at held'
    cases held'
    rw [present] at present'
    cases present'
    have written := boundedAfter id (node.store layer (mutate cur)) layer (mutate cur)
      (by rw [get, if_pos rfl]) (by rw [Node.getElem?_store, if_pos rfl, present]; rfl)
    rw [config] at written
    exact written
  · intro within x n l list heldThere presentThere
    rw [config]
    rw [get] at heldThere
    split at heldThere
    · rename_i here
      subst here
      cases heldThere
      rw [Node.getElem?_store] at presentThere
      split at presentThere
      · rename_i sameLayer
        subst sameLayer
        rw [present] at presentThere
        cases presentThere
        exact within node cur held present
      · exact bounded x node l list held presentThere
    · exact bounded x n l list heldThere presentThere

/-- One action with the arguments of an insert keeps the bound exactly when it fits. -/
theorem Bounded.handle_iff {g after : Hnsw} (bounded : Bounded g) {d : Distances} {agent : Nat}
    {action : Action} {answer : Answer action} (chosen : Chosen g.config action)
    (done : handle d agent g action = .ok after answer) : Bounded after ↔ Fits g action := by
  cases action with
  | publish id level =>
      simp only [handle] at done
      cases set : g.nodes.set id (Node.new level) with
      | none => rw [set] at done; cases done
      | some nodes =>
          rw [set] at done
          cases done
          exact iff_of_true (bounded.publish set) trivial
  | entry => cases done; exact iff_of_true bounded trivial
  | claimEntry id level =>
      simp only [handle] at done
      split at done
      · cases done; exact iff_of_true (bounded.setEntry _) trivial
      · cases done; exact iff_of_true bounded trivial
  | raiseEntry id level =>
      simp only [handle] at done
      split at done
      · cases done; exact iff_of_true (bounded.setEntry _) trivial
      · cases done; exact iff_of_true bounded trivial
  | len => cases done; exact iff_of_true bounded trivial
  | links id layer =>
      simp only [handle] at done
      split at done
      · cases done; exact iff_of_true bounded trivial
      · cases done
  | distance base other => cases done; exact iff_of_true bounded trivial
  | select candidates m => cases done; exact iff_of_true bounded trivial
  | linkOwn id layer list =>
      rw [bounded.rewrite_iff (rewritten_ok done)]
      refine forall₄_congr fun node cur held present => ?_
      exact ownLinks_bounded_iff (bounded id node layer cur held present).1 chosen.1
  | linkBack nb layer id max =>
      subst chosen
      refine iff_of_true ((bounded.rewrite_iff (rewritten_ok done)).mpr
        fun node cur held present => ?_) trivial
      obtain ⟨distinct, short⟩ := bounded nb node layer cur held present
      exact ⟨backLinks_nodup distinct, backLinks_length short⟩

theorem handle_config {g after : Hnsw} {d : Distances} {agent : Nat} {action : Action}
    {answer : Answer action} (done : handle d agent g action = .ok after answer) :
    after.config = g.config := by
  have kept : ∀ {id layer mutate}, g.rewriteLinks id layer mutate = some after →
      after.config = g.config := fun rewrote => by
    obtain ⟨-, -, -, -, config, -⟩ := rewriteLinks_some rewrote
    exact config
  cases action with
  | publish id level =>
      simp only [handle] at done
      split at done <;> cases done
      rfl
  | entry => cases done; rfl
  | claimEntry id level => simp only [handle] at done; split at done <;> (cases done; rfl)
  | raiseEntry id level => simp only [handle] at done; split at done <;> (cases done; rfl)
  | len => cases done; rfl
  | links id layer =>
      simp only [handle] at done
      split at done <;> cases done
      rfl
  | distance base other => cases done; rfl
  | select candidates m => cases done; rfl
  | linkOwn id layer chosen => exact kept (rewritten_ok done)
  | linkBack nb layer id max => exact kept (rewritten_ok done)

/-! ### The program of an insert -/

def degreeDiscipline (config : HnswConfig) : Discipline sig Hnsw where
  inv g := g.config = config ∧ Bounded g
  rely _ _ _ := True
  guar _ _ _ := True
  assumes _ g action := Untouched g action
  safe _ _ action := Chosen config action
  mayStop := True
  rely_refl _ _ := trivial
  rely_trans _ _ := trivial
  guar_rely _ _ _ _ := trivial

variable {d : Distances} {i : Nat} {config : HnswConfig}

theorem chosen_secure (action : Action) (post : Answer action → Prop) {g : Hnsw}
    (chosen : Chosen config action)
    (posts : ∀ s t answer, handle d i s action = .ok t answer → post answer) :
    Secure (handle d) (degreeDiscipline config) i (fun _ answer => post answer)
      (call action) g := by
  refine Secure.act fun t _ ⟨sameConfig, bounded⟩ untouched => ⟨chosen, fun u answer done => ?_⟩
  refine ⟨⟨(handle_config done).trans sameConfig, ?_⟩, trivial, Secure.ret fun _ _ _ =>
    posts t u answer done⟩
  subst sameConfig
  exact (bounded.handle_iff chosen done).mpr (untouched.fits chosen)

theorem degree_walkable {dist : Nat → Prog sig F32}
    (oracle : ∀ g x, Secure (handle d) (degreeDiscipline config) i (fun _ _ => True) (dist x) g) :
    Walkable (handle d) (degreeDiscipline config) i dist fun _ _ _ => True where
  stable _ _ _ := trivial
  lower _ _ := trivial
  len _ _ := chosen_secure .len _ trivial fun _ _ _ _ => trivial
  links _ layer x _ _ := (chosen_secure (.links x layer) (fun _ => True) trivial
    fun _ _ _ _ => trivial).mono fun _ _ _ _ => ⟨trivial, fun _ _ => trivial⟩
  dist g _ x _ _ := oracle g x
  bounded := .inl trivial

theorem degree_linking (id level : Nat) :
    Linking (handle d) (degreeDiscipline config) i (fun _ _ => True) (fun _ => True) config id
      level where
  walk := degree_walkable fun _ x => chosen_secure (.distance id x) _ trivial fun _ _ _ _ => trivial
  entered_stable _ _ := trivial
  load _ := (chosen_secure .entry (fun _ => True) trivial fun _ _ _ _ => trivial).mono
    fun _ _ _ _ => ⟨fun _ => trivial, fun _ => trivial⟩
  claim _ := (chosen_secure (.claimEntry id level) (fun _ => True) trivial
    fun _ _ _ _ => trivial).mono fun _ _ _ _ _ => trivial
  raise _ := chosen_secure (.raiseEntry id level) _ trivial fun _ _ _ _ => trivial
  select layer found _ _ distinct := by
    refine (chosen_secure (.select (found.filter fun n => n.id ≠ id) config.m)
      (fun chosen => chosen.Nodup ∧ chosen.length ≤ config.m) trivial
      fun s u chosen done => ?_).mono fun _ _ _ valid => ⟨fun _ _ => trivial, valid⟩
    cases done
    exact ⟨selectNeighbors_nodup (distinct.sublist (List.filter_sublist.map Neighbor.id)),
      selectNeighbors_length d _ _⟩
  own layer chosen _ _ _ distinct few :=
    chosen_secure (.linkOwn id layer chosen) _ ⟨distinct, few⟩ fun _ _ _ _ => trivial
  back nb layer _ _ _ := chosen_secure (.linkBack nb layer id _) _ rfl fun _ _ _ _ => trivial

theorem insert_chosen (id level : Nat) (visited : VisitedSet) {g : Hnsw}
    (kept : (degreeDiscipline config).inv g) :
    Secure (handle d) (degreeDiscipline config) i (fun _ _ => True)
      (insert config id level visited) g := by
  rw [insert_eq]
  apply Secure.bind kept (chosen_secure (.publish id level) (fun _ => True) trivial
    fun _ _ _ _ => trivial)
  intro t _ keptThere _
  exact (degree_linking id level).placed_secure visited keptThere

theorem search_chosen (oracle : Nat → F32) (visited : VisitedSet) (k ef : Nat) {g : Hnsw}
    (kept : (degreeDiscipline config).inv g) :
    Secure (handle d) (degreeDiscipline config) i (fun _ _ => True)
      (searchWithOracle (fun x => pure (oracle x)) visited k ef) g := by
  have walk : Walkable (handle d) (degreeDiscipline config) i
      (fun x => (pure (oracle x) : Prog sig F32)) fun _ _ _ => True :=
    degree_walkable fun _ _ => Secure.ret fun _ _ _ => trivial
  have load : ∀ {s}, (degreeDiscipline config).inv s →
      Secure (handle d) (degreeDiscipline config) i (fun _ packed => packed ≠ ENTRY_NONE → True)
        (call .entry) s :=
    fun _ => chosen_secure .entry _ trivial fun _ _ _ _ _ => trivial
  exact (searchWithOracle_known walk load visited k ef kept).mono fun _ _ _ _ => trivial

/-- Interleaved calls on an index within the bound stay within it as long as each insert finds its
own lists untouched, at every moment and for any ids, levels and distances. -/
theorem degrees_guarded {g : Hnsw} (bounded : Bounded g) (calls : List Call) :
    (startPool g calls).Guarded (handle d) (degreeDiscipline g.config) (fun _ _ _ => True) where
  inv := ⟨rfl, bounded⟩
  secure i p atThread := by
    obtain ⟨call, -, rfl⟩ := Option.map_eq_some_iff.mp
      ((List.getElem?_map (f := Call.program g.config)).symm.trans atThread)
    have kept : (degreeDiscipline g.config).inv g := ⟨rfl, bounded⟩
    cases call with
    | insert id level visited =>
        exact Secure.bind kept (insert_chosen id level visited kept)
          fun _ _ _ _ => Secure.ret fun _ _ _ => trivial
    | search oracle visited k ef => exact search_chosen oracle visited k ef kept

end Hnsw

end Vektordb
