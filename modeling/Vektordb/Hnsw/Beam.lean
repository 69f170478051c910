import Vektordb.Hnsw.Guide
import Vektordb.Storage.Exact

/-!
Searches of an index that nobody changes. A beam keeps the nearest nodes of all that it has
evaluated, up to ties, and only a full one leaves nodes of the layer unseen; a beam that is as wide
as the set of nodes it can reach returns exactly the nearest of that set.
-/

namespace Vektordb

open Interaction Smallest

namespace Hnsw

variable {T : Sig} [Supports sig T] {σ : Type}

/-- Reading answers from one graph; `after` is the state by the ids that were evaluated, the last
one first. -/
structure Evaluates (h : Handler T σ) (i : Nat) (dist : Nat → Prog T F32) (after : List Nat → σ)
    (g : Hnsw) (value : Nat → F32) : Prop where
  entry : ∀ log, (call .entry : Prog T Nat).run h i (after log) = .done (after log) g.entry
  len : ∀ log, (call .len : Prog T Nat).run h i (after log) = .done (after log) g.len
  links : ∀ log layer x list, g.listAt layer x = some list →
    (call (.links x layer) : Prog T (List Nat)).run h i (after log) = .done (after log) list
  dist : ∀ log x, g.HasLayer 0 x →
    (dist x).run h i (after log) = .done (after (x :: log)) (value x)

structure Reads (h : Handler T σ) (i : Nat) (dist : Nat → Prog T F32) (s : σ) (g : Hnsw)
    (value : Nat → F32) : Prop where
  entry : (call .entry : Prog T Nat).run h i s = .done s g.entry
  len : (call .len : Prog T Nat).run h i s = .done s g.len
  links : ∀ layer x list, g.listAt layer x = some list →
    (call (.links x layer) : Prog T (List Nat)).run h i s = .done s list
  dist : ∀ x, g.HasLayer 0 x → (dist x).run h i s = .done s (value x)

theorem Reads.evaluates {h : Handler T σ} {i : Nat} {dist : Nat → Prog T F32} {s : σ} {g : Hnsw}
    {value : Nat → F32} (reads : Reads h i dist s g value) :
    Evaluates h i dist (fun _ => s) g value where
  entry _ := reads.entry
  len _ := reads.len
  links _ := reads.links
  dist _ := reads.dist

/-- Every node that a traversal may stand on has the layer. -/
def Navigable (g : Hnsw) : Prop := ∀ layer x, Stands g layer x → g.HasLayer layer x

theorem Layered.navigable {g : Hnsw} (layered : Layered g) : Navigable g := by
  intro layer x stands
  induction stands with
  | entry some => exact (layered.entry_level some).layer le_rfl
  | along _ present member _ =>
      obtain ⟨node, held, at_⟩ := Option.bind_eq_some_iff.mp present
      exact (layered.links _ node _ _ _ held at_ member).2
  | down _ ih => exact ih.lower (Nat.le_succ _)

theorem HasLayer.listAt {g : Hnsw} {layer x : Nat} (has : g.HasLayer layer x) :
    ∃ list, g.listAt layer x = some list := Option.isSome_iff_exists.mp (listAt_isSome.mpr has)

variable {h : Handler T σ} {i : Nat} {dist : Nat → Prog T F32} {after : List Nat → σ} {s : σ}
  {g : Hnsw} {value : Nat → F32}

/-- A set of nodes that the links of one layer do not leave. -/
structure Stays (g : Hnsw) (layer : Nat) (near : Nat → Prop) : Prop where
  ground : ∀ x, near x → g.HasLayer 0 x
  linked : ∀ x, near x → ∃ list, g.listAt layer x = some list ∧ ∀ y ∈ list, near y

theorem Navigable.stays (navigable : Navigable g) (layer : Nat) :
    Stays g layer (Stands g layer) where
  ground x stands := (navigable layer x stands).lower (Nat.zero_le layer)
  linked x stands := by
    obtain ⟨list, present⟩ := (navigable layer x stands).listAt
    exact ⟨list, present, fun y member => stands.along present member⟩

/-! ### The descent -/

theorem relax_evaluates (evaluates : Evaluates h i dist after g value) (list log : List Nat)
    (entry : Nat) (best : F32) (improved : Bool) (listed : ∀ y ∈ list, g.HasLayer 0 y) :
    ∃ found least flag log', (relax dist list entry best improved).run h i (after log) =
        .done (after log') (found, least, flag) ∧
      ((found = entry ∧ least = best ∧ flag = improved ∧ ∀ y ∈ list, (value y).lt best = false) ∨
        (found ∈ list ∧ flag = true ∧ least = value found ∧ least.lt best = true)) := by
  induction list generalizing entry best improved log with
  | nil => exact ⟨entry, best, improved, log, rfl, .inl ⟨rfl, rfl, rfl, nofun⟩⟩
  | cons next rest ih =>
      have here := evaluates.dist log next (listed next (List.mem_cons_self ..))
      have others : ∀ y ∈ rest, g.HasLayer 0 y :=
        fun y member => listed y (List.mem_cons_of_mem next member)
      unfold relax
      rw [Prog.run_bind_done here]
      by_cases closer : (value next).lt best = true
      · rw [if_pos closer]
        obtain ⟨found, least, flag, log', ran, holds⟩ :=
          ih (next :: log) next (value next) true others
        refine ⟨found, least, flag, log', ran, .inr ?_⟩
        rcases holds with ⟨rfl, rfl, rfl, -⟩ | ⟨member, flagged, own, lower⟩
        · exact ⟨List.mem_cons_self .., rfl, rfl, closer⟩
        · exact ⟨List.mem_cons_of_mem next member, flagged, own, F32.lt_trans lower closer⟩
      · rw [if_neg closer]
        obtain ⟨found, least, flag, log', ran, holds⟩ :=
          ih (next :: log) entry best improved others
        refine ⟨found, least, flag, log', ran, ?_⟩
        rcases holds with ⟨same, equal, flagged, far⟩ | ⟨member, improves⟩
        · left
          refine ⟨same, equal, flagged, ?_⟩
          intro y member
          rcases List.mem_cons.mp member with rfl | later
          · exact Bool.eq_false_iff.mpr closer
          · exact far y later
        · exact .inr ⟨List.mem_cons_of_mem next member, improves⟩

/-- Where a walk from `entry` at the distance `best` ends: no farther, and with no link of the layer
to a closer node. -/
structure Settles (g : Hnsw) (layer : Nat) (value : Nat → F32) (near : Nat → Prop) (entry : Nat)
    (best : F32) (found : Nat) (least : F32) : Prop where
  near : near found
  lower : found = entry ∧ least = best ∨ least = value found ∧ least.lt best = true
  nearest : ∀ list, g.listAt layer found = some list → ∀ y ∈ list, (value y).lt least = false

theorem greedyLoop_evaluates (evaluates : Evaluates h i dist after g value) {layer : Nat}
    {near : Nat → Prop} (stays : Stays g layer near) (fuel entry : Nat) (best : F32)
    (log : List Nat) (start : near entry) (enough : (best.signed + 2 ^ 31).toNat < fuel) :
    ∃ found least log', (greedyLoop dist layer fuel entry best).run h i (after log) =
      .done (after log') (found, least) ∧ Settles g layer value near entry best found least := by
  induction fuel generalizing entry best log with
  | zero => exact absurd enough (Nat.not_lt_zero _)
  | succ fuel ih =>
      obtain ⟨list, present, onList⟩ := stays.linked entry start
      obtain ⟨next, least, flag, log', relaxed, holds⟩ := relax_evaluates evaluates list log entry
        best false fun y member => stays.ground y (onList y member)
      unfold greedyLoop
      rw [Prog.run_bind_done (evaluates.links log layer entry list present),
        Prog.run_bind_done relaxed]
      dsimp only
      rcases holds with ⟨rfl, rfl, rfl, far⟩ | ⟨member, rfl, own, lower⟩
      · refine ⟨next, least, log', rfl, start, .inl ⟨rfl, rfl⟩, ?_⟩
        intro other same
        rw [present] at same
        cases same
        exact far
      · have lowered := F32.lt_signed lower
        have bound := least.signed_bound
        obtain ⟨found, last, log'', ran, ended⟩ :=
          ih next least log' (onList next member) (by omega)
        refine ⟨found, last, log'', ran, ended.near, ?_, ended.nearest⟩
        rcases ended.lower with ⟨rfl, rfl⟩ | ⟨mine, further⟩
        · exact .inr ⟨own, lower⟩
        · exact .inr ⟨mine, F32.lt_trans further lower⟩

theorem greedyDescend_evaluates (evaluates : Evaluates h i dist after g value) {layer : Nat}
    {near : Nat → Prop} (stays : Stays g layer near) (entry : Nat) (best : F32) (log : List Nat)
    (start : near entry) :
    ∃ found least log', (greedyDescend dist entry best layer).run h i (after log) =
      .done (after log') (found, least) ∧ Settles g layer value near entry best found least := by
  have bound := best.signed_bound
  apply greedyLoop_evaluates evaluates stays descendBound entry best log start
  unfold descendBound
  omega

theorem descendLayers_evaluates (evaluates : Evaluates h i dist after g value)
    (navigable : Navigable g) {bottom top : Nat} (le : bottom ≤ top) (entry : Nat) (best : F32)
    (log : List Nat) (stands : Stands g top entry) :
    ∃ found least log', (descendLayers dist (layersAbove bottom top) entry best).run h i
      (after log) = .done (after log') (found, least) ∧ Stands g bottom found := by
  induction top, le using Nat.le_induction generalizing entry best log with
  | base =>
      rw [layersAbove_self]
      exact ⟨entry, best, log, rfl, stands⟩
  | succ top le ih =>
      obtain ⟨next, least, log', walked, there⟩ := greedyDescend_evaluates evaluates
        (navigable.stays (top + 1)) entry best log stands
      obtain ⟨found, last, log'', ran, ended⟩ := ih next least log' there.near.down
      refine ⟨found, last, log'', ?_, ended⟩
      rw [layersAbove_succ le]
      unfold descendLayers
      rw [Prog.run_bind_done walked]
      exact ran

def descent (dist : Nat → Prog T F32) : Prog T (Option Nat) := do
  let packed ← call .entry
  if packed = ENTRY_NONE then pure none
  else do
    let (entryId, top) := unpackEntry packed
    let d ← dist entryId
    let (ep, _) ← descendLayers dist (layersAbove 0 top) entryId d
    pure (some ep)

theorem searchWithOracle_eq (dist : Nat → Prog T F32) (visited : VisitedSet) (k ef : Nat) :
    searchWithOracle dist visited k ef = (descent dist >>= fun landing =>
      match landing with
      | none => pure []
      | some ep => do
          let (_, results) ← searchLayer dist visited ep (max ef k) 0
          pure (results.take k)) := by
  unfold searchWithOracle descent
  rw [Prog.bind_assoc]
  congr 1
  funext packed
  split
  · rfl
  · dsimp only
    rw [Prog.bind_assoc]
    congr 1
    funext d
    rw [Prog.bind_assoc]
    rfl

theorem descent_evaluates (evaluates : Evaluates h i dist after g value) (navigable : Navigable g)
    (log : List Nat) :
    ∃ landing log', (descent dist).run h i (after log) = .done (after log') landing ∧
      (landing = none ↔ g.entry = ENTRY_NONE) ∧ ∀ ep ∈ landing, Stands g 0 ep := by
  unfold descent
  rw [Prog.run_bind_done (evaluates.entry log)]
  by_cases empty : g.entry = ENTRY_NONE
  · rw [if_pos empty]
    exact ⟨none, log, rfl, ⟨fun _ => empty, fun _ => rfl⟩, nofun⟩
  · have stands : Stands g _ _ := .entry empty
    have ground := (navigable _ _ stands).lower (Nat.zero_le _)
    obtain ⟨ep, least, log', descended, ended⟩ := descendLayers_evaluates evaluates navigable
      (Nat.zero_le _) (unpackEntry g.entry).1 (value (unpackEntry g.entry).1) (_ :: log) stands
    rw [if_neg empty, Prog.run_bind_done (evaluates.dist log _ ground),
      Prog.run_bind_done descended]
    refine ⟨some ep, log', rfl, ⟨nofun, fun none => absurd none empty⟩, ?_⟩
    intro x same
    cases same
    exact ended

theorem descent_reads (reads : Reads h i dist s g value) (navigable : Navigable g) :
    ∃ landing, (descent dist).run h i s = .done s landing ∧
      (landing = none ↔ g.entry = ENTRY_NONE) ∧ ∀ ep ∈ landing, Stands g 0 ep := by
  obtain ⟨landing, log, ran, absent, stands⟩ := descent_evaluates reads.evaluates navigable []
  exact ⟨landing, ran, absent, stands⟩

/-! ### The beam -/

def Reaches (g : Hnsw) (layer : Nat) : Nat → Nat → Prop :=
  Relation.ReflTransGen fun x y => ∃ list, g.listAt layer x = some list ∧ y ∈ list

theorem Stands.reaches {layer x y : Nat} (stands : Stands g layer x)
    (reaches : Reaches g layer x y) : Stands g layer y := by
  induction reaches with
  | refl => exact stands
  | tail _ link ih =>
      obtain ⟨list, present, member⟩ := link
      exact ih.along present member

/-- What a pass has `seen`: the marked nodes, each of them once, and every candidate among them. -/
structure Trace (near : Nat → Prop) (seen : List Nat) (visited : VisitedSet) (candidates : Heap) :
    Prop where
  active : visited.Active
  marks : ∀ x, visited.marked x ↔ x ∈ seen
  distinct : seen.Nodup
  near : ∀ x ∈ seen, near x
  candidate : ∀ n ∈ candidates, n.id ∈ seen

/-- The results of a pass keep the nearest of what it has seen. As long as they are not full, what
that links to is seen too, but for the `busy` node and the open candidates. -/
structure Pass (g : Hnsw) (layer ef : Nat) (value : Nat → F32) (near busy : Nat → Prop)
    (seen : List Nat) (visited : VisitedSet) (candidates results : Heap) : Prop extends
    Trace near seen visited candidates where
  retains : Retains ef Neighbor.amount (Exact.scored value seen) results
  closed : ef ≤ results.length ∨ ∀ x ∈ seen, busy x ∨ (∃ n ∈ candidates, n.id = x) ∨
    ∀ list, g.listAt layer x = some list → ∀ y ∈ list, y ∈ seen

/-- Either no distance is a NaN, or the results have room for all nodes there are. -/
def Comparable (ef : Nat) (value : Nat → F32) (near : Nat → Prop) : Prop :=
  (∀ x, near x → (value x).isNan = false) ∨
    ∀ ids : List Nat, ids.Nodup → (∀ x ∈ ids, near x) → ids.length ≤ ef

namespace Trace

variable {near : Nat → Prop} {seen : List Nat} {visited : VisitedSet} {candidates others : Heap}
  {next : Nat}

theorem start {ep : Nat} (here : near ep) (visited : VisitedSet) (n : Nat) (distance : F32) :
    Trace near [ep] ((visited.beginPass n).mark ep).2 [⟨ep, distance⟩] := by
  have active := VisitedSet.beginPass_active visited n
  constructor
  case active => exact VisitedSet.mark_active active ep
  case marks =>
      intro x
      rw [VisitedSet.mark_marked active, List.mem_singleton, or_iff_left]
      exact VisitedSet.beginPass_marked visited n x
  case distinct => exact List.nodup_singleton ep
  case near =>
      intro x member
      rw [List.mem_singleton.mp member]
      exact here
  case candidate =>
      intro n member
      rw [List.mem_singleton.mp member]
      exact List.mem_singleton_self ep

theorem marked_cons (trace : Trace near seen visited candidates) (next x : Nat) :
    (visited.mark next).2.marked x ↔ x ∈ next :: seen := by
  rw [VisitedSet.mark_marked trace.active, trace.marks, List.mem_cons]

theorem flag (trace : Trace near seen visited candidates) (next : Nat) :
    (visited.mark next).1 = true ↔ next ∈ seen := by
  rw [VisitedSet.mark_fst trace.active, decide_eq_true_iff]
  exact trace.marks next

theorem skip (trace : Trace near seen visited candidates) (fresh : next ∉ seen)
    (here : near next) : Trace near (next :: seen) (visited.mark next).2 candidates where
  active := VisitedSet.mark_active trace.active next
  marks := trace.marked_cons next
  distinct := List.nodup_cons.mpr ⟨fresh, trace.distinct⟩
  near := List.forall_mem_cons.mpr ⟨here, trace.near⟩
  candidate n member := List.mem_cons_of_mem next (trace.candidate n member)

theorem push (trace : Trace near seen visited candidates) (fresh : next ∉ seen)
    (here : near next) (distance : F32) :
    Trace near (next :: seen) (visited.mark next).2 (Heap.push candidates ⟨next, distance⟩) :=
  { trace.skip fresh here with
    candidate := by
      intro n member
      rcases Heap.mem_push.mp member with same | old
      · rw [same]
        exact List.mem_cons_self
      · exact List.mem_cons_of_mem next (trace.candidate n old) }

theorem remark (trace : Trace near seen visited candidates) (old : next ∈ seen) :
    Trace near seen (visited.mark next).2 candidates :=
  { trace with
    active := VisitedSet.mark_active trace.active next
    marks := by
      intro x
      rw [trace.marked_cons next x, List.mem_cons, or_iff_right_of_imp]
      intro same
      rw [same]
      exact old }

theorem pop {current : Neighbor} (trace : Trace near seen visited (current :: others)) :
    Trace near seen visited others :=
  { trace with
    candidate := fun n later => trace.candidate n (List.mem_cons_of_mem current later) }

end Trace

namespace Pass

variable {layer ef : Nat} {near busy : Nat → Prop} {seen : List Nat} {visited : VisitedSet}
  {candidates results : Heap}

theorem count (pass : Pass g layer ef value near busy seen visited candidates results) :
    results.length = min ef seen.length := by
  rw [pass.retains.length, Exact.scored, List.length_map]

theorem own (pass : Pass g layer ef value near busy seen visited candidates results) {n : Neighbor}
    (member : n ∈ results) : n.id ∈ seen ∧ n.distance = value n.id := by
  have ⟨x, there, same⟩ := List.mem_map.mp (pass.retains.subset member)
  rw [← same]
  exact ⟨there, rfl⟩

theorem push (pass : Pass g layer ef value near busy seen visited candidates results) {next : Nat}
    (positive : 1 ≤ ef) (fresh : next ∉ seen) (here : near next) :
    Pass g layer ef value near busy (next :: seen) (visited.mark next).2
      (Heap.push candidates ⟨next, value next⟩)
      (Heap.pushBounded results ⟨next, value next⟩ ef) where
  toTrace := pass.toTrace.push fresh here (value next)
  retains := Heap.retains_pushBounded pass.retains Neighbor.amount_mono positive _
  closed := by
    rcases pass.closed with full | closed
    · left
      have grown := (Heap.retains_pushBounded pass.retains Neighbor.amount_mono positive
        ⟨next, value next⟩).length
      have length := pass.retains.length
      rw [List.length_cons] at grown
      omega
    · right
      intro x member
      rcases List.mem_cons.mp member with same | old
      · exact .inr (.inl ⟨_, Heap.mem_push.mpr (.inl rfl), same.symm⟩)
      · rcases closed x old with exempt | ⟨n, candidate, same⟩ | done
        · exact .inl exempt
        · exact .inr (.inl ⟨n, Heap.mem_push.mpr (.inr candidate), same⟩)
        · exact .inr (.inr fun list present y linked =>
            List.mem_cons_of_mem next (done list present y linked))

theorem skip (pass : Pass g layer ef value near busy seen visited candidates results) {next : Nat}
    (comparable : Comparable ef value near) (fresh : next ∉ seen) (here : near next)
    (full : ef ≤ results.length)
    (far : (value next).lt (Heap.worst results) = false) :
    Pass g layer ef value near busy (next :: seen) (visited.mark next).2 candidates results where
  toTrace := pass.toTrace.skip fresh here
  retains := by
    apply pass.retains.skip full
    rcases comparable with numbers | few
    · apply Heap.amount_le_of_worst pass.retains.sorted _ (numbers next here) far
      intro n member
      rw [(pass.own member).2]
      exact numbers n.id (pass.near n.id (pass.own member).1)
    · exfalso
      have all := few (next :: seen) (List.nodup_cons.mpr ⟨fresh, pass.distinct⟩)
        (List.forall_mem_cons.mpr ⟨here, pass.near⟩)
      have count := pass.count
      rw [List.length_cons] at all
      omega
  closed := .inl full

theorem pop {current : Neighbor} {others : Heap}
    (pass : Pass g layer ef value near (fun _ => False) seen visited (current :: others) results) :
    Pass g layer ef value near (· = current.id) seen visited others results where
  toTrace := pass.toTrace.pop
  retains := pass.retains
  closed := by
    apply pass.closed.imp_right
    intro closed x there
    rcases closed x there with exempt | ⟨n, candidate, same⟩ | done
    · exact exempt.elim
    · rcases List.mem_cons.mp candidate with first | later
      · rw [first] at same
        exact .inl same.symm
      · exact .inr (.inl ⟨n, later, same⟩)
    · exact .inr (.inr done)

theorem finish {current : Nat} {list : List Nat}
    (pass : Pass g layer ef value near (· = current) seen visited candidates results)
    (present : g.listAt layer current = some list) (lists : list ⊆ seen) :
    Pass g layer ef value near (fun _ => False) seen visited candidates results :=
  { pass with
    closed := by
      apply pass.closed.imp_right
      intro closed x there
      rcases closed x there with same | open_ | done
      · right
        right
        intro list' present' y linked
        rw [same, present] at present'
        cases present'
        exact lists linked
      · exact .inr (.inl open_)
      · exact .inr (.inr done) }

end Pass

/-- An invariant of the passes over one layer: of the busy node, what has been seen, the visited
set, the candidates and the results. -/
structure Passes (g : Hnsw) (layer ef : Nat) (value : Nat → F32) (near : Nat → Prop)
    (holds : (Nat → Prop) → List Nat → VisitedSet → Heap → Heap → Prop) : Prop where
  trace : ∀ {busy seen visited candidates results},
    holds busy seen visited candidates results → Trace near seen visited candidates
  remark : ∀ {busy seen visited candidates results next},
    holds busy seen visited candidates results → next ∈ seen →
    holds busy seen (visited.mark next).2 candidates results
  push : ∀ {busy seen visited candidates results next},
    holds busy seen visited candidates results → next ∉ seen → near next →
    holds busy (next :: seen) (visited.mark next).2 (Heap.push candidates ⟨next, value next⟩)
      (Heap.pushBounded results ⟨next, value next⟩ ef)
  skip : ∀ {busy seen visited candidates results next},
    holds busy seen visited candidates results → next ∉ seen → near next → ef ≤ results.length →
    (value next).lt (Heap.worst results) = false →
    holds busy (next :: seen) (visited.mark next).2 candidates results
  pop : ∀ {seen visited current others results},
    holds (fun _ => False) seen visited (current :: others) results →
    holds (· = current.id) seen visited others results
  finish : ∀ {seen visited candidates results current list},
    holds (· = current) seen visited candidates results → g.listAt layer current = some list →
    list ⊆ seen → holds (fun _ => False) seen visited candidates results

theorem Trace.passes (g : Hnsw) (layer ef : Nat) (value : Nat → F32) (near : Nat → Prop) :
    Passes g layer ef value near fun _ seen visited candidates _ =>
      Trace near seen visited candidates where
  trace := id
  remark := Trace.remark
  push trace fresh here := trace.push fresh here _
  skip trace fresh here _ _ := trace.skip fresh here
  pop := Trace.pop
  finish trace _ _ := trace

theorem Pass.passes {ef : Nat} {near : Nat → Prop} (g : Hnsw) (layer : Nat) (positive : 1 ≤ ef)
    (comparable : Comparable ef value near) :
    Passes g layer ef value near (Pass g layer ef value near) where
  trace pass := pass.toTrace
  remark pass old := { pass with toTrace := pass.toTrace.remark old }
  push pass fresh here := pass.push positive fresh here
  skip pass fresh here full far := pass.skip comparable fresh here full far
  pop := Pass.pop
  finish := Pass.finish

/-- What a pass from `ep` evaluates and returns: the nearest of what it has seen, which is all that
the layer reaches unless the results are full. -/
structure Passed (g : Hnsw) (layer ep ef : Nat) (value : Nat → F32) (seen : List Nat)
    (results : Heap) : Prop where
  retains : Retains ef Neighbor.amount (Exact.scored value seen) results
  distinct : seen.Nodup
  reached : ∀ x ∈ seen, Reaches g layer ep x
  whole : ef ≤ results.length ∨ ∀ x, Reaches g layer ep x → x ∈ seen

section Layer

variable {layer ef ep : Nat} {near : Nat → Prop}
  {holds : (Nat → Prop) → List Nat → VisitedSet → Heap → Heap → Prop}

theorem scanLinks_evaluates (evaluates : Evaluates h i dist after g value)
    (stays : Stays g layer near) (passes : Passes g layer ef value near holds)
    {busy : Nat → Prop} (list log : List Nat) (listed : ∀ y ∈ list, near y) {seen : List Nat}
    {visited : VisitedSet} {candidates results : Heap}
    (pass : holds busy seen visited candidates results) :
    ∃ seen' visited' candidates' results',
      (scanLinks dist ef list visited candidates results).run h i (after (seen ++ log)) =
        .done (after (seen' ++ log)) (visited', candidates', results') ∧
      holds busy seen' visited' candidates' results' ∧ seen ⊆ seen' ∧
      list ⊆ seen' ∧ candidates'.length + seen.length ≤ candidates.length + seen'.length := by
  induction list generalizing seen visited candidates results with
  | nil =>
      exact ⟨seen, visited, candidates, results, rfl, pass, List.Subset.refl seen,
        List.nil_subset seen, le_rfl⟩
  | cons next rest ih =>
      have here := listed next (List.mem_cons_self ..)
      have others : ∀ y ∈ rest, near y := fun y member => listed y (List.mem_cons_of_mem next member)
      have flag := (passes.trace pass).flag next
      unfold scanLinks
      dsimp only
      by_cases old : next ∈ seen
      · obtain ⟨seen', visited', candidates', results', ran, passed, keeps, lists, count⟩ :=
          ih others (passes.remark pass old)
        rw [if_pos (flag.mpr old)]
        refine ⟨seen', visited', candidates', results', ran, passed, keeps, ?_, count⟩
        exact List.cons_subset.mpr ⟨keeps old, lists⟩
      · have measured := evaluates.dist (seen ++ log) next (stays.ground next here)
        rw [if_neg fun marked => old (flag.mp marked), Prog.run_bind_done measured]
        by_cases inserted : (decide (results.length < ef) ||
            (value next).lt (Heap.worst results)) = true
        · obtain ⟨seen', visited', candidates', results', ran, passed, keeps, lists, count⟩ :=
            ih others (passes.push pass old here)
          rw [if_pos inserted]
          refine ⟨seen', visited', candidates', results', ran, passed, ?_, ?_, ?_⟩
          · exact List.Subset.trans (List.subset_cons_self next seen) keeps
          · exact List.cons_subset.mpr ⟨keeps (List.mem_cons_self ..), lists⟩
          · rw [Heap.length_push, List.length_cons] at count
            omega
        · obtain ⟨room, far⟩ := Bool.or_eq_false_iff.mp (Bool.eq_false_iff.mpr inserted)
          have full : ef ≤ results.length := not_lt.mp (of_decide_eq_false room)
          obtain ⟨seen', visited', candidates', results', ran, passed, keeps, lists, count⟩ :=
            ih others (passes.skip pass old here full far)
          rw [if_neg inserted]
          refine ⟨seen', visited', candidates', results', ran, passed, ?_, ?_, ?_⟩
          · exact List.Subset.trans (List.subset_cons_self next seen) keeps
          · exact List.cons_subset.mpr ⟨keeps (List.mem_cons_self ..), lists⟩
          · rw [List.length_cons] at count
            omega

theorem searchLoop_evaluates (evaluates : Evaluates h i dist after g value)
    (stays : Stays g layer near) (passes : Passes g layer ef value near holds)
    (fuel : Nat) (log : List Nat) {seen : List Nat} {visited : VisitedSet}
    {candidates results : Heap}
    (pass : holds (fun _ => False) seen visited candidates results)
    (enough : searchBound + candidates.length ≤ fuel + seen.length) :
    ∃ seen' visited' candidates' results',
      (searchLoop dist ef layer fuel visited candidates results).run h i (after (seen ++ log)) =
        .done (after (seen' ++ log)) (visited', results') ∧
      holds (fun _ => False) seen' visited' candidates' results' ∧ seen ⊆ seen' ∧
      (candidates' = [] ∨ ef ≤ results'.length) := by
  induction fuel generalizing seen visited candidates results with
  | zero =>
      have trace := passes.trace pass
      have below : seen ⊆ List.range SegVec.CAPACITY := fun x member =>
        List.mem_range.mpr (stays.ground x (trace.near x member)).lt_capacity
      have bound := trace.distinct.length_le_of_subset below
      rw [List.length_range] at bound
      unfold searchBound at enough
      omega
  | succ fuel ih =>
      cases candidates with
      | nil => exact ⟨seen, visited, [], results, rfl, pass, List.Subset.refl seen, .inl rfl⟩
      | cons current others =>
          unfold searchLoop
          dsimp only
          by_cases exit : ((Heap.worst results).lt current.distance &&
              decide (ef ≤ results.length)) = true
          · have full := of_decide_eq_true (Bool.and_eq_true_iff.mp exit).2
            rw [if_pos exit]
            exact ⟨seen, visited, current :: others, results, rfl, pass, List.Subset.refl seen,
              .inr full⟩
          · have trace := passes.trace pass
            have member := trace.candidate current (List.mem_cons_self ..)
            obtain ⟨list, present, listed⟩ := stays.linked current.id (trace.near _ member)
            obtain ⟨seen', visited', candidates', results', ran, passed, keeps, lists, count⟩ :=
              scanLinks_evaluates evaluates stays passes list log listed (passes.pop pass)
            obtain ⟨last, visited'', rest, results'', looped, ended, keepsLast, why⟩ :=
              ih (passes.finish passed present lists)
                (by rw [List.length_cons] at enough; omega)
            rw [if_neg exit, Prog.run_bind_done (evaluates.links _ layer current.id list present),
              Prog.run_bind_done ran]
            exact ⟨last, visited'', rest, results'', looped, ended,
              List.Subset.trans keeps keepsLast, why⟩

theorem searchLayer_passes (evaluates : Evaluates h i dist after g value) (visited : VisitedSet)
    (stays : Stays g layer near) (passes : Passes g layer ef value near holds) (here : near ep)
    (start : holds (fun _ => False) [ep] ((visited.beginPass g.len).mark ep).2 [⟨ep, value ep⟩]
      [⟨ep, value ep⟩]) (log : List Nat) :
    ∃ visited' seen candidates results, (searchLayer dist visited ep ef layer).run h i (after log) =
        .done (after (seen ++ log)) (visited', results) ∧
      holds (fun _ => False) seen visited' candidates results ∧ ep ∈ seen ∧
      (candidates = [] ∨ ef ≤ results.length) := by
  obtain ⟨seen, visited', candidates, results, ran, ended, keeps, why⟩ :=
    searchLoop_evaluates evaluates stays passes searchBound log start le_rfl
  refine ⟨visited', seen, candidates, results, ?_, ended, keeps (List.mem_singleton_self ep), why⟩
  unfold searchLayer
  rw [Prog.run_bind_done (evaluates.len log),
    Prog.run_bind_done (evaluates.dist log ep (stays.ground ep here))]
  exact ran

theorem stays_reaches (onLayer : ∀ x, Reaches g layer ep x → g.HasLayer layer x) :
    Stays g layer (Reaches g layer ep) where
  ground x reaches := (onLayer x reaches).lower (Nat.zero_le layer)
  linked x reaches := by
    obtain ⟨list, present⟩ := (onLayer x reaches).listAt
    exact ⟨list, present, fun y member => reaches.tail ⟨list, present, member⟩⟩

theorem searchLayer_evaluates (evaluates : Evaluates h i dist after g value)
    (visited : VisitedSet) (onLayer : ∀ x, Reaches g layer ep x → g.HasLayer layer x)
    (positive : 1 ≤ ef) (comparable : Comparable ef value (Reaches g layer ep)) (log : List Nat) :
    ∃ visited' seen results, (searchLayer dist visited ep ef layer).run h i (after log) =
        .done (after (seen ++ log)) (visited', results) ∧
      Passed g layer ep ef value seen results := by
  have start : Pass g layer ef value (Reaches g layer ep) (fun _ => False) [ep]
      ((visited.beginPass g.len).mark ep).2 [⟨ep, value ep⟩] [⟨ep, value ep⟩] := by
    constructor
    case toTrace => exact .start .refl visited g.len (value ep)
    case retains => exact Retains.single positive _ _
    case closed =>
        right
        intro x member
        exact .inr (.inl ⟨_, List.mem_singleton_self _, (List.mem_singleton.mp member).symm⟩)
  obtain ⟨visited', seen, candidates, results, ran, ended, here, why⟩ := searchLayer_passes evaluates
    visited (stays_reaches onLayer) (Pass.passes g layer positive comparable) .refl start log
  refine ⟨visited', seen, results, ran, ended.retains, ended.distinct, ended.near, ?_⟩
  rcases why with rfl | full
  · apply ended.closed.imp_right
    intro closed x reaches
    induction reaches with
    | refl => exact here
    | tail _ link ih =>
        obtain ⟨list, present, member⟩ := link
        rcases closed _ ih with exempt | ⟨n, candidate, -⟩ | done
        · exact exempt.elim
        · cases candidate
        · exact done list present _ member
  · exact .inl full

variable {ids seen : List Nat} {results : Heap}

theorem Passed.count (passed : Passed g layer ep ef value seen results) (distinct : ids.Nodup)
    (all : ∀ x, x ∈ ids ↔ Reaches g layer ep x) : results.length = min ef ids.length := by
  have length := passed.retains.length
  have fewer : seen.length ≤ ids.length := passed.distinct.length_le_of_subset fun x member =>
    (all x).mpr (passed.reached x member)
  unfold Exact.scored at length
  rw [List.length_map] at length
  rcases passed.whole with full | whole
  · omega
  · have more : ids.length ≤ seen.length := distinct.length_le_of_subset fun x member =>
      whole x ((all x).mp member)
    omega

/-- A beam with room for all that the layer reaches returns all of it. -/
theorem Passed.exact (passed : Passed g layer ep ef value seen results) (distinct : ids.Nodup)
    (all : ∀ x, x ∈ ids ↔ Reaches g layer ep x) (room : ids.length ≤ ef) :
    results = Exact.nearest value ef ids := by
  have count := passed.count distinct all
  have length := passed.retains.length
  have inside : seen ⊆ ids := fun x member => (all x).mpr (passed.reached x member)
  have fewer := passed.distinct.length_le_of_subset inside
  unfold Exact.scored at length
  rw [List.length_map] at length
  have same : seen.Perm ids := (passed.distinct.subperm inside).perm_of_length_le (by omega)
  have perm : results.Perm (Exact.scored value ids) :=
    (passed.retains.perm (by unfold Exact.scored; rw [List.length_map]; omega)).trans (same.map _)
  rw [← smallest_sorted passed.retains.sorted (by omega : results.length ≤ ef)]
  exact smallest_perm ef perm

theorem searchLayer_reads (reads : Reads h i dist s g value) (navigable : Navigable g)
    (visited : VisitedSet) (stands : Stands g layer ep) (distinct : ids.Nodup)
    (all : ∀ x, x ∈ ids ↔ Reaches g layer ep x) (room : ids.length ≤ ef) :
    ∃ visited', (searchLayer dist visited ep ef layer).run h i s =
      .done s (visited', Exact.nearest value ef ids) := by
  have onLayer : ∀ x, Reaches g layer ep x → g.HasLayer layer x := fun x reaches =>
    navigable layer x (stands.reaches reaches)
  have few : ∀ some : List Nat, some.Nodup → (∀ x ∈ some, Reaches g layer ep x) →
      some.length ≤ ef := fun some apart among =>
    (apart.length_le_of_subset fun x member => (all x).mpr (among x member)).trans room
  have positive : 1 ≤ ef := (List.length_pos_of_mem ((all ep).mpr .refl)).trans_le room
  obtain ⟨visited', seen, results, ran, passed⟩ := searchLayer_evaluates reads.evaluates visited
    onLayer positive (.inr few) []
  rw [passed.exact distinct all room] at ran
  exact ⟨visited', ran⟩

end Layer

/-- A search whose beam has room for all nodes that layer 0 reaches from the end of its descent
returns the nearest of them. -/
theorem searchWithOracle_exact (reads : Reads h i dist s g value) (navigable : Navigable g)
    {landing : Option Nat} (descended : (descent dist).run h i s = .done s landing)
    (visited : VisitedSet) {k ef : Nat} {ids : List Nat} (distinct : ids.Nodup)
    (all : ∀ x, x ∈ ids ↔ ∃ ep ∈ landing, Reaches g 0 ep x) (room : ids.length ≤ max ef k) :
    (searchWithOracle dist visited k ef).run h i s = .done s (Exact.nearest value k ids) := by
  obtain ⟨landing', same, -, stands⟩ := descent_reads reads navigable
  rw [descended] at same
  cases same
  rw [searchWithOracle_eq, Prog.run_bind_done descended]
  cases landing with
  | none =>
      have empty : ids = [] := by
        apply List.eq_nil_iff_forall_not_mem.mpr
        intro x member
        obtain ⟨ep, none, -⟩ := (all x).mp member
        cases none
      have nothing : Exact.nearest value k [] = [] :=
        smallest_sorted List.Pairwise.nil (Nat.zero_le k)
      rw [empty, nothing]
      rfl
  | some ep =>
      have reached : ∀ x, x ∈ ids ↔ Reaches g 0 ep x := by
        intro x
        rw [all x]
        exact ⟨fun ⟨_, here, reaches⟩ => Option.some.inj here ▸ reaches,
          fun reaches => ⟨ep, rfl, reaches⟩⟩
      obtain ⟨visited', searched⟩ := searchLayer_reads reads navigable visited (stands ep rfl)
        distinct reached room
      dsimp only
      rw [Prog.run_bind_done searched]
      unfold Exact.nearest
      dsimp only
      rw [take_smallest, Nat.min_eq_left (Nat.le_max_right ef k)]
      rfl

end Hnsw

end Vektordb
