import Vektordb.Hnsw.Interleaving
import Vektordb.Hnsw.Closed

/-!
The count of nodes without incoming links, while inserts run. It takes the length of the node
array once, looks at every node below it and follows the links it finds into a vector of that
length; `handle` faults where it would read an empty slot or write past the vector.
-/

namespace Vektordb

open Interaction

namespace Hnsw

/-- The lists that an action rewrites. -/
def Action.rewrite (d : Distances) : Action → Option (Nat × Nat × (List Nat → List Nat))
  | .linkOwn id layer chosen => some (id, layer, ownLinks chosen)
  | .linkBack nb layer id max => some (nb, layer, backLinks d nb id max)
  | _ => none

theorem handle_nodes {g after : Hnsw} {d : Distances} {agent : Nat} {action : Action}
    {answer : Answer action} (done : handle d agent g action = .ok after answer) :
    (∃ id level, action = .publish id level ∧
      g.nodes.set id (Node.new level) = some after.nodes) ∨
    (∃ id layer mutate, action.rewrite d = some (id, layer, mutate) ∧
      g.rewriteLinks id layer mutate = some after) ∨
    after.nodes = g.nodes := by
  cases action with
  | publish id level =>
      simp only [handle] at done
      cases set : g.nodes.set id (Node.new level) with
      | none => rw [set] at done; cases done
      | some nodes =>
          rw [set] at done
          cases done
          exact .inl ⟨id, level, rfl, set⟩
  | entry => cases done; exact .inr (.inr rfl)
  | claimEntry id level =>
      simp only [handle] at done
      split at done
      · cases done; exact .inr (.inr rfl)
      · cases done; exact .inr (.inr rfl)
  | raiseEntry id level =>
      simp only [handle] at done
      split at done
      · cases done; exact .inr (.inr rfl)
      · cases done; exact .inr (.inr rfl)
  | len => cases done; exact .inr (.inr rfl)
  | links id layer =>
      simp only [handle] at done
      split at done
      · cases done; exact .inr (.inr rfl)
      · cases done
  | distance base other => cases done; exact .inr (.inr rfl)
  | select candidates m => cases done; exact .inr (.inr rfl)
  | linkOwn id layer chosen => exact .inr (.inl ⟨id, layer, _, rfl, rewritten_ok done⟩)
  | linkBack nb layer id max => exact .inr (.inl ⟨nb, layer, _, rfl, rewritten_ok done⟩)

structure Scan where
  agent : Nat
  length : Nat
  next : Nat
  deriving DecidableEq, Repr

/-- The index and the counts that run on it. No call reads `scans`. -/
structure Census where
  graph : Hnsw
  scans : List Scan

namespace Census

inductive Action where
  | index (action : Hnsw.Action)
  /-- `nodes.len()`, for the vector of in-degrees. -/
  | measure
  /-- `with_links(i, 0, ..)` with the closure that raises the in-degrees in a vector of length
  `n`; the answer is the list it went through. -/
  | tally (n i : Nat)

abbrev Answer : Action → Type
  | .index action => Hnsw.Answer action
  | .measure => Nat
  | .tally _ _ => List Nat

abbrev sig : Sig := ⟨Action, Answer⟩

instance supportsIndex : Supports Hnsw.sig sig := ⟨fun action => .act (.index action) .ret⟩

def call (action : Action) : Prog sig (Answer action) := Prog.perform (S := sig) action

def scan (c : Census) (agent n i : Nat) : Census :=
  { c with scans := ⟨agent, n, i⟩ :: c.scans.filter fun scan => scan.agent ≠ agent }

def handle (d : Distances) : Handler sig Census
  | agent, c, .index action =>
      match Hnsw.handle d agent c.graph action with
      | .ok graph answer => .ok { c with graph := graph } answer
      | .blocked => .blocked
      | .fault => .fault
  | agent, c, .measure => .ok (c.scan agent c.graph.len 0) c.graph.len
  | agent, c, .tally n i =>
      match c.graph.listAt 0 i with
      | none => .fault
      | some list => if ∀ nb ∈ list, nb < n then .ok (c.scan agent n (i + 1)) list else .fault

/-! ### The count -/

/-- `indeg[nb] += 1` for the links of one node, on counters of 32 bits. -/
def countLinks (indeg list : List Nat) : List Nat :=
  list.foldl (fun indeg nb => indeg.modify nb fun count => (count + 1) % 2 ^ 32) indeg

/-- `for i in i..n`, with `left` rounds to go. -/
def countFrom (n : Nat) : Nat → Nat → List Nat → Prog sig (List Nat)
  | 0, _, indeg => pure indeg
  | left + 1, i, indeg => do
      let list ← call (.tally n i)
      countFrom n left (i + 1) (countLinks indeg list)

def zeroIndegreeNodes : Prog sig (List Nat) := do
  let n ← call .measure
  let indeg ← countFrom n n 0 (List.replicate n 0)
  let packed ← call (.index .entry)
  pure ((List.range n).filter fun i => indeg[i]? = some 0 ∧ i ≠ (unpackEntry packed).1)

def zeroIndegreeCount : Prog sig Nat := do
  let nodes ← zeroIndegreeNodes
  pure nodes.length

/-! ### When the nodes that a count looks at are there -/

/-- The scans that are still to look at a node go only to nodes they have room for, also after its
list on layer 0 is rewritten. -/
def Admits (c : Census) (owner : Nat) (mutate : List Nat → List Nat) : Prop :=
  ∀ scan ∈ c.scans, scan.next ≤ owner → owner < scan.length →
    ∀ y ∈ mutate ((c.graph.listAt 0 owner).getD []), y < scan.length

/-- Ids are published in their order, and no link to a node from after the start of a count is put
where that count is still to look. -/
def Calm (d : Distances) (_ : Nat) (c : Census) : Action → Prop
  | .index (.publish id _) => ∀ x < id, (c.graph.nodes.get x).isSome = true
  | .index (.linkOwn id layer chosen) => layer = 0 → c.Admits id (ownLinks chosen)
  | .index (.linkBack nb layer id max) => layer = 0 → c.Admits nb (backLinks d nb id max)
  | _ => True

/-- Ids are published in their order, and none while a count has still to look at nodes. -/
def Still (_ : Nat) (c : Census) : Action → Prop
  | .index (.publish id _) => (∀ x < id, (c.graph.nodes.get x).isSome = true) ∧
      ∀ scan ∈ c.scans, scan.length ≤ scan.next
  | _ => True

instance decidableAdmits (c : Census) (owner : Nat) (mutate : List Nat → List Nat) :
    Decidable (c.Admits owner mutate) :=
  inferInstanceAs (Decidable (∀ scan ∈ c.scans, scan.next ≤ owner → owner < scan.length →
    ∀ y ∈ mutate ((c.graph.listAt 0 owner).getD []), y < scan.length))

instance decidableCalm (d : Distances) (agent : Nat) (c : Census) :
    (action : Action) → Decidable (Calm d agent c action)
  | .index (.publish id _) =>
      inferInstanceAs (Decidable (∀ x < id, (c.graph.nodes.get x).isSome = true))
  | .index (.linkOwn id layer chosen) =>
      inferInstanceAs (Decidable (layer = 0 → c.Admits id (ownLinks chosen)))
  | .index (.linkBack nb layer id max) =>
      inferInstanceAs (Decidable (layer = 0 → c.Admits nb (backLinks d nb id max)))
  | .index .entry => .isTrue trivial
  | .index (.claimEntry _ _) => .isTrue trivial
  | .index (.raiseEntry _ _) => .isTrue trivial
  | .index .len => .isTrue trivial
  | .index (.links _ _) => .isTrue trivial
  | .index (.distance _ _) => .isTrue trivial
  | .index (.select _ _) => .isTrue trivial
  | .measure => .isTrue trivial
  | .tally _ _ => .isTrue trivial

instance decidableStill (agent : Nat) (c : Census) :
    (action : Action) → Decidable (Still agent c action)
  | .index (.publish id _) =>
      inferInstanceAs (Decidable ((∀ x < id, (c.graph.nodes.get x).isSome = true) ∧
        ∀ scan ∈ c.scans, scan.length ≤ scan.next))
  | .index .entry => .isTrue trivial
  | .index (.claimEntry _ _) => .isTrue trivial
  | .index (.raiseEntry _ _) => .isTrue trivial
  | .index .len => .isTrue trivial
  | .index (.links _ _) => .isTrue trivial
  | .index (.distance _ _) => .isTrue trivial
  | .index (.select _ _) => .isTrue trivial
  | .index (.linkOwn _ _ _) => .isTrue trivial
  | .index (.linkBack _ _ _ _) => .isTrue trivial
  | .measure => .isTrue trivial
  | .tally _ _ => .isTrue trivial

/-- Every node below the length is initialised, and what is left of a scan has room for the links
that it will find. -/
structure Filled (c : Census) : Prop where
  initialised : ∀ x < c.graph.len, (c.graph.nodes.get x).isSome = true
  length : ∀ scan ∈ c.scans, scan.length ≤ c.graph.len
  room : ∀ scan ∈ c.scans, ∀ x list, scan.next ≤ x → x < scan.length →
    c.graph.listAt 0 x = some list → ∀ y ∈ list, y < scan.length

theorem Filled.same {c : Census} (filled : Filled c) {graph : Hnsw}
    (nodes : graph.nodes = c.graph.nodes) : Filled { c with graph := graph } := by
  have list : ∀ x, graph.listAt 0 x = c.graph.listAt 0 x := by
    intro x
    unfold listAt
    rw [nodes]
  refine ⟨?_, ?_, ?_⟩
  · intro x below
    change (graph.nodes.get x).isSome = true
    rw [nodes]
    exact filled.initialised x (below.trans_eq (congrArg SegVec.len nodes))
  · intro scan member
    change scan.length ≤ graph.nodes.len
    rw [nodes]
    exact filled.length scan member
  · intro scan member x cur from_ below present
    exact filled.room scan member x cur from_ below ((list x).symm.trans present)

theorem Filled.publish {c : Census} (filled : Filled c) {graph : Hnsw} {id level : Nat}
    (before : ∀ x < id, (c.graph.nodes.get x).isSome = true)
    (fresh : c.graph.nodes.get id = none)
    (set : c.graph.nodes.set id (Node.new level) = some graph.nodes) :
    Filled { c with graph := graph } := by
  obtain ⟨-, len, get⟩ := SegVec.set_some set
  refine ⟨?_, ?_, ?_⟩
  · intro x below
    change (graph.nodes.get x).isSome = true
    rw [get]
    by_cases here : x = id
    · rw [if_pos here]
      rfl
    · rw [if_neg here]
      have inside : x < graph.nodes.len := below
      by_cases old : x < c.graph.len
      · exact filled.initialised x old
      · apply before
        unfold Hnsw.len at old
        omega
  · intro scan member
    have bound := filled.length scan member
    change scan.length ≤ graph.nodes.len
    unfold Hnsw.len at bound
    omega
  · intro scan member x cur from_ below present
    change graph.listAt 0 x = some cur at present
    unfold listAt at present
    rw [get] at present
    by_cases here : x = id
    · have inside := filled.initialised x (below.trans_le (filled.length scan member))
      rw [here, fresh] at inside
      cases inside
    · rw [if_neg here] at present
      exact filled.room scan member x cur from_ below present

theorem Filled.rewrite {c : Census} (filled : Filled c) {graph : Hnsw} {owner layer : Nat}
    {mutate : List Nat → List Nat} (admits : layer = 0 → c.Admits owner mutate)
    (done : c.graph.rewriteLinks owner layer mutate = some graph) :
    Filled { c with graph := graph } := by
  obtain ⟨node, cur, held, present, -, -, len, get⟩ := rewriteLinks_some done
  refine ⟨?_, ?_, ?_⟩
  · intro x below
    change (graph.nodes.get x).isSome = true
    rw [get]
    by_cases here : x = owner
    · rw [if_pos here]
      rfl
    · rw [if_neg here]
      exact filled.initialised x (below.trans_eq len)
  · intro scan member
    exact (filled.length scan member).trans_eq len.symm
  · intro scan member x list from_ below at_ y linked
    change graph.listAt 0 x = some list at at_
    rw [rewriteLinks_listAt done] at at_
    by_cases here : x = owner ∧ 0 = layer
    · rw [if_pos here] at at_
      obtain ⟨old, before, rfl⟩ := Option.map_eq_some_iff.mp at_
      obtain ⟨rfl, rfl⟩ := here
      have room := admits rfl scan member from_ below
      rw [before] at room
      exact room y linked
    · rw [if_neg here] at at_
      exact filled.room scan member x list from_ below at_ y linked

theorem Filled.index {c : Census} (filled : Filled c) {d : Distances} {agent : Nat}
    {action : Hnsw.Action} {graph : Hnsw} {answer : Hnsw.Answer action}
    (safe : c.graph.Safe action) (calm : Calm d agent c (.index action))
    (done : Hnsw.handle d agent c.graph action = .ok graph answer) :
    Filled { c with graph := graph } := by
  rcases handle_nodes done with ⟨id, level, rfl, set⟩ | ⟨owner, layer, mutate, rewrites, rewrote⟩ |
    nodes
  · exact filled.publish calm safe.1 set
  · have admits : layer = 0 → c.Admits owner mutate := by
      cases action <;> cases rewrites
      · exact calm
      · exact calm
    exact filled.rewrite admits rewrote
  · exact filled.same nodes

theorem Filled.scan {c : Census} (filled : Filled c) {agent n i : Nat} (le : n ≤ c.graph.len)
    (room : ∀ x list, i ≤ x → x < n → c.graph.listAt 0 x = some list → ∀ y ∈ list, y < n) :
    Filled (c.scan agent n i) := by
  refine ⟨filled.initialised, ?_, ?_⟩
  · intro scan member
    rcases List.mem_cons.mp member with rfl | old
    · exact le
    · exact filled.length scan (List.mem_of_mem_filter old)
  · intro scan member
    rcases List.mem_cons.mp member with rfl | old
    · exact room
    · exact filled.room scan (List.mem_of_mem_filter old)

/-! ### Counts without publications -/

/-- A count that has still to look at nodes took the present length. -/
def Current (c : Census) : Prop :=
  ∀ scan ∈ c.scans, scan.next < scan.length → scan.length = c.graph.len

theorem rewrite_below {g : Hnsw} (layered : Layered g) {action : Hnsw.Action} (safe : g.Safe action)
    {d : Distances} {id : Nat} {mutate : List Nat → List Nat}
    (rewrites : action.rewrite d = some (id, 0, mutate)) :
    ∀ y ∈ mutate ((g.listAt 0 id).getD []), y < g.len := by
  intro y linked
  obtain ⟨after, answer, done⟩ : ∃ after answer, Hnsw.handle d 0 g action = .ok after answer :=
    safe.answered
  have rewrote : g.rewriteLinks id 0 mutate = some after := by
    cases action <;> cases rewrites
    · exact rewritten_ok done
    · exact rewritten_ok done
  obtain ⟨node, cur, held, present, -, -, len, -⟩ := rewriteLinks_some rewrote
  have before : g.listAt 0 id = some cur := Option.bind_eq_some_iff.mpr ⟨node, held, present⟩
  have now : after.listAt 0 id = some (mutate cur) := by
    rw [rewriteLinks_listAt rewrote, if_pos ⟨rfl, rfl⟩, before]
    rfl
  rw [before] at linked
  obtain ⟨holder, there, at_⟩ := Option.bind_eq_some_iff.mp now
  obtain ⟨target, named, -⟩ :=
    ((layered.handle safe done).layered.links id holder 0 _ y there at_ linked).2
  exact (SegVec.get_lt_len named).trans_eq len

/-- Between publications, what is rewritten is calm. -/
theorem Current.calm {c : Census} (current : Current c) (layered : Layered c.graph) {d : Distances}
    {agent : Nat} {action : Hnsw.Action} (safe : c.graph.Safe action)
    (still : Still agent c (.index action)) : Calm d agent c (.index action) := by
  have admits : ∀ id mutate, action.rewrite d = some (id, 0, mutate) → c.Admits id mutate := by
    intro id mutate rewrites scan member from_ below y linked
    rw [current scan member (by omega)]
    exact rewrite_below layered safe rewrites y linked
  cases action with
  | publish id level => exact still.1
  | linkOwn id layer chosen =>
      rintro rfl
      exact admits id _ rfl
  | linkBack nb layer id max =>
      rintro rfl
      exact admits nb _ rfl
  | entry => trivial
  | claimEntry id level => trivial
  | raiseEntry id level => trivial
  | len => trivial
  | links id layer => trivial
  | distance base other => trivial
  | select candidates m => trivial

theorem Current.index {c : Census} (current : Current c) {d : Distances} {agent : Nat}
    {action : Hnsw.Action} {graph : Hnsw} {answer : Hnsw.Answer action}
    (still : Still agent c (.index action))
    (done : Hnsw.handle d agent c.graph action = .ok graph answer) :
    Current { c with graph := graph } := by
  intro scan member ahead
  rcases handle_nodes done with ⟨id, level, rfl, -⟩ | ⟨owner, layer, mutate, -, rewrote⟩ | nodes
  · exact absurd ahead (still.2 scan member).not_gt
  · obtain ⟨-, -, -, -, -, -, len, -⟩ := rewriteLinks_some rewrote
    exact (current scan member ahead).trans len.symm
  · exact (current scan member ahead).trans (congrArg SegVec.len nodes).symm

theorem Current.scan {c : Census} (current : Current c) {agent n i : Nat}
    (mine : i < n → n = c.graph.len) : Current (c.scan agent n i) := by
  intro scan member ahead
  rcases List.mem_cons.mp member with rfl | old
  · exact mine ahead
  · exact current scan (List.mem_of_mem_filter old) ahead

def Orderly (d : Distances) : Bool → Nat → Census → Action → Prop
  | false => Calm d
  | true => Still

structure Accounted (still : Bool) (c : Census) : Prop where
  filled : Filled c
  current : still = true → Current c

theorem Orderly.calm {still : Bool} {c : Census} (accounted : Accounted still c)
    (layered : Layered c.graph) {d : Distances} {agent : Nat} {action : Hnsw.Action}
    (safe : c.graph.Safe action) (orderly : Orderly d still agent c (.index action)) :
    Calm d agent c (.index action) := by
  cases still with
  | false => exact orderly
  | true => exact (accounted.current rfl).calm layered safe orderly

theorem Accounted.index {still : Bool} {c : Census} (accounted : Accounted still c)
    (layered : Layered c.graph) {d : Distances} {agent : Nat} {action : Hnsw.Action} {graph : Hnsw}
    {answer : Hnsw.Answer action} (safe : c.graph.Safe action)
    (orderly : Orderly d still agent c (.index action))
    (done : Hnsw.handle d agent c.graph action = .ok graph answer) :
    Accounted still { c with graph := graph } := by
  refine ⟨accounted.filled.index safe (orderly.calm accounted layered safe) done, ?_⟩
  rintro rfl
  exact (accounted.current rfl).index orderly done

/-! ### The discipline -/

def SameScans (mine : Nat → Prop) (c after : Census) : Prop :=
  ∀ scan : Scan, mine scan.agent → (scan ∈ after.scans ↔ scan ∈ c.scans)

def discipline (d : Distances) (still : Bool) (o : Owners) (before : Nat → Prop) :
    Discipline sig Census where
  inv c := Owned o before c.graph ∧ Accounted still c
  rely i c after := Leaves (o.owns i) c.graph after.graph ∧ SameScans (· = i) c after
  guar i c after := Leaves (fun id => ¬ o.owns i id) c.graph after.graph ∧ SameScans (· ≠ i) c after
  assumes := Orderly d still
  safe agent c action := ∃ after answer, handle d agent c action = .ok after answer
  mayStop := False
  rely_refl _ _ := ⟨⟨Grows.refl _, fun _ _ fresh => fresh⟩, fun _ _ => Iff.rfl⟩
  rely_trans first second := ⟨first.1.trans second.1, fun scan own =>
    (second.2 scan own).trans (first.2 scan own)⟩
  guar_rely different _ _ left :=
    ⟨⟨left.1.1, fun id own fresh => left.1.2 id (o.disjoint _ _ id (Ne.symm different) own) fresh⟩,
      fun scan own => left.2 scan (own ▸ Ne.symm different)⟩

variable {d : Distances} {still : Bool} {o : Owners} {before : Nat → Prop}

theorem handle_index {agent : Nat} {c : Census} {action : Hnsw.Action} {after : Census}
    {answer : Hnsw.Answer action} (done : handle d agent c (.index action) = .ok after answer) :
    Hnsw.handle d agent c.graph action = .ok after.graph answer ∧
      after = { c with graph := after.graph } := by
  simp only [handle] at done
  cases inner : Hnsw.handle d agent c.graph action with
  | ok graph value =>
      rw [inner] at done
      cases done
      exact ⟨rfl, rfl⟩
  | blocked => rw [inner] at done; cases done
  | fault => rw [inner] at done; cases done

theorem handle_answered {agent : Nat} {c : Census} {action : Hnsw.Action}
    (safe : c.graph.Safe action) :
    ∃ after answer, handle d agent c (.index action) = .ok after answer := by
  obtain ⟨graph, answer, done⟩ :
      ∃ graph answer, Hnsw.handle d agent c.graph action = .ok graph answer := safe.answered
  refine ⟨{ c with graph := graph }, answer, ?_⟩
  simp only [handle, done]

theorem discipline_hosts (i id : Nat) (config : HnswConfig) :
    Hosts (handle d) (discipline d still o before) i Census.graph config
      ⟨id, fun _ => o.owns i id, fun _ _ => True⟩ where
  layered kept := kept.1.layered
  grows moved := moved.1.1
  mine_stable _ own := own
  fresh moved own free := moved.1.2 id own free
  ready_stable _ _ := trivial
  ready_lower _ _ := trivial
  act action post s permitted posts := by
    apply Secure.act
    intro t moved kept orderly
    obtain ⟨safe, permits⟩ := permitted t moved kept
    refine ⟨handle_answered safe, ?_⟩
    intro u answer done
    obtain ⟨inner, whole⟩ := handle_index done
    have published : ∀ y level, action = .publish y level → o.owns i y := by
      rintro y level rfl
      obtain ⟨rfl, own⟩ := permits
      exact own
    obtain ⟨owned, leaves⟩ := kept.1.handle safe published inner
    refine ⟨⟨owned, ?_⟩, ⟨leaves, ?_⟩, ?_⟩
    · rw [whole]
      exact kept.2.index kept.1.layered safe orderly inner
    · intro scan _
      rw [whole]
    · apply Secure.ret
      intro v later keptLater
      refine posts t u answer v moved kept ⟨d, inner⟩ ?_ ?_ later keptLater
      · intro same
        rw [whole, same]
      · cases action <;> first | trivial | exact fun _ _ => trivial

theorem sameScans_scan (c : Census) (i n next : Nat) : SameScans (· ≠ i) c (c.scan i n next) := by
  intro other foreign
  unfold scan
  simp only [List.mem_cons, List.mem_filter, decide_eq_true_eq]
  constructor
  · rintro (rfl | ⟨old, -⟩)
    · exact absurd rfl foreign
    · exact old
  · exact fun old => .inr ⟨old, foreign⟩

theorem countFrom_secure {i n left : Nat} (from_ : Nat) (indeg : List Nat) {c : Census}
    (kept : (discipline d still o before).inv c) (mine : ⟨i, n, from_⟩ ∈ c.scans)
    (total : from_ + left = n) :
    Secure (handle d) (discipline d still o before) i (fun _ _ => True) (countFrom n left from_ indeg) c := by
  induction left generalizing from_ indeg c with
  | zero => exact Secure.ret fun _ _ _ => trivial
  | succ left ih =>
      apply Secure.perform_bind
      intro t moved keptThere _
      have scanned : ⟨i, n, from_⟩ ∈ t.scans := (moved.2 ⟨i, n, from_⟩ rfl).mpr mine
      have filledThere := keptThere.2.filled
      have le : n ≤ t.graph.len := filledThere.length _ scanned
      have below : from_ < n := by omega
      obtain ⟨node, held⟩ := Option.isSome_iff_exists.mp
        (filledThere.initialised from_ (below.trans_le le))
      have has : t.graph.HasLayer 0 from_ := ⟨node, held, Nat.zero_le _⟩
      obtain ⟨list, present⟩ := Option.isSome_iff_exists.mp (listAt_isSome.mpr has)
      have room := filledThere.room _ scanned from_ list le_rfl below present
      have done : handle d i t (.tally n from_) = .ok (t.scan i n (from_ + 1)) list := by
        simp only [handle, present]
        rw [if_pos room]
      refine ⟨⟨_, _, done⟩, ?_⟩
      intro u answer answered
      rw [done] at answered
      cases answered
      have filled : Filled (t.scan i n (from_ + 1)) := filledThere.scan le
        fun x cur after inside at_ =>
          filledThere.room _ scanned x cur (Nat.le_of_succ_le after) inside at_
      have accounted : Accounted still (t.scan i n (from_ + 1)) :=
        ⟨filled, fun same => (keptThere.2.current same).scan fun _ =>
          keptThere.2.current same _ scanned below⟩
      refine ⟨⟨keptThere.1, accounted⟩,
        ⟨⟨Grows.refl _, fun _ _ fresh => fresh⟩, sameScans_scan t i n (from_ + 1)⟩, ?_⟩
      exact ih (from_ + 1) (countLinks indeg list) ⟨keptThere.1, accounted⟩
        (List.mem_cons_self ..) (by omega)

theorem zeroIndegreeCount_secure {i : Nat} {c : Census} (kept : (discipline d still o before).inv c) :
    Secure (handle d) (discipline d still o before) i (fun _ _ => True) zeroIndegreeCount c := by
  have nodes : Secure (handle d) (discipline d still o before) i (fun _ _ => True) zeroIndegreeNodes c := by
    apply Secure.perform_bind
    intro t moved keptThere _
    refine ⟨⟨_, _, rfl⟩, ?_⟩
    intro u n answered
    cases answered
    have filled : Filled (t.scan i t.graph.len 0) := keptThere.2.filled.scan le_rfl (by
      intro x list _ _ present y linked
      obtain ⟨node, held, at_⟩ := Option.bind_eq_some_iff.mp present
      obtain ⟨target, there, -⟩ := (keptThere.1.layered.links x node 0 list y held at_ linked).2
      exact SegVec.get_lt_len there)
    have keptAfter : (discipline d still o before).inv (t.scan i t.graph.len 0) :=
      ⟨keptThere.1, filled, fun same => (keptThere.2.current same).scan fun _ => rfl⟩
    refine ⟨keptAfter, ⟨⟨Grows.refl _, fun _ _ fresh => fresh⟩, sameScans_scan t i _ 0⟩, ?_⟩
    apply Secure.bind keptAfter (countFrom_secure 0 _ keptAfter (List.mem_cons_self ..)
      (Nat.zero_add _))
    intro v indeg keptCount _
    apply Secure.perform_bind
    intro w _ keptLast _
    refine ⟨⟨_, _, rfl⟩, ?_⟩
    intro x packed answered
    cases answered
    refine ⟨keptLast, ⟨⟨Grows.refl _, fun _ _ fresh => fresh⟩, fun _ _ => Iff.rfl⟩, ?_⟩
    exact Secure.ret fun _ _ _ => trivial
  apply Secure.bind kept nodes
  intro t _ _ _
  exact Secure.ret fun _ _ _ => trivial

/-! ### Calls -/

inductive Call where
  | insert (id level : Nat) (visited : VisitedSet)
  | search (oracle : Nat → F32) (visited : VisitedSet) (k ef : Nat)
  | count

namespace Call

def program (config : HnswConfig) : Call → Prog sig (Option Nat)
  | .insert id level visited => do
      Hnsw.insert config id level visited
      pure none
  | .search oracle visited k ef => do
      let _ ← searchWithOracle (fun x => pure (oracle x)) visited k ef
      pure none
  | .count => do
      let number ← zeroIndegreeCount
      pure (some number)

def inserts : Call → Option Nat
  | .insert id _ _ => some id
  | _ => none

end Call

def startPool (g : Hnsw) (calls : List Call) : Pool sig Census (Option Nat) :=
  ⟨⟨g, []⟩, calls.map (Call.program g.config)⟩

def owners (calls : List Call) (distinct : (calls.filterMap Call.inserts).Nodup) : Owners where
  owns i id := (calls[i]?.bind Call.inserts) = some id
  disjoint := inserts_apart distinct

theorem startPool_guarded {config : HnswConfig} {g : Hnsw} {calls : List Call}
    (opened : Hnsw.new config = .ok g) (distinct : (calls.filterMap Call.inserts).Nodup)
    (inRange : ∀ id level visited, Call.insert id level visited ∈ calls →
      id < SegVec.CAPACITY ∧ level < 255) :
    (startPool g calls).Guarded (handle d) (discipline d still (owners calls distinct) fun _ => False)
      fun _ _ _ => True := by
  obtain ⟨layered, -, empty⟩ := layered_new opened
  have kept : (discipline d still (owners calls distinct) fun _ => False).inv ⟨g, []⟩ := by
    refine ⟨⟨layered, ?_⟩, ⟨?_, nofun, nofun⟩, nofun⟩
    · intro id present
      rw [empty id] at present
      cases present
    · intro x below
      unfold Hnsw.new at opened
      split at opened
      · cases opened
        exact absurd below (Nat.not_lt_zero x)
      · cases opened
  refine ⟨kept, ?_⟩
  intro i p atThread
  obtain ⟨call, atCall, rfl⟩ := Option.map_eq_some_iff.mp
    ((List.getElem?_map (f := Call.program g.config)).symm.trans atThread)
  cases call with
  | insert id level visited =>
      obtain ⟨inside, small⟩ := inRange id level visited (List.mem_of_getElem? atCall)
      have owned : (owners calls distinct).owns i id := Option.bind_eq_some_iff.mpr ⟨_, atCall, rfl⟩
      apply Secure.bind kept ((discipline_hosts i id g.config).insert_secure level visited kept owned
        (empty id) inside small)
      intro t _ _ _
      exact Secure.ret fun _ _ _ => trivial
  | search oracle visited k ef =>
      apply Secure.bind kept ((discipline_hosts i 0 g.config).searchWithOracle_secure
        (fun s x _ _ => Hosts.pure_oracle oracle s x) visited k ef kept)
      intro t _ _ _
      exact Secure.ret fun _ _ _ => trivial
  | count =>
      apply Secure.bind kept (zeroIndegreeCount_secure kept)
      intro t _ _ _
      exact Secure.ret fun _ _ _ => trivial

/-- No node below the length is missing, every count is about to read a list that is there, and to
raise only entries of its vector. -/
def WithinNodes (pool : Pool sig Census (Option Nat)) : Prop :=
  (∀ x < pool.state.graph.len, (pool.state.graph.nodes.get x).isSome = true) ∧
    ∀ (i n x : Nat) next, pool.threads[i]? = some (.act (S := sig) (.tally n x) next) →
      ∃ list, pool.state.graph.listAt 0 x = some list ∧ ∀ nb ∈ list, nb < n

/-- In every interleaving of inserts, searches and counts, no node below the length is missing, and
a count reads only nodes that are there and only raises entries of its vector, if all steps are
calm or no count is interrupted by a publication. -/
theorem count_within_nodes (d : Distances) {config : HnswConfig} {g : Hnsw} {calls : List Call}
    {schedule : List Nat} {reached : Pool sig Census (Option Nat)}
    (opened : Hnsw.new config = .ok g) (distinct : (calls.filterMap Call.inserts).Nodup)
    (inRange : ∀ id level visited, Call.insert id level visited ∈ calls →
      id < SegVec.CAPACITY ∧ level < 255)
    (orderly : (startPool g calls).Meets (handle d) (Calm d) schedule ∨
      (startPool g calls).Meets (handle d) Still schedule)
    (ran : (startPool g calls).runs (handle d) schedule = some reached) : WithinNodes reached := by
  have within : ∀ still, (startPool g calls).Meets (handle d) (Orderly d still) schedule →
      WithinNodes reached := by
    intro still meets
    have guarded := (startPool_guarded opened distinct inRange).runs ran meets
    refine ⟨guarded.inv.2.filled.initialised, ?_⟩
    intro i n x next atThread
    have assumed : Orderly d still i reached.state (.tally n x) := by
      cases still <;> trivial
    obtain ⟨after, answer, done⟩ := guarded.safe atThread assumed
    simp only [handle] at done
    split at done
    · cases done
    · rename_i list present
      split at done
      · rename_i room
        exact ⟨list, present, room⟩
      · cases done
  rcases orderly with calm | still
  · exact within false calm
  · exact within true still

def overtaken : List Call :=
  [.insert 0 0 VisitedSet.new, .insert 1 0 VisitedSet.new, .count]

def tallying : Prog sig (Option Nat) → Option (Nat × Nat)
  | .act (.tally n x) _ => some (n, x)
  | _ => none

theorem tallying_some {p : Prog sig (Option Nat)} {n x : Nat} (here : tallying p = some (n, x)) :
    ∃ next, p = .act (S := sig) (.tally n x) next := by
  unfold tallying at here
  split at here
  · cases here
    exact ⟨_, rfl⟩
  · cases here

/-- Either the insert of id 1 publishes its node first, or it links to node 0 when the count has
already taken the length 1. -/
theorem count_overtaken :
    (¬ ∀ reached, (startPool raceIndex overtaken).runs (handle fun a b => F32.ofNat (a + b))
      [1, 2] = some reached → WithinNodes reached) ∧
    ¬ ∀ reached, (startPool raceIndex overtaken).runs (handle fun a b => F32.ofNat (a + b))
      ([0, 0, 0, 2] ++ List.replicate 10 1) = some reached → WithinNodes reached := by
  constructor
  · intro all
    have missing : ((startPool raceIndex overtaken).runs (handle fun a b => F32.ofNat (a + b))
        [1, 2]).map (fun pool => (pool.state.graph.len, (pool.state.graph.nodes.get 0).isSome)) =
        some (2, false) := by decide +kernel
    obtain ⟨reached, ran, shown⟩ := Option.map_eq_some_iff.mp missing
    obtain ⟨length, absent⟩ := Prod.mk.inj shown
    have there := (all reached ran).1 0 (by omega)
    rw [absent] at there
    cases there
  · intro all
    have outgrown : ((startPool raceIndex overtaken).runs (handle fun a b => F32.ofNat (a + b))
        ([0, 0, 0, 2] ++ List.replicate 10 1)).map (fun pool =>
          (pool.state.graph.listAt 0 0, pool.threads[2]?.bind tallying)) =
        some (some [1], some (1, 0)) := by decide +kernel
    obtain ⟨reached, ran, shown⟩ := Option.map_eq_some_iff.mp outgrown
    obtain ⟨listed, pending⟩ := Prod.mk.inj shown
    obtain ⟨p, atThread, here⟩ := Option.bind_eq_some_iff.mp pending
    obtain ⟨next, rfl⟩ := tallying_some here
    obtain ⟨list, present, room⟩ := (all reached ran).2 2 1 0 next atThread
    rw [listed] at present
    cases present
    exact absurd (room 1 (List.mem_singleton_self 1)) (by decide)

theorem raceIndex_new : Hnsw.new ⟨2, 4, .l2⟩ = .ok raceIndex := rfl

/-- The count takes its length when both ids are published, and insert 1 links while it runs: the
list of node 0 is rewritten and then read. Or the count takes the length 1 and looks at node 0, id 1
being published in between, before insert 1 links to it. -/
theorem count_within_nodes_inOrder :
    (∃ reached, (startPool raceIndex overtaken).runs (handle fun a b => F32.ofNat (a + b))
      ([0, 0, 0, 1, 2] ++ List.replicate 9 1 ++ [2]) = some reached ∧
      reached.state.graph.listAt 0 0 = some [1] ∧
      reached.threads[2]?.bind tallying = some (2, 1) ∧ WithinNodes reached) ∧
    ∃ reached, (startPool raceIndex overtaken).runs (handle fun a b => F32.ofNat (a + b))
      ([0, 0, 0, 2, 1, 2] ++ List.replicate 9 1) = some reached ∧ WithinNodes reached := by
  have inRange : ∀ id level visited, Call.insert id level visited ∈ overtaken →
      id < SegVec.CAPACITY ∧ level < 255 := by
    intro id level visited member
    simp only [overtaken, List.mem_cons, Call.insert.injEq, reduceCtorEq, List.not_mem_nil,
      or_false] at member
    rw [SegVec.CAPACITY_eq]
    omega
  constructor
  · have read : ((startPool raceIndex overtaken).runs (handle fun a b => F32.ofNat (a + b))
        ([0, 0, 0, 1, 2] ++ List.replicate 9 1 ++ [2])).map (fun pool =>
          (pool.state.graph.listAt 0 0, pool.threads[2]?.bind tallying)) =
        some (some [1], some (2, 1)) := by decide +kernel
    obtain ⟨reached, ran, shown⟩ := Option.map_eq_some_iff.mp read
    obtain ⟨listed, pending⟩ := Prod.mk.inj shown
    exact ⟨reached, ran, listed, pending, count_within_nodes _ raceIndex_new (by decide) inRange
      (.inr (by decide +kernel)) ran⟩
  · have finishes : ((startPool raceIndex overtaken).runs (handle fun a b => F32.ofNat (a + b))
        ([0, 0, 0, 2, 1, 2] ++ List.replicate 9 1)).isSome = true := by decide +kernel
    obtain ⟨reached, ran⟩ := Option.isSome_iff_exists.mp finishes
    exact ⟨reached, ran, count_within_nodes _ raceIndex_new (by decide) inRange
      (.inl (by decide +kernel)) ran⟩

end Census

end Hnsw

end Vektordb
