import Vektordb.Hnsw.Degree

/-!
Inserts one at a time. Alone on the index an insert finds its own lists empty, so its steps
fit, it always finishes, and what it leaves does not depend on the visited set it was given
or on any distance but those between stored vectors. `build` is the graph of one insert after
another, and `Sound` what recovery keeps of it.
-/

namespace Vektordb

open Interaction

namespace Hnsw

/-! ### The visited set of the thread -/

section VisitedSet

variable {T : Sig} {α : Type}

theorem scanLinks_same (dist : Nat → Prog T F32) (ef : Nat)
    {rest rest' : VisitedSet × Heap × Heap → Prog T α}
    (same : ∀ v w candidates results, VisitedSet.Same v w →
      rest (v, candidates, results) = rest' (w, candidates, results))
    (list : List Nat) {v w : VisitedSet} (marks : VisitedSet.Same v w)
    (candidates results : Heap) :
    (scanLinks dist ef list v candidates results >>= rest) =
      (scanLinks dist ef list w candidates results >>= rest') := by
  induction list generalizing v w candidates results with
  | nil => exact same v w candidates results marks
  | cons next tail ih =>
      obtain ⟨seen, marksAfter⟩ := marks.mark next
      unfold scanLinks
      dsimp only
      rw [seen]
      split
      · exact ih marksAfter candidates results
      · rw [Prog.bind_assoc, Prog.bind_assoc]
        congr 1
        funext value
        split
        · exact ih marksAfter _ _
        · exact ih marksAfter candidates results

variable [Supports sig T]

theorem searchLoop_same (dist : Nat → Prog T F32) (ef layer : Nat)
    {rest rest' : VisitedSet × Heap → Prog T α}
    (same : ∀ v w results, rest (v, results) = rest' (w, results))
    (fuel : Nat) {v w : VisitedSet} (marks : VisitedSet.Same v w) (candidates results : Heap) :
    (searchLoop dist ef layer fuel v candidates results >>= rest) =
      (searchLoop dist ef layer fuel w candidates results >>= rest') := by
  induction fuel generalizing v w candidates results with
  | zero => rfl
  | succ fuel ih =>
      cases candidates with
      | nil => exact same v w results
      | cons current others =>
          unfold searchLoop
          dsimp only
          split
          · exact same v w results
          · rw [Prog.bind_assoc, Prog.bind_assoc]
            congr 1
            funext list
            rw [Prog.bind_assoc, Prog.bind_assoc]
            exact scanLinks_same dist ef
              (fun v' w' candidates' results' marks' => ih marks' candidates' results')
              list marks others results

/-- A search starts a pass of its own, so it does not see what earlier ones left. -/
theorem searchLayer_same (dist : Nat → Prog T F32) (v w : VisitedSet) (entry ef layer : Nat)
    {rest rest' : VisitedSet × Heap → Prog T α}
    (same : ∀ v w results, rest (v, results) = rest' (w, results)) :
    (searchLayer dist v entry ef layer >>= rest) =
      (searchLayer dist w entry ef layer >>= rest') := by
  unfold searchLayer
  rw [Prog.bind_assoc, Prog.bind_assoc]
  congr 1
  funext n
  dsimp only
  rw [Prog.bind_assoc, Prog.bind_assoc]
  congr 1
  funext value
  exact searchLoop_same dist ef layer same searchBound
    ((VisitedSet.Same.beginPass v w n).mark entry).2 _ _

theorem connectLayer_same (config : HnswConfig) (id layer : Nat) (v w : VisitedSet) (ep : Nat)
    {rest rest' : VisitedSet × Nat → Prog T α}
    (same : ∀ v w ep, rest (v, ep) = rest' (w, ep)) :
    (connectLayer config id layer v ep >>= rest) =
      (connectLayer config id layer w ep >>= rest') := by
  unfold connectLayer
  rw [Prog.bind_assoc, Prog.bind_assoc]
  refine searchLayer_same _ v w ep config.efConstruction layer fun v' w' results => ?_
  simp only [Prog.bind_assoc]
  congr 1
  funext chosen
  congr 1
  funext _
  congr 1
  funext _
  exact same v' w' _

theorem connectLayers_same (config : HnswConfig) (id layer : Nat) (v w : VisitedSet) (ep : Nat) :
    (connectLayers config id layer v ep : Prog T Unit) = connectLayers config id layer w ep := by
  induction layer generalizing v w ep with
  | zero => exact connectLayer_same config id 0 v w ep fun _ _ _ => rfl
  | succ layer ih => exact connectLayer_same config id (layer + 1) v w ep fun v' w' ep' => ih v' w' ep'

theorem insert_same (config : HnswConfig) (id level : Nat) (v w : VisitedSet) :
    (insert config id level v : Prog T Unit) = insert config id level w := by
  have linked : ∀ v w, (link config id level v : Prog T Unit) = link config id level w := by
    intro v w
    unfold link
    simp only [connectLayers_same config id _ v w]
  unfold insert
  simp only [linked v w]

theorem searchWithOracle_same (dist : Nat → Prog T F32) (v w : VisitedSet) (k ef : Nat) :
    searchWithOracle dist v k ef = searchWithOracle dist w k ef := by
  unfold searchWithOracle
  congr 1
  funext packed
  split
  · rfl
  · dsimp only
    congr 1
    funext d
    congr 1
    funext found
    exact searchLayer_same dist v w found.1 (max ef k) 0 fun _ _ _ => rfl

end VisitedSet

/-! ### Alone on the index -/

def Dense (n : Nat) (g : Hnsw) : Prop :=
  g.len = n ∧ ∀ id, (g.nodes.get id).isSome = true ↔ id < n

def Unlinked (id k : Nat) (g : Hnsw) : Prop :=
  ∀ layer < k, ∀ node list, g.nodes.get id = some node → node.links[layer]? = some list → list = []

/-- Agent 0 inserts `n` into the graph `first` and nobody else acts. -/
structure Alone (n : Nat) (first g : Hnsw) : Prop where
  layered : Layered g
  bounded : Bounded first → Bounded g
  grows : Grows first g
  dense : Dense n first → Dense n g ∨ Dense (n + 1) g

def aloneClaim (n : Nat) : Claim Hnsw := ⟨n, fun _ => True, fun k g => Unlinked n k g⟩

def aloneDiscipline (n : Nat) (first : Hnsw) : Discipline sig Hnsw where
  inv := Alone n first
  rely i s t := i = 0 → s = t
  guar i s t := i ≠ 0 → s = t
  assumes _ _ _ := True
  safe _ g action := g.Safe action ∧ (aloneClaim n).permits g.config g action
  mayStop := False
  rely_refl _ _ _ := rfl
  rely_trans first second agent := (first agent).trans (second agent)
  guar_rely different _ _ kept agent := kept fun same => different (same.trans agent.symm)

theorem Dense.publish {n level : Nat} {g : Hnsw} {nodes : SegVec Node} (dense : Dense n g)
    (done : g.nodes.set n (Node.new level) = some nodes) :
    Dense (n + 1) { g with nodes := nodes } := by
  obtain ⟨-, len, get⟩ := SegVec.set_some done
  refine ⟨?_, fun id => ?_⟩
  · show nodes.len = n + 1
    have before : g.nodes.len = n := dense.1
    omega
  · show (nodes.get id).isSome = true ↔ id < n + 1
    rw [get]
    split
    · rename_i same
      simp only [Option.isSome_some, same, true_iff]
      omega
    · rw [dense.2 id]
      omega

theorem Dense.rewrite {n id layer : Nat} {g after : Hnsw} {mutate : List Nat → List Nat}
    (dense : Dense n g) (done : g.rewriteLinks id layer mutate = some after) : Dense n after := by
  obtain ⟨node, cur, held, -, -, -, len, get⟩ := rewriteLinks_some done
  refine ⟨len.trans dense.1, fun x => ?_⟩
  rw [get]
  split
  · rename_i same
    rw [← dense.2, same, held]
    rfl
  · exact dense.2 x

theorem Unlinked.rewrite {id nb layer k : Nat} {g after : Hnsw} {mutate : List Nat → List Nat}
    (unlinked : Unlinked id k g) (apart : nb = id → k ≤ layer)
    (done : g.rewriteLinks nb layer mutate = some after) : Unlinked id k after := by
  obtain ⟨node, cur, held, -, -, -, -, get⟩ := rewriteLinks_some done
  intro l below n list heldThere present
  rw [get] at heldThere
  split at heldThere
  · rename_i same
    cases heldThere
    have other : l ≠ layer := by
      have bound := apart same.symm
      omega
    rw [Node.getElem?_store, if_neg other] at present
    exact unlinked l below node list (same ▸ held) present
  · exact unlinked l below n list heldThere present

theorem Unlinked.publish {id level : Nat} {g : Hnsw} {nodes : SegVec Node} (k : Nat)
    (done : g.nodes.set id (Node.new level) = some nodes) :
    Unlinked id k { g with nodes := nodes } := by
  intro l _ node list held present
  simp only [(SegVec.set_some done).2.2, if_true] at held
  cases held
  exact List.eq_of_mem_replicate (List.mem_of_getElem? present)

theorem Unlinked.fits {id layer : Nat} {g : Hnsw} {chosen : List Nat}
    (unlinked : Unlinked id (layer + 1) g) (few : chosen.length ≤ g.config.m) :
    Fits g (.linkOwn id layer chosen) :=
  fits_empty (fun node cur => unlinked layer (Nat.lt_succ_self layer) node cur) few

theorem Dense.setEntry {n : Nat} {g : Hnsw} (dense : Dense n g) (entry : Nat) :
    Dense n { g with entry := entry } := ⟨dense.1, dense.2⟩

theorem Unlinked.setEntry {id k : Nat} {g : Hnsw} (unlinked : Unlinked id k g) (entry : Nat) :
    Unlinked id k { g with entry := entry } :=
  fun layer below node list held present => unlinked layer below node list held present

theorem Dense.handle {n : Nat} {g after : Hnsw} (dense : Dense n g ∨ Dense (n + 1) g)
    {d : Distances} {agent : Nat} {action : Action} {answer : Answer action} (safe : g.Safe action)
    (permits : (aloneClaim n).permits g.config g action)
    (done : handle d agent g action = .ok after answer) :
    Dense n after ∨ Dense (n + 1) after := by
  cases action with
  | publish id level =>
      obtain rfl : id = n := permits.1
      have before : Dense id g := dense.resolve_right fun published => by
        have there := (published.2 id).mpr (Nat.lt_succ_self id)
        have free : g.nodes.get id = none := safe.1
        rw [free] at there
        cases there
      simp only [Hnsw.handle] at done
      split at done
      · rename_i nodes set
        cases done
        exact .inr (before.publish set)
      · cases done
  | entry => cases done; exact dense
  | claimEntry id level =>
      simp only [Hnsw.handle] at done
      split at done
      · cases done
        exact dense.imp (fun before => before.setEntry _) fun before => before.setEntry _
      · cases done; exact dense
  | raiseEntry id level =>
      simp only [Hnsw.handle] at done
      split at done
      · cases done
        exact dense.imp (fun before => before.setEntry _) fun before => before.setEntry _
      · cases done; exact dense
  | len => cases done; exact dense
  | links id layer =>
      simp only [Hnsw.handle] at done
      split at done
      · cases done; exact dense
      · cases done
  | distance base other => cases done; exact dense
  | select candidates m => cases done; exact dense
  | linkOwn id layer chosen =>
      have rewrote := rewritten_ok done
      exact dense.imp (fun before => before.rewrite rewrote) fun before => before.rewrite rewrote
  | linkBack nb layer id max =>
      have rewrote := rewritten_ok done
      exact dense.imp (fun before => before.rewrite rewrote) fun before => before.rewrite rewrote

theorem Unlinked.handle {n : Nat} {g after : Hnsw} {d : Distances} {agent : Nat} {action : Action}
    {answer : Answer action} (safe : g.Safe action)
    (permits : (aloneClaim n).permits g.config g action)
    (done : handle d agent g action = .ok after answer) : (aloneClaim n).leaves g after action := by
  cases action with
  | publish id level =>
      obtain rfl : id = n := permits.1
      simp only [Hnsw.handle] at done
      split at done
      · rename_i nodes set
        cases done
        exact Unlinked.publish (level + 1) set
      · cases done
  | entry => cases done; exact fun _ ready => ready
  | claimEntry id level =>
      simp only [Hnsw.handle] at done
      split at done
      · cases done; exact fun _ ready => ready.setEntry _
      · cases done; exact fun _ ready => ready
  | raiseEntry id level =>
      simp only [Hnsw.handle] at done
      split at done
      · cases done; exact fun _ ready => ready.setEntry _
      · cases done; exact fun _ ready => ready
  | len => cases done; exact fun _ ready => ready
  | links id layer =>
      simp only [Hnsw.handle] at done
      split at done
      · cases done; exact fun _ ready => ready
      · cases done
  | distance base other => cases done; exact fun _ ready => ready
  | select candidates m => cases done; exact fun _ ready => ready
  | linkOwn id layer chosen =>
      obtain rfl : id = n := permits.1
      have unlinked : Unlinked id (layer + 1) g := permits.2.1
      have below : Unlinked id layer g := fun l less => unlinked l (Nat.lt_succ_of_lt less)
      exact below.rewrite (fun _ => le_rfl) (rewritten_ok done)
  | linkBack nb layer id max =>
      obtain rfl : id = n := permits.1
      exact fun k ready => Unlinked.rewrite ready (fun same => absurd same safe.1) (rewritten_ok done)

theorem aloneClaim_chosen {n : Nat} {g : Hnsw} {action : Action}
    (permits : (aloneClaim n).permits g.config g action) : Chosen g.config action := by
  cases action <;> try trivial
  · exact permits.2.2
  · exact permits.2

theorem aloneDiscipline_hosts (d : Distances) (n : Nat) (first : Hnsw) :
    Hosts (handle d) (aloneDiscipline n first) 0 (fun g => g) first.config (aloneClaim n) where
  layered kept := kept.layered
  grows moved := moved rfl ▸ Grows.refl _
  mine_stable _ own := own
  fresh moved _ free := moved rfl ▸ free
  ready_stable moved ready := moved rfl ▸ ready
  ready_lower le ready := fun layer below => ready layer (below.trans_le le)
  act action post s permitted posts := by
    refine Secure.act fun t moved alone _ => ?_
    obtain ⟨safe, permits⟩ := permitted t moved alone
    have sameConfig : t.config = first.config := alone.grows.config
    rw [← sameConfig] at permits
    have fits : Fits t action := by
      cases action <;> try trivial
      exact permits.1 ▸ Unlinked.fits permits.2.1 permits.2.2.2
    have chosen := aloneClaim_chosen permits
    refine ⟨⟨safe, permits⟩, fun u answer done => ?_⟩
    have advances := alone.layered.handle safe done
    refine ⟨⟨advances.layered, fun bounded => ((alone.bounded bounded).handle_iff chosen done).mpr fits,
      alone.grows.trans advances.grows, fun dense => Dense.handle (alone.dense dense) safe permits done⟩,
      fun other => absurd rfl other, ?_⟩
    exact Secure.ret fun v later keptLater =>
      posts t u answer v moved alone ⟨d, done⟩ (fun same => same)
        (Unlinked.handle safe permits done) later keptLater

theorem insert_kept (d : Distances) {id level : Nat} {g : Hnsw} (visited : VisitedSet)
    (layered : Layered g) (free : g.nodes.get id = none)
    (inside : id < SegVec.CAPACITY) (small : level < 255) :
    ∃ after, (insert g.config id level visited).run (handle d) 0 g = .done after () ∧
      Alone id g after ∧ Inserted after id level ∧
      (insert g.config id level visited).Along (handle d) 0
        (fun t action => Alone id g t ∧ t.Safe action ∧
          (aloneClaim id).permits t.config t action) g := by
  have alone : Alone id g g := ⟨layered, fun bounded => bounded, Grows.refl g, .inl⟩
  have secure := (aloneDiscipline_hosts d id g).insert_secure level visited alone trivial free
    inside small
  have assumed : (insert g.config id level visited).Along (handle d) 0
      ((aloneDiscipline id g).assumes 0) g := Prog.Along.always (fun _ _ => trivial) _ g
  obtain ⟨after, value, ran, kept, inserted⟩ := secure.run_done alone assumed (fun same => same)
    fun t action _ safe => safe.1.answered
  exact ⟨after, ran, kept, inserted, secure.along alone assumed⟩

theorem Dense.free {n : Nat} {g : Hnsw} (dense : Dense n g) : g.nodes.get n = none := by
  have absent := (dense.2 n).not.mpr (Nat.lt_irrefl n)
  exact Option.not_isSome_iff_eq_none.mp absent

theorem Alone.inserted {n level : Nat} {first after : Hnsw} (kept : Alone n first after)
    (dense : Dense n first) (inserted : Inserted after n level) : Dense (n + 1) after := by
  refine (kept.dense dense).resolve_left fun before => ?_
  obtain ⟨node, held, -⟩ := inserted.1
  have absent := before.free
  rw [show after.nodes.get n = some node from held] at absent
  cases absent

theorem insert_alone (d : Distances) {n level : Nat} {g : Hnsw} (visited : VisitedSet)
    (layered : Layered g) (bounded : Bounded g) (dense : Dense n g)
    (inside : n < SegVec.CAPACITY) (small : level < 255) :
    ∃ after, (insert g.config n level visited).run (handle d) 0 g = .done after () ∧
      Layered after ∧ Bounded after ∧ Dense (n + 1) after ∧ Grows g after ∧
      Inserted after n level ∧
      (insert g.config n level visited).Along (handle d) 0 (fun t action => Layered t ∧
        t.Safe action ∧ (Dense n t ∨ Dense (n + 1) t)) g := by
  obtain ⟨after, ran, kept, inserted, along⟩ :=
    insert_kept d visited layered dense.free inside small
  exact ⟨after, ran, kept.layered, kept.bounded bounded, kept.inserted dense inserted, kept.grows, inserted,
    along.mono fun t action held => ⟨held.1.layered, held.2.1, held.1.dense dense⟩⟩

/-! ### Locality -/

/-- Two metrics that agree on the published ids make no difference to a safe action. -/
theorem handle_congr {d d' : Distances} {g : Hnsw} (layered : Layered g)
    (agree : ∀ a b, g.HasLayer 0 a → g.HasLayer 0 b → d a b = d' a b) (agent : Nat)
    {action : Action} (safe : g.Safe action) :
    handle d agent g action = handle d' agent g action := by
  cases action with
  | publish id level => rfl
  | entry => rfl
  | claimEntry id level => rfl
  | raiseEntry id level => rfl
  | len => rfl
  | links id layer => rfl
  | distance base other => simp only [handle, agree base other safe.1 safe.2]
  | select candidates m => simp only [handle, selectNeighbors_congr agree candidates m safe]
  | linkOwn id layer chosen => rfl
  | linkBack nb layer id max =>
      obtain ⟨node, held, le⟩ := safe.2.1
      simp only [handle, rewriteLinks, held]
      cases present : node.links[layer]? with
      | none => rfl
      | some cur =>
          have listed : ∀ x ∈ cur, g.HasLayer 0 x := fun x member =>
            (layered.links nb node layer cur x held present member).2.lower (Nat.zero_le layer)
          have same := backLinks_congr max agree (safe.2.1.lower (Nat.zero_le layer))
            (safe.2.2.lower (Nat.zero_le layer)) listed
          simp only [same]

def AgreeBelow (n : Nat) (d d' : Distances) : Prop := ∀ a b, a < n → b < n → d a b = d' a b

theorem AgreeBelow.mono {m n : Nat} {d d' : Distances} (agree : AgreeBelow n d d') (le : m ≤ n) :
    AgreeBelow m d d' := fun a b left right => agree a b (by omega) (by omega)

theorem insert_congr {d d' : Distances} {n level : Nat} {g : Hnsw} (visited visited' : VisitedSet)
    (layered : Layered g) (bounded : Bounded g) (dense : Dense n g)
    (inside : n < SegVec.CAPACITY) (small : level < 255) (agree : AgreeBelow (n + 1) d d') :
    (insert g.config n level visited).run (handle d) 0 g =
      (insert g.config n level visited').run (handle d') 0 g := by
  obtain ⟨after, -, -, -, -, -, -, along⟩ :=
    insert_alone d visited layered bounded dense inside small
  rw [insert_same g.config n level visited' visited]
  refine Prog.run_congr (along.mono fun t action ⟨layeredThere, safe, denseThere⟩ =>
    handle_congr layeredThere (fun a b hasA hasB => ?_) 0 safe)
  have below : ∀ {x}, t.HasLayer 0 x → x < n + 1 := by
    rintro x ⟨node, held, -⟩
    have published : (t.nodes.get x).isSome = true := by rw [held]; rfl
    rcases denseThere with before | after
    · exact Nat.lt_succ_of_lt ((before.2 x).mp published)
    · exact (after.2 x).mp published
  exact agree a b (below hasA) (below hasB)

/-! ### One insert after another -/

def insertAlone (d : Distances) (level : Nat → Nat) (id : Nat) (g : Hnsw) : Option Hnsw :=
  match (insert g.config id (level id) VisitedSet.new).run (handle d) 0 g with
  | .done after _ => some after
  | _ => none

/-- The ids below `n`, inserted one after another into a fresh index. -/
def build (d : Distances) (level : Nat → Nat) (config : HnswConfig) : Nat → Option Hnsw
  | 0 => (Hnsw.new config).toOption
  | n + 1 => (build d level config n).bind (insertAlone d level n)

/-- What holds of the graph of `n` stored vectors, however its inserts were spread over
sessions, snapshots and replays. -/
structure Sound (d : Distances) (level : Nat → Nat) (config : HnswConfig) (n : Nat) (g : Hnsw) :
    Prop where
  layered : Layered g
  bounded : Bounded g
  dense : Dense n g
  levels : ∀ id < n, g.HasLevel id (level id)
  m : g.config.m = config.m
  metric : g.config.metric = config.metric
  exactly : config.efConstruction < 2 ^ 32 → build d level config n = some g

theorem sound_new {config : HnswConfig} {g : Hnsw} (opened : Hnsw.new config = .ok g)
    (d : Distances) (level : Nat → Nat) : Sound d level config 0 g where
  layered := (layered_new opened).1
  bounded := bounded_new opened
  dense := by
    refine ⟨?_, fun id => ?_⟩
    · unfold Hnsw.new at opened
      split at opened <;> cases opened
      rfl
    · rw [(layered_new opened).2.2 id]
      simp
  levels id below := absurd below (Nat.not_lt_zero id)
  m := by rw [(layered_new opened).2.1]
  metric := by rw [(layered_new opened).2.1]
  exactly _ := by simp only [build, opened, Except.toOption]

theorem Sound.inserted {d : Distances} {level : Nat → Nat} {config : HnswConfig} {n : Nat}
    {g : Hnsw} (sound : Sound d level config n g) (inside : n < SegVec.CAPACITY)
    (small : level n < 255) : ∃ after, insertAlone d level n g = some after ∧
      Sound d level config (n + 1) after := by
  obtain ⟨after, ran, layered, bounded, dense, grows, inserted, -⟩ :=
    insert_alone d VisitedSet.new sound.layered sound.bounded sound.dense inside small
  have done : insertAlone d level n g = some after := by
    unfold insertAlone
    rw [ran]
  refine ⟨after, done, ⟨layered, bounded, dense, fun id below => ?_, ?_, ?_, fun fits => ?_⟩⟩
  · rcases Nat.lt_succ_iff_lt_or_eq.mp below with old | rfl
    · exact grows.level id _ (sound.levels id old)
    · exact inserted.1
  · rw [grows.config, sound.m]
  · rw [grows.config, sound.metric]
  · simp only [build, sound.exactly fits, Option.bind_some, done]

theorem Sound.insert {d d' : Distances} {level : Nat → Nat} {config : HnswConfig} {n : Nat}
    {g : Hnsw} (sound : Sound d level config n g) (inside : n < SegVec.CAPACITY)
    (small : level n < 255) (agree : AgreeBelow (n + 1) d d') (visited : VisitedSet) :
    ∃ after, (Hnsw.insert g.config n (level n) visited).run (handle d') 0 g = .done after () ∧
      Sound d level config (n + 1) after := by
  obtain ⟨after, done, soundAfter⟩ := sound.inserted inside small
  refine ⟨after, ?_, soundAfter⟩
  rw [← insert_congr VisitedSet.new visited sound.layered sound.bounded sound.dense inside small
    agree]
  unfold insertAlone at done
  split at done
  · rename_i ran
    cases done
    exact ran
  · cases done

theorem Sound.insert_config {d d' : Distances} {level : Nat → Nat} {config : HnswConfig} {n : Nat}
    {g after : Hnsw} (sound : Sound d level config n g) (inside : n < SegVec.CAPACITY)
    (small : level n < 255) {visited : VisitedSet}
    (ran : (Hnsw.insert g.config n (level n) visited).run (handle d') 0 g = .done after ()) :
    after.config = g.config := by
  obtain ⟨other, done, -, -, -, grows, -⟩ :=
    insert_alone d' visited sound.layered sound.bounded sound.dense inside small
  rw [ran] at done
  cases done
  exact grows.config

theorem insertAlone_full (d : Distances) (level : Nat → Nat) {id : Nat}
    (full : SegVec.CAPACITY ≤ id) (g : Hnsw) : insertAlone d level id g = none := by
  have refused : g.nodes.set id (Node.new (level id)) = none := by
    unfold SegVec.set
    rw [dif_neg]
    rw [SegVec.segment_lt_iff]
    exact Nat.not_lt.mpr full
  have faults : (insert g.config id (level id) VisitedSet.new).run (handle d) 0 g = .faulted := by
    show Prog.run (handle d) 0 (.act (.publish id (level id) : Action) _) g = _
    simp only [Prog.run, handle, refused]
  unfold insertAlone
  rw [faults]

theorem build_sound {d : Distances} {level : Nat → Nat} {config : HnswConfig} {n : Nat} {g : Hnsw}
    (small : ∀ id, level id < 255) (built : build d level config n = some g) :
    Sound d level config n g ∧ n ≤ SegVec.CAPACITY := by
  induction n generalizing g with
  | zero =>
      cases opened : Hnsw.new config with
      | error e => simp only [build, opened, Except.toOption, reduceCtorEq] at built
      | ok first =>
          simp only [build, opened, Except.toOption, Option.some.injEq] at built
          subst built
          exact ⟨sound_new opened d level, Nat.zero_le _⟩
  | succ n ih =>
      obtain ⟨before, builtBefore, done⟩ := Option.bind_eq_some_iff.mp built
      obtain ⟨sound, -⟩ := ih builtBefore
      by_cases inside : n < SegVec.CAPACITY
      · obtain ⟨after, same, soundAfter⟩ := sound.inserted inside (small n)
        rw [done] at same
        cases same
        exact ⟨soundAfter, inside⟩
      · rw [insertAlone_full d level (Nat.le_of_not_lt inside)] at done
        cases done

theorem build_config {d : Distances} {level : Nat → Nat} {config : HnswConfig} {n : Nat}
    {g : Hnsw} (small : ∀ id, level id < 255) (built : build d level config n = some g) :
    g.config = config ∧ 2 ≤ config.m ∧ config.m ≤ 4096 := by
  induction n generalizing g with
  | zero =>
      simp only [build, Hnsw.new] at built
      split at built
      · rename_i valid
        cases built
        exact ⟨rfl, valid⟩
      · cases built
  | succ n ih =>
      obtain ⟨before, builtBefore, done⟩ := Option.bind_eq_some_iff.mp built
      obtain ⟨sound, -⟩ := build_sound small builtBefore
      obtain ⟨same, valid⟩ := ih builtBefore
      by_cases inside : n < SegVec.CAPACITY
      · obtain ⟨after, ran, -, -, -, grows, -⟩ := insert_alone d VisitedSet.new sound.layered
          sound.bounded sound.dense inside (small n)
        unfold insertAlone at done
        rw [ran] at done
        cases done
        exact ⟨grows.config.trans same, valid⟩
      · rw [insertAlone_full d level (Nat.le_of_not_lt inside)] at done
        cases done

/-- A graph built from the first `n` vectors does not depend on the later ones. -/
theorem build_congr {d d' : Distances} {level : Nat → Nat} {config : HnswConfig} {n : Nat}
    (inside : n ≤ SegVec.CAPACITY) (small : ∀ id, level id < 255) (agree : AgreeBelow n d d') :
    build d level config n = build d' level config n := by
  induction n with
  | zero => rfl
  | succ n ih =>
      have same := ih (Nat.le_of_succ_le inside) (agree.mono (Nat.le_succ n))
      simp only [build, ← same]
      cases built : build d level config n with
      | none => rfl
      | some g =>
          obtain ⟨sound, -⟩ := build_sound small built
          simp only [Option.bind_some, insertAlone,
            insert_congr VisitedSet.new VisitedSet.new sound.layered sound.bounded sound.dense
              inside (small n) agree]

theorem Sound.congr {d d' : Distances} {level : Nat → Nat} {config : HnswConfig} {n : Nat}
    {g : Hnsw} (sound : Sound d level config n g) (inside : n ≤ SegVec.CAPACITY)
    (small : ∀ id, level id < 255) (agree : AgreeBelow n d d') : Sound d' level config n g :=
  ⟨sound.layered, sound.bounded, sound.dense, sound.levels, sound.m, sound.metric, fun fits =>
    (build_congr inside small agree).symm.trans (sound.exactly fits)⟩

end Hnsw

end Vektordb
