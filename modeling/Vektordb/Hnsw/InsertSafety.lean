import Vektordb.Hnsw.LayerSafety

/-!
The programs of an insert and of a search, inside any shared state that holds an index.
`Hosts` collects what such a state has to grant to the insert of one id; from it the program
performs safe actions only, links its own lists once, from the top layer down, and leaves its
node with an entry point that is at least as high.
-/

namespace Vektordb

open Interaction

namespace Hnsw

variable {T : Sig} [Supports sig T] {σ : Type}

/-- The claims of an insert on its own id: whether it may publish it, and below which layer its
own lists are still to be linked. -/
structure Claim (σ : Type) where
  id : Nat
  mine : σ → Prop
  ready : Nat → σ → Prop

def Claim.permits (c : Claim σ) (config : HnswConfig) (s : σ) : Action → Prop
  | .publish x _ => x = c.id ∧ c.mine s
  | .claimEntry x _ => x = c.id
  | .raiseEntry x _ => x = c.id
  | .linkOwn x layer chosen =>
      x = c.id ∧ c.ready (layer + 1) s ∧ chosen.Nodup ∧ chosen.length ≤ config.m
  | .linkBack _ layer x max => x = c.id ∧ max = config.maxDegree layer
  | _ => True

def Claim.leaves (c : Claim σ) (s t : σ) : Action → Prop
  | .publish _ level => c.ready (level + 1) t
  | .linkOwn _ layer _ => c.ready layer t
  | _ => ∀ n, c.ready n s → c.ready n t

/-- A shared state that holds an index, as agent `i` sees it. -/
structure Hosts (h : Handler T σ) (D : Discipline T σ) (i : Nat) (view : σ → Hnsw)
    (config : HnswConfig) (c : Claim σ) : Prop where
  layered : ∀ {s}, D.inv s → Layered (view s)
  grows : ∀ {s t}, D.rely i s t → Grows (view s) (view t)
  mine_stable : ∀ {s t}, D.rely i s t → c.mine s → c.mine t
  fresh : ∀ {s t}, D.rely i s t → c.mine s → (view s).nodes.get c.id = none →
    (view t).nodes.get c.id = none
  ready_stable : ∀ {s t n}, D.rely i s t → c.ready n s → c.ready n t
  ready_lower : ∀ {s m n}, m ≤ n → c.ready n s → c.ready m s
  act : ∀ (action : Action) (post : σ → Answer action → Prop) {s : σ},
    (∀ t, D.rely i s t → D.inv t → (view t).Safe action ∧ c.permits config t action) →
    (∀ t u answer v, D.rely i s t → D.inv t →
      (∃ d, handle d i (view t) action = .ok (view u) answer) → (view u = view t → u = t) →
      c.leaves t u action → D.rely i u v → D.inv v → post v answer) →
    Secure h D i post (call action) s

/-- What a finished insert leaves: its node, and an entry point that is at least as high. -/
def Inserted (g : Hnsw) (id level : Nat) : Prop :=
  g.HasLevel id level ∧ g.entry ≠ ENTRY_NONE ∧ level ≤ g.entryLevel

theorem Inserted.grow {g after : Hnsw} {id level : Nat} (inserted : Inserted g id level)
    (grows : Grows g after) : Inserted after id level :=
  ⟨grows.level id level inserted.1, (grows.entry inserted.2.1).1,
    inserted.2.2.trans (grows.entry inserted.2.1).2⟩

namespace Hosts

variable {h : Handler T σ} {D : Discipline T σ} {i : Nat} {view : σ → Hnsw}
  {config : HnswConfig} {c : Claim σ}

theorem read (hosts : Hosts h D i view config c) (action : Action)
    (post : σ → Answer action → Prop) {s : σ}
    (reads : ∀ d t u answer, handle d i t action = .ok u answer → u = t)
    (safe : ∀ t, D.rely i s t → D.inv t → (view t).Safe action)
    (permitted : ∀ t, c.permits config t action)
    (posts : ∀ d t answer v, D.rely i s t → D.inv t →
      handle d i (view t) action = .ok (view t) answer → D.rely i t v → post v answer) :
    Secure h D i (fun v answer => D.rely i s v ∧ post v answer) (call action) s := by
  refine hosts.act action _ (fun t moved kept => ⟨safe t moved kept, permitted t⟩)
    fun t u answer v moved kept ⟨d, done⟩ same _ later _ => ?_
  have unchanged := reads d _ _ answer done
  cases same unchanged
  exact ⟨D.rely_trans moved later, posts d t answer v moved kept done later⟩

theorem links_reads {d : Distances} {t u : Hnsw} {id layer : Nat} {list : List Nat}
    (done : handle d i t (.links id layer) = .ok u list) :
    u = t ∧ ∃ node, t.nodes.get id = some node ∧ node.links[layer]? = some list := by
  simp only [handle] at done
  split at done
  · rename_i found
    cases done
    obtain ⟨node, held, present⟩ := Option.bind_eq_some_iff.mp found
    exact ⟨rfl, node, held, present⟩
  · cases done

/-- The traversals may read whatever has the layer, as long as `facts` holds and makes the
oracle safe there. -/
theorem walkable (hosts : Hosts h D i view config c) {dist : Nat → Prog T F32}
    (facts : Hnsw → Prop) (steady : ∀ {g g'}, Grows g g' → facts g → facts g')
    (oracle : ∀ s x, D.inv s → facts (view s) → (view s).HasLayer 0 x →
      Secure h D i (fun t _ => D.rely i s t) (dist x) s) :
    Walkable h D i dist fun layer s x => facts (view s) ∧ (view s).HasLayer layer x where
  stable moved _ known :=
    ⟨steady (hosts.grows moved) known.1, (hosts.grows moved).layer known.2⟩
  lower le known := ⟨known.1, known.2.lower le⟩
  len s _ := (hosts.read .len (fun _ _ => True)
    (fun d t u answer done => by cases done; rfl) (fun _ _ _ => trivial) (fun _ => trivial)
    (fun _ _ _ _ _ _ _ _ => trivial)).mono fun t value _ holds => holds.1
  links s layer x _ known := by
    refine hosts.read (.links x layer) _
      (fun d t u list done => (links_reads done).1)
      (fun t moved _ => (hosts.grows moved).layer known.2) (fun _ => trivial)
      fun d t list v moved kept done later => ?_
    obtain ⟨-, node, held, present⟩ := links_reads done
    intro y member
    have has := ((hosts.layered kept).links x node layer list y held present member).2
    exact ⟨steady (hosts.grows (D.rely_trans moved later)) known.1,
      (hosts.grows later).layer has⟩
  dist s layer x layered known := oracle s x layered known.1 (known.2.lower (Nat.zero_le layer))
  bounded := .inr fun _ _ _ known => known.2.lt_capacity

theorem insert_walkable (hosts : Hosts h D i view config c) (id : Nat) :
    Walkable h D i (fun x => call (.distance id x))
      fun layer s x => (view s).HasLayer 0 id ∧ (view s).HasLayer layer x :=
  hosts.walkable (fun g => g.HasLayer 0 id) (fun grows has => grows.layer has)
    fun s x _ own has =>
    (hosts.read (.distance id x) (fun _ _ => True)
      (fun d t u answer done => by cases done; rfl)
      (fun t moved _ => ⟨(hosts.grows moved).layer own, (hosts.grows moved).layer has⟩)
      (fun _ => trivial) (fun _ _ _ _ _ _ _ _ => trivial)).mono fun t value _ holds => holds.1

theorem search_walkable (hosts : Hosts h D i view config c) {dist : Nat → Prog T F32}
    (oracle : ∀ s x, D.inv s → (view s).HasLayer 0 x →
      Secure h D i (fun t _ => D.rely i s t) (dist x) s) :
    Walkable h D i dist fun layer s x => True ∧ (view s).HasLayer layer x :=
  hosts.walkable (fun _ => True) (fun _ _ => trivial) fun s x kept _ has => oracle s x kept has

omit [Supports sig T] in
theorem pure_oracle (oracle : Nat → F32) (s : σ) (x : Nat) :
    Secure h D i (fun t _ => D.rely i s t) (.ret (oracle x)) s :=
  Secure.ret fun _ moved _ => moved

/-! ### The program of an insert -/

theorem linkBackAll_secure (hosts : Hosts h D i view config c) {s : σ} (layer : Nat)
    (chosen : List Nat) (kept : D.inv s) (own : (view s).HasLayer layer c.id)
    (ready : c.ready layer s) (others : ∀ x ∈ chosen, x ≠ c.id ∧ (view s).HasLayer layer x) :
    Secure h D i (fun t _ => Grows (view s) (view t) ∧ c.ready layer t)
      (linkBackAll c.id layer (config.maxDegree layer) chosen) s := by
  induction chosen generalizing s with
  | nil => exact Secure.ret fun t moved _ => ⟨hosts.grows moved, hosts.ready_stable moved ready⟩
  | cons nb rest ih =>
      have first := others nb (List.mem_cons_self ..)
      refine Secure.bind kept (hosts.act (.linkBack nb layer c.id _)
        (fun v _ => Grows (view s) (view v) ∧ c.ready layer v)
        (fun t moved _ => ⟨⟨first.1, (hosts.grows moved).layer first.2,
          (hosts.grows moved).layer own⟩, rfl, rfl⟩)
        fun t u _ v moved keptThere ⟨d, done⟩ _ leaves later _ => ?_)
        fun t _ keptThere ⟨grows, readyThere⟩ => ?_
      · have safe : (view t).Safe (.linkBack nb layer c.id (config.maxDegree layer)) :=
          ⟨first.1, (hosts.grows moved).layer first.2, (hosts.grows moved).layer own⟩
        have advances := (hosts.layered keptThere).handle safe done
        exact ⟨((hosts.grows moved).trans advances.grows).trans (hosts.grows later),
          hosts.ready_stable later (leaves layer (hosts.ready_stable moved ready))⟩
      · refine (ih keptThere (grows.layer own) readyThere fun x member => ?_).mono
          fun u _ _ ⟨later, readyLater⟩ => ⟨grows.trans later, readyLater⟩
        obtain ⟨other, has⟩ := others x (List.mem_cons_of_mem nb member)
        exact ⟨other, grows.layer has⟩

theorem connectLayer_secure (hosts : Hosts h D i view config c) {s : σ} (layer : Nat)
    (visited : VisitedSet) (ep : Nat) (kept : D.inv s) (own : (view s).HasLayer layer c.id)
    (ready : c.ready (layer + 1) s) (start : (view s).HasLayer layer ep) :
    Secure h D i
      (fun t result => Grows (view s) (view t) ∧ c.ready layer t ∧
        (view t).HasLayer layer result.2)
      (connectLayer config c.id layer visited ep) s := by
  have own0 := own.lower (Nat.zero_le layer)
  refine Secure.bind kept (searchLayer_secure (hosts.insert_walkable c.id) layer visited ep
    config.efConstruction kept ⟨own0, start⟩) fun t found keptFound ⟨moved, known, distinct⟩ => ?_
  obtain ⟨visited', found⟩ := found
  dsimp only at known distinct ⊢
  have seed : (view t).HasLayer layer ((found.head?.map Neighbor.id).getD ep) := by
    cases found with
    | nil => exact (hosts.grows moved).layer start
    | cons best rest => exact (known best (List.mem_cons_self ..)).2
  refine Secure.bind keptFound (hosts.read
    (.select (found.filter fun n => n.id ≠ c.id) config.m)
    (fun v chosen => (∀ x ∈ chosen, x ≠ c.id ∧ (view v).HasLayer layer x) ∧
      chosen.Nodup ∧ chosen.length ≤ config.m)
    (fun d t u answer done => by cases done; rfl) (fun u later _ n member => ?_)
    (fun _ => trivial) fun d u chosen v later _ done last => ?_)
    fun u chosen keptChosen ⟨later, valid, distinctChosen, few⟩ => ?_
  · exact (hosts.grows later).layer
      ((known n (List.mem_of_mem_filter member)).2.lower (Nat.zero_le layer))
  · cases done
    refine ⟨fun x member => ?_, selectNeighbors_nodup ?_, selectNeighbors_length d _ _⟩
    · obtain ⟨n, offered, rfl⟩ := mem_selectNeighbors member
      have inside := List.mem_filter.mp offered
      exact ⟨by simpa using inside.2,
        (hosts.grows (D.rely_trans later last)).layer (known n inside.1).2⟩
    · exact distinct.sublist (List.filter_sublist.map Neighbor.id)
  · have toChosen := hosts.grows (D.rely_trans moved later)
    have ownThere := toChosen.layer own
    have readyThere := hosts.ready_stable (D.rely_trans moved later) ready
    have safe : ∀ v, D.rely i u v → (view v).Safe (.linkOwn c.id layer chosen) := fun v last =>
      ⟨(hosts.grows last).layer ownThere, fun x member =>
        ⟨(valid x member).1, (hosts.grows last).layer (valid x member).2⟩⟩
    refine Secure.bind keptChosen (hosts.act (.linkOwn c.id layer chosen)
      (fun v _ => Grows (view u) (view v) ∧ c.ready layer v)
      (fun v last _ => ⟨safe v last, rfl, hosts.ready_stable last readyThere, distinctChosen,
        few⟩)
      fun v w _ z last keptLast ⟨d, done⟩ _ leaves after _ => ?_)
      fun v _ keptOwn ⟨grows, readyOwn⟩ => ?_
    · have advances := (hosts.layered keptLast).handle (safe v last) done
      exact ⟨((hosts.grows last).trans advances.grows).trans (hosts.grows after),
        hosts.ready_stable after leaves⟩
    · refine Secure.bind keptOwn (hosts.linkBackAll_secure layer chosen keptOwn
        (grows.layer ownThere) readyOwn fun x member =>
          ⟨(valid x member).1, grows.layer (valid x member).2⟩)
        fun w _ _ ⟨back, readyBack⟩ => Secure.ret fun z last _ => ?_
      have whole := ((hosts.grows later).trans grows).trans (back.trans (hosts.grows last))
      exact ⟨(hosts.grows moved).trans whole, hosts.ready_stable last readyBack,
        whole.layer seed⟩

theorem connectLayers_secure (hosts : Hosts h D i view config c) {s : σ} (layer : Nat)
    (visited : VisitedSet) (ep : Nat) (kept : D.inv s) (own : (view s).HasLayer layer c.id)
    (ready : c.ready (layer + 1) s) (start : (view s).HasLayer layer ep) :
    Secure h D i (fun t _ => Grows (view s) (view t))
      (connectLayers config c.id layer visited ep) s := by
  induction layer generalizing s visited ep with
  | zero =>
      refine Secure.bind kept (hosts.connectLayer_secure 0 visited ep kept own ready start)
        fun t _ _ holds => Secure.ret fun u moved _ => holds.1.trans (hosts.grows moved)
  | succ layer ih =>
      refine Secure.bind kept
        (hosts.connectLayer_secure (layer + 1) visited ep kept own ready start)
        fun t result keptThere ⟨grows, readyThere, seed⟩ => ?_
      refine (ih result.1 result.2 keptThere ((grows.layer own).lower (Nat.le_succ layer))
        readyThere (seed.lower (Nat.le_succ layer))).mono fun u _ _ later => grows.trans later

theorem link_secure (hosts : Hosts h D i view config c) {s : σ} (level : Nat)
    (visited : VisitedSet) (kept : D.inv s) (own : (view s).HasLevel c.id level)
    (ready : c.ready (level + 1) s) (entry : (view s).entry ≠ ENTRY_NONE) :
    Secure h D i (fun t _ => Inserted (view t) c.id level) (link config c.id level visited) s := by
  refine Secure.bind kept (hosts.read .entry
    (fun v packed => (view v).HasLevel (unpackEntry packed).1 (unpackEntry packed).2 ∧
      (view v).entry ≠ ENTRY_NONE ∧ (unpackEntry packed).2 ≤ (view v).entryLevel)
    (fun d t u answer done => by cases done; rfl) (fun _ _ _ => trivial) (fun _ => trivial)
    fun d t packed v moved keptThere done later => ?_)
    fun t packed keptThere ⟨moved, named, someEntry, top⟩ => ?_
  · cases done
    have there := ((hosts.grows moved).entry entry).1
    exact ⟨(hosts.grows later).level _ _ ((hosts.layered keptThere).entry_level there),
      ((hosts.grows later).entry there).1, ((hosts.grows later).entry there).2⟩
  · have own0 := ((hosts.grows moved).level _ level own).layer (Nat.zero_le level)
    refine Secure.bind keptThere ((hosts.insert_walkable c.id).dist t 0 _ keptThere
      ⟨own0, named.layer (Nat.zero_le _)⟩) fun u value keptDist later => ?_
    refine Secure.bind keptDist (descend_secure (hosts.insert_walkable c.id) level
      (unpackEntry packed).2 _ value keptDist
      ⟨(hosts.grows later).layer own0, (hosts.grows later).layer (named.layer le_rfl)⟩)
      fun v result keptEp ⟨descended, _, seed⟩ => ?_
    have toEp := D.rely_trans (D.rely_trans moved later) descended
    have ownEp := (hosts.grows toEp).level _ level own
    have readyEp := hosts.ready_lower (Nat.succ_le_succ (Nat.min_le_left level
      (unpackEntry packed).2)) (hosts.ready_stable toEp ready)
    refine Secure.bind keptEp (hosts.connectLayers_secure (min level (unpackEntry packed).2)
      visited result.1 keptEp (ownEp.layer (Nat.min_le_left _ _)) readyEp seed)
      fun w _ keptLinked linked => ?_
    have ownLinked := linked.level _ level ownEp
    have entryLater :=
      ((hosts.grows (D.rely_trans later descended)).trans linked).entry someEntry
    have topLinked := top.trans entryLater.2
    split
    · refine hosts.act (.raiseEntry c.id level) _
        (fun x last _ => ⟨⟨(hosts.grows last).level _ level ownLinked,
          ((hosts.grows last).entry entryLater.1).1⟩, rfl⟩)
        fun x y _ z last keptLast ⟨d, done⟩ _ _ after _ => ?_
      have safe : (view x).Safe (.raiseEntry c.id level) :=
        ⟨(hosts.grows last).level _ level ownLinked, ((hosts.grows last).entry entryLater.1).1⟩
      have grows := ((hosts.layered keptLast).handle safe done).grows
      refine Inserted.grow ⟨grows.level _ level safe.1, (grows.entry safe.2).1, ?_⟩
        (hosts.grows after)
      simp only [handle] at done
      split at done
      · simp only [Reply.ok.injEq, and_true] at done
        rw [← done, (hosts.layered keptLast).entryLevel_pack safe.1]
      · rename_i notHigher
        simp only [Reply.ok.injEq, and_true] at done
        rw [← done]
        exact Nat.le_of_not_lt notHigher
    · rename_i notHigher
      refine Secure.ret fun x last _ =>
        Inserted.grow ⟨ownLinked, entryLater.1, ?_⟩ (hosts.grows last)
      exact (Nat.le_of_not_lt notHigher).trans topLinked

theorem insert_secure (hosts : Hosts h D i view config c) {s : σ} (level : Nat)
    (visited : VisitedSet) (kept : D.inv s) (mine : c.mine s)
    (fresh : (view s).nodes.get c.id = none) (inside : c.id < SegVec.CAPACITY)
    (small : level < 255) :
    Secure h D i (fun t _ => Inserted (view t) c.id level)
      (insert config c.id level visited) s := by
  refine Secure.bind kept (hosts.act (.publish c.id level)
    (fun v _ => (view v).HasLevel c.id level ∧ c.ready (level + 1) v)
    (fun t moved _ => ⟨⟨hosts.fresh moved mine fresh, inside, small⟩, rfl,
      hosts.mine_stable moved mine⟩)
    fun t u _ v _ _ handled _ leaves later _ => ?_) fun t _ keptThere published => ?_
  · obtain ⟨d, done⟩ := handled
    refine ⟨(hosts.grows later).level _ level ?_, hosts.ready_stable later leaves⟩
    simp only [handle] at done
    cases set : (view t).nodes.set c.id (Node.new level) with
    | none => rw [set] at done; cases done
    | some nodes =>
        rw [set] at done
        simp only [Reply.ok.injEq, and_true] at done
        refine ⟨Node.new level, ?_, Node.level_new level⟩
        rw [← done]
        simp only [(SegVec.set_some set).2.2, if_true]
  · obtain ⟨own, ready⟩ := published
    refine Secure.bind keptThere (hosts.read .entry
      (fun v packed => packed ≠ ENTRY_NONE → (view v).entry ≠ ENTRY_NONE)
      (fun d t u answer done => by cases done; rfl) (fun _ _ _ => trivial) (fun _ => trivial)
      fun d u packed v _ _ done later some => ?_) fun u packed keptEntry read => ?_
    · cases done
      exact ((hosts.grows later).entry some).1
    · obtain ⟨moved, seen⟩ := read
      have ownThere := (hosts.grows moved).level _ level own
      have readyThere := hosts.ready_stable moved ready
      split
      · refine Secure.bind keptEntry (hosts.act (.claimEntry c.id level)
          (fun v claimed => (view v).HasLevel c.id level ∧ c.ready (level + 1) v ∧
            (view v).entry ≠ ENTRY_NONE ∧ (claimed = true → level ≤ (view v).entryLevel))
          (fun v last _ => ⟨(hosts.grows last).level _ level ownThere, rfl⟩)
          fun v w claimed x last keptClaim handled _ leaves after _ => ?_)
          fun v claimed keptClaim answered => ?_
        · obtain ⟨d, done⟩ := handled
          have safe : (view v).Safe (.claimEntry c.id level) :=
            (hosts.grows last).level _ level ownThere
          have grows := ((hosts.layered keptClaim).handle safe done).grows
          have readyAfter := hosts.ready_stable after
            (leaves _ (hosts.ready_stable last readyThere))
          refine ⟨(hosts.grows after).level _ level (grows.level _ level safe), readyAfter, ?_⟩
          simp only [handle] at done
          split at done
          · simp only [Reply.ok.injEq] at done
            have someEntry : (view w).entry ≠ ENTRY_NONE := by
              rw [← done.1]
              exact (hosts.layered keptClaim).pack_ne_none safe
            have top : (view w).entryLevel = level := by
              rw [← done.1]
              exact (hosts.layered keptClaim).entryLevel_pack safe
            have moved := (hosts.grows after).entry someEntry
            exact ⟨moved.1, fun _ => top.symm.le.trans moved.2⟩
          · rename_i already
            simp only [Reply.ok.injEq] at done
            have someEntry : (view w).entry ≠ ENTRY_NONE := by
              rw [← done.1]
              exact already
            refine ⟨((hosts.grows after).entry someEntry).1, fun yes => ?_⟩
            rw [← done.2] at yes
            cases yes
        · obtain ⟨ownClaim, readyClaim, someEntry, claimedTop⟩ := answered
          split
          · rename_i isClaimed
            exact Secure.ret fun w last _ =>
              Inserted.grow ⟨ownClaim, someEntry, claimedTop isClaimed⟩ (hosts.grows last)
          · exact hosts.link_secure level visited keptClaim ownClaim readyClaim someEntry
      · rename_i some
        exact hosts.link_secure level visited keptEntry ownThere readyThere (seen some)

theorem searchWithOracle_secure (hosts : Hosts h D i view config c) {s : σ}
    {dist : Nat → Prog T F32} (oracle : ∀ s x, D.inv s → (view s).HasLayer 0 x →
      Secure h D i (fun t _ => D.rely i s t) (dist x) s)
    (visited : VisitedSet) (k ef : Nat) (kept : D.inv s) :
    Secure h D i (fun _ _ => True) (searchWithOracle dist visited k ef) s := by
  have walk := hosts.search_walkable oracle
  refine Secure.bind kept (hosts.read .entry
    (fun v packed => packed ≠ ENTRY_NONE →
      (view v).HasLevel (unpackEntry packed).1 (unpackEntry packed).2)
    (fun d t u answer done => by cases done; rfl) (fun _ _ _ => trivial) (fun _ => trivial)
    fun d t packed v _ keptThere done later some => ?_)
    fun t packed keptThere ⟨_, named⟩ => ?_
  · cases done
    exact (hosts.grows later).level _ _ ((hosts.layered keptThere).entry_level some)
  · split
    · exact Secure.ret fun _ _ _ => trivial
    · rename_i some
      have entryHas := named some
      refine Secure.bind keptThere (walk.dist t 0 _ keptThere
        ⟨trivial, entryHas.layer (Nat.zero_le _)⟩) fun u value keptDist later => ?_
      refine Secure.bind keptDist (descend_secure walk 0 (unpackEntry packed).2 _ value
        keptDist ⟨trivial, (hosts.grows later).layer (entryHas.layer le_rfl)⟩)
        fun u result keptEp holds => ?_
      obtain ⟨-, -, seed⟩ := holds
      refine Secure.bind keptEp (searchLayer_secure walk 0 visited result.1 (max ef k) keptEp
        ⟨trivial, seed.lower (Nat.zero_le _)⟩) fun v _ _ _ => Secure.ret fun _ _ _ => trivial

end Hosts

end Hnsw

end Vektordb
