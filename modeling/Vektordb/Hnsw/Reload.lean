import Vektordb.Codec.Separation
import Vektordb.Hnsw.Census
import Vektordb.Hnsw.Degree
import Vektordb.Hnsw.Loading

/-!
Snapshots of whatever graph the inserts have left. A list may be too long for its layer, and then
the snapshot is refused; but no list gets longer than the bound and one more selection, so a
snapshot that is accepted is taken apart as it was written.
-/

namespace Vektordb

open Interaction LittleEndian

namespace Hnsw

/-! ### How long a list gets -/

/-- The lists of `id` on the layers below `n` are within the bound. -/
def Within (g : Hnsw) (id n : Nat) : Prop :=
  ∀ layer < n, ∀ list, g.listAt layer id = some list → list.length ≤ g.config.maxDegree layer

/-- No list is longer than the bound and one more selection. -/
def Moderate (g : Hnsw) : Prop :=
  ∀ id layer list, g.listAt layer id = some list →
    list.length ≤ g.config.maxDegree layer + g.config.m

theorem ownLinks_length (chosen cur : List Nat) :
    (ownLinks chosen cur).length ≤ cur.length + chosen.length := by
  have shorter := (List.destutter_sublist (R := (· ≠ ·)) (cur ++ chosen)).length_le
  rwa [List.length_append] at shorter

theorem backLinks_le {d : Distances} {nb id max k : Nat} {cur : List Nat} (short : cur.length ≤ k)
    (room : max ≤ k) : (backLinks d nb id max cur).length ≤ k := by
  unfold backLinks
  split
  · exact short
  · dsimp only
    split
    · rename_i fits
      exact fits.trans room
    · exact (selectNeighbors_length d _ max).trans room

variable {g after : Hnsw} {d : Distances} {agent : Nat} {action : Action} {answer : Answer action}

/-- Where the list of a node comes from when an action is done. -/
inductive Origin (g : Hnsw) (d : Distances) (action : Action) (layer id : Nat) (list : List Nat) :
    Prop
  | new (level : Nat) (isNew : action = .publish id level) (empty : list = [])
  | old (before : g.listAt layer id = some list)
  | own (chosen cur : List Nat) (links : action = .linkOwn id layer chosen)
      (before : g.listAt layer id = some cur) (written : list = ownLinks chosen cur)
  | back (other max : Nat) (cur : List Nat) (links : action = .linkBack id layer other max)
      (before : g.listAt layer id = some cur) (written : list = backLinks d id other max cur)

theorem handle_origin (done : handle d agent g action = .ok after answer) {layer id : Nat}
    {list : List Nat} (there : after.listAt layer id = some list) :
    Origin g d action layer id list := by
  rcases handle_nodes done with ⟨new, level, rfl, set⟩ | ⟨owner, at_, mutate, rewrites, rewrote⟩ |
    nodes
  · by_cases here : id = new
    · subst here
      unfold listAt at there
      rw [(SegVec.set_some set).2.2, if_pos rfl, Option.bind_some] at there
      exact .new level rfl (List.eq_of_mem_replicate (List.mem_of_getElem? there))
    · apply Origin.old
      unfold listAt at there ⊢
      rwa [(SegVec.set_some set).2.2, if_neg here] at there
  · rw [rewriteLinks_listAt rewrote] at there
    by_cases here : id = owner ∧ layer = at_
    · obtain ⟨rfl, rfl⟩ := here
      rw [if_pos ⟨rfl, rfl⟩] at there
      obtain ⟨cur, before, written⟩ := Option.map_eq_some_iff.mp there
      cases action with
      | linkOwn x l chosen =>
          cases rewrites
          exact .own chosen cur rfl before written.symm
      | linkBack nb l x max =>
          cases rewrites
          exact .back x max cur rfl before written.symm
      | _ => cases rewrites
    · rw [if_neg here] at there
      exact .old there
  · apply Origin.old
    unfold listAt at there ⊢
    rwa [nodes] at there

theorem Within.handle {x n : Nat} (within : Within g x n) (chosen : Chosen g.config action)
    (others : ∀ layer links, action = .linkOwn x layer links → n ≤ layer)
    (done : handle d agent g action = .ok after answer) : Within after x n := by
  intro layer below list there
  rw [handle_config done]
  cases handle_origin done there with
  | new level isNew empty =>
      rw [empty]
      exact Nat.zero_le _
  | old before => exact within layer below list before
  | own links cur isOwn before written => exact absurd below (Nat.not_lt.mpr (others layer links isOwn))
  | back other max cur isBack before written =>
      subst isBack
      have bound : max = g.config.maxDegree layer := chosen
      rw [written]
      exact backLinks_le (within layer below cur before) bound.le

theorem Moderate.handle (moderate : Moderate g) (chosen : Chosen g.config action)
    (once : ∀ id layer links, action = .linkOwn id layer links → Within g id (layer + 1))
    (done : handle d agent g action = .ok after answer) : Moderate after := by
  intro id layer list there
  rw [handle_config done]
  cases handle_origin done there with
  | new level isNew empty =>
      rw [empty]
      exact Nat.zero_le _
  | old before => exact moderate id layer list before
  | own links cur isOwn before written =>
      have short := once id layer links isOwn layer (Nat.lt_succ_self layer) cur before
      subst isOwn
      have few : links.length ≤ g.config.m := chosen.2
      rw [written]
      exact (ownLinks_length links cur).trans (Nat.add_le_add short few)
  | back other max cur isBack before written =>
      subst isBack
      have bound : max = g.config.maxDegree layer := chosen
      rw [written]
      exact backLinks_le (moderate id layer cur before) (bound.le.trans (Nat.le_add_right _ _))

theorem within_publish {id level n : Nat}
    (done : handle d agent g (.publish id level) = .ok after ()) : Within after id n := by
  intro layer below list there
  simp only [Hnsw.handle] at done
  cases set : g.nodes.set id (Node.new level) with
  | none => rw [set] at done; cases done
  | some nodes =>
      rw [set] at done
      cases done
      unfold listAt at there
      rw [(SegVec.set_some set).2.2, if_pos rfl, Option.bind_some] at there
      rw [List.eq_of_mem_replicate (List.mem_of_getElem? there)]
      exact Nat.zero_le _

theorem Unlinked.within {id n : Nat} (unlinked : Unlinked id n g) : Within g id n := by
  intro layer below list there
  obtain ⟨node, held, at_⟩ := Option.bind_eq_some_iff.mp there
  rw [unlinked layer below node list held at_]
  exact Nat.zero_le _

/-- An insert that runs alone leaves no list too long, however long those that it found. -/
theorem insert_moderate {id level : Nat} (visited : VisitedSet) (layered : Layered g)
    (moderate : Moderate g) (free : g.nodes.get id = none) (inside : id < SegVec.CAPACITY)
    (small : level < 255)
    (ran : (insert g.config id level visited).run (handle d) 0 g = .done after ()) : Moderate after := by
  obtain ⟨-, -, -, -, along⟩ := insert_kept d visited layered free inside small
  refine along.run_inv ?_ moderate ran
  rintro s t action answer ⟨-, -, permits⟩ answered before
  refine before.handle (aloneClaim_chosen permits) ?_ answered
  rintro x layer links rfl
  obtain ⟨rfl, unlinked, -⟩ := permits
  exact Unlinked.within unlinked

end Hnsw

/-! ### Taking a snapshot apart -/

namespace Persist

structure Writable (node : Node) : Prop where
  level : node.level < 256 ^ 4
  length : ∀ list ∈ node.links, list.length < 256 ^ 4
  links : ∀ list ∈ node.links, ∀ nb ∈ list, nb < 256 ^ 8

theorem separates_list : Separates (fun list : List Nat => list.length < 256 ^ 4 ∧
    ∀ nb ∈ list, nb < 256 ^ 8) listBytes :=
  (separates_encode 8).counted 4

theorem separates_node : Separates Writable nodeBytes := by
  intro left right x y fitLeft fitRight same
  unfold nodeBytes at same
  rw [List.append_assoc, List.append_assoc] at same
  obtain ⟨level, rest⟩ := separates_encode 4 _ _ _ _ fitLeft.level fitRight.level same
  have length : left.links.length = right.links.length := by
    have some := List.length_pos_of_ne_nil left.links_ne_nil
    have other := List.length_pos_of_ne_nil right.links_ne_nil
    unfold Node.level at level
    omega
  obtain ⟨links, behind⟩ := separates_list.flatMap length
    (fun list member => ⟨fitLeft.length list member, fitLeft.links list member⟩)
    (fun list member => ⟨fitRight.length list member, fitRight.links list member⟩) rest
  obtain ⟨leftLinks, someLeft⟩ := left
  obtain ⟨rightLinks, someRight⟩ := right
  cases links
  exact ⟨rfl, behind⟩

theorem writable_of_storable {m count : Nat} (small : m ≤ 4096) (few : count < 2 ^ 64) {node : Node}
    (storable : Storable m count node) : Writable node := by
  refine ⟨storable.level.trans_lt (by decide), ?_, ?_⟩
  · intro list member
    obtain ⟨layer, at_⟩ := List.mem_iff_getElem?.mp member
    have bound := storable.degree layer list at_
    have room : (if layer = 0 then 2 * m else m) ≤ 8192 := by split <;> omega
    omega
  · intro list member nb linked
    obtain ⟨layer, at_⟩ := List.mem_iff_getElem?.mp member
    have below := storable.links layer list at_ nb linked
    omega

theorem writable_of_moderate {g : Hnsw} (layered : g.Layered) (moderate : g.Moderate)
    (small : g.config.m ≤ 4096) {id : Nat} {node : Node} (held : g.nodes.get id = some node) :
    Writable node := by
  have listed : ∀ (layer : Nat) list, node.links[layer]? = some list →
      g.listAt layer id = some list := by
    intro layer list at_
    unfold Hnsw.listAt
    rw [held]
    exact at_
  refine ⟨(layered.levels id node.level ⟨node, held, rfl⟩).trans (by decide), ?_, ?_⟩
  · intro list member
    obtain ⟨layer, at_⟩ := List.mem_iff_getElem?.mp member
    have bound := moderate id layer list (listed layer list at_)
    have room : g.config.maxDegree layer ≤ 8192 := by
      unfold HnswConfig.maxDegree
      split <;> omega
    omega
  · intro list member nb linked
    obtain ⟨layer, at_⟩ := List.mem_iff_getElem?.mp member
    have inside := (layered.links id node layer list nb held at_ linked).2.lt_capacity
    rw [SegVec.CAPACITY_eq] at inside
    omega

end Persist

open Persist

theorem Persist.mapM_isSome {α β : Type} {f : α → Option β} {values : List α} {images : List β}
    (all : values.mapM f = some images) : ∀ value ∈ values, (f value).isSome = true := by
  induction values generalizing images with
  | nil => nofun
  | cons first rest ih =>
      rw [List.mapM_cons] at all
      obtain ⟨image, here, later⟩ := Option.bind_eq_some_iff.mp all
      obtain ⟨others, found, -⟩ := Option.bind_eq_some_iff.mp later
      intro value member
      rcases List.mem_cons.mp member with rfl | behind
      · rw [here]
        rfl
      · exact ih found value behind

theorem Hnsw.dense_of_save {hash : Bytes → Nat} {g : Hnsw} {walLsn : Nat} {bytes : Bytes}
    (saved : g.save hash walLsn = some bytes) : g.Dense g.len ∧ ∃ nodes : List Node,
      nodes.length = g.len ∧ (∀ i < g.len, nodes[i]? = g.nodes.get i) ∧
      bytes = payload g walLsn nodes ++ encode 4 (hash (payload g walLsn nodes)) := by
  obtain ⟨nodes, collected, written⟩ := Option.bind_eq_some_iff.mp saved
  have present : ∀ i < g.len, (g.nodes.get i).isSome = true := fun i below =>
    mapM_isSome collected i (List.mem_range.mpr below)
  obtain ⟨others, again, length, same⟩ := mapM_range (f := g.nodes.get) present
  cases collected.symm.trans again
  refine ⟨⟨rfl, ?_⟩, nodes, length, same, (Option.some.inj written).symm⟩
  intro id
  refine ⟨?_, present id⟩
  intro held
  obtain ⟨node, at_⟩ := Option.isSome_iff_exists.mp held
  exact SegVec.get_lt_len at_

theorem Hnsw.load_dense {hash : Bytes → Nat} {index : Hnsw} {lsn : Nat} {bytes : Bytes}
    (loaded : load hash bytes = .ok (index, lsn)) : index.Dense index.len ∧ index.config.m ≤ 4096 := by
  obtain ⟨s, checked, -, rfl, -⟩ := load_inv loaded
  refine ⟨⟨rfl, ?_⟩, checked.m.2⟩
  intro id
  change (if id < SegVec.CAPACITY then s.nodes[id]? else none).isSome = true ↔
    id < min s.nodes.length SegVec.CAPACITY
  split
  · rw [isSome_getElem?]
    omega
  · simp only [Option.isSome_none, Bool.false_eq_true, false_iff]
    omega

/-- What `load` makes of a snapshot, if it accepts it, is the graph that was saved. -/
theorem Hnsw.load_saved {hash : Bytes → Nat} {g index : Hnsw} {walLsn lsn : Nat} {bytes : Bytes}
    (layered : g.Layered) (moderate : g.Moderate) (m : g.config.m ≤ 4096) (smallLsn : walLsn < 2 ^ 64)
    (saved : g.save hash walLsn = some bytes) (loaded : load hash bytes = .ok (index, lsn)) :
    index = { g with config := { g.config with
      efConstruction := g.config.efConstruction % 2 ^ 32 } } ∧ lsn = walLsn := by
  obtain ⟨dense, nodes, length, same, rfl⟩ := dense_of_save saved
  obtain ⟨s, checked, parts, rfl, rfl⟩ := load_inv loaded
  have inside : g.len ≤ SegVec.CAPACITY := by
    by_cases empty : g.len = 0
    · rw [empty]
      exact Nat.zero_le _
    · obtain ⟨node, held⟩ := Option.isSome_iff_exists.mp ((dense.2 (g.len - 1)).mpr (by omega))
      have below := SegVec.get_lt held
      omega
  have few : g.len < 2 ^ 64 := by
    rw [SegVec.CAPACITY_eq] at inside
    omega
  have bodies : payload g walLsn nodes = s.payload :=
    (List.append_inj' parts (by rw [encode_length, encode_length])).1
  unfold payload Snapshot.payload headerBytes at bodies
  simp only [List.append_assoc] at bodies
  have tag : ∀ metric, metricTag metric < 256 ^ 1 := by
    intro metric
    cases metric <;> decide
  obtain ⟨-, bodies⟩ := List.append_inj bodies rfl
  obtain ⟨-, bodies⟩ := List.append_inj bodies rfl
  obtain ⟨sameM, bodies⟩ := separates_encode 4 _ _ _ _ (by omega)
    (checked.m.2.trans_lt (by decide)) bodies
  obtain ⟨efs, bodies⟩ := List.append_inj bodies (by rw [encode_length, encode_length])
  obtain ⟨metrics, bodies⟩ := separates_encode 1 _ _ _ _ (tag _) (tag _) bodies
  obtain ⟨sameLsn, bodies⟩ := separates_encode 8 _ _ _ _ smallLsn checked.walLsn bodies
  obtain ⟨counts, bodies⟩ := separates_encode 8 _ _ _ _ few checked.count bodies
  obtain ⟨entries, bodies⟩ := separates_encode 8 _ _ _ _ (entry_lt layered) checked.entry_lt bodies
  have ef : s.config.efConstruction = g.config.efConstruction % 2 ^ 32 := by
    have decoded := congrArg decode efs
    rw [decode_encode, decode_encode_of_lt checked.efConstruction] at decoded
    exact decoded.symm
  have metric : g.config.metric = s.config.metric := by
    have found := congrArg metricFrom metrics
    rw [metricFrom_metricTag, metricFrom_metricTag] at found
    exact Except.ok.inj found
  have writable : ∀ node ∈ nodes, Writable node := by
    intro node member
    obtain ⟨i, at_⟩ := List.mem_iff_getElem?.mp member
    have below : i < g.len := by
      rw [← length]
      exact (List.getElem?_eq_some_iff.mp at_).1
    exact writable_of_moderate layered moderate m ((same i below).symm.trans at_)
  have behind : nodes.flatMap nodeBytes ++ [] = s.nodes.flatMap nodeBytes ++ [] := by
    rw [List.append_nil, List.append_nil]
    exact bodies
  obtain ⟨sameNodes, -⟩ := separates_node.flatMap (length.trans counts) writable
    (fun node member => writable_of_storable checked.m.2 checked.count (checked.nodes node member))
    behind
  refine ⟨?_, sameLsn.symm⟩
  have rebuilt : SegVec.ofList s.nodes = g.nodes := by
    rw [← sameNodes]
    exact ofList_eq dense inside length same
  have config : s.config = { g.config with efConstruction := g.config.efConstruction % 2 ^ 32 } := by
    change s.config = ⟨g.config.m, g.config.efConstruction % 2 ^ 32, g.config.metric⟩
    rw [metric, ← ef, sameM]
  unfold Snapshot.index
  rw [rebuilt, config, ← entries]

end Vektordb
