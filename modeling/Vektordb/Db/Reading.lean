import Vektordb.Hnsw.Scored
import Vektordb.Db.Upkeep

/-!
The calls that only read, among calls that do not: what a search finds in the graph is a row of the
store with its final content, so the distances that it returns are those of its hits.
-/

namespace Vektordb

open Interaction LittleEndian

namespace Db

variable {env : Env} {crew : Crew} {i : Nat} {st : Standing} {s t : Shared}

/-! ### Actions that only read -/

theorem secure_read {op : Action} {known : Shared → Prop} {post : Shared → Answer op → Prop}
    (silent : ∀ l answer, note i l op answer = l)
    (reads : ∀ t : Shared, Consistent env crew t.1 t.2 → (crew.careful → Unhurried i t op) → known t →
      Promised env crew i t op ∧ ∀ w answer, handle env i t.1 op = .ok w answer →
        w = t.1 ∧ post t answer)
    (stable : (sharing env crew).Stable i known)
    (after : ∀ answer, (sharing env crew).Stable i fun t => post t answer) (here : known s) :
    Secure (noted env) (sharing env crew) i (fun t answer => Relies crew i s t ∧ post t answer)
      (call op) s := by
  intro t moved kept assumed
  obtain ⟨promised, answers⟩ := reads t kept assumed (stable s t moved kept here)
  refine ⟨promised, ?_⟩
  intro u answer done
  obtain ⟨inner, noted⟩ := Handler.noting_inv done
  obtain ⟨w, l⟩ := u
  obtain ⟨same, holds⟩ := answers w answer inner
  obtain rfl : w = t.1 := same
  obtain rfl : l = t.2 := noted.trans (silent t.2 answer)
  refine ⟨kept, Guarantees.refl i t, ?_⟩
  intro v later keptLater
  exact ⟨Relies.trans moved later, after answer t v later keptLater holds⟩

theorem steady_true : (sharing env crew).Stable i fun _ => True := fun _ _ _ _ _ => trivial

/-! ### What a traversal may read -/

/-- What an agent knows while it traverses the graph, and of the ids that it comes upon. -/
structure Grounds (env : Env) (crew : Crew) (i : Nat) (base : Shared → Prop)
    (facts : Shared → Nat → Prop) : Prop where
  steady : (sharing env crew).Stable i base
  stable : ∀ {s t : Shared} {x : Nat}, Relies crew i s t → base s → facts s x → facts t x
  entered : ∀ {t : Shared}, Consistent env crew t.1 t.2 →
    (crew.careful → Unhurried i t (.index .entry)) → base t → t.1.index.entry ≠ ENTRY_NONE →
      facts t (unpackEntry t.1.index.entry).1
  listed : ∀ {t : Shared} {layer x : Nat} {list : List Nat}, Consistent env crew t.1 t.2 →
    (crew.careful → Unhurried i t (.index (.links x layer))) → base t → facts t x →
      t.1.index.listAt layer x = some list → ∀ y ∈ list, facts t y

/-- An id whose list on a layer may be read. -/
def Readable (base : Shared → Prop) (facts : Shared → Nat → Prop) (layer : Nat) (s : Shared)
    (x : Nat) : Prop :=
  base s ∧ s.1.index.HasLayer layer x ∧ facts s x

variable {base : Shared → Prop} {facts : Shared → Nat → Prop}

theorem readable_stable (grounds : Grounds env crew i base facts) (layer x : Nat) :
    (sharing env crew).Stable i fun s => Readable base facts layer s x := by
  rintro s t moved kept ⟨here, has, known⟩
  exact ⟨grounds.steady s t moved kept here, (Relies.grows moved).layer has,
    grounds.stable moved here known⟩

theorem readable_present {layer x : Nat} (readable : Readable base facts layer s x) :
    (s.1.index.nodes.get x).isSome = true := by
  obtain ⟨node, held, -⟩ := readable.2.1
  rw [held]
  rfl

theorem index_read {w t : World} {action : Hnsw.Action} {answer : Hnsw.Answer action}
    (reads : ∀ d u, Hnsw.handle d i w.index action = .ok u answer → u = w.index)
    (done : handle env i w (.index action) = .ok t answer) :
    t = w ∧ Hnsw.handle (w.distances env) i w.index action = .ok w.index answer := by
  obtain ⟨g, handled, isWorld⟩ := index_answered done
  obtain rfl : g = w.index := reads _ g handled
  exact ⟨isWorld, handled⟩

/-- The traversals of an agent read what is there. -/
theorem readable_walk (grounds : Grounds env crew i base facts) {dist : Nat → Prog sig F32}
    (oracle : ∀ s x, Consistent env crew s.1 s.2 → Readable base facts 0 s x →
      Secure (noted env) (sharing env crew) i (fun t _ => Relies crew i s t) (dist x) s) :
    Hnsw.Walkable (noted env) (sharing env crew) i dist (Readable base facts) where
  stable moved kept known := readable_stable grounds _ _ _ _ moved kept known
  lower le known := ⟨known.1, known.2.1.lower le, known.2.2⟩
  len s _ := by
    have reads : Secure (noted env) (sharing env crew) i (fun t _ => Relies crew i s t ∧ True)
        (call (.index .len)) s := by
      apply secure_read (fun _ _ => rfl) _ steady_true (fun _ => steady_true) trivial
      intro t _ _ _
      refine ⟨.inl ⟨t.1, t.1.index.len, rfl⟩, ?_⟩
      intro w answer done
      refine ⟨(index_read ?_ done).1, trivial⟩
      intro d u handled
      cases handled
      rfl
    apply reads.mono
    exact fun _ _ _ holds => holds.1
  links s layer x _ known := by
    have stable := readable_stable grounds layer
    apply secure_read (fun _ _ => rfl) _ (stable x) _ known
    · rintro t kept unhurried ⟨here, has, holds⟩
      obtain ⟨list, present⟩ := Option.isSome_iff_exists.mp (Hnsw.listAt_isSome.mpr has)
      have answered : Hnsw.handle (t.1.distances env) i t.1.index (.links x layer) =
          .ok t.1.index list := by
        unfold Hnsw.handle
        dsimp only
        rw [show (t.1.index.nodes.get x).bind (fun node => node.links[layer]?) = some list
          from present]
      refine ⟨.inl ⟨{ t.1 with index := t.1.index }, list, handle_index answered⟩, ?_⟩
      intro w other done
      have same := index_read (fun d u handled => (Hnsw.Hosts.links_reads handled).1) done
      refine ⟨same.1, ?_⟩
      rw [answered] at same
      obtain ⟨-, rfl⟩ := Reply.ok.inj same.2
      obtain ⟨node, held, at_⟩ := Option.bind_eq_some_iff.mp present
      intro y member
      refine ⟨here, ?_, grounds.listed kept unhurried here holds present y member⟩
      exact (kept.graphed.layered.links x node layer list y held at_ member).2
    · intro list t u moved kept listed y member
      exact stable y t u moved kept (listed y member)
  dist s layer x kept known := oracle s x kept ⟨known.1, known.2.1.lower (Nat.zero_le _), known.2.2⟩
  bounded := .inr fun _ _ _ known => known.2.1.lt_capacity

theorem entry_read (grounds : Grounds env crew i base facts) (here : base s) :
    Secure (noted env) (sharing env crew) i
      (fun t (packed : Nat) => Relies crew i s t ∧ (packed ≠ ENTRY_NONE →
        Readable base facts (unpackEntry packed).2 t (unpackEntry packed).1))
      (Hnsw.call .entry) s := by
  apply secure_read (fun _ _ => rfl) _ grounds.steady _ here
  · intro t kept unhurried there
    refine ⟨.inl ⟨t.1, t.1.index.entry, rfl⟩, ?_⟩
    intro w packed done
    obtain ⟨same, handled⟩ := index_read (by
      intro d u handled
      cases handled
      rfl) done
    refine ⟨same, ?_⟩
    have isEntry : t.1.index.entry = packed := (Reply.ok.inj handled).2
    subst isEntry
    intro some
    exact ⟨there, (kept.graphed.layered.entry_level some).layer le_rfl,
      grounds.entered kept unhurried there some⟩
  · intro packed t u moved kept named some
    exact readable_stable grounds _ _ t u moved kept (named some)

/-! ### Searches -/

/-- A hit is a row in the graph, at its distance from the query. -/
def Exactly (env : Env) (query : Row) (w : World) (n : Neighbor) : Prop :=
  (w.index.nodes.get n.id).isSome = true ∧ n.distance = env.kernel w.kernel query (w.row n.id)

theorem exactly_stable (env : Env) (crew : Crew) (i : Nat) (query : Row) (n : Neighbor) :
    (sharing env crew).Stable i fun s => Exactly env query s.1 n := by
  rintro s t moved - ⟨present, distance⟩
  refine ⟨isSome_grows (Relies.grows moved) present, ?_⟩
  rw [Relies.kernel moved, Relies.content moved n.id present]
  exact distance

theorem measure_exactly (query : Row) {x : Nat} (present : (s.1.index.nodes.get x).isSome = true) :
    Secure (noted env) (sharing env crew) i
      (fun t distance => Relies crew i s t ∧ Exactly env query t.1 ⟨x, distance⟩)
      (call (.measure query x)) s := by
  have stable : (sharing env crew).Stable i fun t => (t.1.index.nodes.get x).isSome = true :=
    fun _ _ moved _ there => isSome_grows (Relies.grows moved) there
  have after : ∀ distance : F32, (sharing env crew).Stable i fun t => Exactly env query t.1 ⟨x, distance⟩ :=
    fun distance => exactly_stable env crew i query ⟨x, distance⟩
  apply secure_read (fun _ _ => rfl) _ stable after present
  intro t _ _ there
  refine ⟨.inl ⟨t.1, _, rfl⟩, ?_⟩
  intro w distance done
  cases done
  exact ⟨rfl, there, rfl⟩

theorem grounds_stands (env : Env) (crew : Crew) (i : Nat) (st : Standing) :
    Grounds env crew i (Stands env crew i st) fun _ _ => True :=
  ⟨stands_stable env crew i st, fun _ _ _ => trivial, fun _ _ _ _ => trivial,
    fun _ _ _ _ _ _ _ => trivial⟩

theorem measure_scores (env : Env) (crew : Crew) (i : Nat) (st : Standing) (query : Row) :
    Hnsw.Scores (noted env) (sharing env crew) i (fun x => call (.measure query x))
      (Readable (Stands env crew i st) fun _ _ => True) (fun s => Exactly env query s.1) where
  walk := readable_walk (grounds_stands env crew i st) fun _ _ _ known =>
    (measure_exactly query (readable_present known)).mono fun _ _ _ holds => holds.1
  stable moved kept isExact := exactly_stable env crew i query _ _ _ moved kept isExact
  scored _ _ _ _ known := measure_exactly query (readable_present known)

def Found (env : Env) (crew : Crew) (i : Nat) (st : Standing) (query : Row) (k : Nat) (t : Shared) :
    Result (List Neighbor) → Prop
  | .ok hits => Stands env crew i st t ∧ Hnsw.Hits (Exactly env query t.1) k hits
  | .error _ => Stands env crew i st t

theorem Found.stands {query : Row} {k : Nat} {result : Result (List Neighbor)}
    (found : Found env crew i st query k t result) : Stands env crew i st t := by
  cases result with
  | ok hits => exact found.1
  | error e => exact found

theorem found_stable (env : Env) (crew : Crew) (i : Nat) (st : Standing) (query : Row) (k : Nat)
    (result : Result (List Neighbor)) :
    (sharing env crew).Stable i fun t => Found env crew i st query k t result := by
  intro s t moved kept found
  have stands := stands_stable env crew i st s t moved kept found.stands
  cases result with
  | error e => exact stands
  | ok hits =>
      obtain ⟨-, few, distinct, sorted, exacts⟩ := found
      refine ⟨stands, few, distinct, sorted, ?_⟩
      exact fun n member => exactly_stable env crew i query n s t moved kept (exacts n member)

theorem search_secure (query : Row) (k ef : Nat) (visited : VisitedSet)
    (kept : Consistent env crew s.1 s.2) (here : Stands env crew i st s) :
    Secure (noted env) (sharing env crew) i (fun t result => Found env crew i st query k t result)
      (search crew.db query k ef visited) s := by
  have stable := stands_stable env crew i st
  unfold search
  split
  · exact Secure.ret fun t moved keptThere => stable s t moved keptThere here
  · have hits := Hnsw.searchWithOracle_hits (measure_scores env crew i st query) visited k ef kept
      (entry_read (grounds_stands env crew i st) here)
    apply Secure.bind kept hits
    rintro t found keptThere ⟨moved, isFound⟩
    apply Secure.ret
    intro u later keptLater
    exact found_stable env crew i st query k (.ok found) t u later keptLater
      ⟨stable s t moved keptThere here, isFound⟩

/-! ### Searches over codes -/

def Browsing (env : Env) (crew : Crew) (i : Nat) (st : Standing) (pq : Option ProductQuantizer)
    (s : Shared) : Prop :=
  Stands env crew i st s ∧ s.1.pq.map PqState.pq = pq

theorem Stands.shares (stands : Stands env crew i st s) {lock : Lock} (mode : st.mode lock = .shared) :
    i ∈ (s.1.locks lock).shared := by
  apply List.count_pos_iff.mp
  rw [(stands.locks lock).shared, mode]
  exact Nat.zero_lt_one

theorem browsing_stable (env : Env) (crew : Crew) (i : Nat) (pq : Option ProductQuantizer)
    (mode : st.mode .pq = .shared) : (sharing env crew).Stable i (Browsing env crew i st pq) := by
  rintro s t moved kept ⟨stands, isPq⟩
  refine ⟨stands_stable env crew i st s t moved kept stands, ?_⟩
  rw [Relies.pq moved (.inl (stands.shares mode))]
  exact isPq

theorem grounds_browsing (env : Env) (crew : Crew) (i : Nat) (pq : Option ProductQuantizer)
    (mode : st.mode .pq = .shared) :
    Grounds env crew i (Browsing env crew i st pq) fun s x => crew.careful → Settled s x where
  steady := browsing_stable env crew i pq mode
  stable := by
    intro s t x moved _ settled careful
    exact (moved.rows x (.inr (settled careful))).settled (settled careful)
  entered := by
    rintro t kept unhurried ⟨stands, -⟩ some careful
    obtain ⟨node, held, -⟩ := kept.graphed.layered.entry_level some
    refine ⟨?_, unhurried careful (stands.shares mode) some⟩
    rw [kept.assigned.owners]
    exact kept.graphed.inside _ (congrArg Option.isSome held)
  listed := by
    rintro t layer x list kept unhurried ⟨stands, -⟩ - present y member careful
    obtain ⟨node, held, at_⟩ := Option.bind_eq_some_iff.mp present
    obtain ⟨other, there, -⟩ := (kept.graphed.layered.links x node layer list y held at_ member).2
    refine ⟨?_, unhurried careful (stands.shares mode) list present y member⟩
    rw [kept.assigned.owners]
    exact kept.graphed.inside y (congrArg Option.isSome there)

/-- A hit of a search over codes is a row in the graph; with a careful schedule its distance is the
one of its own code. -/
def Nearly (env : Env) (careful : Prop) (pq : ProductQuantizer) (query : Row) (w : World)
    (n : Neighbor) : Prop :=
  (w.index.nodes.get n.id).isSome = true ∧ (careful →
    n.distance = ProductQuantizer.adcDistance env.pq (pq.adcTable env.pq query)
      (pq.encode env.pq (w.row n.id)))

theorem nearly_stable (env : Env) (crew : Crew) (i : Nat) (pq : ProductQuantizer) (query : Row)
    (n : Neighbor) : (sharing env crew).Stable i fun s => Nearly env crew.careful pq query s.1 n := by
  rintro s t moved - ⟨present, distance⟩
  refine ⟨isSome_grows (Relies.grows moved) present, ?_⟩
  rw [Relies.content moved n.id present]
  exact distance

theorem score_nearly (pq : ProductQuantizer) (query : Row) (mode : st.mode .pq = .shared) {x layer : Nat}
    (known : Readable (Browsing env crew i st (some pq)) (fun s x => crew.careful → Settled s x) layer s x) :
    Secure (noted env) (sharing env crew) i
      (fun t distance => Relies crew i s t ∧ Nearly env crew.careful pq query t.1 ⟨x, distance⟩)
      (call (.score (pq.adcTable env.pq query) x)) s := by
  have after : ∀ distance : F32, (sharing env crew).Stable i fun t =>
      Nearly env crew.careful pq query t.1 ⟨x, distance⟩ :=
    fun distance => nearly_stable env crew i pq query ⟨x, distance⟩
  apply secure_read (fun _ _ => rfl) _ (readable_stable (grounds_browsing env crew i (some pq) mode) layer x)
    after known
  rintro t kept - ⟨⟨stands, isPq⟩, has, settled⟩
  obtain ⟨state, trained, rfl⟩ := Option.map_eq_some_iff.mp isPq
  have coded : crew.careful → x < t.1.store.count ∧ HasCode env state x (t.1.row x) := by
    intro careful
    obtain ⟨inside, complete⟩ := settled careful
    rw [kept.assigned.owners] at inside
    exact ⟨inside, (kept.coded state trained).codes x inside complete⟩
  refine ⟨fun careful => ⟨state, trained, coded careful⟩, ?_⟩
  intro w distance done
  unfold handle at done
  dsimp only at done
  cases scored : t.1.score env (state.pq.adcTable env.pq query) x with
  | none => rw [scored] at done; cases done
  | some value =>
      rw [scored] at done
      cases done
      obtain ⟨node, held, -⟩ := has
      refine ⟨rfl, congrArg Option.isSome held, ?_⟩
      intro careful
      obtain ⟨-, fits, code⟩ := coded careful
      unfold World.score at scored
      rw [trained] at scored
      dsimp only at scored
      rw [if_pos fits] at scored
      cases scored
      exact congrArg (ProductQuantizer.adcDistance env.pq (state.pq.adcTable env.pq query)) code

theorem score_scores (env : Env) (crew : Crew) (i : Nat) (pq : ProductQuantizer) (query : Row)
    (mode : st.mode .pq = .shared) :
    Hnsw.Scores (noted env) (sharing env crew) i
      (fun x => call (.score (pq.adcTable env.pq query) x))
      (Readable (Browsing env crew i st (some pq)) fun s x => crew.careful → Settled s x)
      (fun s => Nearly env crew.careful pq query s.1) where
  walk := readable_walk (grounds_browsing env crew i (some pq) mode) fun _ _ _ known =>
    (score_nearly pq query mode known).mono fun _ _ _ holds => holds.1
  stable moved kept nearly := nearly_stable env crew i pq query _ _ _ moved kept nearly
  scored _ _ _ _ known := score_nearly pq query mode known

theorem rescore_secure (query : Row) (hits : List Neighbor)
    (present : ∀ n ∈ hits, (s.1.index.nodes.get n.id).isSome = true)
    (kept : Consistent env crew s.1 s.2) :
    Secure (noted env) (sharing env crew) i
      (fun t found => Relies crew i s t ∧ found.map Neighbor.id = hits.map Neighbor.id ∧
        ∀ n ∈ found, Exactly env query t.1 n) (rescore query hits) s := by
  induction hits generalizing s with
  | nil => exact Secure.ret fun t moved _ => ⟨moved, rfl, nofun⟩
  | cons hit rest ih =>
      apply Secure.bind kept (measure_exactly query (present hit (List.mem_cons_self ..)))
      rintro t (distance : F32) keptThere ⟨moved, isExact⟩
      have later : ∀ n ∈ rest, (t.1.index.nodes.get n.id).isSome = true := fun n member =>
        isSome_grows moved.grows (present n (List.mem_cons_of_mem hit member))
      apply Secure.bind keptThere (ih later keptThere)
      rintro u others keptRest ⟨toRest, same, exacts⟩
      apply Secure.ret
      intro v last keptLast
      refine ⟨(moved.trans toRest).trans last, congrArg (hit.id :: ·) same, ?_⟩
      intro n member
      rcases List.mem_cons.mp member with rfl | old
      · exact exactly_stable env crew i query _ t v (toRest.trans last) keptLast isExact
      · exact exactly_stable env crew i query n u v last keptLast (exacts n old)

/-- What a search over codes has found: at most `k` rows, re-ranked by their distances or not. -/
def Ranking (env : Env) (careful : Prop) (query : Row) (k rerank : Nat) (w : World) :
    Result (List Neighbor) → Prop
  | .ok hits => ∃ pq, Hnsw.Hits
      (fun n => if rerank = 0 then Nearly env careful pq query w n else Exactly env query w n) k hits
  | .error _ => True

theorem ranking_stable (env : Env) (crew : Crew) (i : Nat) (query : Row) (k rerank : Nat)
    (result : Result (List Neighbor)) :
    (sharing env crew).Stable i fun t => Ranking env crew.careful query k rerank t.1 result := by
  intro s t moved kept ranking
  cases result with
  | error e => trivial
  | ok hits =>
      obtain ⟨pq, found⟩ := ranking
      refine ⟨pq, found.few, found.distinct, found.sorted, ?_⟩
      intro n member
      have before := found.exact n member
      split at before
      · rename_i raw
        rw [if_pos raw]
        exact nearly_stable env crew i pq query n s t moved kept before
      · rename_i ranked
        rw [if_neg ranked]
        exact exactly_stable env crew i query n s t moved kept before

theorem reranked {exact exact' : Neighbor → Prop} {fetch k : Nat} {hits found : List Neighbor}
    (searched : Hnsw.Hits exact fetch hits) (same : found.map Neighbor.id = hits.map Neighbor.id)
    (exacts : ∀ n ∈ found, exact' n) :
    Hnsw.Hits exact' k ((found.insertionSort (· ≤ ·)).take k) := by
  have sorted := found.perm_insertionSort (· ≤ ·)
  have front := List.take_sublist k (found.insertionSort (· ≤ ·))
  refine ⟨List.length_take_le k _, ?_, (found.pairwise_insertionSort (· ≤ ·)).sublist front, ?_⟩
  · apply List.Nodup.sublist (front.map Neighbor.id)
    rw [(sorted.map Neighbor.id).nodup_iff, same]
    exact searched.distinct
  · intro n member
    exact exacts n (sorted.mem_iff.mp (front.subset member))

theorem ranked_secure (pq : ProductQuantizer) (query : Row) (k ef rerank : Nat) (visited : VisitedSet)
    (mode : st.mode .pq = .shared) (kept : Consistent env crew s.1 s.2)
    (here : Browsing env crew i st (some pq) s) :
    Secure (noted env) (sharing env crew) i
      (fun t result => Stands env crew i st t ∧ Ranking env crew.careful query k rerank t.1 result)
      (if rerank ≠ 0 ∧ 2 ^ 64 ≤ k * rerank then
        pure (.error (.invalidArgument "k * rerank overflows"))
      else do
        let fetch := if rerank = 0 then k else k * rerank
        let table := pq.adcTable env.pq query
        let hits ← Hnsw.searchWithOracle (fun id => call (.score table id)) visited fetch (max ef fetch)
        if rerank = 0 then pure (.ok hits)
        else do
          let exactly ← rescore query hits
          pure (.ok ((exactly.insertionSort (· ≤ ·)).take k)) : Prog sig (Result (List Neighbor)))
      s := by
  have stable := stands_stable env crew i st
  split
  · exact Secure.ret fun t moved keptThere => ⟨stable s t moved keptThere here.1, trivial⟩
  · have hits := Hnsw.searchWithOracle_hits (score_scores env crew i pq query mode) visited
      (if rerank = 0 then k else k * rerank) (max ef (if rerank = 0 then k else k * rerank)) kept
      (entry_read (grounds_browsing env crew i (some pq) mode) here)
    apply Secure.bind kept hits
    rintro t found keptThere ⟨moved, isFound⟩
    have still := stable s t moved keptThere here.1
    split
    · rename_i raw
      apply Secure.ret
      intro u later keptLater
      refine ⟨stable t u later keptLater still, pq, ?_⟩
      rw [if_pos raw] at isFound
      refine ⟨isFound.few, isFound.distinct, isFound.sorted, ?_⟩
      intro n member
      rw [if_pos raw]
      exact nearly_stable env crew i pq query n t u later keptLater (isFound.exact n member)
    · rename_i ranked
      apply Secure.bind keptThere
        (rescore_secure query found (fun n member => (isFound.exact n member).1) keptThere)
      rintro u exactly keptExact ⟨toExact, same, exacts⟩
      apply Secure.ret
      intro v last keptLast
      refine ⟨stable t v (Relies.trans toExact last) keptLast still, pq, ?_⟩
      apply reranked isFound same
      intro n member
      rw [if_neg ranked]
      exact exactly_stable env crew i query n u v last keptLast (exacts n member)

theorem quantizer_secure (mode : st.mode .pq = .shared) (here : Stands env crew i st s) :
    Secure (noted env) (sharing env crew) i (fun t pq => Browsing env crew i st pq t)
      (call .quantizer) s := by
  have reads : Does (noted env) (sharing env crew) i .quantizer (Stands env crew i st)
      fun t pq => Browsing env crew i st pq t := by
    apply does_read
    · exact fun _ _ => rfl
    · exact fun _ ok => .inl ok
    · exact fun t _ stands => ⟨t.1.pq.map PqState.pq, rfl, stands, rfl⟩
  exact reads.secure (stands_stable env crew i st) (fun pq => browsing_stable env crew i pq mode) here

theorem searchPq_secure (calls : crew.calls i) (below : st.Below .pq) (query : Row)
    (k ef rerank : Nat) (visited : VisitedSet) (kept : Consistent env crew s.1 s.2)
    (here : Stands env crew i st s) :
    Secure (noted env) (sharing env crew) i
      (fun t result => Stands env crew i st t ∧ Ranking env crew.careful query k rerank t.1 result)
      (searchPq env crew.db query k ef rerank visited) s := by
  have stable := stands_stable env crew i st
  have ends : ∀ result, (sharing env crew).Stable i fun t =>
      Stands env crew i st t ∧ Ranking env crew.careful query k rerank t.1 result :=
    fun result => stable.and (ranking_stable env crew i query k rerank result)
  have wanted : (st.lock .pq (Mode.wanted false)).mode .pq = .shared := (lock_self st .pq _).trans rfl
  unfold searchPq
  split
  · exact Secure.ret fun t moved keptThere => ⟨stable s t moved keptThere here, trivial⟩
  apply secure_withLock false calls below kept here
  case gives =>
      rintro t result - (holds : Stands env crew i (st.lock .pq (Mode.wanted false)) t ∧
        Ranking env crew.careful query k rerank t.1 result)
      have releases : Does (noted env) (sharing env crew) i (.release .pq false)
          (fun t => Stands env crew i (st.lock .pq (Mode.wanted false)) t ∧
            Ranking env crew.careful query k rerank t.1 result)
          fun t _ => Stands env crew i st t ∧ Ranking env crew.careful query k rerank t.1 result := by
        have lockless : Lockless fun t => Ranking env crew.careful query k rerank t.1 result :=
          fun _ _ _ ranking => ranking
        exact (does_unlock false below.free).frame fun _ _ _ done ranking => lockless.release done ranking
      exact releases.secure ((stands_stable env crew i _).and (ranking_stable env crew i query k rerank
        result)) (fun _ => ends result) holds
  case stable => exact ends
  case runs =>
      intro t keptThere stands
      apply Secure.bind keptThere (quantizer_secure wanted stands)
      intro u pq keptPq browsing
      cases pq with
      | none =>
          apply Secure.ret
          intro v moved keptLater
          exact ⟨stands_stable env crew i _ u v moved keptLater browsing.1, trivial⟩
      | some pq => exact ranked_secure pq query k ef rerank visited wanted keptPq browsing

end Db

end Vektordb
