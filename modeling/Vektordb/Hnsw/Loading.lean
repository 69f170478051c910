import Vektordb.Hnsw.Closed
import Vektordb.Hnsw.Persist

/-!
What `load` accepts. A file is accepted exactly if it is the encoding of parts that pass the checks,
and these look at one field at a time: whether the graph can be walked is a property of all
parts together that none of them decides.
-/

namespace Vektordb

open Interaction LittleEndian

namespace Persist

/-- The parts of a snapshot file. -/
structure Snapshot where
  config : HnswConfig
  walLsn : Nat
  nodes : List Node
  entry : Nat

namespace Snapshot

def payload (s : Snapshot) : Bytes :=
  headerBytes s.config s.walLsn s.nodes.length s.entry ++ s.nodes.flatMap nodeBytes

def bytes (hash : Bytes → Nat) (s : Snapshot) : Bytes := s.payload ++ encode 4 (hash s.payload)

def index (s : Snapshot) : Hnsw := ⟨s.config, SegVec.ofList s.nodes, s.entry⟩

structure Checked (s : Snapshot) : Prop where
  m : 2 ≤ s.config.m ∧ s.config.m ≤ 4096
  efConstruction : s.config.efConstruction < 2 ^ 32
  walLsn : s.walLsn < 2 ^ 64
  count : s.nodes.length < 2 ^ 64
  nodes : ∀ node ∈ s.nodes, Storable s.config.m s.nodes.length node
  entry_lt : s.entry < 2 ^ 64
  entry : s.entry ≠ ENTRY_NONE →
    s.index.HasLevel (unpackEntry s.entry).1 (unpackEntry s.entry).2

end Snapshot

theorem storable_new {m count level : Nat} (small : level ≤ 63) :
    Storable m count (Node.new level) := by
  refine ⟨by rwa [Node.level_new], ?_, ?_⟩
  · intro layer list at_
    cases List.eq_of_mem_replicate (List.mem_of_getElem? at_)
    exact Nat.zero_le _
  · intro layer list at_ nb linked
    cases List.eq_of_mem_replicate (List.mem_of_getElem? at_)
    cases linked

theorem packEntry_unpackEntry {entry : Nat} (small : entry < 2 ^ 64) :
    packEntry (unpackEntry entry).1 (unpackEntry entry).2 = entry := by
  have parts : entry / 2 ^ 56 * 2 ^ 56 + entry % 2 ^ 56 = entry := Nat.div_add_mod' entry (2 ^ 56)
  unfold unpackEntry
  rw [packEntry_eq (Nat.mod_lt _ (by decide)) (by omega)]
  exact parts

/-! ### From the bytes to the parts -/

theorem readList_inv {m count layer : Nat} {list : List Nat} {bytes rest : Bytes}
    (done : readList m count layer bytes = .ok (list, rest)) :
    bytes = listBytes list ++ rest ∧ (list.length ≤ if layer = 0 then 2 * m else m) ∧
      ∀ nb ∈ list, nb < count := by
  obtain ⟨len, after, number, later⟩ := Reader.bind_inv done
  obtain ⟨parts, -⟩ := Reader.number_inv number
  obtain ⟨degree, links⟩ := Reader.check_inv later
  have one : ∀ bytes nb rest, readLink count bytes = .ok (nb, rest) →
      bytes = encode 8 nb ++ rest ∧ nb < count := by
    intro bytes nb rest read
    obtain ⟨value, left, taken, checked⟩ := Reader.bind_inv read
    obtain ⟨inside, returned⟩ := Reader.check_inv checked
    cases returned
    exact ⟨(Reader.number_inv taken).1, inside⟩
  obtain ⟨partsLinks, length, valid⟩ := Reader.many_inv one links
  subst length
  refine ⟨?_, degree, valid⟩
  rw [parts, partsLinks, listBytes, List.append_assoc]

theorem readLists_inv {m count layer left : Nat} {lists : List (List Nat)} {bytes rest : Bytes}
    (done : readLists m count layer left bytes = .ok (lists, rest)) :
    bytes = lists.flatMap listBytes ++ rest ∧ lists.length = left ∧
      ∀ (k : Nat) list, lists[k]? = some list →
        (list.length ≤ if layer + k = 0 then 2 * m else m) ∧ ∀ nb ∈ list, nb < count := by
  induction left generalizing layer lists bytes with
  | zero =>
      cases done
      exact ⟨rfl, rfl, fun k list at_ => by cases at_⟩
  | succ left ih =>
      obtain ⟨head, after, first, later⟩ := Reader.bind_inv done
      obtain ⟨tail, last, others, returned⟩ := Reader.bind_inv later
      cases returned
      obtain ⟨parts, degree, links⟩ := readList_inv first
      obtain ⟨partsTail, length, valid⟩ := ih others
      refine ⟨?_, by rw [List.length_cons, length], ?_⟩
      · rw [parts, partsTail, List.flatMap_cons, List.append_assoc]
      · intro k list at_
        cases k with
        | zero =>
            cases at_
            exact ⟨degree, links⟩
        | succ k =>
            have later := valid k list at_
            rwa [Nat.add_assoc, Nat.add_comm 1 k] at later

theorem readNode_inv {m count : Nat} {node : Node} {bytes rest : Bytes}
    (done : readNode m count bytes = .ok (node, rest)) :
    bytes = nodeBytes node ++ rest ∧ Storable m count node := by
  obtain ⟨level, after, number, later⟩ := Reader.bind_inv done
  obtain ⟨parts, -⟩ := Reader.number_inv number
  obtain ⟨small, lists⟩ := Reader.check_inv later
  obtain ⟨ground, behind, first, others⟩ := Reader.bind_inv lists
  obtain ⟨upper, last, rest', returned⟩ := Reader.bind_inv others
  cases returned
  obtain ⟨partsGround, degree, links⟩ := readList_inv first
  obtain ⟨partsUpper, length, valid⟩ := readLists_inv rest'
  subst length
  have each : ∀ (k : Nat) list, (ground :: upper)[k]? = some list →
      (list.length ≤ if k = 0 then 2 * m else m) ∧ ∀ nb ∈ list, nb < count := by
    intro k list at_
    cases k with
    | zero =>
        cases at_
        exact ⟨degree, links⟩
    | succ k =>
        have later := valid k list at_
        rwa [Nat.add_comm] at later
  refine ⟨?_, ⟨small, fun k list at_ => (each k list at_).1, fun k list at_ => (each k list at_).2⟩⟩
  rw [parts, partsGround, partsUpper]
  change _ = encode 4 upper.length ++ (ground :: upper).flatMap listBytes ++ rest
  rw [List.flatMap_cons, List.append_assoc, List.append_assoc]

theorem metricTag_of {tag : Nat} {metric : Metric} (found : metricFrom tag = .ok metric) :
    metricTag metric = tag := by
  match tag with
  | 0 => cases found; rfl
  | 1 => cases found; rfl
  | 2 => cases found; rfl
  | _ + 3 => cases found

theorem enter_inv {config : HnswConfig} {nodes : SegVec Node} {entry : Nat} {index : Hnsw}
    (small : entry < 2 ^ 64) (done : enter ⟨config, nodes, ENTRY_NONE⟩ entry = .ok index) :
    index = ⟨config, nodes, entry⟩ ∧
      (entry ≠ ENTRY_NONE → index.HasLevel (unpackEntry entry).1 (unpackEntry entry).2) := by
  unfold enter at done
  by_cases empty : entry = ENTRY_NONE
  · rw [if_pos empty] at done
    cases done
    exact ⟨by rw [empty], fun some => absurd empty some⟩
  · rw [if_neg empty] at done
    split at done
    · cases done
    · split at done
      · cases done
      · rename_i level
        cases done
        refine ⟨by rw [packEntry_unpackEntry small], fun _ => ?_⟩
        obtain ⟨node, held, same⟩ := Option.map_eq_some_iff.mp (not_not.mp level)
        exact ⟨node, held, same⟩

theorem load_inv {hash : Bytes → Nat} {file : Bytes} {index : Hnsw} {walLsn : Nat}
    (done : Hnsw.load hash file = .ok (index, walLsn)) :
    ∃ s : Snapshot, s.Checked ∧ file = s.bytes hash ∧ index = s.index ∧ walLsn = s.walLsn := by
  have read : ∃ out, readIndex hash file file = .ok out ∧ out.1 = (index, walLsn) := by
    unfold Hnsw.load at done
    cases verified : verifyCrc hash file with
    | error e =>
        rw [verified] at done
        cases done
    | ok checked =>
        rw [verified] at done
        change (readIndex hash file file >>= fun loaded => pure loaded.1) = _ at done
        cases parsed : readIndex hash file file with
        | error e =>
            rw [parsed] at done
            cases done
        | ok out =>
            rw [parsed] at done
            exact ⟨out, rfl, Except.ok.inj done⟩
  obtain ⟨⟨-, rest⟩, read, rfl⟩ := read
  have whole : ∀ stream, file = stream → readIndex hash file stream =
      .ok ((index, walLsn), rest) → ∃ s : Snapshot, s.Checked ∧ file = s.bytes hash ∧
        index = s.index ∧ walLsn = s.walLsn := by
    intro stream isFile read
    obtain ⟨magic, r₁, magicRead, read⟩ := Reader.bind_inv read
    obtain ⟨isMagic, read⟩ := Reader.check_inv read
    obtain ⟨version, r₂, versionRead, read⟩ := Reader.bind_inv read
    obtain ⟨isVersion, read⟩ := Reader.check_inv read
    obtain ⟨m, r₃, mRead, read⟩ := Reader.bind_inv read
    obtain ⟨ef, r₄, efRead, read⟩ := Reader.bind_inv read
    obtain ⟨tag, r₅, tagRead, read⟩ := Reader.bind_inv read
    obtain ⟨metric, metricFound, read⟩ := Reader.lift_inv read
    obtain ⟨lsn, r₆, lsnRead, read⟩ := Reader.bind_inv read
    obtain ⟨count, r₇, countRead, read⟩ := Reader.bind_inv read
    obtain ⟨entry, r₈, entryRead, read⟩ := Reader.bind_inv read
    obtain ⟨inRange, read⟩ := Reader.check_inv read
    obtain ⟨-, read⟩ := Reader.check_inv read
    obtain ⟨nodes, r₉, nodesRead, read⟩ := Reader.bind_inv read
    rw [Reader.remaining_bind] at read
    obtain ⟨crc, r₁₀, crcRead, read⟩ := Reader.bind_inv read
    obtain ⟨isCrc, read⟩ := Reader.check_inv read
    rw [Reader.remaining_bind] at read
    obtain ⟨isEmpty, read⟩ := Reader.check_inv read
    obtain ⟨entered, enterDone, read⟩ := Reader.lift_inv read
    cases read
    subst isMagic isVersion isCrc isEmpty
    obtain ⟨parts₁, -⟩ := Reader.number_inv magicRead
    obtain ⟨parts₂, -⟩ := Reader.number_inv versionRead
    obtain ⟨parts₃, -⟩ := Reader.number_inv mRead
    obtain ⟨parts₄, efSmall⟩ := Reader.number_inv efRead
    obtain ⟨parts₅, -⟩ := Reader.number_inv tagRead
    obtain ⟨parts₆, lsnSmall⟩ := Reader.number_inv lsnRead
    obtain ⟨parts₇, countSmall⟩ := Reader.number_inv countRead
    obtain ⟨parts₈, entrySmall⟩ := Reader.number_inv entryRead
    obtain ⟨parts₉, length, storable⟩ := Reader.many_inv (fun _ _ _ => readNode_inv) nodesRead
    obtain ⟨parts₁₀, -⟩ := Reader.number_inv crcRead
    obtain ⟨rfl, leveled⟩ := enter_inv entrySmall enterDone
    subst length
    let s : Snapshot := ⟨⟨m, ef, metric⟩, walLsn, nodes, entry⟩
    have front : file = s.payload ++ r₉ := by
      rw [isFile, parts₁, parts₂, parts₃, parts₄, parts₅, parts₆, parts₇, parts₈, parts₉,
        ← metricTag_of metricFound]
      simp only [s, Snapshot.payload, headerBytes, List.append_assoc]
    refine ⟨s, ⟨inRange, efSmall, lsnSmall, countSmall, storable, entrySmall, leveled⟩, ?_, rfl, rfl⟩
    have consumed : file.take (file.length - r₉.length) = s.payload := by
      rw [front, List.length_append, Nat.add_sub_cancel, List.take_left]
    rw [consumed, List.append_nil] at parts₁₀
    rw [front, parts₁₀, Snapshot.bytes]
  exact whole file rfl read

theorem load_bytes {hash : Bytes → Nat} (small : ∀ bytes, hash bytes < 2 ^ 32) {s : Snapshot}
    (checked : s.Checked) (room : s.nodes.length ≤ SegVec.CAPACITY) :
    Hnsw.load hash (s.bytes hash) = .ok (s.index, s.walLsn) := by
  have len : s.index.len = s.nodes.length := Nat.min_eq_left room
  have same : Persist.payload s.index s.walLsn s.nodes = s.payload := by
    unfold Persist.payload Snapshot.payload
    rw [len]
    rfl
  have config : { s.config with
      efConstruction := s.config.efConstruction % 2 ^ 32 } = s.config := by
    rw [Nat.mod_eq_of_lt checked.efConstruction]
  have entered : enter ⟨s.config, SegVec.ofList s.nodes, ENTRY_NONE⟩ s.entry = .ok s.index := by
    unfold enter
    by_cases empty : s.entry = ENTRY_NONE
    · rw [if_pos empty, Snapshot.index, empty]
    · obtain ⟨node, held, level⟩ := checked.entry empty
      have below : ¬ (SegVec.ofList s.nodes).len ≤ (unpackEntry s.entry).1 :=
        Nat.not_le.mpr (SegVec.get_lt_len held)
      have found : ((SegVec.ofList s.nodes).get (unpackEntry s.entry).1).map Node.level =
          some (unpackEntry s.entry).2 := Option.map_eq_some_iff.mpr ⟨node, held, level⟩
      unfold Hnsw.len
      dsimp only
      rw [if_neg empty, if_neg below, if_neg (not_not.mpr found), packEntry_unpackEntry checked.entry_lt]
      rfl
  rw [← config] at entered
  have read := readIndex_append small checked.count checked.walLsn checked.entry_lt len checked.m
    checked.nodes entered
  rw [same] at read
  unfold Snapshot.bytes
  rw [load_framed small, read]
  rfl

/-! ### Which accepted files can be walked -/

/-- The array has room for the nodes, a file with a node has an entry point, and every node that
can be reached from there, along the links of a layer and down the layers, has the layer on which
it is reached. -/
structure Snapshot.Navigable (s : Snapshot) : Prop where
  room : s.nodes.length ≤ SegVec.CAPACITY
  entered : s.nodes ≠ [] → s.entry ≠ ENTRY_NONE
  layers : ∀ layer x, s.index.Stands layer x → s.index.HasLayer layer x

theorem Snapshot.Navigable.usable {s : Snapshot} (navigable : s.Navigable) : s.index.Usable := by
  refine ⟨?_, ?_, ?_⟩
  · intro some
    apply navigable.entered
    rintro none
    have len : s.index.len = s.nodes.length := Nat.min_eq_left navigable.room
    rw [len, none] at some
    exact absurd some (Nat.lt_irrefl 0)
  · intro d oracle visited k ef
    obtain ⟨result, ran, among⟩ := Hnsw.search_done navigable.layers d oracle visited k ef
    refine ⟨result, ran, ?_⟩
    intro n member
    obtain ⟨node, held, -⟩ := navigable.layers 0 n.id (among n member)
    exact SegVec.get_lt_len held
  · intro d level visited small room
    exact Hnsw.insert_done navigable.layers d visited small room

theorem Snapshot.Checked.stands_lt {s : Snapshot} (checked : s.Checked)
    (room : s.nodes.length ≤ SegVec.CAPACITY) {layer x : Nat} (stands : s.index.Stands layer x) :
    x < s.nodes.length := by
  induction stands with
  | entry some =>
      obtain ⟨node, held, -⟩ := checked.entry some
      have below := SegVec.get_lt_len held
      rwa [show (s.index.nodes).len = s.nodes.length from Nat.min_eq_left room] at below
  | @along layer x y list _ present member _ =>
      obtain ⟨node, held, at_⟩ := Option.bind_eq_some_iff.mp present
      change (if x < SegVec.CAPACITY then s.nodes[x]? else none) = some node at held
      split at held
      · exact (checked.nodes node (List.mem_of_getElem? held)).links layer list at_ y member
      · cases held
  | down _ ih => exact ih

theorem Snapshot.Checked.ground {s : Snapshot} (_ : s.Checked)
    (room : s.nodes.length ≤ SegVec.CAPACITY) {x : Nat}
    (below : x < s.nodes.length) : s.index.HasLayer 0 x := by
  refine ⟨s.nodes[x], ?_, Nat.zero_le _⟩
  change (if x < SegVec.CAPACITY then s.nodes[x]? else none) = _
  rw [if_pos (by omega), List.getElem?_eq_getElem below]

end Persist

namespace Hnsw

/-- An index that every oracle may search can be walked: to a node without the layer on which it is
reached the greedy descent could be led. -/
theorem Usable.navigable {g : Hnsw} {count : Nat} (usable : Usable g)
    (inside : ∀ layer x, Stands g layer x → x < count) (few : count ≤ 0x7F800000)
    (ground : ∀ x < count, g.HasLayer 0 x) {layer x : Nat} (stands : Stands g layer x) :
    g.HasLayer layer x := by
  cases layer with
  | zero => exact ground x (inside 0 x stands)
  | succ layer =>
      obtain ⟨n, node, layers, trail⟩ := stands.trail
      have through : ∀ r ≤ n, node r < count := by
        intro r le
        obtain ⟨l, here⟩ := trail.stands r le
        exact inside l _ here
      obtain ⟨oracle, rank, ranked, ranks, -⟩ := trail.guide through few
      obtain ⟨result, ran, -⟩ := usable.search (fun _ _ => F32.infinity) oracle VisitedSet.new 1 1
      obtain ⟨middle, found, best, -, -, descended, -⟩ := search_inv stands.some ran
      have onTrail : rank (unpackEntry g.entry).1 ≤ n := by
        rw [← trail.start]
        exact ranked.le n le_rfl
      have here : rank (unpackEntry g.entry).1 = 0 ∨
          layers (rank (unpackEntry g.entry).1 - 1) ≤ (unpackEntry g.entry).2 := by
        rcases Nat.eq_zero_or_pos (rank (unpackEntry g.entry).1) with ended | some
        · exact .inl ended
        · exact .inr (trail.le_top _ (by omega))
      obtain ⟨-, -, -, -, read⟩ :=
        descend_guided ranked ranks (Nat.zero_le _) onTrail here descended
      exact read (layer + 1) (Nat.succ_pos layer) trail.low_le_top trail.low_le

/-- A file that is accepted although its graph cannot be walked is the only way in which `load`
returns an index that is not usable. The converse is for files of fewer than `2 ^ 31 - 2 ^ 23`
nodes, for which there are enough finite distances to lead a descent to any node. -/
theorem load_usable_iff {hash : Bytes → Nat} (small : ∀ bytes, hash bytes < 2 ^ 32)
    (file : Bytes) :
    (((¬ ∃ s : Persist.Snapshot, s.Checked ∧ file = s.bytes hash) ∨
        ∃ s : Persist.Snapshot, s.Checked ∧ file = s.bytes hash ∧ s.Navigable) →
      (∃ e, load hash file = .error e) ∨ ∃ g lsn, load hash file = .ok (g, lsn) ∧ Usable g) ∧
    (file.length ≤ 8 * 0x7F800000 →
      ((∃ e, load hash file = .error e) ∨ ∃ g lsn, load hash file = .ok (g, lsn) ∧ Usable g) →
      (¬ ∃ s : Persist.Snapshot, s.Checked ∧ file = s.bytes hash) ∨
        ∃ s : Persist.Snapshot, s.Checked ∧ file = s.bytes hash ∧ s.Navigable) := by
  constructor
  · rintro (rejected | ⟨s, checked, rfl, navigable⟩)
    · left
      cases loaded : load hash file with
      | error e => exact ⟨e, rfl⟩
      | ok out =>
          obtain ⟨s, checked, same, -⟩ := Persist.load_inv loaded
          exact absurd ⟨s, checked, same⟩ rejected
    · exact .inr ⟨s.index, s.walLsn, Persist.load_bytes small checked navigable.room,
        navigable.usable⟩
  · intro short property
    by_cases described : ∃ s : Persist.Snapshot, s.Checked ∧ file = s.bytes hash
    · right
      obtain ⟨s, checked, rfl⟩ := described
      have few : s.nodes.length ≤ 0x7F800000 := by
        have all := Persist.nodesBytes_length s.nodes
        rw [Persist.Snapshot.bytes, Persist.Snapshot.payload, List.length_append,
          List.length_append] at short
        omega
      have room : s.nodes.length ≤ SegVec.CAPACITY := by
        rw [SegVec.CAPACITY_eq]
        omega
      have loaded := Persist.load_bytes small checked room
      rw [loaded] at property
      rcases property with ⟨e, rejected⟩ | ⟨g, lsn, same, usable⟩
      · cases rejected
      · cases same
        refine ⟨s, checked, rfl, room, ?_, fun layer x stands => ?_⟩
        · intro some
          apply usable.entered
          rw [show s.index.len = s.nodes.length from Nat.min_eq_left room]
          exact List.length_pos_iff.mpr some
        · exact usable.navigable (fun l y => checked.stands_lt room) few
            (fun y below => checked.ground room below) stands
    · exact .inl described

def misled : Persist.Snapshot where
  config := ⟨2, 4, .l2⟩
  walLsn := 0
  nodes := [⟨[[], [1]], by decide⟩, Node.new 0]
  entry := packEntry 0 1

theorem misled_checked : misled.Checked where
  m := by decide
  efConstruction := by decide
  walLsn := by decide
  count := by decide
  nodes := by
    intro node member
    rcases List.mem_cons.mp member with rfl | member
    · refine ⟨by decide, ?_, ?_⟩
      · rintro (_ | _ | layer) list at_ <;> cases at_ <;> decide
      · rintro (_ | _ | layer) list at_ <;> cases at_ <;> decide
    · obtain rfl := List.mem_singleton.mp member
      exact Persist.storable_new (by decide)
  entry_lt := by decide
  entry := fun _ => ⟨⟨[[], [1]], by decide⟩, by decide +kernel, by decide +kernel⟩

theorem load_misled : ¬ ∀ file, (∃ e, load Crc32.hash file = .error e) ∨
    ∃ g lsn, load Crc32.hash file = .ok (g, lsn) ∧ Usable g := by
  intro all
  have loaded := Persist.load_bytes Crc32.hash_lt misled_checked (by decide)
  rcases all (misled.bytes Crc32.hash) with ⟨e, rejected⟩ | ⟨g, lsn, same, usable⟩
  · rw [loaded] at rejected
    cases rejected
  · rw [loaded] at same
    cases same
    have entered : Stands misled.index 1 0 := .entry (by decide)
    have stands : Stands misled.index 1 1 :=
      @Stands.along misled.index 1 0 1 [1] entered (by decide) (by decide)
    obtain ⟨node, held, le⟩ := usable.navigable
      (fun _ _ => misled_checked.stands_lt (by decide)) (by decide)
      (fun _ below => misled_checked.ground (by decide) below) stands
    have level : (misled.index.nodes.get 1).map Node.level = some 0 := by decide
    rw [held] at level
    have ground : node.level = 0 := Option.some.inj level
    omega

def linkedPair : Persist.Snapshot where
  config := ⟨2, 4, .l2⟩
  walLsn := 0
  nodes := [⟨[[1], [1]], by decide⟩, ⟨[[0], [0]], by decide⟩]
  entry := packEntry 0 1

theorem linkedPair_checked : linkedPair.Checked where
  m := by decide
  efConstruction := by decide
  walLsn := by decide
  count := by decide
  nodes := by
    intro node member
    rcases List.mem_cons.mp member with rfl | member
    · refine ⟨by decide, ?_, ?_⟩
      · rintro (_ | _ | layer) list at_ <;> cases at_ <;> decide
      · rintro (_ | _ | layer) list at_ <;> cases at_ <;> decide
    · obtain rfl := List.mem_singleton.mp member
      refine ⟨by decide, ?_, ?_⟩
      · rintro (_ | _ | layer) list at_ <;> cases at_ <;> decide
      · rintro (_ | _ | layer) list at_ <;> cases at_ <;> decide
  entry_lt := by decide
  entry := fun _ => ⟨⟨[[1], [1]], by decide⟩, by decide +kernel, by decide +kernel⟩

theorem linkedPair_navigable : linkedPair.Navigable := by
  refine ⟨by decide, fun _ => by decide, ?_⟩
  intro layer x stands
  have below : x < 2 := linkedPair_checked.stands_lt (by decide) stands
  have low : layer ≤ 1 := by
    clear below
    induction stands with
    | entry some => decide
    | along _ _ _ ih => exact ih
    | down _ ih => exact Nat.le_of_succ_le ih
  have levels : ∀ y < 2, (linkedPair.index.nodes.get y).map Node.level = some 1 := by decide
  obtain ⟨node, held, level⟩ := Option.map_eq_some_iff.mp (levels x below)
  exact ⟨node, held, low.trans_eq level.symm⟩

theorem load_usable_iff_pair : ∃ g lsn,
    load Crc32.hash (linkedPair.bytes Crc32.hash) = .ok (g, lsn) ∧ Usable g := by
  have loaded := Persist.load_bytes Crc32.hash_lt linkedPair_checked (by decide)
  rcases (load_usable_iff Crc32.hash_lt (linkedPair.bytes Crc32.hash)).1
    (.inr ⟨linkedPair, linkedPair_checked, rfl, linkedPair_navigable⟩) with ⟨e, rejected⟩ | usable
  · rw [loaded] at rejected
    cases rejected
  · exact usable

end Hnsw

end Vektordb
