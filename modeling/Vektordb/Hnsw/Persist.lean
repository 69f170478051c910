import Vektordb.Hnsw.Sequential
import Vektordb.Codec.Reader
import Vektordb.Codec.Crc32

/-!
Snapshots of the graph. `save` writes the whole index with a checksum behind it, and `load`
checks every length it is about to trust; `load_save` says which graphs come back unchanged.
-/

namespace Vektordb

open LittleEndian

namespace Persist

def MAGIC : Nat := 0x564B534E

def VERSION : Nat := 1

/-- `read_exact` past the end of the file. -/
def shortRead : Error := .io "failed to fill whole buffer"

def u32 : Reader Error Nat := Reader.number shortRead 4

def u64 : Reader Error Nat := Reader.number shortRead 8

def metricTag : Metric → Nat
  | .l2 => 0
  | .dot => 1
  | .cosine => 2

def metricFrom : Nat → Result Metric
  | 0 => .ok .l2
  | 1 => .ok .dot
  | 2 => .ok .cosine
  | _ => .error (.corrupt "unknown metric tag")

theorem metricFrom_metricTag (metric : Metric) : metricFrom (metricTag metric) = .ok metric := by
  cases metric <;> rfl

def verifyCrc (hash : Bytes → Nat) (file : Bytes) : Result Unit :=
  if file.length < 4 then .error (.corrupt "snapshot: truncated")
  else if decode (file.drop (file.length - 4)) ≠ hash (file.take (file.length - 4)) then
    .error (.corrupt "snapshot: checksum mismatch")
  else .ok ()

/-! ### Writing -/

def listBytes (list : List Nat) : Bytes := encode 4 list.length ++ list.flatMap (encode 8)

def nodeBytes (node : Node) : Bytes := encode 4 node.level ++ node.links.flatMap listBytes

/-- Everything before the nodes; numbers are cast to the width of their field. -/
def headerBytes (config : HnswConfig) (walLsn count entry : Nat) : Bytes :=
  encode 4 MAGIC ++ (encode 4 VERSION ++ (encode 4 config.m ++ (encode 4 config.efConstruction ++
    (encode 1 (metricTag config.metric) ++ (encode 8 walLsn ++ (encode 8 count ++
      encode 8 entry))))))

def payload (g : Hnsw) (walLsn : Nat) (nodes : List Node) : Bytes :=
  headerBytes g.config walLsn g.len g.entry ++ nodes.flatMap nodeBytes

end Persist

open Persist

/-- The bytes of a snapshot; `none` if a slot below the length was never published. -/
def Hnsw.save (hash : Bytes → Nat) (g : Hnsw) (walLsn : Nat) : Option Bytes := do
  let nodes ← (List.range g.len).mapM g.nodes.get
  some (payload g walLsn nodes ++ encode 4 (hash (payload g walLsn nodes)))

/-! ### Reading -/

/-- `set` of the nodes read, from slot 0 on; no file holds more of them than there are slots. -/
def SegVec.ofList {α : Type} (values : List α) : SegVec α where
  slot index := if index < SegVec.CAPACITY then values[index]? else none
  len := min values.length SegVec.CAPACITY
  slot_lt index value held := by
    split at held
    · rename_i inside
      have below := (List.getElem?_eq_some_iff.mp held).1
      exact ⟨inside, lt_min below inside⟩
    · cases held
  last := by
    rcases Nat.eq_zero_or_pos (min values.length SegVec.CAPACITY) with empty | positive
    · exact .inl empty
    · right
      rw [if_pos (by omega), List.getElem?_eq_getElem (by omega)]
      rfl

namespace Persist

def readLink (count : Nat) : Reader Error Nat := do
  let nb ← u64
  Reader.check (nb < count) (.corrupt "snapshot: link out of range")
  pure nb

def readList (m count layer : Nat) : Reader Error (List Nat) := do
  let len ← u32
  Reader.check (len ≤ if layer = 0 then 2 * m else m) (.corrupt "snapshot: absurd degree")
  Reader.many (readLink count) len

def readLists (m count : Nat) : Nat → Nat → Reader Error (List (List Nat))
  | _, 0 => pure []
  | layer, left + 1 => do
      let list ← readList m count layer
      let lists ← readLists m count (layer + 1) left
      pure (list :: lists)

def readNode (m count : Nat) : Reader Error Node := do
  let level ← u32
  Reader.check (level ≤ 63) (.corrupt "snapshot: absurd level")
  let ground ← readList m count 0
  let upper ← readLists m count 1 level
  pure ⟨ground :: upper, List.cons_ne_nil _ _⟩

def enter (index : Hnsw) (entry : Nat) : Result Hnsw :=
  if entry = ENTRY_NONE then .ok index
  else if index.len ≤ (unpackEntry entry).1 then
    .error (.corrupt "snapshot: entry out of range")
  else if (index.nodes.get (unpackEntry entry).1).map Node.level ≠ some (unpackEntry entry).2 then
    .error (.corrupt "snapshot: entry level mismatch")
  else .ok { index with entry := packEntry (unpackEntry entry).1 (unpackEntry entry).2 }

def readIndex (hash : Bytes → Nat) (file : Bytes) : Reader Error (Hnsw × Nat) := do
  let magic ← u32
  Reader.check (magic = MAGIC) (.corrupt "snapshot: bad magic")
  let version ← u32
  Reader.check (version = VERSION) (.corrupt "snapshot: unsupported version")
  let m ← u32
  let efConstruction ← u32
  let tag ← Reader.number shortRead 1
  let metric ← liftM (metricFrom tag)
  let walLsn ← u64
  let count ← u64
  let entry ← u64
  Reader.check (2 ≤ m ∧ m ≤ 4096) (.corrupt "snapshot: HNSW M out of range")
  Reader.check (count ≤ file.length / 8) (.corrupt "snapshot: impossible node count")
  let nodes ← Reader.many (readNode m count) count
  let rest ← Reader.remaining
  let crc ← u32
  Reader.check (crc = hash (file.take (file.length - rest.length)))
    (.corrupt "snapshot: checksum mismatch")
  let trailing ← Reader.remaining
  Reader.check (trailing = []) (.corrupt "snapshot: trailing bytes")
  let index ← liftM (enter ⟨⟨m, efConstruction, metric⟩, SegVec.ofList nodes, ENTRY_NONE⟩ entry)
  pure (index, walLsn)

end Persist

def Hnsw.load (hash : Bytes → Nat) (file : Bytes) : Result (Hnsw × Nat) := do
  verifyCrc hash file
  let loaded ← readIndex hash file file
  pure loaded.1

/-! ### Round trip -/

namespace Persist

theorem mapM_range {α : Type} {f : Nat → Option α} {n : Nat}
    (all : ∀ i < n, (f i).isSome = true) : ∃ values, (List.range n).mapM f = some values ∧
      values.length = n ∧ ∀ i < n, values[i]? = f i := by
  induction n with
  | zero => exact ⟨[], rfl, rfl, fun i below => absurd below (Nat.not_lt_zero i)⟩
  | succ n ih =>
      obtain ⟨values, done, length, at_⟩ := ih fun i below => all i (Nat.lt_succ_of_lt below)
      obtain ⟨last, isLast⟩ := Option.isSome_iff_exists.mp (all n (Nat.lt_succ_self n))
      refine ⟨values ++ [last], ?_, by rw [List.length_append, length]; rfl, fun i below => ?_⟩
      · rw [List.range_succ, List.mapM_append, done]
        simp only [List.mapM_cons, List.mapM_nil, isLast, Option.pure_def, Option.bind_eq_bind,
          Option.bind_some]
      · rcases Nat.lt_succ_iff_lt_or_eq.mp below with old | rfl
        · rw [List.getElem?_append_left (length.symm ▸ old), at_ i old]
        · rw [List.getElem?_append_right (by rw [length]), length, Nat.sub_self, isLast]
          rfl

/-- A node that `load` takes back as it was written. -/
structure Storable (m count : Nat) (node : Node) : Prop where
  level : node.level ≤ 63
  degree : ∀ (layer : Nat) list, node.links[layer]? = some list →
    list.length ≤ if layer = 0 then 2 * m else m
  links : ∀ (layer : Nat) list, node.links[layer]? = some list → ∀ nb ∈ list, nb < count

theorem readList_append {m count : Nat} (layer : Nat) {list : List Nat} (small : m ≤ 4096)
    (few : count < 2 ^ 64) (degree : list.length ≤ if layer = 0 then 2 * m else m)
    (links : ∀ nb ∈ list, nb < count) (rest : Bytes) :
    readList m count layer (listBytes list ++ rest) = .ok (list, rest) := by
  have short : list.length < 256 ^ 4 := by
    have bound : (if layer = 0 then 2 * m else m) ≤ 8192 := by split <;> omega
    omega
  have reads : ∀ nb ∈ list, ∀ rest, readLink count (encode 8 nb ++ rest) = .ok (nb, rest) := by
    intro nb member rest
    have below := links nb member
    have fits : nb < 256 ^ 8 := by omega
    unfold readLink u64
    rw [Reader.bind_ok (Reader.number_append fits rest), Reader.check_bind below]
    rfl
  unfold readList listBytes u32
  rw [List.append_assoc, Reader.bind_ok (Reader.number_append short _), Reader.check_bind degree]
  exact Reader.many_append reads rest

theorem readLists_append {m count : Nat} (small : m ≤ 4096) (few : count < 2 ^ 64)
    (layer : Nat) {lists : List (List Nat)}
    (degree : ∀ (k : Nat) list, lists[k]? = some list → list.length ≤ if layer + k = 0 then 2 * m else m)
    (links : ∀ list ∈ lists, ∀ nb ∈ list, nb < count) (rest : Bytes) :
    readLists m count layer lists.length (lists.flatMap listBytes ++ rest) =
      .ok (lists, rest) := by
  induction lists generalizing layer with
  | nil => rfl
  | cons list tail ih =>
      have head := readList_append layer small few (degree 0 list rfl)
        (links list (List.mem_cons_self ..)) (tail.flatMap listBytes ++ rest)
      have others := ih (layer + 1) (fun k other at_ => by
        have bound := degree (k + 1) other at_
        rwa [Nat.add_left_comm, Nat.add_comm] at bound)
        fun other member => links other (List.mem_cons_of_mem list member)
      rw [List.flatMap_cons, List.append_assoc, List.length_cons, readLists, Reader.bind_ok head,
        Reader.bind_ok others]
      rfl

theorem readNode_append {m count : Nat} (small : m ≤ 4096) (few : count < 2 ^ 64) {node : Node}
    (storable : Storable m count node) (rest : Bytes) :
    readNode m count (nodeBytes node ++ rest) = .ok (node, rest) := by
  obtain ⟨links, notEmpty⟩ := node
  cases links with
  | nil => exact absurd rfl notEmpty
  | cons ground upper =>
      have level : (⟨ground :: upper, notEmpty⟩ : Node).level = upper.length := rfl
      have bound : upper.length ≤ 63 := storable.level
      have fits : upper.length < 256 ^ 4 := by omega
      have first := readList_append 0 small few (storable.degree 0 ground rfl)
        (storable.links 0 ground rfl) (upper.flatMap listBytes ++ rest)
      have others := readLists_append small few 1
        (fun k list at_ => by
          rw [Nat.add_comm]
          exact storable.degree (k + 1) list at_)
        (fun list member => by
          obtain ⟨k, at_⟩ := List.mem_iff_getElem?.mp member
          exact storable.links (k + 1) list at_) rest
      unfold readNode nodeBytes u32
      rw [level, List.append_assoc, List.flatMap_cons, List.append_assoc,
        Reader.bind_ok (Reader.number_append fits _), Reader.check_bind bound,
        Reader.bind_ok first, Reader.bind_ok others]
      rfl

theorem nodeBytes_length (node : Node) : 8 ≤ (nodeBytes node).length := by
  obtain ⟨links, notEmpty⟩ := node
  cases links with
  | nil => exact absurd rfl notEmpty
  | cons ground upper =>
      simp only [nodeBytes, listBytes, List.flatMap_cons, List.length_append, encode_length]
      omega

theorem nodesBytes_length (nodes : List Node) : 8 * nodes.length ≤ (nodes.flatMap nodeBytes).length := by
  induction nodes with
  | nil => exact le_rfl
  | cons node tail ih =>
      have head := nodeBytes_length node
      rw [List.flatMap_cons, List.length_append, List.length_cons]
      omega

theorem payload_length (g : Hnsw) (walLsn : Nat) (nodes : List Node) :
    8 * nodes.length ≤ (payload g walLsn nodes).length := by
  have all := nodesBytes_length nodes
  rw [payload, List.length_append]
  omega

theorem verifyCrc_append {hash : Bytes → Nat} (bounded : ∀ bytes, hash bytes < 2 ^ 32)
    (body : Bytes) : verifyCrc hash (body ++ encode 4 (hash body)) = .ok () := by
  have length : (body ++ encode 4 (hash body)).length = body.length + 4 := by
    rw [List.length_append, encode_length]
  unfold verifyCrc
  rw [length, Nat.add_sub_cancel, List.drop_left, List.take_left,
    decode_encode_of_lt (bounded body), if_neg (by omega), if_neg (by simp)]

theorem load_framed {hash : Bytes → Nat} (bounded : ∀ bytes, hash bytes < 2 ^ 32) (body : Bytes) :
    Hnsw.load hash (body ++ encode 4 (hash body)) =
      (readIndex hash (body ++ encode 4 (hash body)) (body ++ encode 4 (hash body))).map
        fun loaded => loaded.1 := by
  unfold Hnsw.load
  rw [verifyCrc_append bounded]
  cases readIndex hash (body ++ encode 4 (hash body)) (body ++ encode 4 (hash body)) with
  | error e => rfl
  | ok loaded => rfl

theorem readIndex_append {hash : Bytes → Nat} (bounded : ∀ bytes, hash bytes < 2 ^ 32)
    {g index : Hnsw} {walLsn : Nat} {nodes : List Node} (few : nodes.length < 2 ^ 64)
    (smallLsn : walLsn < 2 ^ 64) (smallEntry : g.entry < 2 ^ 64) (len : g.len = nodes.length)
    (m : 2 ≤ g.config.m ∧ g.config.m ≤ 4096)
    (storable : ∀ node ∈ nodes, Storable g.config.m nodes.length node)
    (entered : enter ⟨{ g.config with efConstruction := g.config.efConstruction % 2 ^ 32 },
      SegVec.ofList nodes, ENTRY_NONE⟩ g.entry = .ok index) :
    readIndex hash (payload g walLsn nodes ++ encode 4 (hash (payload g walLsn nodes)))
        (payload g walLsn nodes ++ encode 4 (hash (payload g walLsn nodes))) =
      .ok ((index, walLsn), []) := by
  have enough : nodes.length ≤
      (payload g walLsn nodes ++ encode 4 (hash (payload g walLsn nodes))).length / 8 := by
    have long := payload_length g walLsn nodes
    rw [List.length_append]
    omega
  have tag : metricTag g.config.metric < 256 ^ 1 := by cases g.config.metric <;> decide
  have all := Reader.many_append
    (fun node member rest => readNode_append m.2 few (storable node member) rest)
    (encode 4 (hash (payload g walLsn nodes)))
  have checksum : Reader.number shortRead 4 (encode 4 (hash (payload g walLsn nodes))) =
      .ok (hash (payload g walLsn nodes), []) := by
    rw [← List.append_nil (encode 4 _)]
    exact Reader.number_append (bounded (payload g walLsn nodes)) []
  have consumed : (payload g walLsn nodes ++ encode 4 (hash (payload g walLsn nodes))).take
      ((payload g walLsn nodes ++ encode 4 (hash (payload g walLsn nodes))).length -
        (encode 4 (hash (payload g walLsn nodes))).length) = payload g walLsn nodes := by
    rw [List.length_append, Nat.add_sub_cancel, List.take_left]
  generalize file : payload g walLsn nodes ++ encode 4 (hash (payload g walLsn nodes)) = bytes
  have parts : bytes = encode 4 MAGIC ++ (encode 4 VERSION ++ (encode 4 g.config.m ++
      (encode 4 g.config.efConstruction ++ (encode 1 (metricTag g.config.metric) ++
        (encode 8 walLsn ++ (encode 8 nodes.length ++ (encode 8 g.entry ++
          (nodes.flatMap nodeBytes ++ encode 4 (hash (payload g walLsn nodes)))))))))) := by
    rw [← file]
    unfold payload headerBytes
    simp only [List.append_assoc, len]
  rw [file] at enough consumed
  suffices reads : ∀ stream, bytes = stream → readIndex hash bytes stream =
      .ok ((index, walLsn), []) from reads bytes rfl
  intro stream same
  rw [same.symm.trans parts]
  unfold readIndex u32 u64
  rw [Reader.bind_ok (Reader.number_append (by decide) _), Reader.check_bind rfl,
    Reader.bind_ok (Reader.number_append (by decide) _), Reader.check_bind rfl,
    Reader.bind_ok (Reader.number_append (by omega) _),
    Reader.bind_ok (Reader.number_append_mod 4 g.config.efConstruction _),
    Reader.bind_ok (Reader.number_append tag _), metricFrom_metricTag,
    Reader.lift_bind,
    Reader.bind_ok (Reader.number_append smallLsn _),
    Reader.bind_ok (Reader.number_append few _),
    Reader.bind_ok (Reader.number_append smallEntry _),
    Reader.check_bind m, Reader.check_bind enough, Reader.bind_ok all,
    Reader.remaining_bind,
    Reader.bind_ok checksum, Reader.check_bind (by rw [consumed]),
    Reader.remaining_bind, Reader.check_bind rfl]
  show (liftM (enter _ g.entry) >>= fun index => pure (index, walLsn) :
    Reader Error (Hnsw × Nat)) [] = _
  rw [show (256 : Nat) ^ 4 = 2 ^ 32 from rfl, entered]
  rfl

/-- The index that `load` builds from the nodes of a dense graph is that graph. -/
theorem ofList_eq {g : Hnsw} {n : Nat} {nodes : List Node} (dense : g.Dense n)
    (inside : n ≤ SegVec.CAPACITY) (length : nodes.length = n)
    (same : ∀ i < n, nodes[i]? = g.nodes.get i) : SegVec.ofList nodes = g.nodes := by
  refine SegVec.ext (fun id => ?_)
    ((Nat.min_eq_left (by omega)).trans (length.trans dense.1.symm))
  show (if id < SegVec.CAPACITY then nodes[id]? else none) = g.nodes.get id
  by_cases below : id < n
  · rw [if_pos (below.trans_le inside), same id below]
  · have absent : g.nodes.get id = none := by
      simpa only [Option.not_isSome_iff_eq_none] using (dense.2 id).not.mpr below
    rw [List.getElem?_eq_none (by omega), absent]
    split <;> rfl

theorem storable_of_dense {g : Hnsw} {n id : Nat} {node : Node} (layered : g.Layered)
    (bounded : g.Bounded) (dense : g.Dense n) (levels : ∀ id level, g.HasLevel id level → level ≤ 63)
    (held : g.nodes.get id = some node) : Storable g.config.m n node where
  level := levels id node.level ⟨node, held, rfl⟩
  degree layer list present := by
    have within := (bounded id node layer list held present).2
    unfold HnswConfig.maxDegree at within
    rwa [Nat.mul_comm] at within
  links layer list present nb member := by
    obtain ⟨-, other, published, -⟩ := layered.links id node layer list nb held present member
    exact (dense.2 nb).mp (by rw [published]; rfl)

theorem entry_lt {g : Hnsw} (layered : g.Layered) : g.entry < 2 ^ 64 := by
  by_cases empty : g.entry = ENTRY_NONE
  · rw [empty]
    decide
  · obtain ⟨id, level, has, same⟩ := layered.entry empty
    have small := layered.levels id level has
    have inside := Hnsw.lt_two_pow_56 (has.layer le_rfl).lt_capacity
    rw [same, packEntry_eq inside (by omega)]
    omega

theorem enter_eq {g : Hnsw} {n : Nat} (layered : g.Layered) (dense : g.Dense n)
    (config : HnswConfig) : enter ⟨config, g.nodes, ENTRY_NONE⟩ g.entry =
      .ok ⟨config, g.nodes, g.entry⟩ := by
  unfold enter
  by_cases empty : g.entry = ENTRY_NONE
  · rw [if_pos empty, empty]
  · obtain ⟨id, level, has, same⟩ := layered.entry empty
    have parts := layered.unpack has
    obtain ⟨node, held, sameLevel⟩ := has
    have below : id < n := (dense.2 id).mp (by rw [held]; rfl)
    have len : g.nodes.len = n := dense.1
    rw [if_neg empty, same, parts, if_neg (by show ¬ g.nodes.len ≤ id; omega),
      if_neg (by rw [held]; simp [sameLevel])]

end Persist

open Persist

theorem Hnsw.load_save {hash : Bytes → Nat} (small : ∀ bytes, hash bytes < 2 ^ 32) {g : Hnsw}
    {n walLsn : Nat} (layered : g.Layered) (bounded : g.Bounded) (dense : g.Dense n)
    (inside : n ≤ SegVec.CAPACITY) (m : 2 ≤ g.config.m ∧ g.config.m ≤ 4096)
    (levels : ∀ id level, g.HasLevel id level → level ≤ 63) (smallLsn : walLsn < 2 ^ 64) :
    ∃ bytes, g.save hash walLsn = some bytes ∧ load hash bytes = .ok
      ({ g with config := { g.config with
        efConstruction := g.config.efConstruction % 2 ^ 32 } }, walLsn) := by
  have len : g.len = n := dense.1
  obtain ⟨nodes, collected, length, same⟩ := mapM_range (f := g.nodes.get) (n := n)
    fun i below => (dense.2 i).mpr below
  have few : nodes.length < 2 ^ 64 := by
    rw [SegVec.CAPACITY_eq] at inside
    omega
  have storable : ∀ node ∈ nodes, Storable g.config.m nodes.length node := by
    intro node member
    obtain ⟨i, at_⟩ := List.mem_iff_getElem?.mp member
    have below : i < n := by
      rw [← length]
      exact (List.getElem?_eq_some_iff.mp at_).1
    rw [length]
    exact storable_of_dense layered bounded dense levels ((same i below).symm.trans at_)
  have entered := enter_eq layered dense
    { g.config with efConstruction := g.config.efConstruction % 2 ^ 32 }
  rw [← ofList_eq dense inside length same] at entered
  have reads := readIndex_append small few smallLsn (entry_lt layered) (len.trans length.symm) m
    storable entered
  refine ⟨payload g walLsn nodes ++ encode 4 (hash (payload g walLsn nodes)), ?_, ?_⟩
  · simp only [save, len, collected, Option.bind_eq_bind, Option.bind_some]
  · rw [ofList_eq dense inside length same] at reads
    rw [load_framed small, reads]
    rfl

/-- Loading what was saved of any graph of non-overlapping inserts gives that graph. -/
theorem Hnsw.load_save_build {hash : Bytes → Nat} (small : ∀ bytes, hash bytes < 2 ^ 32)
    {d : Distances} {level : Nat → Nat} {config : HnswConfig} {n walLsn : Nat} {g : Hnsw}
    (levels : ∀ id, level id ≤ 63) (ef : config.efConstruction < 2 ^ 32)
    (built : build d level config n = some g) (smallLsn : walLsn < 2 ^ 64) :
    ∃ bytes, g.save hash walLsn = some bytes ∧ load hash bytes = .ok (g, walLsn) := by
  have fits : ∀ id, level id < 255 := fun id => by
    have bound := levels id
    omega
  obtain ⟨sound, inside⟩ := build_sound fits built
  obtain ⟨same, m⟩ := build_config fits built
  have bounds : ∀ id l, g.HasLevel id l → l ≤ 63 := by
    rintro id l ⟨node, held, rfl⟩
    have below : id < n := (sound.dense.2 id).mp (by rw [held]; rfl)
    obtain ⟨other, heldToo, sampled⟩ := sound.levels id below
    rw [held] at heldToo
    cases heldToo
    rw [sampled]
    exact levels id
  obtain ⟨bytes, saved, loaded⟩ := load_save small sound.layered sound.bounded sound.dense inside
    (by rw [same]; exact m) bounds smallLsn
  refine ⟨bytes, saved, ?_⟩
  rw [loaded, Nat.mod_eq_of_lt (by rw [same]; exact ef)]

theorem Hnsw.load_save_build_pair : ∃ g bytes,
    build (fun a b => ⟨UInt32.ofNat (a + b)⟩) (fun id => id % 2) ⟨2, 4, .l2⟩ 2 = some g ∧
      g.save Crc32.hash 5 = some bytes ∧ load Crc32.hash bytes = .ok (g, 5) := by
  have done : (build (fun a b => ⟨UInt32.ofNat (a + b)⟩) (fun id => id % 2) ⟨2, 4, .l2⟩ 2).isSome =
      true := by decide +kernel
  obtain ⟨g, built⟩ := Option.isSome_iff_exists.mp done
  have levels : ∀ id, id % 2 ≤ 63 := fun id => by omega
  obtain ⟨bytes, saved, loaded⟩ :=
    load_save_build Crc32.hash_lt levels (by decide) built (by decide : 5 < 2 ^ 64)
  exact ⟨g, bytes, built, saved, loaded⟩

end Vektordb
