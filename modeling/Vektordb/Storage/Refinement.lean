import Vektordb.Storage.Rows

/-!
The store as a list. Whatever sequence of appends, rollbacks, flushes and reopenings has been
performed, the store behaves as the list of the vectors appended and not taken back, and a
reopened store as the list at the last flush.
-/

namespace Vektordb

open LittleEndian

namespace VectorStore

def flush (store : VectorStore) (file : StoreFile) : StoreFile :=
  store.syncPages (store.storeCount file)

/-- The states of one store with the list that it stands for and the list at the last flush. The
last component says that the last call was an append that may still be undone. -/
inductive Run (dim : Nat) : VectorStore → StoreFile → List Row → List Row → Bool → Prop
  | create {store : VectorStore} {file : StoreFile} (done : create dim = .ok (store, file)) :
      Run dim store file [] [] false
  | append {store next : VectorStore} {file after : StoreFile} {rows flushed : List Row}
      {undo : Bool} {vector : Row} {id : Nat} (before : Run dim store file rows flushed undo)
      (done : store.append file vector = (.ok id, next, after)) :
      Run dim next after (rows ++ [vector]) flushed true
  | refused {store next : VectorStore} {file after : StoreFile} {rows flushed : List Row}
      {undo : Bool} {vector : Row} {e : Error} (before : Run dim store file rows flushed undo)
      (done : store.append file vector = (.error e, next, after)) :
      Run dim next after rows flushed false
  | unmapped {store next : VectorStore} {file after : StoreFile} {rows flushed : List Row}
      {undo extended : Bool} {vector : Row} {e : Error}
      (before : Run dim store file rows flushed undo)
      (done : store.appendUnmapped file vector extended = (.error e, next, after)) :
      Run dim next after rows flushed false
  | rollback {store next : VectorStore} {file : StoreFile} {rows flushed : List Row} {vector : Row}
      (before : Run dim store file (rows ++ [vector]) flushed true)
      (done : store.rollbackLast rows.length = (.ok (), next)) : Run dim next file rows flushed false
  | flush {store : VectorStore} {file : StoreFile} {rows flushed : List Row} {undo : Bool}
      (before : Run dim store file rows flushed undo) :
      Run dim store (store.flush file) rows rows false
  | reopen {store next : VectorStore} {file : StoreFile} {rows flushed : List Row} {undo : Bool}
      (before : Run dim store file rows flushed undo) (done : VectorStore.open file = .ok next) :
      Run dim next file flushed flushed false

/-- What holds of a store that stands for a list. -/
structure Represents (dim : Nat) (store : VectorStore) (file : StoreFile)
    (rows flushed : List Row) (undo : Bool) : Prop where
  sameDim : store.dim = dim
  count : store.count = rows.length
  attached : Attached store file
  formatted : Formatted dim file.image
  holds : Holds dim file.image rows
  header : headerCount file.image = flushed.length
  front : flushed <+: rows
  undoable : undo = true → flushed.length < rows.length

theorem Represents.reaches {dim : Nat} {store : VectorStore} {file : StoreFile}
    {rows flushed : List Row} {undo : Bool} (rep : Represents dim store file rows flushed undo) :
    Reaches dim rows.length file := by
  have reaches := rep.attached.reaches
  rwa [rep.sameDim, rep.count] at reaches

theorem Represents.append {dim : Nat} {store next : VectorStore} {file after : StoreFile}
    {rows flushed : List Row} {undo : Bool} {vector : Row} {result : Result Nat}
    (rep : Represents dim store file rows flushed undo)
    (done : store.append file vector = (result, next, after)) :
    (∃ e, result = .error e ∧ Represents dim next after rows flushed false) ∨
      (result = .ok rows.length ∧ Represents dim next after (rows ++ [vector]) flushed true) := by
  obtain ⟨grown, mapped, growth, attached, outcome⟩ := append_cases rep.attached done
  have same : SameRows dim rows.length file.image grown.image :=
    growth.sameRows rep.reaches.rows
  have formatted := same.formatted rep.formatted
  have holds := rep.holds.same same
  have header := same.header.symm.trans rep.header
  rcases outcome with ⟨e, rfl, rfl, rfl⟩ | ⟨rfl, sameLength, rfl, segment, rfl⟩
  · exact .inl ⟨e, rfl, rep.sameDim, rep.count, attached, formatted, holds, header, rep.front, nofun⟩
  · right
    have address : rowAddress store.rowStride store.count =
        HEADER_SIZE + rows.length * strideFor dim := by
      rw [rowAddress_eq, rep.attached.stride, rep.sameDim, rep.count]
    have behind : SameRows dim rows.length grown.image
        (grown.image.write (rowAddress store.rowStride store.count) vector.toLeBytes) :=
      sameRows_write grown.image _ address.ge
    refine ⟨congrArg Except.ok rep.count, rep.sameDim, ?_, ?_, behind.formatted formatted, ?_,
      behind.header.symm.trans header, rep.front.trans (List.prefix_append _ _), fun _ => ?_⟩
    · rw [List.length_append, List.length_singleton, ← rep.count]
    · refine { attached.write _ _ with counted := fun id below => ?_ }
      have order := locate_mono (Nat.le_of_lt_succ below)
      exact order.trans_lt segment
    · show Holds dim (grown.image.write (rowAddress store.rowStride store.count)
        vector.toLeBytes) (rows ++ [vector])
      rw [address]
      exact holds.push (sameLength.trans rep.sameDim)
    · have le := rep.front.length_le
      rw [List.length_append, List.length_singleton]
      omega

theorem Represents.grown {dim : Nat} {store : VectorStore} {file after : StoreFile}
    {rows flushed : List Row} {undo : Bool} (rep : Represents dim store file rows flushed undo)
    (growth : Grown file after) : Represents dim store after rows flushed false := by
  have same : SameRows dim rows.length file.image after.image := growth.sameRows rep.reaches.rows
  exact ⟨rep.sameDim, rep.count, rep.attached.grown growth, same.formatted rep.formatted,
    rep.holds.same same, same.header.symm.trans rep.header, rep.front, nofun⟩

theorem Represents.unmapped {dim : Nat} {store next : VectorStore} {file after : StoreFile}
    {rows flushed : List Row} {undo extended : Bool} {vector : Row} {e : Error}
    (rep : Represents dim store file rows flushed undo)
    (done : store.appendUnmapped file vector extended = (.error e, next, after)) :
    Represents dim next after rows flushed false := by
  rcases appendUnmapped_cases rep.attached done with plain | ⟨-, rfl, growth⟩
  · rcases rep.append plain with ⟨-, -, after⟩ | ⟨same, -⟩
    · exact after
    · cases same
  · exact rep.grown growth

theorem Represents.rollback {dim : Nat} {store : VectorStore} {file : StoreFile}
    {rows flushed : List Row} {vector : Row}
    (rep : Represents dim store file (rows ++ [vector]) flushed true) :
    store.rollbackLast rows.length = (.ok (), { store with count := rows.length }) ∧
      Represents dim { store with count := rows.length } file rows flushed false := by
  have count := rep.count
  rw [List.length_append, List.length_singleton] at count
  refine ⟨?_, rep.sameDim, rfl, rep.attached.recount (by omega), rep.formatted,
    rep.holds.front (List.prefix_append _ _), rep.header, ?_, nofun⟩
  · unfold rollbackLast
    rw [if_neg (not_not.mpr count)]
  · have shorter := rep.undoable rfl
    rw [List.length_append, List.length_singleton] at shorter
    exact List.prefix_of_prefix_length_le rep.front (List.prefix_append _ _) (by omega)

theorem Represents.storeCount {dim : Nat} {store : VectorStore} {file : StoreFile}
    {rows flushed : List Row} {undo : Bool} (rep : Represents dim store file rows flushed undo) :
    Represents dim store (store.storeCount file) rows rows false := by
  have capacity := rep.attached.count_le
  have small : store.count < 2 ^ 64 := by
    rw [CAPACITY_eq, SegVec.CAPACITY_eq] at capacity
    omega
  obtain ⟨formatted, header, same⟩ := storeCount_spec rep.formatted small
  refine ⟨rep.sameDim, rep.count, rep.attached.write _ _, formatted, fun id row at_ => ?_,
    header.trans rep.count, List.prefix_rfl, nofun⟩
  exact (same id).trans (rep.holds id row at_)

theorem Represents.syncPages {dim : Nat} {store : VectorStore} {file : StoreFile}
    {rows flushed : List Row} {undo : Bool} (rep : Represents dim store file rows flushed undo) :
    Represents dim store (store.syncPages file) rows flushed undo :=
  ⟨rep.sameDim, rep.count, rep.attached.sync _, rep.formatted, rep.holds, rep.header, rep.front,
    rep.undoable⟩

theorem Represents.flush {dim : Nat} {store : VectorStore} {file : StoreFile}
    {rows flushed : List Row} {undo : Bool} (rep : Represents dim store file rows flushed undo) :
    Represents dim store (store.flush file) rows rows false := rep.storeCount.syncPages

theorem Represents.reopen {dim : Nat} {store : VectorStore} {file : StoreFile}
    {rows flushed : List Row} {undo : Bool} (rep : Represents dim store file rows flushed undo) :
    ∃ next, VectorStore.open file = .ok next ∧ Represents dim next file flushed flushed false := by
  obtain ⟨mapped, opened, attached⟩ := open_ok rep.formatted
    (rep.header ▸ rep.reaches.mono rep.front.length_le)
  exact ⟨_, opened, rfl, rep.header, attached, rep.formatted, rep.holds.front rep.front,
    rep.header, List.prefix_rfl, nofun⟩

theorem Run.represents {dim : Nat} {store : VectorStore} {file : StoreFile}
    {rows flushed : List Row} {undo : Bool} (run : Run dim store file rows flushed undo) :
    Represents dim store file rows flushed undo := by
  induction run with
  | create done =>
      have range : 0 < dim ∧ dim < 2 ^ 32 := by
        unfold VectorStore.create at done
        split at done
        · cases done
        · omega
      obtain ⟨store', file', created, sameDim, count, attached, formatted, header, -⟩ :=
        create_ok range.1 range.2
      rw [created] at done
      cases done
      exact ⟨sameDim, count, attached, formatted, nofun, header, List.prefix_rfl, nofun⟩
  | append _ done ih =>
      rcases ih.append done with ⟨e, same, -⟩ | ⟨-, rep⟩
      · cases same
      · exact rep
  | refused _ done ih =>
      rcases ih.append done with ⟨-, -, rep⟩ | ⟨same, -⟩
      · exact rep
      · cases same
  | unmapped _ done ih => exact ih.unmapped done
  | rollback _ done ih =>
      obtain ⟨undone, rep⟩ := ih.rollback
      rw [done] at undone
      cases undone
      exact rep
  | flush _ ih => exact ih.flush
  | reopen _ done ih =>
      obtain ⟨next, opened, rep⟩ := ih.reopen
      rw [done] at opened
      cases opened
      exact rep

theorem get_eq {dim : Nat} {store : VectorStore} {file : StoreFile} {rows flushed : List Row}
    {undo : Bool} (rep : Represents dim store file rows flushed undo) (id : Nat) :
    store.get file id = match rows[id]? with
      | some row => .ok row
      | none => .error (.idOutOfRange id) := by
  unfold VectorStore.get
  cases at_ : rows[id]? with
  | none =>
      have outside := List.getElem?_eq_none_iff.mp at_
      rw [if_pos (by rw [rep.count]; exact outside)]
  | some row =>
      have below : id < rows.length := (List.getElem?_eq_some_iff.mp at_).1
      rw [if_neg (by rw [rep.count]; omega), getUnchecked_eq rep.attached.stride, rep.sameDim,
        rep.holds id row at_]

/-- An append maps at most one segment, so one that fails has not touched anything. -/
theorem append_error {store next : VectorStore} {file after : StoreFile} {vector : Row} {e : Error}
    (attached : Attached store file) (done : store.append file vector = (.error e, next, after)) :
    next = store ∧ after = file ∧ ∀ message, e ≠ .io message := by
  have near : (locate store.count).1 ≤ store.mapped := by
    cases counted : store.count with
    | zero => exact Nat.zero_le _
    | succ last =>
        have below := attached.counted last (by omega)
        have next := Doubling.segment_succ_le (by decide : 0 < BASE_ROWS) last
        exact next.trans below
  unfold append ensureMapped at done
  dsimp only at done
  split at done
  · cases done
    exact ⟨rfl, rfl, fun message same => by cases same⟩
  · by_cases full : MAX_SEGMENTS < (locate store.count).1 + 1
    · rw [if_pos full] at done
      cases done
      exact ⟨rfl, rfl, fun message same => by cases same⟩
    · rw [if_neg full] at done
      have few : (locate store.count).1 + 1 - store.mapped = 0 ∨
          (locate store.count).1 + 1 - store.mapped = 1 := by omega
      rcases few with none | one
      · rw [none] at done
        cases done
      · rw [one, List.range'_succ, List.range'_zero, mapSegments,
          mapSegment_eq attached.stride_pos] at done
        by_cases overflows : 2 ^ 64 ≤ segEnd store.rowStride store.mapped
        · rw [if_pos overflows] at done
          cases done
          exact ⟨rfl, rfl, fun message same => by cases same⟩
        · rw [if_neg overflows] at done
          by_cases longer : file.len < segEnd store.rowStride store.mapped
          · rw [if_pos longer] at done
            cases done
          · rw [if_neg longer] at done
            cases done

theorem Represents.append_ok {dim : Nat} {store : VectorStore} {file : StoreFile}
    {rows flushed : List Row} {undo : Bool} {vector : Row}
    (rep : Represents dim store file rows flushed undo) (sameLength : vector.length = dim)
    (inside : rows.length < CAPACITY)
    (fits : segEnd (strideFor dim) (locate rows.length).1 < 2 ^ 64) :
    ∃ next after, store.append file vector = (.ok rows.length, next, after) := by
  obtain ⟨result, next, after, done⟩ :
      ∃ result next after, store.append file vector = (result, next, after) := ⟨_, _, _, rfl⟩
  rcases rep.append done with ⟨e, rfl, -⟩ | ⟨rfl, -⟩
  · exfalso
    obtain ⟨same, -⟩ := append_error rep.attached done
    have segment := (locate_lt_iff rows.length).mpr inside
    unfold VectorStore.append ensureMapped at done
    dsimp only at done
    rw [if_neg (not_not.mpr (sameLength.trans rep.sameDim.symm)), rep.count,
      if_neg (by omega)] at done
    obtain ⟨outcome, mappedStore, grown, mapping⟩ :
        ∃ outcome mappedStore grown, mapSegments true (List.range' store.mapped
          ((locate rows.length).1 + 1 - store.mapped)) store file =
            (outcome, mappedStore, grown) := ⟨_, _, _, rfl⟩
    rw [mapping] at done
    cases outcome with
    | ok value => cases done
    | error other =>
        have all : ∀ seg ∈ List.range' store.mapped ((locate rows.length).1 + 1 - store.mapped),
            segEnd store.rowStride seg < 2 ^ 64 := by
          intro seg member
          have range := List.mem_range'_1.mp member
          rw [rep.attached.stride, rep.sameDim]
          exact (segEnd_mono (by omega)).trans_lt fits
        cases mapSegments_extends store rep.attached.stride_pos all mapping
  · exact ⟨next, after, done⟩

/-! ### Addresses -/

theorem locate_bijOn : Set.BijOn locate {id | id < 1024 * (2 ^ 40 - 1)}
    {place | place.1 < 40 ∧ place.2 < 1024 * 2 ^ place.1} := by
  refine ⟨fun id inside => ?_, (Doubling.locate_injective BASE_ROWS).injOn, fun place inside => ?_⟩
  · exact ⟨(locate_lt_iff id).mpr inside, Doubling.position_lt (by decide) id⟩
  · obtain ⟨seg, row⟩ := place
    have found : locate (Doubling.start BASE_ROWS seg + row) = (seg, row) :=
      Doubling.locate_start_add inside.2
    refine ⟨Doubling.start BASE_ROWS seg + row, ?_, found⟩
    refine (locate_lt_iff _).mp ?_
    rw [found]
    exact inside.1

theorem rows_disjoint (dim : Nat) {i j : Nat} (before : i < j) :
    rowAddress (strideFor dim) i + dim * 4 ≤ rowAddress (strideFor dim) j := by
  have bounds := strideFor_bounds dim
  have order : (i + 1) * strideFor dim ≤ j * strideFor dim := Nat.mul_le_mul_right _ before
  rw [Nat.succ_mul] at order
  rw [rowAddress_eq, rowAddress_eq]
  omega

theorem rowAddress_aligned (dim id : Nat) : rowAddress (strideFor dim) id % 64 = 0 := by
  have aligned : strideFor dim % 64 = 0 := (strideFor_bounds dim).2.1
  have row : id * strideFor dim % 64 = 0 := by
    rw [Nat.mul_mod, aligned, Nat.mul_zero, Nat.zero_mod]
  rw [rowAddress_eq]
  unfold HEADER_SIZE
  omega

theorem segByteOffset_spec {dim seg offset : Nat} (positive : 0 < dim)
    (found : segByteOffset (strideFor dim) seg = .ok offset) :
    offset % 4096 = 0 ∧ ∀ id, (locate id).1 = seg →
      offset ≤ rowAddress (strideFor dim) id ∧
        rowAddress (strideFor dim) id + dim * 4 ≤ offset + segRows seg * strideFor dim := by
  have bounds := strideFor_bounds dim
  rw [segByteOffset_eq (by omega)] at found
  split at found
  · cases found
  · cases found
    refine ⟨?_, fun id within => ?_⟩
    · have aligned : strideFor dim % 64 = 0 := bounds.2.1
      obtain ⟨units, whole⟩ := Nat.dvd_of_mod_eq_zero aligned
      rw [whole, show BASE_ROWS * (2 ^ seg - 1) * (64 * units) =
        4096 * (16 * ((2 ^ seg - 1) * units)) by unfold BASE_ROWS; ring]
      unfold HEADER_SIZE
      omega
    · subst within
      have position : ((locate id).2 + 1) * strideFor dim ≤
          segRows (locate id).1 * strideFor dim :=
        Nat.mul_le_mul_right _ (Doubling.position_lt (by decide) id)
      rw [Nat.succ_mul] at position
      unfold rowAddress
      omega

/-- The store refines a list, and its addressing is a bijection without overlaps. -/
theorem refines_list (dim : Nat) :
    (0 < dim → dim < 2 ^ 32 → ∃ store file, create dim = .ok (store, file)) ∧
    (∀ store file rows flushed undo, Run dim store file rows flushed undo →
      store.count = rows.length ∧
      (∀ id, store.get file id = match rows[id]? with
        | some row => .ok row
        | none => .error (.idOutOfRange id)) ∧
      (∀ vector result next after, store.append file vector = (result, next, after) →
        result = .ok rows.length ∨ next = store ∧ after = file) ∧
      (∀ vector extended e next after,
        store.appendUnmapped file vector extended = (.error e, next, after) →
          next = store ∧ ∀ id, next.get after id = store.get file id) ∧
      (∀ vector, vector.length = dim → rows.length < CAPACITY →
        segEnd (strideFor dim) (locate rows.length).1 < 2 ^ 64 →
        ∃ next after, store.append file vector = (.ok rows.length, next, after)) ∧
      (undo = true → ∃ next, store.rollbackLast (rows.length - 1) = (.ok (), next)) ∧
      ∃ next, VectorStore.open file = .ok next) ∧
    Set.BijOn locate {id | id < 1024 * (2 ^ 40 - 1)}
      {place | place.1 < 40 ∧ place.2 < 1024 * 2 ^ place.1} ∧
    (∀ i j, i ≠ j → rowAddress (strideFor dim) i + dim * 4 ≤ rowAddress (strideFor dim) j ∨
      rowAddress (strideFor dim) j + dim * 4 ≤ rowAddress (strideFor dim) i) ∧
    (∀ id, rowAddress (strideFor dim) id % 64 = 0) ∧
    ∀ seg offset, 0 < dim → segByteOffset (strideFor dim) seg = .ok offset →
      offset % 4096 = 0 ∧ ∀ id, (locate id).1 = seg →
        offset ≤ rowAddress (strideFor dim) id ∧
          rowAddress (strideFor dim) id + dim * 4 ≤ offset + segRows seg * strideFor dim := by
  refine ⟨fun positive small => ?_, fun store file rows flushed undo run => ?_, locate_bijOn,
    fun i j apart => ?_, rowAddress_aligned dim, fun seg offset positive =>
      segByteOffset_spec positive⟩
  · obtain ⟨store, file, created, -⟩ := create_ok positive small
    exact ⟨store, file, created⟩
  · have rep := run.represents
    refine ⟨rep.count, get_eq rep, fun vector result next after done => ?_,
      fun vector extended e next after done => ⟨?_, fun id => ?_⟩,
      fun vector sameLength inside fits => rep.append_ok sameLength inside fits, fun last => ?_, ?_⟩
    · rcases rep.append done with ⟨e, rfl, -⟩ | ⟨same, -⟩
      · obtain ⟨same, sameFile, -⟩ := append_error rep.attached done
        exact .inr ⟨same, sameFile⟩
      · exact .inl same
    · rcases appendUnmapped_cases rep.attached done with plain | ⟨-, same, -⟩
      · exact (append_error rep.attached plain).1
      · exact same
    · rw [get_eq rep, get_eq (rep.unmapped done)]
    · subst last
      have some : rows ≠ [] := fun empty => by
        have longer := rep.undoable rfl
        rw [empty] at longer
        exact absurd longer (Nat.not_lt_zero _)
      obtain ⟨front, vector, rfl⟩ : ∃ front vector, rows = front ++ [vector] :=
        ⟨rows.dropLast, rows.getLast some, (List.dropLast_append_getLast some).symm⟩
      rw [List.length_append, List.length_singleton, Nat.add_sub_cancel]
      exact ⟨_, rep.rollback.1⟩
    · obtain ⟨next, opened, -⟩ := rep.reopen
      exact ⟨next, opened⟩
  · rcases Nat.lt_or_gt_of_ne apart with before | after
    · exact .inl (rows_disjoint dim before)
    · exact .inr (rows_disjoint dim after)

theorem refines_list_flushed : ∃ store file, create 1 = .ok (store, file) ∧
    ∃ next after, store.append file [F32.ofNat 7] = (.ok 0, next, after) ∧
      next.count = 1 ∧ next.get (next.flush after) 0 = .ok [F32.ofNat 7] ∧
      ∃ again, VectorStore.open (next.flush after) = .ok again := by
  obtain ⟨⟨store, file, created⟩, runs, -⟩ :=
    (refines_list 1).imp_left fun exists_ => exists_ (by decide) (by decide)
  have first := Run.create created
  obtain ⟨-, -, -, -, appends, -⟩ := runs store file [] [] false first
  obtain ⟨next, after, appended⟩ := appends [F32.ofNat 7] rfl (by decide) (by decide)
  have flushed := (first.append appended).flush
  obtain ⟨count, get, -, -, -, -, reopens⟩ := runs next (next.flush after) _ _ _ flushed
  exact ⟨store, file, created, next, after, appended, count, get 0, reopens⟩

end VectorStore

end Vektordb
