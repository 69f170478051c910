import Vektordb.Db.Service

/-!
Opening what any calls have left. Wherever a process was stopped, its directory has a store file that
can be mapped, a log and a snapshot that belong together, and a header that counts what the snapshot
covers. Opening keeps that at every step, and where it succeeds the database is at rest.
-/

namespace Vektordb

open Interaction LittleEndian VectorStore

namespace Db

/-- A directory that a process may have left. -/
structure Intact (env : Env) (dir : Directory) : Prop where
  stored : ∀ file, dir.store = some file → ∃ dim, Formatted dim file.image ∧
    Reaches dim (headerCount file.image) file
  journal : ∃ entries next, Journal env dir entries next
  ahead : ∀ len mark, Mark env dir len mark → len ≤ headerCount dir.file.image

/-- A store and an index with nobody at work on them; rows may still be without a node. -/
structure Loaded (w : World) : Prop where
  shelved : Shelved w.db w.store w.dir
  graphed : Graphed w.db w.index w.store.count
  dense : w.index.Dense w.index.len
  owners : w.owners.length = w.store.count
  counted : headerCount w.dir.file.image ≤ w.store.count

/-- What recovery changes: there are more rows and nodes. -/
structure Restored (first w : World) : Prop where
  rest : w = { first with
    store := w.store, dir := { first.dir with store := w.dir.store }, index := w.index,
    owners := w.owners, refusals := w.refusals }
  header : headerCount w.dir.file.image = headerCount first.dir.file.image
  grown : first.store.count ≤ w.store.count
  config : w.index.config = first.index.config

variable {env : Env} {dir : Directory} {first w t : World}

/-- A new directory; somebody may have put a codebook there. -/
def newDirectory (codebook : Option Bytes) : Directory := ⟨none, none, codebook, none⟩

theorem intact_new (env : Env) (codebook : Option Bytes) : Intact env (newDirectory codebook) := by
  refine ⟨nofun, ⟨[], 0, (journal_empty env).moved rfl rfl⟩, ?_⟩
  intro len mark marked
  cases marked with
  | fresh => exact Nat.zero_le _
  | snapshot bytes index _ isSnap => cases isSnap

theorem Restored.refl (w : World) : Restored w w := ⟨rfl, rfl, le_rfl, rfl⟩

theorem Restored.sameDir (restored : Restored first w) :
    w.dir = { first.dir with store := w.dir.store } := congrArg World.dir restored.rest

theorem Restored.trans (before : Restored first w) (after : Restored w t) : Restored first t := by
  refine ⟨?_, after.header.trans before.header, before.grown.trans after.grown,
    after.config.trans before.config⟩
  have rest := after.rest
  rw [before.rest] at rest
  exact rest

/-! ### What is left of it -/

theorem Shelved.reaches {db : Db} {store : VectorStore} (shelved : Shelved db store dir)
    (counted : headerCount dir.file.image ≤ store.count) :
    Reaches db.dim (headerCount dir.file.image) dir.file := by
  have reaches := shelved.attached.reaches.mono counted
  rw [shelved.dim] at reaches
  exact reaches

theorem Restored.intact (restored : Restored w t) (loaded : Loaded t) (intact : Intact env w.dir) :
    Intact env t.dir := by
  have sameDir := restored.sameDir
  have snap : t.dir.snap = w.dir.snap := (congrArg Directory.snap sameDir).trans rfl
  have bytes : t.dir.walBytes = w.dir.walBytes := (congrArg Directory.walBytes sameDir).trans rfl
  constructor
  case stored =>
      intro file isFile
      obtain rfl : t.dir.file = file := Option.some.inj (loaded.shelved.isStored.symm.trans isFile)
      exact ⟨_, loaded.shelved.formatted, loaded.shelved.reaches loaded.counted⟩
  case journal =>
      obtain ⟨entries, next, journal⟩ := intact.journal
      exact ⟨entries, next, journal.moved bytes snap⟩
  case ahead =>
      intro len mark marked
      rw [restored.header]
      exact intact.ahead len mark (marked.moved snap)

theorem Shelved.left {db : Db} {vector : Row} {torn : Directory}
    (shelved : Shelved db w.store w.dir) (intact : Intact env w.dir)
    (counted : headerCount w.dir.file.image ≤ w.store.count) (left : Left env w (.append vector) torn) :
    Intact env torn := by
  obtain ⟨-, store, grown, count, -, mapping⟩ := left
  have frontier := torn_append_frontier shelved.attached shelved.dim le_rfl mapping
    (vector.toLeBytes.take count)
  have header := frontier.image.header
  constructor
  case stored =>
      intro file isFile
      cases isFile
      refine ⟨db.dim, frontier.image.formatted shelved.formatted, ?_⟩
      rw [← header]
      exact (shelved.reaches counted).longer frontier.len frontier.small
  case journal =>
      obtain ⟨entries, next, journal⟩ := intact.journal
      exact ⟨entries, next, journal.moved rfl rfl⟩
  case ahead =>
      intro len mark marked
      have before := intact.ahead len mark (marked.moved rfl)
      exact before.trans_eq header

theorem Loaded.keeps (loaded : Loaded w) (intact : Intact env w.dir) (vector : Row) :
    Keeps env (Intact env) w (.append vector) := by
  rintro torn (rfl | left)
  · exact intact
  · exact loaded.shelved.left intact loaded.counted left

/-! ### Replay -/

theorem Loaded.append (env : Env) (loaded : Loaded w) (vector : Row) :
    ∃ t result, handle env 0 w (.append vector) = .ok t result ∧ Loaded t ∧ Restored w t ∧
      ∀ id, result = .ok id → t.store.count = w.store.count + 1 := by
  obtain ⟨t, result, done⟩ : ∃ t result, w.append 0 vector = .ok t result := by
    unfold World.append
    split <;> exact ⟨_, _, rfl⟩
  obtain ⟨shelved, added⟩ := loaded.shelved.append done
  have grown : w.store.count ≤ t.store.count ∧ t.owners.length = t.store.count ∧
      ∀ id, result = .ok id → t.store.count = w.store.count + 1 := by
    rcases added.outcome with ⟨e, rfl, count, owners⟩ | ⟨rfl, -, count, owners, -⟩
    · rw [count, owners]
      exact ⟨le_rfl, loaded.owners, nofun⟩
    · rw [count, owners, List.length_append, loaded.owners]
      exact ⟨Nat.le_succ _, rfl, fun _ _ => rfl⟩
  obtain ⟨more, owners, counts⟩ := grown
  refine ⟨t, result, done, ?_, ?_, counts⟩
  · constructor
    case shelved =>
        have formatted : Formatted w.store.dim t.dir.file.image := shelved.formatted
        rw [← added.dim] at formatted
        exact ⟨shelved.isStored, formatted, shelved.attached, rfl⟩
    case graphed =>
        have graphed := loaded.graphed
        unfold World.db
        rw [added.index]
        exact ⟨graphed.layered, graphed.moderate, rfl, graphed.m, fun x present =>
          (graphed.inside x present).trans_le more⟩
    case dense =>
        rw [added.index]
        exact loaded.dense
    case owners => exact owners
    case counted => exact (added.header.trans_le loaded.counted).trans more
  · refine ⟨?_, added.header, more, congrArg Hnsw.config added.index⟩
    have rest := added.rest
    rw [rest]

theorem Loaded.restoreRow (loaded : Loaded w) (intact : Intact env w.dir) (id : Nat) (vector : Row) :
    (restoreRow id vector).Leads (handle env) 0 (Keeps env (Intact env)) (fun t result =>
      Loaded t ∧ Restored w t ∧ (result = .ok () → id < t.store.count)) w := by
  unfold Db.restoreRow
  refine leads_call (Keeps.whole intact) rfl ?_
  by_cases next : id = w.store.count
  · rw [if_pos next]
    obtain ⟨t, result, done, after, restored, counts⟩ := loaded.append env vector
    unfold attempt
    refine leads_call (loaded.keeps intact vector) done ?_
    cases result with
    | ok other =>
        refine Prog.Leads.ret ⟨after, restored, fun _ => ?_⟩
        rw [counts other rfl, next]
        exact Nat.lt_succ_self _
    | error e => exact Prog.Leads.ret ⟨after, restored, nofun⟩
  · rw [if_neg next]
    by_cases skips : w.store.count < id
    · rw [if_pos skips]
      exact Prog.Leads.ret ⟨loaded, .refl w, nofun⟩
    · rw [if_neg skips]
      unfold attempt
      refine leads_call (Keeps.whole intact) rfl ?_
      have inside : id < w.store.count := by omega
      cases w.store.get w.file id with
      | ok row =>
          dsimp only
          split
          · exact Prog.Leads.ret ⟨loaded, .refl w, nofun⟩
          · exact Prog.Leads.ret ⟨loaded, .refl w, fun _ => inside⟩
      | error e => exact Prog.Leads.ret ⟨loaded, .refl w, nofun⟩

theorem Loaded.link (levels : Env.Level env) (loaded : Loaded w) (intact : Intact env w.dir)
    (more : w.index.len < w.store.count) (visited : VisitedSet) :
    (Hnsw.insert w.index.config w.index.len (env.level w.index.config.m w.index.len) visited).Leads
      (handle env) 0 (Keeps env (Intact env)) (fun t (_ : Unit) => Loaded t ∧ Restored w t ∧
        t.store = w.store ∧ w.index.len < t.index.len) w := by
  have graphed := loaded.graphed
  have room : w.index.len < SegVec.CAPACITY := by
    rw [← CAPACITY_eq]
    exact more.trans_le loaded.shelved.attached.count_le
  have small := levels w.index.config.m w.index.len
  have free := loaded.dense.free
  obtain ⟨after, ran, kept, inserted, -⟩ := Hnsw.insert_kept (w.distances env) visited
    graphed.layered free room small
  have moderate := Hnsw.insert_moderate visited graphed.layered graphed.moderate free room small ran
  have dense := kept.inserted loaded.dense inserted
  have config : after.config = w.index.config := kept.grows.config
  rw [← Hnsw.insert_lift]
  refine leads_index ran intact ⟨?_, ⟨rfl, rfl, le_rfl, config⟩, rfl, ?_⟩
  · constructor
    case shelved => exact ⟨loaded.shelved.isStored, loaded.shelved.formatted, loaded.shelved.attached, rfl⟩
    case graphed =>
        refine ⟨kept.layered, moderate, rfl, ?_, ?_⟩
        · change after.config.m ≤ 4096
          rw [config]
          exact graphed.m
        · intro x present
          have below := (dense.2 x).mp present
          change x < w.store.count
          omega
    case dense =>
        rw [dense.1]
        exact dense
    case owners => exact loaded.owners
    case counted => exact loaded.counted
  · change w.index.len < after.len
    rw [dense.1]
    exact Nat.lt_succ_self _

theorem Loaded.restoreNode (levels : Env.Level env) (loaded : Loaded w) (intact : Intact env w.dir)
    {id : Nat} (inside : id < w.store.count) (scratch : Nat → VisitedSet) :
    (restoreNode env w.index.config scratch id).Leads (handle env) 0 (Keeps env (Intact env))
      (fun t (_ : Result Unit) => Loaded t ∧ Restored w t) w := by
  unfold Db.restoreNode
  refine leads_call (Keeps.whole intact) rfl ?_
  by_cases next : id = w.index.len
  · rw [if_pos next, next]
    apply (loaded.link levels intact (next ▸ inside) (scratch w.index.len)).bind
    rintro t _ ⟨after, restored, -⟩
    exact Prog.Leads.ret ⟨after, restored⟩
  · rw [if_neg next]
    split
    · exact Prog.Leads.ret ⟨loaded, .refl w⟩
    · exact Prog.Leads.ret ⟨loaded, .refl w⟩

/-- Replay goes on as long as the records fit; then every row that was replayed is there. -/
theorem Loaded.replay (levels : Env.Level env) (loaded : Loaded w) (intact : Intact env w.dir)
    (scratch : Nat → VisitedSet) (replayFrom : Nat) (records : List (Nat × WalOp)) :
    (replay env w.index.config scratch replayFrom records).Leads (handle env) 0
      (Keeps env (Intact env)) (fun t result => Loaded t ∧ Restored w t ∧
        (result = .ok () → ∀ entry ∈ records, replayFrom ≤ entry.1 →
          Wal.recordId entry < t.store.count)) w := by
  induction records generalizing w with
  | nil => exact Prog.Leads.ret ⟨loaded, .refl w, fun _ _ member => absurd member List.not_mem_nil⟩
  | cons head rest ih =>
      obtain ⟨lsn, ⟨id, vector⟩⟩ := head
      unfold Db.replay
      by_cases covered : lsn < replayFrom
      · rw [if_pos covered]
        apply (ih loaded intact).mono
        rintro t result ⟨after, restored, replayed⟩
        refine ⟨after, restored, ?_⟩
        intro done entry member from_
        rcases List.mem_cons.mp member with rfl | later
        · exact absurd from_ (Nat.not_le.mpr covered)
        · exact replayed done entry later from_
      · rw [if_neg covered]
        apply leads_attempt (loaded.restoreRow intact id vector)
        · rintro t ⟨⟩ ⟨stored, appended, inside⟩
          have here := appended.intact stored intact
          rw [← appended.config]
          apply leads_attempt (stored.restoreNode levels here (inside rfl) scratch)
          · rintro u ⟨⟩ ⟨linked, extended⟩
            have there := extended.intact linked here
            rw [← extended.config]
            apply (ih linked there).mono
            rintro v result ⟨after, restored, replayed⟩
            refine ⟨after, appended.trans (extended.trans restored), ?_⟩
            intro done entry member from_
            rcases List.mem_cons.mp member with rfl | later
            · exact (inside rfl).trans_le (extended.grown.trans restored.grown)
            · exact replayed done entry later from_
          · rintro u e ⟨linked, extended⟩
            refine ⟨linked, appended.trans extended, ?_⟩
            intro isOk
            cases isOk
        · rintro t e ⟨stored, appended, -⟩
          refine ⟨stored, appended, ?_⟩
          intro isOk
          cases isOk

/-! ### The log -/

theorem Journal.covers {entries : List (Nat × WalOp)} {next len mark : Nat}
    (journal : Journal env dir entries next) (marked : Mark env dir len mark) :
    mark ≤ len ∧ ∀ entry ∈ entries, entry.1 < mark → Wal.recordId entry < len := by
  cases marked with
  | fresh noSnap => exact ⟨le_rfl, fun _ _ below => absurd below (Nat.not_lt_zero _)⟩
  | snapshot bytes index _ isSnap loaded =>
      have snapped := journal.snap bytes index mark isSnap loaded
      exact ⟨snapped.covers, snapped.older⟩

theorem Journal.journaled {entries : List (Nat × WalOp)} {next len mark count : Nat}
    (journal : Journal env dir entries next) (marked : Mark env dir len mark) (covered : len ≤ count)
    (known : ∀ entry ∈ entries, Wal.recordId entry < count)
    (whole : dir.walBytes = Wal.frames env.hash entries) (policy : SyncPolicy) :
    Journaled env False dir (some ⟨policy, max (Wal.nextAfter 0 entries) mark, false⟩) count := by
  have within := (journal.covers marked).1
  by_cases empty : entries = []
  · subst empty
    refine ⟨[], mark, { journal with consecutive := consecutive_nil mark, snap := ?_ }, False.elim, ?_⟩
    · intro bytes index lsn isSnap loaded
      have snapped := journal.snap bytes index lsn isSnap loaded
      have same : lsn = mark := by
        cases marked with
        | fresh noSnap =>
            rw [noSnap] at isSnap
            cases isSnap
        | snapshot bytes' index' _ isSnap' loaded' =>
            cases isSnap.symm.trans isSnap'
            cases loaded.symm.trans loaded'
            rfl
      exact { snapped with lsn_le := same.le }
    · rintro wal ⟨⟩
      exact ⟨(max_le (Nat.zero_le _) within).trans covered, nofun, fun _ => ⟨Nat.zero_max _, whole⟩⟩
  · have counter : max (Wal.nextAfter 0 entries) mark = next := by
      rw [journal.consecutive.nextAfter empty]
      exact max_eq_left (journal.mark_le marked)
    refine ⟨entries, next, journal, False.elim, ?_⟩
    rintro wal ⟨⟩
    refine ⟨?_, fun entry member _ => known entry member, fun _ => ⟨counter, whole⟩⟩
    change max (Wal.nextAfter 0 entries) mark ≤ count
    rw [counter]
    have last : next - 1 ∈ entries.map Prod.fst := by
      have positive := List.length_pos_of_ne_nil empty
      have few := journal.consecutive.1
      rw [journal.consecutive.2, List.mem_range'_1]
      omega
    obtain ⟨entry, member, isLast⟩ := List.mem_map.mp last
    have late := journal.late entry member
    have inside := known entry member
    omega

/-! ### Opening -/

/-- The store has been opened or created, and nothing else has happened. -/
structure Mounted (dir : Directory) (t : World) : Prop where
  rest : t = { World.start dir with
    store := t.store, dir := { dir with store := t.dir.store }, owners := t.owners }
  isStored : t.dir.store = some t.dir.file
  formatted : Formatted t.store.dim t.dir.file.image
  attached : Attached t.store t.dir.file
  count : headerCount t.dir.file.image = t.store.count
  header : headerCount t.dir.file.image = headerCount dir.file.image
  owners : t.owners.length = t.store.count

theorem Intact.openStore (intact : Intact env dir) (dim : Nat) :
    ∃ t result, handle env 0 (World.start dir) (.openStore dim) = .ok t result ∧
      ((∃ e, result = .error e ∧ t = World.start dir) ∨
        (result = .ok t.store.dim ∧ Mounted dir t)) := by
  change ∃ t result, (World.start dir).openStore dim = .ok t result ∧ _
  unfold World.openStore
  cases stored : dir.store with
  | some file =>
      obtain ⟨d, formatted, reaches⟩ := intact.stored file stored
      obtain ⟨store, opened, attached, sameDim, counted⟩ : ∃ store, VectorStore.open file = .ok store ∧
          Attached store file ∧ store.dim = d ∧ store.count = headerCount file.image := by
        obtain ⟨mapped, opened, attached⟩ := open_ok formatted reaches
        exact ⟨_, opened, attached, rfl, rfl⟩
      have isFile : dir.file = file := by
        unfold Directory.file
        rw [stored]
        rfl
      rw [show (World.start dir).dir.store = some file from stored]
      dsimp only
      rw [opened]
      have same : (World.start dir).dir.file = file := isFile
      refine ⟨_, _, rfl, .inr ⟨rfl, ?_⟩⟩
      constructor
      case rest => rfl
      case isStored => exact stored.trans (congrArg some isFile.symm)
      case formatted =>
          change Formatted store.dim (World.start dir).dir.file.image
          rw [same, sameDim]
          exact formatted
      case attached =>
          rw [same]
          exact attached
      case count => rw [same, counted]
      case header => rw [same, isFile]
      case owners => exact List.length_replicate
  | none =>
      rw [show (World.start dir).dir.store = none from stored]
      dsimp only
      by_cases small : dim = 0 ∨ 2 ^ 32 ≤ dim
      · unfold VectorStore.create
        rw [if_pos small]
        exact ⟨_, _, rfl, .inl ⟨_, rfl, rfl⟩⟩
      · obtain ⟨positive, bound⟩ := not_or.mp small
        obtain ⟨store, file, created, sameDim, empty, attached, formatted, header, -⟩ :=
          create_ok (Nat.pos_of_ne_zero positive) (Nat.lt_of_not_le bound)
        rw [created]
        refine ⟨_, _, rfl, .inr ⟨rfl, ?_⟩⟩
        have blank : headerCount dir.file.image = 0 := by
          unfold Directory.file
          rw [stored]
          rfl
        constructor
        case rest => rfl
        case isStored => rfl
        case formatted =>
            change Formatted store.dim file.image
            rw [sameDim]
            exact formatted
        case attached => exact attached
        case count =>
            change headerCount file.image = store.count
            rw [header, empty]
        case header =>
            change headerCount file.image = _
            rw [header, blank]
        case owners => exact empty.symm

theorem Mounted.intact (mounted : Mounted dir t) (intact : Intact env dir) : Intact env t.dir := by
  have sameDir := congrArg World.dir mounted.rest
  have snap : t.dir.snap = dir.snap := (congrArg Directory.snap sameDir).trans rfl
  have bytes : t.dir.walBytes = dir.walBytes := (congrArg Directory.walBytes sameDir).trans rfl
  constructor
  case stored =>
      intro file isFile
      obtain rfl : t.dir.file = file := Option.some.inj (mounted.isStored.symm.trans isFile)
      refine ⟨_, mounted.formatted, ?_⟩
      rw [mounted.count]
      exact mounted.attached.reaches
  case journal =>
      obtain ⟨entries, next, journal⟩ := intact.journal
      exact ⟨entries, next, journal.moved bytes snap⟩
  case ahead =>
      intro len mark marked
      rw [mounted.header]
      exact intact.ahead len mark (marked.moved snap)

theorem Mounted.openIndex (mounted : Mounted dir t) (intact : Intact env t.dir) (config : HnswConfig) :
    ∃ u result, handle env 0 t (.openIndex config) = .ok u result ∧
      ((∃ e, result = .error e ∧ u = t) ∨ ∃ replayFrom, result = .ok (u.index.config, replayFrom) ∧
        u = { t with index := u.index, kernel := u.index.config.metric } ∧ Loaded u ∧
        Mark env t.dir u.index.len replayFrom) := by
  change ∃ u result, t.openIndex env config = .ok u result ∧ _
  obtain ⟨entries, next, journal⟩ := intact.journal
  have loaded : ∀ index : Hnsw, index.Layered → index.Moderate → index.config.m ≤ 4096 →
      index.Dense index.len → index.len ≤ headerCount t.dir.file.image →
      Loaded { t with index := index, kernel := index.config.metric } := by
    intro index layered moderate m dense few
    refine ⟨⟨mounted.isStored, mounted.formatted, mounted.attached, rfl⟩,
      ⟨layered, moderate, rfl, m, ?_⟩, dense, mounted.owners, mounted.count.le⟩
    intro x present
    exact ((dense.2 x).mp present).trans_le (few.trans mounted.count.le)
  unfold World.openIndex
  cases saved : t.dir.snap with
  | none =>
      dsimp only
      cases opened : Hnsw.new config with
      | error e => exact ⟨_, _, rfl, .inl ⟨_, rfl, rfl⟩⟩
      | ok index =>
          have marked : Mark env t.dir 0 0 := .fresh saved
          obtain ⟨layered, same, free⟩ := Hnsw.layered_new opened
          have absent : ∀ id, ¬ (index.nodes.get id).isSome = true := by
            intro id
            rw [free id]
            exact nofun
          have empty : index.len = 0 ∧ index.config.m ≤ 4096 := by
            unfold Hnsw.new at opened
            split at opened
            · rename_i range
              cases opened
              exact ⟨rfl, range.2⟩
            · cases opened
          refine ⟨_, _, rfl, .inr ⟨0, rfl, rfl, ?_, ?_⟩⟩
          · refine loaded index layered ?_ empty.2 ⟨rfl, ?_⟩ (empty.1.trans_le (Nat.zero_le _))
            · intro id layer list there
              unfold Hnsw.listAt at there
              rw [free id] at there
              cases there
            · intro id
              rw [empty.1]
              exact ⟨fun present => absurd present (absent id), fun below => absurd below (Nat.not_lt_zero _)⟩
          · change Mark env t.dir index.len 0
            rw [empty.1]
            exact marked
  | some bytes =>
      dsimp only
      cases read : Hnsw.load env.hash bytes with
      | error e => exact ⟨_, _, rfl, .inl ⟨_, rfl, rfl⟩⟩
      | ok found =>
          obtain ⟨index, lsn⟩ := found
          have marked : Mark env t.dir index.len lsn := .snapshot bytes index lsn saved read
          have snapped := journal.snap bytes index lsn saved read
          obtain ⟨dense, m⟩ := Hnsw.load_dense read
          exact ⟨_, _, rfl, .inr ⟨lsn, rfl, rfl, loaded index snapped.layered snapped.moderate m dense
            (intact.ahead _ _ marked), marked⟩⟩

/-- Nobody uses the database, and there are no codes yet. -/
structure Unused (w : World) : Prop where
  locks : ∀ lock, w.locks lock = Holders.free
  pending : w.pending = []
  running : w.running = []
  pq : w.pq = none

structure Replayed (env : Env) (w : World) : Prop where
  loaded : Loaded w
  unused : Unused w
  journaled : Journaled env False w.dir w.wal w.store.count

theorem Restored.unused (restored : Restored first w) (unused : Unused first) : Unused w := by
  have rest := restored.rest
  constructor
  case locks =>
      rw [rest]
      exact unused.locks
  case pending =>
      rw [rest]
      exact unused.pending
  case running =>
      rw [rest]
      exact unused.running
  case pq =>
      rw [rest]
      exact unused.pq

theorem Loaded.relog (loaded : Loaded w) (bytes : Option Bytes) (log : Option Wal) :
    Loaded { w with dir := { w.dir with wal := bytes }, wal := log } := by
  have graphed := loaded.graphed
  exact ⟨⟨loaded.shelved.isStored, loaded.shelved.formatted, loaded.shelved.attached, rfl⟩,
    ⟨graphed.layered, graphed.moderate, rfl, graphed.m, graphed.inside⟩, loaded.dense, loaded.owners,
    loaded.counted⟩

theorem Loaded.recover (levels : Env.Level env) (loaded : Loaded w) (intact : Intact env w.dir)
    (unused : Unused w) (noLog : w.wal = none) {replayFrom : Nat}
    (marked : Mark env w.dir w.index.len replayFrom) (opts : DbOptions) (scratch : Nat → VisitedSet) :
    (recover env opts scratch w.index.config replayFrom).Leads (handle env) 0 (Keeps env (Intact env))
      (fun t result => Intact env t.dir ∧ (result = .ok () → Replayed env t)) w := by
  obtain ⟨entries, next, journal⟩ := intact.journal
  unfold Db.recover
  refine leads_call (Keeps.whole intact) rfl ?_
  by_cases logged : (opts.enableWal || decide (0 < w.dir.walBytes.length)) = true
  · rw [if_pos logged]
    obtain ⟨v, isOpened⟩ : ∃ v : World, v = { w with
        dir := { w.dir with wal := some (Wal.frames env.hash entries) }
        wal := some ⟨opts.sync, max (Wal.nextAfter 0 entries) replayFrom, false⟩ } := ⟨_, rfl⟩
    have answered : handle env 0 w (.openWal opts.sync replayFrom) = .ok v (.ok entries) := by
      change w.openWal env opts.sync replayFrom = _
      unfold World.openWal
      rw [journal.logs.opens env.hash_lt opts.sync, isOpened]
      rfl
    have cut : Journal env v.dir entries next := by
      rw [isOpened]
      exact journal.cut
    have opened : Loaded v := by
      rw [isOpened]
      exact loaded.relog _ _
    have whole : Intact env v.dir := by
      refine ⟨?_, ⟨entries, next, cut⟩, ?_⟩
      · rw [isOpened]
        exact intact.stored
      · rw [isOpened]
        exact fun len mark there => intact.ahead len mark (there.moved rfl)
    have free : Unused v := by
      rw [isOpened]
      exact ⟨unused.locks, unused.pending, unused.running, unused.pq⟩
    have replays := opened.replay levels whole scratch replayFrom entries
    rw [show v.index.config = w.index.config by rw [isOpened]] at replays
    have read : (Prog.ret (.ok entries) : Prog sig (Result (List (Nat × WalOp)))).Leads (handle env) 0
        (Keeps env (Intact env)) (fun t result => t = v ∧ result = .ok entries) v :=
      Prog.Leads.ret ⟨rfl, rfl⟩
    refine leads_attempt (Prog.Leads.act (S := sig) (Keeps.whole intact) answered read) ?_ ?_
    · rintro t records ⟨sameState, same⟩
      obtain rfl : records = entries := Except.ok.inj same
      rw [sameState]
      refine leads_attempt replays ?_ ?_
      · rintro u ⟨⟩ ⟨after, restored, replayed⟩
        have left := restored.intact after whole
        have sameDir := restored.sameDir
        have snap : u.dir.snap = v.dir.snap := (congrArg Directory.snap sameDir).trans rfl
        have bytes : u.dir.walBytes = v.dir.walBytes := (congrArg Directory.walBytes sameDir).trans rfl
        have kept : Journal env u.dir records next := cut.moved bytes snap
        have there : Mark env u.dir w.index.len replayFrom :=
          marked.moved (by rw [snap, isOpened])
        have covered : w.index.len ≤ u.store.count := by
          have few := loaded.graphed.len_le
          have grown := restored.grown
          rw [isOpened] at grown
          exact few.trans grown
        have known : ∀ entry ∈ records, Wal.recordId entry < u.store.count := by
          intro entry member
          by_cases old : entry.1 < replayFrom
          · exact ((kept.covers there).2 entry member old).trans_le covered
          · exact replayed rfl entry member (Nat.le_of_not_lt old)
        have frames : u.dir.walBytes = Wal.frames env.hash records := by
          rw [bytes, isOpened]
          rfl
        have log : u.wal = some ⟨opts.sync, max (Wal.nextAfter 0 records) replayFrom, false⟩ := by
          rw [restored.rest, isOpened]
        split
        · refine Prog.Leads.ret ⟨left, fun _ => ⟨after, restored.unused free, ?_⟩⟩
          rw [log]
          exact kept.journaled there covered known frames opts.sync
        · refine leads_call (Keeps.whole left) rfl (Prog.Leads.ret ⟨left, fun _ => ?_⟩)
          have still := restored.unused free
          exact ⟨after.relog u.dir.wal none, ⟨still.locks, still.pending, still.running, still.pq⟩,
            ⟨records, next, kept, False.elim, nofun⟩⟩
      · rintro u e ⟨after, restored, -⟩
        exact ⟨restored.intact after whole, nofun⟩
    · rintro t e ⟨-, same⟩
      cases same
  · rw [if_neg logged]
    refine Prog.Leads.ret ⟨intact, fun _ => ⟨loaded, unused, entries, next, journal, False.elim, ?_⟩⟩
    rw [noLog]
    exact nofun

theorem Replayed.openCodebook (recovered : Replayed env w) (intact : Intact env w.dir)
    (whole : w.index.len = w.store.count) : ∃ t result, handle env 0 w .openCodebook = .ok t result ∧
      t.dir = w.dir ∧ (result = .ok () → Ready env t) := by
  have loaded := recovered.loaded
  have unused := recovered.unused
  have ready : ∀ pq, (∀ state, pq = some state → state.codes = w.encodeAll env state.pq) →
      Ready env { w with pq := pq } := by
    intro pq codes
    constructor
    case shelved => exact loaded.shelved
    case graphed => exact loaded.graphed
    case owners => exact loaded.owners
    case nodes =>
        intro x below
        exact (loaded.dense.2 x).mpr (whole ▸ below)
    case coded =>
        rintro ⟨quantizer, bytes⟩ rfl
        have same : bytes = w.encodeAll env quantizer := codes ⟨quantizer, bytes⟩ rfl
        rw [same]
        exact coded_all env w.row w.store.count quantizer fun _ => id
    case journaled => exact recovered.journaled
    case counted => exact loaded.counted
    case ahead => exact intact.ahead
    case locks => exact unused.locks
    case pending => exact unused.pending
    case running => exact unused.running
  change ∃ t result, w.openCodebook env = .ok t result ∧ _
  unfold World.openCodebook
  split
  · refine ⟨_, _, rfl, rfl, fun _ => ?_⟩
    have plain := ready w.pq ?_
    · exact plain
    · rw [unused.pq]
      exact nofun
  · split
    · exact ⟨_, _, rfl, rfl, nofun⟩
    · split
      · exact ⟨_, _, rfl, rfl, nofun⟩
      · refine ⟨_, _, rfl, rfl, fun _ => ready _ ?_⟩
        rintro state ⟨⟩
        rfl

/-- Opening, wherever it is stopped, leaves a directory of the same kind; where it succeeds, the
database is at rest. -/
theorem Intact.open (levels : Env.Level env) (intact : Intact env dir) (opts : DbOptions)
    (scratch : Nat → VisitedSet) (dim : Nat) :
    (Db.open env opts scratch dim).Leads (handle env) 0 (Keeps env (Intact env))
      (fun t result => Intact env t.dir ∧ (result = .ok () → Ready env t)) (World.start dir) := by
  obtain ⟨t, result, openedStore, stored⟩ := intact.openStore dim
  unfold Db.open attempt
  refine leads_call (Keeps.whole intact) openedStore ?_
  rcases stored with ⟨e, rfl, rfl⟩ | ⟨rfl, mounted⟩
  · exact Prog.Leads.ret ⟨intact, nofun⟩
  · have here := mounted.intact intact
    dsimp only
    split
    · exact Prog.Leads.ret ⟨here, nofun⟩
    · obtain ⟨u, found, openedIndex, indexed⟩ := mounted.openIndex here opts.config
      refine leads_call (Keeps.whole here) openedIndex ?_
      rcases indexed with ⟨e, rfl, rfl⟩ | ⟨replayFrom, rfl, same, loaded, marked⟩
      · exact Prog.Leads.ret ⟨here, nofun⟩
      · have there : Intact env u.dir := by
          rw [same]
          exact here
        have unused : Unused u := by
          rw [same, mounted.rest]
          exact ⟨fun _ => rfl, rfl, rfl, rfl⟩
        have noLog : u.wal = none := by
          rw [same, mounted.rest]
          rfl
        have isMark : Mark env u.dir u.index.len replayFrom := by
          rw [same]
          exact marked
        dsimp only
        apply (loaded.recover levels there unused noLog isMark opts scratch).bind
        rintro v outcome ⟨left, recovers⟩
        cases outcome with
        | error e => exact Prog.Leads.ret ⟨left, nofun⟩
        | ok nothing =>
            have recovered := recovers rfl
            dsimp only
            refine leads_call (Keeps.whole left) rfl (leads_call (Keeps.whole left) rfl ?_)
            split
            · exact Prog.Leads.ret ⟨left, nofun⟩
            · rename_i whole
              obtain ⟨final, answer, coded, sameDir, ready⟩ :=
                recovered.openCodebook left (not_not.mp whole)
              refine Prog.Leads.act (S := sig) (Keeps.whole left) coded (Prog.Leads.ret ⟨?_, ready⟩)
              rw [sameDir]
              exact left

end Db

end Vektordb
