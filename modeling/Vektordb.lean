import Vektordb.Interaction.Discipline
import Vektordb.Hnsw.Scratch
import Vektordb.Hnsw.Traversal
import Vektordb.Hnsw.Selection
import Vektordb.Hnsw.Checkpoint
import Vektordb.Wal.Damage
import Vektordb.Storage.Refinement
import Vektordb.Storage.Machine
import Vektordb.Pq
import Vektordb.Hnsw.Embedding
import Vektordb.Interaction.Solo
import Vektordb.Db.Program
import Vektordb.Wal.Tail
import Vektordb.Hnsw.Closed
import Vektordb.Hnsw.Loading
import Vektordb.Hnsw.Orphans
import Vektordb.Hnsw.Probe
import Vektordb.Db.Search
import Vektordb.Db.Inserts
import Vektordb.Distance.Avx2
import Vektordb.Pq.Codec
import Vektordb.Pq.Kmeans
import Vektordb.Db.History
import Vektordb.Db.Rebuild
import Vektordb.Db.Refusal
import Vektordb.Db.Outage
import Vektordb.Hnsw.Termination
import Vektordb.Db.Training
import Vektordb.Hnsw.Stamps
import Vektordb.Db.PowerLoss
import Vektordb.Db.Allocation
import Vektordb.Db.Patience
import Vektordb.Db.Prefix
