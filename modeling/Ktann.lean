import Ktann.Search.Classification
import Ktann.Committed.Discovery
import Ktann.Committed.Redrive
import Ktann.Committed.Removal
import Ktann.Construction.Tree
import Ktann.Verify.Scan
import Ktann.Bulk.Contention
import Ktann.Bulk.Served
import Ktann.Committed.CachedBodies
import Ktann.Backend.MemoryRuns
import Ktann.Storage.ReadCacheRuns
import Ktann.Search.TraverseRetention
import Ktann.Committed.SplitViability
import Ktann.Storage.ManifestLimits
import Ktann.Backend.BatchGet
import Ktann.Construction.Termination
import Ktann.Construction.LeafNeighbors
import Ktann.Maintenance.Training
import Ktann.Maintenance.FixupQueue
import Ktann.Storage.MutationBuilder
