import Atree.StorageID
import Atree.Errors
import Atree.Slab
import Atree.BaseStorage
import Atree.Reporter
import Atree.LedgerStorage
import Atree.Persistent.Storage
import Atree.Persistent.Order
import Atree.Persistent.Commit
import Atree.Persistent.FastCommit
import Atree.Persistent.Outcomes
import Atree.Persistent.Refinement
import Atree.Persistent.Simulation
import Atree.Persistent.AutoCommit
import Atree.Persistent.Workers
import Atree.EncodeLoad
import Atree.Allocation
import Atree.Digester
import Atree.Health.Check
import Atree.Health.Walk
import Atree.Health.Parents
import Atree.Health.Spec
import Atree.Array.Tree
import Atree.Array.Valid
import Atree.Array.Stats
import Atree.Array.Print
import Atree.Cycles
