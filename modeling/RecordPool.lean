import RecordPool.Double.Decimal
import RecordPool.Pool.RecordList
import RecordPool.Pool.SideTable
import RecordPool.Proofs.Pool.RoundTrip
import RecordPool.Proofs.Pool.Staleness
import RecordPool.Proofs.Search.Nearest
import RecordPool.Proofs.Search.Reuse
import RecordPool.Proofs.KdTree.Balance
import RecordPool.Proofs.Pool.QueueUses
import RecordPool.Proofs.Pool.Lists
import RecordPool.Proofs.Pool.Undo
import RecordPool.Proofs.Pool.Rehousing
import RecordPool.Proofs.Pool.StorageModes
import RecordPool.Proofs.Search.Accounts
import RecordPool.Proofs.Layout.Diagnosis
import RecordPool.Proofs.Layout.Handouts
import RecordPool.Proofs.Store.Records
import RecordPool.Proofs.Pool.Peak
import RecordPool.Proofs.KdTree.Failures
import RecordPool.Proofs.Search.LivePoints
import RecordPool.Proofs.Pool.MachineRange
import RecordPool.Proofs.Search.BestFirst
import RecordPool.Proofs.Pool.GrowthPolicy
import RecordPool.Proofs.Pool.Tours
import RecordPool.Proofs.Pool.Notification
import RecordPool.Proofs.Pool.Forgetting
import RecordPool.Proofs.Pool.Leftovers
import RecordPool.Proofs.Search.Capacity
import RecordPool.Proofs.Search.Overwriting
