import BeaconIndexer.Proofs.Immutable
import BeaconIndexer.Proofs.Partition
import BeaconIndexer.Proofs.Canonical
import BeaconIndexer.Scanner.Reference
import BeaconIndexer.Proofs.Converge
import BeaconIndexer.Proofs.Rollback
import BeaconIndexer.ValidatorsUpdate
import BeaconIndexer.Proofs.SyncRows
import BeaconIndexer.Beacon.Blocks
import BeaconIndexer.Proofs.SlotLookup
import BeaconIndexer.Beacon.Inputs
import BeaconIndexer.Proofs.InputReuse
import BeaconIndexer.Proofs.InputRefetch
import BeaconIndexer.Proofs.Backfill
import BeaconIndexer.Proofs.Replay
import BeaconIndexer.Proofs.Instances
import BeaconIndexer.Scanner.Ssz
import BeaconIndexer.Db.Jobs
import BeaconIndexer.Proofs.Ancestry
import BeaconIndexer.Proofs.ResolveChain
import BeaconIndexer.Proofs.Modes
import BeaconIndexer.Proofs.DutyShape
import BeaconIndexer.Proofs.Rewards
import BeaconIndexer.Proofs.Coverage
import BeaconIndexer.Proofs.Prune
import BeaconIndexer.Proofs.ArchiveRows
import BeaconIndexer.Base.Twin
import BeaconIndexer.Proofs.Authority
import BeaconIndexer.Proofs.Errors
import BeaconIndexer.Proofs.Responses
import BeaconIndexer.Beacon.Text
import BeaconIndexer.Proofs.RootText
import BeaconIndexer.Api.Rewards
import BeaconIndexer.Proofs.Windows
import BeaconIndexer.Api.Attestations
import BeaconIndexer.Proofs.Pages
import BeaconIndexer.Api.Stats
import BeaconIndexer.Proofs.Aggregates
import BeaconIndexer.Db.Rows
import BeaconIndexer.Proofs.Evidence
import BeaconIndexer.Proofs.Earliest
import BeaconIndexer.Proofs.Misses
import BeaconIndexer.Proofs.Finality
import BeaconIndexer.Proofs.Completion
import BeaconIndexer.Api.LiveView
import BeaconIndexer.Proofs.Placed
import BeaconIndexer.Proofs.LiveView
import BeaconIndexer.Archive
import BeaconIndexer.Base.Newest
import BeaconIndexer.Proofs.Archive
import BeaconIndexer.Proofs.Repairs
import BeaconIndexer.Proofs.Accounts
import BeaconIndexer.Proofs.Gathered
import BeaconIndexer.Proofs.Earned
