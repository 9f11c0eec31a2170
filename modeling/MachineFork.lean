import MachineFork.Device.Script
import MachineFork.Engine.Describe
import MachineFork.Main
import MachineFork.Proofs.Lineage.FullCopy
import MachineFork.Proofs.Blob.Events
import MachineFork.Proofs.Registry.Confinement
import MachineFork.Proofs.Blob.Puts
import MachineFork.Proofs.Registry.Save
import MachineFork.Proofs.Engine.FailedSave
import MachineFork.Proofs.Blob.Gets
import MachineFork.Proofs.Registry.RoundTrip
import MachineFork.Proofs.Registry.Records
import MachineFork.Proofs.Engine.Runs
import MachineFork.Proofs.Engine.PathIndependence
import MachineFork.Proofs.Registry.Grammar
import MachineFork.Proofs.Registry.Canonical
import MachineFork.Proofs.Lineage.Statistics
import MachineFork.Proofs.Lineage.Ownership
import MachineFork.Proofs.Lineage.Owners
import MachineFork.Proofs.Lineage.Failures
import MachineFork.Proofs.Engine.Owners
import MachineFork.Proofs.Engine.Failures
import MachineFork.Proofs.Engine.Hosts
import MachineFork.Proofs.Lineage.Atomicity
import MachineFork.Proofs.Registry.Framing
import MachineFork.Proofs.Engine.Histories
import MachineFork.Proofs.Lineage.Changes
import MachineFork.Proofs.Lineage.Generations
import MachineFork.Proofs.Lineage.Consistency
import MachineFork.Proofs.Engine.SavedBlobs
import MachineFork.Proofs.Engine.Atomicity
import MachineFork.Proofs.Registry.Registrations
import MachineFork.Proofs.Registry.FailedRestore
import MachineFork.Proofs.Engine.FailedRestore
import MachineFork.Proofs.Engine.HostLedgers
import MachineFork.Proofs.Engine.ActiveRestore
import MachineFork.Proofs.Lineage.Reads
import MachineFork.Proofs.Engine.DiskLogs
import MachineFork.Proofs.Engine.Disks
import MachineFork.Proofs.Lineage.Trails
import MachineFork.Proofs.Lineage.SectorRuns
import MachineFork.Proofs.Device.Readback
import MachineFork.Proofs.Engine.Walks
import MachineFork.Proofs.Engine.Lifecycles
import MachineFork.Proofs.Engine.Phases
import MachineFork.Proofs.Blob.FailedReads
import MachineFork.Proofs.Disk.Images
import MachineFork.Proofs.Lineage.Depths
import MachineFork.Proofs.Engine.Depths
import MachineFork.Proofs.Registry.Growth
import MachineFork.Proofs.Engine.StableSaves
import MachineFork.Proofs.Engine.Shrinking
import MachineFork.Proofs.Device.Names
import MachineFork.Proofs.Engine.Configs
import MachineFork.Proofs.Bench.Runs
import MachineFork.Proofs.Registry.Reallocations
import MachineFork.Proofs.Lineage.Ascents
