import ApiInventory.Main
import ApiInventory.Proofs.Batch.Interruption
import ApiInventory.Proofs.Batch.Resumption
import ApiInventory.Proofs.Batch.WriteOnce
import ApiInventory.Proofs.Batch.Downloads
import ApiInventory.Proofs.Batch.Calls
import ApiInventory.Proofs.Batch.Exits
import ApiInventory.Proofs.Batch.Views
import ApiInventory.Proofs.Batch.Separation
import ApiInventory.Proofs.Batch.SecondPass
import ApiInventory.Proofs.Batch.VersionOrder
import ApiInventory.Proofs.Source.FirstDefinition
import ApiInventory.Proofs.Symbols.Texts
import ApiInventory.Proofs.Symbols.Shapes
import ApiInventory.Proofs.Source.Outdated
import ApiInventory.Proofs.Command.Runs
import ApiInventory.Proofs.Command.TimeLimit
import ApiInventory.Proofs.Command.Status
import ApiInventory.Proofs.Source.Acceptance
import ApiInventory.Proofs.Source.Bindings
import ApiInventory.Proofs.Index.Fetch
import ApiInventory.Proofs.Source.TopDown
import ApiInventory.Proofs.Syntax.Traversal
import ApiInventory.Proofs.Batch.Clock
import ApiInventory.Proofs.Batch.Saves
import ApiInventory.Proofs.Batch.Extent
import ApiInventory.Proofs.Batch.FailedSaves
import ApiInventory.Proofs.Index.Delivery
import ApiInventory.Proofs.Files.AllOrNothing
import ApiInventory.Proofs.Batch.CheckpointFile
import ApiInventory.Proofs.Source.Definitions
import ApiInventory.Proofs.Batch.PlainNames
import ApiInventory.Proofs.Symbols.Histories
import ApiInventory.Proofs.Command.Endings
import ApiInventory.Proofs.Index.Layouts
import ApiInventory.Proofs.Batch.PackageNames
import ApiInventory.Proofs.Files.RelativePaths
import ApiInventory.Proofs.Source.Chains
import ApiInventory.Proofs.Command.Flags
import ApiInventory.Proofs.Archive.Zip
