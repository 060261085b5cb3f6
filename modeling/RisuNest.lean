import RisuNest.Cbs.FoldedRuns
import RisuNest.Cbs.Relaxed
import RisuNest.Client.Clock
import RisuNest.Client.Parents
import RisuNest.Client.Tombstones
import RisuNest.Client.UnitPages
import RisuNest.External.Agreement
import RisuNest.External.AssemblySealed
import RisuNest.External.CatalogPages
import RisuNest.External.CleanupOrder
import RisuNest.External.Compaction
import RisuNest.External.Envelope
import RisuNest.External.MyboxBudget
import RisuNest.External.Observations
import RisuNest.External.RecordKeys
import RisuNest.External.SectionForms
import RisuNest.External.TransferLimit
import RisuNest.External.TrustedClock
import RisuNest.Server.CatchUp
import RisuNest.Server.Collection
import RisuNest.Server.Convergence
import RisuNest.Server.ExactlyOnce
import RisuNest.Server.FormatGate
import RisuNest.Server.Kept
import RisuNest.Server.Ledger
import RisuNest.Server.Paging
import RisuNest.Server.Recovery
import RisuNest.Server.Snapshot
import RisuNest.Server.Writers
import RisuNest.Storage.ContentWindow
import RisuNest.Storage.EditedCapture
import RisuNest.Storage.IntentRows
import RisuNest.Storage.JournalFrame
import RisuNest.Storage.KeyStream
import RisuNest.Storage.OwnerManifest
import RisuNest.Storage.ReferenceRemoval
import RisuNest.Storage.Repaging
import RisuNest.Storage.SnapshotArchive
import RisuNest.Transfer.Completion
import RisuNest.Transfer.Replies
import RisuNest.Transfer.StreamExact
import RisuNest.Update.Atomicity
import RisuNest.Wire.ClockSample
import RisuNest.Wire.ControlForm
import RisuNest.Wire.KeyText
import RisuNest.Wire.Order
import RisuNest.Wire.ReferenceBuild
import RisuNest.Wire.SegmentLimit
import RisuNest.Wire.SegmentReads
import RisuNest.Wire.Sequences
