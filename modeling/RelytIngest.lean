import RelytIngest.Foundations.LabelledRun
import RelytIngest.Error
import RelytIngest.Naming
import RelytIngest.Naming.KeyLayout
import RelytIngest.Naming.KeyOrder
import RelytIngest.Arrow.RecordBatch
import RelytIngest.Csv.CellText
import RelytIngest.Dedup.KeyEncoding
import RelytIngest.Dedup.LastRows
import RelytIngest.Dedup.UpsertStream
import RelytIngest.Notify.Loop
import RelytIngest.Notify.NeverSkips
import RelytIngest.Recovery
import RelytIngest.Render
import RelytIngest.StagingListing
import RelytIngest.StagingGc
import RelytIngest.Writer.AllOrNothing
import RelytIngest.Writer.CommitGate
import RelytIngest.Writer.FlushDurable
import RelytIngest.Writer.NoRowLost
import RelytIngest.Writer.FencedRecord
import RelytIngest.Writer.StoppedForGood
import RelytIngest.Writer.TrippedResume
import RelytIngest.Writer.SessionEpoch
import RelytIngest.Writer.DenseSeals
import RelytIngest.Writer.Occupancy
import RelytIngest.Writer.FailingSlot
import RelytIngest.Lease.DoubleLease
import RelytIngest.Lease.CloseRelease
import RelytIngest.Stream.EpochAnchor
import RelytIngest.Ingest.ExactlyOnce
import RelytIngest.Naming.ServerNames
import RelytIngest.Csv.DateText
import RelytIngest.Csv.DecimalExact
import RelytIngest.Config.StagingUrl
import RelytIngest.Config.MaskDsn
import RelytIngest.Notify.MaskOptions
import RelytIngest.Writer.AlarmLines
import RelytIngest.Stream.LagReports
import RelytIngest.Writer.Bookkeeping
import RelytIngest.Naming.SerialSeqWords
import RelytIngest.Ingest.NoOverflow
import RelytIngest.Csv.TypedReader
import RelytIngest.Render.ReadBack
import RelytIngest.Writer.StagedContent
import RelytIngest.Writer.VettedRows
import RelytIngest.Ingest.Objects
import RelytIngest.Ingest.ServerTable
import RelytIngest.Writer.Drains
import RelytIngest.Notify.Groups
import RelytIngest.Config.Rotation
import RelytIngest.TableSchema.Fetched
