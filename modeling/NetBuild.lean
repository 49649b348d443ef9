import NetBuild.Lib.Table
import NetBuild.Lib.Prog
import NetBuild.Lib.Fold
import NetBuild.Lib.Components
import NetBuild.Lib.SplitWord
import NetBuild.Lib.ColumnStore
import NetBuild.Timestamp
import NetBuild.TimestampTheorems
import NetBuild.Frame
import NetBuild.FrameTheorems
import NetBuild.NetBuilding
import NetBuild.Store
import NetBuild.StoreTheorems
import NetBuild.NetBuildingService
import NetBuild.NetBuildingTheorems
import NetBuild.NetBuildingServiceTheorems
import NetBuild.Routes
import NetBuild.BuildRun
import NetBuild.BuildPhases
import NetBuild.NetMerging
import NetBuild.NetMergingService
import NetBuild.NetMergingTheorems
import NetBuild.NetMergingServiceTheorems
import NetBuild.Runs
import NetBuild.BuildLedger
import NetBuild.Signatures
import NetBuild.Aggregates
import NetBuild.MergeGroups
import NetBuild.CandidateSearch
import NetBuild.GroupApproval
import NetBuild.Footprints
import NetBuild.CandidateLedger
import NetBuild.ConcurrentLedger
import NetBuild.ApprovalRetry
import NetBuild.DecisionSteps
import NetBuild.GroupMoves
import NetBuild.ConcurrentDecisions
import NetBuild.NetsKept
import NetBuild.Outcomes
import NetBuild.Rejections
import NetBuild.FreshIds
import NetBuild.ConcurrentMerges
import NetBuild.CountedOnce
import NetBuild.BuildRetry
import NetBuild.ConcurrentBuilds
import NetBuild.ReportLoop
import NetBuild.StationIsolation
import NetBuild.EmitterIds
import NetBuild.Bands
import NetBuild.MissingBandwidth
import NetBuild.AlertList
import NetBuild.EmitterMatch
import NetBuild.ObservedBands
import NetBuild.Rebuild
import NetBuild.BackupWatermark
import NetBuild.BackupWatermarkTheorems
import NetBuild.VerifyRestore
import NetBuild.Workbook
import NetBuild.NetsSheet
import NetBuild.WorkbookTheorems
import NetBuild.SheetLayouts
import NetBuild.WorkbookRuns
import NetBuild.WorkbookSkips
import NetBuild.WorkbookLedger
import NetBuild.WorkbookAggregates
import NetBuild.SheetLosses
import NetBuild.TimeFormats
import NetBuild.Crud
import NetBuild.PathKeys
import NetBuild.RecordMap
import NetBuild.MergeViews
import NetBuild.DecisionReplies
import NetBuild.AlertQueue
import NetBuild.Lib.Base64
import NetBuild.Lib.Paging
import NetBuild.Listing
import NetBuild.DecisionOrder
import NetBuild.BuildReply
import NetBuild.Alerts
import NetBuild.Lib.Rely
import NetBuild.CheckpointRuns
import NetBuild.CheckpointSafety
import NetBuild.CheckpointRecovery
import NetBuild.NetFile
import NetBuild.NetFileRuns
import NetBuild.NetFileRetry
import NetBuild.CassandraSession
import NetBuild.CassandraSessionTheorems
import NetBuild.Lib.Lock
import NetBuild.CassandraSessionLocking
