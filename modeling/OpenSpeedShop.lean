import OpenSpeedShop.Framework.ExtentQueries
import OpenSpeedShop.Runtime.Parameters
import OpenSpeedShop.Collectors.SampledExtent
import OpenSpeedShop.Queries.GetMetricValues
import OpenSpeedShop.Cli.StatsView
import OpenSpeedShop.Cli.Watcher
import OpenSpeedShop.Cli.CmdControl
import OpenSpeedShop.Collectors.Iot
import OpenSpeedShop.Framework.ProcessData
import OpenSpeedShop.Cli.CustomView
import OpenSpeedShop.Cli.ExperimentList
import OpenSpeedShop.Cli.Reservation
import OpenSpeedShop.Cli.CmdExecution
import OpenSpeedShop.Framework.RemoveThread
import OpenSpeedShop.Framework.AddressSpace
import OpenSpeedShop.Cbtf.UpdateThreads
import OpenSpeedShop.Daemon.InstrumentationTable
import OpenSpeedShop.Framework.FunctionCache
import OpenSpeedShop.Frontend.MessagePump
import OpenSpeedShop.Frontend.Shutdown
import OpenSpeedShop.Frontend.ThreadTable
import OpenSpeedShop.Frontend.GlobalTable
import OpenSpeedShop.Daemon.RawDataScan
import OpenSpeedShop.Framework.FunctionRange
import OpenSpeedShop.Framework.ExtentMutations
import OpenSpeedShop.Runtime.Timer
import OpenSpeedShop.Collectors.Cuda
import OpenSpeedShop.Cbtf.Finalize
import OpenSpeedShop.Cbtf.AddressSpaces
import OpenSpeedShop.Collectors.UniquePCs
import OpenSpeedShop.Queries.ClusterCount
import OpenSpeedShop.Framework.FlushTime
import OpenSpeedShop.Framework.StatementFailures
import OpenSpeedShop.Framework.SmartPtr
import OpenSpeedShop.Framework.Blob
import OpenSpeedShop.Framework.Path
import OpenSpeedShop.Framework.SourceLoops
import OpenSpeedShop.Collectors.Hwcsamp
import OpenSpeedShop.Runtime.Tls
import OpenSpeedShop.Runtime.StackTraceBuffer
import OpenSpeedShop.Runtime.StackTrace
import OpenSpeedShop.Queries.CUDAQueries
import OpenSpeedShop.Cli.DurationText
import OpenSpeedShop.Cli.CallStackOrder
import OpenSpeedShop.Collectors.InclusiveTime
import OpenSpeedShop.Cli.MetricDivision
import OpenSpeedShop.Cli.HeaderLines
import OpenSpeedShop.Cli.ExpIdArity
import OpenSpeedShop.Cli.NumberTokens
import OpenSpeedShop.Cli.DuplicateStacks
import OpenSpeedShop.Cli.PivotItems
import OpenSpeedShop.Cli.ExpressionTotals
import OpenSpeedShop.Cli.ViewSummary
import OpenSpeedShop.Cli.SetupSort
import OpenSpeedShop.Cli.SavedViewKeys
import OpenSpeedShop.Framework.ViewData
import OpenSpeedShop.Framework.SchemaVersion4
import OpenSpeedShop.Cli.ThreadRanges
import OpenSpeedShop.Cli.RankRange
import OpenSpeedShop.Cli.FilterThreads
import OpenSpeedShop.Cli.InputSources
import OpenSpeedShop.Cli.LogHistory
import OpenSpeedShop.Daemon.SymbolCallbacks
import OpenSpeedShop.Daemon.GlobalVariables
import OpenSpeedShop.Framework.SymtabAPISymbols
