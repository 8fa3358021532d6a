import SlimTS.CommandLine.Argv
import SlimTS.CommandLine.Classification
import SlimTS.CommandLine.Configuration
import SlimTS.CommandLine.ScriptName
import SlimTS.CommandLine.StartUp
import SlimTS.CommandLine.WorkerConfiguration
import SlimTS.Common.Basic
import SlimTS.Common.Http.HeaderLines
import SlimTS.Common.Http.HeaderSection
import SlimTS.Common.Http.HeaderSpacing
import SlimTS.Common.Http.RequestRoundTrip
import SlimTS.Common.Log
import SlimTS.Common.MemoryMapperReadString
import SlimTS.Common.MemoryMapperRefinement
import SlimTS.Common.MemoryMapperWrites
import SlimTS.Common.Network.AddressSet
import SlimTS.Common.Network.ConnectionHandler
import SlimTS.Common.Network.CounterInterleaving
import SlimTS.Common.Network.Listener
import SlimTS.Common.Network.Metrics
import SlimTS.Common.Network.ReadBuffer
import SlimTS.Library.Getline
import SlimTS.Library.References
import SlimTS.Library.Separated
import SlimTS.Library.Simulation
import SlimTS.Library.StringLiteral
import SlimTS.Library.Tokens
import SlimTS.Library.Transition
import SlimTS.Library.TwoLevelMap
import SlimTS.Library.Unfolding
import SlimTS.Macros.Apply
import SlimTS.Macros.Expansion
import SlimTS.Macros.Lines
import SlimTS.Macros.Literals
import SlimTS.Macros.ReplaceToken
import SlimTS.Macros.Simultaneous
import SlimTS.Module.AbsoluteSpecifier
import SlimTS.Module.CacheConsistency
import SlimTS.Module.FailedResolution
import SlimTS.Module.Linking
import SlimTS.Module.ModuleIdentity
import SlimTS.Module.NullRead
import SlimTS.Module.PipelineProgress
import SlimTS.Module.ReferrerPath
import SlimTS.Module.SearchCompleteness
import SlimTS.Module.SearchOrder
import SlimTS.Module.Termination
import SlimTS.Module.TranspileErrors
import SlimTS.Module.TranspiledCode
import SlimTS.Plugin.ConsoleColors
import SlimTS.Plugin.ConsoleCopy
import SlimTS.Plugin.ConsoleCopyAtomic
import SlimTS.Plugin.ConsoleDisplay
import SlimTS.Plugin.FileContent
import SlimTS.Plugin.FileTable
import SlimTS.Plugin.KafkaConsume
import SlimTS.Plugin.KafkaLifetime
import SlimTS.Plugin.Loader
import SlimTS.Plugin.LocalPrint
import SlimTS.Plugin.MemoryAdaptor
import SlimTS.Plugin.PathJoin
import SlimTS.Plugin.Property
import SlimTS.Plugin.Strings
import SlimTS.Plugin.TimeStampDigits
import SlimTS.Queue.CleanUp
import SlimTS.Queue.Completion
import SlimTS.Queue.Delivery
import SlimTS.Queue.JobLoop
import SlimTS.Queue.Settling
import SlimTS.Queue.TicketWidth
