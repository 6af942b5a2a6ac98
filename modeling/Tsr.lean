import Tsr.Lib.Run
import Tsr.Lib.Word
import Tsr.Lib.Result
import Tsr.Lib.Decimal
import Tsr.Sourcemap.Generator
import Tsr.Sourcemap.GeneratorRunsSound
import Tsr.Sourcemap.RoundTrip
import Tsr.Sourcemap.SourceMapperQueries
import Tsr.Sourcemap.SourceMapUrlSound
import Tsr.Project.OwnerCache
import Tsr.Project.OwnerSound
import Tsr.Project.OwnerLaws
import Tsr.Project.RefCountCache
import Tsr.Project.RefCountSound
import Tsr.Project.Watch
import Tsr.Project.WatchSound
import Tsr.Build.Watch
import Tsr.Build.WatchSound
import Tsr.Build.Graph
import Tsr.Build.GraphCycles
import Tsr.Build.Workers
import Tsr.Build.WorkersSound
import Tsr.Incremental.Snapshot
import Tsr.Incremental.ProgramToSnapshot
import Tsr.Incremental.GlobalScope
import Tsr.Fswatch.EventList
import Tsr.Fswatch.Watcher
import Tsr.Fswatch.WatcherSound
import Tsr.Checker.Relater
import Tsr.Checker.RelaterMoves
import Tsr.Checker.RelaterFailures
import Tsr.Checker.RelaterSuccesses
import Tsr.Ipc.Message
import Tsr.Ipc.ConnSync
import Tsr.Ipc.ConnAsync
import Tsr.Ipc.ConnAsyncSound
import Tsr.Lib.Fallible
import Tsr.Json.Utf8
import Tsr.Json.State
import Tsr.Json.Wire
import Tsr.Json.Decoder
import Tsr.Json.StringScan
import Tsr.Json.StreamingWire
import Tsr.Json.Streaming
import Tsr.Json.Slice
import Tsr.Json.Encoder
import Tsr.Json.Tokens
import Tsr.Json.Spelling
import Tsr.Json.RoundTrip
import Tsr.Json.Inversion
import Tsr.Json.Trace
import Tsr.Json.Accept
import Tsr.Json.Grammar
import Tsr.Json.Canonical
import Tsr.Tsc.WatchManager
import Tsr.Tsc.WatchManagerSound
import Tsr.Lib.Bytes
import Tsr.Checker.RelationKey
import Tsr.Checker.RelationKeySound
import Tsr.Lib.Compare
import Tsr.Checker.Compare
import Tsr.Checker.CompareSound
import Tsr.Json.Undo
import Tsr.Lib.Stream
import Tsr.Ipc.Framing
import Tsr.Project.Session
import Tsr.Project.SessionQueue
import Tsr.Project.SessionSettings
import Tsr.Project.SessionCovered
import Tsr.Project.SessionOptions
import Tsr.Lib.Loop
import Tsr.Lib.GoSlice
import Tsr.Scanner.Classify
import Tsr.Scanner.Trivia
import Tsr.Scanner.Cursor
import Tsr.Scanner.Escape
import Tsr.Scanner.Literal
import Tsr.Scanner.Scan
import Tsr.Scanner.TriviaSound
import Tsr.Lib.Ancestry
import Tsr.Tspath.Path
import Tsr.Project.Directories
import Tsr.Jsstring.Lsp
import Tsr.Lib.Search
import Tsr.Lib.JoinTree
import Tsr.Ast.SpanMap
import Tsr.Ast.SpanMapExact
import Tsr.Ast.OriginalIndex
import Tsr.Lib.Latch
import Tsr.Project.Overlay
import Tsr.Project.OverlayGroups
import Tsr.Project.OverlayWatch
import Tsr.Project.OverlayOneByOne
import Tsr.Project.OverlayLatches
import Tsr.Project.OverlayBatch
import Tsr.Project.SnapshotFs
import Tsr.Project.SnapshotFsSound
import Tsr.Lib.Words
import Tsr.Lib.Preorder
import Tsr.Encoder.StringTable
import Tsr.Encoder.Decoder
import Tsr.Encoder.StringTableSound
import Tsr.Lib.Siblings
import Tsr.Encoder.Walk
import Tsr.Encoder.NodeTable
import Tsr.Encoder.NodeTableSound
import Tsr.Jsstring.LspClamp
import Tsr.Jsstring.Wtf8
import Tsr.Jsstring.PositionMap
import Tsr.Jsstring.EcmaLines
import Tsr.Lib.Ranges
import Tsr.Core.GoSort
import Tsr.Core.GoSortParts
import Tsr.Core.GoSortSound
import Tsr.Core.TextChange
import Tsr.Lib.Segments
import Tsr.Tspath.Normalize
import Tsr.Tspath.Roots
import Tsr.Tspath.NormalizeSound
import Tsr.Tspath.Relative
import Tsr.Semver.Version
import Tsr.Semver.VersionRange
import Tsr.Semver.VersionOrder
import Tsr.Semver.VersionText
import Tsr.Semver.VersionRangeSound
import Tsr.Semver.OwnRange
import Tsr.Core.Bfs
import Tsr.Core.BfsSound
import Tsr.Core.BfsRuns
import Tsr.Lib.Height
import Tsr.Checker.FlowReachability
import Tsr.Checker.FlowReachabilitySound
import Tsr.Jsstring.Surrogates
import Tsr.Checker.TemplateRelation
import Tsr.Checker.TemplateRelationSound
import Tsr.Checker.Resolution
import Tsr.Checker.ResolutionSound
import Tsr.Ast.OriginalToVirtual
import Tsr.Ast.OriginalToVirtualSound
import Tsr.Ast.DiagnosticOrder
import Tsr.Ast.DiagnosticOrderSound
import Tsr.Ast.TextPool
import Tsr.Ast.TextPoolSound
import Tsr.Ast.DeclarationLists
import Tsr.Ast.DeclarationPages
import Tsr.Ast.DeclarationArrays
import Tsr.Ast.DeclarationListsSound
import Tsr.Module.PackageMaps
import Tsr.Module.PackageMapsSound
import Tsr.Tspath.CommonParents
import Tsr.Tspath.CommonParentsSound
import Tsr.Lib.Separated
import Tsr.Jsstring.ToLower
import Tsr.Tspath.ComparePaths
import Tsr.Tspath.NormalizeBehind
import Tsr.Tspath.ComparePathsSound
import Tsr.Tspath.NormalizeTwice
import Tsr.Checker.Key
import Tsr.Checker.KeySound
import Tsr.Lib.Seek
import Tsr.Printer.NameGenerator
import Tsr.Printer.NameTexts
import Tsr.Printer.NameScopes
import Tsr.Printer.NameGeneratorSound
