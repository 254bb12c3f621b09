import UdfRunner.EmitPath
import UdfRunner.InputPath
import UdfRunner.ExaudflibMain
import UdfRunner.Lib.Lts
import UdfRunner.Transcript
import UdfRunner.SessionTrace
import UdfRunner.SessionLaws
import UdfRunner.TestContainer
import UdfRunner.ForwardPath
import UdfRunner.ForwardGroups
import UdfRunner.Handshake
import UdfRunner.VmShutdown
import UdfRunner.SingleCalls
import UdfRunner.CallIsolation
import UdfRunner.ForwardErrors
import UdfRunner.StreamingContainer
import UdfRunner.Lib.Threads
import UdfRunner.SocketLowLevel
import UdfRunner.V2.WaitableQueue
import UdfRunner.Lib.Ledger
import UdfRunner.V2.SocketLibrary
import UdfRunner.V2.SocketOwnership
import UdfRunner.V2.Epoll
import UdfRunner.Ctpg.ParseTable
import UdfRunner.Ctpg.Parser
import UdfRunner.ScriptOptions.OptionGrammar
import UdfRunner.Ctpg.ParserLaws
import UdfRunner.ScriptOptions.OptionLexer
import UdfRunner.ScriptOptions.OptionText
import UdfRunner.IteratorCalls
import UdfRunner.IteratorAnswers
import UdfRunner.EmitBuffer
import UdfRunner.EmitFailures
import UdfRunner.EmitBound
import UdfRunner.ScriptInput
import UdfRunner.Lib.StringSearch
import UdfRunner.ScriptOptions.LegacyLines
import UdfRunner.ScriptOptions.OptionSteps
import UdfRunner.ScriptOptions.LineParser
import UdfRunner.Lib.Lines
import UdfRunner.ScriptOptions.OptionFold
import UdfRunner.ScriptOptions.OptionEscapes
import UdfRunner.Lib.Segments
import UdfRunner.ScriptOptions.OptionSpans
import UdfRunner.ScriptOptions.LegacyAgreement
import UdfRunner.V2.SocketIo
import UdfRunner.V2.ClosedSockets
import UdfRunner.V2.EpollWait
import UdfRunner.CallSpecifications
import UdfRunner.V2.QueueExceptions
import UdfRunner.V2.QueueProgress
import UdfRunner.V2.LinuxQueue
import UdfRunner.SessionProgress
import UdfRunner.RoundTrip
import UdfRunner.StreamingRun
import UdfRunner.ScriptOptions.OptionDfa
import UdfRunner.Lib.LrParsing
import UdfRunner.Ctpg.TableStates
import UdfRunner.Ctpg.TableRounds
import UdfRunner.Ctpg.TableBounds
import UdfRunner.Ctpg.ParserSoundness
import UdfRunner.UniformSessions
import UdfRunner.EmitTexts
import UdfRunner.BenchmarkContainer
import UdfRunner.BenchmarkSessions
import UdfRunner.MetadataSessions
import UdfRunner.Lib.PartialDfa
import UdfRunner.Ctpg.DfaMerging
import UdfRunner.Ctpg.DfaFragments
import UdfRunner.Ctpg.RegexBuilding
import UdfRunner.Ctpg.LexerBuilding
import UdfRunner.Ctpg.BuilderBounds
