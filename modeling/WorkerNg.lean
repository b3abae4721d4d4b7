import WorkerNg.Lib.Lines
import WorkerNg.Work.Parser
import WorkerNg.Lib.Dict
import WorkerNg.Lib.Except
import WorkerNg.Work.Workfile
import WorkerNg.Work.WorkfileParser
import WorkerNg.Lib.Stream
import WorkerNg.Wire.Uuid
import WorkerNg.Wire.Message
import WorkerNg.Wire.Result
import WorkerNg.Lib.Pool
import WorkerNg.Lib.PoolInvariant
import WorkerNg.Lib.PoolRuns
import WorkerNg.Protocol.Server
import WorkerNg.Protocol.Client
import WorkerNg.Protocol.System
import WorkerNg.Protocol.Refinement
import WorkerNg.Protocol.Dispatch
import WorkerNg.Protocol.Shutdown
import WorkerNg.Lib.Regex
import WorkerNg.Resume.LogFile
import WorkerNg.Resume.LogParsers
import WorkerNg.Resume.LogLines
import WorkerNg.Resume.ParsedLog
import WorkerNg.Resume.Wresume
import WorkerNg.Work.FilterWorkfile
import WorkerNg.Resume.Report
import WorkerNg.Lib.Argparse
import WorkerNg.Options.Merge
import WorkerNg.Options.Slurm
import WorkerNg.Options.PbsTorque
import WorkerNg.Lib.CommandLine
import WorkerNg.Options.Regenerate
import WorkerNg.Options.Survive
import WorkerNg.Submit.SubmitCmd
import WorkerNg.Submit.SubmitOutput
import WorkerNg.Submit.DataSources
import WorkerNg.Submit.Wsub
import WorkerNg.Lib.OutStream
import WorkerNg.Work.Processor
import WorkerNg.Lib.Shell
import WorkerNg.Work.Exports
import WorkerNg.Lib.Shlex
import WorkerNg.Options.Script
import WorkerNg.Submit.Numactl
import WorkerNg.Submit.Jobscript
import WorkerNg.Submit.Directives
import WorkerNg.Protocol.Turns
import WorkerNg.Wire.Malformed
import WorkerNg.Options.SplitScript
import WorkerNg.Options.Reorder
import WorkerNg.Lib.RegularExpr
import WorkerNg.Submit.ArrayRequest
import WorkerNg.Submit.Columns
import WorkerNg.Lib.PoolProgress
import WorkerNg.Lib.PoolSessions
import WorkerNg.Protocol.Progress
import WorkerNg.Protocol.Sessions
import WorkerNg.Resume.LogEntries
import WorkerNg.Resume.Accepted
import WorkerNg.Resume.CutOff
import WorkerNg.Resume.LongNumbers
import WorkerNg.Resume.Chain
import WorkerNg.Lib.Readings
import WorkerNg.Options.OptionParser
import WorkerNg.Options.Resubmit
import WorkerNg.EndToEnd.DataToOutput
import WorkerNg.EndToEnd.Resubmission
import WorkerNg.Lib.HereDocument
import WorkerNg.Submit.HostFile
import WorkerNg.Submit.Launch
