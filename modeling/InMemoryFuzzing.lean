import InMemoryFuzzing.Base.TSys
import InMemoryFuzzing.Base.Simulation
import InMemoryFuzzing.Base.Endian
import InMemoryFuzzing.Base.Drain
import InMemoryFuzzing.Base.Locate
import InMemoryFuzzing.Base.Locked
import InMemoryFuzzing.Base.Memory
import InMemoryFuzzing.Base.Traced
import InMemoryFuzzing.Base.Text
import InMemoryFuzzing.Base.Collect
import InMemoryFuzzing.Base.Objects
import InMemoryFuzzing.Base.Pattern
import InMemoryFuzzing.Base.Pieces
import InMemoryFuzzing.Base.Places
import InMemoryFuzzing.Base.ReadBack
import InMemoryFuzzing.Base.Fifo
import InMemoryFuzzing.Base.Loop
import InMemoryFuzzing.Base.DigitSums
import InMemoryFuzzing.Base.Linked
import InMemoryFuzzing.Base.Holdings
import InMemoryFuzzing.Platform.CLib
import InMemoryFuzzing.Platform.DotNet
import InMemoryFuzzing.Platform.Stream
import InMemoryFuzzing.Platform.Utf8
import InMemoryFuzzing.Platform.Arrays
import InMemoryFuzzing.Platform.Format
import InMemoryFuzzing.Platform.Enums
import InMemoryFuzzing.Utils.StreamHelper
import InMemoryFuzzing.Utils.ByteHelper
import InMemoryFuzzing.Utils.StringHelper
import InMemoryFuzzing.Utils.SimpleFormatter
import InMemoryFuzzing.Utils.FormatLogic
import InMemoryFuzzing.Utils.Expansion
import InMemoryFuzzing.Utils.StreamCodecs
import InMemoryFuzzing.Utils.Serialization
import InMemoryFuzzing.Utils.OneTimeStream
import InMemoryFuzzing.Utils.OneTimeLogic
import InMemoryFuzzing.Utils.StreamContract
import InMemoryFuzzing.Utils.HexFilterStream
import InMemoryFuzzing.Utils.Theorems.StreamCodecs
import InMemoryFuzzing.Utils.Theorems.OneTimeStream
import InMemoryFuzzing.Utils.Theorems.ByteHelper
import InMemoryFuzzing.Utils.Theorems.Format
import InMemoryFuzzing.Utils.Theorems.Macros
import InMemoryFuzzing.RemoteControl.Framing
import InMemoryFuzzing.RemoteControl.ReceiveLoop
import InMemoryFuzzing.RemoteControl.ScanLogic
import InMemoryFuzzing.RemoteControl.StreamLogic
import InMemoryFuzzing.RemoteControl.RunLogic
import InMemoryFuzzing.RemoteControl.Sender
import InMemoryFuzzing.RemoteControl.ClientProtocol
import InMemoryFuzzing.RemoteControl.PipeServer
import InMemoryFuzzing.RemoteControl.Connections
import InMemoryFuzzing.RemoteControl.PipeClient
import InMemoryFuzzing.RemoteControl.PipeNet
import InMemoryFuzzing.RemoteControl.PipeLogic
import InMemoryFuzzing.RemoteControl.ExecHandler
import InMemoryFuzzing.RemoteControl.ExecLogic
import InMemoryFuzzing.RemoteControl.ExecClient
import InMemoryFuzzing.RemoteControl.ProcHandler
import InMemoryFuzzing.RemoteControl.ProcLogic
import InMemoryFuzzing.RemoteControl.ProcClient
import InMemoryFuzzing.RemoteControl.ThreadList
import InMemoryFuzzing.RemoteControl.RemoteNet
import InMemoryFuzzing.RemoteControl.Launch
import InMemoryFuzzing.RemoteControl.Theorems.Receive
import InMemoryFuzzing.RemoteControl.Theorems.Client
import InMemoryFuzzing.RemoteControl.Theorems.Socket
import InMemoryFuzzing.RemoteControl.Theorems.Connections
import InMemoryFuzzing.RemoteControl.Theorems.Pipes
import InMemoryFuzzing.RemoteControl.Theorems.Exec
import InMemoryFuzzing.RemoteControl.Theorems.Responses
import InMemoryFuzzing.RemoteControl.RemoteLogic
import InMemoryFuzzing.RemoteControl.LaunchLogic
import InMemoryFuzzing.RemoteControl.Theorems.RemoteNet
import InMemoryFuzzing.RemoteControl.Theorems.Wire
import InMemoryFuzzing.RemoteControl.Theorems.Launch
import InMemoryFuzzing.RemoteControl.Theorems.Registration
import InMemoryFuzzing.RemoteControl.Theorems.SendPacket
import InMemoryFuzzing.RemoteControl.Theorems.ThreadList
import InMemoryFuzzing.DataLog.ReplayLog
import InMemoryFuzzing.DataLog.ErrorLog
import InMemoryFuzzing.DataLog.PipeLog
import InMemoryFuzzing.DataLog.Loggers
import InMemoryFuzzing.DataLog.TargetFiles
import InMemoryFuzzing.CoreDump.RecordSection
import InMemoryFuzzing.CoreDump.RecordLogic
import InMemoryFuzzing.CoreDump.BfdStream
import InMemoryFuzzing.CoreDump.Theorems.RecordLog
import InMemoryFuzzing.Analyzers.HeapLog
import InMemoryFuzzing.Analyzers.HeapGrammar
import InMemoryFuzzing.Analyzers.HeapOverflow
import InMemoryFuzzing.Analyzers.SavedRegisters
import InMemoryFuzzing.Analyzers.AnalyzeController
import InMemoryFuzzing.Analyzers.ProgramError
import InMemoryFuzzing.Analyzers.MemoryZones
import InMemoryFuzzing.Analyzers.Theorems.HeapLog
import InMemoryFuzzing.Analyzers.Theorems.HeapOverflow
import InMemoryFuzzing.Analyzers.Theorems.SavedRegisters
import InMemoryFuzzing.Analyzers.Theorems.AnalyzeController
import InMemoryFuzzing.Analyzers.Theorems.MemoryZones
import InMemoryFuzzing.Gdb.SubProcess
import InMemoryFuzzing.Gdb.CommandLogic
import InMemoryFuzzing.Gdb.FrameLogic
import InMemoryFuzzing.Gdb.ResponseHandlers
import InMemoryFuzzing.Gdb.Reassembly
import InMemoryFuzzing.Gdb.WriteCommand
import InMemoryFuzzing.Gdb.RegexLogic
import InMemoryFuzzing.Gdb.SignalRH
import InMemoryFuzzing.Gdb.TypePrinting
import InMemoryFuzzing.Gdb.Theorems.Commands
import InMemoryFuzzing.Gdb.Theorems.Attribution
import InMemoryFuzzing.Gdb.Theorems.Completion
import InMemoryFuzzing.Gdb.Theorems.Answers
import InMemoryFuzzing.Gdb.Theorems.Reassembly
import InMemoryFuzzing.Gdb.Theorems.Signals
import InMemoryFuzzing.Gdb.Theorems.ReadMemory
import InMemoryFuzzing.Gdb.Theorems.WhatIs
import InMemoryFuzzing.Fuzz.Controller
import InMemoryFuzzing.Fuzz.LoopLogic
import InMemoryFuzzing.Fuzz.Location
import InMemoryFuzzing.Fuzz.Rounds
import InMemoryFuzzing.Fuzz.Sessions
import InMemoryFuzzing.Fuzz.PipeLines
import InMemoryFuzzing.Fuzz.Loggers
import InMemoryFuzzing.Fuzz.Hosted
import InMemoryFuzzing.Fuzz.Predefined
import InMemoryFuzzing.Fuzz.InMemory
import InMemoryFuzzing.Fuzz.CalculatedVariable
import InMemoryFuzzing.Fuzz.RandomBytes
import InMemoryFuzzing.Fuzz.Theorems.Logging
import InMemoryFuzzing.Fuzz.Theorems.Isolation
import InMemoryFuzzing.Fuzz.Theorems.PipeLines
import InMemoryFuzzing.Fuzz.Theorems.Period
import InMemoryFuzzing.Fuzz.Theorems.Predefined
import InMemoryFuzzing.Fuzz.Theorems.Snapshot
import InMemoryFuzzing.Fuzz.Theorems.RandomBytes
import InMemoryFuzzing.Gdb.StopHandlers
import InMemoryFuzzing.Gdb.StopLogic
import InMemoryFuzzing.Gdb.Theorems.Stops
import InMemoryFuzzing.Gdb.Debugger
import InMemoryFuzzing.Gdb.PlainDebugger
import InMemoryFuzzing.Gdb.DebugSession
import InMemoryFuzzing.Gdb.BreakpointTable
import InMemoryFuzzing.Gdb.DebugLogic
import InMemoryFuzzing.Gdb.DebugSteps
import InMemoryFuzzing.Gdb.DebugRuns
import InMemoryFuzzing.Gdb.RestoreLogic
import InMemoryFuzzing.Gdb.Theorems.Snapshots
import InMemoryFuzzing.Gdb.FuzzRounds
import InMemoryFuzzing.Gdb.UndoLogic
import InMemoryFuzzing.Gdb.UndoRuns
import InMemoryFuzzing.Gdb.RoundsLogic
import InMemoryFuzzing.Gdb.BlockLedger
import InMemoryFuzzing.Gdb.Theorems.Rounds
import InMemoryFuzzing.Fuzz.AllocationLogic
import InMemoryFuzzing.Fuzz.Theorems.Allocations
import InMemoryFuzzing.Analyzers.HeapGrammar
import InMemoryFuzzing.Gdb.FuzzRounds
import InMemoryFuzzing.Gdb.UndoLogic
import InMemoryFuzzing.Gdb.UndoRuns
import InMemoryFuzzing.Gdb.RoundsLogic
import InMemoryFuzzing.Base.Holdings
import InMemoryFuzzing.Gdb.BlockLedger
import InMemoryFuzzing.Gdb.Theorems.Rounds
