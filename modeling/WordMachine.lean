import WordMachine.Assembly.Basic
import WordMachine.Assembly.File
import WordMachine.Assembly.Fragment
import WordMachine.Assembly.Listing
import WordMachine.Assembly.Source
import WordMachine.Build.Basic
import WordMachine.Build.Source
import WordMachine.Build.Timings
import WordMachine.CommandLine.Basic
import WordMachine.CommandLine.Console
import WordMachine.CommandLine.Flag
import WordMachine.CommandLine.Plan
import WordMachine.CommandLine.Session
import WordMachine.Config.Basic
import WordMachine.Config.Quantity
import WordMachine.Isa.Opcode
import WordMachine.Isa.PlatformCall
import WordMachine.Lowering.Cause
import WordMachine.Lowering.Equality
import WordMachine.Lowering.Expr
import WordMachine.Lowering.Layout
import WordMachine.Lowering.Program
import WordMachine.Machine.Calls
import WordMachine.Machine.Collection
import WordMachine.Machine.Device
import WordMachine.Machine.Heap
import WordMachine.Machine.PlatformCalls
import WordMachine.Machine.Registry
import WordMachine.Machine.Schedule
import WordMachine.Machine.Session
import WordMachine.Machine.Settings
import WordMachine.Machine.Sharing
import WordMachine.Machine.Stacks
import WordMachine.Machine.State
import WordMachine.Machine.Step
import WordMachine.Machine.Stream
import WordMachine.Machine.Waiting
import WordMachine.Machine.Word
import WordMachine.Main
import WordMachine.MessagePack.Record
import WordMachine.MessagePack.Value
import WordMachine.Number.Decimal
import WordMachine.Number.Integer
import WordMachine.Number.Single
import WordMachine.Platform.Address
import WordMachine.Platform.Basic
import WordMachine.Platform.Input
import WordMachine.Platform.Network
import WordMachine.Program.Basic
import WordMachine.Program.Expr
import WordMachine.Program.File
import WordMachine.Program.FuncKind
import WordMachine.Program.Outline
import WordMachine.Program.Types
import WordMachine.Progress.Basic
import WordMachine.Proofs.AssembledCode
import WordMachine.Proofs.AssemblyFiles
import WordMachine.Proofs.BoundedExecution
import WordMachine.Proofs.ByteStrings
import WordMachine.Proofs.CallGrounds
import WordMachine.Proofs.CodeFromFiles
import WordMachine.Proofs.CodeLayout
import WordMachine.Proofs.Collection
import WordMachine.Proofs.Computations
import WordMachine.Proofs.Configurations
import WordMachine.Proofs.ContainedSteps
import WordMachine.Proofs.Disassembly
import WordMachine.Proofs.Evaluation
import WordMachine.Proofs.GeneratedEquality
import WordMachine.Proofs.HeapLayout
import WordMachine.Proofs.HeapOperations
import WordMachine.Proofs.InstructionPlans
import WordMachine.Proofs.IndifferentInstructions
import WordMachine.Proofs.InvisibleCollections
import WordMachine.Proofs.LiveReferences
import WordMachine.Proofs.LoweredCode
import WordMachine.Proofs.LoweringFailures
import WordMachine.Proofs.Marking
import WordMachine.Proofs.MessagePackValues
import WordMachine.Proofs.ObjectCode
import WordMachine.Proofs.Operands
import WordMachine.Proofs.OperatorCode
import WordMachine.Proofs.ProgramFiles
import WordMachine.Proofs.QuietRuns
import WordMachine.Proofs.References
import WordMachine.Proofs.RenamedHeaps
import WordMachine.Proofs.RenamedInstructions
import WordMachine.Proofs.RenamedSessions
import WordMachine.Proofs.Representation
import WordMachine.Proofs.RestoredPrograms
import WordMachine.Proofs.Running
import WordMachine.Proofs.SafeExecution
import WordMachine.Proofs.SafeInstructions
import WordMachine.Proofs.SavedPrograms
import WordMachine.Proofs.SharedLazies
import WordMachine.Proofs.StackBounds
import WordMachine.Proofs.Standing
import WordMachine.Proofs.StopTheWorld
import WordMachine.Proofs.StructuralValues
import WordMachine.Proofs.Sweeping
import WordMachine.Proofs.TailCalls
import WordMachine.Proofs.TypedTables
import WordMachine.Proofs.Typing
import WordMachine.Proofs.UnionOperations
import WordMachine.Proofs.WholeExpressions
import WordMachine.Proofs.Words
import WordMachine.Storage.FileSystem
import WordMachine.Storage.Files
import WordMachine.Storage.Path
import WordMachine.Storage.Tree
import WordMachine.Text.Bytes
import WordMachine.Text.Cluster
import WordMachine.Text.Quoted
import WordMachine.Text.LowerCase
import WordMachine.Text.Masked
import WordMachine.Text.Outline
import WordMachine.Text.Paint
import WordMachine.Text.Terminal
import WordMachine.Text.Utf8
import WordMachine.Text.Visible
import WordMachine.Text.Width
import WordMachine.Toml.Document
import WordMachine.Toml.Syntax
import WordMachine.Toml.Reader
import WordMachine.Toml.Text
import WordMachine.Tracing.Event
import WordMachine.Tracing.Phases
import WordMachine.Tracing.Tracer
import WordMachine.Version
import WordMachine.Proofs.Effects
import WordMachine.Proofs.InstructionEffects
import WordMachine.Machine.Ensemble
import WordMachine.Proofs.Ensembles
import WordMachine.Proofs.ClosedStreams
import WordMachine.Proofs.InstructionBoundaries
import WordMachine.Machine.Aborting
import WordMachine.Machine.Admission
import WordMachine.Build.Workers
import WordMachine.Proofs.HeapRepresentation
import WordMachine.Proofs.Crews
import WordMachine.Proofs.AbortedCrews
import WordMachine.Proofs.PromptAborts
import WordMachine.Proofs.HeapLimit
import WordMachine.Proofs.PathNames
import WordMachine.Proofs.FileTrees
import WordMachine.Proofs.BuildSchedules
import WordMachine.Proofs.BuildOutputs
import WordMachine.Proofs.ConsoleInput
import WordMachine.Proofs.ConstWindows
import WordMachine.Proofs.FrameIsolation
import WordMachine.Machine.TextStorage
import WordMachine.Proofs.StringTexts
import WordMachine.Proofs.TextBuffers
import WordMachine.Proofs.TextStorage
import WordMachine.Proofs.CodeLabels
import WordMachine.Proofs.ComparedTypes
import WordMachine.Proofs.LabelErrors
import WordMachine.Build.Tasks
import WordMachine.Proofs.ListUpdates
import WordMachine.Proofs.FileViews
import WordMachine.Proofs.BuildTasks
import WordMachine.Proofs.DraftedFiles
import WordMachine.Proofs.BuildTurns
import WordMachine.Proofs.IsolatedBuilds
import WordMachine.Proofs.MemberReferences
import WordMachine.Proofs.StaleHandles
import WordMachine.Proofs.SingleComparisons
import WordMachine.Proofs.ComplementedComparisons
import WordMachine.Proofs.Courses
import WordMachine.Proofs.OrderlyCourses
import WordMachine.Proofs.OrderlyInstructions
import WordMachine.Proofs.Resumptions
import WordMachine.Proofs.ExecutorStates
import WordMachine.Proofs.FinalStates
import WordMachine.Proofs.DecodedStreams
import WordMachine.Proofs.PacedCollections
import WordMachine.Proofs.WhiteSpace
import WordMachine.Proofs.SizeTexts
import WordMachine.Proofs.LatestEvents
import WordMachine.Proofs.WordEncodings
import WordMachine.Proofs.SlicedTexts
import WordMachine.Proofs.StreamValidity
import WordMachine.Proofs.InputBuffers
import WordMachine.Machine.OperandCells
import WordMachine.Proofs.BoundedOperands
import WordMachine.Proofs.BuiltInCalls
import WordMachine.Proofs.CallMoves
import WordMachine.Proofs.EqualityCalls
import WordMachine.Proofs.ExpressionSites
import WordMachine.Proofs.FunctionCalls
import WordMachine.Proofs.PlainExpressions
import WordMachine.Proofs.CompiledExpressions
import WordMachine.Proofs.CompiledPrograms
import WordMachine.Proofs.ConfigurationMoves
