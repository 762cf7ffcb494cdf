import WordMachine.Build.Basic
import WordMachine.Machine.Schedule
import WordMachine.Tracing.Tracer

/-!
Spans of the phases of a command: lowering a program with its units, a build with its files, and a
run of the machine with its entry points, forked calls and collections.
-/

namespace WordMachine.Tracing.Tracer

def unit (tracer : Tracer) (parent : Nat) (report : Lowering.UnitReport) : Tracer :=
  let (span, tracer) := tracer.start .unit report.name parent
  let span := match report.size with
    | some size => span.set "bytes" (Bytes.ofNat size)
    | none => span
  tracer.finish span ByteArray.empty

/-- The span whose number a nested span gets as its parent: the innermost one that is traced. -/
def inner (span : Span) (outer : Nat) : Nat :=
  if span.id = 0 then outer else span.id

def lowering (tracer : Tracer) (parent : Nat) (outcome : Lowering.Outcome) : Tracer :=
  let (span, tracer) := tracer.start .phase "codegen" parent
  let tracer := outcome.units.foldl (fun tracer report => tracer.unit (inner span parent) report)
    tracer
  let span := match outcome.result, outcome.unitCount with
    | .ok assembly, some count =>
      (span.set "units" (Bytes.ofNat count)).set "bytes" (Bytes.ofNat assembly.code.size)
    | _, _ => span
  tracer.finish span ByteArray.empty

def built (tracer : Tracer) (parent : Nat) (result : Build.Result) : Tracer :=
  let (span, tracer) := tracer.start .unit "file" parent
  let tracer := match result.lowered with
    | some outcome => tracer.lowering (inner span parent) outcome
    | none => tracer
  let detail := match result.failure with
    | some failure => failure.message
    | none => ByteArray.empty
  tracer.finish (span.set "file" result.file) detail

def build (tracer : Tracer) (parent : Nat) (outcome : Build.Outcome) : Tracer :=
  let (span, tracer) := tracer.start .phase "build" parent
  let tracer := outcome.results.foldl (fun tracer result => tracer.built (inner span parent) result)
    tracer
  let span := match outcome.refused with
    | some _ => span
    | none => span.set "files" (Bytes.ofNat outcome.results.length)
  tracer.finish span ByteArray.empty

/-- Spans of a run that have begun and not ended. -/
structure OpenSpans where
  entry : Span := {}
  forks : List (Nat × Span) := []

def milestone (tracer : Tracer) (parent : Nat) (spans : OpenSpans) :
    Milestone → OpenSpans × Tracer
  | .entryBegan =>
    let (entry, tracer) := tracer.start .unit "entry" parent
    ({ spans with entry }, tracer)
  | .entryEnded index state =>
    (spans, tracer.finish (spans.entry.set "index" (Bytes.ofNat index)) state.name)
  | .forkBegan executor =>
    let (fork, tracer) := tracer.start .unit "fork" parent
    ({ spans with forks := (executor, fork) :: spans.forks }, tracer)
  | .forkEnded executor state =>
    let fork := ((spans.forks.find? fun (found, _) => found == executor).map (·.2)).getD {}
    (spans, tracer.finish (fork.set "exec" (Bytes.ofNat executor)) state.name)
  | .collected freed live bytes =>
    let (span, tracer) := tracer.start .unit "gc" parent
    let span := ((span.set "freed" (Bytes.ofNat freed)).set "live" (Bytes.ofNat live)).set
      "bytes" (Bytes.ofInt bytes)
    (spans, tracer.finish span ByteArray.empty)

def startRun (tracer : Tracer) (parent : Nat) : Span × Tracer :=
  tracer.start .phase "vm" parent

def finishRun (tracer : Tracer) (span : Span) (machine : Machine) (state : ExecState) : Tracer :=
  tracer.finish (span.set "allocs" (Bytes.ofNat machine.shared.heap.allocations)) state.name

def run (tracer : Tracer) (parent : Nat) (machine : Machine) (state : ExecState) : Tracer :=
  let (span, tracer) := tracer.startRun parent
  let (_, tracer) := machine.shared.milestones.foldl
    (fun (spans, tracer) (point, _) => tracer.milestone span.id spans point)
    (({} : OpenSpans), tracer)
  tracer.finishRun span machine state

end WordMachine.Tracing.Tracer
