import WordMachine.Text.Bytes

/-!
How long the stages of a build took. Times are 64-bit numbers of nanoseconds, and sums wrap.
-/

namespace WordMachine.Build

structure Timings where
  stages : List (Bytes × Int64) := []
  deriving Inhabited

namespace Timings

def set (timings : Timings) (stage : Bytes) (nanos : Int64) : Timings :=
  ⟨(stage, nanos) :: timings.stages.filter fun (found, _) => found != stage⟩

def get (timings : Timings) (stage : Bytes) : Int64 :=
  ((timings.stages.find? fun (found, _) => found == stage).map (·.2)).getD 0

def total (timings : Timings) : Int64 :=
  timings.stages.foldl (fun sum (_, nanos) => sum + nanos) 0

end Timings

end WordMachine.Build
