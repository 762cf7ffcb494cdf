/-!
Settings of a machine.
-/

namespace WordMachine

/-- The limits of a machine. Durations are in nanoseconds. -/
structure Settings where
  /-- Bytes allocated between collections; none are requested unless positive. -/
  gcInterval : Int64 := 0
  /-- Cap on the live bytes; unlimited unless positive. -/
  heapLimit : Int64 := 0
  evalStack : Int := 0
  constStack : Int := 0
  callStack : Int := 0
  connectTimeout : Int := 0
  deriving DecidableEq, Inhabited

namespace Settings

def standard : Settings where
  gcInterval := 104857600
  evalStack := 4096
  constStack := 4096
  callStack := 8192
  connectTimeout := 5000000000

/-- Sizes and timeouts that are not positive take their standard value. -/
def withDefaults (settings : Settings) : Settings :=
  let orStandard (value fallback : Int) : Int := if value ≤ 0 then fallback else value
  { settings with
    evalStack := orStandard settings.evalStack standard.evalStack
    constStack := orStandard settings.constStack standard.constStack
    callStack := orStandard settings.callStack standard.callStack
    connectTimeout := orStandard settings.connectTimeout standard.connectTimeout }

end Settings

end WordMachine
