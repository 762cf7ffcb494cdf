import WordMachine.Tracing.Event

/-!
Tracers. A tracer writes events as they come, keeps the latest ones in a ring, or both. Which
events it takes depends on its level; a sign of life is always taken.
-/

namespace WordMachine.Tracing

/-- A buffer that keeps the latest events. Its places are all there from the beginning. -/
structure Ring where
  capacity : Nat
  events : Array Event
  /-- Where the next event goes: the place of the oldest event once the buffer is full. -/
  next : Nat := 0
  full : Bool := false
  deriving Inhabited

namespace Ring

def standardCapacity : Nat := 4096

/-- The capacity of a ring that is asked for: a standard one unless it is positive. -/
def capacityFor (capacity : Int) : Nat :=
  if 0 < capacity then capacity.toNat else standardCapacity

def new (capacity : Int) : Ring where
  capacity := capacityFor capacity
  events := Array.replicate (capacityFor capacity) default

/-- Keeps an event, in place of the oldest one when full. -/
def push (ring : Ring) (event : Event) : Ring :=
  let next := (ring.next + 1) % ring.capacity
  { ring with
    events := ring.events.setIfInBounds ring.next event
    next
    full := ring.full || next == 0 }

def toList (ring : Ring) : List Event :=
  if ring.full then ring.events.toList.drop ring.next ++ ring.events.toList.take ring.next
  else ring.events.toList.take ring.next

end Ring

/-- A span that has begun. One that is not traced has number zero. -/
structure Span where
  id : Nat := 0
  parent : Nat := 0
  scope : Scope := ⟨0⟩
  name : Bytes := ByteArray.empty
  extra : List (Bytes × Bytes) := []
  deriving Inhabited

def setExtra (extra : List (Bytes × Bytes)) (name value : Bytes) : List (Bytes × Bytes) :=
  (name, value) :: extra.filter fun (found, _) => found != name

def Span.set (span : Span) (name value : Bytes) : Span :=
  if span.id = 0 then span else { span with extra := setExtra span.extra name value }

structure Tracer where
  level : Level := .off
  /-- The form in which events are written; nothing if they are not. -/
  stream : Option Format := none
  ring : Option Ring := none
  written : Bytes := ByteArray.empty
  /-- The number of the last event. Numbers do not run out: no run draws as many as 64 bits can
  tell apart. -/
  sequence : Nat := 0
  spans : Nat := 0
  clock : Int := 0
  thread : Nat := 1
  deriving Inhabited

namespace Tracer

/-- The form that the name of an output asks for. -/
def formatFor (format : Format) (path : Bytes) : Format :=
  match format with
  | .auto =>
    if path.endsWith ".ndjson" || path.endsWith ".json" then .records else .text
  | other => other

/-- A tracer; an error for a mode that is none. A tracer at level off ignores its mode. -/
def new (level : Level) (mode : Mode) (format : Format) (path : Bytes) (ringSize : Int) :
    Except Bytes Tracer :=
  if level == .off then .ok {}
  else
    let stream := some (formatFor format path)
    let ring := some (Ring.new ringSize)
    if mode == .stream then .ok { level, stream }
    else if mode == .ring then .ok { level, ring }
    else if mode == .both then .ok { level, stream, ring }
    else .error ("unknown storage mode: " ++ mode.name.toUTF8)

def isOn (tracer : Tracer) : Bool :=
  tracer.level.isOn

def toStream (tracer : Tracer) (event : Event) : Tracer :=
  match tracer.stream with
  | none => tracer
  | some format =>
    if tracer.level.admits event.scope || event.kind == .heartbeat then
      let sequence := tracer.sequence + 1
      { tracer with
        sequence
        written := tracer.written ++ ({ event with sequence }).write format }
    else tracer

/-- Keeps an event if the level admits it; at level error everything is kept. -/
def toRing (tracer : Tracer) (event : Event) : Tracer :=
  match tracer.ring with
  | none => tracer
  | some ring =>
    if tracer.level.wants event.scope || event.kind == .heartbeat then
      let sequence := tracer.sequence + 1
      { tracer with sequence, ring := some (ring.push { event with sequence }) }
    else tracer

def emit (tracer : Tracer) (event : Event) : Tracer :=
  (tracer.toStream event).toRing event

def start (tracer : Tracer) (scope : Scope) (name : Bytes) (parent : Nat) : Span × Tracer :=
  if tracer.level.wants scope then
    let id := tracer.spans + 1
    let tracer := { tracer with spans := id }
    ({ id, parent, scope, name },
      tracer.emit
        { time := tracer.clock, kind := .spanBegin, scope, span := id, parent,
          thread := tracer.thread, name })
  else ({}, tracer)

def finish (tracer : Tracer) (span : Span) (detail : Bytes) : Tracer :=
  if span.id = 0 then tracer
  else
    tracer.emit
      { time := tracer.clock, kind := .spanEnd, scope := span.scope, span := span.id,
        parent := span.parent, thread := tracer.thread, name := span.name, detail,
        extra := span.extra }

/-- Adds a value to a span. Where the span has ended with values of its own, the end that is kept
shows it too. -/
def annotate (tracer : Tracer) (span : Span) (name value : Bytes) : Span × Tracer :=
  let update (event : Event) : Event :=
    if event.span = span.id ∧ event.kind = .spanEnd ∧ !event.extra.isEmpty then
      { event with extra := setExtra event.extra name value }
    else event
  if span.id = 0 then (span, tracer)
  else
    (span.set name value,
      { tracer with
        ring := tracer.ring.map fun ring => { ring with events := ring.events.map update } })

def point (tracer : Tracer) (scope : Scope) (name detail : Bytes) (parent : Nat) : Tracer :=
  if tracer.level.wants scope then
    tracer.emit
      { time := tracer.clock, kind := .point, scope, parent, thread := tracer.thread, name, detail }
  else tracer

/-- The kept events, oldest first; nothing without a ring. -/
def snapshot? (tracer : Tracer) : Option (List Event) :=
  tracer.ring.map Ring.toList

def dump (tracer : Tracer) : Bytes :=
  Bytes.concat ((tracer.snapshot?.getD []).map Event.toText)

end Tracer

end WordMachine.Tracing
