import WordMachine.Platform.Address

/-!
A network inside the machine's memory: named hosts, listeners on ports, and connections. A
connection is a pair of ends without a buffer: a write waits until reads on the other end have
taken all of it.
-/

namespace WordMachine

/-- What an end of a connection offers to the other end. -/
inductive Offer where
  | none
  /-- A write waits for its data to be read. -/
  | pending (data : Bytes)
  /-- All data of a write was read, and the writer has yet to notice. -/
  | taken
  deriving Inhabited

structure PipeEnd where
  closed : Bool := false
  offer : Offer := .none
  deriving Inhabited

/-- A port that accepts connections. Any number names a port of this network. -/
structure Listener where
  port : Int
  /-- The number of connections that can wait to be accepted. -/
  capacity : Nat
  /-- Waiting connections by their near end, oldest first. -/
  queue : List Nat := []
  closed : Bool := false
  deriving Inhabited

structure Network where
  hosts : List (Bytes × Bytes) := [("localhost", "127.0.0.1")]
  listeners : Array Listener := #[]
  /-- Ends of connections; the two ends of one connection are neighbours, the even one first. -/
  ends : Array PipeEnd := #[]
  deriving Inhabited

namespace Network

def peer (pipeEnd : Nat) : Nat :=
  if pipeEnd % 2 = 0 then pipeEnd + 1 else pipeEnd - 1

def end? (network : Network) (pipeEnd : Nat) : PipeEnd :=
  network.ends[pipeEnd]?.getD { closed := true }

def setEnd (network : Network) (pipeEnd : Nat) (value : PipeEnd) : Network :=
  { network with ends := network.ends.setIfInBounds pipeEnd value }

def addHost (network : Network) (host address : Bytes) : Network :=
  { network with
    hosts := (host, address) :: network.hosts.filter fun (name, _) => name != host }

/-- The address of a host: a numeric address in canonical form, or the address of a known name. -/
def lookup? (network : Network) (host : Bytes) : Option Bytes :=
  match Address.canonical? host with
  | some address => some address
  | none => (network.hosts.find? fun (name, _) => name == host).map (·.2)

def listener? (network : Network) (port : Int) : Option Nat :=
  network.listeners.findIdx? fun listener => listener.port == port && !listener.closed

/-- Starts to accept connections on a port, unless it is in use. -/
def listen? (network : Network) (port : Int) (backlog : Nat) : Option (Nat × Network) :=
  match network.listener? port with
  | some _ => none
  | none =>
    some (network.listeners.size,
      { network with
        listeners := network.listeners.push { port, capacity := max backlog 1 } })

def unlisten (network : Network) (number : Nat) : Network :=
  { network with
    listeners := network.listeners.modify number fun listener => { listener with closed := true } }

/-- How an operation that may have to wait went. -/
inductive Attempt (α : Type) where
  | done (result : α)
  | closed
  | wait

/-- Takes the oldest waiting connection. -/
def accept (network : Network) (number : Nat) : Attempt (Nat × Network) :=
  match network.listeners[number]? with
  | none => .closed
  | some listener =>
    match listener.queue with
    | first :: rest =>
      .done (first,
        { network with
          listeners := network.listeners.setIfInBounds number { listener with queue := rest } })
    | [] => if listener.closed then .closed else .wait

/-- Connects to an open listener once its queue has room. -/
def connect (network : Network) (number : Nat) : Attempt (Nat × Network) :=
  match network.listeners[number]? with
  | none => .closed
  | some listener =>
    if listener.closed then .closed
    else if listener.capacity ≤ listener.queue.length then .wait
    else
      let client := network.ends.size
      .done (client,
        { network with
          ends := (network.ends.push {}).push {}
          listeners := network.listeners.setIfInBounds number
            { listener with queue := listener.queue ++ [client + 1] } })

/-- How a read of a connection went. -/
inductive ReadAttempt where
  | data (bytes : Bytes) (network : Network)
  | ended
  | closed
  | wait

/-- Reads up to `count` of the bytes the other end offers. -/
def read (network : Network) (pipeEnd count : Nat) : ReadAttempt :=
  let other := network.end? (peer pipeEnd)
  if (network.end? pipeEnd).closed then .closed
  else if other.closed then .ended
  else
    match other.offer with
    | .pending data =>
      let rest := Bytes.drop data count
      let offer := if rest.isEmpty then .taken else .pending rest
      .data (Bytes.take data count) (network.setEnd (peer pipeEnd) { other with offer })
    | _ => .wait

/-- Offers data to the other end, as soon as no other write is in progress. `offered` tells
whether this write has made its offer. -/
def write (network : Network) (pipeEnd : Nat) (data : Bytes) (offered : Bool) :
    Attempt Unit × Bool × Network :=
  let near := network.end? pipeEnd
  if near.closed || (network.end? (peer pipeEnd)).closed then
    (.closed, false,
      if offered then network.setEnd pipeEnd { near with offer := .none } else network)
  else if offered then
    match near.offer with
    | .taken => (.done (), false, network.setEnd pipeEnd { near with offer := .none })
    | _ => (.wait, true, network)
  else
    match near.offer with
    | .none => (.wait, true, network.setEnd pipeEnd { near with offer := .pending data })
    | _ => (.wait, false, network)

def close (network : Network) (pipeEnd : Nat) : Network :=
  { network with ends := network.ends.modify pipeEnd fun near => { near with closed := true } }

end Network

end WordMachine
