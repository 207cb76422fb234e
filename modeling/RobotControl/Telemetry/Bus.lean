import RobotControl.Assoc
import RobotControl.Fault
import RobotControl.Telemetry.Event
import RobotControl.Telemetry.Line

/-!
# The telemetry bus

Every topic is a channel that retains the last events sent on it, as many as its capacity rounded
up to a power of two.  A subscriber has a position in the channel.  One that falls so far behind
that its position is no longer retained learns how many events it has lost and goes on with the
oldest retained one.
-/
set_option autoImplicit false

namespace RobotControl

inductive Topic where
  | log
  | networkTable
  deriving DecidableEq, Repr

def Topic.name : Topic → String
  | .log => "Log"
  | .networkTable => "NetworkTable"

/-- The events of one topic.  `sent` counts all events, `retained` holds the last of them with the
oldest in front. -/
structure Channel where
  size : Nat
  sent : Nat := 0
  retained : List Event := []

inductive Receipt where
  | event (e : Event)
  | lagged (missed : Nat)
  | empty
  deriving DecidableEq

namespace Channel

def oldest (c : Channel) : Nat := c.sent - c.retained.length

def push (c : Channel) (e : Event) : Channel :=
  let all := c.retained ++ [e]
  { c with sent := c.sent + 1, retained := all.drop (all.length - c.size) }

/-- One attempt to receive, with the position after it. -/
def receive (c : Channel) (position : Nat) : Receipt × Nat :=
  if position < c.oldest then (.lagged (c.oldest - position), c.oldest)
  else
    match c.retained[position - c.oldest]? with
    | some e => (.event e, position + 1)
    | none => (.empty, position)

theorem length_push (c : Channel) (e : Event) :
    (c.push e).retained.length = min (c.retained.length + 1) c.size := by
  simp only [push, List.length_drop, List.length_append, List.length_singleton]
  omega

theorem receive_of_oldest_le (c : Channel) (position : Nat) (e : Event) (h : c.oldest ≤ position)
    (he : c.retained[position - c.oldest]? = some e) :
    c.receive position = (.event e, position + 1) := by
  simp [receive, Nat.not_lt.mpr h, he]

end Channel

structure SubscriberId where
  number : Nat
  deriving DecidableEq, Repr

structure Subscriber where
  topic : Topic
  position : Nat
  deriving DecidableEq, Repr

structure Bus where
  log : Channel
  networkTable : Channel
  subscribers : Assoc SubscriberId Subscriber := ∅
  nextSubscriber : SubscriberId := ⟨0⟩
  handles : Nat := 1

inductive Arrival where
  | event (e : Event)
  | lagged (missed : Nat)
  | closed
  | pending

namespace Bus

def sinkSource : String := "pirobot-middleware::bus"

def defaultCapacity : Nat := 256

def ringSize (n : Nat) : Nat := n.nextPowerOfTwo

def maxCapacity : Nat := UInt64.size / 2 - 1

def placeSize : Nat := 128

def isAddressable (places : Nat) : Bool := places * placeSize < UInt64.size / 2

/-- A bus whose channels retain the given number of events, rounded up. -/
def withCapacity (capacity : Nat) : Except Panic Bus :=
  if capacity = 0 then .error (.text "broadcast channel capacity cannot be zero")
  else if maxCapacity < capacity then
    .error (.text "broadcast channel capacity exceeded `usize::MAX / 2`")
  else if !isAddressable (ringSize capacity) then .error (.text "capacity overflow")
  else .ok { log := { size := ringSize capacity }, networkTable := { size := ringSize capacity } }

def channel (b : Bus) : Topic → Channel
  | .log => b.log
  | .networkTable => b.networkTable

def setChannel (b : Bus) (t : Topic) (c : Channel) : Bus :=
  match t with
  | .log => { b with log := c }
  | .networkTable => { b with networkTable := c }

def subscribe (b : Bus) (t : Topic) : Bus × SubscriberId :=
  let id := b.nextSubscriber
  ({ b with
      subscribers := b.subscribers.put id ⟨t, (b.channel t).sent⟩
      nextSubscriber := ⟨id.number + 1⟩ }, id)

def unsubscribe (b : Bus) (id : SubscriberId) : Bus :=
  { b with subscribers := b.subscribers.erase id }

def count (b : Bus) (t : Topic) : Nat := (b.subscribers.values.filter fun s => s.topic = t).length

/-- Sends an event to everyone on the topic and answers how many those are.  Without anyone there
nothing is sent. -/
def publish (b : Bus) (t : Topic) (e : Event) : Bus × Except Fault Nat :=
  if b.count t = 0 then (b, .error (.telemetry ("No subscribers for topic " ++ t.name)))
  else (b.setChannel t ((b.channel t).push e), .ok (b.count t))

def send (b : Bus) (line : String) : Bus × Bool :=
  let r := b.publish .log ⟨sinkSource, .log line⟩
  (r.1, r.2.toOption.isSome)

def sendEntry (b : Bus) (key value : String) : Bus × Bool :=
  let r := b.publish .networkTable ⟨sinkSource, .entry key value⟩
  (r.1, r.2.toOption.isSome)

/-- One attempt of a subscriber to receive.  After the last handle is gone an empty channel is
closed. -/
def receive (b : Bus) (id : SubscriberId) : Bus × Arrival :=
  match b.subscribers.get? id with
  | none => (b, .closed)
  | some s =>
      let r := (b.channel s.topic).receive s.position
      ({ b with subscribers := b.subscribers.put id { s with position := r.2 } },
        match r.1 with
        | .event e => .event e
        | .lagged n => .lagged n
        | .empty => if b.handles = 0 then .closed else .pending)

def lagLine (t : Topic) (missed : Nat) : Line :=
  ⟨.warning, "pirobot_middleware::bus", "telemetry subscriber lagged",
    [("topic", .shown t.name), ("lagged_by", .whole missed)]⟩

/-- Writes a line to the log, which the bus itself carries if it is the sink of the log. -/
def logged (b : Bus) (isSink : Bool) (l : Line) : Bus :=
  if isSink then (b.send l.render).1 else b

/-- Receives the next event and passes over what was lost, with one line in the log for every loss.
`none` when so many attempts were not enough. -/
def next (isSink : Bool) : Nat → Bus → SubscriberId → Bus × List Line × Option Arrival
  | 0, b, _ => (b, [], none)
  | attempts + 1, b, id =>
      match b.receive id with
      | (b, .lagged n) =>
          let topic := ((b.subscribers.get? id).map (·.topic)).getD .log
          let line := lagLine topic n
          let r := next isSink attempts (b.logged isSink line) id
          (r.1, line :: r.2.1, r.2.2)
      | (b, a) => (b, [], some a)

def addHandle (b : Bus) : Bus := { b with handles := b.handles + 1 }

def dropHandle (b : Bus) : Bus := { b with handles := b.handles - 1 }

end Bus

end RobotControl
