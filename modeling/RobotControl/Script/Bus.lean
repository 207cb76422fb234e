import RobotControl.Telemetry.Bus

/-!
# Scripted buses

A telemetry bus with named subscribers, driven command by command.
-/
set_option autoImplicit false

namespace RobotControl.Script

inductive BusCommand where
  | subscribe (name : String) (topic : Topic)
  | unsubscribe (name : String)
  | count (topic : Topic)
  | publish (topic : Topic) (e : Event) (times : Nat)
  | send (line : String)
  | sendEntry (key value : String)
  | numbered (count first : Nat)
  | tryReceive (name : String)
  | receive (name : String)
  | next (name : String)
  | addHandle
  | dropHandle

structure BusBench where
  bus : Bus
  names : Assoc String SubscriberId := ∅

namespace BusBench

/-- What waiting once answers; `empty` is said where there is nothing to be had. -/
def shown (empty : Value) : Arrival → Value
  | .event e => e.pair
  | .lagged n => .text ("Lagged(" ++ toString n ++ ")")
  | .closed => .text "Closed"
  | .pending => empty

def attempts : Nat := 2

def unsubscribe (b : BusBench) (name : String) : BusBench :=
  match b.names.get? name with
  | some id => { bus := b.bus.unsubscribe id, names := b.names.erase name }
  | none => b

def publish (b : Bus) (t : Topic) (e : Event) : Nat → Bus × Value
  | 0 => (b, .null)
  | n + 1 =>
      let r := b.publish t e
      let last : Value :=
        match r.2 with
        | .ok count => .count count
        | .error f => f.report
      if n = 0 then (r.1, last) else publish r.1 t e n

def sendNumbered (b : Bus) (first : Nat) : Nat → Bus × Nat
  | 0 => (b, 0)
  | n + 1 =>
      let r := b.send (toString first)
      let others := sendNumbered r.1 (first + 1) n
      (others.1, others.2 + if r.2 then 1 else 0)

def receive (b : BusBench) (name : String) (empty : Value) : BusBench × Value :=
  match b.names.get? name with
  | none => (b, .null)
  | some id =>
      let r := b.bus.receive id
      ({ b with bus := r.1 }, shown empty r.2)

def command (b : BusBench) : BusCommand → BusBench × Value × List Line
  | .subscribe name topic =>
      let b := b.unsubscribe name
      let r := b.bus.subscribe topic
      ({ bus := r.1, names := b.names.put name r.2 }, .text topic.name, [])
  | .unsubscribe name => (b.unsubscribe name, .flag (b.names.contains name), [])
  | .count topic => (b, .count (b.bus.count topic), [])
  | .publish topic e times =>
      let r := publish b.bus topic e times
      ({ b with bus := r.1 }, r.2, [])
  | .send line =>
      let r := b.bus.send line
      ({ b with bus := r.1 }, .flag r.2, [])
  | .sendEntry key value =>
      let r := b.bus.sendEntry key value
      ({ b with bus := r.1 }, .flag r.2, [])
  | .numbered count first =>
      let r := sendNumbered b.bus first count
      ({ b with bus := r.1 }, .count r.2, [])
  | .tryReceive name =>
      let r := b.receive name (.text "Empty")
      (r.1, r.2, [])
  | .receive name =>
      let r := b.receive name (.text "pending")
      (r.1, r.2, [])
  | .next name =>
      match b.names.get? name with
      | none => (b, .null, [])
      | some id =>
          let r := Bus.next false attempts b.bus id
          ({ b with bus := r.1 },
            match r.2.2 with
            | none | some .closed => .null
            | some a => shown (.text "pending") a,
            r.2.1)
  | .addHandle =>
      let bus := b.bus.addHandle
      ({ b with bus := bus }, .count bus.handles, [])
  | .dropHandle =>
      let bus := b.bus.dropHandle
      ({ b with bus := bus }, .count bus.handles, [])

def answers (b : BusBench) : List BusCommand → List Value
  | [] => []
  | c :: rest =>
      let r := b.command c
      .list [r.2.1, .list (r.2.2.map fun l => .text l.render)] :: answers r.1 rest

end BusBench

end RobotControl.Script
