import RobotControl.Telemetry.NetworkTable

/-!
# Writes to the network table

Robot and driver station write to one table through any number of handles.  What is read under a key
is the value of the last write that was stored there, whoever wrote it, and every key that was ever
stored has one entry (`NetworkTable.last_write_wins`).  The sink gets the writes of the robot, each
once and in their order; whether it accepts them shows in the log only.  The robot's keys are stored
without their line breaks, so its write is not always found under the key that it names
(`NetworkTable.read_under_other_key`).
-/
set_option autoImplicit false

namespace RobotControl

namespace NetworkTable

/-! ### Histories of a table -/

def after (t : NetworkTable) : List Write → NetworkTable
  | [] => t
  | w :: earlier => ((after t earlier).accept w).1

def logged (t : NetworkTable) : List Write → List Line
  | [] => []
  | w :: earlier => logged t earlier ++ ((t.after earlier).accept w).2

/-! ### What the writes amount to -/

namespace Write

/-- The key that the value is stored under. -/
def storedKey (w : Write) : String :=
  match w.writer with
  | .robot _ => cleanKey w.key
  | .station => w.key

def isRobots (w : Write) : Bool :=
  match w.writer with
  | .robot _ => true
  | .station => false

def isRefused (w : Write) : Bool := w.writer = .robot false

end Write

def latest (key : String) (ws : List Write) : Option Write := ws.find? fun w => w.storedKey = key

/-- The writes of the robot from the first to the last. -/
def published (ws : List Write) : List Write := ws.reverse.filter (·.isRobots)

def refused (ws : List Write) : List Write := ws.reverse.filter (·.isRefused)

/-! ### One write -/

theorem get?_accept (t : NetworkTable) (w : Write) (key : String) :
    (t.accept w).1.get? key = if w.storedKey = key then some w.value else t.get? key := by
  obtain ⟨handle, writer, argument, value⟩ := w
  cases writer with
  | robot accepted => cases accepted <;> exact get?_set t argument value key
  | station => exact get?_setFromRemote t argument value key

theorem delivered_accept (t : NetworkTable) (w : Write) :
    (t.accept w).1.sink = if w.isRobots then t.sink.sendEntry w.storedKey w.value else t.sink := by
  obtain ⟨handle, writer, argument, value⟩ := w
  cases writer with
  | robot accepted => cases accepted <;> rfl
  | station => rfl

theorem noted_accept (t : NetworkTable) (w : Write) :
    (t.accept w).2 = if w.isRefused then [undelivered w.storedKey] else [] := by
  obtain ⟨handle, writer, argument, value⟩ := w
  cases writer with
  | robot accepted => cases accepted <;> rfl
  | station => rfl

/-! ### All writes -/

variable (t : NetworkTable) (ws : List Write)

theorem get?_after (key : String) :
    (t.after ws).get? key = ((latest key ws).map (·.value)).or (t.get? key) := by
  induction ws with
  | nil => rfl
  | cons w earlier ih =>
      rw [after, get?_accept, ih]
      by_cases stored : w.storedKey = key
      · simp [latest, stored]
      · simp [latest, stored]

theorem sink_after :
    (t.after ws).sink =
      { t.sink with
        delivered := t.sink.delivered ++
          (published ws).flatMap fun w => Sink.delivery t.sink.form w.storedKey w.value } := by
  induction ws with
  | nil => simp [after, published]
  | cons w earlier ih =>
      rw [after, delivered_accept, ih]
      unfold published
      rw [List.reverse_cons, List.filter_append]
      cases robots : w.isRobots with
      | true => simp [robots, Sink.sendEntry]
      | false => simp [robots]

theorem logged_eq : t.logged ws = (refused ws).map fun w => undelivered w.storedKey := by
  induction ws with
  | nil => rfl
  | cons w earlier ih =>
      rw [logged, ih, noted_accept]
      unfold refused
      rw [List.reverse_cons, List.filter_append]
      cases rejected : w.isRefused with
      | true => simp [rejected]
      | false => simp [rejected]

/-! ### Reading -/

/-- On a new table with any sink, after any writes: reads, the question for a key and the copy of
all entries agree on the last write stored under each key; the sink got the writes of the robot and
nothing else, once each and in their order, and those that it refused have left a line each. -/
theorem last_write_wins (sink : Sink) :
    (∀ key, (after { sink } ws).get? key = (latest key ws).map (·.value)) ∧
    (∀ key, (after { sink } ws).has key = (latest key ws).isSome) ∧
    ((after { sink } ws).snapshot.map (·.1)).Nodup ∧
    (∀ key value, (key, value) ∈ (after { sink } ws).snapshot ↔
      ∃ w, latest key ws = some w ∧ w.value = value) ∧
    (after { sink } ws).sink =
      { sink with
        delivered := sink.delivered ++
          (published ws).flatMap fun w => Sink.delivery sink.form w.storedKey w.value } ∧
    logged { sink } ws = (refused ws).map fun w => undelivered w.storedKey := by
  have reads : ∀ key, (after { sink } ws).get? key = (latest key ws).map (·.value) := fun key =>
    (get?_after { sink } ws key).trans (Option.or_none ..)
  refine ⟨reads, fun key => ?_, (after { sink } ws).entries.nodup, fun key value => ?_,
    sink_after { sink } ws, logged_eq { sink } ws⟩
  · show ((after { sink } ws).get? key).isSome = _
    rw [reads, Option.isSome_map]
  · show (key, value) ∈ (after { sink } ws).entries.entries ↔ _
    rw [Assoc.mem_entries_iff]
    show (after { sink } ws).get? key = some value ↔ _
    rw [reads, Option.map_eq_some_iff]

/-- The robot writes under a key with a line break, the driver station before it under that key. -/
def crossed : List Write :=
  [⟨1, .robot true, "bad\nkey", "1"⟩, ⟨0, .station, "bad\nkey", "2"⟩]

/-- The last write that names a key is not what is read under it. -/
theorem read_under_other_key :
    (∀ sink, (after { sink } crossed).get? "bad\nkey" = some "2" ∧
      (after { sink } crossed).get? "badkey" = some "1") ∧
    ¬ ∀ (sink : Sink) (ws : List Write) (key : String),
      (after { sink } ws).get? key = (ws.find? fun w => w.key = key).map (·.value) := by
  have named : latest "bad\nkey" crossed = some ⟨0, .station, "bad\nkey", "2"⟩ := by decide
  have cleaned : latest "badkey" crossed = some ⟨1, .robot true, "bad\nkey", "1"⟩ := by decide
  have reads : ∀ sink, (after { sink } crossed).get? "bad\nkey" = some "2" := fun sink => by
    rw [get?_after, named]
    rfl
  refine ⟨fun sink => ⟨reads sink, ?_⟩, fun claimed => ?_⟩
  · rw [get?_after, cleaned]
    rfl
  · have read := (reads { form := .nothing }).symm.trans (claimed _ crossed "bad\nkey")
    exact absurd read (by decide)

end NetworkTable

end RobotControl
