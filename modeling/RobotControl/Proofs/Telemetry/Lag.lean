import RobotControl.Telemetry.Bus

/-!
# Subscribers that lag

A subscriber that has fallen behind loses what its channel does not retain and goes on with the
oldest retained event.  The loss leaves a line in the log, and if the bus is the sink of the log,
this line is an event on the bus itself.  As long as the line goes to another topic than the
subscriber's, or nowhere, the subscriber has caught up with its second attempt.  On the topic of the
log the line takes the place of the very event that the subscriber would have received next, which
makes it lag again: it never catches up, and what was retained gives way to lines about the loss
(`Bus.next_of_lagging`).
-/
set_option autoImplicit false

namespace RobotControl

namespace Channel

/-- A channel retains what was sent last, as much as it has room for. -/
structure Sound (c : Channel) : Prop where
  room : 0 < c.size
  length : c.retained.length = min c.sent c.size

variable {c : Channel}

theorem Sound.push (sound : c.Sound) (e : Event) : (c.push e).Sound where
  room := sound.room
  length := by
    rw [length_push, sound.length]
    show min (min c.sent c.size + 1) c.size = min (c.sent + 1) c.size
    omega

theorem Sound.full (sound : c.Sound) {position : Nat} (behind : position < c.oldest) :
    c.retained.length = c.size ∧ c.size < c.sent := by
  have length := sound.length
  unfold oldest at behind
  omega

theorem retained_push (full : c.retained.length = c.size) (e : Event) :
    (c.push e).retained = (c.retained ++ [e]).drop 1 := by
  unfold push
  dsimp only
  rw [List.length_append, full, List.length_singleton, Nat.add_sub_cancel_left]

theorem oldest_push (full : c.retained.length = c.size) (most : c.size < c.sent) (e : Event) :
    (c.push e).oldest = c.oldest + 1 := by
  unfold oldest
  rw [length_push, full]
  show c.sent + 1 - min (c.size + 1) c.size = c.sent - c.size + 1
  omega

end Channel

namespace Bus

/-! ### Histories of a bus -/

inductive Act where
  | subscribe (t : Topic)
  | unsubscribe (id : SubscriberId)
  | publish (t : Topic) (e : Event)
  | receive (id : SubscriberId)
  | addHandle
  | dropHandle

def obey (b : Bus) : Act → Bus
  | .subscribe t => (b.subscribe t).1
  | .unsubscribe id => b.unsubscribe id
  | .publish t e => (b.publish t e).1
  | .receive id => (b.receive id).1
  | .addHandle => b.addHandle
  | .dropHandle => b.dropHandle

/-- A bus after all that was done with it, the latest first. -/
def after (b : Bus) : List Act → Bus
  | [] => b
  | act :: earlier => (after b earlier).obey act

def Sound (b : Bus) : Prop := ∀ t, (b.channel t).Sound

variable {b : Bus}

theorem sound_withCapacity {capacity : Nat} (made : withCapacity capacity = .ok b) : b.Sound := by
  unfold withCapacity at made
  split at made
  · cases made
  · split at made
    · cases made
    · split at made
      · cases made
      · cases made
        have room : 0 < ringSize capacity :=
          Nat.pos_of_isPowerOfTwo (Nat.isPowerOfTwo_nextPowerOfTwo capacity)
        have empty : ({ size := ringSize capacity } : Channel).Sound :=
          ⟨room, (Nat.zero_min _).symm⟩
        intro t
        cases t <;> exact empty

theorem channel_setChannel (b : Bus) (t t' : Topic) (c : Channel) :
    (b.setChannel t c).channel t' = if t = t' then c else b.channel t' := by
  cases t <;> cases t' <;> rfl

theorem Sound.publish (sound : b.Sound) (t : Topic) (e : Event) : (b.publish t e).1.Sound := by
  unfold Bus.publish
  split
  · exact sound
  · intro t'
    rw [channel_setChannel]
    split
    · exact (sound t).push e
    · exact sound t'

theorem Sound.of_same {b' : Bus} (sound : b.Sound) (log : b'.log = b.log)
    (networkTable : b'.networkTable = b.networkTable) : b'.Sound := by
  have same : b'.channel = b.channel := by
    funext t
    cases t with
    | log => exact log
    | networkTable => exact networkTable
  unfold Sound
  rw [same]
  exact sound

theorem sound_after (sound : b.Sound) (acts : List Act) : (after b acts).Sound := by
  induction acts with
  | nil => exact sound
  | cons act earlier ih =>
      cases act with
      | publish t e => exact ih.publish t e
      | receive id =>
          show Sound (Bus.receive _ id).1
          unfold Bus.receive
          split
          · exact ih
          · exact ih.of_same rfl rfl
      | subscribe | unsubscribe | addHandle | dropHandle => exact ih.of_same rfl rfl

/-! ### One loss -/

/-- The channel has left the position of the subscriber behind. -/
structure Lags (b : Bus) (id : SubscriberId) (s : Subscriber) : Prop where
  found : b.subscribers.get? id = some s
  behind : s.position < (b.channel s.topic).oldest

def missed (b : Bus) (s : Subscriber) : Nat := (b.channel s.topic).oldest - s.position

/-- The subscriber as it goes on with the oldest retained event. -/
def resumed (b : Bus) (s : Subscriber) : Subscriber :=
  { s with position := (b.channel s.topic).oldest }

def lagWarning (b : Bus) (s : Subscriber) : Line := lagLine s.topic (b.missed s)

/-- What is left after an attempt that finds a loss. -/
def skipped (b : Bus) (isSink : Bool) (id : SubscriberId) (s : Subscriber) : Bus :=
  { b with subscribers := b.subscribers.put id (b.resumed s) }.logged isSink (b.lagWarning s)

variable {id : SubscriberId} {s : Subscriber} {isSink : Bool}

theorem Lags.next (lags : b.Lags id s) (isSink : Bool) (attempts : Nat) :
    b.next isSink (attempts + 1) id =
      let r := (b.skipped isSink id s).next isSink attempts id
      (r.1, b.lagWarning s :: r.2.1, r.2.2) := by
  have lost : b.receive id =
      ({ b with subscribers := b.subscribers.put id (b.resumed s) }, .lagged (b.missed s)) := by
    unfold Bus.receive Channel.receive
    rw [lags.found]
    dsimp only
    rw [if_pos lags.behind]
    rfl
  have topic : (((b.subscribers.put id (b.resumed s)).get? id).map (·.topic)).getD .log =
      s.topic := by
    rw [Assoc.get?_put_self]
    rfl
  rw [Bus.next, lost]
  dsimp only
  rw [topic]
  rfl

theorem subscribers_publish (b : Bus) (t : Topic) (e : Event) :
    (b.publish t e).1.subscribers = b.subscribers := by
  unfold Bus.publish
  split
  · rfl
  · cases t <;> rfl

theorem found_skipped (b : Bus) (isSink : Bool) (id : SubscriberId) (s : Subscriber) :
    (b.skipped isSink id s).subscribers.get? id = some (b.resumed s) := by
  unfold skipped logged send
  split
  · dsimp only
    rw [subscribers_publish]
    exact Assoc.get?_put_self ..
  · exact Assoc.get?_put_self ..

/-! ### A warning that goes elsewhere -/

theorem channel_publish_of_ne {t t' : Topic} (other : t ≠ t') (e : Event) :
    (b.publish t e).1.channel t' = b.channel t' := by
  unfold Bus.publish
  split
  · rfl
  · rw [channel_setChannel, if_neg other]

theorem channel_skipped {t : Topic} (elsewhere : ¬ (isSink = true ∧ t = .log)) :
    (b.skipped isSink id s).channel t = b.channel t := by
  unfold skipped logged
  split
  · next carries =>
      refine (channel_publish_of_ne (fun same => elsewhere ⟨carries, same.symm⟩) _).trans ?_
      cases t <;> rfl
  · cases t <;> rfl

theorem next_of_oldest {e : Event} (found : b.subscribers.get? id = some s)
    (place : s.position = (b.channel s.topic).oldest)
    (oldest : (b.channel s.topic).retained.head? = some e) (isSink : Bool) (attempts : Nat) :
    (b.next isSink (attempts + 1) id).2 = ([], some (.event e)) := by
  have there : (b.channel s.topic).retained[s.position - (b.channel s.topic).oldest]? = some e := by
    rw [place, Nat.sub_self, ← List.head?_eq_getElem?]
    exact oldest
  have received : (b.receive id).2 = .event e := by
    unfold Bus.receive
    rw [found]
    dsimp only
    rw [Channel.receive_of_oldest_le _ _ e (Nat.le_of_eq place.symm) there]
  have whole : b.receive id = ((b.receive id).1, .event e) := Prod.ext rfl received
  rw [Bus.next, whole]

/-- The second attempt finds the oldest retained event. -/
theorem Lags.caught_up (sound : b.Sound) (lags : b.Lags id s)
    (elsewhere : ¬ (isSink = true ∧ s.topic = .log)) :
    ∃ e, (b.channel s.topic).retained.head? = some e ∧ ∀ attempts,
      (b.next isSink (attempts + 2) id).2 = ([b.lagWarning s], some (.event e)) := by
  have full := ((sound s.topic).full lags.behind).1
  have some_kept : 0 < (b.channel s.topic).retained.length := full ▸ (sound s.topic).room
  have oldest := List.head?_eq_some_head (List.ne_nil_of_length_pos some_kept)
  refine ⟨_, oldest, fun attempts => ?_⟩
  have same : (b.skipped isSink id s).channel (b.resumed s).topic = b.channel s.topic :=
    channel_skipped elsewhere
  rw [lags.next]
  dsimp only
  rw [next_of_oldest (found_skipped b isSink id s) (congrArg Channel.oldest same).symm
    ((congrArg (·.retained.head?) same).trans oldest)]

/-! ### A warning that goes to the topic that is read -/

/-- What the bus carries of a line of the log. -/
def carried (l : Line) : Event := ⟨sinkSource, .log l.render⟩

theorem listening (found : b.subscribers.get? id = some s) : b.count s.topic ≠ 0 := by
  have listed : s ∈ b.subscribers.values := Assoc.mem_values_of_get? found
  have counted : s ∈ b.subscribers.values.filter fun t => t.topic = s.topic :=
    List.mem_filter.mpr ⟨listed, decide_eq_true rfl⟩
  exact Nat.ne_of_gt (List.length_pos_of_mem counted)

theorem log_skipped (b : Bus) (id : SubscriberId) (own : s.topic = .log) :
    (b.skipped true id s).log = b.log.push (carried (b.lagWarning s)) := by
  have listens : Bus.count { b with subscribers := b.subscribers.put id (b.resumed s) } .log ≠ 0 :=
    own ▸ listening (s := b.resumed s) (Assoc.get?_put_self ..)
  unfold skipped logged send Bus.publish
  rw [if_pos rfl]
  dsimp only
  rw [if_neg listens]
  rfl

/-- The warning has taken the place of the event that would have been received next. -/
theorem Lags.skipped (sound : b.Sound) (lags : b.Lags id s) (own : s.topic = .log) :
    (b.skipped true id s).Sound ∧ (b.skipped true id s).Lags id (b.resumed s) ∧
      (b.skipped true id s).missed (b.resumed s) = 1 ∧
      (b.skipped true id s).log.retained =
        (b.log.retained ++ [carried (b.lagWarning s)]).drop 1 := by
  obtain ⟨topic, position⟩ := s
  obtain rfl : topic = .log := own
  obtain ⟨full, most⟩ := (sound .log).full lags.behind
  have log := log_skipped b id (s := ⟨.log, position⟩) rfl
  have older : (b.log.push (carried (b.lagWarning ⟨.log, position⟩))).oldest = b.log.oldest + 1 :=
    Channel.oldest_push full most _
  refine ⟨fun t => ?_, ⟨found_skipped .., ?_⟩, ?_, ?_⟩
  · cases t with
    | log =>
        show (b.skipped true id _).log.Sound
        rw [log]
        exact (sound .log).push _
    | networkTable =>
        rw [channel_skipped (fun both => Topic.noConfusion both.2)]
        exact sound .networkTable
  · show b.log.oldest < (b.skipped true id _).log.oldest
    rw [log, older]
    exact Nat.lt_succ_self _
  · show (b.skipped true id _).log.oldest - b.log.oldest = 1
    rw [log, older]
    exact Nat.add_sub_cancel_left ..
  · rw [log]
    exact Channel.retained_push full _

/-- The warnings of so many attempts: every one after the first finds that one event is lost. -/
def lagLines (missed : Nat) : Nat → List Line
  | 0 => []
  | attempts + 1 => lagLine .log missed :: lagLines 1 attempts

theorem Lags.never_caught_up (sound : b.Sound) (lags : b.Lags id s) (own : s.topic = .log)
    (attempts : Nat) :
    (b.next true attempts id).2 = (lagLines (b.missed s) attempts, none) ∧
      (b.next true attempts id).1.log.retained =
        (b.log.retained ++ (lagLines (b.missed s) attempts).map carried).drop attempts := by
  -- an attempt leaves a bus on which the same subscriber lags again, by one event
  induction attempts generalizing b s with
  | zero => exact ⟨rfl, (List.append_nil _).symm⟩
  | succ attempts ih =>
      obtain ⟨sound', lags', one, kept⟩ := lags.skipped sound own
      obtain ⟨answer, left⟩ := ih sound' lags' own
      have warning : b.lagWarning s = lagLine .log (b.missed s) := by rw [lagWarning, own]
      rw [one] at answer left
      rw [lags.next]
      dsimp only
      refine ⟨?_, ?_⟩
      · rw [answer, warning]
        rfl
      · have first : 1 ≤ (b.log.retained ++ [carried (lagLine .log (b.missed s))]).length := by
          simp
        rw [lagLines, List.map_cons, left, kept, warning,
          ← List.drop_append_of_le_length first, List.drop_drop, List.append_assoc,
          Nat.add_comm attempts 1]
        rfl

/-! ### Who catches up -/

/-- On a bus of any capacity and with any past, a subscriber that lags has caught up with its second
attempt and got the oldest event that was retained, unless it reads the topic on which the bus
carries its own warnings.  There every attempt finds a loss, and each loss costs one more of the
events that were retained. -/
theorem next_of_lagging {capacity : Nat} {b₀ : Bus} (made : withCapacity capacity = .ok b₀)
    (acts : List Act) {id : SubscriberId} {s : Subscriber} (lags : (after b₀ acts).Lags id s)
    (isSink : Bool) :
    (¬ (isSink = true ∧ s.topic = .log) →
      ∃ e, ((after b₀ acts).channel s.topic).retained.head? = some e ∧ ∀ attempts,
        ((after b₀ acts).next isSink (attempts + 2) id).2 =
          ([(after b₀ acts).lagWarning s], some (.event e))) ∧
    (isSink = true → s.topic = .log → ∀ attempts,
      ((after b₀ acts).next isSink attempts id).2 =
        (lagLines ((after b₀ acts).missed s) attempts, none) ∧
      ((after b₀ acts).next isSink attempts id).1.log.retained =
        ((after b₀ acts).log.retained ++
          (lagLines ((after b₀ acts).missed s) attempts).map carried).drop attempts) := by
  have sound := sound_after (sound_withCapacity made) acts
  refine ⟨fun elsewhere => lags.caught_up sound elsewhere, ?_⟩
  rintro rfl own attempts
  exact lags.never_caught_up sound own attempts

/-- Three events on each topic of a bus with room for two, and a subscriber on each. -/
def flood : List Act :=
  [.publish .networkTable ⟨"table", .entry "n" "3"⟩,
    .publish .networkTable ⟨"table", .entry "n" "2"⟩,
    .publish .networkTable ⟨"table", .entry "n" "1"⟩,
    .publish .log ⟨"log", .log "3"⟩, .publish .log ⟨"log", .log "2"⟩,
    .publish .log ⟨"log", .log "1"⟩, .subscribe .networkTable, .subscribe .log]

def smallBus : Bus := { log := { size := 2 }, networkTable := { size := 2 } }

theorem withCapacity_two : withCapacity 2 = .ok smallBus := by
  have ring : ringSize 2 = 2 := by decide +kernel
  unfold withCapacity
  rw [ring]
  rfl

theorem lags_flood : (after smallBus flood).Lags ⟨0⟩ ⟨.log, 0⟩ ∧
    (after smallBus flood).Lags ⟨1⟩ ⟨.networkTable, 0⟩ :=
  ⟨⟨rfl, by decide⟩, ⟨rfl, by decide⟩⟩

theorem next_of_lagging_flood :
    withCapacity 2 = .ok smallBus ∧
      ((after smallBus flood).Lags ⟨1⟩ ⟨.networkTable, 0⟩ ∧
        ∀ attempts, ((after smallBus flood).next true (attempts + 2) ⟨1⟩).2 =
          ([lagLine .networkTable 1], some (.event ⟨"table", .entry "n" "2"⟩))) ∧
      ((after smallBus flood).Lags ⟨0⟩ ⟨.log, 0⟩ ∧ ∀ attempts,
        ((after smallBus flood).next true attempts ⟨0⟩).2 = (lagLines 1 attempts, none)) := by
  have onLog := next_of_lagging withCapacity_two flood lags_flood.1 true
  have onTable := next_of_lagging withCapacity_two flood lags_flood.2 true
  obtain ⟨e, oldest, returned⟩ := onTable.1 (by decide)
  cases oldest
  exact ⟨withCapacity_two, ⟨lags_flood.2, returned⟩, lags_flood.1,
    fun attempts => (onLog.2 rfl rfl attempts).1⟩

/-- A subscriber of the log that lags never gets any event while the bus carries its warnings. -/
theorem never_caught_up_flood :
    (after smallBus flood).log.retained = [⟨"log", .log "2"⟩, ⟨"log", .log "3"⟩] ∧
      (after smallBus flood).Lags ⟨0⟩ ⟨.log, 0⟩ ∧
      ¬ ∃ attempts e, ((after smallBus flood).next true attempts ⟨0⟩).2.2 = some (.event e) := by
  refine ⟨rfl, lags_flood.1, ?_⟩
  rintro ⟨attempts, e, returned⟩
  have sound := sound_after (sound_withCapacity withCapacity_two) flood
  have never := (lags_flood.1.never_caught_up sound rfl attempts).1
  rw [never] at returned
  cases returned

end Bus

end RobotControl
