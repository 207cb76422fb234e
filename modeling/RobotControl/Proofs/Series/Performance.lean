import RobotControl.Proofs.Series.Interruption
import RobotControl.Proofs.Series.Turn

/-!
# A series from start to end

What an application does with a manager that has a series: it asks for one thing after another, and
may change what it keeps for itself in between (`Machine.Performs`).  Whatever it asks for, the
manager comes to an end with it, at a stage of the series (`Machine.Poised.asked`), so that all that
shows falls into the parts of the series.
-/
set_option autoImplicit false

namespace RobotControl

open Series

variable {ε Ω σ : Type}

namespace Machine

variable {h : Host ε Ω σ} {s : ActionId} {cs : List ActionId} {f : Option ActionId}
  {score : σ → Option Series} {read : σ → Series} {write : Series → σ → σ}
  {m m' m'' : Machine ε Ω σ} {rest : List (Task ε Ω σ)} {stage stage' : Stage}
  {log log' : List Note} {t t' : ActionTable} {x : Series} {i : Nat}

/-! ### The end of a request -/

theorem idle_steps (idle : m.agenda = []) (n : Nat) :
    m.steps h n = m ∧ m.record h n = [] := by
  have step : m.step h = m := by simp only [Machine.step, idle]
  have silent : m.notes h = [] := by simp only [notes, idle]
  induction n with
  | zero => exact ⟨rfl, rfl⟩
  | succ n ih =>
      rw [steps, record, step, silent]
      exact ih

theorem Goes.unique (first : Goes h m log m') (second : Goes h m log' m'') (idle : m'.agenda = [])
    (idle' : m''.agenda = []) : log = log' ∧ m' = m'' := by
  obtain ⟨n, rfl, rfl⟩ := first
  obtain ⟨k, rfl, rfl⟩ := second
  rcases Nat.le_total n k with less | less
  · obtain ⟨d, rfl⟩ := Nat.exists_eq_add_of_le less
    obtain ⟨stays, silent⟩ := idle_steps (h := h) idle d
    rw [steps_add, record_add, stays, silent, List.append_nil]
    exact ⟨rfl, rfl⟩
  · obtain ⟨d, rfl⟩ := Nat.exists_eq_add_of_le less
    obtain ⟨stays, silent⟩ := idle_steps (h := h) idle' d
    rw [steps_add, record_add, stays, silent, List.append_nil]
    exact ⟨rfl, rfl⟩

/-! ### A tick -/

theorem Proceeds.of_part {k : Nat} {part : List Note} (proceeds : Proceeds s cs f t' k part)
    (fewer : ∀ b, t'.isRunning b = true → t.isRunning b = true) (within : part ⊆ log) :
    Proceeds s cs f t k log where
  next c now := within (proceeds.next c now)
  closes none := within (proceeds.closes none)
  follows none g followUp stands := within (proceeds.follows none g followUp
    (Bool.eq_false_iff.mpr fun runs => by simp [fewer g runs] at stands))

/-- The turns of a tick, one after the other.  In its own one the series proceeds, unless a child
plays. -/
theorem Poised.turns (apart : s ∉ cs) (elsewhere : f ≠ some s)
    (conducts : h.Conducts s score read write) (as : List ActionId)
    {m : Machine ε Ω σ} {stage : Stage} (poised : Poised s cs f score m stage)
    (front : m.agenda = as.map .turn ++ rest) :
    ∃ log m' stage', m'.agenda = rest ∧ Leads h s cs f score m stage log m' stage' ∧
      (s ∈ as → ∀ k, stage = .on k false → Proceeds s cs f m.table k log) := by
  -- The turns of others before its own leave the series where it waits for the next child.
  induction as generalizing m stage with
  | nil => exact ⟨[], m, stage, front, .refl poised, fun none => by cases none⟩
  | cons a as ih =>
      have below : frames (as.map .turn ++ rest) = [] := by
        have outside := poised.outside
        rwa [front] at outside
      by_cases own : a = s
      · subst own
        obtain ⟨log, m₁, stage₁, agenda, leads, proceeds⟩ :=
          poised.turnSeries apart elsewhere conducts front below
        obtain ⟨log', m', stage', agenda', leads', -⟩ := ih leads.poised agenda
        exact ⟨_, m', stage', agenda', leads.trans leads', fun _ k waits =>
          (proceeds k waits).of_part (fun _ => id) (List.subset_append_left ..)⟩
      · obtain ⟨log, m₁, stage₁, agenda, leads, fewer, stays⟩ :=
          poised.turn apart conducts front below own
        obtain ⟨log', m', stage', agenda', leads', proceeds⟩ := ih leads.poised agenda
        refine ⟨_, m', stage', agenda', leads.trans leads', fun listed k waits => ?_⟩
        have later : s ∈ as := (List.mem_cons.mp listed).resolve_left fun same => own same.symm
        exact (proceeds later k (stays k waits)).of_part fewer (List.subset_append_right ..)

theorem Poised.tick (poised : Poised s cs f score m stage) (apart : s ∉ cs)
    (elsewhere : f ≠ some s) (conducts : h.Conducts s score read write)
    {next : Bool → Routine ε Ω σ} (front : m.agenda = .run (.ask .tick next) :: rest)
    (outside : frames rest = []) :
    ∃ log m' stage', m'.agenda = .run (next true) :: rest ∧
      Leads h s cs f score m stage log m' stage' ∧
      ∀ k, stage = .on k false → Proceeds s cs f m.table k log := by
  obtain ⟨x, known, scene⟩ := poised.scene
  have shown : m.notes h = [.asks none .tick true] := by
    simp only [notes, front, outside, ActionTable.answer]
    rfl
  have step : m.step h = m.workingOn m.table.running (m.table.running.map .turn)
      (.run (next true) :: rest) := by
    simp only [Machine.step, front, runRoutine, grant]
  have goes := Goes.one h m
  rw [shown, step] at goes
  have below : frames (.letGo m.table.running :: .run (next true) :: rest) = [] := outside
  have turns : frames (m.table.running.map .turn ++ .letGo m.table.running ::
      .run (next true) :: rest) = [] := by
    rw [frames_append, below, List.append_nil]
    exact frames_of_isLight fun x listed => by
      obtain ⟨a, -, rfl⟩ := List.mem_map.mp listed
      rfl
  have asked := poised.orderly.leads goes turns (.of_alike (.hold m.table m.table.running)) known
    poised.bare scene (.nil : Parts s cs f stage [] stage)
  obtain ⟨log, m₁, stage', agenda, leads, proceeds⟩ :=
    asked.poised.turns apart elsewhere conducts m.table.running rfl
  obtain ⟨m', agenda', leads'⟩ := (asked.trans leads).letGo agenda
  refine ⟨_, m', stage', agenda', leads', fun k waits => ?_⟩
  subst waits
  have runs : s ∈ m.table.running := by
    cases scene with
    | on runs _ _ _ _ => exact (poised.orderly.consistent.running_iff s).mp runs
  exact (proceeds runs k rfl).of_part (fun _ => id) (List.subset_append_right ..)

/-! ### Requests -/

/-- What may be asked for: ticks and stops, starts of actions that are no children, and starts of
the series as long as none of its children runs without it. -/
def Allows (s : ActionId) (cs : List ActionId) (t : ActionTable) : Request → Prop
  | .start a _ =>
      a ∉ cs ∧ (a = s → t.isRunning s = true ∨ ∀ c ∈ cs, t.isRunning c = false)
  | .stop _ | .stopAll | .tick => True
  | .poll | .bind .. | .unbind _ => False

theorem Poised.ask (poised : Poised s cs f score m stage) (idle : m.agenda = []) (r : Request) :
    Poised s cs f score (m.asked r) stage :=
  ⟨poised.orderly.ask idle _, rfl, poised.bare, poised.scene⟩

theorem Poised.asked (poised : Poised s cs f score m stage) (idle : m.agenda = [])
    (apart : s ∉ cs) (elsewhere : f ≠ some s) (conducts : h.Conducts s score read write)
    {r : Request} (allowed : Allows s cs m.table r) :
    ∃ log m' stage', m'.agenda = [] ∧ Leads h s cs f score (m.asked r) stage log m' stage' ∧
      (r = .tick → ∀ k, stage = .on k false → Proceeds s cs f m.table k log) := by
  have asked := poised.ask idle r
  obtain ⟨log, m₁, stage₁, agenda, leads, proceeds⟩ :
      ∃ log m' stage', m'.agenda = [.run .skip] ∧
        Leads h s cs f score (m.asked r) stage log m' stage' ∧
        (r = .tick → ∀ k, stage = .on k false → Proceeds s cs f m.table k log) := by
    cases r with
    | start a restart =>
        obtain ⟨stranger, own⟩ := allowed
        by_cases same : a = s
        · subst same
          obtain ⟨log, m', stage', -, agenda, leads⟩ :=
            asked.startSeries apart conducts rfl rfl (own rfl)
          exact ⟨log, m', stage', agenda, leads, fun tick => by cases tick⟩
        · obtain ⟨log, m', stage', -, agenda, leads⟩ :=
            asked.start apart conducts rfl rfl same stranger
          exact ⟨log, m', stage', agenda, leads, fun tick => by cases tick⟩
    | stop a =>
        by_cases same : a = s
        · subst same
          obtain ⟨log, m', stage', agenda, leads⟩ := asked.stopSeries apart conducts rfl rfl
          exact ⟨log, m', stage', agenda, leads, fun tick => by cases tick⟩
        · obtain ⟨log, m', stage', agenda, leads⟩ := asked.stop apart conducts rfl rfl same
          exact ⟨log, m', stage', agenda, leads, fun tick => by cases tick⟩
    | stopAll =>
        obtain ⟨log, m', stage', agenda, leads⟩ := asked.stopAll apart conducts rfl rfl
        exact ⟨log, m', stage', agenda, leads, fun tick => by cases tick⟩
    | tick =>
        obtain ⟨log, m', stage', agenda, leads, proceeds⟩ :=
          asked.tick apart elsewhere conducts rfl rfl
        exact ⟨log, m', stage', agenda, leads, fun _ => proceeds⟩
    | poll => exact allowed.elim
    | bind => exact allowed.elim
    | unbind => exact allowed.elim
  have silent : m₁.notes h = [] := by
    simp [notes, agenda, Routine.skip]
  have step : m₁.step h = m₁.todo [] := by
    simp [Machine.step, agenda, Routine.skip, runRoutine, finishRoutine]
  obtain ⟨m', agenda', last⟩ := leads.poised.passes step (by rw [silent]; rfl) rfl
  rw [silent] at last
  exact ⟨_, m', stage₁, agenda', leads.trans last, fun tick k waits =>
    (proceeds tick k waits).of_part (fun _ => id) (List.subset_append_left ..)⟩

/-! ### Performances -/

/-- What happens to a manager outside all callbacks: one request after another is worked off, and
world and application change in between, but not what is kept for the series. -/
inductive Performs (h : Host ε Ω σ) (s : ActionId) (cs : List ActionId)
    (score : σ → Option Series) (m₀ : Machine ε Ω σ) : List Note → Machine ε Ω σ → Prop
  | fresh : Performs h s cs score m₀ [] m₀
  | drift {log : List Note} {m : Machine ε Ω σ} (w : Ω) (own : σ)
      (performs : Performs h s cs score m₀ log m) (kept : score own = score m.own) :
      Performs h s cs score m₀ log { m with world := w, own := own }
  | ask {log log' : List Note} {m m' : Machine ε Ω σ} {r : Request}
      (performs : Performs h s cs score m₀ log m) (allowed : Allows s cs m.table r)
      (goes : Goes h (m.asked r) log' m') (idle : m'.agenda = []) :
      Performs h s cs score m₀ (log ++ log') m'

theorem Poised.of_run {past : List (Machine ε Ω σ)} (run : Run h m past) (idle : m.agenda = [])
    (stands : m.table.isRunning s = false) (known : score m.own = some ⟨cs, f, i⟩) :
    Poised s cs f score m (.off false) := by
  have stopped : m.table.phase s ≠ .running := by simpa [ActionTable.isRunning] using stands
  exact ⟨run.orderly, by rw [idle]; rfl, run.consistent.owner_ne stopped, _, known,
    .off stopped fun rest => by cases rest⟩

theorem Performs.poised {m₀ : Machine ε Ω σ} (performs : Performs h s cs score m₀ log m)
    (poised : Poised s cs f score m₀ (.off false)) (idle : m₀.agenda = []) (apart : s ∉ cs)
    (elsewhere : f ≠ some s) (conducts : h.Conducts s score read write) :
    m.agenda = [] ∧ ∃ stage, Poised s cs f score m stage ∧
      Parts s cs f (.off false) (plot s cs f log) stage := by
  induction performs with
  | fresh => exact ⟨idle, _, poised, .nil⟩
  | drift w own performs kept ih =>
      obtain ⟨idle, stage, poised, parts⟩ := ih
      obtain ⟨x, known, scene⟩ := poised.scene
      exact ⟨idle, stage, ⟨⟨poised.orderly.sound, poised.orderly.consistent⟩, poised.outside,
        poised.bare, x, kept.trans known, scene⟩, parts⟩
  | ask performs allowed goes idle' ih =>
      obtain ⟨idle, stage, poised, parts⟩ := ih
      obtain ⟨log', m', stage', ends, leads, -⟩ :=
        poised.asked idle apart elsewhere conducts allowed
      obtain ⟨rfl, rfl⟩ := goes.unique leads.goes idle' ends
      exact ⟨idle', stage', leads.poised, plot_append .. ▸ parts.trans leads.parts⟩

/-- How a series stands that runs, after the log of its run. -/
structure UnderWay (h : Host ε Ω σ) (s : ActionId) (cs : List ActionId) (f : Option ActionId)
    (m : Machine ε Ω σ) (run : List Note) : Prop where
  inTurn : InTurn s cs run
  /-- Of the children, the one that has begun and not finished is the only one that runs. -/
  plays : ∃ now : Option ActionId, begun cs run = ended cs run ++ now.toList ∧
    ∀ c ∈ cs, m.table.isRunning c = true ↔ now = some c
  /-- Stopped or restarted, its run is cut short. -/
  cut : ∀ r log m', r.cuts s = true → Goes h (m.asked r) log m' → m'.agenda = [] →
    CutShort s cs (run ++ log.takeWhile (· ≠ .enters s .begin))
  /-- While no child runs it goes on with a tick. -/
  proceeds : (∀ c ∈ cs, m.table.isRunning c = false) → ∀ log m', Goes h (m.asked .tick) log m' →
    m'.agenda = [] → Proceeds s cs f m.table (begun cs run).length log

theorem Goes.starts (goes : Goes h m log m') (busy : m.agenda ≠ []) (idle : m'.agenda = []) :
    ∃ rest, log = m.notes h ++ rest := by
  obtain ⟨n, rfl, rfl⟩ := goes
  cases n with
  | zero => exact absurd idle busy
  | succ n => exact ⟨_, rfl⟩

/-- What ends the run of the series is granted, and that shows first. -/
theorem Goes.cuts {r : Request} (goes : Goes h (m.asked r) log m') (idle : m'.agenda = [])
    (runs : m.table.isRunning s = true) (cuts : r.cuts s = true) :
    ∃ rest, log = .asks none r true :: rest := by
  have answer : m.table.answer r = true := by
    cases r with
    | start a restart => cases restart <;> simp_all [ActionTable.answer, Request.cuts]
    | stop a => simp_all [ActionTable.answer, Request.cuts]
    | stopAll => rfl
    | _ => cases cuts
  obtain ⟨rest, rfl⟩ := goes.starts (by simp [asked, todo]) idle
  have shown : (m.asked r).notes h = [.asks none r (m.table.answer r)] := rfl
  exact ⟨rest, by rw [shown, answer]; rfl⟩

theorem Poised.underWay {k : Nat} {plays : Bool} {before run : List Note}
    (poised : Poised s cs f score m (.on k plays)) (idle : m.agenda = []) (apart : s ∉ cs)
    (elsewhere : f ≠ some s) (conducts : h.Conducts s score read write)
    (parts : Parts s cs f (.off false) (plot s cs f (before ++ .enters s .begin :: run))
      (.on k plays))
    (within : .enters s .begin ∉ run) (told : Told s cs f run (.on k plays)) :
    UnderWay h s cs f m run := by
  obtain ⟨x, known, scene⟩ := poised.scene
  obtain ⟨inTurn, upTo, closed⟩ := told
  obtain ⟨same, current⟩ := now_of_scene scene
  cases scene with
  | on runs bound first playing ended =>
      have granted : m.table.isRunning s = true := (ActionTable.isRunning_iff ..).mpr runs
      refine ⟨inTurn, ⟨cs[k - 1]?.filter m.table.isRunning, ?_, fun c child => ?_⟩,
        fun r log' m' cuts goes idle' => ?_, fun still log' m' goes idle' => ?_⟩
      · rw [upTo, closed, take_now current, same]
      · rw [Option.filter_eq_some_iff, ActionTable.isRunning_iff, playing c child]
        exact ⟨fun now => ⟨now.2, now⟩, fun now => now.2⟩
      · -- What the log has to say of the run that goes on leaves only one way for it to stand.
        have allowed : Allows s cs m.table r := by
          cases r with
          | start a restart =>
              obtain rfl : a = s := by
                cases restart <;> simp_all [Request.cuts]
              exact ⟨apart, fun _ => .inl granted⟩
          | poll => cases cuts
          | bind => cases cuts
          | unbind => cases cuts
          | _ => trivial
        obtain ⟨log, _, stage', ends, leads, -⟩ :=
          poised.asked idle apart elsewhere conducts allowed
        obtain ⟨rfl, rfl⟩ := goes.unique leads.goes idle' ends
        have whole : Parts s cs f (.off false)
            (plot s cs f (before ++ .enters s .begin :: run ++ log')) stage' := by
          rw [plot_append]
          exact parts.trans leads.parts
        have stands := (whole.tells apart elsewhere).stands _ (mem_runs_append before within log')
        obtain ⟨more, rfl⟩ := goes.cuts idle' granted cuts
        rw [List.takeWhile_cons_of_pos (by simp)] at stands ⊢
        exact cutShort_of_cuts cuts inTurn.lasts stands
      · obtain ⟨log, _, stage', ends, leads, proceeds⟩ :=
          poised.asked (r := .tick) idle apart elsewhere conducts trivial
        obtain ⟨rfl, rfl⟩ := goes.unique leads.goes idle' ends
        have waits : plays = false := by
          cases plays with
          | false => rfl
          | true =>
              obtain ⟨c, now⟩ := Option.isSome_iff_exists.mp same
              obtain ⟨current, runs⟩ := Option.filter_eq_some_iff.mp now
              rw [still c (List.mem_of_getElem? current)] at runs
              cases runs
        rw [upTo, List.length_take_of_le bound]
        exact proceeds rfl k (waits ▸ rfl)

/-- A series plays its children strictly one after the other.  All other callbacks are tame: they
may fail or panic, and their actions may need any devices and interrupt each other.  Whatever is
asked for from outside is worked off, and by then every run of the series but the last is over: the
children have begun in the order of the list, each once and after the one before had finished, until
all had had their turn and the series finished and started its follow-up, or until it was ended from
outside, and then the child that ran has finished as interrupted, once, and nothing else was
started.  The last run is over as well unless the series runs, and then it is under way. -/
theorem Performs.plays_in_sequence {m₀ : Machine ε Ω σ} {past : List (Machine ε Ω σ)}
    (run : Run h m₀ past) (idle : m₀.agenda = []) (stands : m₀.table.isRunning s = false)
    (known : score m₀.own = some ⟨cs, f, i⟩) (conducts : h.Conducts s score read write)
    (apart : s ∉ cs) (elsewhere : f ≠ some s) (performs : Performs h s cs score m₀ log m) :
    (∀ r, Allows s cs m.table r → ∃ log' m', Goes h (m.asked r) log' m' ∧ m'.agenda = []) ∧
    (∀ run ∈ (runs s log).dropLast, Sequenced s cs run f) ∧
    (m.table.isRunning s = false → ∀ run ∈ runs s log, Sequenced s cs run f) ∧
    (m.table.isRunning s = true →
      ∃ run, (runs s log).getLast? = some run ∧ UnderWay h s cs f m run) := by
  obtain ⟨idle', stage, poised, parts⟩ :=
    performs.poised (.of_run run idle stands known) idle apart elsewhere conducts
  have chronicle := parts.tells apart elsewhere
  obtain ⟨x, -, scene⟩ := poised.scene
  refine ⟨fun r allowed => ?_, chronicle.past, fun stopped => ?_, fun running => ?_⟩
  · obtain ⟨log', m', _, ends, leads, -⟩ := poised.asked idle' apart elsewhere conducts allowed
    exact ⟨log', m', leads.goes, ends⟩
  · cases scene with
    | off => exact chronicle.sequenced
    | on runs => rw [(ActionTable.isRunning_iff ..).mpr runs] at stopped; cases stopped
  · cases scene with
    | off stands => exact absurd ((ActionTable.isRunning_iff ..).mp running) stands
    | on =>
        cases chronicle with
        | last _ within told =>
            exact ⟨_, getLast?_runs _ within,
              poised.underWay idle' apart elsewhere conducts parts within told⟩

end Machine

/-- An application with a series of two actions and a follow-up that all need one device.  The first
fails to begin, the second panics when it finishes. -/
def Host.duet : Host Empty Unit Series where
  name _ a := a.label
  needs x a := (x, .ok (if a = ⟨1⟩ then [] else [⟨1⟩]))
  routine a cb :=
    if a = ⟨1⟩ then Series.routine id (fun x _ => x) cb
    else
      match cb with
      | .begin => if a = ⟨2⟩ then .fail (.hardware "arm" "jammed") else .skip
      | .finish _ => if a = ⟨3⟩ then .panic .unreadable else .skip
      | _ => .skip
  wantsMore x a := a = ⟨1⟩ && x.wantsMore
  poll _ x _ := (x, .ok false)
  isAlive _ _ _ := true
  forget _ _ w := w
  perform e := nomatch e
  log _ w := w

theorem Host.duet_conducts : Host.duet.Conducts ⟨1⟩ some id fun x _ => x where
  reads own x same := Option.some.inj same
  writes own x y same := rfl
  plays cb m rest x known front := by
    have stays : m.todo (.run (Series.routine id (fun x _ => x) cb) :: rest) = m :=
      (congrArg m.todo front).symm
    rw [stays]
    exact .refl
  unclaimed own x same := ⟨rfl, same⟩
  goesOn own x same := by
    cases same
    rfl
  tame b other cb := by
    show Routine.Tame _ _ (if b = ⟨1⟩ then _ else _)
    rw [if_neg other]
    cases cb with
    | begin => dsimp only; split <;> exact .done _
    | finish _ => dsimp only; split; exacts [.panic _, .done _]
    | process => exact .done _
    | proceed => exact .done _
  claims own b other := ⟨_, rfl, rfl⟩

/-- What shows of the application, and its manager, asked for one thing after another, the latest
first. -/
def Host.duetAsked : List Request → List Note × Machine Empty Unit Series
  | [] => ([], { table := {}, world := (), own := ⟨[⟨2⟩, ⟨3⟩], some ⟨4⟩, 0⟩ })
  | r :: earlier =>
      let m := (duetAsked earlier).2.asked r
      ((duetAsked earlier).1 ++ m.record duet 40, m.steps duet 40)

def Host.DuetPerforms (rs : List Request) : Prop :=
  Machine.Performs duet ⟨1⟩ [⟨2⟩, ⟨3⟩] some (duetAsked []).2 (duetAsked rs).1 (duetAsked rs).2

theorem Host.DuetPerforms.ask {r : Request} {earlier : List Request}
    (performs : DuetPerforms earlier)
    (allowed : Machine.Allows ⟨1⟩ [⟨2⟩, ⟨3⟩] (duetAsked earlier).2.table r)
    (idle : (duetAsked (r :: earlier)).2.isIdle = true) : DuetPerforms (r :: earlier) :=
  Machine.Performs.ask performs allowed ⟨40, rfl, rfl⟩ (List.isEmpty_iff.mp idle)

/-- The series plays once to its end, and is stopped the next time while the second action runs. -/
theorem plays_in_sequence_duet :
    ∃ log m, Host.duetAsked
        [.stopAll, .tick, .start ⟨1⟩ false, .tick, .tick, .tick, .start ⟨1⟩ false] = (log, m) ∧
      (runs ⟨1⟩ log).map (finishes [⟨1⟩]) = [[(⟨1⟩, false)], [(⟨1⟩, true)]] ∧
        ∀ run ∈ runs ⟨1⟩ log, Sequenced ⟨1⟩ [⟨2⟩, ⟨3⟩] run (some ⟨4⟩) := by
  have opened : Host.DuetPerforms [.start ⟨1⟩ false] :=
    Host.DuetPerforms.ask .fresh ⟨by decide, fun _ => .inr (by decide)⟩ (by decide +kernel)
  have closed : Host.DuetPerforms [.tick, .tick, .tick, .start ⟨1⟩ false] :=
    ((opened.ask (r := .tick) trivial (by decide +kernel)).ask (r := .tick) trivial
      (by decide +kernel)).ask trivial (by decide +kernel)
  have again : Host.DuetPerforms [.start ⟨1⟩ false, .tick, .tick, .tick, .start ⟨1⟩ false] :=
    closed.ask ⟨by decide, fun _ => .inr (by decide +kernel)⟩ (by decide +kernel)
  have stopped : Host.DuetPerforms
      [.stopAll, .tick, .start ⟨1⟩ false, .tick, .tick, .tick, .start ⟨1⟩ false] :=
    (again.ask (r := .tick) trivial (by decide +kernel)).ask trivial (by decide +kernel)
  refine ⟨_, _, rfl, by decide +kernel, ?_⟩
  exact (Machine.Performs.plays_in_sequence (.fresh () _) rfl rfl rfl Host.duet_conducts
    (by decide) (by decide) stopped).2.2.1 (by decide +kernel)

end RobotControl
