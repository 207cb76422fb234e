import RobotControl.Proofs.Action.StopAll
import RobotControl.Proofs.Robot.Shutdown

/-!
# What a shutdown leaves running

A shutdown stops all actions once the monitor and the scheduler have ended.  What the callbacks of
the stopped actions start meanwhile is neither refused nor stopped: it runs on in a robot that was
shut down, and nothing will process it.  `Session.stopAll_leaves` is the exact account.
-/
set_option autoImplicit false

namespace RobotControl

variable {ι σ : Type} {app : App ι σ}

namespace Session

variable {s : Session ι σ} {past : List (Session ι σ)} {w : World ι}
  {above tasks : List (Task (Effect ι) (World ι) σ)}

theorem Life.orderly (life : Life app s past) : s.Orderly := by
  induction life with
  | created p sink own => exact .fresh _ own
  | order o life idle ih => exact ih.ask idle o.body
  | step life ih => exact ih.step
  | advance time life ih => exact ⟨ih.sound, ih.consistent⟩
  | look life ih => exact ⟨ih.sound, ih.consistent⟩
  | make id d life ih => exact ⟨ih.sound, ih.consistent⟩
  | drift own life ih => exact ⟨ih.sound, ih.consistent⟩

/-! ### A shutdown that is called from outside -/

abbrev Runs (c : Robot.Code ι σ) : Prop := c.Uses (fun _ => True) (· ≠ .duty .halt)

theorem everyday_runs : Robot.Everyday fun e : Effect ι => e ≠ .duty .halt where
  act _ := nofun
  periodicIn _ := nofun
  periodic := nofun
  hookFailed _ _ := nofun
  applyMode := nofun
  settle := nofun
  jobEnded _ _ := nofun

/-- What a call from outside stands on. -/
inductive Floor : List (Task (Effect ι) (World ι) σ) → Prop
  | ground : Floor []
  | inRun : Floor [.caught Robot.runEnd]

/-- The agendas of a robot that is called from outside only: a shutdown stands alone. -/
inductive Alone : List (Task (Effect ι) (World ι) σ) → Prop
  | code (above : List (Task (Effect ι) (World ι) σ)) {foot : List (Task (Effect ι) (World ι) σ)}
      (runs : Machine.Permitted (fun _ => True) (· ≠ .duty .halt) above) (floor : Floor foot) :
      Alone (above ++ foot)
  | running : Alone [.run Robot.run]
  | ended (o : Except Failure Unit) : Alone [.run (Robot.runEnd o)]
  | noted : Alone [.run .skip, .bound fun _ => Robot.shutdown]
  | stopping : Alone [.run Robot.shutdown]
  | halting : Alone [.run (Robot.doing .halt Robot.closing)]

namespace Alone

theorem of_code {c : Robot.Code ι σ} {foot : List (Task (Effect ι) (World ι) σ)}
    (runs : Runs c) (floor : Floor foot) : Alone (.run c :: foot) :=
  .code [.run c] (Machine.permitted_cons.mpr ⟨runs, fun x none => by cases none⟩) floor

theorem idle : Alone ([] : List (Task (Effect ι) (World ι) σ)) :=
  .code [] (fun x none => by cases none) .ground

theorem runs_lift (r : Routine (Act ι) (World ι) σ) : Runs (Robot.lift r) :=
  Robot.uses_lift (fun _ => nofun) r

theorem runs_closing : Runs (Robot.closing : Robot.Code ι σ) :=
  ⟨trivial, fun _ => ⟨nofun, fun _ => trivial⟩⟩

theorem runs_retired : Runs (Robot.doing .retireUnstarted .skip : Robot.Code ι σ) :=
  ⟨nofun, fun _ => trivial⟩

theorem runs_start : Runs (Robot.start : Robot.Code ι σ) := by
  intro t w own
  dsimp only
  split
  · trivial
  · exact ⟨nofun, fun _ => ⟨nofun, fun _ => ⟨nofun, fun _ => ⟨nofun, fun _ => trivial⟩⟩⟩⟩

theorem runs_setEnabled (enabled : Bool) : Runs (Robot.setEnabled enabled : Robot.Code ι σ) := by
  intro t w own
  dsimp only
  split
  · trivial
  · split
    · trivial
    · exact ⟨nofun, fun _ => ⟨nofun, fun _ => trivial⟩⟩

theorem order (o : Order ι σ) : Alone [.run o.body] := by
  cases o with
  | start => exact .of_code runs_start .ground
  | shutdown => exact .stopping
  | run => exact .running
  | setEnabled enabled => exact .of_code (runs_setEnabled enabled) .ground
  | settle => exact .of_code ⟨nofun, fun _ => trivial⟩ .ground
  | code r => exact .of_code (runs_lift r) .ground

theorem runs_perform (w : World ι) (e : Effect ι) : Runs (Robot.perform app w e).2 := by
  cases e with
  | act a =>
      cases a with
      | setEnabled enabled => exact runs_setEnabled enabled
      | _ => trivial
  | duty d =>
      cases d with
      | call h => exact everyday_runs.uses_call app h
      | settle => exact everyday_runs.uses_settle app w
      | _ => trivial

theorem step_code (app : App ι σ) {foot : List (Task (Effect ι) (World ι) σ)}
    (whole : s.agenda = above ++ foot)
    (runs : Machine.Permitted (fun _ => True) (· ≠ .duty .halt) above) (floor : Floor foot) :
    Alone (Machine.step (Robot.host app) s).agenda := by
  by_cases none : above = []
  · subst none
    cases floor with
    | ground =>
        rw [Machine.step_of_idle whole, whole]
        exact .idle
    | inRun =>
        simp only [Machine.step, whole, List.nil_append]
        exact .ended (.ok ())
  · have catches : Catches foot := by
      cases floor with
      | ground => exact .bottom
      | inRun => exact .attempt _ _
    have lands := Machine.lands_step (h := Robot.host app) (fun _ _ => runs_lift _) catches whole
      none runs fun e _ _ _ => runs_perform s.world e
    generalize Machine.agenda (Machine.step (Robot.host app) s) = agenda at lands
    cases lands with
    | above tasks code => exact .code tasks code floor
    | on caught o =>
        cases floor with
        | ground => cases caught
        | inRun =>
            cases caught
            exact .ended o

theorem step (app : App ι σ) (alone : Alone s.agenda) :
    Alone (Machine.step (Robot.host app) s).agenda := by
  generalize whole : s.agenda = tasks at alone
  cases alone with
  | code above runs floor => exact step_code app whole runs floor
  | running =>
      simp only [Machine.step, whole, Robot.run_eq]
      exact .of_code runs_start .inRun
  | ended o =>
      cases o with
      | ok =>
          rw [step_act app whole]
          exact .noted
      | error f =>
          cases f <;> (simp only [Machine.step, whole]; exact .idle)
  | noted =>
      simp only [Machine.step, whole]
      exact .stopping
  | stopping =>
      rw [step_shutdown app whole]
      show Alone (.run _ :: [])
      cases s.world.lifecycle with
      | stopped => exact .of_code trivial .ground
      | created => exact .of_code runs_retired .ground
      | started => exact .halting
  | halting =>
      rw [step_act app whole]
      refine .code [.run _, .bound fun _ => Robot.closing] ?_ .ground
      exact Machine.permitted_cons.mpr ⟨trivial,
        Machine.permitted_cons.mpr ⟨fun _ => runs_closing, fun x none => by cases none⟩⟩

theorem tail_of_halt (alone : Alone s.agenda) (halts : s.duty = some .halt) :
    s.agenda.tail = [] := by
  obtain ⟨next, rest, front⟩ := front_of_duty halts
  rw [front] at alone
  generalize whole : Task.run (.act (.duty .halt) next) :: rest = tasks at alone
  rw [front, whole]
  cases alone with
  | @code above foot runs floor =>
      cases above with
      | nil => cases floor <;> cases whole
      | cons t more =>
          obtain rfl := (List.cons.inj whole).1
          exact absurd rfl (Machine.permitted_cons.mp runs).1.1
  | noted => cases (List.cons.inj whole).1
  | _ => rfl

end Alone

theorem Life.alone (life : Life app s past) : Alone s.agenda := by
  induction life with
  | created p sink own => exact .idle
  | order o life idle ih => exact .order o
  | step life ih => exact ih.step app
  | advance time life ih => exact ih
  | look life ih => exact ih
  | make id d life ih => exact ih
  | drift own life ih => exact ih

theorem Life.foot (life : Life app s past) {foot : List (Task (Effect ι) (World ι) σ)}
    (begun : Begun foot past) : foot = [] := by
  obtain ⟨x, member, halts, rfl⟩ := begun
  induction life with
  | created p sink own => cases member
  | order o life idle ih => exact ih member
  | step life ih =>
      rcases List.mem_cons.mp member with rfl | before
      · exact life.alone.tail_of_halt halts
      · exact ih before
  | advance time life ih => exact ih member
  | look life ih => exact ih member
  | make id d life ih => exact ih member
  | drift own life ih => exact ih member

theorem Life.wraps (life : Life app s past) (last : s.duty = some .wrapUp) : s.Wraps [] := by
  obtain ⟨foot, wraps, begun⟩ := life.history.wraps last
  exact life.foot begun ▸ wraps

/-! ### From the stop of all actions to the end of a shutdown -/

/-- The last step of a shutdown waits below what is under way. -/
def Wrapping (tasks : List (Task (Effect ι) (World ι) σ)) : Prop :=
  tasks.getLast? = some (.run (Robot.doing .wrapUp .skip))

theorem Wraps.wrapping (wraps : s.Wraps []) : Wrapping s.agenda := by
  rw [wraps]
  rfl

theorem Course.not_wrapping {l : Lifecycle} (course : Course l tasks) : ¬ Wrapping tasks := by
  have never : ∀ {x : Task (Effect ι) (World ι) σ}, x = .run (Robot.doing .wrapUp .skip) →
      x.Holds (Robot.Prompt l) → False := by
    rintro _ rfl prompt
    exact prompt.1
  intro wraps
  have member := List.mem_of_getLast? wraps
  cases course with
  | front fronts =>
      cases tasks with
      | nil => cases member
      | cons t rest =>
          rcases List.mem_cons.mp member with same | below
          · exact never same.symm fronts.1
          · exact never rfl ((Robot.passes_prompt l).waits (fronts.2 _ below))
  | silent later waits =>
      rcases List.mem_cons.mp member with same | below
      · cases same
      · rcases List.mem_cons.mp below with same | deeper
        · cases same
        · exact never rfl ((Robot.passes_prompt l).waits (waits _ deeper))

theorem Over.not_wrapping {opens : Prop} (ended : s.Over opens) : ¬ Wrapping s.agenda :=
  fun wraps => (ended.late _ (List.mem_of_getLast? wraps)).1

/-- The stop of all actions by a shutdown has been asked for, and the manager works on it. -/
def Sweeps (app : App ι σ) (s : Session ι σ) (past : List (Session ι σ)) : Prop :=
  ∃ newer x older, past = newer ++ x :: older ∧ x.agenda = [.run Robot.closing] ∧ x.Orderly ∧
    Machine.Works (Robot.host app) (Machine.step (Robot.host app) x) s newer ∧
      ∀ y ∈ newer, ¬ Wraps [] y

theorem Sweeps.drift (sweeps : Sweeps app s past) (w : World ι) (own : σ) :
    Sweeps app { s with world := w, own := own } past := by
  obtain ⟨newer, x, older, split, asks, orderly, works, under⟩ := sweeps
  exact ⟨newer, x, older, split, asks, orderly, works.drift w own, under⟩

theorem Sweeps.step (sweeps : Sweeps app s past) (goes : ¬ s.Wraps []) :
    Sweeps app (Machine.step (Robot.host app) s) (s :: past) := by
  obtain ⟨newer, x, older, split, asks, orderly, works, under⟩ := sweeps
  exact ⟨s :: newer, x, older, by rw [split]; rfl, asks, orderly, works.step,
    List.forall_mem_cons.mpr ⟨goes, under⟩⟩

theorem not_wrapping_going (life : Life app s past)
    (course : Course s.world.lifecycle s.agenda) :
    ¬ Wrapping (Machine.step (Robot.host app) s).agenda := by
  have proceeds := course.step app
  generalize Machine.step (Robot.host app) s = s' at proceeds
  cases proceeds with
  | on course' duties => exact course'.not_wrapping
  | @halts foot up front world agenda waits =>
      have bottom : foot = [] := by
        have tail := life.alone.tail_of_halt (duty_eq front)
        rwa [front] at tail
      rw [agenda, bottom]
      exact nofun

theorem sweeps_closing (life : Life app s past) (closing : Closing [] s.agenda)
    (known : Wrapping s.agenda → Sweeps app s past)
    (wraps : Wrapping (Machine.step (Robot.host app) s).agenda) :
    Sweeps app (Machine.step (Robot.host app) s) (s :: past) := by
  generalize whole : s.agenda = tasks at closing
  cases closing with
  | halted =>
      simp only [Machine.step, whole] at wraps
      cases wraps
  | asking => exact ⟨[], s, past, rfl, whole, life.orderly, .still, by simp⟩
  | @finishing above late enclosed =>
      have under : Wrapping s.agenda := by
        rw [whole, Wrapping, List.getLast?_append]
        rfl
      refine (known under).step fun ends => ?_
      rw [step_act app ends] at wraps
      cases wraps

theorem Life.sweeps (life : Life app s past) (wraps : Wrapping s.agenda) : Sweeps app s past := by
  induction life with
  | created p sink own => cases wraps
  | @order s past o life idle ih =>
      have course : Course s.world.lifecycle [.run o.body] :=
        .front ⟨Robot.prompt_order o, fun x none => by cases none⟩
      exact absurd wraps course.not_wrapping
  | @step s past life ih =>
      have stage := life.history.stage
      cases stage with
      | going course quiet powered => exact absurd wraps (not_wrapping_going life course)
      | closing closing halted waits begun quiet =>
          obtain rfl := life.foot begun
          exact sweeps_closing life closing ih wraps
      | finished last begun ended once => exact absurd wraps (ended.step app).not_wrapping
  | advance time life ih => exact (ih wraps).drift _ _
  | look life ih => exact (ih wraps).drift _ _
  | make id d life ih => exact (ih wraps).drift _ _
  | drift own life ih => exact (ih wraps).drift _ _

/-! ### Every run is finished -/

instance (h : Host (Effect ι) (World ι) σ) (s : Session ι σ) (b : ActionId) :
    Decidable (Machine.Rises h s b) :=
  inferInstanceAs (Decidable (_ ∧ _))

/-- Every run of an action was finished, is yet to be finished, or goes on. -/
theorem Life.runs (life : Life app s past) (b : ActionId) :
    past.countP (fun x => Machine.Enters x b (.finish true)) +
        past.countP (fun x => Machine.Enters x b (.finish false)) +
        (Machine.pending s.table s.agenda (b, some (.finish true)) +
          Machine.pending s.table s.agenda (b, some (.finish false))) +
        (if s.table.isRunning b then 1 else 0) =
      past.countP fun x => Machine.Rises (Robot.host app) x b := by
  induction life with
  | created p sink own => rfl
  | @order s past o life idle ih =>
      rw [← ih]
      unfold Machine.pending
      rw [idle]
      rfl
  | @step s past life ih =>
      have orderly := life.orderly
      have interrupted := orderly.finish_step (h := Robot.host app) b true
      have completed := orderly.finish_step (h := Robot.host app) b false
      have ends : (if (Machine.endOf (Robot.host app) s b).map Cause.interrupts = some true
          then 1 else 0) + (if (Machine.endOf (Robot.host app) s b).map Cause.interrupts =
            some false then 1 else 0) = if Machine.Leaves (Robot.host app) s b then 1 else 0 := by
        simp only [Machine.leaves_iff orderly.consistent]
        cases Machine.endOf (Robot.host app) s b with
        | none => rfl
        | some c => cases told : c.interrupts <;> simp [told]
      have changes : (if s.table.isRunning b then 1 else 0) +
          (if Machine.Rises (Robot.host app) s b then 1 else 0) =
            (if (Machine.step (Robot.host app) s).table.isRunning b then 1 else 0) +
              if Machine.Leaves (Robot.host app) s b then 1 else 0 := by
        cases before : s.table.isRunning b <;>
          cases after : (Machine.step (Robot.host app) s).table.isRunning b <;>
            simp [Machine.Rises, Machine.Leaves, before, after]
      simp only [List.countP_cons, decide_eq_true_eq]
      omega
  | advance time life ih => exact ih
  | look life ih => exact ih
  | make id d life ih => exact ih
  | drift own life ih => exact ih

/-- The end of all actions.  A stop of all actions that is asked for outside all callbacks calls
each action that ran once for it, the one started last first, whatever is asked for in callbacks;
and when it returns, an action runs or owns a device only if it was started meanwhile.  So it is
when a robot was shut down: what runs on was started in the course of the shutdown, and every other
run there was has been finished, once. -/
theorem stopAll_leaves {ε Ω σ : Type} {h₀ h : Host ε Ω σ} {m : Machine ε Ω σ}
    {past : List (Machine ε Ω σ)} (run : Machine.Run h₀ m past) {next : Bool → Routine ε Ω σ}
    {rest : List (Task ε Ω σ)} (front : m.agenda = .run (.ask .stopAll next) :: rest)
    (outside : frames rest = []) :
    (∀ (m' : Machine ε Ω σ) (newer : List (Machine ε Ω σ)), Machine.Works h (m.step h) m' newer →
      m'.agenda = .run (next true) :: rest →
        (∀ x ∈ newer, x.agenda ≠ .run (next true) :: rest) → m.AllStopped h newer m') ∧
    ∀ {ι σ : Type} {app : App ι σ} {s : Session ι σ} {past : List (Session ι σ)},
      Life app s past → s.duty = some .wrapUp → ∃ newer x older, past = newer ++ x :: older ∧
        x.agenda = [.run Robot.closing] ∧ Machine.AllStopped (Robot.host app) x newer s ∧
          ∀ b, past.countP (fun x => Machine.Enters x b (.finish true)) +
              past.countP (fun x => Machine.Enters x b (.finish false)) +
              (if s.table.isRunning b then 1 else 0) =
            past.countP fun x => Machine.Rises (Robot.host app) x b := by
  constructor
  · intro m' newer works returned under
    exact run.orderly.allStopped front outside works returned under
  · intro ι σ app s past life last
    have wraps := life.wraps last
    obtain ⟨newer, x, older, split, asks, orderly, works, under⟩ := life.sweeps wraps.wrapping
    refine ⟨newer, x, older, split, asks, orderly.allStopped asks rfl works wraps under,
      fun b => ?_⟩
    have runs := life.runs b
    have nothing := life.orderly.pending_eq_zero wraps rfl
    rwa [nothing, nothing] at runs

end Session

/-- The first action starts the second one when it finishes. -/
def Host.handing : Host Empty Unit Unit := .plain (fun _ => [⟨1⟩]) fun a cb =>
  match a, cb with
  | ⟨1⟩, .finish _ => .ask (.start ⟨2⟩ false) fun _ => .skip
  | _, _ => .skip

def App.handing : App Empty Unit :=
  { App.silent with
    needs := fun own _ => (own, .ok [⟨1⟩])
    callback := fun a cb =>
      match a, cb with
      | ⟨1⟩, .finish _ => .ask (.start ⟨2⟩ false) fun _ => .skip
      | _, _ => .skip }

/-- Each action has a device of its own. -/
def Host.relay : Host Empty Unit Unit :=
  { Host.handing with needs := fun own a => (own, .ok [⟨a.number⟩]) }

def App.relay : App Empty Unit :=
  { App.handing with needs := fun own a => (own, .ok [⟨a.number⟩]) }

namespace Session

/-- All actions are to be stopped while two of them run. -/
def relayed : Machine Empty Unit Unit :=
  (Host.relay.play [(.start ⟨3⟩ false, 12), (.start ⟨1⟩ false, 12)]).asked .stopAll

/-- A robot in which two actions run is about to complete its shutdown. -/
def closed : Session Empty Unit :=
  App.relay.play [(.shutdown, 23), (.code (.ask (.start ⟨3⟩ false) fun _ => .skip), 12),
    (.code (.ask (.start ⟨1⟩ false) fun _ => .skip), 12), (.start, 14)]

/-- The action that was started last is finished first; the other one starts a third action when it
finishes, which goes on. -/
theorem stopAll_leaves_relayed :
    (relayed.table.running = [⟨1⟩, ⟨3⟩] ∧ (relayed.steps Host.relay 20).agenda = [.run .skip] ∧
      (let newer := (relayed.step Host.relay).trail Host.relay 19 []
      relayed.AllStopped Host.relay newer (relayed.steps Host.relay 20) ∧
        newer.reverse.flatMap (Machine.outer Host.relay) =
          [(⟨3⟩, .finish true), (⟨1⟩, .finish true)] ∧
        Machine.Outlasts Host.relay ⟨2⟩ newer) ∧
      (relayed.steps Host.relay 20).table.running = [⟨2⟩]) ∧
    ∃ past, Life App.relay closed past ∧ closed.table.running = [⟨2⟩] ∧
      ∀ b ∈ [(⟨1⟩ : ActionId), ⟨3⟩],
        past.countP (fun x => Machine.Rises (Robot.host .relay) x b) = 1 ∧
          past.countP (fun x => Machine.Enters x b (.finish true)) +
            past.countP (fun x => Machine.Enters x b (.finish false)) = 1 := by
  have run : Machine.Run Host.relay relayed _ :=
    (((((Machine.Run.fresh () ()).ask (.start ⟨1⟩ false) rfl).steps 12).ask
      (.start ⟨3⟩ false) rfl).steps 12).ask .stopAll rfl
  have front : relayed.agenda = [.run (.ask .stopAll fun _ => .skip)] := rfl
  obtain ⟨manager, robot⟩ := stopAll_leaves (h := Host.relay) run front rfl
  constructor
  · have returned : (relayed.steps Host.relay 20).agenda = [.run .skip] := rfl
    have higher : ∀ x ∈ (relayed.step Host.relay).trail Host.relay 19 [],
      x.agenda.length ≠ 1 := by decide +kernel
    have stopped := manager _ _ (Machine.Works.still.steps 19) returned
      fun x member same => higher x member (congrArg List.length same)
    have second : (relayed.steps Host.relay 20).table.isRunning ⟨2⟩ = true := rfl
    exact ⟨rfl, returned, ⟨stopped, by decide +kernel, (stopped.runs ⟨2⟩).mp second⟩, rfl⟩
  · have made : Life App.relay _ [] := .created {} ⟨.nothing, []⟩ ()
    have started := (made.order .start rfl).steps 14
    have first := (started.order (.code (.ask (.start ⟨1⟩ false) fun _ => .skip)) rfl).steps 12
    have third := (first.order (.code (.ask (.start ⟨3⟩ false) fun _ => .skip)) rfl).steps 12
    have life : Life App.relay closed _ := (third.order .shutdown rfl).steps 23
    have ended : ∀ b ∈ [(⟨1⟩ : ActionId), ⟨3⟩], closed.table.isRunning b = false := by
      decide +kernel
    obtain ⟨newer, x, older, -, -, -, runs⟩ := robot life rfl
    refine ⟨_, life, rfl, fun b member => ?_⟩
    have finished := runs b
    rw [ended b member, if_neg Bool.false_ne_true, Nat.add_zero] at finished
    rw [finished, and_self_iff]
    clear finished
    revert b
    decide +kernel

end Session

/-- What an action starts when it is stopped with all others runs on when the stop returns, and in
a robot that was shut down. -/
theorem outlives_stopAll :
    (let m := (Host.handing.play [(.start ⟨1⟩ false, 12)]).asked .stopAll
    m.table.running = [⟨1⟩] ∧ (m.steps Host.handing 16).agenda = [.run .skip] ∧
      (m.steps Host.handing 16).table.running = [⟨2⟩] ∧
        (m.steps Host.handing 16).table.owner ⟨1⟩ = some ⟨2⟩) ∧
    let s := App.handing.play [(.shutdown, 22),
      (.code (.ask (.start ⟨1⟩ false) fun _ => .skip), 12), (.start, 14)]
    s.agenda = [] ∧ s.world.lifecycle = .stopped ∧ s.table.running = [⟨2⟩] ∧
      s.table.owner ⟨1⟩ = some ⟨2⟩ :=
  ⟨⟨rfl, rfl, rfl, rfl⟩, rfl, rfl, rfl, rfl⟩

end RobotControl
