import RobotControl.Proofs.Robot.Halted

/-!
# Calls from inside

Hooks, jobs and callbacks may call the robot in their turn, so that one call is made while another
one waits for the code that makes it (`Session.History`).  A start and a shutdown look where the
robot is in its life and go on at once: no application code runs in between (`Robot.Prompt`).  And
what waits for application code is late, so that it may go on even if the robot is halted meanwhile
(`Robot.Patient`); only a start that waits for its first hook has another hook to call.
-/
set_option autoImplicit false

namespace RobotControl

variable {ι σ : Type} {app : App ι σ}

/-- There is something left to do. -/
def Routine.Unfinished {ε Ω σ : Type} : Routine ε Ω σ → Prop
  | .done _ | .panic _ => False
  | _ => True

namespace Session

/-- The robot can be called: nothing is under way, or the code of a hook, a job or a callback is
running. -/
def Listens (s : Session ι σ) : Prop :=
  s.agenda = [] ∨ ∃ r rest, s.agenda = .run (Robot.lift r) :: rest ∧ r.Unfinished

/-- The states in the life of a robot that is called from outside and from inside, with those that
have made a step, the latest first. -/
inductive History (app : App ι σ) : Session ι σ → List (Session ι σ) → Prop
  | created (p : Profile) (sink : Sink) (own : σ) : History app (ofWorld (.ofProfile p sink) own) []
  | call {s : Session ι σ} {past : List (Session ι σ)} (o : Order ι σ)
      (history : History app s past) (listens : s.Listens) :
      History app { s with agenda := .run o.body :: s.agenda } past
  | step {s : Session ι σ} {past : List (Session ι σ)} (history : History app s past) :
      History app (Machine.step (Robot.host app) s) (s :: past)
  | advance {s : Session ι σ} {past : List (Session ι σ)} (time : Nat)
      (history : History app s past) : History app { s with world := s.world.advance time } past
  | look {s : Session ι σ} {past : List (Session ι σ)} (history : History app s past) :
      History app { s with world := s.world.look } past
  | make {s : Session ι σ} {past : List (Session ι σ)} (id : DeviceId) (d : Device)
      (history : History app s past) :
      History app { s with world := { s.world with fleet := (s.world.fleet.add id d).1 } } past
  | drift {s : Session ι σ} {past : List (Session ι σ)} (own : σ) (history : History app s past) :
      History app { s with own := own } past

theorem Life.history {s : Session ι σ} {past : List (Session ι σ)} (life : Life app s past) :
    History app s past := by
  induction life with
  | created p sink own => exact .created p sink own
  | order o life idle ih =>
      have called := ih.call o (.inl idle)
      rwa [idle] at called
  | step life ih => exact ih.step
  | advance time life ih => exact ih.advance time
  | look life ih => exact ih.look
  | make id d life ih => exact ih.make id d
  | drift own life ih => exact ih.drift own

theorem History.steps {s : Session ι σ} {past : List (Session ι σ)} (history : History app s past)
    (n : Nat) : History app (Machine.steps (Robot.host app) n s)
      (Machine.trail (Robot.host app) n s past) := by
  induction n generalizing s past with
  | zero => exact history
  | succ n ih => exact ih history.step

end Session

/-! ### Code that goes on at once -/

/-- No application code runs for the duty. -/
def Duty.isSilent : Duty → Bool
  | .call _ | .settle => false
  | _ => true

/-- The effect is in its place: a start and a shutdown begin where they may, and what waits for
application code is late, or the rest of a start. -/
def Effect.Fits (l : Lifecycle) (next : Except Fault Unit → Robot.Code ι σ) : Effect ι → Prop
  | .act _ => ∀ o, Robot.Late False (next o)
  | .duty .powerUp | .duty .retireUnstarted => l = .created
  | .duty .halt => l = .started ∧ next = fun _ => Robot.closing
  | .duty .wrapUp => False
  | .duty (.call _) | .duty .settle =>
      (∀ o, Robot.Late False (next o)) ∨ next = fun _ => Robot.opening
  | .duty _ => True

namespace Robot

/-- Code that relies on where the robot is in its life only until application code runs. -/
def Prompt : Lifecycle → Code ι σ → Prop
  | _, .done _ => True
  | _, .panic _ => True
  | _, .ask _ next => ∀ b, Late False (next b) ∧ ∀ l, Prompt l (next b)
  | l, .act e next => e.Fits l next ∧ (e ≠ .duty .halt → ∀ o l', Prompt l' (next o))
  | l, .look next => ∀ t w own, w.lifecycle = l → Prompt l (next t w own)
  | l, .note _ next => Prompt l next
  | l, .attempt body next => Prompt l body ∧ ∀ o, Late False (next o) ∧ ∀ l', Prompt l' (next o)

/-- A task that may wait for anything to happen. -/
def Patient (x : Task (Effect ι) (World ι) σ) : Prop :=
  (x.Holds (Late False) ∨ x = .bound fun _ => opening) ∧ x.Holds fun c => ∀ l, Prompt l c

variable {l : Lifecycle}

theorem passes_prompt (l : Lifecycle) :
    Task.Passes (fun w : World ι => w.lifecycle = l)
      (Task.Holds (Prompt l) : Task (Effect ι) (World ι) σ → Prop) Patient where
  waits {t} patient := by
    cases t with
    | run c => exact patient.2 l
    | bound next => exact fun o => patient.2 o l
    | caught next => exact fun o => patient.2 o l
    | _ => trivial
  free {t} free := by
    cases t <;> first | exact ⟨.inl trivial, trivial⟩ | cases free
  ask prompt b := ⟨.inl (prompt b).1, (prompt b).2⟩
  look := id
  note := id
  attempt prompt := ⟨prompt.1, .inl fun o => (prompt.2 o).1, fun o => (prompt.2 o).2⟩
  bound := id
  caught := id

theorem prompt_skip : Prompt l (.skip : Code ι σ) := trivial

theorem prompt_doing {d : Duty} {next : Code ι σ}
    (fits : (Effect.duty d : Effect ι).Fits l fun _ => next) (later : ∀ l', Prompt l' next) :
    Prompt l (doing d next) := ⟨fits, fun _ _ => later⟩

theorem prompt_lift (r : Routine (Act ι) (World ι) σ) (l : Lifecycle) : Prompt l (lift r) := by
  induction r generalizing l with
  | done o => trivial
  | panic p => trivial
  | ask q next ih => exact fun b => ⟨late_lift (next b), ih b⟩
  | act a next ih => exact ⟨fun o => late_lift (next o), fun _ o => ih o⟩
  | look next ih => exact fun t w own _ => ih t w own l
  | note change next ih => exact ih l
  | attempt body next ihBody ih => exact ⟨ihBody l, fun o => ⟨late_lift (next o), ih o⟩⟩

theorem lift_ne_duty {r : Routine (Act ι) (World ι) σ} {d : Duty}
    {next : Except Fault Unit → Code ι σ} : lift r ≠ .act (.duty d) next := by
  cases r <;> exact nofun

theorem patient_lift (r : Routine (Act ι) (World ι) σ) : Patient (.run (lift r)) :=
  ⟨.inl (late_lift r), prompt_lift r⟩

theorem prompt_hookEnd (h : Hook) (o : Except Failure Unit) (l : Lifecycle) :
    Prompt l (hookEnd h o : Code ι σ) := by
  cases o with
  | ok _ => exact prompt_skip
  | error f => exact prompt_doing trivial fun _ => prompt_skip

theorem prompt_setEnabled (enabled : Bool) : Prompt l (setEnabled enabled : Code ι σ) := by
  intro t w own _
  dsimp only
  split
  · trivial
  · split
    · trivial
    · exact prompt_doing trivial fun _ =>
        prompt_doing (.inl fun _ => late_skip) fun _ => prompt_skip

theorem prompt_greeting : Prompt l (greeting : Code ι σ) := by
  have loops : ∀ l, Prompt l (doing .scheduleLoops .skip : Code ι σ) := fun _ =>
    prompt_doing trivial fun _ => prompt_skip
  have opens : ∀ l, Prompt l (opening : Code ι σ) := fun _ =>
    prompt_doing (.inl fun _ => late_doing trivial late_skip) loops
  exact prompt_doing (.inr rfl) opens

theorem prompt_start : Prompt l (start : Code ι σ) := by
  intro t w own here
  dsimp only
  split
  · trivial
  · next fresh =>
      exact prompt_doing (here.symm.trans (not_not.mp fresh)) fun _ => prompt_greeting

theorem prompt_shutdown : Prompt l (shutdown : Code ι σ) := by
  intro t w own here
  dsimp only
  split
  · exact prompt_skip
  · next fresh => exact prompt_doing (here.symm.trans fresh) fun _ => prompt_skip
  · next up => exact ⟨⟨here.symm.trans up, rfl⟩, fun other => absurd rfl other⟩

theorem prompt_runEnd (o : Except Failure Unit) (l : Lifecycle) :
    Prompt l (runEnd o : Code ι σ) := by
  match o with
  | .ok () => exact prompt_doing trivial fun _ => prompt_shutdown
  | .error (.fault f) => trivial
  | .error (.panic p) => trivial

theorem prompt_settle : Prompt l (doing .settle .skip : Code ι σ) :=
  prompt_doing (.inl fun _ => late_skip) fun _ => prompt_skip

theorem prompt_order (o : Order ι σ) : Prompt l (o.body : Code ι σ) := by
  cases o with
  | start => exact prompt_start
  | shutdown => exact prompt_shutdown
  | run => exact ⟨prompt_start, fun o => ⟨late_runEnd o, prompt_runEnd o⟩⟩
  | setEnabled enabled => exact prompt_setEnabled enabled
  | settle => exact prompt_settle
  | code r => exact prompt_lift r l

theorem prompt_jobCode (app : App ι σ) (work : Work ι) : Prompt l (jobCode app work) := by
  cases work with
  | modeDispatch =>
      exact fun t w own _ => prompt_doing (.inl fun _ => late_doing trivial late_skip) fun _ =>
        prompt_doing trivial fun _ => prompt_skip
  | periodic => exact prompt_doing (.inl fun _ => late_skip) fun _ => prompt_skip
  | actionTick => exact fun _ => ⟨late_skip, fun _ => prompt_skip⟩
  | triggerTick => exact fun _ => ⟨late_skip, fun _ => prompt_skip⟩
  | user j => exact prompt_lift _ l

theorem prompt_perform (app : App ι σ) (w : World ι) (e : Effect ι) :
    Prompt l (perform app w e).2 := by
  cases e with
  | act a =>
      cases a with
      | setEnabled enabled => exact prompt_setEnabled enabled
      | _ => trivial
  | duty d =>
      cases d with
      | call h => exact ⟨prompt_lift _ l, fun o => ⟨late_hookEnd h o, prompt_hookEnd h o⟩⟩
      | settle =>
          show Prompt l (Robot.settle app w).2
          unfold Robot.settle
          dsimp only
          split
          · exact prompt_skip
          · split
            · split
              · exact ⟨prompt_jobCode app _, fun o => ⟨late_doing trivial (late_doing trivial
                  late_skip), fun _ => prompt_doing trivial fun _ => prompt_settle⟩⟩
              · exact prompt_settle
            · exact prompt_settle
      | _ => exact prompt_skip

theorem attend_silent (w : World ι) (d : Duty) (silent : d.isSilent = true) :
    (attend app w d).2 = .skip := by
  cases d <;> first | rfl | cases silent

theorem patient_bound {e : Effect ι} {next : Except Fault Unit → Code ι σ}
    (prompt : Prompt l (.act e next)) (loud : ∀ d, e = .duty d → d.isSilent = false) :
    Patient (.bound next) := by
  obtain ⟨fits, later⟩ := prompt
  have other : e ≠ .duty .halt := fun same => by cases loud .halt same
  refine ⟨?_, later other⟩
  cases e with
  | act a => exact .inl fits
  | duty d =>
      cases d with
      | call h => exact fits.imp_right fun same => by rw [same]
      | settle => exact fits.imp_right fun same => by rw [same]
      | _ => cases loud _ rfl

end Robot

namespace Session

variable {s : Session ι σ} {tasks : List (Task (Effect ι) (World ι) σ)} {l : Lifecycle}

/-! ### The course of a life until it is halted -/

/-- The agendas of a robot until it is halted: patient tasks below prompt code, or below what has
just been done for code that goes on at once. -/
inductive Course (l : Lifecycle) : List (Task (Effect ι) (World ι) σ) → Prop
  | front {tasks : List (Task (Effect ι) (World ι) σ)}
      (fronts : Fronts (Task.Holds (Robot.Prompt l)) Robot.Patient tasks) : Course l tasks
  | silent {next : Except Fault Unit → Robot.Code ι σ}
      {rest : List (Task (Effect ι) (World ι) σ)} (later : ∀ o l', Robot.Prompt l' (next o))
      (waits : ∀ x ∈ rest, Robot.Patient x) : Course l (.run .skip :: .bound next :: rest)

/-- Whatever is asked for from inside, what has been under way is patient. -/
theorem Course.call (course : Course l s.agenda) (listens : s.Listens) (o : Order ι σ) :
    Course l (.run o.body :: s.agenda) := by
  refine .front ⟨Robot.prompt_order o, ?_⟩
  rcases listens with idle | ⟨r, rest, front, unfinished⟩
  · rw [idle]
    simp
  · rw [front] at course ⊢
    generalize whole : Task.run (Robot.lift r) :: rest = tasks at course
    cases course with
    | front fronts =>
        subst whole
        exact List.forall_mem_cons.mpr ⟨Robot.patient_lift r, fronts.2⟩
    | silent later waits =>
        have ended := Task.run.inj (List.cons.inj whole).1
        cases r <;> first | exact unfinished.elim | cases ended

/-- The course goes on, or the robot is halted. -/
inductive Proceeds (s s' : Session ι σ) : Prop
  | on (course : Course s'.world.lifecycle s'.agenda)
      (duties : ∀ d, s.duty = some d → d ≠ .halt ∧
        ∃ next : Except Fault Unit → Robot.Code ι σ, (Effect.duty d).Fits s.world.lifecycle next)
  | halts {foot : List (Task (Effect ι) (World ι) σ)} (up : s.world.lifecycle = .started)
      (front : s.agenda = .run (Robot.doing .halt Robot.closing) :: foot)
      (world : s'.world = s.world.halt)
      (agenda : s'.agenda = .run .skip :: .bound (fun _ => Robot.closing) :: foot)
      (waits : ∀ x ∈ foot, Robot.Patient x)

theorem Proceeds.of_none {s' : Session ι σ} (none : s.duty = none)
    (course : Course s'.world.lifecycle s'.agenda) : Proceeds s s' :=
  .on course fun d carried => by cases none.symm.trans carried

/-- A duty for which no application code runs is followed at once by what comes next. -/
theorem Proceeds.of_silent (app : App ι σ) {d : Duty} {next : Except Fault Unit → Robot.Code ι σ}
    {rest : List (Task (Effect ι) (World ι) σ)}
    (whole : s.agenda = .run (.act (.duty d) next) :: rest)
    (prompt : Robot.Prompt s.world.lifecycle (.act (.duty d) next))
    (waits : ∀ x ∈ rest, Robot.Patient x) (silent : d.isSilent = true) :
    Proceeds s (Machine.step (Robot.host app) s) := by
  obtain ⟨fits, later⟩ := prompt
  have stepped := step_act app whole
  have answer : (Robot.perform app s.world (.duty d)).2 = .skip :=
    Robot.attend_silent s.world d silent
  by_cases halts : d = .halt
  · subst halts
    obtain ⟨up, rfl⟩ := fits
    exact .halts up whole (congrArg Machine.world stepped) (congrArg Machine.agenda stepped) waits
  · have other : (Effect.duty d : Effect ι) ≠ .duty .halt := fun same =>
      halts (Effect.duty.inj same)
    refine .on ?_ fun d' carried => ?_
    · rw [stepped, answer]
      exact .silent (later other) waits
    · obtain rfl := Option.some.inj (carried.symm.trans (duty_eq whole))
      exact ⟨halts, next, fits⟩

/-- Anything else leaves prompt code in front and patient tasks below it. -/
theorem Proceeds.of_loud (app : App ι σ) {t : Task (Effect ι) (World ι) σ}
    {rest : List (Task (Effect ι) (World ι) σ)} (whole : s.agenda = t :: rest)
    (prompt : t.Holds (Robot.Prompt s.world.lifecycle)) (waits : ∀ x ∈ rest, Robot.Patient x)
    (loud : ∀ d next, t = .run (.act (.duty d) next) → d.isSilent = false) :
    Proceeds s (Machine.step (Robot.host app) s) := by
  have carried : ∀ {d}, s.duty = some d → ∃ next, t = .run (.act (.duty d) next) := by
    intro d carried
    obtain ⟨next, _, acts⟩ := front_of_duty carried
    exact ⟨next, (List.cons.inj (whole.symm.trans acts)).1⟩
  have lifecycle : (Machine.step (Robot.host app) s).world.lifecycle = s.world.lifecycle := by
    rw [lifecycle_step]
    cases now : s.duty with
    | none => rfl
    | some d =>
        obtain ⟨next, same⟩ := carried now
        have loud := loud d next same
        cases d <;> first | rfl | cases loud
  have leads := Machine.step_leads (h := Robot.host app) (Robot.passes_prompt s.world.lifecycle)
    (fun _ _ => Robot.prompt_lift _ _) rfl whole prompt fun e next same => by
      subst same
      exact ⟨Robot.prompt_perform app s.world e,
        Robot.patient_bound prompt fun d same => loud d next (by rw [same])⟩
  refine .on ?_ fun d now => ?_
  · rw [lifecycle]
    exact .front (leads.fronts (Robot.passes_prompt s.world.lifecycle).waits waits)
  · obtain ⟨next, rfl⟩ := carried now
    refine ⟨?_, next, prompt.1⟩
    rintro rfl
    cases loud _ next rfl

theorem Course.step (app : App ι σ) (course : Course s.world.lifecycle s.agenda) :
    Proceeds s (Machine.step (Robot.host app) s) := by
  generalize whole : s.agenda = tasks at course
  cases course with
  | @silent next rest later waits =>
      refine .of_none (by rw [duty, whole]; rfl) ?_
      simp only [Machine.step, whole]
      exact .front ⟨later (.ok ()) _, waits⟩
  | front fronts =>
      cases tasks with
      | nil =>
          refine .of_none (by rw [duty, whole]) ?_
          rw [Machine.step_of_idle whole, whole]
          exact .front trivial
      | cons t rest =>
          obtain ⟨prompt, waits⟩ := fronts
          by_cases silent : ∃ d next, t = .run (.act (.duty d) next) ∧ d.isSilent = true
          · obtain ⟨d, next, rfl, silent⟩ := silent
            exact .of_silent app whole prompt waits silent
          · refine .of_loud app whole prompt waits fun d next same => ?_
            rw [← Bool.not_eq_true]
            exact fun still => silent ⟨d, next, same, still⟩

end Session

end RobotControl
