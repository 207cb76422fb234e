import RobotControl.Proofs.Robot.Nesting

/-!
# How a start ends

A start, a shutdown and a change of the mode look where the robot is in its life, and are refused if
it is in the wrong place.  A start that is not refused succeeds, whatever its hooks do and whatever
they call (`Session.History.start_succeeds`).
-/
set_option autoImplicit false

namespace RobotControl

variable {ι σ : Type} {app : App ι σ}

/-! ### How calls are answered -/

namespace Session

variable {s : Session ι σ} {rest : List (Task (Effect ι) (World ι) σ)}

theorem step_look (app : App ι σ) {next : ActionTable → World ι → σ → Robot.Code ι σ}
    (front : s.agenda = .run (.look next) :: rest) :
    Machine.step (Robot.host app) s = s.todo (.run (next s.table s.world s.own) :: rest) := by
  rw [Machine.step, front]
  rfl

theorem step_start (app : App ι σ) (front : s.agenda = .run Robot.start :: rest) :
    Machine.step (Robot.host app) s =
      s.todo (.run (if s.world.lifecycle = .created then Robot.doing .powerUp Robot.greeting
        else .fail .alreadyStarted) :: rest) := by
  refine (step_look app front).trans ?_
  by_cases fresh : s.world.lifecycle = .created
  · simp only [fresh, ne_eq, not_true_eq_false, if_false, if_true]
    rfl
  · simp only [fresh, ne_eq, not_false_eq_true, if_true, if_false]

theorem step_setEnabled (app : App ι σ) {enabled : Bool}
    (front : s.agenda = .run (Robot.setEnabled enabled) :: rest)
    (down : s.world.lifecycle ≠ .started) :
    Machine.step (Robot.host app) s = s.todo (.run (.fail .notStarted) :: rest) := by
  refine (step_look app front).trans ?_
  rw [if_pos down]

theorem step_shutdown (app : App ι σ) (front : s.agenda = .run Robot.shutdown :: rest) :
    Machine.step (Robot.host app) s =
      s.todo (.run (match s.world.lifecycle with
        | .stopped => .skip
        | .created => Robot.doing .retireUnstarted .skip
        | .started => Robot.doing .halt Robot.closing) :: rest) := step_look app front

end Session

/-! ### A start succeeds -/

namespace Robot

/-- Code that cannot fail, since hooks run only in attempts. -/
inductive Sure (app : App ι σ) : Code ι σ → Prop
  | done : Sure app .skip
  | duty {d : Duty} {next : Except Fault Unit → Code ι σ}
      (answer : ∀ w, Sure app (attend app w d).2) (later : ∀ o, Sure app (next o)) :
      Sure app (.act (.duty d) next)
  | call (h : Hook) : Sure app (.attempt (lift (app.hook h)) (hookEnd h))

/-- What goes on after each end is sure code. -/
def Surely (app : App ι σ) (tasks : List (Task (Effect ι) (World ι) σ)) : Prop :=
  ∀ x ∈ tasks, ∃ next, x = .bound next ∧ ∀ o, Sure app (next o)

theorem sure_hookEnd (h : Hook) (o : Except Failure Unit) : Sure app (hookEnd h o) := by
  cases o with
  | ok _ => exact .done
  | error f => exact .duty (fun _ => .done) fun _ => .done

theorem sure_call (h : Hook) {next : Code ι σ} (later : Sure app next) :
    Sure app (doing (.call h) next) := .duty (fun _ => .call h) fun _ => later

theorem sure_powerUp : Sure app (doing .powerUp greeting) := by
  have loops : Sure app (doing .scheduleLoops .skip) := .duty (fun _ => .done) fun _ => .done
  exact .duty (fun _ => .done) fun _ => sure_call _ (sure_call _ loops)

/-- The application has no code of which a hook's attempt is made. -/
theorem Sure.unlifted {r : Routine (Act ι) (World ι) σ} (sure : Sure app (lift r)) :
    ¬ r.Unfinished := by
  intro unfinished
  generalize same : lift r = c at sure
  cases sure with
  | done => cases r <;> first | exact unfinished | cases same
  | duty answer later => cases r <;> cases same
  | call h =>
      cases r with
      | attempt body next =>
          have ends := congrFun (Routine.attempt.inj same).2 (.error (.panic .unreadable))
          exact lift_ne_duty ends
      | _ => cases same

end Robot

namespace Session

variable {s : Session ι σ} {past : List (Session ι σ)}
  {foot tasks : List (Task (Effect ι) (World ι) σ)}

/-- Sure code is under way above other tasks: it runs itself, or anything above one of its
attempts. -/
inductive Smooth (app : App ι σ) (foot : List (Task (Effect ι) (World ι) σ)) :
    List (Task (Effect ι) (World ι) σ) → Prop
  | going {c : Robot.Code ι σ} (bounds : List (Task (Effect ι) (World ι) σ))
      (sure : Robot.Sure app c) (later : Robot.Surely app bounds) :
      Smooth app foot (.run c :: (bounds ++ foot))
  | inside (above bounds : List (Task (Effect ι) (World ι) σ))
      {next : Except Failure Unit → Robot.Code ι σ} (sure : ∀ o, Robot.Sure app (next o))
      (later : Robot.Surely app bounds) :
      Smooth app foot (above ++ .caught next :: (bounds ++ foot))

theorem Smooth.above (smooth : Smooth app foot tasks) :
    ∃ above, above ≠ [] ∧ tasks = above ++ foot := by
  cases smooth with
  | @going c bounds sure later => exact ⟨.run c :: bounds, by simp, rfl⟩
  | @inside above bounds next sure later =>
      exact ⟨above ++ .caught next :: bounds, by simp, by simp⟩

theorem Smooth.returns {o : Except Fault Unit} (smooth : Smooth app foot (.run (.done o) :: foot)) :
    o = .ok () := by
  generalize whole : Task.run (.done o) :: foot = tasks at smooth
  cases smooth with
  | going bounds sure later =>
      cases Task.run.inj (List.cons.inj whole).1 ▸ sure
      rfl
  | inside above bounds sure later =>
      -- more than one task stands above the foot, or it is the attempt itself
      cases above with
      | nil => cases (List.cons.inj whole).1
      | cons t above =>
          have length := congrArg List.length whole
          simp only [List.length_cons, List.length_append, List.cons_append] at length
          omega

theorem Smooth.step (smooth : Smooth app foot s.agenda)
    (goes : ∀ o, s.agenda ≠ .run (.done o) :: foot) :
    Smooth app foot (Machine.step (Robot.host app) s).agenda := by
  generalize whole : s.agenda = tasks at smooth
  cases smooth with
  | @going c bounds sure later =>
      cases sure with
      | done =>
          cases bounds with
          | nil => exact absurd whole (goes (.ok ()))
          | cons x more =>
              obtain ⟨⟨next, rfl, sure⟩, deeper⟩ := List.forall_mem_cons.mp later
              simp only [Machine.step, whole]
              exact .going more (sure (.ok ())) deeper
      | @duty d next answer continues =>
          rw [step_act app whole]
          exact .going (.bound next :: bounds) (answer s.world)
            (List.forall_mem_cons.mpr ⟨⟨next, rfl, continues⟩, later⟩)
      | call h =>
          simp only [Machine.step, whole]
          exact .inside [.run (Robot.lift (app.hook h))] bounds (Robot.sure_hookEnd h) later
  | @inside above bounds next sure later =>
      by_cases ended : above = []
      · subst ended
        simp only [Machine.step, whole, List.nil_append]
        exact .going bounds (sure (.ok ())) later
      · have lands : Lands (fun _ => True) (fun _ => True) (.caught next :: (bounds ++ foot))
            (Machine.step (Robot.host app) s).agenda :=
          Machine.lands_step (fun _ _ => Routine.uses_all _) (.attempt next (bounds ++ foot))
            whole ended (Machine.permitted_all above) fun _ _ _ _ => Routine.uses_all _
        generalize Machine.agenda (Machine.step (Robot.host app) s) = agenda at lands
        cases lands with
        | above tasks code => exact .inside tasks bounds sure later
        | on caught o =>
            cases caught
            exact .going bounds (sure o) later

theorem Smooth.call (smooth : Smooth app foot s.agenda) (listens : s.Listens) (o : Order ι σ) :
    Smooth app foot (.run o.body :: s.agenda) := by
  generalize whole : s.agenda = tasks at smooth
  rcases listens with idle | ⟨r, rest, front, unfinished⟩
  · obtain ⟨above, some, agenda⟩ := smooth.above
    rw [← whole, idle] at agenda
    exact absurd (List.append_eq_nil_iff.mp agenda.symm).1 some
  · cases smooth with
    | going bounds sure later =>
        obtain rfl := Task.run.inj (List.cons.inj (whole.symm.trans front)).1
        exact absurd unfinished sure.unlifted
    | inside above bounds sure later =>
        exact .inside (.run o.body :: above) bounds sure later

/-- A start that was not refused goes on. -/
structure Underway (app : App ι σ) (foot : List (Task (Effect ι) (World ι) σ))
    (newer : List (Session ι σ)) (s : Session ι σ) : Prop where
  smooth : Smooth app foot s.agenda
  up : s.world.lifecycle = .started ∨
    s.agenda = .run (Robot.doing .powerUp Robot.greeting) :: foot ∨ ∃ y ∈ newer, y.Stops

variable {newer older : List (Session ι σ)} {x : Session ι σ}

theorem Underway.of_same {s' : Session ι σ} (underway : Underway app foot newer s)
    (agenda : s'.agenda = s.agenda) (lifecycle : s'.world.lifecycle = s.world.lifecycle) :
    Underway app foot newer s' where
  smooth := agenda ▸ underway.smooth
  up := underway.up.imp lifecycle.trans fun rest => rest.imp_left agenda.trans

theorem Underway.step (underway : Underway app foot newer s)
    (goes : ∀ o, s.agenda ≠ .run (.done o) :: foot) :
    Underway app foot (s :: newer) (Machine.step (Robot.host app) s) := by
  refine ⟨underway.smooth.step goes, ?_⟩
  by_cases stops : s.Stops
  · exact .inr (.inr ⟨s, List.mem_cons_self .., stops⟩)
  rw [lifecycle_step]
  rcases underway.up with up | front | ⟨y, member, stopped⟩
  · left
    cases carried : s.duty with
    | none => exact up
    | some d =>
        by_cases powers : d = .powerUp
        · rw [powers]
          rfl
        · exact (Duty.after_of_goes _ (duty_goes stops carried) powers).trans up
  · left
    rw [duty_eq front]
    rfl
  · exact .inr (.inr ⟨y, List.mem_cons_of_mem _ member, stopped⟩)

theorem Underway.call (underway : Underway app foot newer s) (listens : s.Listens)
    (o : Order ι σ) : Underway app foot newer { s with agenda := .run o.body :: s.agenda } := by
  refine ⟨underway.smooth.call listens o, ?_⟩
  rcases underway.up with up | front | stopped
  · exact .inl up
  · -- a robot that is about to be powered up does not listen
    rcases listens with idle | ⟨r, rest, lifted, -⟩
    · cases idle.symm.trans front
    · exact absurd (Task.run.inj (List.cons.inj (lifted.symm.trans front)).1) Robot.lift_ne_duty
  · exact .inr (.inr stopped)

/-- A start that finds the robot created is under way until it returns. -/
theorem History.underway (history : History app s past) (split : past = newer ++ x :: older)
    (called : x.agenda = .run Robot.start :: foot) (fresh : x.world.lifecycle = .created)
    (quiet : ∀ y ∈ newer, ∀ o, y.agenda ≠ .run (.done o) :: foot) : Underway app foot newer s := by
  induction history generalizing newer with
  | created p sink own => simp at split
  | call o history listens ih => exact (ih split quiet).call listens o
  | @step s past history ih =>
      cases newer with
      | nil =>
          obtain ⟨rfl, rfl⟩ := List.cons.inj split
          rw [step_start app called, if_pos fresh]
          exact ⟨.going [] Robot.sure_powerUp (by simp [Robot.Surely]), .inr (.inl rfl)⟩
      | cons y newer =>
          obtain ⟨rfl, rfl⟩ := List.cons.inj split
          obtain ⟨now, before⟩ := List.forall_mem_cons.mp quiet
          exact (ih rfl before).step now
  | advance time history ih => exact (ih split quiet).of_same rfl rfl
  | @look s past history ih =>
      exact (ih split quiet).of_same rfl s.world.sameRule_look.1.lifecycle
  | make id d history ih => exact (ih split quiet).of_same rfl rfl
  | drift own history ih => exact (ih split quiet).of_same rfl rfl

/-- Such a start is not lost, and it returns its success; the robot is started by then, unless it
has been shut down meanwhile. -/
theorem History.start_succeeds (history : History app s past) (split : past = newer ++ x :: older)
    (called : x.agenda = .run Robot.start :: foot) (fresh : x.world.lifecycle = .created)
    (quiet : ∀ y ∈ newer, ∀ o, y.agenda ≠ .run (.done o) :: foot) :
    (∃ above, above ≠ [] ∧ s.agenda = above ++ foot) ∧
      ∀ o, s.agenda = .run (.done o) :: foot → o = .ok () ∧
        (s.world.lifecycle = .started ∨ ∃ y ∈ newer, y.Stops) := by
  have underway := history.underway split called fresh quiet
  refine ⟨underway.smooth.above, fun o returns => ?_⟩
  obtain ⟨smooth, up⟩ := underway
  rw [returns] at smooth up
  refine ⟨smooth.returns, up.imp_right fun rest => rest.resolve_left fun front => ?_⟩
  cases (List.cons.inj front).1

end Session

end RobotControl
