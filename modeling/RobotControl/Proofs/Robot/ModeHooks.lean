import Mathlib.Data.List.Chain
import RobotControl.Proofs.Robot.Switch

/-!
# Mode hooks and the mode

A start makes one call of `robotDisabled` by itself, after `robotStarted` and whatever the mode is
by then.  All other calls of mode hooks follow the switches of the mode (`Session.mode_hooks`), so
hooks and mode agree unless `robotStarted` switches the mode.
-/
set_option autoImplicit false

namespace RobotControl

variable {ι σ : Type} {app : App ι σ}

namespace Session

variable {s : Session ι σ} {due : Option Mode}

/-! ### How far a start has got -/

/-- The agendas in the life of a robot until it is shut down: whether a start has called
`robotDisabled` yet, and the hook that is due. -/
inductive Scene (app : App ι σ) (w : World ι) :
    Bool → Option Mode → List (Task (Effect ι) (World ι) σ) → Prop
  | going {opened : Bool} {due : Option Mode} {tasks : List (Task (Effect ι) (World ι) σ)}
      (pace : Pace w due tasks) (up : opened = true ↔ w.lifecycle = .started) :
      Scene app w opened due tasks
  | asked {opened : Bool} {foot : List (Task (Effect ι) (World ι) σ)} (code : Robot.Calm foot)
      (up : opened = true ↔ w.lifecycle = .started) :
      Scene app w opened none (.run Robot.start :: foot)
  | running {opened : Bool} (up : opened = true ↔ w.lifecycle = .started) :
      Scene app w opened none [.run Robot.run]
  | powering {foot : List (Task (Effect ι) (World ι) σ)} (code : Robot.Calm foot)
      (fresh : w.lifecycle = .created) :
      Scene app w false none (.run (Robot.doing .powerUp Robot.greeting) :: foot)
  | powered {foot : List (Task (Effect ι) (World ι) σ)} (code : Robot.Calm foot)
      (up : w.lifecycle = .started) :
      Scene app w false none (.run .skip :: .bound (fun _ => Robot.greeting) :: foot)
  | greeting {foot : List (Task (Effect ι) (World ι) σ)} (code : Robot.Calm foot)
      (up : w.lifecycle = .started) : Scene app w false none (.run Robot.greeting :: foot)
  | entering {foot : List (Task (Effect ι) (World ι) σ)} (code : Robot.Calm foot)
      (up : w.lifecycle = .started) :
      Scene app w false none
        (.run (.attempt (Robot.lift (app.hook .robotStarted)) (Robot.hookEnd .robotStarted)) ::
          .bound (fun _ => Robot.opening) :: foot)
  | inside {due : Option Mode} {above foot : List (Task (Effect ι) (World ι) σ)}
      (pace : Pace w due above) (code : Robot.Calm foot) (up : w.lifecycle = .started) :
      Scene app w false due
        (above ++ .caught (Robot.hookEnd .robotStarted) :: .bound (fun _ => Robot.opening) :: foot)
  | back (o : Except Failure Unit) {foot : List (Task (Effect ι) (World ι) σ)}
      (code : Robot.Calm foot) (up : w.lifecycle = .started) :
      Scene app w false none
        (.run (Robot.hookEnd .robotStarted o) :: .bound (fun _ => Robot.opening) :: foot)
  | noted {foot : List (Task (Effect ι) (World ι) σ)} (code : Robot.Calm foot)
      (up : w.lifecycle = .started) :
      Scene app w false none
        (.run .skip :: .bound (fun _ => .skip) :: .bound (fun _ => Robot.opening) :: foot)
  | opening {foot : List (Task (Effect ι) (World ι) σ)} (code : Robot.Calm foot)
      (up : w.lifecycle = .started) : Scene app w false none (.run Robot.opening :: foot)

theorem silent_of_front {t : Task (Effect ι) (World ι) σ}
    {rest : List (Task (Effect ι) (World ι) σ)} (front : s.agenda = t :: rest)
    (tame : ∀ e next, t = .run (.act e next) → e.isTame = true) :
    ∀ e next rest, s.agenda = .run (.act e next) :: rest → e.isTame = true := by
  intro e next below acts
  exact tame e next (List.cons.inj (front.symm.trans acts)).1

/-- A step tells of the mode what `Tells` says, or it is the call of `robotDisabled` by a start. -/
inductive Turns (app : App ι σ) (s s' : Session ι σ) : Bool → Option Mode → Prop
  | tells {opened : Bool} {due due' : Option Mode} (tells : s.Tells s' due due')
      (other : ¬ s.Opens) (scene : Scene app s'.world opened due' s'.agenda) :
      Turns app s s' opened due
  | opens (opens : s.Opens) (switch : s.switch = none) (hook : s.modeHook = some .disabled)
      (world : s'.world = s.world) (scene : Scene app s'.world true none s'.agenda) :
      Turns app s s' false none

theorem Turns.silent {opened : Bool} {due : Option Mode}
    {t : Task (Effect ι) (World ι) σ} {rest : List (Task (Effect ι) (World ι) σ)}
    (front : s.agenda = t :: rest) (tame : ∀ e next, t = .run (.act e next) → e.isTame = true)
    (goes : ¬ s.Stops)
    (scene : Scene app (Machine.step (Robot.host app) s).world opened due
      (Machine.step (Robot.host app) s).agenda) :
    Turns app s (Machine.step (Robot.host app) s) opened due := by
  have quiet := silent_of_front front tame
  have same := sameRule_step app quiet goes
  exact .tells (tells_of_tame quiet same due) (silent_of_tame quiet).2.2.2 scene

theorem tame_runEnd (o : Except Failure Unit) : Robot.Tame (Robot.runEnd o : Robot.Code ι σ) := by
  match o with
  | .ok () => exact Robot.tame_doing rfl Robot.tame_shutdown
  | .error (.fault f) => trivial
  | .error (.panic p) => trivial

theorem calm_runEnd : Robot.Calm [(.caught Robot.runEnd : Task (Effect ι) (World ι) σ)] := by
  intro x member
  rw [List.mem_singleton.mp member]
  exact tame_runEnd

section Turns

variable {opened : Bool} {foot : List (Task (Effect ι) (World ι) σ)}

theorem Turns.of_pace {tasks : List (Task (Effect ι) (World ι) σ)} (pace : Pace s.world due tasks)
    (up : opened = true ↔ s.world.lifecycle = .started) (whole : s.agenda = tasks)
    (goes : ¬ s.Stops) : Turns app s (Machine.step (Robot.host app) s) opened due := by
  by_cases idle : tasks = []
  · have same : Machine.step (Robot.host app) s = s := Machine.step_of_idle (whole.trans idle)
    have quiet : ∀ e next rest, s.agenda = .run (.act e next) :: rest → e.isTame = true := by
      intro e next rest acts
      simp [whole, idle] at acts
    rw [same]
    refine .tells (tells_of_tame quiet (.refl _) due) (silent_of_tame quiet).2.2.2 ?_
    rw [whole]
    exact .going pace up
  · obtain ⟨due', tells, kept, other, paces⟩ :=
      step_pace app pace (by simpa using whole) idle .bottom goes
    refine .tells tells other ?_
    generalize Machine.agenda (Machine.step (Robot.host app) s) = agenda at paces
    cases paces with
    | above pace' =>
        rw [List.append_nil]
        exact .going pace' (kept ▸ up)
    | on caught o => cases caught

theorem Turns.asked (code : Robot.Calm foot) (up : opened = true ↔ s.world.lifecycle = .started)
    (whole : s.agenda = .run Robot.start :: foot) (goes : ¬ s.Stops) :
    Turns app s (Machine.step (Robot.host app) s) opened none := by
  refine .silent whole (fun e next same => by cases same) goes ?_
  have ended : ∀ o, Scene app s.world opened none (.run (.done o) :: foot) := fun o =>
    .going (.calm (Robot.calm_run (c := .done o) trivial code)) up
  simp only [Machine.step, whole, Robot.start, Machine.runRoutine, Machine.todo]
  split
  · exact ended _
  · rename_i fresh
    have created := not_not.mp fresh
    cases opened with
    | false => exact .powering code created
    | true => cases created.symm.trans (up.mp rfl)

theorem Turns.powering (code : Robot.Calm foot) (fresh : s.world.lifecycle = .created)
    (whole : s.agenda = .run (Robot.doing .powerUp Robot.greeting) :: foot) :
    Turns app s (Machine.step (Robot.host app) s) false none := by
  have stepped := step_act app whole
  have carried : s.duty = some .powerUp := duty_eq whole
  have switch : s.switch = none := by rw [Session.switch, carried]; rfl
  have hook : s.modeHook = none := by rw [Session.modeHook, carried]; rfl
  have tells : s.Tells (Machine.step (Robot.host app) s) none none := by
    refine ⟨by simp [switch, hook], ?_, fun m now => ?_, fun _ => fresh⟩
    · rw [stepped, switch]
      rfl
    · cases switch.symm.trans now
  refine .tells tells ?_ ?_
  · rintro ⟨rest, opens⟩
    cases whole.symm.trans opens
  · rw [stepped]
    exact .powered code rfl

/-- While `robotStarted` runs, the mode may be switched as often as it likes. -/
theorem Turns.inside {above : List (Task (Effect ι) (World ι) σ)} (pace : Pace s.world due above)
    (code : Robot.Calm foot) (up : s.world.lifecycle = .started)
    (whole : s.agenda = above ++ .caught (Robot.hookEnd .robotStarted) ::
      .bound (fun _ => Robot.opening) :: foot) (goes : ¬ s.Stops) :
    Turns app s (Machine.step (Robot.host app) s) false due := by
  by_cases ended : above = []
  · subst ended
    cases pace with
    | calm _ =>
        refine .silent whole (fun e next same => by cases same) goes ?_
        simp only [List.nil_append, Machine.step, whole]
        exact .back (.ok ()) code up
  · obtain ⟨due', tells, kept, other, paces⟩ := step_pace app pace whole ended
      (.attempt (Robot.hookEnd .robotStarted) _) goes
    refine .tells tells other ?_
    generalize Machine.agenda (Machine.step (Robot.host app) s) = agenda at paces
    cases paces with
    | above pace' => exact .inside pace' code (kept.trans up)
    | on caught o =>
        cases caught
        exact .back o code (kept.trans up)

theorem Turns.opening (code : Robot.Calm foot) (up : s.world.lifecycle = .started)
    (whole : s.agenda = .run Robot.opening :: foot) :
    Turns app s (Machine.step (Robot.host app) s) false none := by
  have stepped := step_act app whole
  have carried : s.duty = some (.call .robotDisabled) := duty_eq whole
  refine .opens ⟨foot, whole⟩ (by rw [Session.switch, carried]; rfl)
    (by rw [Session.modeHook, carried]; rfl) (by rw [stepped]; rfl) ?_
  have bound : Robot.Calm (.bound (fun _ => Robot.doing .scheduleLoops .skip) :: foot) :=
    Robot.calm_bound (fun _ => Robot.tame_doing rfl Robot.tame_skip) code
  rw [stepped]
  exact .going (.calm (Robot.calm_run (Robot.tame_call .robotDisabled) bound))
    ⟨fun _ => up, fun _ => rfl⟩

end Turns

/-- Each step takes a start, or what else goes on, from one scene to the next. -/
theorem Scene.step {opened : Bool} {tasks : List (Task (Effect ι) (World ι) σ)}
    (scene : Scene app s.world opened due tasks) (whole : s.agenda = tasks) (goes : ¬ s.Stops) :
    Turns app s (Machine.step (Robot.host app) s) opened due := by
  have lifecycle : ∀ {t : Task (Effect ι) (World ι) σ}
      {rest : List (Task (Effect ι) (World ι) σ)}, s.agenda = t :: rest →
        (∀ e next, t = .run (.act e next) → e.isTame = true) →
          (Machine.step (Robot.host app) s).world.lifecycle = s.world.lifecycle :=
    fun front tame => (sameRule_step app (silent_of_front front tame) goes).lifecycle
  cases scene with
  | going pace up => exact .of_pace pace up whole goes
  | asked code up => exact .asked code up whole goes
  | running up =>
      refine .silent whole (fun e next same => by cases same) goes ?_
      have after : Machine.step (Robot.host app) s =
          s.todo [.run Robot.start, .caught Robot.runEnd] := by
        rw [Machine.step, whole]
        rfl
      rw [after]
      exact .asked calm_runEnd up
  | powering code fresh => exact .powering code fresh whole
  | @powered foot code up =>
      refine .silent whole (fun e next same => by cases same) goes ?_
      simp only [Machine.step, whole]
      exact .greeting code up
  | @greeting foot code up =>
      have kept := lifecycle whole fun e next same => by cases same; rfl
      refine .silent whole (fun e next same => by cases same; rfl) goes ?_
      rw [step_act app whole] at kept ⊢
      exact .entering code (kept.trans up)
  | entering code up =>
      refine .silent whole (fun e next same => by cases same) goes ?_
      simp only [Machine.step, whole]
      have hook : Robot.Calm [.run (Robot.lift (app.hook .robotStarted))] :=
        Robot.calm_run (Robot.tame_lift _) fun x none => by cases none
      exact Scene.inside (.calm hook) code up
  | inside pace code up => exact .inside pace code up whole goes
  | @back o foot code up =>
      cases o with
      | ok _ =>
          refine .silent whole (fun e next same => by cases same) goes ?_
          simp only [Machine.step, whole]
          exact .opening code up
      | error f =>
          have kept := lifecycle whole fun e next same => by cases same; rfl
          refine .silent whole (fun e next same => by cases same; rfl) goes ?_
          rw [step_act app whole] at kept ⊢
          exact .noted code (kept.trans up)
  | noted code up =>
      refine .silent whole (fun e next same => by cases same) goes ?_
      simp only [Machine.step, whole]
      exact .back (.ok ()) code up
  | opening code up => exact .opening code up whole

/-! ### The story of a life -/

/-- The modes switched to and the hooks entered, before and after a start has called
`robotDisabled`; a hook may be due. -/
inductive Story : Bool → Option Mode → List (Session ι σ) → Prop
  | before {due : Option Mode} {past : List (Session ι σ)}
      (told : switches past = due.toList ++ modeHooks past) (unopened : ∀ x ∈ past, ¬ x.Opens) :
      Story false due past
  | after {due : Option Mode} {newer older : List (Session ι σ)} {x : Session ι σ}
      (opens : x.Opens) (settled : switches older = modeHooks older)
      (mode : x.world.mode = (switches older).headD .disabled)
      (told : switches newer = due.toList ++ modeHooks newer)
      (once : ∀ y ∈ newer ++ older, ¬ y.Opens) : Story true due (newer ++ x :: older)

structure Told (app : App ι σ) (s : Session ι σ) (past : List (Session ι σ)) (opened : Bool)
    (due : Option Mode) : Prop where
  scene : Scene app s.world opened due s.agenda
  story : Story opened due past
  mode : s.world.mode = (switches past).headD .disabled
  changing : (switches past ++ [Mode.disabled]).IsChain (· ≠ ·)
  fresh : s.world.lifecycle = .created → switches past = []

theorem switches_cons (s : Session ι σ) (past : List (Session ι σ)) :
    switches (s :: past) = s.switch.toList ++ switches past := by
  unfold switches
  cases told : s.switch <;> simp [told]

theorem modeHooks_cons (s : Session ι σ) (past : List (Session ι σ)) :
    modeHooks (s :: past) = s.modeHook.toList ++ modeHooks past := by
  unfold modeHooks
  cases told : s.modeHook <;> simp [told]

theorem switches_append (newer older : List (Session ι σ)) :
    switches (newer ++ older) = switches newer ++ switches older := List.filterMap_append

theorem modeHooks_append (newer older : List (Session ι σ)) :
    modeHooks (newer ++ older) = modeHooks newer ++ modeHooks older := List.filterMap_append

theorem Scene.of_same {w w' : World ι} {opened : Bool} {due : Option Mode}
    {tasks : List (Task (Effect ι) (World ι) σ)} (scene : Scene app w opened due tasks)
    (same : w.SameRule w') : Scene app w' opened due tasks := by
  obtain ⟨mode, lifecycle⟩ := same
  have pace : ∀ {due : Option Mode} {tasks : List (Task (Effect ι) (World ι) σ)},
      Pace w due tasks → Pace w' due tasks := by
    intro due tasks pace
    cases pace with
    | calm code => exact .calm code
    | asked enabled code => exact .asked enabled code
    | switching up other code => exact .switching (lifecycle.trans up) (mode ▸ other) code
    | switched m code => exact .switched m code
    | due m code => exact .due m code
  cases scene with
  | going going up => exact .going (pace going) (lifecycle ▸ up)
  | asked code up => exact .asked code (lifecycle ▸ up)
  | running up => exact .running (lifecycle ▸ up)
  | powering code fresh => exact .powering code (lifecycle.trans fresh)
  | powered code up => exact .powered code (lifecycle.trans up)
  | greeting code up => exact .greeting code (lifecycle.trans up)
  | entering code up => exact .entering code (lifecycle.trans up)
  | inside going code up => exact .inside (pace going) code (lifecycle.trans up)
  | back o code up => exact .back o code (lifecycle.trans up)
  | noted code up => exact .noted code (lifecycle.trans up)
  | opening code up => exact .opening code (lifecycle.trans up)

theorem Scene.order {w : World ι} {opened : Bool} {due : Option Mode}
    {tasks : List (Task (Effect ι) (World ι) σ)} (scene : Scene app w opened due tasks)
    (idle : tasks = []) (o : Order ι σ) : due = none ∧ Scene app w opened none [.run o.body] := by
  have bottom : Robot.Calm ([] : List (Task (Effect ι) (World ι) σ)) := fun x none => by cases none
  cases scene with
  | going pace up =>
      subst idle
      cases pace
      refine ⟨rfl, ?_⟩
      have calm : ∀ {c : Robot.Code ι σ}, Robot.Tame c → Scene app w opened none [.run c] :=
        fun tame => .going (.calm (Robot.calm_run tame bottom)) up
      cases o with
      | start => exact .asked bottom up
      | shutdown => exact calm Robot.tame_shutdown
      | run => exact .running up
      | setEnabled enabled => exact .going (.asked enabled bottom) up
      | settle => exact calm (Robot.tame_doing rfl Robot.tame_skip)
      | code r => exact calm (Robot.tame_lift r)
  | inside pace code up => simp at idle
  | _ => cases idle

section Life

variable {past : List (Session ι σ)} {s' : Session ι σ} {opened : Bool} {due' : Option Mode}

theorem Told.of_same (told : Told app s past opened due) (same : s.world.SameRule s'.world)
    (agenda : s'.agenda = s.agenda) : Told app s' past opened due where
  scene := agenda ▸ told.scene.of_same same
  story := told.story
  mode := same.mode.trans told.mode
  changing := told.changing
  fresh created := told.fresh (same.lifecycle ▸ created)

theorem isChain_switch {ms : List Mode} {m : Mode}
    (changing : (ms ++ [Mode.disabled]).IsChain (· ≠ ·)) (other : ms.headD .disabled ≠ m) :
    (m :: ms ++ [Mode.disabled]).IsChain (· ≠ ·) := by
  cases ms with
  | nil => exact .cons_cons (Ne.symm other) changing
  | cons m' rest => exact .cons_cons (Ne.symm other) changing

theorem Story.tells (story : Story opened due past) (tells : s.Tells s' due due')
    (other : ¬ s.Opens) : Story opened due' (s :: past) := by
  have longer : ∀ newer : List (Session ι σ), switches newer = due.toList ++ modeHooks newer →
      switches (s :: newer) = due'.toList ++ modeHooks (s :: newer) := by
    intro newer told
    rw [switches_cons, modeHooks_cons, told, ← List.append_assoc, tells.story, List.append_assoc]
  cases story with
  | before told unopened =>
      refine .before (longer past told) fun x member => ?_
      rcases List.mem_cons.mp member with rfl | earlier
      · exact other
      · exact unopened x earlier
  | @after _ newer older x opens settled mode told once =>
      change Story true due' ((s :: newer) ++ x :: older)
      refine .after opens settled mode (longer newer told) fun y member => ?_
      rcases List.mem_cons.mp member with rfl | earlier
      · exact other
      · exact once y earlier

theorem Told.step (told : Told app s past opened due) (goes : ¬ s.Stops) :
    ∃ opened' due', Told app (Machine.step (Robot.host app) s) (s :: past) opened' due' := by
  have before : (Machine.step (Robot.host app) s).world.lifecycle = .created →
      s.world.lifecycle = .created := by
    intro created
    by_contra later
    exact not_created_step app later created
  have turns := told.scene.step rfl goes
  generalize Machine.step (Robot.host app) s = s' at turns before
  cases turns with
  | @tells _ _ due' tells other scene =>
      refine ⟨opened, due', scene, told.story.tells tells other, ?_, ?_, fun created => ?_⟩
      · rw [tells.mode, switches_cons, told.mode]
        cases s.switch <;> rfl
      · rw [switches_cons]
        cases switch : s.switch with
        | none => exact told.changing
        | some m => exact isChain_switch told.changing (told.mode ▸ (tells.changes m switch).1)
      · have fresh := before created
        rw [switches_cons, told.fresh fresh]
        cases switch : s.switch with
        | none => rfl
        | some m => cases fresh.symm.trans (tells.changes m switch).2
  | opens opens switch hook world scene =>
      have same : switches (s :: past) = switches past := by
        rw [switches_cons, switch]
        rfl
      refine ⟨true, none, scene, ?_, ?_, ?_, fun created => ?_⟩
      · cases told.story with
        | before story unopened =>
            have alone : ∀ y ∈ [] ++ past, ¬ y.Opens := unopened
            exact .after opens story told.mode rfl alone
      · rw [same, world]
        exact told.mode
      · rw [same]
        exact told.changing
      · rw [same]
        exact told.fresh (before created)

theorem Life.told (life : Life app s past) (up : ∀ x ∈ past, ¬ x.Stops) :
    ∃ opened due, Told app s past opened due := by
  induction life with
  | created p sink own =>
      refine ⟨false, none, .going (.calm fun x none => by cases none) ⟨nofun, nofun⟩,
        .before rfl (by simp), rfl, .singleton _, fun _ => rfl⟩
  | order o life idle ih =>
      obtain ⟨opened, due, told⟩ := ih up
      obtain ⟨rfl, scene⟩ := told.scene.order idle o
      exact ⟨opened, none, scene, told.story, told.mode, told.changing, told.fresh⟩
  | step life ih =>
      obtain ⟨opened, due, told⟩ := ih fun x member => up x (List.mem_cons_of_mem _ member)
      exact told.step (up _ (List.mem_cons_self ..))
  | advance time life ih =>
      obtain ⟨opened, due, told⟩ := ih up
      exact ⟨opened, due, told.of_same ⟨rfl, rfl⟩ rfl⟩
  | @look s past life ih =>
      obtain ⟨opened, due, told⟩ := ih up
      exact ⟨opened, due, told.of_same s.world.sameRule_look.1 rfl⟩
  | make id d life ih =>
      obtain ⟨opened, due, told⟩ := ih up
      exact ⟨opened, due, told.of_same ⟨rfl, rfl⟩ rfl⟩
  | drift own life ih =>
      obtain ⟨opened, due, told⟩ := ih up
      exact ⟨opened, due, told.of_same ⟨rfl, rfl⟩ rfl⟩

/-! ### What the network table tells -/

theorem Told.created_of_powerUp (told : Told app s past opened due) (goes : ¬ s.Stops)
    (powers : s.duty = some .powerUp) : s.world.lifecycle = .created := by
  have turns := told.scene.step rfl goes
  generalize Machine.step (Robot.host app) s = s' at turns
  cases turns with
  | tells tells other scene => exact tells.power powers
  | opens opens switch hook world scene =>
      rw [modeHook, powers] at hook
      cases hook

theorem stated_switchTo (w : World ι) (m : Mode) : (w.switchTo m).stated = some m.label := by
  have published := (({ w with mode := m } : World ι).publishMode m).sameRule_applyMode.2
  exact (congrArg (NetworkTable.get? · _) published).trans (World.stated_publishMode _ m)

theorem stated_powerUp (w : World ι) : w.powerUp.stated = some Mode.disabled.label :=
  World.stated_publishMode { w with fleet := w.fleet.startRoster } .disabled

theorem Told.stated_step (told : Told app s past opened due) (goes : ¬ s.Stops)
    (mine : ¬ s.Overwrites)
    (before : s.world.lifecycle = .started → s.world.stated = some s.world.mode.label) :
    (Machine.step (Robot.host app) s).world.lifecycle = .started →
      (Machine.step (Robot.host app) s).world.stated =
        some (Machine.step (Robot.host app) s).world.mode.label := by
  by_cases tame : ∀ e next rest, s.agenda = .run (.act e next) :: rest → e.isTame = true
  · have same := sameRule_step app tame goes
    intro up
    rw [Session.stated_step app tame goes mine, same.mode]
    exact before (same.lifecycle.symm.trans up)
  · intro up
    obtain ⟨e, next, rest, front, wild⟩ : ∃ e next rest,
        s.agenda = .run (.act e next) :: rest ∧ e.isTame ≠ true := by
      simpa only [not_forall, exists_prop] using tame
    rw [step_act app front] at up ⊢
    cases e with
    | act a => exact absurd rfl wild
    | duty d =>
        cases d with
        | switchTo m =>
            have rules :=
              (({ s.world with mode := m } : World ι).publishMode m).sameRule_applyMode.1
            exact (stated_switchTo s.world m).trans (congrArg (some ·.label) rules.mode.symm)
        | powerUp =>
            have created := told.created_of_powerUp goes (duty_eq front)
            have mode : s.world.mode = .disabled := by rw [told.mode, told.fresh created]; rfl
            exact (stated_powerUp s.world).trans (congrArg (some ·.label) mode.symm)
        | call h => exact before up
        | _ => exact absurd rfl wild

theorem Life.stated (life : Life app s past) (up : ∀ x ∈ past, ¬ x.Stops)
    (mine : ∀ x ∈ past, ¬ x.Overwrites) (started : s.world.lifecycle = .started) :
    s.world.stated = some s.world.mode.label := by
  induction life with
  | created p sink own => cases started
  | order o life idle ih => exact ih up mine started
  | @step s past life ih =>
      have earlier : ∀ x ∈ past, ¬ x.Stops := fun x member => up x (List.mem_cons_of_mem _ member)
      obtain ⟨opened, due, told⟩ := life.told earlier
      exact told.stated_step (up _ (List.mem_cons_self ..)) (mine _ (List.mem_cons_self ..))
        (ih earlier fun x member => mine x (List.mem_cons_of_mem _ member)) started
  | advance time life ih => exact ih up mine started
  | @look s past life ih =>
      obtain ⟨same, table⟩ := s.world.sameRule_look
      have stated := ih up mine (same.lifecycle.symm.trans started)
      rw [same.mode]
      exact (congrArg (NetworkTable.get? · _) table).trans stated
  | make id d life ih => exact ih up mine started
  | drift own life ih => exact ih up mine started

/-! ### Hooks and mode -/

theorem announces_of_due {w : World ι} {m : Mode}
    {tasks : List (Task (Effect ι) (World ι) σ)} (scene : Scene app w opened (some m) tasks)
    (whole : s.agenda = tasks) : s.Announces m := by
  cases scene with
  | going pace up =>
      cases pace with
      | switched _ code => exact .inl ⟨_, whole⟩
      | due _ code => exact .inr ⟨_, whole⟩
  | inside pace code up =>
      cases pace with
      | switched _ code => exact .inl ⟨_, whole⟩
      | due _ code => exact .inr ⟨_, whole⟩

/-- Modes that change at each switch still do with one more `disabled` among them if nothing is
older, or if it comes last and after `enabled`. -/
theorem isChain_opening {newer older : List Mode}
    (changing : (newer ++ (older ++ [Mode.disabled])).IsChain (· ≠ ·)) :
    (newer ++ .disabled :: older).IsChain (· ≠ ·) ↔
      older = [] ∨ older.headD .disabled = .enabled ∧ newer = [] := by
  obtain ⟨late, early, joint⟩ := List.isChain_append.mp changing
  rw [List.isChain_append]
  cases older with
  | nil => exact ⟨fun _ => .inl rfl, fun _ => ⟨late, .singleton _, joint⟩⟩
  | cons m rest =>
      have tail : (m :: rest).IsChain (· ≠ ·) := (List.isChain_append.mp early).1
      constructor
      · rintro ⟨_, chain, apart⟩
        have enabled : m = .enabled := by
          have other := (List.isChain_cons_cons.mp chain).1
          cases m with
          | enabled => rfl
          | disabled => exact absurd rfl other
        refine .inr ⟨enabled, ?_⟩
        by_contra some
        have last := List.getLast?_eq_some_getLast some
        generalize newer.getLast some = x at last
        have different := joint x last m rfl
        have different' := apart x last .disabled rfl
        cases x with
        | enabled => exact different enabled.symm
        | disabled => exact different' rfl
      · rintro (none | ⟨enabled, rfl⟩)
        · cases none
        · have other : Mode.disabled ≠ m := by
            rw [show m = .enabled from enabled]
            exact nofun
          exact ⟨.nil, .cons_cons other tail, fun x last => by cases last⟩

theorem Scene.opened_of_idle {w : World ι} {tasks : List (Task (Effect ι) (World ι) σ)}
    (scene : Scene app w opened due tasks) (idle : tasks = []) (up : w.lifecycle = .started) :
    opened = true := by
  cases scene with
  | going pace opens => exact opens.mpr up
  | inside pace code up => simp at idle
  | _ => cases idle

theorem Story.exists_opens (story : Story true due past) : ∃ x ∈ past, x.Opens := by
  cases story with
  | @after _ newer older x opens _ _ _ _ =>
      exact ⟨x, List.mem_append_right newer (List.mem_cons_self ..), opens⟩

theorem Story.split {newer older : List (Session ι σ)} {x : Session ι σ}
    (story : Story opened none past) (split : past = newer ++ x :: older) (opens : x.Opens) :
    switches older = modeHooks older ∧ x.world.mode = (switches older).headD .disabled ∧
      switches newer = modeHooks newer := by
  cases story with
  | before told unopened => exact absurd opens (unopened x (by simp [split]))
  | @after _ newer' older' x' opens' settled mode told once =>
      obtain ⟨rfl, rfl, rfl⟩ := split_unique split opens once
      exact ⟨settled, mode, told⟩

/-- Up to its shutdown, the mode hooks of a robot are called as the mode is switched, and once more
`robotDisabled` by the start, wherever the switches come from and however the hooks end.  The hook
entered last is that of the mode unless `robotStarted` has left the robot enabled and the mode was
not switched since, and the hooks alternate exactly as long as the call of the start does not come
amiss: both hold if `robotStarted` does not switch the mode. -/
theorem mode_hooks (life : Life app s past) (up : ∀ x ∈ past, ¬ x.Stops) :
    (s.agenda = [] → s.world.lifecycle = .started → ∃ x ∈ past, x.Opens) ∧
      (∀ newer x older, past = newer ++ x :: older → x.Opens → (∀ m, ¬ s.Announces m) →
        modeHooks past = switches newer ++ .disabled :: switches older ∧
          ((modeHooks past).head? = some s.world.mode ↔
            switches newer ≠ [] ∨ x.world.mode = .disabled) ∧
          ((modeHooks past).IsChain (· ≠ ·) ↔
            switches older = [] ∨ x.world.mode = .enabled ∧ switches newer = []) ∧
          (switches older = [] → (modeHooks past).head? = some s.world.mode ∧
            (modeHooks past).IsChain (· ≠ ·))) ∧
      (s.world.lifecycle = .started → (∀ x ∈ past, ¬ x.Overwrites) →
        s.world.table.get? NetworkTable.stateKey = some s.world.mode.label) := by
  obtain ⟨opened, due, told⟩ := life.told up
  refine ⟨fun idle started => ?_, fun newer x older split opens settled => ?_,
    fun started mine => life.stated up mine started⟩
  · obtain rfl := told.scene.opened_of_idle idle started
    exact told.story.exists_opens
  · have nothing : due = none := by
      cases due with
      | none => rfl
      | some m => exact absurd (announces_of_due told.scene rfl) (settled m)
    subst nothing
    obtain ⟨early, mode, late⟩ := told.story.split split opens
    have hooks : modeHooks past = switches newer ++ .disabled :: switches older := by
      obtain ⟨rest, front⟩ := opens
      have opening : x.modeHook = some .disabled := by rw [modeHook, duty_eq front]; rfl
      rw [split, modeHooks_append, modeHooks_cons, opening, early, late]
      rfl
    have opening : x.switch = none := by
      obtain ⟨rest, front⟩ := opens
      rw [switch, duty_eq front]
      rfl
    have all : switches past = switches newer ++ switches older := by
      rw [split, switches_append, switches_cons, opening]
      rfl
    have now := told.mode
    have changing := told.changing
    rw [all] at now changing
    rw [List.append_assoc] at changing
    have agrees : (modeHooks past).head? = some s.world.mode ↔
        switches newer ≠ [] ∨ x.world.mode = .disabled := by
      rw [hooks, now, mode]
      cases switches newer with
      | nil => simp [eq_comm]
      | cons m rest => simp
    have alternates : (modeHooks past).IsChain (· ≠ ·) ↔
        switches older = [] ∨ x.world.mode = .enabled ∧ switches newer = [] := by
      rw [hooks, mode]
      exact isChain_opening changing
    refine ⟨hooks, agrees, alternates, fun none => ?_⟩
    have disabled : x.world.mode = .disabled := by rw [mode, none]; rfl
    exact ⟨agrees.mpr (.inr disabled), alternates.mpr (.inl none)⟩

end Life

end Session

/-- An application that enables its robot as soon as it is started. -/
def App.eager : App Empty Unit :=
  { App.silent with
    hook := fun
      | .robotStarted => .act (.setEnabled true) fun _ => .skip
      | _ => .skip }

namespace Session

/-- The start has called `robotDisabled`, and when it is enabled the robot calls `robotEnabled`. -/
theorem mode_hooks_silent :
    ∃ past, Life .silent (App.silent.play [(.setEnabled true, 8), (.start, 14)]) past ∧
      modeHooks past = [.enabled, .disabled] ∧
      (modeHooks past).head? =
        some (App.silent.play [(.setEnabled true, 8), (.start, 14)]).world.mode ∧
      (App.silent.play [(.setEnabled true, 8), (.start, 14)]).world.table.get?
        NetworkTable.stateKey = some "ENABLED" := by
  let asked : Session Empty Unit := { App.silent.play [] with agenda := [.run Robot.start] }
  let later : Session Empty Unit :=
    { App.silent.play [(.start, 14)] with agenda := [.run (Robot.setEnabled true)] }
  let h := Robot.host App.silent
  have created : Life App.silent (App.silent.play []) [] := .created {} ⟨.nothing, []⟩ ()
  have start := (created.order .start rfl).steps 14
  have life := (start.order (.setEnabled true) rfl).steps 8
  obtain ⟨_, hooks, stated⟩ := mode_hooks life (by decide)
  have settled : ∀ m, ¬ (App.silent.play [(.setEnabled true, 8), (.start, 14)]).Announces m := by
    rintro m (⟨_, none⟩ | ⟨_, none⟩) <;> cases none
  obtain ⟨_, agrees, _, _⟩ := hooks (later.trail h 8 ((asked.steps h 8).trail h 6 []))
    (asked.steps h 7) (asked.trail h 7 []) rfl ⟨_, rfl⟩ settled
  exact ⟨_, life, by decide, agrees.mpr (.inl (by decide)), stated rfl (by decide)⟩

/-- The robot is enabled when its start returns, but the hook entered last is `robotDisabled`; when
it is disabled then, that hook is entered once more. -/
theorem left_enabled :
    ∃ past, Life .eager (App.eager.play [(.start, 23)]) past ∧ (∀ x ∈ past, ¬ x.Stops) ∧
      (App.eager.play [(.start, 23)]).agenda = [] ∧
      (App.eager.play [(.start, 23)]).world.lifecycle = .started ∧
      (App.eager.play [(.start, 23)]).world.mode = .enabled ∧
      (modeHooks past).head? = some .disabled ∧
      ∃ past', Life .eager (App.eager.play [(.setEnabled false, 8), (.start, 23)]) past' ∧
        (∀ x ∈ past', ¬ x.Stops) ∧ ¬ (modeHooks past').IsChain (· ≠ ·) := by
  have created : Life App.eager (App.eager.play []) [] := .created {} ⟨.nothing, []⟩ ()
  have start := (created.order .start rfl).steps 23
  have disabled := (start.order (.setEnabled false) rfl).steps 8
  exact ⟨_, start, by decide, rfl, rfl, rfl, by decide, _, disabled, by decide, by decide⟩

end Session

end RobotControl
