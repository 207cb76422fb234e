import RobotControl.Proofs.Action.Code
import RobotControl.Proofs.Action.Moves

/-!
# What a step makes of the agenda

A step puts new tasks in the place of the one in front.  If that one ends or fails, its end is
handed to a task further down, and what lies between is dropped (`Machine.step_leads`).  The task in
front may have a property that those below it do not have: they wait (`Fronts`).  So what code
leaves behind stays above the attempt in which it runs, until the attempt goes on (`Leads.lands`),
and tasks that fail only inside callbacks are worked off before anything below them is touched
(`Leads.enclosed`).
-/
set_option autoImplicit false

namespace RobotControl

variable {ε Ω σ : Type} {asks : Request → Prop} {acts : ε → Prop} {W : Ω → Prop}
  {R : Routine ε Ω σ → Prop} {C D : Task ε Ω σ → Prop}

/-! ### Properties that code keeps -/

def Task.isFree : Task ε Ω σ → Bool
  | .run _ | .bound _ | .caught _ => false
  | _ => true

/-- Whatever of its code stands on the agenda has the property. -/
def Task.Holds (R : Routine ε Ω σ → Prop) : Task ε Ω σ → Prop
  | .run r => R r
  | .bound next => ∀ o, R (next o)
  | .caught next => ∀ o, R (next o)
  | _ => True

/-- What is left of code with the property has it as well, if the world was as it should be
whenever the code looked at it. -/
structure Routine.Inherits (W : Ω → Prop) (R : Routine ε Ω σ → Prop) : Prop where
  ask : ∀ {q next}, R (.ask q next) → ∀ b, R (next b)
  act : ∀ {e next}, R (.act e next) → ∀ o, R (next o)
  look : ∀ {next}, R (.look next) → ∀ t w s, W w → R (next t w s)
  note : ∀ {change next}, R (.note change next) → R next
  attempt : ∀ {body next}, R (.attempt body next) → R body ∧ ∀ o, R (next o)

/-- What code in front has is passed on to what it leaves in front, and what it leaves to wait has
what waiting tasks have.  What an effect leaves to wait is another matter. -/
structure Task.Passes (W : Ω → Prop) (C D : Task ε Ω σ → Prop) : Prop where
  waits : ∀ {t}, D t → C t
  free : ∀ {t}, t.isFree = true → D t
  ask : ∀ {q next}, C (.run (.ask q next)) → ∀ b, D (.run (next b))
  look : ∀ {next}, C (.run (.look next)) → ∀ t w s, W w → C (.run (next t w s))
  note : ∀ {change next}, C (.run (.note change next)) → C (.run next)
  attempt : ∀ {body next}, C (.run (.attempt body next)) → C (.run body) ∧ D (.caught next)
  bound : ∀ {next}, C (.bound next) → ∀ o, C (.run (next o))
  caught : ∀ {next}, C (.caught next) → ∀ o, C (.run (next o))

theorem Task.passes_all :
    Task.Passes (fun _ => True) (fun _ : Task ε Ω σ => True) fun _ => True := by
  constructor <;> intros <;> trivial

theorem Routine.Inherits.passes (inherits : Routine.Inherits W R) :
    Task.Passes W (Task.Holds R) (Task.Holds R) where
  waits := id
  free {t} free := by cases t <;> trivial
  ask := inherits.ask
  look := inherits.look
  note := inherits.note
  attempt := inherits.attempt
  bound := id
  caught := id

theorem Routine.inherits_uses :
    Routine.Inherits (fun _ => True) (Routine.Uses asks acts : Routine ε Ω σ → Prop) where
  ask uses := uses.2
  act uses := uses.2
  look uses t w s _ := uses t w s
  note uses := uses
  attempt uses := uses

/-- Code that has only allowed effects as long as the world is as it should be. -/
def Routine.UsesIn (W : Ω → Prop) (acts : ε → Prop) : Routine ε Ω σ → Prop
  | .done _ => True
  | .panic _ => True
  | .ask _ next => ∀ b, (next b).UsesIn W acts
  | .act e next => acts e ∧ ∀ o, (next o).UsesIn W acts
  | .look next => ∀ t w s, W w → (next t w s).UsesIn W acts
  | .note _ next => next.UsesIn W acts
  | .attempt body next => body.UsesIn W acts ∧ ∀ o, (next o).UsesIn W acts

theorem Routine.inherits_usesIn :
    Routine.Inherits W (Routine.UsesIn W acts : Routine ε Ω σ → Prop) where
  ask uses := uses
  act uses := uses.2
  look uses := uses
  note uses := uses
  attempt uses := uses

theorem Routine.Uses.within {r : Routine ε Ω σ} (uses : r.Uses asks acts) : r.UsesIn W acts := by
  induction r with
  | done o => trivial
  | panic p => trivial
  | ask q next ih => exact fun b => ih b (uses.2 b)
  | act e next ih => exact ⟨uses.1, fun o => ih o (uses.2 o)⟩
  | look next ih => exact fun t w s _ => ih t w s (uses t w s)
  | note change next ih => exact ih uses
  | attempt body next ihBody ih => exact ⟨ihBody uses.1, fun o => ih o (uses.2 o)⟩

theorem Routine.UsesIn.mono {acts' : ε → Prop} (le : ∀ e, acts e → acts' e) {r : Routine ε Ω σ}
    (uses : r.UsesIn W acts) : r.UsesIn W acts' := by
  induction r with
  | done o => trivial
  | panic p => trivial
  | ask q next ih => exact fun b => ih b (uses b)
  | act e next ih => exact ⟨le e uses.1, fun o => ih o (uses.2 o)⟩
  | look next ih => exact fun t w s world => ih t w s (uses t w s world)
  | note change next ih => exact ih uses
  | attempt body next ihBody ih => exact ⟨ihBody uses.1, fun o => ih o (uses.2 o)⟩

theorem Task.holds_uses (t : Task ε Ω σ) : t.Holds (Routine.Uses asks acts) ↔ t.Uses asks acts := by
  cases t <;> exact Iff.rfl

/-! ### Where failures end -/

/-- The task takes the failures of those above it. -/
def Task.catches : Task ε Ω σ → Bool
  | .caught _ | .returned _ _ => true
  | _ => false

/-- No failure gets out: a task that may fail stands above the end of a callback. -/
def Enclosed : List (Task ε Ω σ) → Prop
  | [] => True
  | t :: rest => (t.mayFail = true → ∃ a cb, Task.returned a cb ∈ rest) ∧ Enclosed rest

namespace Enclosed

variable {new rest : List (Task ε Ω σ)}

theorem suffix (enclosed : Enclosed (new ++ rest)) : Enclosed rest := by
  induction new with
  | nil => exact enclosed
  | cons t more ih => exact ih enclosed.2

theorem append (enclosed : Enclosed rest) (own : Enclosed new) : Enclosed (new ++ rest) := by
  induction new with
  | nil => exact enclosed
  | cons t more ih =>
      refine ⟨fun fails => ?_, ih own.2⟩
      obtain ⟨a, cb, member⟩ := own.1 fails
      exact ⟨a, cb, List.mem_append_left rest member⟩

theorem append_inside (enclosed : Enclosed rest) (inside : ∃ a cb, Task.returned a cb ∈ rest)
    (new : List (Task ε Ω σ)) : Enclosed (new ++ rest) := by
  obtain ⟨a, cb, member⟩ := inside
  induction new with
  | nil => exact enclosed
  | cons t more ih => exact ⟨fun _ => ⟨a, cb, List.mem_append_right more member⟩, ih⟩

theorem of_steady (steady : ∀ x ∈ new, x.mayFail = false) : Enclosed new := by
  induction new with
  | nil => trivial
  | cons t more ih =>
      refine ⟨fun fails => ?_, ih fun x member => steady x (List.mem_cons_of_mem _ member)⟩
      exact absurd ((steady t (List.mem_cons_self ..)).symm.trans fails) Bool.noConfusion

end Enclosed

/-! ### The next agenda -/

/-- The first task has one property, and those that wait below it have another one. -/
def Fronts (C D : Task ε Ω σ → Prop) : List (Task ε Ω σ) → Prop
  | [] => True
  | t :: rest => C t ∧ ∀ x ∈ rest, D x

/-- The end of a task is handed to one of those below it, which new tasks take the place of, or to
nobody. -/
inductive Handed (C D : Task ε Ω σ → Prop) (rest : List (Task ε Ω σ)) :
    List (Task ε Ω σ) → Prop
  | taken (missed new : List (Task ε Ω σ)) {below : List (Task ε Ω σ)} {taker : Task ε Ω σ}
      (split : rest = missed ++ taker :: below) (passed : ∀ x ∈ missed, x.catches = false)
      (own : C taker → Fronts C D new) (safe : taker.mayFail = true ∨ Enclosed new)
      (resumes : ∀ next, taker = .caught next → ∃ o, new = [.run (next o)]) :
      Handed C D rest (new ++ below)
  | lost (passed : ∀ x ∈ rest, x.catches = false) : Handed C D rest []

/-- What comes of a task and those below it: new tasks in its place, or its end is handed on. -/
inductive Leads (C D : Task ε Ω σ → Prop) (t : Task ε Ω σ) (rest : List (Task ε Ω σ)) :
    List (Task ε Ω σ) → Prop
  | goes (new : List (Task ε Ω σ)) (own : Fronts C D new)
      (safe : t.mayFail = true ∨ Enclosed new) : Leads C D t rest (new ++ rest)
  | handed {tasks : List (Task ε Ω σ)} (fails : t.mayFail = true) (handed : Handed C D rest tasks) :
      Leads C D t rest tasks

section Fronts

variable {t : Task ε Ω σ} {new rest tasks : List (Task ε Ω σ)}

theorem fronts_self : Fronts C C tasks ↔ ∀ x ∈ tasks, C x := by
  cases tasks with
  | nil => simp [Fronts]
  | cons t rest => exact List.forall_mem_cons.symm

theorem Fronts.append (waits : ∀ {x}, D x → C x) (fronts : Fronts C D new)
    (below : ∀ x ∈ rest, D x) : Fronts C D (new ++ rest) := by
  cases new with
  | nil =>
      cases rest with
      | nil => trivial
      | cons x rest =>
          obtain ⟨head, tail⟩ := List.forall_mem_cons.mp below
          exact ⟨waits head, tail⟩
  | cons t more => exact ⟨fronts.1, List.forall_mem_append.mpr ⟨fronts.2, below⟩⟩

theorem Fronts.of_all (waits : ∀ {x}, D x → C x) (all : ∀ x ∈ tasks, D x) : Fronts C D tasks := by
  have nothing : Fronts C D ([] : List (Task ε Ω σ)) := trivial
  exact nothing.append waits all

theorem Handed.pass (handed : Handed C D rest tasks) (misses : t.catches = false) :
    Handed C D (t :: rest) tasks := by
  cases handed with
  | @taken missed new below taker split passed own safe resumes =>
      have whole : t :: rest = (t :: missed) ++ taker :: below := congrArg (t :: ·) split
      have quiet : ∀ x ∈ t :: missed, x.catches = false := List.forall_mem_cons.mpr ⟨misses, passed⟩
      exact .taken (t :: missed) new whole quiet own safe resumes
  | lost passed => exact .lost (List.forall_mem_cons.mpr ⟨misses, passed⟩)

theorem Handed.returned {a : ActionId} {cb : Callback}
    (stacked : ∃ new, tasks = new ++ rest ∧ Fronts C D new ∧ Enclosed new) :
    Handed C D (.returned a cb :: rest) tasks := by
  obtain ⟨new, rfl, own, enclosed⟩ := stacked
  exact .taken [] new rfl (by simp) (fun _ => own) (.inr enclosed) nofun

theorem Leads.unchanged : Leads C D t rest rest :=
  .goes [] trivial (.inr trivial)

theorem Leads.fronts (leads : Leads C D t rest tasks) (waits : ∀ {x}, D x → C x)
    (below : ∀ x ∈ rest, D x) : Fronts C D tasks := by
  cases leads with
  | goes new own safe => exact own.append waits below
  | handed fails handed =>
      cases handed with
      | taken missed new split passed own safe resumes =>
          subst split
          obtain ⟨_, later⟩ := List.forall_mem_append.mp below
          obtain ⟨taker, deeper⟩ := List.forall_mem_cons.mp later
          exact (own (waits taker)).append waits deeper
      | lost passed => trivial

theorem Leads.all (leads : Leads C C t rest tasks) (code : ∀ x ∈ rest, C x) : ∀ x ∈ tasks, C x :=
  fronts_self.mp (leads.fronts id code)

theorem Leads.above (leads : Leads C D t rest tasks) (safe : t.mayFail = false) :
    ∃ new, tasks = new ++ rest := by
  cases leads with
  | goes new own safe => exact ⟨new, rfl⟩
  | handed fails handed => exact absurd fails (by simp [safe])

theorem Leads.enclosed {above foot : List (Task ε Ω σ)} (leads : Leads C C t (above ++ foot) tasks)
    (enclosed : Enclosed (t :: above)) (code : ∀ x ∈ above, C x) :
    ∃ above', tasks = above' ++ foot ∧ Enclosed above' ∧ ∀ x ∈ above', C x := by
  cases leads with
  | goes new own safe =>
      refine ⟨new ++ above, (List.append_assoc ..).symm, ?_,
        List.forall_mem_append.mpr ⟨fronts_self.mp own, code⟩⟩
      rcases safe with fails | apart
      · exact enclosed.2.append_inside (enclosed.1 fails) new
      · exact enclosed.2.append apart
  | handed fails handed =>
      obtain ⟨a, cb, inside⟩ := enclosed.1 fails
      cases handed with
      | @taken missed new below taker split passed own safe resumes =>
          -- the task that takes the end is not below the callback's end
          obtain ⟨more, rfl, rfl⟩ : ∃ more, above = missed ++ taker :: more ∧
              below = more ++ foot := by
            rcases List.append_eq_append_iff.mp split with ⟨more, rfl, _⟩ | ⟨more, rfl, behind⟩
            · cases passed _ (List.mem_append_left more inside)
            · cases more with
              | nil =>
                  rw [List.append_nil] at inside
                  cases passed _ inside
              | cons s more =>
                  obtain ⟨rfl, rfl⟩ := List.cons.inj behind
                  exact ⟨more, rfl, rfl⟩
          have deeper : Enclosed (taker :: more) := enclosed.2.suffix
          obtain ⟨_, later⟩ := List.forall_mem_append.mp code
          obtain ⟨head, tail⟩ := List.forall_mem_cons.mp later
          refine ⟨new ++ more, (List.append_assoc ..).symm, ?_,
            List.forall_mem_append.mpr ⟨fronts_self.mp (own head), tail⟩⟩
          rcases safe with fails | apart
          · exact deeper.2.append_inside (deeper.1 fails) new
          · exact deeper.2.append apart
      | lost passed => cases passed _ (List.mem_append_left foot inside)

end Fronts

namespace Machine

variable {h : Host ε Ω σ} {m : Machine ε Ω σ} {rest : List (Task ε Ω σ)}

/-- New tasks stand above the rest, and no failure of theirs gets out. -/
abbrev Stacks (C D : Task ε Ω σ → Prop) (rest tasks : List (Task ε Ω σ)) : Prop :=
  ∃ new, tasks = new ++ rest ∧ Fronts C D new ∧ Enclosed new

theorem stacks_nothing : Stacks C D rest rest := ⟨[], rfl, trivial, trivial⟩

theorem leads_of_stacks {t : Task ε Ω σ} {tasks : List (Task ε Ω σ)}
    (stacked : Stacks C D rest tasks) : Leads C D t rest tasks := by
  obtain ⟨new, rfl, own, enclosed⟩ := stacked
  exact .goes new own (.inr enclosed)

variable (passes : Task.Passes W C D)
include passes

theorem fronts_free {new : List (Task ε Ω σ)} (free : ∀ x ∈ new, x.isFree = true) :
    Fronts C D new := .of_all passes.waits fun x member => passes.free (free x member)

theorem stacks_free (new : List (Task ε Ω σ))
    (free : ∀ x ∈ new, x.isFree = true ∧ x.mayFail = false) : Stacks C D rest (new ++ rest) :=
  ⟨new, rfl, fronts_free passes fun x member => (free x member).1,
    .of_steady fun x member => (free x member).2⟩

theorem stacks_served (a : ActionId) (d : Deferred) : Stacks C D rest (.serve a d :: rest) :=
  stacks_free passes [.serve a d] (by simp [Task.isFree, Task.mayFail])

theorem stacks_called {a : ActionId} {cb : Callback} (routine : C (.run (h.routine a cb))) :
    Stacks C D rest (.run (h.routine a cb) :: .returned a cb :: rest) :=
  ⟨[.run _, .returned a cb], rfl, ⟨routine, by simpa using passes.free rfl⟩,
    by simp [Enclosed, Task.mayFail]⟩

theorem stacks_returnWell (routines : ∀ a cb, C (.run (h.routine a cb))) (a : ActionId)
    (cb : Callback) : Stacks C D rest (m.returnWell h a rest cb).agenda := by
  cases cb with
  | begin => exact stacks_nothing
  | finish interrupted => exact stacks_nothing
  | process =>
      simp only [returnWell]
      split
      · exact stacks_called passes (routines a .proceed)
      · exact stacks_nothing
  | proceed =>
      simp only [returnWell]
      split
      · exact stacks_served passes a _
      · exact stacks_nothing

theorem stacks_returnFailed (a : ActionId) (f : Failure) (cb : Callback) :
    Stacks C D rest (m.returnFailed h a rest f cb).agenda := by
  cases cb with
  | finish interrupted => exact stacks_nothing
  | _ =>
      simp only [returnFailed]
      split
      · exact stacks_served passes a _
      · exact stacks_nothing

theorem handed_unwind (f : Failure) (rest : List (Task ε Ω σ)) :
    ∀ m : Machine ε Ω σ, Handed C D rest (m.unwind h f rest).agenda := by
  induction rest with
  | nil => exact fun m => .lost (by simp)
  | cons t rest ih =>
      intro m
      cases t with
      | caught next =>
          exact .taken [] [.run (next (.error f))] rfl (by simp)
            (fun own => ⟨passes.caught own _, by simp⟩) (.inl rfl)
            fun _ same => ⟨.error f, by cases same; rfl⟩
      | returned a cb => exact .returned (stacks_returnFailed passes a f cb)
      | letGo as => exact (ih _).pass rfl
      | run r => exact (ih m).pass rfl
      | bound next => exact (ih m).pass rfl
      | start a restart => exact (ih m).pass rfl
      | launch a => exact (ih m).pass rfl
      | succeed a late => exact (ih m).pass rfl
      | invoke a d => exact (ih m).pass rfl
      | serve a d => exact (ih m).pass rfl
      | drain a => exact (ih m).pass rfl
      | turn a => exact (ih m).pass rfl

theorem leads_finishRoutine (routines : ∀ a cb, C (.run (h.routine a cb))) (o : Except Fault Unit)
    {r : Routine ε Ω σ} : Leads C D (.run r) rest (m.finishRoutine h o rest).agenda := by
  cases rest with
  | nil => exact .unchanged
  | cons t below =>
      cases t with
      | bound next =>
          exact .handed rfl (.taken [] [.run (next o)] rfl (by simp)
            (fun own => ⟨passes.bound own o, by simp⟩) (.inl rfl) nofun)
      | caught next =>
          refine .handed rfl (.taken [] [.run (next (o.mapError Failure.fault))] rfl (by simp)
            (fun own => ⟨passes.caught own _, by simp⟩) (.inl rfl) ?_)
          exact fun _ same => ⟨_, by cases same; rfl⟩
      | returned a cb =>
          refine .handed rfl (.returned ?_)
          cases o with
          | ok _ => exact stacks_returnWell passes routines a cb
          | error f => exact stacks_returnFailed passes a (.fault f) cb
      | _ => exact .unchanged

theorem leads_grant {q : Request} {next : Bool → Routine ε Ω σ}
    (answers : ∀ b, D (.run (next b))) :
    Leads C D (.run (.ask q next)) rest (m.grant h next rest q).agenda := by
  have above : ∀ (answer : Bool) (new : List (Task ε Ω σ)), (∀ x ∈ new, x.isFree = true) →
      Leads C D (.run (.ask q next)) rest (new ++ .run (next answer) :: rest) := by
    intro answer new free
    have fronts : Fronts C D (new ++ [.run (next answer)]) :=
      (fronts_free passes free).append passes.waits (by simpa using answers answer)
    have leads : Leads C D (.run (.ask q next)) rest ((new ++ [.run (next answer)]) ++ rest) :=
      .goes _ fronts (.inl rfl)
    rwa [List.append_assoc] at leads
  have each : ∀ (as : List ActionId) (task : ActionId → Task ε Ω σ),
      (∀ a, (task a).isFree = true) →
        Leads C D (.run (.ask q next)) rest
          (as.map task ++ .letGo as :: .run (next true) :: rest) := by
    intro as task free
    rw [List.append_cons]
    refine above true _ (List.forall_mem_append.mpr ⟨fun x member => ?_, by simp [Task.isFree]⟩)
    obtain ⟨a, _, rfl⟩ := List.mem_map.mp member
    exact free a
  cases q with
  | start a restart =>
      simp only [grant]
      split
      · exact above false [] (by simp)
      · exact above true [.start a restart, .letGo [a]] (by simp [Task.isFree])
  | stop a =>
      simp only [grant]
      split
      · exact above true [.invoke a (.finish true), .letGo [a]] (by simp [Task.isFree])
      · exact above false [] (by simp)
  | stopAll => exact each _ (fun a => .invoke a (.finish true)) fun _ => rfl
  | tick => exact each _ .turn fun _ => rfl
  | poll =>
      simp only [grant, pollTriggers, todo]
      refine above true _ fun x member => ?_
      obtain ⟨b, _, task⟩ := List.mem_flatMap.mp member
      simp only [List.mem_cons, List.not_mem_nil, or_false] at task
      rcases task with rfl | rfl <;> rfl
  | bind target restart => exact above true [] (by simp)
  | unbind trigger => exact above _ [] (by simp)

theorem stacks_seize (a : ActionId) (ds : List DeviceId) :
    Stacks C D rest (m.seize a ds rest).agenda := by
  have whole : (m.seize a ds rest).agenda = afterSeizing m.table a (m.table.holders a ds) ++
      .letGo (m.table.holders a ds) :: rest := rfl
  rw [whole, List.append_cons]
  refine stacks_free passes _ fun x member => ?_
  simp only [afterSeizing, List.mem_append, List.mem_map, List.mem_singleton] at member
  rcases member with (⟨o, _, rfl⟩ | rfl) | rfl <;> exact ⟨rfl, rfl⟩

theorem stacks_serve (routines : ∀ a cb, C (.run (h.routine a cb))) (a : ActionId) (d : Deferred) :
    Stacks C D rest (m.serve h a rest d).agenda := by
  cases d with
  | begin => exact stacks_called passes (routines a .begin)
  | finish interrupted => exact stacks_called passes (routines a (.finish interrupted))
  | process =>
      simp only [serve]
      split
      · exact stacks_called passes (routines a .process)
      · exact stacks_nothing
  | handOver next ticket =>
      simp only [serve]
      split
      · exact stacks_free passes [.invoke next .begin, .letGo [next]]
          (by simp [Task.isFree, Task.mayFail])
      · exact stacks_nothing

/-- What a step makes of the agenda, if what the code in front has is passed on. -/
theorem step_leads {t : Task ε Ω σ} (routines : ∀ a cb, C (.run (h.routine a cb)))
    (world : W m.world) (front : m.agenda = t :: rest) (own : C t)
    (answers : ∀ e next, t = .run (.act e next) →
      C (.run (h.perform e m.table m.world).2) ∧ D (.bound next)) :
    Leads C D t rest (m.step h).agenda := by
  have works : ∀ new : List (Task ε Ω σ), (∀ x ∈ new, x.isFree = true) →
      (t.mayFail = true ∨ ∀ x ∈ new, x.mayFail = false) → Leads C D t rest (new ++ rest) :=
    fun new free safe => .goes new (fronts_free passes free) (safe.imp_right .of_steady)
  have goes : ∀ {x : Task ε Ω σ} (more : List (Task ε Ω σ)), t.mayFail = true → C x →
      (∀ y ∈ more, D y) → Leads C D t rest (x :: more ++ rest) :=
    fun {x} more fails head tail => .goes (x :: more) ⟨head, tail⟩ (.inl fails)
  cases t with
  | run r =>
      simp only [step, front]
      cases r with
      | done o => exact leads_finishRoutine passes routines o
      | panic p => exact .handed rfl (handed_unwind passes (.panic p) rest m)
      | ask q next => exact leads_grant passes (passes.ask own)
      | act e next =>
          obtain ⟨answer, waits⟩ := answers e next rfl
          exact goes [.bound next] rfl answer (by simpa using waits)
      | look next => exact goes [] rfl (passes.look own _ _ _ world) (by simp)
      | note change next => exact goes [] rfl (passes.note own) (by simp)
      | attempt body next =>
          obtain ⟨head, waits⟩ := passes.attempt own
          exact goes [.caught next] rfl head (by simpa using waits)
  | bound next =>
      simp only [step, front]
      exact goes [] rfl (passes.bound own (.ok ())) (by simp)
  | caught next =>
      simp only [step, front]
      exact goes [] rfl (passes.caught own (.ok ())) (by simp)
  | returned a cb =>
      simp only [step, front]
      exact .unchanged
  | start a restart =>
      simp only [step, front]
      split
      · split
        · exact works [.invoke a (.finish true), .launch a] (by simp [Task.isFree]) (.inl rfl)
        · exact .unchanged
      · exact works [.launch a] (by simp [Task.isFree]) (.inl rfl)
  | launch a =>
      simp only [step, front, launch]
      split
      · exact leads_of_stacks (stacks_seize passes a _)
      · split
        · exact .handed rfl (handed_unwind passes _ rest _)
        · exact leads_of_stacks (stacks_seize passes a _)
  | succeed a late =>
      simp only [step, front]
      split
      · exact works [.invoke a .begin] (by simp [Task.isFree]) (.inr (by simp [Task.mayFail]))
      · exact .unchanged
  | invoke a d =>
      simp only [step, front]
      split
      · exact .unchanged
      · exact works [.serve a d, .drain a] (by simp [Task.isFree]) (.inr (by simp [Task.mayFail]))
  | serve a d =>
      simp only [step, front]
      exact leads_of_stacks (stacks_serve passes routines a d)
  | drain a =>
      simp only [step, front]
      split
      · exact .unchanged
      · exact works [.serve a _, .drain a] (by simp [Task.isFree]) (.inr (by simp [Task.mayFail]))
  | turn a =>
      simp only [step, front]
      split
      · exact works [.invoke a .process] (by simp [Task.isFree]) (.inr (by simp [Task.mayFail]))
      · exact .unchanged
  | letGo as =>
      simp only [step, front]
      exact .unchanged

end Machine

/-- What a step makes of the agenda, the code on it having a property that all of it inherits. -/
theorem Routine.Inherits.leads {h : Host ε Ω σ} {m : Machine ε Ω σ} {t : Task ε Ω σ}
    {rest : List (Task ε Ω σ)} (inherits : Routine.Inherits W R)
    (routines : ∀ a cb, R (h.routine a cb)) (world : W m.world) (front : m.agenda = t :: rest)
    (own : t.Holds R)
    (answers : ∀ e next, t = .run (.act e next) → R (h.perform e m.table m.world).2) :
    Leads (Task.Holds R) (Task.Holds R) t rest (m.step h).agenda := by
  refine Machine.step_leads inherits.passes routines world front own fun e next same => ?_
  refine ⟨answers e next same, ?_⟩
  subst same
  exact inherits.act own

/-! ### Attempts hold -/

/-- What failures do not get past: the end of an agenda, or an attempt. -/
inductive Catches : List (Task ε Ω σ) → Prop
  | bottom : Catches []
  | attempt (next : Except Failure Unit → Routine ε Ω σ) (below : List (Task ε Ω σ)) :
      Catches (.caught next :: below)

/-- After a step above what catches failures: permitted tasks above it, or the attempt goes on. -/
inductive Lands (asks : Request → Prop) (acts : ε → Prop) (foot : List (Task ε Ω σ)) :
    List (Task ε Ω σ) → Prop
  | above (tasks : List (Task ε Ω σ)) (code : Machine.Permitted asks acts tasks) :
      Lands asks acts foot (tasks ++ foot)
  | on {next : Except Failure Unit → Routine ε Ω σ} {below : List (Task ε Ω σ)}
      (caught : foot = .caught next :: below) (o : Except Failure Unit) :
      Lands asks acts foot (.run (next o) :: below)

theorem Leads.lands {t : Task ε Ω σ} {above foot tasks : List (Task ε Ω σ)}
    (leads : Leads (Task.Holds (Routine.Uses asks acts)) (Task.Holds (Routine.Uses asks acts)) t
      (above ++ foot) tasks)
    (catches : Catches foot) (code : Machine.Permitted asks acts above) :
    Lands asks acts foot tasks := by
  have within : ∀ new more : List (Task ε Ω σ),
      Fronts (Task.Holds (Routine.Uses asks acts)) (Task.Holds (Routine.Uses asks acts)) new →
        Machine.Permitted asks acts more → Lands asks acts foot (new ++ (more ++ foot)) := by
    intro new more own kept
    rw [← List.append_assoc]
    exact .above _ (Machine.permitted_append.mpr
      ⟨fun x member => x.holds_uses.mp (fronts_self.mp own x member), kept⟩)
  cases leads with
  | goes new own safe => exact within new above own code
  | handed fails handed =>
      cases handed with
      | @taken missed new below taker split passed own safe resumes =>
          rcases List.append_eq_append_iff.mp split with ⟨more, rfl, behind⟩ | ⟨more, rfl, behind⟩
          · cases catches with
            | bottom => simp at behind
            | attempt next below' =>
                cases more with
                | nil =>
                    obtain ⟨rfl, rfl⟩ := List.cons.inj behind
                    obtain ⟨o, rfl⟩ := resumes next rfl
                    exact .on rfl o
                | cons s more =>
                    obtain ⟨rfl, _⟩ := List.cons.inj behind
                    cases passed _ (List.mem_append_right _ (List.mem_cons_self ..))
          · cases more with
            | nil =>
                rw [List.nil_append] at behind
                cases catches with
                | bottom => cases behind
                | attempt next below' =>
                    obtain ⟨rfl, rfl⟩ := List.cons.inj behind
                    obtain ⟨o, rfl⟩ := resumes next rfl
                    exact .on rfl o
            | cons s more =>
                obtain ⟨rfl, rfl⟩ := List.cons.inj behind
                obtain ⟨_, later⟩ := Machine.permitted_append.mp code
                obtain ⟨head, tail⟩ := Machine.permitted_cons.mp later
                exact within new more (own (taker.holds_uses.mpr head)) tail
      | lost passed =>
          cases catches with
          | bottom => exact .above [] fun x none => by cases none
          | attempt next below =>
              cases passed _ (List.mem_append_right above (List.mem_cons_self ..))

/-- A step leaves permitted code above what catches failures, as long as its effect is answered by
such code. -/
theorem Machine.lands_step {h : Host ε Ω σ} {m : Machine ε Ω σ} {above foot : List (Task ε Ω σ)}
    (routines : ∀ a cb, (h.routine a cb).Uses asks acts) (catches : Catches foot)
    (whole : m.agenda = above ++ foot) (some : above ≠ []) (code : Permitted asks acts above)
    (answers : ∀ e next rest, m.agenda = .run (.act e next) :: rest →
      (h.perform e m.table m.world).2.Uses asks acts) :
    Lands asks acts foot (m.step h).agenda := by
  obtain ⟨t, rest, rfl⟩ := List.exists_cons_of_ne_nil some
  obtain ⟨head, tail⟩ := permitted_cons.mp code
  have leads := Routine.inherits_uses.leads (h := h) routines trivial whole
    (t.holds_uses.mpr head) fun e next same => answers e next _ (same ▸ whole)
  exact leads.lands catches tail

theorem Machine.leads_step (h : Host ε Ω σ) {m : Machine ε Ω σ} {t : Task ε Ω σ}
    {rest : List (Task ε Ω σ)} (front : m.agenda = t :: rest) :
    Leads (fun _ => True) (fun _ => True) t rest (m.step h).agenda :=
  step_leads Task.passes_all (fun _ _ => trivial) trivial front trivial
    fun _ _ _ => ⟨trivial, trivial⟩

theorem Machine.enclosed_step (h : Host ε Ω σ) {m : Machine ε Ω σ} {above foot : List (Task ε Ω σ)}
    (whole : m.agenda = above ++ foot) (some : above ≠ []) (enclosed : Enclosed above) :
    ∃ above', (m.step h).agenda = above' ++ foot ∧ Enclosed above' := by
  obtain ⟨t, rest, rfl⟩ := List.exists_cons_of_ne_nil some
  obtain ⟨above', agenda, stays, _⟩ := (leads_step h whole).enclosed enclosed fun _ _ => trivial
  exact ⟨above', agenda, stays⟩

end RobotControl
