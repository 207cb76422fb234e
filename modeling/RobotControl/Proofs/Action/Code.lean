import RobotControl.Action.Agenda
import Mathlib.Data.List.Basic

/-!
# Code with few means

`Routine.Uses` restricts what a piece of code may ask the manager for and which effects it may
have.  If the callbacks of an application and what its effects run keep to this, and the effect in
front keeps a property of the world, then a step of the manager keeps both
(`Machine.Obeys.step`).
-/
set_option autoImplicit false

namespace RobotControl

variable {ε Ω σ : Type} {asks : Request → Prop} {acts : ε → Prop} {W : Ω → Prop}

/-- Code that asks only for what is allowed and has only allowed effects, whatever the answers. -/
def Routine.Uses (asks : Request → Prop) (acts : ε → Prop) : Routine ε Ω σ → Prop
  | .done _ => True
  | .panic _ => True
  | .ask r next => asks r ∧ ∀ b, (next b).Uses asks acts
  | .act e next => acts e ∧ ∀ o, (next o).Uses asks acts
  | .look next => ∀ t w s, (next t w s).Uses asks acts
  | .note _ next => next.Uses asks acts
  | .attempt body next => body.Uses asks acts ∧ ∀ o, (next o).Uses asks acts

theorem Routine.uses_all (r : Routine ε Ω σ) : r.Uses (fun _ => True) fun _ => True := by
  induction r with
  | done o => trivial
  | panic p => trivial
  | ask r next ih => exact ⟨trivial, ih⟩
  | act e next ih => exact ⟨trivial, ih⟩
  | look next ih => exact ih
  | note change next ih => exact ih
  | attempt body next ihBody ih => exact ⟨ihBody, ih⟩

theorem Routine.uses_map {ε' : Type} {acts' : ε' → Prop} {f : ε → ε'}
    (renamed : ∀ e, acts e → acts' (f e)) {r : Routine ε Ω σ} (uses : r.Uses asks acts) :
    (r.map f).Uses asks acts' := by
  induction r with
  | done o => trivial
  | panic p => trivial
  | ask r next ih => exact ⟨uses.1, fun b => ih b (uses.2 b)⟩
  | act e next ih => exact ⟨renamed e uses.1, fun o => ih o (uses.2 o)⟩
  | look next ih => exact fun t w s => ih t w s (uses t w s)
  | note change next ih => exact ih uses
  | attempt body next ihBody ih => exact ⟨ihBody uses.1, fun o => ih o (uses.2 o)⟩

def Task.Uses (asks : Request → Prop) (acts : ε → Prop) : Task ε Ω σ → Prop
  | .run r => r.Uses asks acts
  | .bound next => ∀ o, (next o).Uses asks acts
  | .caught next => ∀ o, (next o).Uses asks acts
  | _ => True

/-- An application that keeps to its means where the world is as it should be; its log and its
triggers leave it so. -/
structure Host.Keeps (h : Host ε Ω σ) (asks : Request → Prop) (acts : ε → Prop)
    (W : Ω → Prop) : Prop where
  routine : ∀ a cb, (h.routine a cb).Uses asks acts
  answer : ∀ e t w, acts e → W w → (h.perform e t w).2.Uses asks acts
  log : ∀ line w, W w → W (h.log line w)
  forget : ∀ own trigger w, W w → W (h.forget own trigger w)

namespace Machine

def Permitted (asks : Request → Prop) (acts : ε → Prop) (tasks : List (Task ε Ω σ)) : Prop :=
  ∀ x ∈ tasks, x.Uses asks acts

structure Obeys (asks : Request → Prop) (acts : ε → Prop) (W : Ω → Prop)
    (m : Machine ε Ω σ) : Prop where
  world : W m.world
  code : Permitted asks acts m.agenda

theorem permitted_cons {t : Task ε Ω σ} {rest : List (Task ε Ω σ)} :
    Permitted asks acts (t :: rest) ↔ t.Uses asks acts ∧ Permitted asks acts rest :=
  List.forall_mem_cons

theorem permitted_append {new rest : List (Task ε Ω σ)} :
    Permitted asks acts (new ++ rest) ↔ Permitted asks acts new ∧ Permitted asks acts rest :=
  List.forall_mem_append

theorem permitted_all (tasks : List (Task ε Ω σ)) :
    Permitted (fun _ => True) (fun _ => True) tasks := by
  intro x _
  cases x with
  | run r => exact r.uses_all
  | bound next => exact fun o => (next o).uses_all
  | caught next => exact fun o => (next o).uses_all
  | _ => trivial

variable {h : Host ε Ω σ} {m : Machine ε Ω σ} {rest : List (Task ε Ω σ)}

theorem work_keeps {P : Machine ε Ω σ → Prop} (keeps : ∀ m, P m → P (m.step h)) (n : Nat)
    (own : P m) : P (m.work h n) := by
  induction n generalizing m with
  | zero => exact own
  | succ n ih =>
      unfold work
      split
      · exact own
      · exact ih (keeps m own)

namespace Obeys

theorem todo (world : W m.world) (code : Permitted asks acts rest) :
    (m.todo rest).Obeys asks acts W := ⟨world, code⟩

theorem returnWell (keeps : h.Keeps asks acts W) (world : W m.world)
    (code : Permitted asks acts rest) (a : ActionId) (cb : Callback) :
    (m.returnWell h a rest cb).Obeys asks acts W := by
  cases cb with
  | begin => exact ⟨world, code⟩
  | finish _ => exact ⟨world, code⟩
  | process =>
      simp only [Machine.returnWell]
      split
      · exact ⟨world, permitted_cons.mpr ⟨keeps.routine _ _, permitted_cons.mpr ⟨trivial, code⟩⟩⟩
      · exact ⟨world, code⟩
  | proceed =>
      simp only [Machine.returnWell]
      split
      · exact ⟨world, permitted_cons.mpr ⟨trivial, code⟩⟩
      · exact ⟨world, code⟩

theorem returnFailed (keeps : h.Keeps asks acts W) (world : W m.world)
    (code : Permitted asks acts rest) (a : ActionId) (f : Failure) (cb : Callback) :
    (m.returnFailed h a rest f cb).Obeys asks acts W := by
  have logged : W (h.log (cb.failure (h.name m.own a) f) m.world) := keeps.log _ _ world
  have served : ∀ table, Machine.Obeys asks acts W
      { m with
        table := table
        world := h.log (cb.failure (h.name m.own a) f) m.world
        agenda := .serve a (.finish true) :: rest } := fun table =>
    ⟨logged, permitted_cons.mpr ⟨trivial, code⟩⟩
  cases cb with
  | finish _ => exact ⟨logged, code⟩
  | begin =>
      simp only [Machine.returnFailed]
      split
      · exact served _
      · exact ⟨logged, code⟩
  | process =>
      simp only [Machine.returnFailed]
      split
      · exact served _
      · exact ⟨logged, code⟩
  | proceed =>
      simp only [Machine.returnFailed]
      split
      · exact served _
      · exact ⟨logged, code⟩

theorem unwind (keeps : h.Keeps asks acts W) (f : Failure) (tasks : List (Task ε Ω σ)) :
    ∀ m : Machine ε Ω σ, W m.world → Permitted asks acts tasks →
      (m.unwind h f tasks).Obeys asks acts W := by
  induction tasks with
  | nil => exact fun m world _ => ⟨world, fun x none => by cases none⟩
  | cons t below ih =>
      intro m world code
      obtain ⟨head, tail⟩ := permitted_cons.mp code
      cases t with
      | caught next => exact ⟨world, permitted_cons.mpr ⟨head _, tail⟩⟩
      | returned a cb => exact returnFailed keeps world tail a f cb
      | letGo as => exact ih _ world tail
      | run r => exact ih m world tail
      | bound next => exact ih m world tail
      | start a restart => exact ih m world tail
      | launch a => exact ih m world tail
      | succeed a late => exact ih m world tail
      | invoke a d => exact ih m world tail
      | serve a d => exact ih m world tail
      | drain a => exact ih m world tail
      | turn a => exact ih m world tail

theorem finishRoutine (keeps : h.Keeps asks acts W) (world : W m.world)
    (code : Permitted asks acts rest) (o : Except Fault Unit) :
    (m.finishRoutine h o rest).Obeys asks acts W := by
  cases rest with
  | nil => exact ⟨world, code⟩
  | cons t below =>
      obtain ⟨head, tail⟩ := permitted_cons.mp code
      cases t with
      | bound next => exact ⟨world, permitted_cons.mpr ⟨head _, tail⟩⟩
      | caught next => exact ⟨world, permitted_cons.mpr ⟨head _, tail⟩⟩
      | returned a cb =>
          cases o with
          | ok _ => exact returnWell keeps world tail a cb
          | error f => exact returnFailed keeps world tail a _ cb
      | run _ => exact ⟨world, code⟩
      | start _ _ => exact ⟨world, code⟩
      | launch _ => exact ⟨world, code⟩
      | succeed _ _ => exact ⟨world, code⟩
      | invoke _ _ => exact ⟨world, code⟩
      | serve _ _ => exact ⟨world, code⟩
      | drain _ => exact ⟨world, code⟩
      | turn _ => exact ⟨world, code⟩
      | letGo _ => exact ⟨world, code⟩

theorem world_pollOne (keeps : h.Keeps asks acts W) (world : W m.world) (fired : List Binding)
    (b : Binding) : W (m.pollOne h fired b).1.world := by
  unfold pollOne
  split
  · dsimp only
    split
    · exact world
    · exact keeps.log _ _ world
  · exact world

theorem world_pollAll (keeps : h.Keeps asks acts W) (bs : List Binding) :
    ∀ (m : Machine ε Ω σ) (fired : List Binding), W m.world → W (m.pollAll h fired bs).1.world := by
  induction bs with
  | nil => exact fun _ _ world => world
  | cons b more ih => exact fun m fired world => ih _ _ (world_pollOne keeps world fired b)

theorem pollTriggers (keeps : h.Keeps asks acts W) (world : W m.world)
    (code : Permitted asks acts rest) : (m.pollTriggers h rest).Obeys asks acts W := by
  have forgotten : ∀ (bs : List Binding) (w : Ω), W w →
      W (bs.foldl (fun w b => h.forget m.own b.trigger w) w) := by
    intro bs
    induction bs with
    | nil => exact fun _ kept => kept
    | cons b more ih => exact fun w kept => ih _ (keeps.forget _ _ w kept)
  refine ⟨world_pollAll keeps _ _ _ (forgotten _ _ world), permitted_append.mpr ⟨?_, code⟩⟩
  intro x member
  obtain ⟨b, _, task⟩ := List.mem_flatMap.mp member
  simp only [List.mem_cons, List.not_mem_nil, or_false] at task
  rcases task with rfl | rfl <;> trivial

theorem grant (keeps : h.Keeps asks acts W) (world : W m.world)
    (code : Permitted asks acts rest) (r : Request) {next : Bool → Routine ε Ω σ}
    (answers : ∀ b, (next b).Uses asks acts) :
    (m.grant h next rest r).Obeys asks acts W := by
  have going : ∀ b, Permitted asks acts (.run (next b) :: rest) := fun b =>
    permitted_cons.mpr ⟨answers b, code⟩
  have working : ∀ (as : List ActionId) (tasks : List (Task ε Ω σ)),
      (∀ x ∈ tasks, x.Uses asks acts) →
        Permitted asks acts (tasks ++ .letGo as :: .run (next true) :: rest) := fun as tasks own =>
    permitted_append.mpr ⟨own, permitted_cons.mpr ⟨trivial, going true⟩⟩
  cases r with
  | start a restart =>
      simp only [Machine.grant]
      split
      · exact ⟨world, going false⟩
      · exact ⟨world, working [a] _ fun x member => List.mem_singleton.mp member ▸ trivial⟩
  | stop a =>
      simp only [Machine.grant]
      split
      · exact ⟨world, working [a] [.invoke a (.finish true)]
          fun x member => List.mem_singleton.mp member ▸ trivial⟩
      · exact ⟨world, going false⟩
  | stopAll =>
      refine ⟨world, working _ _ fun x member => ?_⟩
      obtain ⟨a, _, rfl⟩ := List.mem_map.mp member
      trivial
  | tick =>
      refine ⟨world, working _ _ fun x member => ?_⟩
      obtain ⟨a, _, rfl⟩ := List.mem_map.mp member
      trivial
  | poll => exact pollTriggers keeps world (going true)
  | bind target restart => exact ⟨world, going true⟩
  | unbind trigger =>
      refine ⟨?_, going _⟩
      simp only [Machine.grant]
      split
      · exact keeps.forget _ _ _ world
      · exact world

theorem seize (world : W m.world) (code : Permitted asks acts rest) (a : ActionId)
    (ds : List DeviceId) : (m.seize a ds rest).Obeys asks acts W := by
  refine ⟨world, permitted_append.mpr ⟨fun x member => ?_, permitted_cons.mpr ⟨trivial, code⟩⟩⟩
  rcases List.mem_append.mp member with early | last
  · obtain ⟨o, _, rfl⟩ := List.mem_map.mp early
    trivial
  · rw [List.mem_singleton.mp last]
    trivial

theorem launch (keeps : h.Keeps asks acts W) (world : W m.world)
    (code : Permitted asks acts rest) (a : ActionId) :
    (m.launch h a rest).Obeys asks acts W := by
  simp only [Machine.launch]
  split
  · exact seize world code a _
  · split
    · exact unwind keeps _ rest _ world code
    · apply seize _ code a
      exact world

theorem serve (keeps : h.Keeps asks acts W) (world : W m.world)
    (code : Permitted asks acts rest) (a : ActionId) (d : Deferred) :
    (m.serve h a rest d).Obeys asks acts W := by
  have calling : ∀ cb, Permitted asks acts (.run (h.routine a cb) :: .returned a cb :: rest) :=
    fun cb => permitted_cons.mpr ⟨keeps.routine a cb, permitted_cons.mpr ⟨trivial, code⟩⟩
  cases d with
  | begin => exact ⟨world, calling _⟩
  | finish interrupted => exact ⟨world, calling _⟩
  | process =>
      simp only [Machine.serve]
      split
      · exact ⟨world, calling _⟩
      · exact ⟨world, code⟩
  | handOver next ticket =>
      simp only [Machine.serve]
      split
      · exact ⟨world, permitted_cons.mpr ⟨trivial, permitted_cons.mpr ⟨trivial, code⟩⟩⟩
      · exact ⟨world, code⟩

theorem runRoutine (keeps : h.Keeps asks acts W) (world : W m.world)
    (code : Permitted asks acts rest) {r : Routine ε Ω σ} (uses : r.Uses asks acts)
    (performed : ∀ e next, r = .act e next → acts e → W (h.perform e m.table m.world).1) :
    (m.runRoutine h rest r).Obeys asks acts W := by
  cases r with
  | done o => exact finishRoutine keeps world code o
  | panic p => exact unwind keeps _ rest m world code
  | ask r next => exact grant keeps world code r uses.2
  | act e next =>
      exact ⟨performed e next rfl uses.1, permitted_cons.mpr
        ⟨keeps.answer _ _ _ uses.1 world, permitted_cons.mpr ⟨uses.2, code⟩⟩⟩
  | look next => exact ⟨world, permitted_cons.mpr ⟨uses _ _ _, code⟩⟩
  | note change next => exact ⟨world, permitted_cons.mpr ⟨uses, code⟩⟩
  | attempt body next =>
      exact ⟨world, permitted_cons.mpr ⟨uses.1, permitted_cons.mpr ⟨uses.2, code⟩⟩⟩

/-- A step keeps the world and the code as they should be, if the effect in front does. -/
theorem step (keeps : h.Keeps asks acts W) (obeys : m.Obeys asks acts W)
    (performed : ∀ e next rest, m.agenda = .run (.act e next) :: rest → acts e →
      W (h.perform e m.table m.world).1) : (m.step h).Obeys asks acts W := by
  have world := obeys.world
  have code := obeys.code
  cases agenda : m.agenda with
  | nil =>
      simp only [Machine.step, agenda]
      exact obeys
  | cons t rest =>
      rw [agenda] at code
      obtain ⟨head, tail⟩ := permitted_cons.mp code
      have plain : ∀ (table : ActionTable) (new : List (Task ε Ω σ)),
          (∀ x ∈ new, x.Uses asks acts) → Machine.Obeys asks acts W
            { m with table := table, agenda := new ++ rest } := fun table new own =>
        ⟨world, permitted_append.mpr ⟨own, tail⟩⟩
      cases t with
      | run r =>
          simp only [Machine.step, agenda]
          refine runRoutine keeps world tail head fun e next same => performed e next rest ?_
          rw [agenda, same]
      | launch a => simpa only [Machine.step, agenda] using launch keeps world tail a
      | serve a d => simpa only [Machine.step, agenda] using serve keeps world tail a d
      | bound next =>
          simp only [Machine.step, agenda]
          exact todo world (permitted_cons.mpr ⟨head _, tail⟩)
      | caught next =>
          simp only [Machine.step, agenda]
          exact todo world (permitted_cons.mpr ⟨head _, tail⟩)
      | returned a cb =>
          simp only [Machine.step, agenda]
          exact todo world tail
      | letGo as =>
          simp only [Machine.step, agenda]
          exact ⟨world, tail⟩
      | start a restart =>
          simp only [Machine.step, agenda]
          split
          · split
            · exact ⟨world, permitted_cons.mpr ⟨trivial, permitted_cons.mpr ⟨trivial, tail⟩⟩⟩
            · exact ⟨world, tail⟩
          · exact ⟨world, permitted_cons.mpr ⟨trivial, tail⟩⟩
      | succeed a late =>
          simp only [Machine.step, agenda]
          split
          · exact ⟨world, permitted_cons.mpr ⟨trivial, tail⟩⟩
          · exact ⟨world, tail⟩
      | invoke a d =>
          simp only [Machine.step, agenda]
          split
          · exact ⟨world, tail⟩
          · exact ⟨world, permitted_cons.mpr ⟨trivial, permitted_cons.mpr ⟨trivial, tail⟩⟩⟩
      | drain a =>
          simp only [Machine.step, agenda]
          split
          · exact ⟨world, tail⟩
          · exact ⟨world, permitted_cons.mpr ⟨trivial, permitted_cons.mpr ⟨trivial, tail⟩⟩⟩
      | turn a =>
          simp only [Machine.step, agenda]
          split
          · exact ⟨world, permitted_cons.mpr ⟨trivial, tail⟩⟩
          · exact ⟨world, tail⟩

end Obeys

theorem world_step (keeps : h.Keeps (fun _ => True) (fun _ => True) W) (world : W m.world)
    (performed : ∀ e next rest, m.agenda = .run (.act e next) :: rest →
      W (h.perform e m.table m.world).1) : W (m.step h).world :=
  (Obeys.step keeps ⟨world, permitted_all _⟩
    fun e next rest front _ => performed e next rest front).world

end Machine

end RobotControl
