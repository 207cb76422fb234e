import RobotControl.Proofs.Action.Attempt
import RobotControl.Proofs.Action.Running
import RobotControl.Proofs.Action.StopAll
import RobotControl.Proofs.Action.Ticks

/-!
# One tick

A tick gives every action that runs when it begins one turn, in the order of their starts
(`Ticking`).  Whatever the callbacks do, the turns to come stay on the agenda below them, nothing is
processed outside its turn, and a failure ends at the callback in which it happens.  A run that ends
in its own callback, because that failed or because there is no more to do, is finished there and
then: its last callback has returned before another action is processed (`Machine.Concludes`).
-/
set_option autoImplicit false

namespace RobotControl

variable {ε Ω σ : Type}

def Note.processed : Note → Option ActionId
  | .enters a .process => some a
  | _ => none

/-! ### A callback lasts until it is left -/

/-- Code of the application, which ends by being handed to the tasks below it. -/
def Task.speaks : Task ε Ω σ → Bool
  | .run _ | .bound _ | .caught _ => true
  | _ => false

/-- The callback is under way: its code stands directly above its end. -/
def Lasts (a : ActionId) (cb : Callback) (below tasks : List (Task ε Ω σ)) : Prop :=
  ∃ above t, tasks = above ++ t :: .returned a cb :: below ∧ t.speaks = true

namespace Lasts

variable {a : ActionId} {cb : Callback} {below tasks : List (Task ε Ω σ)}

theorem speaking (t : Task ε Ω σ) (speaks : t.speaks = true) :
    Lasts a cb below (t :: .returned a cb :: below) := ⟨[], t, rfl, speaks⟩

theorem append (lasts : Lasts a cb below tasks) (new : List (Task ε Ω σ)) :
    Lasts a cb below (new ++ tasks) := by
  obtain ⟨above, t, rfl, speaks⟩ := lasts
  exact ⟨new ++ above, t, (List.append_assoc ..).symm, speaks⟩

theorem mem_returned (lasts : Lasts a cb below tasks) : .returned a cb ∈ tasks := by
  obtain ⟨above, t, rfl, _⟩ := lasts
  simp

theorem cases_front (lasts : Lasts a cb below tasks) :
    (∃ t, tasks = t :: .returned a cb :: below ∧ t.speaks = true) ∨
      ∃ s rest, tasks = s :: rest ∧ Lasts a cb below rest := by
  obtain ⟨above, t, rfl, speaks⟩ := lasts
  cases above with
  | nil => exact .inl ⟨t, rfl, speaks⟩
  | cons s above => exact .inr ⟨s, _, rfl, above, t, rfl, speaks⟩

end Lasts

namespace Machine

variable {h : Host ε Ω σ} {m m' : Machine ε Ω σ} {past newer : List (Machine ε Ω σ)}

section Lasts

variable {a : ActionId} {cb : Callback} {below tasks : List (Task ε Ω σ)}

theorem lasts_of_stacks {C D : Task ε Ω σ → Prop} {rest : List (Task ε Ω σ)}
    (lasts : Lasts a cb below rest) (stacked : Stacks C D rest tasks) : Lasts a cb below tasks := by
  obtain ⟨new, rfl, _⟩ := stacked
  exact lasts.append new

theorem lasts_unwind (f : Failure) (lasts : Lasts a cb below tasks) (m : Machine ε Ω σ) :
    Lasts a cb below (m.unwind h f tasks).agenda ∨ handler tasks = some (a, cb) := by
  obtain ⟨above, t, rfl, speaks⟩ := lasts
  induction above generalizing m with
  | nil =>
      cases t with
      | run r => exact .inr rfl
      | bound next => exact .inr rfl
      | caught next => exact .inl (.speaking (.run (next (.error f))) rfl)
      | _ => cases speaks
  | cons s above ih =>
      have rest : Lasts a cb below (above ++ t :: .returned a cb :: below) :=
        ⟨above, t, rfl, speaks⟩
      cases s with
      | caught next => exact .inl (rest.append [.run (next (.error f))])
      | returned b other =>
          exact .inl (lasts_of_stacks rest (stacks_returnFailed Task.passes_all b f other))
      | letGo as => exact ih { m with table := m.table.letGo as }
      | _ => exact ih m

theorem lasts_finishRoutine (o : Except Fault Unit) (lasts : Lasts a cb below tasks) :
    Lasts a cb below (m.finishRoutine h o tasks).agenda := by
  rcases lasts.cases_front with ⟨t, rfl, speaks⟩ | ⟨s, rest, rfl, deeper⟩
  · cases t with
    | run r => exact lasts
    | bound next => exact .speaking (.run (next o)) rfl
    | caught next => exact .speaking (.run (next (o.mapError Failure.fault))) rfl
    | _ => cases speaks
  · cases s with
    | bound next => exact deeper.append [.run (next o)]
    | caught next => exact deeper.append [.run (next (o.mapError Failure.fault))]
    | returned b other =>
        cases o with
        | ok _ =>
            exact lasts_of_stacks deeper
              (stacks_returnWell Task.passes_all (fun _ _ => trivial) b other)
        | error f =>
            exact lasts_of_stacks deeper
              (stacks_returnFailed Task.passes_all b (.fault f) other)
    | _ => exact lasts

theorem speaks_step (h : Host ε Ω σ) {t : Task ε Ω σ} {rest : List (Task ε Ω σ)}
    (front : m.agenda = t :: rest) (speaks : t.speaks = true) :
    (∃ new s, (m.step h).agenda = new ++ s :: rest ∧ s.speaks = true) ∨
      (∃ o, t = .run (.done o)) ∨ ∃ p, t = .run (.panic p) := by
  cases t with
  | run r =>
      simp only [step, front]
      cases r with
      | done o => exact .inr (.inl ⟨o, rfl⟩)
      | panic p => exact .inr (.inr ⟨p, rfl⟩)
      | ask q next =>
          obtain ⟨tasks, answer, agenda, _⟩ := agenda_grant (h := h) (m := m) next rest q
          exact .inl ⟨tasks, .run (next answer), agenda, rfl⟩
      | act e next => exact .inl ⟨[.run _], .bound next, rfl, rfl⟩
      | look next => exact .inl ⟨[], .run _, rfl, rfl⟩
      | note change next => exact .inl ⟨[], .run next, rfl, rfl⟩
      | attempt body next => exact .inl ⟨[.run body], .caught next, rfl, rfl⟩
  | bound next =>
      simp only [step, front]
      exact .inl ⟨[], .run (next (.ok ())), rfl, rfl⟩
  | caught next =>
      simp only [step, front]
      exact .inl ⟨[], .run (next (.ok ())), rfl, rfl⟩
  | _ => cases speaks

theorem lasts_step_deeper {t : Task ε Ω σ} {rest : List (Task ε Ω σ)}
    (front : m.agenda = t :: rest) (lasts : Lasts a cb below rest) :
    Lasts a cb below (m.step h).agenda ∨ .leaves a cb true ∈ m.notes h := by
  have left : handler rest = some (a, cb) → .leaves a cb true ∈ fallen rest := fun caught => by
    simp [fallen, caught]
  by_cases speaks : t.speaks = true
  · rcases speaks_step h front speaks with ⟨new, s, agenda, _⟩ | ⟨o, rfl⟩ | ⟨p, rfl⟩
    · rw [agenda, List.append_cons]
      exact .inl (lasts.append _)
    · left
      simp only [step, front]
      exact lasts_finishRoutine o lasts
    · simp only [step, notes, front]
      exact (lasts_unwind (.panic p) lasts m).imp_right left
  · cases t with
    | start b restart =>
        left
        simp only [step, front]
        split
        · split
          · exact lasts.append [.invoke b (.finish true), .launch b]
          · exact lasts
        · exact lasts.append [.launch b]
    | launch b =>
        simp only [step, notes, front, launch, demands]
        split
        · exact .inl (lasts_of_stacks lasts (stacks_seize Task.passes_all b _))
        · cases needed : (h.needs m.own b).2 with
          | error p => exact (lasts_unwind (.panic p) lasts _).imp_right left
          | ok ds => exact .inl (lasts_of_stacks lasts (stacks_seize Task.passes_all b _))
    | run r => exact absurd rfl speaks
    | bound next => exact absurd rfl speaks
    | caught next => exact absurd rfl speaks
    | _ =>
        obtain ⟨new, agenda⟩ := (leads_step h front).above rfl
        rw [agenda]
        exact .inl (lasts.append new)

theorem lasts_step (lasts : Lasts a cb below m.agenda) :
    Lasts a cb below (m.step h).agenda ∨ ∃ failed, .leaves a cb failed ∈ m.notes h := by
  rcases lasts.cases_front with ⟨t, front, speaks⟩ | ⟨s, rest, front, deeper⟩
  · rcases speaks_step h front speaks with ⟨new, s, agenda, speaks'⟩ | ⟨o, rfl⟩ | ⟨p, rfl⟩
    · exact .inl ⟨new, s, agenda, speaks'⟩
    · cases o with
      | ok _ => exact .inr ⟨false, by simp [notes, front]⟩
      | error f => exact .inr ⟨true, by simp [notes, front]⟩
    · exact .inr ⟨true, by simp [notes, front, fallen, handler]⟩
  · exact (lasts_step_deeper front deeper).imp_right fun left => ⟨true, left⟩

end Lasts

/-! ### How callbacks are left -/

section Leaving

variable {a : ActionId} {cb : Callback} {failed : Bool}

theorem Leaving.ends (leaving : Leaving h m a cb true) (framed : Framed m.agenda)
    (runs : m.table.isRunning a = true) (early : cb.isLast = false) :
    m.endOf h a = some .failed ∧
      ∃ below, (m.step h).agenda = .serve a (.finish true) :: below := by
  have fails : ∀ {tasks : List (Task ε Ω σ)}, handler tasks = some (a, cb) →
      failsIn tasks a = true := fun own => by simp [failsIn, own, early]
  cases leaving with
  | @failed f rest front =>
      refine ⟨by simp [endOf, front, runs, early], rest, ?_⟩
      simp only [step, front, runRoutine, finishRoutine]
      exact agenda_returnFailed runs rest (.fault f) early
  | @panicked p rest front own =>
      refine ⟨by simp [endOf, front, runs, fails own], ?_⟩
      obtain ⟨_, _, below, _, _, agenda⟩ := agenda_unwind (h := h) (.panic p) rest
        ((front ▸ framed).1 rfl) (fails own) m runs
      exact ⟨below, by simp only [step, front, runRoutine, agenda]⟩
  | @refused b p rest front demands own =>
      refine ⟨by simp [endOf, front, runs, demands, fails own], ?_⟩
      obtain ⟨_, _, below, _, _, agenda⟩ := agenda_unwind (h := h) (.panic p) rest
        ((front ▸ framed).1 rfl) (fails own) { m with own := (h.needs m.own b).1 } runs
      exact ⟨below, by rw [step_of_refused front demands, agenda]⟩

theorem Leaving.proceeds (leaving : Leaving h m a .process false)
    (runs : m.table.isRunning a = true) : .enters a .proceed ∈ m.notes h := by
  cases leaving with
  | well front => simp [notes, front, runs]

theorem Leaving.completes (leaving : Leaving h m a .proceed false)
    (runs : m.table.isRunning a = true) (enough : h.wantsMore m.own a = false) :
    m.endOf h a = some .completed ∧
      ∃ below, (m.step h).agenda = .serve a (.finish false) :: below := by
  cases leaving with
  | @well rest front =>
      refine ⟨by simp [endOf, front, runs, enough], rest, ?_⟩
      simp [step, front, runRoutine, finishRoutine, returnWell, runs, enough]

end Leaving

/-! ### The last callback comes at once -/

/-- What shows of the steps that machines have made, the latest machine first. -/
def shown (h : Host ε Ω σ) (past : List (Machine ε Ω σ)) : List Note :=
  past.reverse.flatMap (notes h)

theorem shown_cons (m : Machine ε Ω σ) (past : List (Machine ε Ω σ)) :
    shown h (m :: past) = shown h past ++ m.notes h := by
  simp [shown]

/-- The first thing that showed was that the action was called to finish, and it has returned. -/
def Finished (h : Host ε Ω σ) (a : ActionId) (told : Bool) (since : List (Machine ε Ω σ)) : Prop :=
  ∃ log failed, shown h since = .enters a (.finish told) :: log ∧
    .leaves a (.finish told) failed ∈ log

/-- How far the last callback of an action has come since the step that made it due. -/
inductive Concluding (h : Host ε Ω σ) (a : ActionId) (told : Bool) :
    List (Machine ε Ω σ) → Machine ε Ω σ → Prop
  | due {m : Machine ε Ω σ} {below : List (Task ε Ω σ)}
      (front : m.agenda = .serve a (.finish told) :: below) : Concluding h a told [] m
  | inside {m : Machine ε Ω σ} {since : List (Machine ε Ω σ)} {below : List (Task ε Ω σ)}
      {log : List Note} (entered : shown h since = .enters a (.finish told) :: log)
      (lasts : Lasts a (.finish told) below m.agenda) : Concluding h a told since m
  | done {m : Machine ε Ω σ} {since : List (Machine ε Ω σ)} (finished : Finished h a told since) :
      Concluding h a told since m

section Concluding

variable {a : ActionId} {told : Bool} {since : List (Machine ε Ω σ)}

theorem Concluding.step (concluding : Concluding h a told since m) :
    Concluding h a told (m :: since) (m.step h) := by
  cases concluding with
  | @due _ below front =>
      have entered : shown h [m] = .enters a (.finish told) :: [] := by
        simp [shown, notes, front]
      have agenda : (m.step h).agenda = .run (h.routine a (.finish told)) ::
          .returned a (.finish told) :: below := by simp only [Machine.step, front, serve, todo]
      have lasts : Lasts a (.finish told) below (m.step h).agenda := agenda ▸ .speaking _ rfl
      exact .inside entered lasts
  | @inside _ _ below log entered lasts =>
      have more : shown h (m :: since) = .enters a (.finish told) :: (log ++ m.notes h) := by
        rw [shown_cons, entered]
        rfl
      rcases lasts_step (h := h) lasts with goes | ⟨failed, left⟩
      · exact .inside more goes
      · exact .done ⟨_, failed, more, List.mem_append_right log left⟩
  | done finished =>
      obtain ⟨log, failed, entered, left⟩ := finished
      refine .done ⟨log ++ m.notes h, failed, ?_, List.mem_append_left _ left⟩
      rw [shown_cons, entered]
      rfl

theorem Concluding.drift (concluding : Concluding h a told since m) (w : Ω) (own : σ) :
    Concluding h a told since { m with world := w, own := own } := by
  cases concluding with
  | due front => exact .due front
  | inside entered lasts => exact .inside entered lasts
  | done finished => exact .done finished

theorem Concluding.finished (concluding : Concluding h a told since m)
    (nothing : ∀ t ∈ m.agenda, t ≠ .serve a (.finish told) ∧ t ≠ .returned a (.finish told)) :
    Finished h a told since := by
  cases concluding with
  | due front => exact absurd rfl (nothing _ (front ▸ List.mem_cons_self ..)).1
  | inside entered lasts => exact absurd rfl (nothing _ lasts.mem_returned).2
  | done finished => exact finished

theorem Works.until (works : Works h m m' newer) {later since : List (Machine ε Ω σ)}
    {y : Machine ε Ω σ} (split : newer = later ++ y :: since) : Works h m y since := by
  induction works generalizing later with
  | still => simp at split
  | drift w own works ih => exact ih split
  | step works ih =>
      cases later with
      | nil =>
          obtain ⟨rfl, rfl⟩ := List.cons.inj split
          exact works
      | cons z later => exact ih (List.cons.inj split).2

/-- The run of a callback that makes the action's finish due is followed by that finish. -/
theorem Works.concluding (works : Works h m m' newer) {later earlier : List (Machine ε Ω σ)}
    {x : Machine ε Ω σ} {below : List (Task ε Ω σ)} (split : newer = later ++ x :: earlier)
    (due : (x.step h).agenda = .serve a (.finish told) :: below) :
    Concluding h a told later m' := by
  induction works generalizing later with
  | still => simp at split
  | drift w own works ih => exact (ih split).drift w own
  | step works ih =>
      cases later with
      | nil =>
          obtain ⟨rfl, rfl⟩ := List.cons.inj split
          exact .due due
      | cons z later =>
          obtain ⟨rfl, rest⟩ := List.cons.inj split
          exact (ih rest).step

end Concluding

/-- The step ends the run of the action, and its last callback has returned before another action
is processed, or the manager is done. -/
structure Concludes (h : Host ε Ω σ) (a : ActionId) (told : Bool) (x : Machine ε Ω σ)
    (later : List (Machine ε Ω σ)) (m' : Machine ε Ω σ) : Prop where
  phase : (x.step h).table.phase a = .finished
  owner : ∀ d, (x.step h).table.owner d ≠ some a
  before : ∀ newer y since b, later = newer ++ y :: since → .enters b .process ∈ y.notes h →
    Finished h a told since
  returns : m'.agenda = [] → Finished h a told later

section Concludes

variable {a : ActionId} {told : Bool}

theorem Works.run (works : Works h m m' newer) (run : Run h m past) : Run h m' (newer ++ past) := by
  induction works with
  | still => exact run
  | drift w own works ih => exact ih.drift w own
  | step works ih => exact ih.step

theorem front_of_processed {b : ActionId} (entered : .enters b .process ∈ m.notes h) :
    ∃ rest, m.agenda = .serve b .process :: rest := by
  cases shows_of_mem entered with
  | enters enters =>
      cases enters with
      | process front runs => exact ⟨_, front⟩

theorem Works.concludes (works : Works h m m' newer) (run : Run h m past) (tickless : h.Tickless)
    {later earlier : List (Machine ε Ω σ)} {x : Machine ε Ω σ} {c : Cause}
    (split : newer = later ++ x :: earlier) (ends : x.endOf h a = some c)
    (due : ∃ below, (x.step h).agenda = .serve a (.finish told) :: below) :
    Concludes h a told x later m' := by
  obtain ⟨below, due⟩ := due
  have ran : Run h x (earlier ++ past) := (works.until split).run run
  have leaves : x.Leaves h a := (leaves_iff ran.consistent a).mpr (by simp [ends])
  have phase := ((ran.leaves_iff_phase a).mp leaves).2
  refine ⟨phase, ran.step.consistent.owner_ne (by simp [phase]), ?_, fun idle => ?_⟩
  · intro newer' y since b later_eq entered
    have reached : newer = newer' ++ y :: (since ++ x :: earlier) := by
      rw [split, later_eq, List.append_assoc]
      rfl
    have toHere := works.until reached
    obtain ⟨rest, front⟩ := front_of_processed entered
    -- an action is processed above turns and code alone, so the last callback is not under way
    obtain ⟨_, above, rfl, outer⟩ := ((toHere.run run).paced tickless).serve b rest front
    refine (toHere.concluding rfl due).finished fun t member => ?_
    rw [front] at member
    rcases List.mem_cons.mp member with rfl | member
    · simp
    · rcases List.mem_cons.mp member with rfl | member
      · simp
      · rcases outer t member with code | ⟨_, rfl⟩
        · constructor <;>
          · rintro rfl
            cases code
        · simp
  · exact (works.concluding split due).finished (by simp [idle])

end Concludes

/-! ### The turns -/

/-- What a tick over some actions has left to do: the turns to come, and the end of the tick. -/
def round (all left : List ActionId) : List (Task ε Ω σ) :=
  left.map .turn ++ [.letGo all, .run .skip]

/-- The action whose turn it is, and whether it still runs. -/
def turn (m : Machine ε Ω σ) : Option (ActionId × Bool) :=
  match m.agenda with
  | .turn a :: _ => some (a, m.table.isRunning a)
  | _ => none

/-- The turns that have come, the first one first. -/
def turned (newer : List (Machine ε Ω σ)) : List (ActionId × Bool) := newer.reverse.filterMap turn

def processedIn (h : Host ε Ω σ) (newer : List (Machine ε Ω σ)) : List ActionId :=
  (shown h newer).filterMap Note.processed

/-- How far a tick over some actions has come: the turns that are to come, and the action whose
turn it is and which is to be processed. -/
inductive Ticking (all : List ActionId) (m : Machine ε Ω σ) :
    List ActionId → List ActionId → Prop
  | between (left : List ActionId) (front : m.agenda = round all left) : Ticking all m left []
  | due (a : ActionId) (left : List ActionId)
      (front : m.agenda = .invoke a .process :: round all left)
      (runs : m.table.isRunning a = true) : Ticking all m left [a]
  | entering (a : ActionId) (left : List ActionId)
      (front : m.agenda = .serve a .process :: .drain a :: round all left)
      (runs : m.table.isRunning a = true) : Ticking all m left [a]
  /-- The action is inside its callback; nothing is to be processed there. -/
  | inside (a : ActionId) (left : List ActionId) (above : List (Task ε Ω σ))
      (whole : m.agenda = above ++ .drain a :: round all left)
      (nothing : processing above = []) :
      Ticking all m left []
  | done (returned : m.agenda = [.run .skip] ∨ m.agenda = []) : Ticking all m [] []

section Ticking

variable {all left due : List ActionId}

theorem frames_round (all left : List ActionId) :
    frames (round all left : List (Task ε Ω σ)) = [] := by
  unfold round
  rw [frames_append, frames_map fun _ => rfl]
  rfl

theorem turned_cons (m : Machine ε Ω σ) (newer : List (Machine ε Ω σ)) :
    turned (m :: newer) = turned newer ++ m.turn.toList := by
  unfold turned
  rw [List.reverse_cons, List.filterMap_append]
  cases turned : m.turn <;> simp [turned]

theorem processedIn_cons (m : Machine ε Ω σ) (newer : List (Machine ε Ω σ)) :
    processedIn h (m :: newer) = processedIn h newer ++ (m.notes h).filterMap Note.processed := by
  unfold processedIn
  rw [shown_cons, List.filterMap_append]

theorem not_processed (other : ∀ b rest, m.agenda ≠ .serve b .process :: rest) :
    (m.notes h).filterMap Note.processed = [] := by
  refine List.filterMap_eq_nil_iff.mpr fun note member => ?_
  cases note with
  | enters a cb =>
      cases cb with
      | process =>
          obtain ⟨rest, front⟩ := front_of_processed member
          exact absurd front (other a rest)
      | _ => rfl
  | _ => rfl

/-- A step that is neither a turn nor processes anything. -/
structure Aside (h : Host ε Ω σ) (m : Machine ε Ω σ) : Prop where
  turn : m.turn = none
  processed : (m.notes h).filterMap Note.processed = []

theorem aside_of_front {t : Task ε Ω σ} {rest : List (Task ε Ω σ)} (front : m.agenda = t :: rest)
    (calm : t.processes = none) : Aside h m := by
  refine ⟨?_, not_processed fun b below same => ?_⟩
  · cases t with
    | turn a => cases calm
    | _ => simp only [turn, front]
  · rw [front] at same
    obtain ⟨rfl, _⟩ := List.cons.inj same
    cases calm

theorem Run.not_ticks (run : Run h m past) (tickless : h.Tickless) {a : ActionId}
    {above below : List (Task ε Ω σ)} (whole : m.agenda = above ++ .drain a :: below) :
    ¬ m.Ticks := by
  rintro ⟨next, rest, front⟩
  rcases run.tickless tickless with permitted | alone
  · have asks := permitted _ (front ▸ List.mem_cons_self ..)
    exact asks.1 rfl
  · have inside : .drain a ∈ m.agenda := whole ▸ List.mem_append_right above (List.mem_cons_self ..)
    rw [alone] at inside
    cases List.mem_singleton.mp inside

/-- What is done inside the callbacks of a turn adds nothing that is to be processed. -/
theorem Run.processing_above (run : Run h m past) (tickless : h.Tickless) {a : ActionId}
    {above above' below : List (Task ε Ω σ)} (whole : m.agenda = above ++ .drain a :: below)
    (nothing : processing above = [])
    (next : (m.step h).agenda = above' ++ .drain a :: below) :
    processing above' = [] := by
  -- a step makes what is to be processed less, and below the callbacks it stays as it is
  refine List.eq_nil_iff_forall_not_mem.mpr fun b => List.count_eq_zero.mp ?_
  have less := (run.move.load b).resolve_right fun ticks =>
    run.not_ticks tickless whole ticks.1
  have owed : (m.table.owed b).count .process = 0 :=
    List.count_eq_zero.mpr ((run.paced tickless).owed b)
  rw [Machine.load, Machine.load, whole, next, processing_append, processing_append,
    List.count_append, List.count_append, nothing, owed, List.count_nil] at less
  omega

/-- A step of the tick: turns come in order, and who still runs at its turn is processed before
anything else is done. -/
theorem Ticking.step (ticking : Ticking all m left due) (run : Run h m past)
    (tickless : h.Tickless) :
    ∃ left' due', Ticking all (m.step h) left' due' ∧
      left = m.turn.toList.map Prod.fst ++ left' ∧
      due ++ (m.turn.toList.filter Prod.snd).map Prod.fst =
        (m.notes h).filterMap Note.processed ++ due' := by
  have aside : ∀ left' due', Aside h m → Ticking all (m.step h) left' due' → left = left' →
      due = due' → ∃ left' due', Ticking all (m.step h) left' due' ∧
        left = m.turn.toList.map Prod.fst ++ left' ∧
        due ++ (m.turn.toList.filter Prod.snd).map Prod.fst =
          (m.notes h).filterMap Note.processed ++ due' := by
    rintro left' due' calm goes rfl rfl
    exact ⟨left, due, goes, by simp [calm.turn], by simp [calm.turn, calm.processed]⟩
  cases ticking with
  | between left front =>
      cases left with
      | nil =>
          have front : m.agenda = .letGo all :: [.run .skip] := front
          have stepped : (m.step h).agenda = [.run .skip] := by simp only [Machine.step, front]
          exact aside [] [] (aside_of_front front rfl) (.done (.inl stepped)) rfl rfl
      | cons a left =>
          have front : m.agenda = .turn a :: round all left := front
          have silent : (m.notes h).filterMap Note.processed = [] :=
            not_processed fun b rest same => by simp [front] at same
          cases runs : m.table.isRunning a with
          | true =>
              have stepped : m.step h = m.todo (.invoke a .process :: round all left) := by
                simp only [Machine.step, front, runs, if_true]
              refine ⟨left, [a], stepped ▸ .due a left rfl runs, ?_, ?_⟩
              · simp [turn, front]
              · simp [turn, front, runs, silent]
          | false =>
              have stepped : m.step h = m.todo (round all left) := by
                simp only [Machine.step, front, runs, Bool.false_eq_true, if_false]
              refine ⟨left, [], stepped ▸ .between left rfl, ?_, ?_⟩
              · simp [turn, front]
              · simp [turn, front, runs, silent]
  | due a left front runs =>
      -- nobody is inside a callback between two turns, so the call is not deferred
      have free : m.table.isBusy a = false := by
        have outside : frames m.agenda = [] := by
          rw [front]
          exact frames_round all left
        rw [← Bool.not_eq_true, run.sound.busy_iff, outside]
        exact List.not_mem_nil
      have stepped : m.step h = { m with
          table := m.table.enter a
          agenda := .serve a .process :: .drain a :: round all left } := by
        simp only [Machine.step, front, free, Bool.false_eq_true, if_false]
      have calm : Aside h m := by
        refine ⟨by simp only [turn, front], not_processed fun b rest same => ?_⟩
        simp [front] at same
      refine aside left [a] calm ?_ rfl rfl
      rw [stepped]
      refine .entering a left rfl ?_
      rw [(ActionTable.SameLocks.enter m.table a).isRunning]
      exact runs
  | entering a left front runs =>
      have stepped : (m.step h).agenda = [.run (h.routine a .process), .returned a .process] ++
          .drain a :: round all left := by
        simp only [Machine.step, front, serve, runs, if_true, todo]
        rfl
      refine ⟨left, [], .inside a left _ stepped rfl, ?_, ?_⟩
      · simp [turn, front]
      · simp [turn, front, notes, runs, Note.processed]
  | inside a left above whole nothing =>
      cases above with
      | nil =>
          have front : m.agenda = .drain a :: round all left := whole
          have calm : Aside h m := aside_of_front front rfl
          cases owed : m.table.owed a with
          | nil =>
              have stepped : (m.step h).agenda = round all left := by
                simp only [Machine.step, front, owed]
              exact aside left [] calm (.between left stepped) rfl rfl
          | cons d ds =>
              have stepped : (m.step h).agenda = [.serve a d] ++ .drain a :: round all left := by
                simp only [Machine.step, front, owed]
                rfl
              exact aside left [] calm (.inside a left _ stepped
                (run.processing_above tickless whole nothing stepped)) rfl rfl
      | cons t above =>
          -- whatever fails, the end of the action's callbacks and the turns below it stand
          obtain ⟨above', stepped⟩ := run.move.keeps_below whole (List.cons_ne_nil t above) rfl
          have calm : t.processes = none :=
            List.filterMap_eq_nil_iff.mp nothing t (List.mem_cons_self ..)
          exact aside left [] (aside_of_front whole calm)
            (.inside a left _ stepped (run.processing_above tickless whole nothing stepped)) rfl rfl
  | done returned =>
      rcases returned with front | front
      · have stepped : (m.step h).agenda = [] := by
          simp only [Machine.step, front]
          rfl
        exact aside [] [] (aside_of_front front rfl) (.done (.inr stepped)) rfl rfl
      · have stepped : (m.step h).agenda = [] := by simp only [Machine.step, front]
        have calm : Aside h m := ⟨by simp only [turn, front], not_processed (by simp [front])⟩
        exact aside [] [] calm (.done (.inr stepped)) rfl rfl

/-- The turns to come wait below all that is done, and who is to be processed is next. -/
theorem Ticking.toCome (ticking : Ticking all m left due) :
    (left ≠ [] → ∃ above, m.agenda = above ++ round all left) ∧
      (due ≠ [] → ∃ a below, due = [a] ∧
        (m.agenda = .invoke a .process :: below ∨ m.agenda = .serve a .process :: below)) := by
  cases ticking with
  | between left front => exact ⟨fun _ => ⟨[], front⟩, by simp⟩
  | due a left front runs =>
      exact ⟨fun _ => ⟨[.invoke a .process], front⟩, fun _ => ⟨a, _, rfl, .inl front⟩⟩
  | entering a left front runs =>
      exact ⟨fun _ => ⟨[.serve a .process, .drain a], front⟩, fun _ => ⟨a, _, rfl, .inr front⟩⟩
  | inside a left above whole nothing =>
      refine ⟨fun _ => ⟨above ++ [.drain a], ?_⟩, by simp⟩
      rw [whole, List.append_assoc]
      rfl
  | done returned => simp

theorem Ticking.returned (ticking : Ticking all m left due) (idle : m.agenda = []) :
    left = [] ∧ due = [] := by
  cases ticking with
  | between left front => simp [idle, round] at front
  | due a left front runs => simp [idle] at front
  | entering a left front runs => simp [idle] at front
  | inside a left above whole nothing => simp [idle] at whole
  | done returned => exact ⟨rfl, rfl⟩

/-- No failure gets past a tick: all code runs inside callbacks. -/
theorem Ticking.contained (ticking : Ticking all m left due) (run : Run h m past) :
    (m.step h).unhandled = m.unhandled := by
  rcases unhandled_step (h := h) run.sound.framed run.sheltered with same | refused
  · exact same
  · obtain ⟨b, p, rest, front, _, _, outside⟩ := refused
    cases ticking with
    | between left whole =>
        rw [whole] at front
        cases left <;> cases front
    | due a left whole runs =>
        rw [whole] at front
        cases front
    | entering a left whole runs =>
        rw [whole] at front
        cases front
    | inside a left above whole nothing =>
        rw [whole, frames_append] at outside
        cases (List.append_eq_nil_iff.mp outside).2
    | done returned => rcases returned with whole | whole <;> simp [whole] at front

/-- From the beginning of a tick on, everyone who ran has a turn or is yet to have it, and who still
ran at its turn was processed or is about to be. -/
theorem Works.ticking (works : Works h m m' newer) (run : Run h m past) (tickless : h.Tickless)
    (begun : m.agenda = round all all) :
    ∃ left due, Ticking all m' left due ∧ all = (turned newer).map Prod.fst ++ left ∧
      ((turned newer).filter Prod.snd).map Prod.fst = processedIn h newer ++ due ∧
      m'.unhandled = m.unhandled := by
  induction works with
  | still => exact ⟨all, [], .between all begun, rfl, rfl, rfl⟩
  | drift w own works ih =>
      obtain ⟨left, due, ticking, turns, calls, handled⟩ := ih
      refine ⟨left, due, ?_, turns, calls, handled⟩
      cases ticking with
      | between left front => exact .between left front
      | due a left front runs => exact .due a left front runs
      | entering a left front runs => exact .entering a left front runs
      | inside a left above whole nothing => exact .inside a left above whole nothing
      | done returned => exact .done returned
  | @step m' newer works ih =>
      obtain ⟨left, due, ticking, turns, calls, handled⟩ := ih
      have reached := works.run run
      obtain ⟨left', due', goes, turn, calls'⟩ := ticking.step reached tickless
      refine ⟨left', due', goes, ?_, ?_, (ticking.contained reached).trans handled⟩
      · rw [turned_cons, List.map_append, List.append_assoc, ← turn]
        exact turns
      · rw [turned_cons, processedIn_cons, List.filter_append, List.map_append, calls,
          List.append_assoc, calls', List.append_assoc]

end Ticking

/-- What has come of a tick: from the machine that was asked for it, those that have made a step
since, and the one reached. -/
structure Ticked (h : Host ε Ω σ) (m : Machine ε Ω σ) (newer : List (Machine ε Ω σ))
    (m' : Machine ε Ω σ) : Prop where
  /-- The turns come in the order of the list; those to come wait below what is done. -/
  turns : ∃ left, m.table.running = (turned newer).map Prod.fst ++ left ∧
    (left ≠ [] → ∃ above, m'.agenda = above ++ round m.table.running left)
  /-- Those are processed that still run at their turn, then and there. -/
  calls : ∃ due, ((turned newer).filter Prod.snd).map Prod.fst = processedIn h newer ++ due ∧
    (due ≠ [] → ∃ a below, due = [a] ∧
      (m'.agenda = .invoke a .process :: below ∨ m'.agenda = .serve a .process :: below))
  inOrder : (processedIn h newer).Sublist m.table.running
  once : (processedIn h newer).Nodup
  ran : ∀ a ∈ processedIn h newer, m.table.isRunning a = true
  returns : m'.agenda = [] → (turned newer).map Prod.fst = m.table.running ∧
    processedIn h newer = ((turned newer).filter Prod.snd).map Prod.fst
  contained : m'.unhandled = m.unhandled
  /-- Who still runs after it was processed is asked whether there is more to do. -/
  proceeds : ∀ x ∈ newer, ∀ a, .leaves a .process false ∈ x.notes h →
    x.table.isRunning a = true → .enters a .proceed ∈ x.notes h
  completes : ∀ later x earlier a, newer = later ++ x :: earlier →
    .leaves a .proceed false ∈ x.notes h → x.table.isRunning a = true →
      h.wantsMore x.own a = false → Concludes h a false x later m'
  fails : ∀ later x earlier a cb, newer = later ++ x :: earlier → .leaves a cb true ∈ x.notes h →
    cb.isLast = false → x.table.isRunning a = true → Concludes h a true x later m'

/-- One tick.  Whoever ran when it began has a turn, in the order of the starts, and is processed if
it still runs then; nobody else is processed, and nobody twice.  A run that ends because its
callback fails, or because it has no more to do, is finished before anybody else is processed, and
no failure takes a turn away. -/
theorem Run.ticked (run : Run h m past) (idle : m.agenda = []) (tickless : h.Tickless)
    (nodup : m.table.running.Nodup) (works : Works h ((m.asked .tick).step h) m' newer) :
    Ticked h m newer m' := by
  have begun : Run h ((m.asked .tick).step h) (m.asked .tick :: past) := (run.ask .tick idle).step
  obtain ⟨left, due, ticking, turns, calls, handled⟩ := works.ticking begun tickless rfl
  have turns : m.table.running = (turned newer).map Prod.fst ++ left := turns
  have inOrder : (processedIn h newer).Sublist m.table.running := by
    have called : (processedIn h newer).Sublist (((turned newer).filter Prod.snd).map Prod.fst) :=
      calls ▸ List.sublist_append_left _ due
    have among : ((turned newer).map Prod.fst).Sublist m.table.running :=
      turns ▸ List.sublist_append_left _ left
    exact (called.trans (List.filter_sublist.map Prod.fst)).trans among
  have reached : ∀ {later x earlier}, newer = later ++ x :: earlier → ∃ before, Run h x before :=
    fun split => ⟨_, (works.until split).run begun⟩
  refine ⟨⟨left, turns, ticking.toCome.1⟩, ⟨due, calls, ticking.toCome.2⟩, inOrder,
    inOrder.nodup nodup, fun a member => ?_, fun idle' => ?_, handled, ?_, ?_, ?_⟩
  · rw [ActionTable.isRunning_iff, run.consistent.running_iff]
    exact inOrder.subset member
  · obtain ⟨rfl, rfl⟩ := ticking.returned idle'
    exact ⟨by rw [turns, List.append_nil], by rw [calls, List.append_nil]⟩
  · intro x member a left runs
    exact (leaving_of_mem left).proceeds runs
  · intro later x earlier a split left runs enough
    obtain ⟨ends, due⟩ := (leaving_of_mem left).completes runs enough
    exact works.concludes begun tickless split ends due
  · intro later x earlier a cb split left early runs
    obtain ⟨_, run⟩ := reached split
    obtain ⟨ends, due⟩ := (leaving_of_mem left).ends run.sound.framed runs early
    exact works.concludes begun tickless split ends due

end Machine

/-- The first action stops the second one when it is processed, starts the fourth one, and has no
more to do.  The third one fails. -/
def Host.turbulent : Host Empty Unit Unit :=
  { Host.plain (fun _ => []) fun a cb =>
      match a, cb with
      | ⟨1⟩, .process => .ask (.stop ⟨2⟩) fun _ => .ask (.start ⟨4⟩ false) fun _ => .skip
      | ⟨3⟩, .process => .panic .unreadable
      | _, _ => .skip with
    wantsMore := fun _ a => a ≠ ⟨1⟩ }

theorem Host.turbulent_tickless : Host.turbulent.Tickless where
  routine a cb := by
    show Routine.Uses _ _ (match a, cb with
      | ⟨1⟩, .process => .ask (.stop ⟨2⟩) fun _ => .ask (.start ⟨4⟩ false) fun _ => .skip
      | ⟨3⟩, .process => .panic .unreadable
      | _, _ => .skip : Routine Empty Unit Unit)
    split
    · exact ⟨by simp, fun _ => ⟨by simp, fun _ => trivial⟩⟩
    · trivial
    · trivial
  answer e := nomatch e
  log _ _ _ := trivial
  forget _ _ _ _ := trivial

def turbulence : Machine Empty Unit Unit :=
  Host.turbulent.play [(.start ⟨3⟩ false, 12), (.start ⟨2⟩ false, 12), (.start ⟨1⟩ false, 12)]

/-- A tick in which the first action is done, the second one is stopped before its turn, the third
one fails, and the fourth one is started but not processed. -/
theorem ticked_turbulence :
    ∃ newer m',
      Machine.Works Host.turbulent ((turbulence.asked .tick).step Host.turbulent) m' newer ∧
      m'.agenda = [] ∧ m'.table.running = [⟨4⟩] ∧
      Machine.Ticked Host.turbulent turbulence newer m' ∧
      Machine.turned newer = [(⟨1⟩, true), (⟨2⟩, false), (⟨3⟩, true)] ∧
      Machine.processedIn Host.turbulent newer = [⟨1⟩, ⟨3⟩] := by
  have first :=
    ((Machine.Run.fresh (h := Host.turbulent) () ()).ask (.start ⟨1⟩ false) rfl).steps 12
  have second := (first.ask (.start ⟨2⟩ false) rfl).steps 12
  have run := (second.ask (.start ⟨3⟩ false) rfl).steps 12
  have works := (Machine.Works.still (h := Host.turbulent)
    (m := (turbulence.asked .tick).step Host.turbulent)).steps 34
  have ticked := Machine.Run.ticked run rfl Host.turbulent_tickless (by decide) works
  have idle : (Machine.steps Host.turbulent 34
      ((turbulence.asked .tick).step Host.turbulent)).agenda = [] :=
    List.isEmpty_iff.mp (by decide +kernel)
  have called := (ticked.returns idle).2
  refine ⟨_, _, works, idle, by decide +kernel, ticked, ?turns, called.trans ?calls⟩ <;>
  · decide +kernel

end RobotControl
