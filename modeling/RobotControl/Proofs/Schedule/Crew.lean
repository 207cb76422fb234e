import RobotControl.Proofs.Schedule.Jobs

/-!
# A schedule and the workers that serve it

Any number of workers take entries from the queue of a schedule, one dispatcher makes its passes,
and jobs are scheduled and cancelled and the schedule is shut down from anywhere, from the bodies
of its jobs too.  `Crew.Step` says what one of them does at an instant, `Crew.Goes` that things
happened one after the other, in any order.  Through all of it a job is active exactly while there
is one entry for it, in the queue or with a worker (`Crew.Sound`).
-/
set_option autoImplicit false

namespace RobotControl

/-- What happens to a schedule.  A caller gets the id of its new job, and read the clock before. -/
inductive Deed (ι : Type) where
  | repeated (j : JobId) (name : String) (work : ι) (asked interval : Nat)
  | once (j : JobId) (name : String) (work : ι) (asked delay : Nat)
  | cancel (j : JobId)
  | start
  | pass
  /-- A worker takes the first entry of the queue and starts the body of its job. -/
  | begins (j : JobId)
  /-- A worker takes the first entry, and its job must not run any more. -/
  | skips (j : JobId)
  /-- The body of a job returns or fails. -/
  | ends (j : JobId) (failed : Option Failure)
  /-- A worker is done with an entry. -/
  | releases (j : JobId)
  | shutdown

structure Crew (ι : Type) where
  schedule : Schedule ι := {}
  now : Nat := 0
  /-- The entries whose bodies are under way. -/
  working : List JobId := []
  /-- The entries whose bodies have ended or were skipped, and that are not released yet. -/
  spent : List JobId := []

namespace Crew

variable {ι : Type} {c c' c₀ : Crew ι} {t : Nat} {d : Deed ι} {past : List (Nat × Deed ι)}

/-- The runs that are queued or with a worker. -/
def entries (c : Crew ι) : List JobId := c.schedule.queue ++ (c.working ++ c.spent)

inductive Step (t : Nat) (c : Crew ι) : Deed ι → Crew ι → Prop
  | repeated (name : String) (work : ι) (asked interval : Nat) :
      Step t c (.repeated c.schedule.nextId name work asked interval)
        { c with now := t, schedule := c.schedule.repeated name work asked interval }
  | once (name : String) (work : ι) (asked delay : Nat) {s : Schedule ι}
      (told : c.schedule.once name work asked delay = .ok s) :
      Step t c (.once c.schedule.nextId name work asked delay) { c with now := t, schedule := s }
  | cancel {j : JobId} (known : c.schedule.isKnown j = true) :
      Step t c (.cancel j) { c with now := t, schedule := c.schedule.cancel j }
  | start {s : Schedule ι} (started : c.schedule.start = .ok s) :
      Step t c .start { c with now := t, schedule := s }
  | pass : Step t c .pass { c with now := t, schedule := c.schedule.pass t }
  | begins {j : JobId} {s : Schedule ι} (taken : c.schedule.take = some (j, s))
      (may : s.mayRun j = true) :
      Step t c (.begins j) { c with now := t, schedule := s, working := j :: c.working }
  | skips {j : JobId} {s : Schedule ι} (taken : c.schedule.take = some (j, s))
      (may : s.mayRun j = false) :
      Step t c (.skips j) { c with now := t, schedule := s, spent := j :: c.spent }
  | ends {j : JobId} (failed : Option Failure) (works : j ∈ c.working) :
      Step t c (.ends j failed)
        { c with now := t, working := c.working.erase j, spent := j :: c.spent }
  | releases {j : JobId} (held : j ∈ c.spent) :
      Step t c (.releases j)
        { c with now := t, schedule := c.schedule.release j, spent := c.spent.erase j }
  | shutdown : Step t c .shutdown { c with now := t, schedule := c.schedule.shutdown }

/-- Things happened to a crew at instants that do not decrease, the latest first. -/
inductive Goes (c₀ : Crew ι) : List (Nat × Deed ι) → Crew ι → Prop
  | refl : Goes c₀ [] c₀
  | step {past : List (Nat × Deed ι)} {c c' : Crew ι} {t : Nat} {d : Deed ι}
      (goes : Goes c₀ past c) (later : c.now ≤ t) (step : Step t c d c') :
      Goes c₀ ((t, d) :: past) c'

theorem Goes.trans {later earlier : List (Nat × Deed ι)} {m : Crew ι} (goes : Goes c₀ earlier m)
    (goes' : Goes m later c) : Goes c₀ (later ++ earlier) c := by
  induction goes' with
  | refl => exact goes
  | step _ wait step ih => exact ih.step wait step

theorem Goes.split {later earlier : List (Nat × Deed ι)} (goes : Goes c₀ (later ++ earlier) c) :
    ∃ m, Goes c₀ earlier m ∧ Goes m later c := by
  induction later generalizing c with
  | nil => exact ⟨c, goes, .refl⟩
  | cons e rest ih =>
      cases goes with
      | step before wait step =>
          obtain ⟨m, first, second⟩ := ih before
          exact ⟨m, first, second.step wait step⟩

theorem Step.now (step : Step t c d c') : c'.now = t := by
  cases step <;> rfl

/-! ### One entry for each active job -/

/-- A job is active exactly while there is one entry for it. -/
structure Sound (c : Crew ι) : Prop where
  tidy : c.schedule.Tidy
  single : ∀ j, c.entries.count j = (c.schedule.isActive j).toNat

theorem Sound.initial : ({} : Crew ι).Sound := ⟨.initial, fun _ => rfl⟩

theorem Sound.count_le (sound : c.Sound) (j : JobId) : c.entries.count j ≤ 1 := by
  rw [sound.single]
  exact Bool.toNat_le _

theorem Sound.mem_entries (sound : c.Sound) {j : JobId} :
    j ∈ c.entries ↔ c.schedule.isActive j = true := by
  rw [← List.count_pos_iff, sound.single]
  cases c.schedule.isActive j <;> simp

/-- What a pass hands out was not active, and is handed out once. -/
theorem Sound.count_due (sound : c.Sound) (now : Nat) (j : JobId) :
    (c.schedule.isActive j).toNat + (c.schedule.due now).count j =
      (c.schedule.isActive j || decide (j ∈ c.schedule.due now)).toNat := by
  unfold Schedule.due
  split
  · have once := Schedule.nodup_handed sound.tidy.distinct now
    rw [once.count]
    by_cases handed : j ∈ c.schedule.handed now
    · have free := (Schedule.of_mem_handed handed).2.2
      simp [handed, free]
    · simp [handed]
  · simp

theorem Step.sound (step : Step t c d c') (sound : c.Sound) : c'.Sound := by
  have count : ∀ j, c.schedule.queue.count j + (c.working.count j + c.spent.count j) =
      (c.schedule.isActive j).toNat := by
    intro j
    rw [← sound.single, entries, List.count_append, List.count_append]
  cases step with
  | repeated name work asked interval =>
      refine ⟨sound.tidy.insert .., fun j => ?_⟩
      simp only [entries, Schedule.repeated, Schedule.queue_insert, List.count_append]
      rw [Schedule.isActive_insert _ _ sound.tidy.numbered, count]
  | once _ _ _ _ told =>
      obtain rfl := Schedule.once_eq_ok told
      refine ⟨sound.tidy.insert .., fun j => ?_⟩
      simp only [entries, Schedule.queue_insert, List.count_append]
      rw [Schedule.isActive_insert _ _ sound.tidy.numbered, count]
  | @cancel k known =>
      refine ⟨sound.tidy.cancel k, fun j => ?_⟩
      rw [Schedule.isActive_cancel]
      exact sound.single j
  | start started =>
      obtain rfl := Schedule.start_eq_ok started
      exact ⟨sound.tidy.congr rfl rfl, sound.single⟩
  | pass =>
      refine ⟨sound.tidy.pass t, fun j => ?_⟩
      rw [Schedule.isActive_pass _ _ _ sound.tidy.known, ← sound.count_due, ← count]
      simp only [entries, Schedule.queue_pass, List.count_append]
      omega
  | @begins k s taken may =>
      obtain ⟨rest, queue, rfl⟩ := Schedule.take_eq_some taken
      refine ⟨sound.tidy.congr rfl rfl, fun j => .trans ?_ (sound.single j)⟩
      simp only [entries, queue, List.cons_append, List.count_append, List.count_cons]
      omega
  | @skips k s taken may =>
      obtain ⟨rest, queue, rfl⟩ := Schedule.take_eq_some taken
      refine ⟨sound.tidy.congr rfl rfl, fun j => .trans ?_ (sound.single j)⟩
      simp only [entries, queue, List.cons_append, List.count_append, List.count_cons]
      omega
  | @ends k failed works =>
      refine ⟨sound.tidy, fun j => .trans ?_ (sound.single j)⟩
      have held := List.count_pos_iff.mpr works
      simp only [entries, List.count_append, List.count_cons, List.count_erase]
      by_cases same : k = j
      · subst same
        simp only [beq_self_eq_true, if_true]
        omega
      · simp [same]
  | @releases k held =>
      refine ⟨sound.tidy.release k, fun j => ?_⟩
      rw [Schedule.isActive_release]
      have before := count j
      have queue : (c.schedule.release k).queue = c.schedule.queue := rfl
      simp only [entries, queue, List.count_append, List.count_erase]
      by_cases same : k = j
      · subst same
        have there := List.count_pos_iff.mpr held
        have most := Bool.toNat_le (c.schedule.isActive k)
        simp only [beq_self_eq_true, if_true, ne_eq, not_true_eq_false, decide_false,
          Bool.and_false, Bool.toNat_false]
        omega
      · simpa [same] using before
  | shutdown =>
      refine ⟨sound.tidy.shutdown, fun j => ?_⟩
      rw [Schedule.isActive_shutdown, ← sound.single]
      simp only [entries, Schedule.queue_shutdown]

theorem Goes.sound (goes : Goes c₀ past c) (sound : c₀.Sound) : c.Sound := by
  induction goes with
  | refl => exact sound
  | step _ _ step ih => exact step.sound ih

/-! ### What lasts -/

theorem Step.lasts (step : Step t c d c') (sound : c.Sound) :
    c.schedule.Lasts c'.schedule := by
  cases step with
  | repeated => exact sound.tidy.numbered.lasts_insert ..
  | once _ _ _ _ told =>
      obtain rfl := Schedule.once_eq_ok told
      exact sound.tidy.numbered.lasts_insert ..
  | cancel => exact Schedule.lasts_cancel ..
  | start started =>
      obtain rfl := Schedule.start_eq_ok started
      exact ⟨fun _ => id, fun _ => id, fun _ => rfl, id, id⟩
  | pass => exact Schedule.lasts_pass ..
  | begins taken | skips taken =>
      obtain ⟨rest, -, rfl⟩ := Schedule.take_eq_some taken
      exact ⟨fun _ => id, fun _ => id, id, id, id⟩
  | ends => exact Schedule.Lasts.refl _
  | releases => exact Schedule.lasts_release ..
  | shutdown => exact Schedule.lasts_shutdown _

theorem Goes.lasts (goes : Goes c₀ past c) (sound : c₀.Sound) :
    c₀.schedule.Lasts c.schedule := by
  induction goes with
  | refl => exact Schedule.Lasts.refl _
  | step before _ step ih => exact ih.trans (step.lasts (before.sound sound))

/-- A job is off once it is cancelled or the schedule is shut down. -/
def Off (c : Crew ι) (j : JobId) : Prop :=
  c.schedule.isCancelled j = true ∨ c.schedule.stopped = true

theorem Goes.off (goes : Goes c₀ past c) (sound : c₀.Sound) {j : JobId} (off : c₀.Off j) :
    c.Off j := off.imp ((goes.lasts sound).isCancelled j) (goes.lasts sound).stopped

end Crew

end RobotControl
