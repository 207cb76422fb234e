import RobotControl.Proofs.Schedule.Crew

/-!
# What a schedule guarantees to its jobs

However its callers, its dispatcher and its workers come between each other, no run of a job
overlaps another, a job that runs once passes through the stages of `Crew.Stage`, a job that
repeats keeps its timer whatever becomes of its runs, and a job that was cancelled is never started
again (`Crew.runs_safely`).
-/
set_option autoImplicit false

namespace RobotControl

namespace Deed

variable {ι : Type}

def made : Deed ι → Option JobId
  | .repeated j .. | .once j .. => some j
  | _ => none

/-- The job whose body is started. -/
def begun : Deed ι → Option JobId
  | .begins j => some j
  | _ => none

def taken : Deed ι → Option JobId
  | .begins j | .skips j => some j
  | _ => none

theorem taken_of_begun {d : Deed ι} {j : JobId} (begun : d.begun = some j) :
    d.taken = some j := by
  cases d <;> cases begun
  rfl

end Deed

namespace Crew

variable {ι : Type} {c c' c₀ : Crew ι} {t : Nat} {d : Deed ι} {past : List (Nat × Deed ι)}
  {j : JobId}

/-- The instants at which the body of a job was started, the latest first. -/
def begun (past : List (Nat × Deed ι)) (j : JobId) : List Nat :=
  past.filterMap fun e => if e.2.begun = some j then some e.1 else none

def taken (past : List (Nat × Deed ι)) : List JobId := past.reverse.filterMap (·.2.taken)

theorem begun_cons (t : Nat) (d : Deed ι) (past : List (Nat × Deed ι)) (j : JobId) :
    begun ((t, d) :: past) j = if d.begun = some j then t :: begun past j else begun past j := by
  unfold begun
  rw [List.filterMap_cons]
  split
  · next skipped => split at skipped <;> simp_all
  · next found => split at found <;> simp_all

/-! ### Bodies that may start -/

theorem Step.on_of_begins (step : Step t c (.begins j) c') : ¬ c.Off j := by
  cases step with
  | begins taken may =>
      obtain ⟨rest, -, rfl⟩ := Schedule.take_eq_some taken
      have allowed : (!c.schedule.stopped && !c.schedule.isCancelled j) = true := may
      rintro (cancelled | stopped)
      · simp [cancelled] at allowed
      · simp [stopped] at allowed

theorem Step.off_of_skips (step : Step t c (.skips j) c') : c.Off j := by
  cases step with
  | skips taken may =>
      obtain ⟨rest, -, rfl⟩ := Schedule.take_eq_some taken
      have stays : (!c.schedule.stopped && !c.schedule.isCancelled j) = false := may
      cases stopped : c.schedule.stopped with
      | true => exact .inr stopped
      | false => exact .inl (by simpa [stopped] using stays)

theorem Goes.begun_of_off (goes : Goes c₀ past c) (sound : c₀.Sound) (off : c₀.Off j) :
    begun past j = [] := by
  induction goes with
  | refl => rfl
  | @step past c c' t d before _ step ih =>
      rw [begun_cons, if_neg, ih]
      intro begins
      cases d with
      | begins k =>
          cases begins
          exact step.on_of_begins (before.off sound off)
      | _ => cases begins

theorem Step.off (step : Step t c d c') (off : c'.Off j) :
    c.Off j ∨ d = .cancel j ∨ d = .shutdown := by
  have fresh : ∀ {name : String} {work : ι} {due : Nat} {interval : Option Nat},
      (c.schedule.insert name work due interval).isCancelled j = true ∨
        (c.schedule.insert name work due interval).stopped = true → c.Off j := by
    rintro name work due interval (cancelled | stopped)
    · have source := (Schedule.isCancelled_insert_eq ..).symm.trans cancelled
      split at source
      · exact .inr source
      · exact .inl source
    · exact .inr ((Schedule.stopped_insert ..).symm.trans stopped)
  cases step with
  | repeated => exact .inl (fresh off)
  | once _ _ _ _ told =>
      obtain rfl := Schedule.once_eq_ok told
      exact .inl (fresh off)
  | @cancel k known =>
      rcases off with cancelled | stopped
      · have source := (Schedule.isCancelled_cancel ..).symm.trans cancelled
        simp only [Bool.or_eq_true, Bool.and_eq_true, decide_eq_true_eq] at source
        rcases source with before | ⟨rfl, -⟩
        · exact .inl (.inl before)
        · exact .inr (.inl rfl)
      · exact .inl (.inr stopped)
  | start started =>
      obtain rfl := Schedule.start_eq_ok started
      exact .inl off
  | pass =>
      exact .inl (off.imp (Schedule.isCancelled_pass ..).symm.trans
        (Schedule.stopped_pass ..).symm.trans)
  | begins taken | skips taken =>
      obtain ⟨rest, -, rfl⟩ := Schedule.take_eq_some taken
      exact .inl off
  | ends => exact .inl off
  | releases => exact .inl (off.imp_left (Schedule.isCancelled_release ..).symm.trans)
  | shutdown => exact .inr (.inr rfl)

/-- No cancellation of the job and no shutdown is on record. -/
def Unstopped (past : List (Nat × Deed ι)) (j : JobId) : Prop :=
  ∀ e ∈ past, e.2 ≠ .cancel j ∧ e.2 ≠ .shutdown

theorem Goes.on_of_unstopped (goes : Goes ({} : Crew ι) past c) (unstopped : Unstopped past j) :
    ¬ c.Off j := by
  induction goes with
  | refl => rintro (cancelled | stopped) <;> contradiction
  | @step past c c' t d before _ step ih =>
      intro off
      rcases step.off off with was | cancelled | shutdown
      · exact ih (fun e listed => unstopped e (List.mem_cons_of_mem _ listed)) was
      · exact (unstopped _ List.mem_cons_self).1 cancelled
      · exact (unstopped _ List.mem_cons_self).2 shutdown

/-! ### Timers and the queue -/

theorem Step.planned (step : Step t c d c') (sound : c.Sound)
    (known : c.schedule.isKnown j = true) :
    c'.schedule.planned j = c.schedule.planned j ∨
      (d = .pass ∧ c'.schedule.planned j = (c.schedule.pass t).planned j) ∨
      (c'.schedule.stopped = true ∧ c'.schedule.planned j = []) := by
  have other : c.schedule.nextId ≠ j := by
    rintro rfl
    rw [sound.tidy.numbered.unknown_nextId] at known
    cases known
  have same : ∀ {name : String} {work : ι} {due : Nat} {interval : Option Nat},
      (c.schedule.insert name work due interval).planned j = c.schedule.planned j := by
    intro name work due interval
    rw [Schedule.planned_insert, if_neg fun fresh => other fresh.1, List.append_nil]
  cases step with
  | repeated => exact .inl same
  | once _ _ _ _ told =>
      obtain rfl := Schedule.once_eq_ok told
      exact .inl same
  | start started =>
      obtain rfl := Schedule.start_eq_ok started
      exact .inl rfl
  | pass => exact .inr (.inl ⟨rfl, rfl⟩)
  | begins taken | skips taken =>
      obtain ⟨rest, -, rfl⟩ := Schedule.take_eq_some taken
      exact .inl rfl
  | cancel | ends | releases => exact .inl rfl
  | shutdown =>
      have timers := c.schedule.planned_shutdown j
      split at timers
      · exact .inl timers
      · exact .inr (.inr ⟨c.schedule.stopped_shutdown, timers⟩)

theorem Step.planned_nil (step : Step t c d c') (sound : c.Sound)
    (known : c.schedule.isKnown j = true) (none : c.schedule.planned j = []) :
    c'.schedule.planned j = [] := by
  rcases step.planned sound known with same | ⟨-, pass⟩ | ⟨-, gone⟩
  · exact same.trans none
  · rw [pass, Schedule.planned_pass, none]
    simp
  · exact gone

theorem Step.mem_queue (step : Step t c d c') (queued : j ∈ c'.schedule.queue) :
    j ∈ c.schedule.queue ∨ d = .pass ∧ j ∈ c.schedule.due t := by
  cases step with
  | repeated => exact .inl ((Schedule.queue_insert ..) ▸ queued)
  | once _ _ _ _ told =>
      obtain rfl := Schedule.once_eq_ok told
      exact .inl ((Schedule.queue_insert ..) ▸ queued)
  | start started =>
      obtain rfl := Schedule.start_eq_ok started
      exact .inl queued
  | pass =>
      refine (List.mem_append.mp ((Schedule.queue_pass ..) ▸ queued)).imp_right fun due => ?_
      exact ⟨rfl, due⟩
  | begins taken | skips taken =>
      obtain ⟨rest, queue, rfl⟩ := Schedule.take_eq_some taken
      exact .inl (queue ▸ List.mem_cons_of_mem _ queued)
  | cancel | ends | releases => exact .inl queued
  | shutdown => exact .inl (c.schedule.queue_shutdown ▸ queued)

theorem Step.queue_keeps (step : Step t c d c') (queued : j ∈ c.schedule.queue) :
    j ∈ c'.schedule.queue ∨ d.taken = some j := by
  cases step with
  | repeated => exact .inl ((Schedule.queue_insert ..).symm ▸ queued)
  | once _ _ _ _ told =>
      obtain rfl := Schedule.once_eq_ok told
      exact .inl ((Schedule.queue_insert ..).symm ▸ queued)
  | start started =>
      obtain rfl := Schedule.start_eq_ok started
      exact .inl queued
  | pass => exact .inl ((Schedule.queue_pass ..).symm ▸ List.mem_append_left _ queued)
  | begins taken | skips taken =>
      obtain ⟨rest, queue, rfl⟩ := Schedule.take_eq_some taken
      rw [queue] at queued
      rcases List.mem_cons.mp queued with rfl | waits
      · exact .inr rfl
      · exact .inl waits
  | cancel | ends | releases => exact .inl queued
  | shutdown => exact .inl (c.schedule.queue_shutdown.symm ▸ queued)

theorem Step.taken (step : Step t c d c') (sound : c.Sound) (taken : d.taken = some j) :
    j ∈ c.schedule.queue ∧ j ∉ c'.schedule.queue := by
  have once := sound.count_le j
  rw [entries, List.count_append] at once
  cases step with
  | begins takes | skips takes =>
      cases taken
      obtain ⟨rest, queue, rfl⟩ := Schedule.take_eq_some takes
      rw [queue, List.count_cons_self] at once
      refine ⟨queue ▸ List.mem_cons_self, fun again => ?_⟩
      have twice := List.count_pos_iff.mpr again
      dsimp only at twice
      omega
  | _ => cases taken

theorem Step.mem_entries (step : Step t c d c') (sound : c.Sound) (entry : j ∈ c'.entries) :
    j ∈ c.entries ∨ d = .pass ∧ j ∈ c.schedule.due t := by
  have active := (step.sound sound).mem_entries.mp entry
  rw [sound.mem_entries]
  cases step with
  | repeated => exact .inl ((Schedule.isActive_insert _ _ sound.tidy.numbered ..).symm.trans active)
  | once _ _ _ _ told =>
      obtain rfl := Schedule.once_eq_ok told
      exact .inl ((Schedule.isActive_insert _ _ sound.tidy.numbered ..).symm.trans active)
  | cancel => exact .inl ((Schedule.isActive_cancel ..).symm.trans active)
  | start started =>
      obtain rfl := Schedule.start_eq_ok started
      exact .inl active
  | pass =>
      have source := (Schedule.isActive_pass _ _ _ sound.tidy.known).symm.trans active
      rw [Bool.or_eq_true, decide_eq_true_eq] at source
      exact source.imp_right fun due => ⟨rfl, due⟩
  | begins taken | skips taken =>
      obtain ⟨rest, -, rfl⟩ := Schedule.take_eq_some taken
      exact .inl active
  | ends => exact .inl active
  | releases =>
      exact .inl (Bool.and_eq_true_iff.mp ((Schedule.isActive_release ..).symm.trans active)).1
  | shutdown => exact .inl ((Schedule.isActive_shutdown ..).symm.trans active)

theorem mem_entries_of_queue (queued : j ∈ c.schedule.queue) : j ∈ c.entries :=
  List.mem_append_left _ queued

/-! ### Jobs that run once -/

/-- How far a job has come that runs once, and that is due at an instant. -/
inductive Stage (j : JobId) (due : Nat) (past : List (Nat × Deed ι)) (c : Crew ι) : Prop
  | waits (planned : c.schedule.planned j = [⟨due, none, j⟩]) (idle : j ∉ c.entries)
      (never : begun past j = [])
  | queued (planned : c.schedule.planned j = []) (waits : j ∈ c.schedule.queue)
      (reached : due ≤ c.now) (never : begun past j = [])
  | ran {t : Nat} (planned : c.schedule.planned j = []) (gone : j ∉ c.schedule.queue)
      (once : begun past j = [t]) (reached : due ≤ t)
  | dropped (planned : c.schedule.planned j = []) (gone : j ∉ c.schedule.queue)
      (never : begun past j = []) (lost : c.Off j ∨ c.schedule.crashed = true)

namespace Stage

variable {due : Nat}

theorem not_queued (step : Step t c d c') (planned : c.schedule.planned j = [])
    (gone : j ∉ c.schedule.queue) : j ∉ c'.schedule.queue := by
  intro queued
  rcases step.mem_queue queued with was | ⟨-, handed⟩
  · exact gone was
  · obtain ⟨timer, listed, -⟩ := (Schedule.of_mem_due handed).1
    rw [planned] at listed
    cases listed

theorem begun_of_not_queued (step : Step t c d c') (sound : c.Sound)
    (gone : j ∉ c.schedule.queue) : begun ((t, d) :: past) j = begun past j := by
  rw [begun_cons, if_neg]
  exact fun begins => gone (step.taken sound (Deed.taken_of_begun begins)).1

theorem early_of_spared (sound : c.Sound) (planned : c.schedule.planned j = [⟨due, none, j⟩])
    (idle : j ∉ c.entries) (live : c.schedule.isCancelled j = false)
    (told : c.schedule.overflows t = false) (spared : j ∉ c.schedule.handed t) : t < due := by
  have free : c.schedule.isActive j = false := by
    rw [← Bool.not_eq_true, ← sound.mem_entries]
    exact idle
  by_contra late
  refine spared ((Schedule.mem_handed told).mpr
    ⟨⟨⟨due, none, j⟩, ?_, Nat.not_lt.mp late⟩, live, free⟩)
  rw [planned]
  exact List.mem_singleton_self _

theorem pass_waits (sound : c.Sound) (planned : c.schedule.planned j = [⟨due, none, j⟩])
    (idle : j ∉ c.entries) (never : begun past j = []) :
    Stage j due ((t, .pass) :: past) { c with now := t, schedule := c.schedule.pass t } := by
  have step : Step t c .pass { c with now := t, schedule := c.schedule.pass t } := .pass
  have free : j ∉ c.schedule.queue := fun queued => idle (mem_entries_of_queue queued)
  have never' := (begun_of_not_queued step sound free).trans never
  have entries : j ∉ c.schedule.due t →
      j ∉ Crew.entries { c with now := t, schedule := c.schedule.pass t } := by
    intro spared entry
    rcases step.mem_entries sound entry with was | ⟨-, handed⟩
    · exact idle was
    · exact spared handed
  have timers := c.schedule.planned_pass t j
  by_cases dispatches : c.schedule.dispatches = true
  · rw [if_pos dispatches, planned] at timers
    have reaches : c.schedule.due t = c.schedule.handed t := if_pos dispatches
    by_cases handed : j ∈ c.schedule.due t
    · obtain ⟨⟨timer, listed, reached⟩, -⟩ := Schedule.of_mem_due handed
      rw [planned, List.mem_singleton] at listed
      subst listed
      have used : Timer.after t ⟨due, none, j⟩ = none := if_neg (Nat.not_lt.mpr reached)
      rw [List.filterMap_cons_none used, List.filterMap_nil, ite_self] at timers
      refine .queued timers ?_ reached never'
      exact (Schedule.queue_pass ..).symm ▸ List.mem_append_right _ handed
    have gone := fun queued => entries handed (mem_entries_of_queue queued)
    cases crashes : c.schedule.overflows t with
    | true =>
        rw [crashes, Bool.true_or, if_pos rfl] at timers
        refine .dropped timers gone never' (.inr ?_)
        exact (Schedule.crashed_pass ..).trans ((if_pos dispatches).trans crashes)
    | false =>
        rw [crashes, Bool.false_or] at timers
        by_cases cancelled : c.schedule.isCancelled j = true
        · rw [if_pos cancelled] at timers
          exact .dropped timers gone never'
            (.inl (.inl ((Schedule.isCancelled_pass ..).trans cancelled)))
        rw [if_neg cancelled] at timers
        have early := early_of_spared sound planned idle (by simpa using cancelled) crashes
          (reaches ▸ handed)
        have kept : Timer.after t ⟨due, none, j⟩ = some ⟨due, none, j⟩ := if_pos early
        rw [List.filterMap_cons_some kept, List.filterMap_nil] at timers
        exact .waits timers (entries handed) never'
  · rw [if_neg dispatches, planned] at timers
    refine .waits timers (entries ?_) never'
    rw [Schedule.due, if_neg dispatches]
    exact List.not_mem_nil

/-- A job moves on through its stages and never back. -/
theorem step (step : Step t c d c') (sound : c.Sound) (known : c.schedule.isKnown j = true)
    (later : c.now ≤ t) (stage : Stage j due past c) : Stage j due ((t, d) :: past) c' := by
  cases stage with
  | waits planned idle never =>
      by_cases pass : d = .pass
      · subst pass
        cases step
        exact pass_waits sound planned idle never
      · have stays : j ∉ c'.entries := by
          intro entry
          rcases step.mem_entries sound entry with was | ⟨isPass, -⟩
          · exact idle was
          · exact pass isPass
        have free : j ∉ c.schedule.queue := fun queued => idle (mem_entries_of_queue queued)
        have never' := (begun_of_not_queued step sound free).trans never
        rcases step.planned sound known with same | ⟨isPass, -⟩ | ⟨stopped, gone⟩
        · exact .waits (same.trans planned) stays never'
        · exact absurd isPass pass
        · exact .dropped gone (fun queued => stays (mem_entries_of_queue queued)) never'
            (.inl (.inr stopped))
  | queued planned waits reached never =>
      have planned' := step.planned_nil sound known planned
      rcases step.queue_keeps waits with still | taken
      · have begins : d.begun ≠ some j := fun begins =>
          (step.taken sound (Deed.taken_of_begun begins)).2 still
        have reached' : due ≤ c'.now := by
          rw [step.now]
          exact Nat.le_trans reached later
        exact .queued planned' still reached' ((begun_cons ..).trans ((if_neg begins).trans never))
      · have gone := (step.taken sound taken).2
        cases d with
        | begins k =>
            cases taken
            have once : begun ((t, .begins j) :: past) j = [t] := by
              rw [begun_cons, never]
              exact if_pos rfl
            exact .ran planned' gone once (Nat.le_trans reached later)
        | skips k =>
            cases taken
            have off := step.off_of_skips.imp ((step.lasts sound).isCancelled j)
              (step.lasts sound).stopped
            exact .dropped planned' gone ((begun_cons ..).trans never) (.inl off)
        | _ => cases taken
  | ran planned gone once reached =>
      exact .ran (step.planned_nil sound known planned) (not_queued step planned gone)
        ((begun_of_not_queued step sound gone).trans once) reached
  | dropped planned gone never lost =>
      have lasts := step.lasts sound
      exact .dropped (step.planned_nil sound known planned) (not_queued step planned gone)
        ((begun_of_not_queued step sound gone).trans never)
        (lost.imp (Or.imp (lasts.isCancelled j) lasts.stopped) lasts.crashed)

end Stage

/-! ### What holds since a job was made -/

theorem Goes.begun_of_unknown (goes : Goes c₀ past c) (sound : c₀.Sound)
    (unknown : c.schedule.isKnown j = false) : begun past j = [] := by
  induction goes with
  | refl => rfl
  | @step past c c' t d before _ step ih =>
      have unknown' : c.schedule.isKnown j = false := by
        rw [← Bool.not_eq_true]
        intro known
        rw [(step.lasts (before.sound sound)).isKnown j known] at unknown
        cases unknown
      have gone : j ∉ c.schedule.queue := by
        intro queued
        have active := (before.sound sound).mem_entries.mp (mem_entries_of_queue queued)
        rw [Schedule.isKnown_of_isActive active] at unknown'
        cases unknown'
      exact (Stage.begun_of_not_queued step (before.sound sound) gone).trans (ih unknown')

theorem Step.isKnown_of_made (step : Step t c d c') (made : d.made = some j) :
    c'.schedule.isKnown j = true := by
  cases step with
  | repeated =>
      cases made
      exact (Schedule.isKnown_insert ..).trans (by simp)
  | once _ _ _ _ told =>
      obtain rfl := Schedule.once_eq_ok told
      cases made
      exact (Schedule.isKnown_insert ..).trans (by simp)
  | _ => cases made

/-- What holds of a job when it is made, and what steps preserve from then on, holds. -/
theorem Goes.since_made {P : List (Nat × Deed ι) → Crew ι → Prop} {t₀ : Nat} {d₀ : Deed ι}
    (made : d₀.made = some j)
    (birth : ∀ {past : List (Nat × Deed ι)} {c c' : Crew ι}, Goes {} past c →
      Step t₀ c d₀ c' → P ((t₀, d₀) :: past) c')
    (keeps : ∀ {past : List (Nat × Deed ι)} {c c' : Crew ι} {t : Nat} {d : Deed ι},
      c.Sound → c.schedule.isKnown j = true → c.now ≤ t → Step t c d c' → P past c →
        P ((t, d) :: past) c')
    (goes : Goes {} past c) (listed : (t₀, d₀) ∈ past) :
    P past c ∧ c.schedule.isKnown j = true := by
  induction goes with
  | refl => cases listed
  | @step past c c' t d before later step ih =>
      rcases List.mem_cons.mp listed with same | earlier
      · cases same
        exact ⟨birth before step, step.isKnown_of_made made⟩
      · obtain ⟨holds, known⟩ := ih earlier
        have sound := before.sound .initial
        exact ⟨keeps sound known later step holds, (step.lasts sound).isKnown j known⟩

theorem Goes.isKnown_of_made {t₀ : Nat} {d₀ : Deed ι} (goes : Goes ({} : Crew ι) past c)
    (listed : (t₀, d₀) ∈ past) (made : d₀.made = some j) : c.schedule.isKnown j = true :=
  (Goes.since_made (P := fun _ _ => True) made (fun _ _ => trivial)
    (fun _ _ _ _ _ => trivial) goes listed).2

/-- A job that runs once waits as soon as it is made, unless the schedule was shut down before. -/
theorem Stage.made {name : String} {work : ι} {asked delay : Nat} (before : Goes {} past c)
    (step : Step t c (.once j name work asked delay) c') :
    Stage j (asked + delay) ((t, .once j name work asked delay) :: past) c' := by
  have sound := before.sound .initial
  have made := step
  cases made with
  | once _ _ _ _ told =>
      obtain rfl := Schedule.once_eq_ok told
      have unknown := sound.tidy.numbered.unknown_nextId
      have idle : c.schedule.nextId ∉ c.entries := by
        rw [sound.mem_entries]
        intro active
        rw [Schedule.isKnown_of_isActive active] at unknown
        cases unknown
      have stays := fun entry => (step.mem_entries sound entry).elim idle fun pass => nomatch pass.1
      have never := (begun_cons t (.once c.schedule.nextId name work asked delay) past _).trans
        (before.begun_of_unknown .initial unknown)
      have timers := sound.tidy.planned_nextId name work (asked + delay) none
      cases stopped : c.schedule.stopped with
      | true =>
          rw [stopped] at timers
          exact .dropped timers (fun queued => stays (mem_entries_of_queue queued)) never
            (.inl (.inr ((Schedule.stopped_insert ..).trans stopped)))
      | false =>
          rw [stopped] at timers
          exact .waits timers stays never

theorem Goes.stage {name : String} {work : ι} {asked delay t₀ : Nat}
    (goes : Goes ({} : Crew ι) past c) (listed : (t₀, .once j name work asked delay) ∈ past) :
    Stage j (asked + delay) past c :=
  (Goes.since_made rfl (fun before step => .made before step)
    (fun sound known later step stage => stage.step step sound known later) goes listed).1

/-! ### Jobs that repeat -/

/-- A job that is not off has its timer, due within one interval, as long as the dispatcher
lives. -/
def Regular (j : JobId) (asked interval : Nat) (c : Crew ι) : Prop :=
  c.schedule.crashed = true ∨ c.Off j ∨ ∃ due, c.schedule.planned j = [⟨due, some interval, j⟩] ∧
    due ≤ max asked (c.now + interval)

theorem Regular.step {asked interval : Nat} (positive : 0 < interval) (step : Step t c d c')
    (sound : c.Sound) (known : c.schedule.isKnown j = true) (later : c.now ≤ t)
    (regular : Regular j asked interval c) : Regular j asked interval c' := by
  have lasts := step.lasts sound
  rcases regular with dead | off | ⟨due, planned, soon⟩
  · exact .inl (lasts.crashed dead)
  · exact .inr (.inl (off.imp (lasts.isCancelled j) lasts.stopped))
  have soon' : due ≤ max asked (c'.now + interval) := by
    rw [step.now]
    omega
  rcases step.planned sound known with same | ⟨rfl, pass⟩ | ⟨stopped, -⟩
  · exact .inr (.inr ⟨due, same.trans planned, soon'⟩)
  · by_cases alive : c'.schedule.crashed = true
    · exact .inl alive
    have told : c.schedule.dispatches = true → c.schedule.overflows t = false := by
      cases step
      exact (Schedule.crashed_pass_eq_false (Bool.eq_false_iff.mpr alive)).2
    rw [Schedule.planned_pass, planned] at pass
    split at pass
    · next dispatches =>
        rw [told dispatches, Bool.false_or] at pass
        split at pass
        · next cancelled => exact .inr (.inl (.inl (lasts.isCancelled j cancelled)))
        · by_cases early : t < due
          · have kept : Timer.after t ⟨due, some interval, j⟩ = some ⟨due, some interval, j⟩ :=
              if_pos early
            rw [List.filterMap_cons_some kept] at pass
            exact .inr (.inr ⟨due, pass, soon'⟩)
          · have moved : Timer.after t ⟨due, some interval, j⟩ =
                some ⟨Timer.nextDue due interval t, some interval, j⟩ := if_neg early
            rw [List.filterMap_cons_some moved] at pass
            have bounds := Timer.nextDue_bounds due interval t positive (Nat.not_lt.mp early)
            refine .inr (.inr ⟨_, pass, ?_⟩)
            rw [step.now]
            exact Nat.le_trans bounds.2 (Nat.le_max_right ..)
    · exact .inr (.inr ⟨due, pass, soon'⟩)
  · exact .inr (.inl (.inr stopped))

theorem Goes.regular {name : String} {work : ι} {asked interval t₀ : Nat}
    (goes : Goes ({} : Crew ι) past c)
    (listed : (t₀, .repeated j name work asked interval) ∈ past) :
    Regular j asked (max interval minInterval) c := by
  refine (Goes.since_made rfl (P := fun _ => Regular j asked (max interval minInterval))
    ?_ ?_ goes listed).1
  · intro past c c' before step
    have sound := before.sound .initial
    cases step
    have timers := sound.tidy.planned_nextId name work asked (some (max interval minInterval))
    cases stopped : c.schedule.stopped with
    | true => exact .inr (.inl (.inr ((Schedule.stopped_insert ..).trans stopped)))
    | false =>
        rw [stopped] at timers
        exact .inr (.inr ⟨asked, timers, Nat.le_max_left ..⟩)
  · intro past c c' t d sound known later step regular
    have positive : 0 < max interval minInterval := by
      have : 0 < minInterval := by decide
      omega
    exact regular.step positive step sound known later

/-! ### Turns of the dispatcher and the workers -/

theorem begun_append (later earlier : List (Nat × Deed ι)) (j : JobId) :
    begun (later ++ earlier) j = begun later j ++ begun earlier j := List.filterMap_append ..

theorem taken_cons (t : Nat) (d : Deed ι) (past : List (Nat × Deed ι)) :
    Crew.taken ((t, d) :: past) = Crew.taken past ++ d.taken.toList := by
  unfold Crew.taken
  rw [List.reverse_cons, List.filterMap_append]
  cases found : d.taken <;> simp [found]

theorem Step.turn (step : Step t c d c') :
    ∃ added, d.taken.toList ++ c'.schedule.queue = c.schedule.queue ++ added := by
  cases step with
  | repeated => exact ⟨[], (Schedule.queue_insert ..).trans (List.append_nil _).symm⟩
  | once _ _ _ _ told =>
      obtain rfl := Schedule.once_eq_ok told
      exact ⟨[], (Schedule.queue_insert ..).trans (List.append_nil _).symm⟩
  | start started =>
      obtain rfl := Schedule.start_eq_ok started
      exact ⟨[], (List.append_nil _).symm⟩
  | pass => exact ⟨_, Schedule.queue_pass ..⟩
  | begins taken | skips taken =>
      obtain ⟨rest, queue, rfl⟩ := Schedule.take_eq_some taken
      refine ⟨[], ?_⟩
      rw [queue, List.append_nil]
      rfl
  | cancel | ends | releases => exact ⟨[], (List.append_nil _).symm⟩
  | shutdown => exact ⟨[], (c.schedule.queue_shutdown).trans (List.append_nil _).symm⟩

theorem Goes.turns (goes : Goes c₀ past c) :
    ∃ added, Crew.taken past ++ c.schedule.queue = c₀.schedule.queue ++ added := by
  induction goes with
  | refl => exact ⟨[], (List.append_nil _).symm⟩
  | @step past c c' t d before _ step ih =>
      obtain ⟨old, ih⟩ := ih
      obtain ⟨new, turn⟩ := step.turn
      refine ⟨old ++ new, ?_⟩
      rw [taken_cons, List.append_assoc, turn, ← List.append_assoc, ih, List.append_assoc]

theorem Goes.taken_of_turns (goes : Goes c₀ past c)
    (turns : c₀.schedule.queue.length ≤ (Crew.taken past).length)
    (waited : j ∈ c₀.schedule.queue) : ∃ e ∈ past, e.2.taken = some j := by
  obtain ⟨added, order⟩ := goes.turns
  have first : c₀.schedule.queue <+: Crew.taken past :=
    List.prefix_of_prefix_length_le (List.prefix_append ..) (order ▸ List.prefix_append ..) turns
  obtain ⟨e, listed, taken⟩ := List.mem_filterMap.mp (first.subset waited)
  exact ⟨e, List.mem_reverse.mp listed, taken⟩

theorem Goes.off_of_skips (goes : Goes c₀ past c) (sound : c₀.Sound)
    (listed : (t, .skips j) ∈ past) : c.Off j := by
  obtain ⟨later, earlier, rfl⟩ := List.append_of_mem listed
  obtain ⟨m, first, second⟩ := goes.split
  cases first with
  | step before _ step =>
      have off := step.off_of_skips.imp ((step.lasts (before.sound sound)).isCancelled j)
        (step.lasts (before.sound sound)).stopped
      exact second.off (step.sound (before.sound sound)) off

theorem Goes.started (goes : Goes c₀ past c) (sound : c₀.Sound)
    (listed : (t, .start) ∈ past) : c.schedule.started = true := by
  obtain ⟨later, earlier, rfl⟩ := List.append_of_mem listed
  obtain ⟨m, first, second⟩ := goes.split
  cases first with
  | step before _ step =>
      refine (second.lasts (step.sound (before.sound sound))).started ?_
      cases step with
      | start started =>
          obtain rfl := Schedule.start_eq_ok started
          rfl

theorem Goes.planned_nil (goes : Goes c₀ past c) (sound : c₀.Sound)
    (known : c₀.schedule.isKnown j = true) (none : c₀.schedule.planned j = []) :
    c.schedule.planned j = [] := by
  induction goes with
  | refl => exact none
  | step before _ step ih =>
      exact step.planned_nil (before.sound sound) ((before.lasts sound).isKnown j known) ih

theorem planned_nil_of_pass {due : Nat} (stage : Stage j due ((t, .pass) :: past) c')
    (step : Step t c .pass c') (dispatches : c.schedule.dispatches = true) (reached : due ≤ t) :
    c'.schedule.planned j = [] := by
  cases stage with
  | waits planned =>
      cases step
      have listed : (⟨due, none, j⟩ : Timer) ∈ (c.schedule.pass t).planned j := by
        rw [planned]
        exact List.mem_singleton_self _
      rw [Schedule.planned_pass, if_pos dispatches] at listed
      split at listed
      · cases listed
      · obtain ⟨timer, -, moved⟩ := List.mem_filterMap.mp listed
        unfold Timer.after at moved
        split at moved
        · next early =>
            obtain rfl := Option.some.inj moved
            exact absurd early (Nat.not_lt.mpr reached)
        · obtain ⟨i, repeats, same⟩ := Option.map_eq_some_iff.mp moved
          rw [(Timer.mk.inj same).2.1] at repeats
          cases repeats
  | queued planned | ran planned | dropped planned => exact planned

theorem Goes.dispatches {t₁ : Nat} (goes : Goes ({} : Crew ι) past c)
    (start : (t₁, .start) ∈ past) (unstopped : Unstopped past j)
    (alive : c.schedule.crashed = false) : c.schedule.dispatches = true := by
  have stopped : c.schedule.stopped = false := by
    simpa using fun stopped => goes.on_of_unstopped unstopped (.inr stopped)
  exact Schedule.dispatches_iff.mpr ⟨goes.started .initial start, stopped, alive⟩

/-- A job that is due when the dispatcher gets its turn and lives through it, and that is neither
cancelled nor shut down, has run once all entries that waited then have been taken. -/
theorem Goes.served {name : String} {work : ι} {asked delay t₀ t₁ : Nat}
    {later earlier : List (Nat × Deed ι)} {m : Crew ι}
    (before : Goes ({} : Crew ι) ((t, .pass) :: earlier) m) (after : Goes m later c)
    (listed : (t₀, .once j name work asked delay) ∈ earlier) (start : (t₁, .start) ∈ earlier)
    (reached : asked + delay ≤ t) (alive : m.schedule.crashed = false)
    (unstopped : Unstopped (later ++ (t, .pass) :: earlier) j)
    (turns : m.schedule.queue.length ≤ (Crew.taken later).length) :
    (begun (later ++ (t, .pass) :: earlier) j).length = 1 := by
  have sound := before.sound .initial
  have stage₁ := before.stage (List.mem_cons_of_mem _ listed)
  have stage := (before.trans after).stage
    (List.mem_append_right _ (List.mem_cons_of_mem _ listed))
  have on := (before.trans after).on_of_unstopped unstopped
  have known := before.isKnown_of_made (List.mem_cons_of_mem _ listed) rfl
  have planned₁ : m.schedule.planned j = [] := by
    cases before with
    | @step _ c₁ _ _ _ before' _ step =>
        have alive₁ : c₁.schedule.crashed = false := by
          cases step
          exact (Schedule.crashed_pass_eq_false alive).1
        have unstopped₁ : Unstopped earlier j := fun e there =>
          unstopped e (List.mem_append_right _ (List.mem_cons_of_mem _ there))
        have dispatches := before'.dispatches start unstopped₁ alive₁
        exact planned_nil_of_pass stage₁ step dispatches reached
  have planned := after.planned_nil sound known planned₁
  -- were the job never begun, it would have waited after the pass and been taken since
  have begins : begun (later ++ (t, .pass) :: earlier) j ≠ [] := by
    intro never
    rw [begun_append, List.append_eq_nil_iff] at never
    cases stage₁ with
    | waits timers => exact absurd (planned₁.symm.trans timers) (by simp)
    | ran _ _ once => exact absurd (never.2.symm.trans once) (by simp)
    | dropped _ _ _ lost =>
        rcases lost with off | dead
        · exact on (after.off sound off)
        · exact Bool.noConfusion (alive.symm.trans dead)
    | queued _ waited =>
        obtain ⟨⟨t', d⟩, there, taken⟩ := after.taken_of_turns turns waited
        cases d with
        | begins k =>
            cases taken
            have counted : t' ∈ begun later j :=
              List.mem_filterMap.mpr ⟨_, there, if_pos rfl⟩
            rw [never.1] at counted
            cases counted
        | skips k =>
            cases taken
            exact on (after.off_of_skips sound there)
        | _ => cases taken
  cases stage with
  | waits timers => rw [planned] at timers; cases timers
  | ran _ _ once => rw [once]; rfl
  | queued _ _ _ never | dropped _ _ never => exact absurd never begins

/-! ### All guarantees -/

structure Safe (past : List (Nat × Deed ι)) (c : Crew ι) : Prop where
  /-- A job has at most one run that is queued or with a worker. -/
  single : ∀ j, c.entries.count j ≤ 1
  active : ∀ j, c.schedule.isActive j = true ↔ j ∈ c.entries
  /-- The body of a job that runs once is started at most once, and not before it is due. -/
  once : ∀ {t j name work asked delay}, (t, .once j name work asked delay) ∈ past →
    (begun past j).length ≤ 1 ∧ ∀ t' ∈ begun past j, asked + delay ≤ t'
  /-- It is started exactly once, if it is neither cancelled nor shut down, the dispatcher has
  lived through a pass at an instant at which it was due, and since then the workers have taken as
  many entries as waited after that pass. -/
  served : ∀ {later earlier t m t₀ j name work asked delay t₁},
    past = later ++ (t, .pass) :: earlier → Goes {} ((t, .pass) :: earlier) m → Goes m later c →
    (t₀, .once j name work asked delay) ∈ earlier → (t₁, .start) ∈ earlier →
    asked + delay ≤ t → m.schedule.crashed = false → Unstopped past j →
    m.schedule.queue.length ≤ (Crew.taken later).length → (begun past j).length = 1
  /-- A job that was cancelled is never started again. -/
  cancelled : ∀ {later earlier t j}, past = later ++ (t, .cancel j) :: earlier →
    begun later j = []
  /-- After a shutdown no job is started any more. -/
  shutdown : ∀ {later earlier t}, past = later ++ (t, .shutdown) :: earlier →
    ∀ j, begun later j = []
  /-- A repeating job that is neither cancelled nor shut down has its timer, whatever became of
  its runs, and a pass that finds it due hands it out unless its last run is not over.  This is so
  as long as the dispatcher lives. -/
  kept : ∀ {t₀ j name work asked interval}, (t₀, .repeated j name work asked interval) ∈ past →
    Unstopped past j → c.schedule.crashed = false →
    ∃ due, c.schedule.planned j = [⟨due, some (max interval minInterval), j⟩] ∧
      due ≤ max asked (c.now + max interval minInterval) ∧
      ∀ t, due ≤ t → c.schedule.started = true → j ∉ c.entries →
        (c.schedule.pass t).crashed = false → j ∈ (c.schedule.pass t).queue
  /-- The end of a run changes nothing for the schedule, whether the body returns or fails. -/
  ended : ∀ {t j failed c'}, Step t c (.ends j failed) c' → c'.schedule = c.schedule
  /-- The entry is released after that, and the job can be handed out again. -/
  released : ∀ {t j c'}, Step t c (.releases j) c' →
    j ∉ c'.entries ∧ c'.schedule.timers = c.schedule.timers ∧
      ∀ k, c'.schedule.isCancelled k = c.schedule.isCancelled k

theorem Goes.begun_of_cancelled {later earlier : List (Nat × Deed ι)} (sound : c₀.Sound)
    (goes : Goes c₀ (later ++ (t, .cancel j) :: earlier) c) : begun later j = [] := by
  obtain ⟨m, first, second⟩ := goes.split
  have sound' := first.sound sound
  cases first with
  | step _ _ step =>
      refine second.begun_of_off sound' (.inl ?_)
      cases step with
      | cancel known => exact (Schedule.isCancelled_cancel ..).trans (by simp [known])

theorem Goes.begun_of_shutdown {later earlier : List (Nat × Deed ι)} (sound : c₀.Sound)
    (goes : Goes c₀ (later ++ (t, .shutdown) :: earlier) c) (j : JobId) : begun later j = [] := by
  obtain ⟨m, first, second⟩ := goes.split
  have sound' := first.sound sound
  cases first with
  | @step _ m _ _ _ _ _ step =>
      refine second.begun_of_off sound' (.inr ?_)
      cases step
      exact m.schedule.stopped_shutdown

theorem mem_queue_pass {timer : Timer} (sound : c.Sound) (on : ¬ c.Off j)
    (planned : c.schedule.planned j = [timer]) (reached : timer.due ≤ t)
    (started : c.schedule.started = true) (idle : j ∉ c.entries)
    (alive : (c.schedule.pass t).crashed = false) : j ∈ (c.schedule.pass t).queue := by
  have live : c.schedule.isCancelled j = false := by
    simpa using fun cancelled => on (.inl cancelled)
  have runs : c.schedule.stopped = false := by
    simpa using fun stopped => on (.inr stopped)
  have free : c.schedule.isActive j = false := by
    rw [← Bool.not_eq_true, ← sound.mem_entries]
    exact idle
  obtain ⟨lives, told⟩ := Schedule.crashed_pass_eq_false alive
  have dispatches := Schedule.dispatches_iff.mpr ⟨started, runs, lives⟩
  have handed : c.schedule.due t = c.schedule.handed t := if_pos dispatches
  rw [Schedule.queue_pass, handed]
  refine List.mem_append_right _
    ((Schedule.mem_handed (told dispatches)).mpr ⟨⟨timer, ?_, reached⟩, live, free⟩)
  rw [planned]
  exact List.mem_singleton_self _

theorem runs_safely (goes : Goes ({} : Crew ι) past c) : Safe past c where
  single := (goes.sound .initial).count_le
  active j := (goes.sound .initial).mem_entries.symm
  once listed := by
    cases goes.stage listed with
    | ran _ _ once reached => simpa [once] using reached
    | waits _ _ never | queued _ _ _ never | dropped _ _ never => simp [never]
  served split before after listed start reached alive unstopped turns := by
    subst split
    exact before.served after listed start reached alive unstopped turns
  cancelled split := (split ▸ goes).begun_of_cancelled .initial
  shutdown split := (split ▸ goes).begun_of_shutdown .initial
  kept listed unstopped alive := by
    have on := goes.on_of_unstopped unstopped
    have regular := (goes.regular listed).resolve_left (Bool.eq_false_iff.mp alive)
    obtain ⟨due, planned, soon⟩ := regular.resolve_left on
    exact ⟨due, planned, soon, fun t reached started idle =>
      mem_queue_pass (goes.sound .initial) on planned reached started idle⟩
  ended step := by
    cases step
    rfl
  released {t j c'} step := by
    have sound := goes.sound .initial
    refine ⟨fun entry => ?_, ?_⟩
    · have active := (step.sound sound).mem_entries.mp entry
      cases step
      rw [Schedule.isActive_release] at active
      simp at active
    · cases step
      exact ⟨rfl, fun k => Schedule.isCancelled_release ..⟩

/-- A job panics and runs again one interval later, beside a job that runs once, and in between
everything is as it should be. -/
theorem runs_safely_after_panic : ∃ (past : List (Nat × Deed Unit)) (c : Crew Unit),
    Goes {} past c ∧ (0, .ends ⟨1⟩ (some (.panic .unreadable))) ∈ past ∧
      begun past ⟨0⟩ = [5000000] ∧ begun past ⟨1⟩ = [5000000, 0] ∧ Safe past c := by
  have goes := (Goes.refl : Goes ({} : Crew Unit) [] {})
    |>.step (t := 0) (by decide) (.once "late" () 0 5000000 rfl)
    |>.step (t := 0) (by decide) (.repeated "beat" () 0 5000000)
    |>.step (t := 0) (by decide) (.start rfl)
    |>.step (t := 0) (by decide) .pass
    |>.step (t := 0) (by decide) (.begins rfl rfl)
    |>.step (t := 0) (by decide) (.ends (some (.panic .unreadable)) (j := ⟨1⟩) (by decide))
    |>.step (t := 0) (by decide) (.releases (j := ⟨1⟩) (by decide))
    |>.step (t := 5000000) (by decide) .pass
    |>.step (t := 5000000) (by decide) (.begins rfl rfl)
    |>.step (t := 5000000) (by decide) (.begins rfl rfl)
    |>.step (t := 5000000) (by decide) .shutdown
  exact ⟨_, _, goes, by simp, rfl, rfl, runs_safely goes⟩

end Crew

end RobotControl
