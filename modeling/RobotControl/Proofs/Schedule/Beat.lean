import RobotControl.Proofs.Schedule.Safety

/-!
# The beat of the dispatcher

A pass hands out what is due, and moves a timer that repeats by whole intervals, one after the
other, until it lies past the present (`Timer.Advances`).  As long as the sums can be told nothing
else becomes of the timers (`Schedule.Passed`), so a job that repeats is due at its first due time
and whole intervals after it for ever, and where no pass is late it is found due once at each of
these instants (`Crew.keeps_time`).  That is not to be handed out at each of them, and a pass in
which a sum cannot be told loses all timers (`Crew.beat_missed`).
-/
set_option autoImplicit false

namespace RobotControl

namespace Timer

/-- Adding an interval to a due time, and adding it again as long as the sum is not past an
instant.  It comes to nothing when a sum lies beyond the last instant. -/
inductive Advances (interval now : Nat) : Nat → Option Nat → Prop
  | last {due : Nat} (told : due + interval ≤ lastInstant) (past : now < due + interval) :
      Advances interval now due (some (due + interval))
  | again {due : Nat} {result : Option Nat} (told : due + interval ≤ lastInstant)
      (short : due + interval ≤ now) (rest : Advances interval now (due + interval) result) :
      Advances interval now due result
  | beyond {due : Nat} (untold : lastInstant < due + interval) : Advances interval now due none

/-- A number of intervals is the least positive one that takes a due time past an instant. -/
structure LeastPast (due interval now k : Nat) : Prop where
  positive : 0 < k
  past : now < due + k * interval
  least : ∀ m, 0 < m → now < due + m * interval → k ≤ m

variable {due due' interval now : Nat} {result : Option Nat}

theorem nextDue_of_lt (reached : due ≤ now) (past : now < due + interval) :
    nextDue due interval now = due + interval := by
  have none : (now - due) / interval = 0 := Nat.div_eq_of_lt (by omega)
  rw [nextDue, none, Nat.zero_add, Nat.mul_one]

theorem nextDue_of_le (positive : 0 < interval) (short : due + interval ≤ now) :
    nextDue due interval now = nextDue (due + interval) interval now := by
  have one : (now - due) / interval = (now - (due + interval)) / interval + 1 := by
    rw [← Nat.add_div_right _ positive]
    congr 1
    omega
  rw [nextDue, nextDue, one, Nat.mul_succ interval (_ + 1)]
  omega

theorem le_nextDue (due interval now : Nat) : due + interval ≤ nextDue due interval now := by
  rw [nextDue, Nat.mul_succ]
  omega

/-- As intervals are positive the additions come to an end: at the next due time, if this can be
told. -/
theorem advances_nextDue (positive : 0 < interval) (reached : due ≤ now) :
    Advances interval now due
      (if nextDue due interval now ≤ lastInstant then some (nextDue due interval now)
        else none) := by
  induction gap : now - due using Nat.strongRecOn generalizing due with
  | ind gap ih =>
      have least := le_nextDue due interval now
      by_cases told : due + interval ≤ lastInstant
      · by_cases past : now < due + interval
        · rw [nextDue_of_lt reached past, if_pos told]
          exact .last told past
        · have short := Nat.not_lt.mp past
          rw [nextDue_of_le positive short]
          exact .again told short (ih (now - (due + interval)) (by omega) short rfl)
      · rw [if_neg fun most => told (Nat.le_trans least most)]
        exact .beyond (Nat.not_le.mp told)

theorem exists_advances (positive : 0 < interval) (now due : Nat) :
    ∃ result, Advances interval now due result := by
  rcases Nat.lt_or_ge now due with early | reached
  · by_cases told : due + interval ≤ lastInstant
    · exact ⟨_, .last told (Nat.lt_add_right interval early)⟩
    · exact ⟨_, .beyond (Nat.not_le.mp told)⟩
  · exact ⟨_, advances_nextDue positive reached⟩

theorem Advances.unique {first second : Option Nat} (one : Advances interval now due first)
    (other : Advances interval now due second) : first = second := by
  induction one with
  | last told past =>
      cases other with
      | last => rfl
      | again _ short => omega
      | beyond => omega
  | again told short _ ih =>
      cases other with
      | last _ past => omega
      | again _ _ rest => exact ih rest
      | beyond => omega
  | beyond untold =>
      cases other with
      | last => omega
      | again => omega
      | beyond => rfl

theorem Advances.leastPast (advances : Advances interval now due result)
    (ends : result = some due') :
    ∃ k, due' = due + k * interval ∧ LeastPast due interval now k := by
  induction advances with
  | last _ past =>
      cases ends
      exact ⟨1, by rw [Nat.one_mul], Nat.one_pos, by rwa [Nat.one_mul], fun m more _ => more⟩
  | @again due result _ short rest ih =>
      obtain ⟨k, rfl, positive, past, least⟩ := ih ends
      have further : ∀ m, due + interval + m * interval = due + (m + 1) * interval := by
        intro m
        rw [Nat.succ_mul]
        omega
      refine ⟨k + 1, further k, k.succ_pos, further k ▸ past, fun m more enough => ?_⟩
      cases m with
      | zero => exact absurd more (Nat.lt_irrefl 0)
      | succ m =>
          refine Nat.succ_le_succ (least m (Nat.pos_of_ne_zero ?_) (further m ▸ enough))
          rintro rfl
          rw [Nat.zero_add, Nat.one_mul] at enough
          omega
  | beyond => cases ends

end Timer

namespace Schedule

variable {ι : Type} {s : Schedule ι} {now : Nat}

/-! ### One pass -/

/-- Intervals are not too short, and the timers stand in the order in which their jobs were
registered. -/
structure Spaced (s : Schedule ι) : Prop where
  interval : ∀ t ∈ s.timers, ∀ i, t.interval = some i → minInterval ≤ i
  order : (s.timers.map (·.job.number)).Pairwise (· < ·)

/-- What a pass at an instant makes of a timer. -/
inductive Fate (s : Schedule ι) (now : Nat) (t : Timer) : Option Timer → Prop
  | cancelled (cancelled : s.isCancelled t.job = true) : Fate s now t none
  | early (live : s.isCancelled t.job = false) (early : now < t.due) : Fate s now t (some t)
  | spent (live : s.isCancelled t.job = false) (due : t.due ≤ now) (once : t.interval = none) :
      Fate s now t none
  | moved {i k : Nat} (live : s.isCancelled t.job = false) (due : t.due ≤ now)
      (repeats : t.interval = some i) (advances : Timer.Advances i now t.due (some (t.due + k * i)))
      (least : Timer.LeastPast t.due i now k) (soon : t.due + k * i ≤ now + i) :
      Fate s now t (some { t with due := t.due + k * i })

/-- Every timer that a pass at an instant has to move has a due time that can be told afterwards. -/
def Told (s : Schedule ι) (now : Nat) : Prop :=
  ∀ t ∈ s.timers, s.isCancelled t.job = false → t.due ≤ now → ∀ i, t.interval = some i →
    ∃ due, Timer.Advances i now t.due (some due)

/-- A schedule after a pass at an instant. -/
structure Passed (s : Schedule ι) (now : Nat) (s' : Schedule ι) : Prop where
  /-- What is due, not cancelled, and has no run that is not over is handed out, each job once and
  in the order of registration. -/
  queue : ∃ handed, s'.queue = s.queue ++ handed ∧ handed.Nodup ∧
    handed.Sublist (s.timers.map (·.job)) ∧
    (∀ j, j ∈ handed ↔ (∃ t ∈ s.timers, t.job = j ∧ t.due ≤ now) ∧ s.isCancelled j = false ∧
      s.isActive j = false) ∧
    ∀ j, s'.isActive j = (s.isActive j || decide (j ∈ handed))
  timers : ∃ fate : Timer → Option Timer, s'.timers = s.timers.filterMap fate ∧
    ∀ t ∈ s.timers, s.Fate now t (fate t)
  dispatches : s'.dispatches = true

theorem Spaced.positive (spaced : s.Spaced) {t : Timer} (listed : t ∈ s.timers) {i : Nat}
    (repeats : t.interval = some i) : 0 < i :=
  Nat.lt_of_lt_of_le (by decide) (spaced.interval t listed i repeats)

theorem Spaced.told_iff (spaced : s.Spaced) (now : Nat) :
    s.Told now ↔ s.overflows now = false := by
  unfold overflows Told
  simp only [List.any_eq_false, kept, List.mem_filter, Bool.not_eq_true', Timer.overflows,
    Bool.and_eq_true, decide_eq_true_eq, Option.any_eq_true, not_and, and_imp]
  refine forall₄_congr fun t listed live due => ?_
  simp only [not_exists, not_and, Nat.not_lt]
  refine forall₂_congr fun i repeats => ?_
  have advances := Timer.advances_nextDue (spaced.positive listed repeats) due
  constructor
  · rintro ⟨due', told⟩
    by_contra beyond
    rw [if_neg beyond] at advances
    cases advances.unique told
  · intro told
    rw [if_pos told] at advances
    exact ⟨_, advances⟩

theorem Spaced.told_of_le (spaced : s.Spaced)
    (room : ∀ t ∈ s.timers, ∀ i, t.interval = some i → now + i ≤ lastInstant) : s.Told now := by
  intro t listed live due i repeats
  have positive := spaced.positive listed repeats
  have advances := Timer.advances_nextDue positive due
  have soon := (Timer.nextDue_bounds t.due i now positive due).2
  rw [if_pos (Nat.le_trans soon (room t listed i repeats))] at advances
  exact ⟨_, advances⟩

theorem fate_after (spaced : s.Spaced) (told : s.Told now) {t : Timer} (listed : t ∈ s.timers)
    (live : s.isCancelled t.job = false) : s.Fate now t (t.after now) := by
  by_cases early : now < t.due
  · rw [Timer.after_of_lt now t early]
    exact .early live early
  have due := Nat.not_lt.mp early
  cases repeats : t.interval with
  | none =>
      rw [Timer.after, if_neg early, repeats]
      exact .spent live due repeats
  | some i =>
      have positive := spaced.positive listed repeats
      have soon := (Timer.nextDue_bounds t.due i now positive due).2
      have moved : t.after now = some { t with due := Timer.nextDue t.due i now } := by
        rw [Timer.after, if_neg early, repeats]
        rfl
      obtain ⟨due', advances⟩ := told t listed live due i repeats
      have next := (Timer.advances_nextDue positive due).unique advances
      have same : Timer.nextDue t.due i now = due' := by
        split at next
        · exact Option.some.inj next
        · cases next
      obtain ⟨k, whole, least⟩ := advances.leastPast rfl
      rw [same, whole] at moved soon
      exact moved ▸ .moved live due repeats (whole ▸ advances) least soon

theorem passed_pass (tidy : s.Tidy) (spaced : s.Spaced) (dispatches : s.dispatches = true)
    (told : s.Told now) : s.Passed now (s.pass now) where
  queue := by
    have handed : s.due now = s.handed now := if_pos dispatches
    refine ⟨s.handed now, handed ▸ s.queue_pass now, nodup_handed tidy.distinct now,
      s.handed_sublist now, fun j => ?_, fun j => handed ▸ s.isActive_pass j now tidy.known⟩
    simp only [mem_handed ((spaced.told_iff now).mp told), planned, List.mem_filter,
      decide_eq_true_eq, and_assoc]
  timers := by
    refine ⟨fun t => if s.isCancelled t.job then none else t.after now, ?_, fun t listed => ?_⟩
    · rw [timers_pass, if_pos dispatches, (spaced.told_iff now).mp told, kept,
        List.filterMap_filter]
      refine (if_neg Bool.false_ne_true).trans ?_
      congr 1
      funext t
      cases s.isCancelled t.job <;> rfl
    · dsimp only
      split
      · next cancelled => exact .cancelled cancelled
      · next live => exact fate_after spaced told listed (Bool.eq_false_iff.mpr live)
  dispatches := by
    obtain ⟨started, stopped, alive⟩ := dispatches_iff.mp dispatches
    refine dispatches_iff.mpr ⟨(s.started_pass now).trans started,
      (s.stopped_pass now).trans stopped, ?_⟩
    rw [crashed_pass, if_pos dispatches, (spaced.told_iff now).mp told]

/-! ### Intervals and order last -/

theorem Spaced.initial : ({} : Schedule ι).Spaced :=
  ⟨fun _ listed => (List.not_mem_nil listed).elim, List.Pairwise.nil⟩

theorem Spaced.congr {s' : Schedule ι} (spaced : s.Spaced) (timers : s'.timers = s.timers) :
    s'.Spaced := ⟨timers ▸ spaced.interval, timers ▸ spaced.order⟩

theorem Spaced.insert (tidy : s.Tidy) (spaced : s.Spaced) (name : String) (work : ι) (due : Nat)
    {interval : Option Nat} (long : ∀ i, interval = some i → minInterval ≤ i) :
    (s.insert name work due interval).Spaced := by
  unfold Schedule.insert
  split
  · exact spaced.congr rfl
  · refine ⟨fun t listed i repeats => ?_, ?_⟩
    · rcases List.mem_append.mp listed with old | new
      · exact spaced.interval t old i repeats
      · obtain rfl := List.mem_singleton.mp new
        exact long i repeats
    · simp only [List.map_append, List.map_singleton, List.pairwise_append, List.mem_map,
        List.pairwise_singleton, List.mem_singleton, true_and]
      refine ⟨spaced.order, ?_⟩
      rintro _ ⟨t, listed, rfl⟩ _ rfl
      exact (tidy.numbered t.job).mp (tidy.known t listed)

theorem Spaced.pass (spaced : s.Spaced) (now : Nat) : (s.pass now).Spaced := by
  refine ⟨fun t' listed i repeats => ?_, ?_⟩
  · rw [timers_pass] at listed
    split at listed
    · split at listed
      · cases listed
      obtain ⟨t, kept, after⟩ := List.mem_filterMap.mp listed
      have same : t'.interval = t.interval := by
        unfold Timer.after at after
        split at after
        · cases after
          rfl
        · obtain ⟨i, -, rfl⟩ := Option.map_eq_some_iff.mp after
          rfl
      exact spaced.interval t (List.mem_filter.mp kept).1 i (same ▸ repeats)
    · exact spaced.interval t' listed i repeats
  · have jobs := (s.jobs_pass now).map JobId.number
    rw [List.map_map, List.map_map] at jobs
    exact spaced.order.sublist jobs

theorem Spaced.shutdown (spaced : s.Spaced) : s.shutdown.Spaced := by
  unfold Schedule.shutdown
  split
  · exact spaced
  · exact ⟨fun _ listed => (List.not_mem_nil listed).elim, List.Pairwise.nil⟩

/-! ### Retelling a record -/

/-- A schedule after something happened to it at an instant. -/
def obey (s : Schedule ι) (t : Nat) : Deed ι → Schedule ι
  | .repeated _ name work asked interval => s.repeated name work asked interval
  | .once _ name work asked delay => s.insert name work (asked + delay) none
  | .cancel j => s.cancel j
  | .start => { s with started := true }
  | .pass => s.pass t
  | .begins _ | .skips _ => { s with queue := s.queue.tail }
  | .ends .. => s
  | .releases j => s.release j
  | .shutdown => s.shutdown

/-- The schedule that a record leads to. -/
def ofRecord : List (Nat × Deed ι) → Schedule ι
  | [] => {}
  | (t, d) :: past => (ofRecord past).obey t d

/-- A pass at this instant finds the job due. -/
def finds (s : Schedule ι) (j : JobId) (now : Nat) : Bool :=
  s.dispatches && !s.isCancelled j && (s.planned j).any fun t => t.due ≤ now

theorem finds_of_mem_due {j : JobId} (due : j ∈ s.due now) :
    s.finds j now = true ∧ s.isActive j = false := by
  obtain ⟨⟨t, planned, reached⟩, live, free⟩ := of_mem_due due
  unfold Schedule.due at due
  split at due
  · next dispatches =>
      have waits : ((s.planned j).any fun t => t.due ≤ now) = true :=
        List.any_eq_true.mpr ⟨t, planned, decide_eq_true reached⟩
      exact ⟨by simp [finds, dispatches, live, waits], free⟩
  · cases due

theorem mem_due_iff (told : s.dispatches = true → s.overflows now = false) {j : JobId} :
    j ∈ s.due now ↔ s.finds j now = true ∧ s.isActive j = false := by
  refine ⟨finds_of_mem_due, ?_⟩
  rintro ⟨found, free⟩
  simp only [finds, Bool.and_eq_true, Bool.not_eq_true', List.any_eq_true,
    decide_eq_true_eq] at found
  obtain ⟨⟨dispatches, live⟩, waits⟩ := found
  rw [due, if_pos dispatches]
  exact (mem_handed (told dispatches)).mpr ⟨waits, live, free⟩

theorem Tidy.isKnown_of_finds (tidy : s.Tidy) {j : JobId} (found : s.finds j now = true) :
    s.isKnown j = true := by
  simp only [finds, Bool.and_eq_true, List.any_eq_true] at found
  obtain ⟨-, t, planned, -⟩ := found
  obtain ⟨listed, same⟩ := List.mem_filter.mp planned
  exact of_decide_eq_true same ▸ tidy.known t listed

end Schedule

namespace Crew

variable {ι : Type} {c c' c₀ : Crew ι} {t : Nat} {d : Deed ι} {past : List (Nat × Deed ι)}
  {j : JobId} {p q : Schedule ι → Nat → Bool}

theorem Step.spaced (step : Step t c d c') (sound : c.Sound) (spaced : c.schedule.Spaced) :
    c'.schedule.Spaced := by
  cases step with
  | repeated name work asked interval =>
      refine spaced.insert sound.tidy name work asked fun i same => ?_
      obtain rfl := Option.some.inj same
      exact Nat.le_max_right ..
  | once name work asked delay told =>
      obtain rfl := Schedule.once_eq_ok told
      exact spaced.insert sound.tidy name work (asked + delay) fun i same => nomatch same
  | start started =>
      obtain rfl := Schedule.start_eq_ok started
      exact spaced.congr rfl
  | pass => exact spaced.pass t
  | begins taken | skips taken =>
      obtain ⟨rest, -, rfl⟩ := Schedule.take_eq_some taken
      exact spaced.congr rfl
  | cancel | ends | releases => exact spaced.congr rfl
  | shutdown => exact spaced.shutdown

theorem Goes.spaced (goes : Goes ({} : Crew ι) past c) : c.schedule.Spaced := by
  induction goes with
  | refl => exact .initial
  | step before _ step ih => exact step.spaced (before.sound .initial) ih

theorem Step.obey (step : Step t c d c') : c'.schedule = c.schedule.obey t d := by
  cases step with
  | once _ _ _ _ told => exact Schedule.once_eq_ok told
  | start started => exact Schedule.start_eq_ok started
  | begins taken | skips taken =>
      obtain ⟨rest, queue, rfl⟩ := Schedule.take_eq_some taken
      simp only [Schedule.obey, queue, List.tail_cons]
  | _ => rfl

theorem Goes.retold (goes : Goes ({} : Crew ι) past c) : c.schedule = .ofRecord past := by
  induction goes with
  | refl => rfl
  | step _ _ step ih => rw [step.obey, ih, Schedule.ofRecord]

/-! ### The passes on record -/

/-- The instants of those passes on record that met a schedule of a certain kind, the latest
first. -/
def passesWhere (p : Schedule ι → Nat → Bool) : List (Nat × Deed ι) → List Nat
  | [] => []
  | (t, .pass) :: past =>
      if p (.ofRecord past) t then t :: passesWhere p past else passesWhere p past
  | _ :: past => passesWhere p past

/-- The passes that were made since the job was registered. -/
def passedAt (past : List (Nat × Deed ι)) (j : JobId) : List Nat :=
  passesWhere (fun s _ => s.dispatches && s.isKnown j) past

/-- The passes that found the job due. -/
def foundAt (past : List (Nat × Deed ι)) (j : JobId) : List Nat :=
  passesWhere (fun s t => s.finds j t) past

/-- The passes that handed the job to the workers. -/
def handedAt (past : List (Nat × Deed ι)) (j : JobId) : List Nat :=
  passesWhere (fun s t => decide (j ∈ s.due t)) past

/-- The passes that found the job due, but with a run that was not over. -/
def skippedAt (past : List (Nat × Deed ι)) (j : JobId) : List Nat :=
  passesWhere (fun s t => s.finds j t && s.isActive j) past

theorem passesWhere_of_ne_pass (other : d ≠ .pass) :
    passesWhere p ((t, d) :: past) = passesWhere p past := by
  cases d <;> first | exact absurd rfl other | rfl

theorem passesWhere_sublist (weaker : ∀ s t, p s t = true → q s t = true)
    (past : List (Nat × Deed ι)) : (passesWhere p past).Sublist (passesWhere q past) := by
  induction past with
  | nil => exact List.Sublist.slnil
  | cons e past ih =>
      obtain ⟨t, d⟩ := e
      by_cases pass : d = .pass
      · subst pass
        unfold passesWhere
        split
        · next holds =>
            rw [if_pos (weaker _ _ holds)]
            exact ih.cons_cons t
        · split
          · exact ih.cons t
          · exact ih
      · rw [passesWhere_of_ne_pass pass, passesWhere_of_ne_pass pass]
        exact ih

theorem mem_passesWhere_or (p q : Schedule ι → Nat → Bool) (past : List (Nat × Deed ι)) (t : Nat) :
    t ∈ passesWhere (fun s t => p s t || q s t) past ↔
      t ∈ passesWhere p past ∨ t ∈ passesWhere q past := by
  induction past with
  | nil => simp [passesWhere]
  | cons e past ih =>
      obtain ⟨t', d⟩ := e
      by_cases pass : d = .pass
      · subst pass
        unfold passesWhere
        cases p (.ofRecord past) t' <;> cases q (.ofRecord past) t' <;> simp [ih] <;> tauto
      · simp only [passesWhere_of_ne_pass pass, ih]

theorem Goes.passesWhere_congr (goes : Goes ({} : Crew ι) past c)
    (alive : c.schedule.crashed = false)
    (same : ∀ s t, (s.dispatches = true → s.overflows t = false) → p s t = q s t) :
    passesWhere p past = passesWhere q past := by
  induction goes with
  | refl => rfl
  | @step past c c' t d before _ step ih =>
      have alive' : c.schedule.crashed = false := by
        rw [← Bool.not_eq_true]
        intro dead
        rw [(step.lasts (before.sound .initial)).crashed dead] at alive
        cases alive
      by_cases pass : d = .pass
      · subst pass
        cases step
        have told := (Schedule.crashed_pass_eq_false alive).2
        rw [before.retold] at told
        unfold passesWhere
        rw [same _ _ told, ih alive']
      · rw [passesWhere_of_ne_pass pass, passesWhere_of_ne_pass pass, ih alive']

theorem Goes.mem_foundAt (goes : Goes ({} : Crew ι) past c) (alive : c.schedule.crashed = false) :
    t ∈ foundAt past j ↔ t ∈ handedAt past j ∨ t ∈ skippedAt past j := by
  have split : foundAt past j =
      passesWhere (fun s t => decide (j ∈ s.due t) || (s.finds j t && s.isActive j)) past := by
    refine goes.passesWhere_congr alive fun s t told => ?_
    cases active : s.isActive j <;> simp [Schedule.mem_due_iff told, active]
  rw [split]
  exact mem_passesWhere_or _ _ past t

theorem handedAt_sublist (past : List (Nat × Deed ι)) (j : JobId) :
    (handedAt past j).Sublist (foundAt past j) :=
  passesWhere_sublist (fun _ _ handed =>
    (Schedule.finds_of_mem_due (of_decide_eq_true handed)).1) past

theorem passesWhere_le {now : Nat} (later : now ≤ t)
    (before : ∀ t' ∈ passesWhere p past, t' ≤ now) :
    ∀ t' ∈ passesWhere p ((t, d) :: past), t' ≤ t := by
  intro t' passed
  by_cases pass : d = .pass
  · subst pass
    unfold passesWhere at passed
    split at passed
    · rcases List.mem_cons.mp passed with rfl | old
      · exact Nat.le_refl _
      · exact Nat.le_trans (before t' old) later
    · exact Nat.le_trans (before t' passed) later
  · rw [passesWhere_of_ne_pass pass] at passed
    exact Nat.le_trans (before t' passed) later

theorem Goes.passesWhere_of_unknown (goes : Goes ({} : Crew ι) past c)
    (knows : ∀ s t, s.Tidy → p s t = true → s.isKnown j = true)
    (unknown : c.schedule.isKnown j = false) : passesWhere p past = [] := by
  induction goes with
  | refl => rfl
  | @step past c c' t d before _ step ih =>
      have sound := before.sound .initial
      have unknown' : c.schedule.isKnown j = false := by
        rw [← Bool.not_eq_true]
        intro known
        rw [(step.lasts sound).isKnown j known] at unknown
        cases unknown
      by_cases pass : d = .pass
      · subst pass
        unfold passesWhere
        rw [if_neg, ih unknown']
        intro holds
        rw [← before.retold] at holds
        rw [knows _ _ sound.tidy holds] at unknown'
        cases unknown'
      · rw [passesWhere_of_ne_pass pass, ih unknown']

/-! ### Jobs that repeat -/

/-- Every due instant that is over has had its pass. -/
def Punctual (past : List (Nat × Deed ι)) (c : Crew ι) (j : JobId) (first interval : Nat) : Prop :=
  ∀ k, first + k * interval < c.now → first + k * interval ∈ passedAt past j

/-- The timer of a job has been moved on by so many intervals. -/
structure Beats (j : JobId) (first interval : Nat) (past : List (Nat × Deed ι)) (c : Crew ι)
    (n : Nat) : Prop where
  planned : c.schedule.planned j = [⟨first + n * interval, some interval, j⟩]
  passed : ∀ t ∈ passedAt past j, t < first + n * interval
  soon : n = 0 ∨ ∃ t ∈ foundAt past j, first + n * interval ≤ t + interval
  found : foundAt past j ⊆ passedAt past j
  once : (foundAt past j).Pairwise (· > ·)
  punctual : Punctual past c j first interval → ∀ t, t ∈ foundAt past j ↔
    (∃ k, t = first + k * interval) ∧ t ∈ passedAt past j

section Beats

variable {first interval n : Nat}

theorem Punctual.before (punctual : Punctual ((t, d) :: past) c' j first interval)
    (later : c.now ≤ t) (now : c'.now = t) : Punctual past c j first interval := by
  intro k gone
  have passed := punctual k (now ▸ Nat.lt_of_lt_of_le gone later)
  by_cases pass : d = .pass
  · subst pass
    unfold passedAt passesWhere at passed
    split at passed
    · rcases List.mem_cons.mp passed with here | before
      · omega
      · exact before
    · exact passed
  · rwa [passedAt, passesWhere_of_ne_pass pass] at passed

theorem Beats.congr (beats : Beats j first interval past c n) (later : c.now ≤ t)
    (now : c'.now = t) (planned : c'.schedule.planned j = c.schedule.planned j)
    (passed : passedAt ((t, d) :: past) j = passedAt past j)
    (found : foundAt ((t, d) :: past) j = foundAt past j) :
    Beats j first interval ((t, d) :: past) c' n := by
  refine ⟨planned.trans beats.planned, ?_, ?_, ?_, ?_, fun punctual => ?_⟩
  · rw [passed]
    exact beats.passed
  · rw [found]
    exact beats.soon
  · rw [found, passed]
    exact beats.found
  · rw [found]
    exact beats.once
  · rw [found, passed]
    exact beats.punctual (punctual.before later now)

/-- The beat is the least one past the passes that were made: one that would come earlier has
been found by the last of them. -/
theorem Beats.found_of_early (beats : Beats j first interval past c n)
    (goes : ∀ t' ∈ foundAt past j, t' ≤ t)
    {k : Nat} (early : t < first + n * interval) (beat : t = first + k * interval) :
    t ∈ foundAt past j := by
  have less : k < n := by
    have bound : k * interval < n * interval := by omega
    exact Nat.lt_of_mul_lt_mul_right bound
  obtain ⟨t', found, soon⟩ := beats.soon.resolve_left (Nat.ne_of_gt (Nat.zero_lt_of_lt less))
  have most := goes t' found
  have next : (k + 1) * interval ≤ n * interval := Nat.mul_le_mul_right _ less
  rw [Nat.succ_mul] at next
  have same : t' = t := by omega
  exact same ▸ found

theorem Beats.pass_early (beats : Beats j first interval past c n) (later : c.now ≤ t)
    (goes : ∀ t' ∈ foundAt past j, t' ≤ c.now) (now : c'.now = t)
    (planned : c'.schedule.planned j = c.schedule.planned j) (early : t < first + n * interval)
    (passed : passedAt ((t, .pass) :: past) j = t :: passedAt past j)
    (found : foundAt ((t, .pass) :: past) j = foundAt past j) :
    Beats j first interval ((t, .pass) :: past) c' n := by
  refine ⟨planned.trans beats.planned, ?_, ?_, ?_, ?_, fun punctual u => ?_⟩
  · rw [passed]
    exact List.forall_mem_cons.mpr ⟨early, beats.passed⟩
  · rw [found]
    exact beats.soon
  · rw [found, passed]
    exact List.subset_cons_of_subset t beats.found
  · rw [found]
    exact beats.once
  · have old := beats.punctual (punctual.before later now) u
    rw [found, passed, List.mem_cons]
    constructor
    · intro member
      exact ⟨(old.mp member).1, .inr (old.mp member).2⟩
    · rintro ⟨⟨k, beat⟩, rfl | before⟩
      · exact beats.found_of_early (fun t' member => Nat.le_trans (goes t' member) later) early beat
      · exact old.mpr ⟨⟨k, beat⟩, before⟩

theorem Beats.pass_due (beats : Beats j first interval past c n) (positive : 0 < interval)
    (later : c.now ≤ t) (now : c'.now = t) (due : first + n * interval ≤ t)
    (planned : c'.schedule.planned j =
      [⟨Timer.nextDue (first + n * interval) interval t, some interval, j⟩])
    (passed : passedAt ((t, .pass) :: past) j = t :: passedAt past j)
    (found : foundAt ((t, .pass) :: past) j = t :: foundAt past j) :
    ∃ n', Beats j first interval ((t, .pass) :: past) c' n' := by
  have bounds := Timer.nextDue_bounds (first + n * interval) interval t positive due
  have whole : Timer.nextDue (first + n * interval) interval t =
      first + (n + ((t - (first + n * interval)) / interval + 1)) * interval := by
    rw [Timer.nextDue, Nat.add_mul, Nat.mul_comm interval, Nat.add_assoc]
  rw [whole] at bounds planned
  refine ⟨_, planned, ?_, ?_, ?_, ?_, fun punctual u => ?_⟩
  · rw [passed]
    refine List.forall_mem_cons.mpr ⟨bounds.1, fun t' before => ?_⟩
    exact Nat.lt_trans (Nat.lt_of_lt_of_le (beats.passed t' before) due) bounds.1
  · rw [found]
    exact .inr ⟨t, List.mem_cons_self, bounds.2⟩
  · rw [found, passed]
    exact List.cons_subset_cons t beats.found
  · rw [found]
    refine List.pairwise_cons.mpr ⟨fun t' before => ?_, beats.once⟩
    exact Nat.lt_of_lt_of_le (beats.passed t' (beats.found before)) due
  · have old := beats.punctual (punctual.before later now) u
    -- a due instant before this one would have had its pass, and the timer would be past it
    have here : t = first + n * interval := by
      by_contra late
      have gone : first + n * interval < c'.now := by omega
      have there := punctual n gone
      rw [passed] at there
      rcases List.mem_cons.mp there with same | before
      · exact late same.symm
      · exact Nat.lt_irrefl _ (beats.passed _ before)
    rw [found, passed, List.mem_cons, List.mem_cons, old]
    constructor
    · rintro (rfl | ⟨beat, before⟩)
      · exact ⟨⟨n, here⟩, .inl rfl⟩
      · exact ⟨beat, .inr before⟩
    · rintro ⟨beat, rfl | before⟩
      · exact .inl rfl
      · exact .inr ⟨beat, before⟩

theorem Beats.step (beats : Beats j first interval past c n) (positive : 0 < interval)
    (retold : c.schedule = .ofRecord past) (goes : ∀ t' ∈ foundAt past j, t' ≤ c.now)
    (step : Step t c d c') (sound : c.Sound) (known : c.schedule.isKnown j = true)
    (later : c.now ≤ t) (alive : c'.schedule.crashed = false) :
    c'.Off j ∨ ∃ n', Beats j first interval ((t, d) :: past) c' n' := by
  by_cases pass : d = .pass
  · subst pass
    cases step
    have timers := c.schedule.planned_pass t j
    have told := (Schedule.crashed_pass_eq_false alive).2
    have found : foundAt ((t, .pass) :: past) j =
        if c.schedule.finds j t then t :: foundAt past j else foundAt past j := by
      rw [retold]
      rfl
    have passed : passedAt ((t, .pass) :: past) j =
        if c.schedule.dispatches && c.schedule.isKnown j then t :: passedAt past j
        else passedAt past j := by
      rw [retold]
      rfl
    cases dispatches : c.schedule.dispatches with
    | false =>
        simp only [dispatches, Schedule.finds, Bool.false_and, Bool.false_eq_true, if_false]
          at timers found passed
        exact .inr ⟨n, beats.congr later rfl timers passed found⟩
    | true =>
        cases cancelled : c.schedule.isCancelled j with
        | true => exact .inl (.inl ((Schedule.isCancelled_pass ..).trans cancelled))
        | false =>
            simp only [dispatches, told dispatches, cancelled, known, Schedule.finds, beats.planned,
              List.any_cons, List.any_nil, Bool.not_false, Bool.and_true, Bool.true_and,
              Bool.or_false, Bool.false_eq_true, if_false, if_true, decide_eq_true_eq]
              at timers found passed
            by_cases early : t < first + n * interval
            · rw [if_neg (Nat.not_le.mpr early)] at found
              refine .inr ⟨n, beats.pass_early later goes rfl ?_ early passed found⟩
              rw [timers, beats.planned]
              exact List.filterMap_cons_some (if_pos early)
            · have due := Nat.not_lt.mp early
              rw [if_pos due] at found
              refine .inr (beats.pass_due positive later rfl due ?_ passed found)
              rw [timers]
              exact List.filterMap_cons_some (if_neg early)
  · rcases step.planned sound known with same | ⟨isPass, -⟩ | ⟨stopped, -⟩
    · exact .inr ⟨n, beats.congr later step.now same (passesWhere_of_ne_pass pass)
        (passesWhere_of_ne_pass pass)⟩
    · exact absurd isPass pass
    · exact .inl (.inr stopped)

end Beats

/-- As long as it is not off and the dispatcher lives, a job has its beat. -/
theorem Goes.beats {name : String} {work : ι} {asked interval t₀ : Nat}
    (goes : Goes ({} : Crew ι) past c)
    (listed : (t₀, .repeated j name work asked interval) ∈ past)
    (alive : c.schedule.crashed = false) :
    c.Off j ∨ ∃ n, Beats j asked (max interval minInterval) past c n := by
  have positive : 0 < max interval minInterval :=
    Nat.lt_of_lt_of_le (by decide) (Nat.le_max_right interval minInterval)
  suffices all : (c.schedule = .ofRecord past ∧ ∀ t ∈ foundAt past j, t ≤ c.now) ∧
      (c.schedule.crashed = false →
        c.Off j ∨ ∃ n, Beats j asked (max interval minInterval) past c n) from all.2 alive
  refine (Goes.since_made rfl (P := fun past c =>
    (c.schedule = .ofRecord past ∧ ∀ t ∈ foundAt past j, t ≤ c.now) ∧
      (c.schedule.crashed = false →
        c.Off j ∨ ∃ n, Beats j asked (max interval minInterval) past c n)) ?_ ?_ goes listed).1
  · intro past c c' before step
    have sound := before.sound .initial
    have retold : c'.schedule = .ofRecord ((t₀, .repeated j name work asked interval) :: past) := by
      rw [step.obey, before.retold, Schedule.ofRecord]
    cases step
    have unknown := sound.tidy.numbered.unknown_nextId
    have passed : passedAt past c.schedule.nextId = [] :=
      before.passesWhere_of_unknown (fun _ _ _ both => (Bool.and_eq_true_iff.mp both).2) unknown
    have found : foundAt past c.schedule.nextId = [] :=
      before.passesWhere_of_unknown (fun _ _ tidy => tidy.isKnown_of_finds) unknown
    have timers := sound.tidy.planned_nextId name work asked (some (max interval minInterval))
    refine ⟨⟨retold, fun t listed => ?_⟩, fun _ => ?_⟩
    · exact (List.not_mem_nil (found ▸ listed)).elim
    cases stopped : c.schedule.stopped with
    | true => exact .inl (.inr ((Schedule.stopped_insert ..).trans stopped))
    | false =>
        rw [stopped] at timers
        refine .inr ⟨0, ?_, ?_, .inl rfl, ?_, ?_, fun _ t => ?_⟩
        · rw [Nat.zero_mul, Nat.add_zero]
          exact timers
        · exact fun t listed => (List.not_mem_nil (passed ▸ listed)).elim
        · exact fun t listed => (List.not_mem_nil (found ▸ listed)).elim
        · exact found ▸ List.Pairwise.nil
        · refine ⟨fun listed => (List.not_mem_nil (found ▸ listed)).elim, fun both => ?_⟩
          exact (List.not_mem_nil (passed ▸ both.2)).elim
  · rintro past c c' t d sound known later step ⟨⟨retold, goes⟩, state⟩
    have lasts := step.lasts sound
    refine ⟨⟨by rw [step.obey, retold, Schedule.ofRecord], ?_⟩, fun alive => ?_⟩
    · rw [step.now]
      exact passesWhere_le later goes
    have before : c.schedule.crashed = false := by
      rw [← Bool.not_eq_true]
      exact fun dead => Bool.noConfusion (alive.symm.trans (lasts.crashed dead))
    rcases state before with off | ⟨n, beats⟩
    · exact .inl (off.imp (lasts.isCancelled j) lasts.stopped)
    · exact beats.step positive retold goes step sound known later alive

/-! ### Time is kept -/

/-- What the record of a schedule says about time. -/
structure Timekeeping (past : List (Nat × Deed ι)) (c : Crew ι) : Prop where
  tidy : c.schedule.Tidy
  spaced : c.schedule.Spaced
  /-- The jobs with a run that is not over are those in the queue or with a worker. -/
  active : ∀ j, c.schedule.isActive j = true ↔ j ∈ c.entries
  /-- A job that repeats is due whole intervals after its first due time, and no pass hands it out
  twice. -/
  steady : c.schedule.crashed = false →
    ∀ {t₀ j name work asked interval}, (t₀, .repeated j name work asked interval) ∈ past →
      Unstopped past j →
        (∃ n, c.schedule.planned j =
          [⟨asked + n * max interval minInterval, some (max interval minInterval), j⟩]) ∧
        (handedAt past j).Pairwise (· > ·)
  /-- If there was a pass at each due instant, then the passes at these instants, and no others,
  have handed it out, or skipped it as its last run was not over. -/
  punctual : c.schedule.crashed = false →
    ∀ {t₀ j name work asked interval}, (t₀, .repeated j name work asked interval) ∈ past →
      Unstopped past j → Punctual past c j asked (max interval minInterval) →
        ∀ t, t ∈ handedAt past j ∨ t ∈ skippedAt past j ↔
          (∃ k, t = asked + k * max interval minInterval) ∧ t ∈ passedAt past j

/-- The additions come to an end, as intervals are positive; a pass that can tell all sums does to
queue and timers what it should and nothing else; and as long as all passes could, the jobs that
repeat keep their beat over any record. -/
theorem keeps_time :
    (∀ interval now due : Nat, 0 < interval → ∃! result, Timer.Advances interval now due result) ∧
    (∀ s : Schedule ι, s.Tidy → s.Spaced → s.dispatches = true →
      ∀ now, s.Told now → s.Passed now (s.pass now)) ∧
    ∀ (past : List (Nat × Deed ι)) (c : Crew ι), Goes {} past c → Timekeeping past c := by
  refine ⟨fun interval now due positive => ?_, fun s tidy spaced dispatches now told =>
    Schedule.passed_pass tidy spaced dispatches told, fun past c goes => ?_⟩
  · obtain ⟨result, advances⟩ := Timer.exists_advances positive now due
    exact ⟨result, advances, fun _ other => other.unique advances⟩
  have sound := goes.sound .initial
  have beats : c.schedule.crashed = false → ∀ {t₀ j name work asked interval},
      (t₀, .repeated j name work asked interval) ∈ past → Unstopped past j →
        ∃ n, Beats j asked (max interval minInterval) past c n := fun alive _ _ _ _ _ _ listed
    unstopped => (goes.beats listed alive).resolve_left (goes.on_of_unstopped unstopped)
  refine ⟨sound.tidy, goes.spaced, fun j => sound.mem_entries.symm,
    fun alive _ _ _ _ _ _ listed unstopped => ?_,
    fun alive _ _ _ _ _ _ listed unstopped punctual t => ?_⟩
  · obtain ⟨n, beat⟩ := beats alive listed unstopped
    exact ⟨⟨n, beat.planned⟩, beat.once.sublist (handedAt_sublist past _)⟩
  · obtain ⟨n, beat⟩ := beats alive listed unstopped
    exact (goes.mem_foundAt alive).symm.trans (beat.punctual punctual t)

/-- One job is served every five milliseconds, beside one whose first run takes longer than its
interval of seven. -/
def busyDispatcher : List (Nat × Deed Unit) :=
  [(10000000, .pass), (7000000, .pass), (6000000, .releases ⟨0⟩), (6000000, .ends ⟨0⟩ none),
    (5000000, .begins ⟨0⟩), (5000000, .pass), (1000000, .begins ⟨1⟩), (1000000, .releases ⟨0⟩),
    (1000000, .ends ⟨0⟩ none), (0, .begins ⟨0⟩), (0, .pass), (0, .start),
    (0, .repeated ⟨1⟩ "slow" () 0 7000000), (0, .repeated ⟨0⟩ "steady" () 0 5000000)]

theorem goes_busyDispatcher : ∃ c : Crew Unit, Goes {} busyDispatcher c :=
  ⟨_, (Goes.refl : Goes ({} : Crew Unit) [] {})
    |>.step (t := 0) (by decide) (.repeated "steady" () 0 5000000)
    |>.step (t := 0) (by decide) (.repeated "slow" () 0 7000000)
    |>.step (t := 0) (by decide) (.start rfl)
    |>.step (t := 0) (by decide) .pass
    |>.step (t := 0) (by decide) (.begins rfl rfl)
    |>.step (t := 1000000) (by decide) (.ends none (j := ⟨0⟩) (by decide))
    |>.step (t := 1000000) (by decide) (.releases (j := ⟨0⟩) (by decide))
    |>.step (t := 1000000) (by decide) (.begins rfl rfl)
    |>.step (t := 5000000) (by decide) .pass
    |>.step (t := 5000000) (by decide) (.begins rfl rfl)
    |>.step (t := 6000000) (by decide) (.ends none (j := ⟨0⟩) (by decide))
    |>.step (t := 6000000) (by decide) (.releases (j := ⟨0⟩) (by decide))
    |>.step (t := 7000000) (by decide) .pass
    |>.step (t := 10000000) (by decide) .pass⟩

/-- The job that is served in time is handed out at each of its due instants, the other one is
passed over once; and when the dispatcher has overslept, what it missed is not made up for. -/
theorem keeps_time_busyDispatcher :
    handedAt busyDispatcher ⟨0⟩ = [10000000, 5000000, 0] ∧ skippedAt busyDispatcher ⟨0⟩ = [] ∧
      handedAt busyDispatcher ⟨1⟩ = [0] ∧ skippedAt busyDispatcher ⟨1⟩ = [7000000] ∧
      (∀ t, t ∈ handedAt busyDispatcher ⟨0⟩ ∨ t ∈ skippedAt busyDispatcher ⟨0⟩ ↔
        (∃ k, t = 0 + k * 5000000) ∧ t ∈ passedAt busyDispatcher ⟨0⟩) ∧
      (let s := Schedule.ofRecord busyDispatcher
      s.Passed 31000000 (s.pass 31000000) ∧
        (s.pass 31000000).timers =
          [⟨35000000, some 5000000, ⟨0⟩⟩, ⟨35000000, some 7000000, ⟨1⟩⟩] ∧
        (s.pass 31000000).queue = [⟨0⟩]) ∧
      ∃! result, Timer.Advances 5000000 31000000 15000000 result := by
  obtain ⟨c, goes⟩ := goes_busyDispatcher
  obtain ⟨ends, passes, runs⟩ := keeps_time (ι := Unit)
  have kept := runs _ c goes
  have retold := goes.retold
  have punctual : Punctual busyDispatcher c ⟨0⟩ 0 (max 5000000 minInterval) := by
    intro k due
    cases goes with
    | step _ _ last =>
        rw [last.now, show max 5000000 minInterval = 5000000 from rfl] at due
        have few : k = 0 ∨ k = 1 := by omega
        rcases few with rfl | rfl
        · exact List.mem_of_getElem? (i := 3) rfl
        · exact List.mem_of_getElem? (i := 2) rfl
  have listed : ((0 : Nat), Deed.repeated (⟨0⟩ : JobId) "steady" () 0 5000000) ∈ busyDispatcher :=
    List.mem_of_getElem? (i := 13) rfl
  have alive : c.schedule.crashed = false := retold ▸ rfl
  have tidy := retold ▸ kept.tidy
  have spaced := retold ▸ kept.spaced
  have told : (Schedule.ofRecord busyDispatcher).Told 31000000 := by
    refine spaced.told_of_le fun t planned i repeats => ?_
    have timers : (Schedule.ofRecord busyDispatcher).timers =
        [⟨15000000, some 5000000, ⟨0⟩⟩, ⟨14000000, some 7000000, ⟨1⟩⟩] := rfl
    rw [timers] at planned
    simp only [List.mem_cons, List.not_mem_nil, or_false] at planned
    rcases planned with rfl | rfl <;> cases repeats <;> decide
  exact ⟨rfl, rfl, rfl, rfl,
    kept.punctual alive listed (by simp [Unstopped, busyDispatcher]) punctual,
    ⟨passes _ tidy spaced rfl 31000000 told, rfl, rfl⟩, ends 5000000 31000000 15000000 (by decide)⟩

/-- The first of two jobs asks for the longest interval that can be told, whole seconds in 64 bits
and nanoseconds. -/
def endlessInterval : List (Nat × Deed Unit) :=
  [(0, .pass), (0, .start), (0, .repeated ⟨1⟩ "steady" () 0 5000000),
    (0, .repeated ⟨0⟩ "endless" () 0 18446744073709551615999999999)]

/-- A job that is still at its first run has its next due instant skipped.  An interval that leads
past the last instant costs the job behind it its timer, before that job was handed out once. -/
theorem beat_missed :
    (∃ c : Crew Unit, Goes {} busyDispatcher c ∧ Punctual busyDispatcher c ⟨1⟩ 0 7000000 ∧
      0 + 1 * 7000000 ∈ passedAt busyDispatcher ⟨1⟩ ∧
      0 + 1 * 7000000 ∉ handedAt busyDispatcher ⟨1⟩) ∧
    ∃ c : Crew Unit, Goes {} endlessInterval c ∧ Punctual endlessInterval c ⟨1⟩ 0 5000000 ∧
      0 ∈ passedAt endlessInterval ⟨1⟩ ∧ c.entries = [⟨0⟩] ∧ c.schedule.timers = [] ∧
      c.schedule.crashed = true := by
  refine ⟨?_, ?_⟩
  · obtain ⟨c, goes⟩ := goes_busyDispatcher
    refine ⟨c, goes, fun k due => ?_, by decide +kernel, by decide +kernel⟩
    cases goes with
    | step _ _ last =>
        rw [last.now] at due
        have few : k = 0 ∨ k = 1 := by omega
        rcases few with rfl | rfl
        · exact List.mem_of_getElem? (i := 3) rfl
        · exact List.mem_of_getElem? (i := 1) rfl
  · refine ⟨_, (Goes.refl : Goes ({} : Crew Unit) [] {})
      |>.step (t := 0) (by decide) (.repeated "endless" () 0 18446744073709551615999999999)
      |>.step (t := 0) (by decide) (.repeated "steady" () 0 5000000)
      |>.step (t := 0) (by decide) (.start rfl)
      |>.step (t := 0) (by decide) .pass, fun k due => absurd due (Nat.not_lt_zero _), ?_⟩
    exact ⟨List.mem_of_getElem? (i := 0) rfl, rfl, rfl, rfl⟩

end Crew

end RobotControl
