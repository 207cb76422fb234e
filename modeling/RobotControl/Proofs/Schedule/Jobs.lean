import RobotControl.Schedule.Basic
import Mathlib.Data.List.Nodup
import Mathlib.Data.List.Count

/-!
# What the operations of a schedule do to one job

A schedule is seen through its table of jobs, the timers of each job (`Schedule.planned`) and its
queue.  There is one lemma for each operation and each of these views.  Ids are numbers of places
in the table of jobs (`Schedule.Numbered`), so a new job never takes the place of an old one.
-/
set_option autoImplicit false

namespace RobotControl

namespace Assoc

variable {κ α : Type} [DecidableEq κ]

theorem get?_modify (m : Assoc κ α) (k j : κ) (f : α → α) :
    (m.modify k f).get? j = if k = j then (m.get? j).map f else m.get? j := by
  unfold modify
  cases found : m.get? k with
  | some a =>
      dsimp only
      rw [get?_put]
      split
      · next same => subst same; rw [found]; rfl
      · rfl
  | none =>
      dsimp only
      split
      · next same => subst same; rw [found]; rfl
      · rfl

theorem length_write (k : κ) (a : α) (l : List (κ × α)) :
    (write k a l).length = if (find k l).isSome then l.length else l.length + 1 := by
  induction l with
  | nil => rfl
  | cons e rest ih =>
      obtain ⟨i, b⟩ := e
      by_cases same : i = k
      · simp [write, find, same]
      · simp only [write, find, if_neg same, List.length_cons, ih]
        split <;> rfl

theorem size_put (m : Assoc κ α) (k : κ) (a : α) :
    (m.put k a).size = if m.contains k then m.size else m.size + 1 := length_write k a m.entries

theorem size_modify (m : Assoc κ α) (k : κ) (f : α → α) : (m.modify k f).size = m.size := by
  unfold modify
  cases found : m.get? k with
  | some a => simp [size_put, contains, found]
  | none => rfl

end Assoc

namespace Timer

@[simp] theorem job_after {now : Nat} {t t' : Timer} (after : t.after now = some t') :
    t'.job = t.job := by
  unfold Timer.after at after
  split at after
  · cases after
    rfl
  · obtain ⟨i, -, rfl⟩ := Option.map_eq_some_iff.mp after
    rfl

theorem upToOverflow_sublist (now : Nat) (ts : List Timer) : (upToOverflow now ts).Sublist ts := by
  induction ts with
  | nil => exact List.Sublist.slnil
  | cons t rest ih =>
      unfold upToOverflow
      split
      · exact (List.nil_sublist rest).cons_cons t
      · exact ih.cons_cons t

theorem upToOverflow_eq_self {now : Nat} {ts : List Timer}
    (told : ts.any (overflows now) = false) : upToOverflow now ts = ts := by
  induction ts with
  | nil => rfl
  | cons t rest ih =>
      rw [List.any_cons, Bool.or_eq_false_iff] at told
      rw [upToOverflow, told.1, ih told.2]
      rfl

theorem filter_after (now : Nat) (t : Timer) (j : JobId) :
    (t.after now).filter (fun t' => t'.job = j) = if t.job = j then t.after now else none := by
  cases moved : t.after now with
  | none => simp
  | some t' =>
      rw [← job_after moved]
      split
      · next same => simp [same]
      · next other => simp [other]

end Timer

namespace Schedule

variable {ι : Type} {s : Schedule ι}

def isKnown (s : Schedule ι) (j : JobId) : Bool := s.jobs.contains j

def planned (s : Schedule ι) (j : JobId) : List Timer := s.timers.filter fun t => t.job = j

/-- The ids in use are the numbers below the next one. -/
def Numbered (s : Schedule ι) : Prop := ∀ j, s.isKnown j = true ↔ j.number < s.jobs.size

theorem isKnown_of_isActive {j : JobId} (active : s.isActive j = true) : s.isKnown j = true := by
  unfold isActive at active
  unfold isKnown Assoc.contains
  cases found : s.jobs.get? j with
  | none => simp [found] at active
  | some job => rfl

theorem isKnown_of_isCancelled {j : JobId} (cancelled : s.isCancelled j = true) :
    s.isKnown j = true := by
  unfold isCancelled at cancelled
  unfold isKnown Assoc.contains
  cases found : s.jobs.get? j with
  | none => simp [found] at cancelled
  | some job => rfl

theorem Numbered.unknown_nextId (numbered : s.Numbered) : s.isKnown s.nextId = false := by
  have bound := numbered s.nextId
  simpa [Schedule.nextId] using bound

/-! ### Changes to jobs in their place -/

/-- A change to one job that keeps its place. -/
def amend (f : Job ι → Job ι) (s : Schedule ι) (j : JobId) : Schedule ι :=
  { s with jobs := s.jobs.modify j f }

theorem amend_all (f : Job ι → Job ι) (js : List JobId) (s : Schedule ι) :
    js.foldl (amend f) s = { s with jobs := (js.foldl (amend f) s).jobs } := by
  induction js generalizing s with
  | nil => rfl
  | cons j rest ih => exact ih (s.amend f j)

theorem get?_amend_all {f : Job ι → Job ι} (twice : ∀ job, f (f job) = f job) (js : List JobId)
    (s : Schedule ι) (j : JobId) :
    (js.foldl (amend f) s).jobs.get? j =
      if j ∈ js then (s.jobs.get? j).map f else s.jobs.get? j := by
  induction js generalizing s with
  | nil => rfl
  | cons k rest ih =>
      have later := ih (s.amend f k)
      rw [show (s.amend f k).jobs.get? j = _ from Assoc.get?_modify s.jobs k j f] at later
      refine later.trans ?_
      by_cases same : k = j
      · subst same
        have merged : f ∘ f = f := funext twice
        simp [merged]
      · simp [same, Ne.symm same]

theorem numbered_amend (f : Job ι → Job ι) (numbered : s.Numbered) (k : JobId) :
    (s.amend f k).Numbered := by
  intro j
  have known : (s.amend f k).isKnown j = s.isKnown j := by
    unfold isKnown Assoc.contains
    rw [show (s.amend f k).jobs.get? j = _ from Assoc.get?_modify s.jobs k j f]
    split <;> simp
  rw [known, show (s.amend f k).jobs.size = s.jobs.size from Assoc.size_modify s.jobs k f]
  exact numbered j

theorem numbered_amend_all (f : Job ι → Job ι) (numbered : s.Numbered) (js : List JobId) :
    (js.foldl (amend f) s).Numbered := by
  induction js generalizing s with
  | nil => exact numbered
  | cons j rest ih => exact ih (numbered_amend f numbered j)

theorem get?_cancel (s : Schedule ι) (k j : JobId) :
    (s.cancel k).jobs.get? j =
      if k = j then (s.jobs.get? j).map fun job => { job with cancelled := true }
      else s.jobs.get? j := Assoc.get?_modify ..

theorem get?_mark (active : Bool) (s : Schedule ι) (k j : JobId) :
    (s.mark active k).jobs.get? j =
      if k = j then (s.jobs.get? j).map fun job => { job with active := active }
      else s.jobs.get? j := Assoc.get?_modify ..

/-! ### New jobs -/

section Insert

variable (s) (name : String) (work : ι) (due : Nat) (interval : Option Nat)

theorem get?_insert (j : JobId) :
    (s.insert name work due interval).jobs.get? j =
      if s.nextId = j then some ⟨name, work, false, s.stopped⟩ else s.jobs.get? j := by
  unfold insert
  split
  · next stopped => rw [stopped]; exact Assoc.get?_put ..
  · next runs =>
      rw [Bool.eq_false_iff.mpr runs]
      exact Assoc.get?_put ..

theorem queue_insert : (s.insert name work due interval).queue = s.queue := by
  unfold insert
  split <;> rfl

theorem started_insert : (s.insert name work due interval).started = s.started := by
  unfold insert
  split <;> rfl

theorem stopped_insert : (s.insert name work due interval).stopped = s.stopped := by
  unfold insert
  split <;> rfl

theorem crashed_insert : (s.insert name work due interval).crashed = s.crashed := by
  unfold insert
  split <;> rfl

theorem planned_insert (j : JobId) :
    (s.insert name work due interval).planned j =
      s.planned j ++ if s.nextId = j ∧ s.stopped = false then [⟨due, interval, j⟩] else [] := by
  unfold insert planned
  by_cases stopped : s.stopped = true
  · simp [stopped]
  · by_cases same : s.nextId = j
    · simp [stopped, same]
    · simp [stopped, same]

theorem isKnown_insert (j : JobId) : (s.insert name work due interval).isKnown j =
    (s.isKnown j || decide (s.nextId = j)) := by
  unfold isKnown Assoc.contains
  rw [get?_insert]
  by_cases same : s.nextId = j
  · simp [same]
  · simp [same]

theorem Numbered.insert (numbered : s.Numbered) :
    (s.insert name work due interval).Numbered := by
  have fresh := numbered.unknown_nextId
  have size : (s.insert name work due interval).jobs.size = s.jobs.size + 1 := by
    unfold Schedule.insert
    split <;> exact (Assoc.size_put ..).trans (if_neg (by simpa [isKnown] using fresh))
  intro j
  have before := numbered j
  have last : s.nextId = j ↔ j.number = s.jobs.size := by
    constructor
    · rintro rfl; rfl
    · intro same; rw [Schedule.nextId, ← same]
  rw [isKnown_insert, size, Bool.or_eq_true, decide_eq_true_eq, last, before]
  omega

end Insert

/-! ### The dispatcher, the workers and the end -/

theorem of_mem_handed {now : Nat} {j : JobId} (handed : j ∈ s.handed now) :
    (∃ t ∈ s.planned j, t.due ≤ now) ∧ s.isCancelled j = false ∧ s.isActive j = false := by
  obtain ⟨t, listed, rfl⟩ := List.mem_map.mp handed
  obtain ⟨reached, ready⟩ := List.mem_filter.mp listed
  obtain ⟨timer, live⟩ :=
    List.mem_filter.mp ((Timer.upToOverflow_sublist now s.kept).subset reached)
  simp only [Bool.and_eq_true, Bool.not_eq_true', decide_eq_true_eq] at ready live
  exact ⟨⟨t, List.mem_filter.mpr ⟨timer, decide_eq_true rfl⟩, ready.1⟩, live, ready.2⟩

theorem mem_handed {now : Nat} (told : s.overflows now = false) {j : JobId} : j ∈ s.handed now ↔
    (∃ t ∈ s.planned j, t.due ≤ now) ∧ s.isCancelled j = false ∧ s.isActive j = false := by
  refine ⟨of_mem_handed, ?_⟩
  rintro ⟨⟨t, planned, due⟩, live, free⟩
  obtain ⟨listed, same⟩ := List.mem_filter.mp planned
  obtain rfl := of_decide_eq_true same
  rw [handed, Timer.upToOverflow_eq_self told]
  refine List.mem_map_of_mem (List.mem_filter.mpr ⟨List.mem_filter.mpr ⟨listed, ?_⟩, ?_⟩)
  · rw [live]
    rfl
  · rw [free, decide_eq_true due]
    rfl

theorem handed_sublist (s : Schedule ι) (now : Nat) :
    (s.handed now).Sublist (s.timers.map (·.job)) :=
  (List.filter_sublist.trans ((Timer.upToOverflow_sublist now s.kept).trans
    List.filter_sublist)).map _

theorem nodup_handed (distinct : (s.timers.map (·.job)).Nodup) (now : Nat) :
    (s.handed now).Nodup := distinct.sublist (s.handed_sublist now)

/-- What a pass hands to the workers, if there is a dispatcher to make it. -/
def due (s : Schedule ι) (now : Nat) : List JobId := if s.dispatches then s.handed now else []

theorem of_mem_due {now : Nat} {j : JobId} (due : j ∈ s.due now) :
    (∃ t ∈ s.planned j, t.due ≤ now) ∧ s.isCancelled j = false ∧ s.isActive j = false := by
  unfold Schedule.due at due
  split at due
  · exact of_mem_handed due
  · cases due

theorem queue_pass (s : Schedule ι) (now : Nat) : (s.pass now).queue = s.queue ++ s.due now := by
  unfold pass due
  split
  · show ((s.handed now).foldl (amend _) s).queue ++ s.handed now = _
    rw [amend_all]
  · exact (List.append_nil _).symm

theorem get?_pass (s : Schedule ι) (now : Nat) (j : JobId) :
    (s.pass now).jobs.get? j =
      if j ∈ s.due now then (s.jobs.get? j).map fun job => { job with active := true }
      else s.jobs.get? j := by
  unfold pass due
  split
  · exact get?_amend_all (f := fun job => { job with active := true }) (fun _ => rfl) ..
  · exact (if_neg List.not_mem_nil).symm

theorem Numbered.pass (numbered : s.Numbered) (now : Nat) : (s.pass now).Numbered := by
  unfold Schedule.pass
  split
  · exact numbered_amend_all _ numbered _
  · exact numbered

theorem pass_of_stopped (stopped : s.stopped = true) (now : Nat) : s.pass now = s := by
  simp [pass, dispatches, isRunning, stopped]

theorem started_pass (s : Schedule ι) (now : Nat) : (s.pass now).started = s.started := by
  unfold pass
  split
  · show ((s.handed now).foldl (amend _) s).started = _
    rw [amend_all]
  · rfl

theorem stopped_pass (s : Schedule ι) (now : Nat) : (s.pass now).stopped = s.stopped := by
  unfold pass
  split
  · show ((s.handed now).foldl (amend _) s).stopped = _
    rw [amend_all]
  · rfl

theorem crashed_pass (s : Schedule ι) (now : Nat) :
    (s.pass now).crashed = if s.dispatches then s.overflows now else s.crashed := by
  unfold pass
  split <;> rfl

theorem dispatches_iff : s.dispatches = true ↔
    s.started = true ∧ s.stopped = false ∧ s.crashed = false := by
  simp [dispatches, isRunning, and_assoc]

theorem crashed_pass_eq_false {now : Nat} (alive : (s.pass now).crashed = false) :
    s.crashed = false ∧ (s.dispatches = true → s.overflows now = false) := by
  rw [crashed_pass] at alive
  split at alive
  · next dispatches => exact ⟨(dispatches_iff.mp dispatches).2.2, fun _ => alive⟩
  · next idle => exact ⟨alive, fun dispatches => absurd dispatches idle⟩

theorem timers_pass (s : Schedule ι) (now : Nat) :
    (s.pass now).timers =
      if s.dispatches then
        if s.overflows now then [] else s.kept.filterMap (Timer.after now)
      else s.timers := by
  unfold pass
  split <;> rfl

/-- Timers of cancelled jobs are dropped, those that are due move on or are used up, unless the
pass overflows. -/
theorem planned_pass (s : Schedule ι) (now : Nat) (j : JobId) :
    (s.pass now).planned j =
      if s.dispatches then
        if s.overflows now || s.isCancelled j then []
        else (s.planned j).filterMap (Timer.after now)
      else s.planned j := by
  unfold planned
  rw [timers_pass]
  split
  · by_cases crashes : s.overflows now = true
    · simp [crashes]
    rw [if_neg crashes, Bool.eq_false_iff.mpr crashes, Bool.false_or, kept, List.filter_filterMap,
      List.filterMap_filter, List.filterMap_filter]
    by_cases cancelled : s.isCancelled j = true
    · rw [if_pos cancelled, List.filterMap_eq_nil_iff]
      intro t _
      by_cases same : t.job = j
      · simp [same, cancelled]
      · simp [same, Timer.filter_after]
    · rw [if_neg cancelled]
      congr 1
      funext t
      by_cases same : t.job = j
      · simp [same, cancelled, Timer.filter_after]
      · simp [same, Timer.filter_after]
  · rfl

theorem planned_shutdown (s : Schedule ι) (j : JobId) :
    s.shutdown.planned j = if s.stopped then s.planned j else [] := by
  unfold shutdown
  split <;> rfl

theorem get?_shutdown (s : Schedule ι) (j : JobId) : s.shutdown.jobs.get? j = s.jobs.get? j ∨
    s.shutdown.jobs.get? j = (s.jobs.get? j).map fun job => { job with cancelled := true } := by
  unfold shutdown
  split
  · exact .inl rfl
  · dsimp only
    have each := get?_amend_all (f := fun job : Job ι => { job with cancelled := true })
      (fun _ => rfl) (s.timers.map (·.job)) s j
    split at each
    · exact .inr each
    · exact .inl each

theorem stopped_shutdown (s : Schedule ι) : s.shutdown.stopped = true := by
  unfold shutdown
  split
  · assumption
  · rfl

theorem started_shutdown (s : Schedule ι) : s.shutdown.started = s.started := by
  unfold shutdown
  split
  · rfl
  · show ((s.timers.map (·.job)).foldl (amend _) s).started = _
    rw [amend_all]

theorem crashed_shutdown (s : Schedule ι) : s.shutdown.crashed = s.crashed := by
  unfold shutdown
  split
  · rfl
  · show ((s.timers.map (·.job)).foldl (amend _) s).crashed = _
    rw [amend_all]

theorem queue_shutdown (s : Schedule ι) : s.shutdown.queue = s.queue := by
  unfold shutdown
  split
  · rfl
  · show ((s.timers.map (·.job)).foldl (amend _) s).queue = _
    rw [amend_all]

theorem Numbered.shutdown (numbered : s.Numbered) : s.shutdown.Numbered := by
  unfold Schedule.shutdown
  split
  · exact numbered
  · exact numbered_amend_all _ numbered _

/-! ### The flags of a job -/

section Flags

variable (s) (k j : JobId)

theorem isActive_insert (numbered : s.Numbered) (name : String) (work : ι) (due : Nat)
    (interval : Option Nat) : (s.insert name work due interval).isActive j = s.isActive j := by
  by_cases same : s.nextId = j
  · subst same
    have fresh : s.isActive s.nextId = false := by
      by_contra active
      have known := isKnown_of_isActive (by simpa using active)
      rw [numbered.unknown_nextId] at known
      cases known
    rw [fresh, isActive, get?_insert, if_pos rfl]
    rfl
  · rw [isActive, get?_insert, if_neg same, isActive]

theorem isActive_cancel : (s.cancel k).isActive j = s.isActive j := by
  unfold isActive
  rw [get?_cancel]
  split
  · cases s.jobs.get? j <;> rfl
  · rfl

theorem isActive_release : (s.release k).isActive j = (s.isActive j && decide (k ≠ j)) := by
  unfold isActive release
  rw [get?_mark]
  by_cases same : k = j
  · cases s.jobs.get? j <;> simp [same]
  · simp [same]

theorem isActive_pass (now : Nat) (known : ∀ t ∈ s.timers, s.isKnown t.job = true) :
    (s.pass now).isActive j = (s.isActive j || decide (j ∈ s.due now)) := by
  unfold isActive
  rw [get?_pass]
  by_cases handed : j ∈ s.due now
  · obtain ⟨⟨t, planned, -⟩, -⟩ := of_mem_due handed
    obtain ⟨listed, same⟩ := List.mem_filter.mp planned
    have there := known t listed
    rw [of_decide_eq_true same] at there
    obtain ⟨job, found⟩ := Option.isSome_iff_exists.mp there
    simp [handed, found]
  · simp [handed]

theorem isActive_shutdown : s.shutdown.isActive j = s.isActive j := by
  unfold isActive
  rcases s.get?_shutdown j with same | same
  · rw [same]
  · rw [same]
    cases s.jobs.get? j <;> rfl

theorem isCancelled_insert_eq (name : String) (work : ι) (due : Nat) (interval : Option Nat) :
    (s.insert name work due interval).isCancelled j =
      if s.nextId = j then s.stopped else s.isCancelled j := by
  rw [isCancelled, get?_insert]
  split <;> rfl

theorem isCancelled_insert {s : Schedule ι} (stopped : s.stopped = true) (name : String)
    (work : ι) (due : Nat) (interval : Option Nat) :
    (s.insert name work due interval).isCancelled s.nextId = true := by
  rw [isCancelled_insert_eq, if_pos rfl, stopped]

theorem isCancelled_cancel :
    (s.cancel k).isCancelled j = (s.isCancelled j || (decide (k = j) && s.isKnown j)) := by
  unfold isCancelled isKnown Assoc.contains
  rw [get?_cancel]
  by_cases same : k = j
  · cases s.jobs.get? j <;> simp [same]
  · simp [same]

theorem isCancelled_release : (s.release k).isCancelled j = s.isCancelled j := by
  unfold isCancelled release
  rw [get?_mark]
  split
  · cases s.jobs.get? j <;> rfl
  · rfl

theorem isCancelled_pass (now : Nat) : (s.pass now).isCancelled j = s.isCancelled j := by
  unfold isCancelled
  rw [get?_pass]
  split
  · cases s.jobs.get? j <;> rfl
  · rfl

theorem isCancelled_shutdown (cancelled : s.isCancelled j = true) :
    s.shutdown.isCancelled j = true := by
  unfold isCancelled at cancelled ⊢
  rcases s.get?_shutdown j with same | same
  · rw [same]
    exact cancelled
  · rw [same]
    cases found : s.jobs.get? j with
    | none => simp [found] at cancelled
    | some job => rfl

theorem isKnown_cancel : (s.cancel k).isKnown j = s.isKnown j := by
  unfold isKnown Assoc.contains
  rw [get?_cancel]
  split <;> simp

theorem isKnown_release : (s.release k).isKnown j = s.isKnown j := by
  unfold isKnown Assoc.contains release
  rw [get?_mark]
  split <;> simp

theorem isKnown_pass (now : Nat) : (s.pass now).isKnown j = s.isKnown j := by
  unfold isKnown Assoc.contains
  rw [get?_pass]
  split <;> simp

theorem isKnown_shutdown : s.shutdown.isKnown j = s.isKnown j := by
  unfold isKnown Assoc.contains
  rcases s.get?_shutdown j with same | same
  · rw [same]
  · simp [same]

end Flags

/-! ### Books in order -/

/-- Every job has one id and at most one timer. -/
structure Tidy (s : Schedule ι) : Prop where
  numbered : s.Numbered
  distinct : (s.timers.map (·.job)).Nodup
  known : ∀ t ∈ s.timers, s.isKnown t.job = true

theorem Tidy.initial : ({} : Schedule ι).Tidy where
  numbered j := ⟨fun known => Bool.noConfusion known, fun below => absurd below (Nat.not_lt_zero _)⟩
  distinct := List.nodup_nil
  known _ listed := by cases listed

theorem Tidy.congr {s' : Schedule ι} (tidy : s.Tidy) (jobs : s'.jobs = s.jobs)
    (timers : s'.timers = s.timers) : s'.Tidy := by
  refine ⟨fun j => ?_, timers ▸ tidy.distinct, fun t listed => ?_⟩
  · rw [isKnown, jobs]
    exact tidy.numbered j
  · rw [isKnown, jobs]
    exact tidy.known t (timers ▸ listed)

theorem Tidy.insert (tidy : s.Tidy) (name : String) (work : ι) (due : Nat)
    (interval : Option Nat) : (s.insert name work due interval).Tidy := by
  have timers : (s.insert name work due interval).timers = s.timers ∨
      (s.insert name work due interval).timers = s.timers ++ [⟨due, interval, s.nextId⟩] := by
    unfold Schedule.insert
    split
    · exact .inl rfl
    · exact .inr rfl
  have fresh : s.nextId ∉ s.timers.map (·.job) := by
    intro listed
    obtain ⟨t, timer, same⟩ := List.mem_map.mp listed
    have known := tidy.known t timer
    rw [same, tidy.numbered.unknown_nextId] at known
    cases known
  refine ⟨tidy.numbered.insert s name work due interval, ?_, fun t listed => ?_⟩
  · rcases timers with same | same
    · rw [same]
      exact tidy.distinct
    · rw [same, List.map_append]
      exact tidy.distinct.append (List.nodup_singleton _) (by simpa using fresh)
  · rw [isKnown_insert, Bool.or_eq_true, decide_eq_true_eq]
    rcases timers with same | same
    · exact .inl (tidy.known t (same ▸ listed))
    · rcases List.mem_append.mp (same ▸ listed) with old | new
      · exact .inl (tidy.known t old)
      · exact .inr (by rw [List.mem_singleton.mp new])

theorem Tidy.planned_nextId (tidy : s.Tidy) (name : String) (work : ι) (due : Nat)
    (interval : Option Nat) : (s.insert name work due interval).planned s.nextId =
      if s.stopped then [] else [⟨due, interval, s.nextId⟩] := by
  have none : s.planned s.nextId = [] := by
    refine List.filter_eq_nil_iff.mpr fun t listed same => ?_
    have known := tidy.known t listed
    rw [of_decide_eq_true same, tidy.numbered.unknown_nextId] at known
    cases known
  rw [planned_insert, none, List.nil_append]
  cases s.stopped <;> simp

theorem Tidy.cancel (tidy : s.Tidy) (k : JobId) : (s.cancel k).Tidy where
  numbered := numbered_amend _ tidy.numbered k
  distinct := tidy.distinct
  known t listed := (isKnown_cancel ..).trans (tidy.known t listed)

theorem Tidy.release (tidy : s.Tidy) (k : JobId) : (s.release k).Tidy where
  numbered := numbered_amend _ tidy.numbered k
  distinct := tidy.distinct
  known t listed := (isKnown_release ..).trans (tidy.known t listed)

theorem jobs_after (now : Nat) (ts : List Timer) :
    ((ts.filterMap (Timer.after now)).map (·.job)).Sublist (ts.map (·.job)) := by
  induction ts with
  | nil => exact List.Sublist.slnil
  | cons t rest ih =>
      cases moved : t.after now with
      | none =>
          rw [List.filterMap_cons_none moved]
          exact ih.cons _
      | some t' =>
          rw [List.filterMap_cons_some moved, List.map_cons, List.map_cons, Timer.job_after moved]
          exact ih.cons_cons _

theorem jobs_pass (s : Schedule ι) (now : Nat) :
    ((s.pass now).timers.map (·.job)).Sublist (s.timers.map (·.job)) := by
  rw [timers_pass]
  split
  · split
    · exact List.nil_sublist _
    · exact (jobs_after now s.kept).trans (List.filter_sublist.map _)
  · exact List.Sublist.refl _

theorem Tidy.pass (tidy : s.Tidy) (now : Nat) : (s.pass now).Tidy where
  numbered := tidy.numbered.pass now
  distinct := tidy.distinct.sublist (s.jobs_pass now)
  known t listed := by
    have there := (s.jobs_pass now).subset (List.mem_map_of_mem listed)
    obtain ⟨t', timer, same⟩ := List.mem_map.mp there
    rw [isKnown_pass, ← same]
    exact tidy.known t' timer

theorem Tidy.shutdown (tidy : s.Tidy) : s.shutdown.Tidy := by
  have timers : s.shutdown.timers.Sublist s.timers := by
    unfold Schedule.shutdown
    split
    · exact List.Sublist.refl _
    · exact List.nil_sublist _
  exact ⟨tidy.numbered.shutdown, tidy.distinct.sublist (timers.map _), fun t listed =>
    (isKnown_shutdown ..).trans (tidy.known t (timers.subset listed))⟩

theorem start_eq_ok {s' : Schedule ι} (started : s.start = .ok s') :
    s' = { s with started := true } := by
  unfold start at started
  split at started
  · cases started
  · cases started
    rfl

theorem once_eq_ok {name : String} {work : ι} {asked delay : Nat} {s' : Schedule ι}
    (told : s.once name work asked delay = .ok s') :
    s' = s.insert name work (asked + delay) none := by
  unfold once at told
  split at told
  · cases told
  · cases told
    rfl

theorem take_eq_some {j : JobId} {s' : Schedule ι} (taken : s.take = some (j, s')) :
    ∃ rest, s.queue = j :: rest ∧ s' = { s with queue := rest } := by
  unfold take at taken
  split at taken
  · cases taken
  · next k rest found =>
      cases taken
      exact ⟨rest, found, rfl⟩

/-! ### What lasts -/

/-- Ids stay in use, and nothing takes back a cancellation, a start, a shutdown or a crash. -/
structure Lasts (s s' : Schedule ι) : Prop where
  isKnown : ∀ j, s.isKnown j = true → s'.isKnown j = true
  isCancelled : ∀ j, s.isCancelled j = true → s'.isCancelled j = true
  started : s.started = true → s'.started = true
  stopped : s.stopped = true → s'.stopped = true
  crashed : s.crashed = true → s'.crashed = true

theorem Lasts.refl (s : Schedule ι) : s.Lasts s :=
  ⟨fun _ => id, fun _ => id, id, id, id⟩

theorem Lasts.trans {s₁ s₂ s₃ : Schedule ι} (first : s₁.Lasts s₂) (second : s₂.Lasts s₃) :
    s₁.Lasts s₃ where
  isKnown j known := second.isKnown j (first.isKnown j known)
  isCancelled j cancelled := second.isCancelled j (first.isCancelled j cancelled)
  started started := second.started (first.started started)
  stopped stopped := second.stopped (first.stopped stopped)
  crashed crashed := second.crashed (first.crashed crashed)

theorem Numbered.lasts_insert (numbered : s.Numbered) (name : String) (work : ι) (due : Nat)
    (interval : Option Nat) : s.Lasts (s.insert name work due interval) where
  isKnown j known := by rw [isKnown_insert, known, Bool.true_or]
  isCancelled j cancelled := by
    have other : s.nextId ≠ j := by
      rintro rfl
      have known := isKnown_of_isCancelled cancelled
      rw [numbered.unknown_nextId] at known
      cases known
    rw [isCancelled_insert_eq, if_neg other, cancelled]
  started started := (started_insert ..).trans started
  stopped stopped := (stopped_insert ..).trans stopped
  crashed crashed := (crashed_insert ..).trans crashed

theorem lasts_cancel (s : Schedule ι) (k : JobId) : s.Lasts (s.cancel k) where
  isKnown _ known := (isKnown_cancel ..).trans known
  isCancelled j cancelled := by rw [isCancelled_cancel, cancelled, Bool.true_or]
  started := id
  stopped := id
  crashed := id

theorem lasts_release (s : Schedule ι) (k : JobId) : s.Lasts (s.release k) where
  isKnown _ known := (isKnown_release ..).trans known
  isCancelled _ cancelled := (isCancelled_release ..).trans cancelled
  started := id
  stopped := id
  crashed := id

theorem lasts_pass (s : Schedule ι) (now : Nat) : s.Lasts (s.pass now) where
  isKnown _ known := (isKnown_pass ..).trans known
  isCancelled _ cancelled := (isCancelled_pass ..).trans cancelled
  started started := (s.started_pass now).trans started
  stopped stopped := (s.stopped_pass now).trans stopped
  crashed crashed := by
    have dead : s.dispatches = false := by simp [dispatches, crashed]
    rw [crashed_pass, dead]
    exact crashed

theorem lasts_shutdown (s : Schedule ι) : s.Lasts s.shutdown where
  isKnown _ known := (isKnown_shutdown ..).trans known
  isCancelled _ cancelled := isCancelled_shutdown _ _ cancelled
  started started := s.started_shutdown.trans started
  stopped _ := s.stopped_shutdown
  crashed crashed := s.crashed_shutdown.trans crashed

end Schedule

end RobotControl
