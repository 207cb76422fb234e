import Mathlib.Data.List.Count
import RobotControl.Proofs.Action.Run

/-!
# Work for actions

What is still to be done for actions: on the agenda and in what busy actions owe.  A begin that
waits for other actions counts as an item of its own, as long as no hand-over has been left for
it.  `Move.pending` is the account of one step: what is gone was in front, and `Makes` lists what is
new.  Nothing else comes or goes, whatever fails and whatever is dropped.
-/
set_option autoImplicit false

namespace RobotControl

variable {ε Ω σ : Type}

/-- Work for an action; without a callback, its begin that has yet to be handed out. -/
abbrev Item := ActionId × Option Deferred

def Task.item : Task ε Ω σ → Option Item
  | .succeed a late => some (a, if late.isEmpty then some .begin else none)
  | .invoke a d => some (a, some d)
  | .serve a d => some (a, some d)
  | _ => none

def Task.does : Task ε Ω σ → Option Item
  | .succeed a (_ :: _) => some (a, none)
  | .serve a d => some (a, some d)
  | _ => none

def items (tasks : List (Task ε Ω σ)) : List Item := tasks.filterMap Task.item

theorem items_append (new rest : List (Task ε Ω σ)) :
    items (new ++ rest) = items new ++ items rest := List.filterMap_append

theorem items_of_isLight {tasks : List (Task ε Ω σ)} (light : ∀ x ∈ tasks, x.isLight = true) :
    items tasks = [] := by
  apply List.filterMap_eq_nil_iff.mpr
  intro x member
  have own := light x member
  cases x <;> first | rfl | cases own

theorem items_of_isCode {tasks : List (Task ε Ω σ)} (codes : ∀ x ∈ tasks, x.isCode = true) :
    items tasks = [] := items_of_isLight fun x member => x.isLight_of_isCode (codes x member)

theorem Task.does_of_isLight (t : Task ε Ω σ) (light : t.isLight = true) : t.does = none := by
  cases t <;> first | rfl | cases light

theorem items_invokes (as : List ActionId) (d : Deferred) :
    items (as.map fun a => (.invoke a d : Task ε Ω σ)) = as.map fun a => (a, some d) := by
  induction as with
  | nil => rfl
  | cons a rest ih => exact congrArg (List.cons (a, some d)) ih

theorem count_places (as : List ActionId) (d : Deferred) (w : Item) :
    (as.map fun a => ((a, some d) : Item)).count w =
      if w.2 = some d then as.count w.1 else 0 := by
  obtain ⟨a, kind⟩ := w
  by_cases same : kind = some d
  · subst same
    have injective : Function.Injective fun a => ((a, some d) : Item) :=
      fun _ _ same => (Prod.mk.inj same).1
    rw [List.count_map_of_injective as (fun a => ((a, some d) : Item)) injective a]
    simp
  · rw [if_neg same]
    apply List.count_eq_zero.mpr
    intro member
    obtain ⟨_, _, equal⟩ := List.mem_map.mp member
    exact same (Prod.mk.inj equal).2.symm

theorem count_items (as : List ActionId) (d : Deferred) (nodup : as.Nodup) (w : Item) :
    (as.map fun a => ((a, some d) : Item)).count w =
      if w.2 = some d ∧ w.1 ∈ as then 1 else 0 := by
  rw [count_places, nodup.count, ite_and]

theorem nodup_eraseDups {α : Type} [DecidableEq α] : (l : List α) → l.eraseDups.Nodup
  | [] => List.nodup_nil
  | a :: rest => by
      rw [List.eraseDups_cons, List.nodup_cons, List.mem_eraseDups, List.mem_filter]
      exact ⟨by simp, nodup_eraseDups (rest.filter fun b => !b == a)⟩
  termination_by l => l.length
  decreasing_by exact Nat.lt_succ_of_le (List.length_filter_le _ _)

namespace ActionTable

def owes (t : ActionTable) (w : Item) : Nat :=
  match w.2 with
  | some d => (t.owed w.1).count d
  | none => 0

theorem owes_of_same {t t' : ActionTable} (owed : ∀ a, t'.owed a = t.owed a) (w : Item) :
    t'.owes w = t.owes w := by
  unfold owes
  rw [owed]

theorem owes_defer (t : ActionTable) (a : ActionId) (d : Deferred) (w : Item) :
    (t.defer a d).owes w = t.owes w + [((a, some d) : Item)].count w := by
  obtain ⟨b, kind⟩ := w
  cases kind with
  | none => simp [owes]
  | some e =>
      simp only [owes, owed_defer, List.count_singleton]
      by_cases self : a = b
      · simp [self, List.count_singleton]
      · simp [self]

theorem owes_deferHandOver (t : ActionTable) (next : ActionId) (late : List ActionId) (w : Item) :
    (t.deferHandOver next late).owes w = t.owes w +
      (late.map fun b => ((b, some (.handOver next t.nextTicket)) : Item)).count w := by
  obtain ⟨b, kind⟩ := w
  rw [count_places]
  cases kind with
  | none => simp [owes]
  | some e =>
      simp only [owes, owed_deferHandOver, List.count_append, List.count_replicate]
      by_cases same : e = .handOver next t.nextTicket
      · simp [same]
      · simp [same, Ne.symm same]

theorem owes_setOwed {t : ActionTable} {a : ActionId} {d : Deferred} {ds : List Deferred}
    (owed : t.owed a = d :: ds) (w : Item) :
    (t.setOwed a ds).owes w + [((a, some d) : Item)].count w = t.owes w := by
  obtain ⟨b, kind⟩ := w
  cases kind with
  | none => simp [owes]
  | some e =>
      simp only [owes, owed_setOwed, List.count_singleton]
      by_cases self : a = b
      · subst self
        simp [owed, List.count_cons]
      · simp [self]

end ActionTable

namespace Machine

/-- How often the work is still to be done. -/
def pending (table : ActionTable) (agenda : List (Task ε Ω σ)) (w : Item) : Nat :=
  (items agenda).count w + table.owes w

def doing (m : Machine ε Ω σ) : Option Item := m.agenda.head?.bind Task.does

theorem doing_eq {m : Machine ε Ω σ} {t : Task ε Ω σ} {rest : List (Task ε Ω σ)}
    (agenda : m.agenda = t :: rest) : m.doing = t.does := by
  rw [doing, agenda]
  rfl

theorem doing_of_isLight {m : Machine ε Ω σ} {front rest : List (Task ε Ω σ)}
    (agenda : m.agenda = front ++ rest) (some : front ≠ [])
    (light : ∀ x ∈ front, x.isLight = true) : m.doing = none := by
  obtain ⟨t, more, rfl⟩ := List.exists_cons_of_ne_nil some
  have whole : m.agenda = t :: (more ++ rest) := agenda
  rw [doing_eq whole]
  exact t.does_of_isLight (light t (List.mem_cons_self ..))

theorem doing_of_isCode {m : Machine ε Ω σ} {front rest : List (Task ε Ω σ)}
    (agenda : m.agenda = front ++ rest) (some : front ≠ [])
    (codes : ∀ x ∈ front, x.isCode = true) : m.doing = none :=
  doing_of_isLight agenda some fun x member => x.isLight_of_isCode (codes x member)

/-- The new work of a step, with what it takes and what becomes of the running actions. -/
inductive Makes (h : Host ε Ω σ) (m : Machine ε Ω σ) (table : ActionTable) : List Item → Prop
  | nothing (idle : m.doing = none) (quiet : ∀ a, ¬ m.Starts h a)
      (same : ∀ b, table.isRunning b = m.table.isRunning b) : Makes h m table []
  /-- An action is served; a hand-over is passed over only for a reason. -/
  | served {a : ActionId} {d : Deferred} {rest : List (Task ε Ω σ)}
      (agenda : m.agenda = .serve a d :: rest)
      (reason : ∀ next ticket, d = .handOver next ticket →
        m.table.awaits ticket = true ∨ m.table.isRunning next = false)
      (quiet : ∀ a, ¬ m.Starts h a) (same : ∀ b, table.isRunning b = m.table.isRunning b) :
      Makes h m table []
  | ends (as : List ActionId) (interrupted : Bool) (idle : m.doing = none)
      (quiet : ∀ a, ¬ m.Starts h a) (nodup : as.Nodup)
      (ran : ∀ b ∈ as, m.table.isRunning b = true)
      (runs : ∀ b, table.isRunning b = (m.table.isRunning b && !decide (b ∈ as))) :
      Makes h m table (as.map fun b => (b, some (.finish interrupted)))
  | starts {a : ActionId} (as : List ActionId) (atOnce : Bool) (idle : m.doing = none)
      (starts : m.Starts h a) (nodup : as.Nodup)
      (ran : ∀ b ∈ as, b ≠ a ∧ m.table.isRunning b = true)
      (runs : ∀ b, table.isRunning b =
        (decide (b = a) || m.table.isRunning b && !decide (b ∈ as))) :
      Makes h m table (as.map (fun b => (b, some (.finish true))) ++
        [(a, if atOnce then some .begin else none)])
  | posts {a : ActionId} {late : List ActionId} {rest : List (Task ε Ω σ)}
      (agenda : m.agenda = .succeed a late :: rest) (others : late ≠ [])
      (quiet : ∀ a, ¬ m.Starts h a) (same : ∀ b, table.isRunning b = m.table.isRunning b) :
      Makes h m table (late.map fun b => (b, some (.handOver a m.table.nextTicket)))
  /-- The last hand-over of a ticket lets a running action begin. -/
  | handsOver {a next : ActionId} {ticket : Nat} {rest : List (Task ε Ω σ)}
      (agenda : m.agenda = .serve a (.handOver next ticket) :: rest)
      (last : m.table.awaits ticket = false) (runs : m.table.isRunning next = true)
      (quiet : ∀ a, ¬ m.Starts h a) (same : ∀ b, table.isRunning b = m.table.isRunning b) :
      Makes h m table [(next, some .begin)]
  | turns {a : ActionId} (idle : m.doing = none) (quiet : ∀ a, ¬ m.Starts h a)
      (same : ∀ b, table.isRunning b = m.table.isRunning b) :
      Makes h m table [(a, some .process)]

theorem isRunning_foldl_retire (as : List ActionId) (t : ActionTable) (b : ActionId) :
    (as.foldl ActionTable.retire t).isRunning b = (t.isRunning b && !decide (b ∈ as)) := by
  unfold ActionTable.isRunning
  rw [ActionTable.phase_foldl_retire]
  by_cases ended : b ∈ as <;> simp [ended]

theorem isRunning_seize (t : ActionTable) (a b : ActionId) (ds : List DeviceId) :
    (t.seize a ds).isRunning b =
      (decide (b = a) || t.isRunning b && !decide (b ∈ t.holders a ds)) := by
  unfold ActionTable.isRunning
  rw [ActionTable.phase_seize]
  by_cases self : b = a
  · simp [self]
  · by_cases held : b ∈ t.holders a ds <;> simp [self, held]

/-- The account of a step: what it does is gone, what it makes is new, all else stays. -/
def Accounted (h : Host ε Ω σ) (m : Machine ε Ω σ) (table : ActionTable)
    (agenda : List (Task ε Ω σ)) : Prop :=
  ∃ new, Makes h m table new ∧ ∀ w,
    pending table agenda w + m.doing.toList.count w = pending m.table m.agenda w + new.count w

section Account

variable {h : Host ε Ω σ} {m : Machine ε Ω σ} {table : ActionTable} {agenda : List (Task ε Ω σ)}

theorem accounted_of_items {new : List Item} (makes : m.doing = none → Makes h m table new)
    (idle : m.doing = none) (owed : ∀ a, table.owed a = m.table.owed a)
    (same : items agenda = new ++ items m.agenda) : Accounted h m table agenda := by
  refine ⟨new, makes idle, fun w => ?_⟩
  unfold pending
  rw [ActionTable.owes_of_same owed, same, idle, List.count_append, Option.toList_none,
    List.count_nil]
  omega

theorem accounted_of_serve {a : ActionId} {d : Deferred} {rest : List (Task ε Ω σ)}
    {new : List Item} (makes : Makes h m table new) (front : m.agenda = .serve a d :: rest)
    (owed : ∀ a, table.owed a = m.table.owed a) (same : items agenda = new ++ items rest) :
    Accounted h m table agenda := by
  have whole : items m.agenda = (a, some d) :: items rest := by rw [front]; rfl
  have gone : m.doing.toList = [(a, some d)] := by rw [doing_eq front]; rfl
  refine ⟨new, makes, fun w => ?_⟩
  unfold pending
  rw [ActionTable.owes_of_same owed, same, whole, gone, List.count_append,
    List.count_cons (l := items rest), List.count_singleton]
  omega

theorem accounted_of_ends (as : List ActionId) (interrupted : Bool) (idle : m.doing = none)
    (quiet : ∀ a, ¬ m.Starts h a) (nodup : as.Nodup)
    (ran : ∀ b ∈ as, m.table.isRunning b = true)
    (alike : (as.foldl ActionTable.retire m.table).Alike table)
    (same : items agenda = as.map (fun b => (b, some (.finish interrupted))) ++ items m.agenda) :
    Accounted h m table agenda := by
  have runs : ∀ b, table.isRunning b = (m.table.isRunning b && !decide (b ∈ as)) := fun b =>
    (alike.isRunning b).trans (isRunning_foldl_retire as m.table b)
  have owed : ∀ b, table.owed b = m.table.owed b := fun b =>
    (alike.owed b).trans (sameCalls_retireEach m.table as b).2
  exact accounted_of_items (.ends as interrupted · quiet nodup ran runs) idle owed same

theorem accounted_of_seize {claimed : ActionTable} {rest : List (Task ε Ω σ)} {a : ActionId}
    {ds : List DeviceId} (whole : m.agenda = .launch a :: rest)
    (claims : (claimed = m.table ∧ ds = m.table.claims a ∧ m.table.isBusy a = true) ∨
      (claimed = m.table.setClaims a ds ∧ m.table.isBusy a = false))
    (starts : m.Starts h a) (alike : (claimed.seize a ds).Alike table)
    (consistent : m.table.Consistent) : Accounted h m table
      (afterSeizing claimed a (claimed.holders a ds) ++ .letGo (claimed.holders a ds) :: rest) := by
  have running : ∀ b, claimed.isRunning b = m.table.isRunning b ∧
      claimed.running = m.table.running := by
    rcases claims with ⟨rfl, _, _⟩ | ⟨rfl, _⟩
    · exact fun b => ⟨rfl, rfl⟩
    · exact fun b => ⟨ActionTable.isRunning_setClaims m.table a b ds, rfl⟩
  have ran : ∀ b ∈ claimed.holders a ds, b ≠ a ∧ m.table.isRunning b = true := by
    intro b member
    obtain ⟨other, listed, _⟩ := (ActionTable.mem_holders claimed a ds b).mp member
    refine ⟨other, ?_⟩
    rw [ActionTable.isRunning_iff, consistent.running_iff, ← (running b).2]
    exact listed
  have runs : ∀ b, table.isRunning b = (decide (b = a) || m.table.isRunning b &&
      !decide (b ∈ claimed.holders a ds)) := fun b => by
    rw [alike.isRunning, isRunning_seize, (running b).1]
  refine accounted_of_items (.starts (claimed.holders a ds)
    ((claimed.holders a ds).filter claimed.isBusy).isEmpty · starts (nodup_eraseDups _) ran
    runs) (doing_eq whole) (fun b => (sameCalls_start claims alike b).2) ?_
  unfold afterSeizing
  rw [whole, items_append, items_append, items_invokes]
  rfl

end Account

theorem Move.accounted {h : Host ε Ω σ} {m : Machine ε Ω σ} {table : ActionTable}
    {agenda : List (Task ε Ω σ)} (move : Move h m table agenda) (consistent : m.table.Consistent) :
    Accounted h m table agenda := by
  have asleep : ∀ {t : Task ε Ω σ} {rest : List (Task ε Ω σ)}, m.agenda = t :: rest →
      (∀ a, t ≠ .launch a) → ∀ a, ¬ m.Starts h a := fun front other =>
    not_starts_of_front h m front other
  cases move with
  | idle front =>
      have quiet : ∀ a, ¬ m.Starts h a := by
        rintro a ⟨rest, task, _⟩
        rw [front] at task
        cases task
      exact accounted_of_items (.nothing · quiet fun _ => rfl) (by rw [doing, front]; rfl)
        (fun _ => rfl) (by rw [front]; rfl)
  | @code front new rest t _ whole codes fails newCodes alike quiet =>
      have light : ∀ x ∈ front ++ [t], x.isLight = true := fun x member => by
        rcases List.mem_append.mp member with early | last
        · exact x.isLight_of_isCode (codes x early)
        · exact List.mem_singleton.mp last ▸ t.isLight_of_isCode (t.isCode_of_mayFail fails)
      have split : m.agenda = (front ++ [t]) ++ rest := by rw [whole, List.append_assoc]; rfl
      refine accounted_of_items (.nothing · quiet alike.isRunning)
        (doing_of_isLight split (by simp) light) alike.owed ?_
      rw [split, items_append, items_append, items_of_isLight light, items_of_isCode newCodes]
      rfl
  | drop front some light alike quiet =>
      refine accounted_of_items (.nothing · quiet alike.isRunning)
        (doing_of_isLight front some light) alike.owed ?_
      rw [front, items_append, items_of_isLight light]
      rfl
  | proceed front codes some quiet =>
      refine accounted_of_items (.nothing · quiet fun _ => rfl) (doing_of_isCode front some codes)
        (fun _ => rfl) ?_
      rw [front, items_append, items_of_isCode codes]
      rfl
  | @ended front rest a _ _ interrupted whole codes some runs alike quiet =>
      refine accounted_of_ends [a] interrupted (doing_of_isCode whole some codes) quiet (by simp)
        (by simpa using runs) alike ?_
      rw [whole, items_append, items_of_isCode codes]
      rfl
  | @interrupt new rest t a _ whole fails notLaunch newCodes runs alike =>
      have light : ∀ x ∈ [t], x.isLight = true := fun x member =>
        List.mem_singleton.mp member ▸ t.isLight_of_isCode (t.isCode_of_mayFail fails)
      have split : m.agenda = [t] ++ rest := whole
      refine accounted_of_ends [a] true (doing_of_isLight split (by simp) light)
        (asleep whole notLaunch) (by simp) (by simpa using runs) alike ?_
      change (a, some (.finish true)) :: items (new ++ rest) = _ :: items m.agenda
      rw [split, items_append, items_append, items_of_isCode newCodes, items_of_isLight light]
  | @stopAll new rest _ _ whole newCodes alike =>
      have ran : ∀ b ∈ m.table.runningBackwards, m.table.isRunning b = true := fun b member => by
        rw [ActionTable.isRunning_iff, consistent.running_iff, ← List.mem_reverse]
        exact List.mem_eraseDups.mp member
      refine accounted_of_ends m.table.runningBackwards true (doing_eq whole)
        (asleep whole fun b same => by cases same) (nodup_eraseDups _) ran alike ?_
      rw [whole, items_append, items_append, items_invokes, items_of_isCode newCodes]
      rfl
  | @tick new rest _ _ whole newCodes alike =>
      have turns : items (m.table.running.map (Task.turn : ActionId → Task ε Ω σ)) = [] := by
        apply items_of_isLight
        intro x member
        obtain ⟨a, _, rfl⟩ := List.mem_map.mp member
        rfl
      refine accounted_of_items (.nothing · (asleep whole fun b same => by cases same)
        alike.isRunning) (doing_eq whole) alike.owed ?_
      rw [whole, items_append, items_append, turns, items_of_isCode newCodes]
      rfl
  | seize whole claims starts alike =>
      exact accounted_of_seize whole claims starts alike consistent
  | succeedNow front =>
      exact accounted_of_items (.nothing · (asleep front fun b same => by cases same) fun _ => rfl)
        (doing_eq front) (fun _ => rfl) (by rw [front]; rfl)
  | @succeedLater rest a late whole others =>
      obtain ⟨o, more, rfl⟩ := List.exists_cons_of_ne_nil others
      have before : items m.agenda = (a, none) :: items agenda := by rw [whole]; rfl
      have gone : m.doing.toList = [(a, none)] := by rw [doing_eq whole]; rfl
      refine ⟨_, .posts whole others (asleep whole fun b same => by cases same)
        (ActionTable.SameLocks.deferHandOver m.table a (o :: more)).isRunning, fun w => ?_⟩
      unfold pending
      rw [gone, before, List.count_cons (l := items agenda), List.count_singleton,
        ActionTable.owes_deferHandOver]
      omega
  | @defer rest a d whole busy =>
      have before : items m.agenda = (a, some d) :: items agenda := by rw [whole]; rfl
      refine ⟨[], .nothing (doing_eq whole) (asleep whole fun b same => by cases same)
        (ActionTable.SameLocks.defer m.table a d).isRunning, fun w => ?_⟩
      unfold pending
      rw [before, doing_eq whole, ActionTable.owes_defer, List.count_cons (l := items agenda),
        List.count_singleton]
      simp only [Task.does, Option.toList_none, List.count_nil]
      omega
  | @enter rest a d whole free =>
      exact accounted_of_items (.nothing · (asleep whole fun b same => by cases same)
        (ActionTable.SameLocks.enter m.table a).isRunning) (doing_eq whole)
        (m.table.owed_enter a) (by rw [whole]; rfl)
  | call front enters =>
      refine accounted_of_serve (.served front (fun next ticket same => ?_)
        (asleep front fun b same => by cases same) fun _ => rfl) front (fun _ => rfl) rfl
      subst same
      cases enters <;> simp_all
  | pass front stands =>
      exact accounted_of_serve (.served front (fun next ticket same => by cases same)
        (asleep front fun b same => by cases same) fun _ => rfl) front (fun _ => rfl) rfl
  | wait front reason =>
      refine accounted_of_serve (.served front (fun next ticket same => ?_)
        (asleep front fun b same => by cases same) fun _ => rfl) front (fun _ => rfl) rfl
      cases same
      exact reason
  | handOver front last runs alike =>
      exact accounted_of_serve (.handsOver front last runs
        (asleep front fun b same => by cases same) alike.isRunning) front alike.owed rfl
  | @leave _ a whole nothing =>
      exact accounted_of_items (.nothing · (asleep whole fun b same => by cases same)
        (ActionTable.SameLocks.leave m.table a).isRunning) (doing_eq whole)
        (m.table.owed_leave a) (by rw [whole]; rfl)
  | @drain rest a d ds whole owed =>
      have before : items m.agenda = items rest := by rw [whole]; rfl
      have after : items (.serve a d :: .drain a :: rest) = (a, some d) :: items rest := rfl
      refine ⟨[], .nothing (doing_eq whole) (asleep whole fun b same => by cases same)
        (ActionTable.SameLocks.setOwed m.table a ds).isRunning, fun w => ?_⟩
      have less := ActionTable.owes_setOwed owed w
      rw [List.count_singleton] at less
      unfold pending
      rw [before, after, doing_eq whole, List.count_cons]
      simp only [Task.does, Option.toList_none, List.count_nil]
      omega
  | turn front _ =>
      exact accounted_of_items (.turns · (asleep front fun b same => by cases same)
        fun _ => rfl) (doing_eq front) (fun _ => rfl) (by rw [front]; rfl)

end Machine

end RobotControl
