import RobotControl.Proofs.Action.Moves

/-!
# Runs of the manager

A run starts with nothing known about any action.  From outside the manager is asked for one thing
after another; in between it makes its steps, and the world and the application's own state may
change at any moment.  `Machine.Run.consistent` is the agreement of the lock table at every point of
every run, `Machine.Run.sound` the agreement between the agenda and what the table knows about
callbacks.
-/
set_option autoImplicit false

namespace RobotControl

variable {ε Ω σ : Type}

def frames (tasks : List (Task ε Ω σ)) : List ActionId := tasks.filterMap Task.frame

theorem frames_append (new rest : List (Task ε Ω σ)) :
    frames (new ++ rest) = frames new ++ frames rest := List.filterMap_append

theorem frames_of_isLight {tasks : List (Task ε Ω σ)} (light : ∀ x ∈ tasks, x.isLight = true) :
    frames tasks = [] := by
  apply List.filterMap_eq_nil_iff.mpr
  intro x member
  have own := light x member
  cases x <;> first | rfl | cases own

theorem frames_of_isCode {tasks : List (Task ε Ω σ)} (codes : ∀ x ∈ tasks, x.isCode = true) :
    frames tasks = [] := frames_of_isLight fun x member => x.isLight_of_isCode (codes x member)

theorem frames_map {as : List ActionId} {task : ActionId → Task ε Ω σ}
    (none : ∀ a, (task a).frame = none) : frames (as.map task) = [] := by
  apply List.filterMap_eq_nil_iff.mpr
  intro x member
  obtain ⟨a, _, rfl⟩ := List.mem_map.mp member
  exact none a

def Task.waitsFor : Task ε Ω σ → List ActionId
  | .succeed _ late => late
  | _ => []

/-- Actions that a start waits for are inside callbacks that end further down. -/
def Attended : List (Task ε Ω σ) → Prop
  | [] => True
  | t :: rest => (∀ o ∈ t.waitsFor, o ∈ frames rest) ∧ Attended rest

theorem Attended.suffix {front rest : List (Task ε Ω σ)} (attended : Attended (front ++ rest)) :
    Attended rest := by
  induction front with
  | nil => exact attended
  | cons t more ih => exact ih attended.2

theorem Attended.append {rest : List (Task ε Ω σ)} (attended : Attended rest)
    (new : List (Task ε Ω σ)) (none : ∀ x ∈ new, x.waitsFor = []) : Attended (new ++ rest) := by
  induction new with
  | nil => exact attended
  | cons t more ih =>
      refine ⟨fun o late => ?_, ih fun x member => none x (List.mem_cons_of_mem _ member)⟩
      rw [none t (List.mem_cons_self ..)] at late
      cases late

theorem Attended.append_code {new rest : List (Task ε Ω σ)} (attended : Attended rest)
    (codes : ∀ x ∈ new, x.isCode = true) : Attended (new ++ rest) := by
  apply attended.append new
  intro x member
  have code := codes x member
  cases x <;> first | rfl | cases code

namespace ActionTable

/-! ### What the table knows about callbacks -/

theorem isBusy_enter (t : ActionTable) (a b : ActionId) :
    (t.enter a).isBusy b = (decide (a = b) || t.isBusy b) := by
  unfold isBusy enter
  rw [entry_update]
  by_cases same : a = b <;> simp [same]

theorem isBusy_leave (t : ActionTable) (a b : ActionId) :
    (t.leave a).isBusy b = (!decide (a = b) && t.isBusy b) := by
  unfold isBusy leave
  rw [entry_update]
  by_cases same : a = b <;> simp [same]

theorem owed_defer (t : ActionTable) (a b : ActionId) (d : Deferred) :
    (t.defer a d).owed b = if a = b then t.owed b ++ [d] else t.owed b := by
  unfold owed defer
  rw [entry_update]
  by_cases same : a = b <;> simp [same]

theorem owed_enter (t : ActionTable) (a b : ActionId) : (t.enter a).owed b = t.owed b :=
  view_update Entry.owed t a b (fun e => { e with busy := true }) fun _ => rfl

theorem owed_leave (t : ActionTable) (a b : ActionId) : (t.leave a).owed b = t.owed b :=
  view_update Entry.owed t a b (fun e => { e with busy := false }) fun _ => rfl

theorem isBusy_defer (t : ActionTable) (a b : ActionId) (d : Deferred) :
    (t.defer a d).isBusy b = t.isBusy b :=
  view_update Entry.busy t a b (fun e => { e with owed := e.owed ++ [d] }) fun _ => rfl

theorem isBusy_setOwed (t : ActionTable) (a b : ActionId) (ds : List Deferred) :
    (t.setOwed a ds).isBusy b = t.isBusy b :=
  view_update Entry.busy t a b (fun e => { e with owed := ds }) fun _ => rfl

theorem owed_setOwed (t : ActionTable) (a b : ActionId) (ds : List Deferred) :
    (t.setOwed a ds).owed b = if a = b then ds else t.owed b := by
  unfold owed setOwed
  rw [entry_update]
  by_cases same : a = b <;> simp [same]

theorem view_deferHandOver {β : Type} (view : Entry → β)
    (keeps : ∀ e ds, view { e with owed := ds } = view e) (t : ActionTable) (next b : ActionId)
    (late : List ActionId) :
    view ((t.deferHandOver next late).entry b) = view (t.entry b) := by
  have folded : ∀ (as : List ActionId) (u : ActionTable),
      view ((as.foldl (fun v a => v.defer a (.handOver next t.nextTicket)) u).entry b) =
        view (u.entry b) := by
    intro as
    induction as with
    | nil => exact fun _ => rfl
    | cons a rest ih =>
        intro u
        exact (ih _).trans (view_update view u a b _ fun e => keeps e _)
  exact folded late t

theorem owed_deferHandOver (t : ActionTable) (next b : ActionId) (late : List ActionId) :
    (t.deferHandOver next late).owed b =
      t.owed b ++ List.replicate (late.count b) (.handOver next t.nextTicket) := by
  have folded : ∀ (as : List ActionId) (u : ActionTable),
      (as.foldl (fun v a => v.defer a (.handOver next t.nextTicket)) u).owed b =
        u.owed b ++ List.replicate (as.count b) (.handOver next t.nextTicket) := by
    intro as
    induction as with
    | nil => simp
    | cons a rest ih =>
        intro u
        rw [List.foldl_cons, ih, owed_defer]
        by_cases same : a = b
        · subst same
          rw [if_pos rfl, List.count_cons_self, List.append_assoc, List.replicate_succ]
          rfl
        · rw [if_neg same, List.count_cons_of_ne same]
  exact folded late t

end ActionTable

/-- Agenda and table agree: an action is busy exactly while the end of its callbacks is on the
agenda, and only busy actions owe anything. -/
structure Sound (table : ActionTable) (agenda : List (Task ε Ω σ)) : Prop where
  framed : Framed agenda
  attended : Attended agenda
  busy_iff : ∀ a, table.isBusy a = true ↔ a ∈ frames agenda
  nodup : (frames agenda).Nodup
  owed_busy : ∀ a, table.owed a ≠ [] → table.isBusy a = true

namespace Sound

theorem of_same {table table' : ActionTable} {agenda agenda' : List (Task ε Ω σ)}
    (sound : Sound table agenda) (framed : Framed agenda') (attended : Attended agenda')
    (inside : frames agenda' = frames agenda)
    (busy : ∀ a, table'.isBusy a = table.isBusy a)
    (owed : ∀ a, table'.owed a ≠ [] → table.owed a ≠ []) : Sound table' agenda' where
  framed := framed
  attended := attended
  busy_iff a := by
    rw [busy, inside]
    exact sound.busy_iff a
  nodup := inside ▸ sound.nodup
  owed_busy a owes := by
    rw [busy]
    exact sound.owed_busy a (owed a owes)

theorem owed_eq_nil {table : ActionTable} {agenda : List (Task ε Ω σ)}
    (sound : Sound table agenda) {a : ActionId} (free : table.isBusy a = false) :
    table.owed a = [] := by
  by_contra owes
  rw [sound.owed_busy a owes] at free
  cases free

end Sound

namespace Machine

theorem frames_afterSeizing (t : ActionTable) (a : ActionId) (holders : List ActionId) :
    frames (afterSeizing t a holders : List (Task ε Ω σ)) = [] := by
  unfold afterSeizing
  rw [frames_append, frames_map fun _ => rfl]
  rfl

def SameCalls (t t' : ActionTable) : Prop :=
  ∀ a, t'.isBusy a = t.isBusy a ∧ t'.owed a = t.owed a

theorem sameCalls_alike {t t' t'' : ActionTable} (same : SameCalls t t') (alike : t'.Alike t'') :
    SameCalls t t'' := fun a =>
  ⟨(alike.isBusy a).trans (same a).1, (alike.owed a).trans (same a).2⟩

theorem sameCalls_retireEach (t : ActionTable) (as : List ActionId) :
    SameCalls t (as.foldl ActionTable.retire t) := fun a =>
  ⟨ActionTable.view_foldl_retire Entry.busy (fun _ _ => rfl) as t a,
    ActionTable.view_foldl_retire Entry.owed (fun _ _ => rfl) as t a⟩

theorem sameCalls_seize (t : ActionTable) (a : ActionId) (ds : List DeviceId) :
    SameCalls t (t.seize a ds) := fun b =>
  ⟨ActionTable.view_seize Entry.busy (fun _ _ => rfl) t a b ds,
    ActionTable.view_seize Entry.owed (fun _ _ => rfl) t a b ds⟩

theorem sameCalls_setClaims (t : ActionTable) (a : ActionId) (ds : List DeviceId) :
    SameCalls t (t.setClaims a ds) := fun b =>
  ⟨ActionTable.view_update Entry.busy t a b (fun e => { e with claims := ds }) fun _ => rfl,
    ActionTable.view_update Entry.owed t a b (fun e => { e with claims := ds }) fun _ => rfl⟩

theorem sameCalls_start {t claimed table : ActionTable} {a : ActionId} {ds : List DeviceId}
    (claims : (claimed = t ∧ ds = t.claims a ∧ t.isBusy a = true) ∨
      (claimed = t.setClaims a ds ∧ t.isBusy a = false))
    (alike : (claimed.seize a ds).Alike table) : SameCalls t table := by
  refine sameCalls_alike (fun b => ?_) alike
  obtain ⟨busy, owed⟩ := sameCalls_seize claimed a ds b
  rcases claims with ⟨rfl, _, _⟩ | ⟨rfl, _⟩
  · exact ⟨busy, owed⟩
  · obtain ⟨busy', owed'⟩ := sameCalls_setClaims t a ds b
    exact ⟨busy.trans busy', owed.trans owed'⟩

/-- Whom a start waits for is busy at that moment, hence inside a callback further down. -/
theorem Move.attended {h : Host ε Ω σ} {m : Machine ε Ω σ} {table : ActionTable}
    {agenda : List (Task ε Ω σ)} (move : Move h m table agenda)
    (sound : Sound m.table m.agenda) : Attended agenda := by
  have attended := sound.attended
  cases move with
  | idle _ => trivial
  | code front _ _ newCodes _ _ => exact (front ▸ attended).suffix.2.append_code newCodes
  | drop front _ _ _ _ => exact (front ▸ attended).suffix
  | proceed front _ _ _ =>
      exact (front ▸ attended).suffix.2.append [_, _] (by simp [Task.waitsFor])
  | ended _ front _ _ _ _ _ =>
      exact (front ▸ attended).suffix.2.append [_] (by simp [Task.waitsFor])
  | interrupt front _ _ newCodes _ _ =>
      exact ((front ▸ attended).2.append_code newCodes).append [_]
        (by simp [Task.waitsFor])
  | stopAll front newCodes _ =>
      apply ((front ▸ attended).2.append_code newCodes).append _
      intro x member
      obtain ⟨a, _, rfl⟩ := List.mem_map.mp member
      rfl
  | tick front newCodes _ =>
      apply ((front ▸ attended).2.append_code newCodes).append _
      intro x member
      obtain ⟨a, _, rfl⟩ := List.mem_map.mp member
      rfl
  | @seize rest a ds claimed _ front claims _ _ =>
      rw [front] at attended
      have known : ∀ o, claimed.isBusy o = m.table.isBusy o := by
        rcases claims with ⟨rfl, _, _⟩ | ⟨rfl, _⟩
        · exact fun _ => rfl
        · exact fun o => (sameCalls_setClaims m.table a ds o).1
      have succeeds : Attended (.succeed a ((claimed.holders a ds).filter claimed.isBusy) ::
          .letGo (claimed.holders a ds) :: rest) := by
        refine ⟨fun o late => ?_, attended.2.append [_] (by simp [Task.waitsFor])⟩
        have busy := (List.mem_filter.mp late).2
        rw [known, sound.busy_iff, front] at busy
        exact busy
      unfold afterSeizing
      rw [List.append_assoc]
      apply succeeds.append _
      intro x member
      obtain ⟨o, _, rfl⟩ := List.mem_map.mp member
      rfl
  | succeedNow front =>
      exact (front ▸ attended).2.append [_] (by simp [Task.waitsFor])
  | succeedLater front _ => exact (front ▸ attended).2
  | defer front _ => exact (front ▸ attended).2
  | enter front _ => exact (front ▸ attended).2.append [_, _] (by simp [Task.waitsFor])
  | call front _ => exact (front ▸ attended).2.append [_, _] (by simp [Task.waitsFor])
  | pass front _ => exact (front ▸ attended).2
  | wait front _ => exact (front ▸ attended).2
  | handOver front _ _ _ =>
      exact (front ▸ attended).2.append [_, _] (by simp [Task.waitsFor])
  | leave front _ => exact (front ▸ attended).2
  | drain front _ => exact (front ▸ attended).2.append [_, _] (by simp [Task.waitsFor])
  | turn front _ => exact (front ▸ attended).2.append [_] (by simp [Task.waitsFor])

theorem frames_mayFail {t : Task ε Ω σ} (fails : t.mayFail = true) : frames [t] = [] :=
  frames_of_isCode fun x member => by
    rw [List.mem_singleton.mp member]
    exact t.isCode_of_mayFail fails

theorem Move.sound {h : Host ε Ω σ} {m : Machine ε Ω σ} {table : ActionTable}
    {agenda : List (Task ε Ω σ)} (move : Move h m table agenda)
    (sound : Sound m.table m.agenda) : Sound table agenda := by
  have framed := move.framed sound.framed
  have attended := move.attended sound
  have same : frames agenda = frames m.agenda → SameCalls m.table table → Sound table agenda :=
    fun inside calls => sound.of_same framed attended inside (fun a => (calls a).1)
      fun a owes => (calls a).2 ▸ owes
  cases move with
  | idle front => exact same (by rw [front]) fun _ => ⟨rfl, rfl⟩
  | code front codes fails newCodes alike _ =>
      refine same ?_ (sameCalls_alike (fun _ => ⟨rfl, rfl⟩) alike)
      rw [front, List.append_cons, frames_append, frames_append, frames_append,
        frames_mayFail fails, frames_of_isCode codes, frames_of_isCode newCodes]
      rfl
  | drop front _ light alike _ =>
      refine same ?_ (sameCalls_alike (fun _ => ⟨rfl, rfl⟩) alike)
      rw [front, frames_append, frames_of_isLight light]
      rfl
  | proceed front codes _ _ =>
      refine same ?_ fun _ => ⟨rfl, rfl⟩
      rw [front, frames_append, frames_of_isCode codes]
      rfl
  | ended _ front codes _ _ alike _ =>
      refine same ?_ (sameCalls_alike (sameCalls_retireEach m.table [_]) alike)
      rw [front, frames_append, frames_of_isCode codes]
      rfl
  | interrupt front fails _ newCodes _ alike =>
      refine same ?_ (sameCalls_alike (sameCalls_retireEach m.table [_]) alike)
      change frames (_ ++ _) = _
      rw [front, frames_append, frames_of_isCode newCodes, List.nil_append,
        ← List.singleton_append (l := _), frames_append, frames_mayFail fails]
      rfl
  | stopAll front newCodes alike =>
      refine same ?_ (sameCalls_alike (sameCalls_retireEach m.table _) alike)
      rw [front, frames_append, frames_append, frames_map fun _ => rfl, frames_of_isCode newCodes]
      rfl
  | tick front newCodes alike =>
      refine same ?_ (sameCalls_alike (fun _ => ⟨rfl, rfl⟩) alike)
      rw [front, frames_append, frames_append, frames_map fun _ => rfl, frames_of_isCode newCodes]
      rfl
  | seize front claims _ alike =>
      refine same ?_ (sameCalls_start claims alike)
      rw [front, frames_append, frames_afterSeizing]
      rfl
  | succeedNow front => exact same (by rw [front]; rfl) fun _ => ⟨rfl, rfl⟩
  | @succeedLater _ a late front _ =>
      have busy : ∀ b, (m.table.deferHandOver a late).isBusy b = m.table.isBusy b := fun b =>
        ActionTable.view_deferHandOver Entry.busy (fun _ _ => rfl) m.table a b late
      have inside : frames m.agenda = frames agenda := by rw [front]; rfl
      refine ⟨framed, attended, fun b => ?_, inside ▸ sound.nodup, fun b owes => ?_⟩
      · rw [busy, sound.busy_iff, inside]
      · rw [busy]
        by_cases waits : b ∈ late
        · have below := (front ▸ sound.attended).1 b waits
          rw [sound.busy_iff, inside]
          exact below
        · refine sound.owed_busy b fun none => owes ?_
          rw [ActionTable.owed_deferHandOver, none, List.count_eq_zero.mpr waits]
          rfl
  | @defer _ a d front busy =>
      have inside : frames m.agenda = frames agenda := by rw [front]; rfl
      refine ⟨framed, attended, fun b => ?_, inside ▸ sound.nodup, fun b owes => ?_⟩
      · rw [ActionTable.isBusy_defer, sound.busy_iff, inside]
      · rw [ActionTable.isBusy_defer]
        by_cases self : a = b
        · exact self ▸ busy
        · rw [ActionTable.owed_defer, if_neg self] at owes
          exact sound.owed_busy b owes
  | @enter rest a d front free =>
      have inside : frames m.agenda = frames rest := by rw [front]; rfl
      have outside : a ∉ frames rest := by
        rw [← inside, ← sound.busy_iff, free]
        exact Bool.false_ne_true
      have apart : (frames rest).Nodup := inside ▸ sound.nodup
      refine ⟨framed, attended, fun b => ?_, List.nodup_cons.mpr ⟨outside, apart⟩,
        fun b owes => ?_⟩
      · have entered : frames (.serve a d :: .drain a :: rest) = a :: frames rest := rfl
        rw [ActionTable.isBusy_enter, entered, List.mem_cons, Bool.or_eq_true, sound.busy_iff,
          inside, decide_eq_true_eq, eq_comm]
      · rw [ActionTable.owed_enter] at owes
        rw [ActionTable.isBusy_enter, sound.owed_busy b owes, Bool.or_true]
  | call front _ => exact same (by rw [front]; rfl) fun _ => ⟨rfl, rfl⟩
  | pass front _ => exact same (by rw [front]; rfl) fun _ => ⟨rfl, rfl⟩
  | wait front _ => exact same (by rw [front]; rfl) fun _ => ⟨rfl, rfl⟩
  | handOver front _ _ alike =>
      exact same (by rw [front]; rfl) (sameCalls_alike (fun _ => ⟨rfl, rfl⟩) alike)
  | @leave _ a front nothing =>
      have inside : frames m.agenda = a :: frames agenda := by rw [front]; rfl
      have apart := List.nodup_cons.mp (inside ▸ sound.nodup)
      refine ⟨framed, attended, fun b => ?_, apart.2, fun b owes => ?_⟩
      · rw [ActionTable.isBusy_leave, Bool.and_eq_true, sound.busy_iff, inside, List.mem_cons]
        simp only [Bool.not_eq_true', decide_eq_false_iff_not]
        refine ⟨fun known => known.2.resolve_left fun same => known.1 same.symm, fun below =>
          ⟨fun same => apart.1 (same ▸ below), Or.inr below⟩⟩
      · rw [ActionTable.owed_leave] at owes
        have other : a ≠ b := fun same => owes (same ▸ nothing)
        rw [ActionTable.isBusy_leave, sound.owed_busy b owes]
        simp [other]
  | @drain rest a d ds front owed =>
      refine sound.of_same framed attended (by rw [front]; rfl)
        (fun b => ActionTable.isBusy_setOwed m.table a b ds) fun b owes => ?_
      rw [ActionTable.owed_setOwed] at owes
      by_cases self : a = b
      · rw [← self, owed]
        exact List.cons_ne_nil d ds
      · rw [if_neg self] at owes
        exact owes
  | turn front _ => exact same (by rw [front]; rfl) fun _ => ⟨rfl, rfl⟩

/-- Agenda and table agree, and so do the stores of the table. -/
structure Orderly (m : Machine ε Ω σ) : Prop where
  sound : Sound m.table m.agenda
  consistent : m.table.Consistent

namespace Orderly

variable {h : Host ε Ω σ} {m : Machine ε Ω σ}

theorem fresh (w : Ω) (own : σ) :
    Orderly ({ table := {}, world := w, own := own } : Machine ε Ω σ) := by
  refine ⟨⟨trivial, trivial, fun a => ?_, List.nodup_nil, fun a owes => ?_⟩, .empty⟩
  · simp [ActionTable.isBusy, ActionTable.entry, Assoc.getD, Assoc.get?_empty, frames]
  · simp [ActionTable.owed, ActionTable.entry, Assoc.getD, Assoc.get?_empty] at owes

theorem ask (orderly : m.Orderly) (idle : m.agenda = []) (r : Routine ε Ω σ) :
    (m.todo [.run r]).Orderly := by
  have sound := orderly.sound
  rw [idle] at sound
  have code : ∀ x ∈ [(.run r : Task ε Ω σ)], x.isCode = true := by simp [Task.isCode]
  have nothing : Framed ([] : List (Task ε Ω σ)) := trivial
  have framed := nothing.append_code (fun _ none => by cases none) trivial code
  have attended : Attended ([] : List (Task ε Ω σ)) := trivial
  exact ⟨sound.of_same framed (attended.append_code code) rfl (fun _ => rfl) fun _ owes => owes,
    orderly.consistent⟩

theorem move (orderly : m.Orderly) : Move h m (m.step h).table (m.step h).agenda :=
  step_move h m orderly.sound.framed

theorem step (orderly : m.Orderly) : (m.step h).Orderly :=
  ⟨orderly.move.sound orderly.sound, orderly.move.consistent orderly.consistent⟩

end Orderly

def asked (m : Machine ε Ω σ) (r : Request) : Machine ε Ω σ :=
  m.todo [.run (.ask r fun _ => .skip)]

/-- The machines of a run: the one reached, and those that have made a step, the latest first. -/
inductive Run (h : Host ε Ω σ) : Machine ε Ω σ → List (Machine ε Ω σ) → Prop
  | fresh (w : Ω) (own : σ) : Run h { table := {}, world := w, own := own } []
  | ask {m : Machine ε Ω σ} {past : List (Machine ε Ω σ)} (r : Request) (run : Run h m past)
      (idle : m.agenda = []) : Run h (m.asked r) past
  /-- World and application change by themselves. -/
  | drift {m : Machine ε Ω σ} {past : List (Machine ε Ω σ)} (w : Ω) (own : σ)
      (run : Run h m past) : Run h { m with world := w, own := own } past
  | step {m : Machine ε Ω σ} {past : List (Machine ε Ω σ)} (run : Run h m past) :
      Run h (m.step h) (m :: past)

def trail (h : Host ε Ω σ) : Nat → Machine ε Ω σ → List (Machine ε Ω σ) → List (Machine ε Ω σ)
  | 0, _, past => past
  | n + 1, m, past => trail h n (m.step h) (m :: past)

theorem mem_trail {h : Host ε Ω σ} {x : Machine ε Ω σ} (n : Nat) {m : Machine ε Ω σ}
    {past : List (Machine ε Ω σ)} (member : x ∈ past) : x ∈ m.trail h n past := by
  induction n generalizing m past with
  | zero => exact member
  | succ n ih => exact ih (List.mem_cons_of_mem m member)

theorem trail_append {h : Host ε Ω σ} (n : Nat) (m : Machine ε Ω σ)
    (newer older : List (Machine ε Ω σ)) :
    m.trail h n (newer ++ older) = m.trail h n newer ++ older := by
  induction n generalizing m newer with
  | zero => rfl
  | succ n ih => exact ih (m.step h) (m :: newer)

namespace Run

variable {h : Host ε Ω σ} {m : Machine ε Ω σ} {past : List (Machine ε Ω σ)}

theorem steps (run : Run h m past) (n : Nat) : Run h (m.steps h n) (m.trail h n past) := by
  induction n generalizing m past with
  | zero => exact run
  | succ n ih => exact ih run.step

theorem orderly (run : Run h m past) : m.Orderly := by
  induction run with
  | fresh w own => exact .fresh w own
  | ask r run idle ih => exact ih.ask idle _
  | drift w own run ih => exact ⟨ih.sound, ih.consistent⟩
  | step run ih => exact ih.step

theorem sound (run : Run h m past) : Sound m.table m.agenda := run.orderly.sound

theorem consistent (run : Run h m past) : m.table.Consistent := run.orderly.consistent

theorem move (run : Run h m past) : Move h m (m.step h).table (m.step h).agenda := run.orderly.move

end Run

/-- Lock-table consistency: at every point of every run, inside a callback or between operations,
phases, running list and owners agree; no two running actions claim a device in common, and an
action that does not run owns nothing. -/
theorem lockTable_consistent {h : Host ε Ω σ} {m : Machine ε Ω σ} {past : List (Machine ε Ω σ)}
    (run : Run h m past) :
    m.table.Consistent ∧
      (∀ a b, a ≠ b → m.table.phase a = .running → m.table.phase b = .running →
        ∀ d ∈ m.table.claims a, d ∉ m.table.claims b) ∧
      ∀ a, m.table.phase a ≠ .running → ∀ d, m.table.owner d ≠ some a := by
  have consistent := run.consistent
  refine ⟨consistent, fun a b different runsA runsB => ?_, fun a stands => ?_⟩
  · exact consistent.claims_disjoint ((consistent.running_iff a).mp runsA)
      ((consistent.running_iff b).mp runsB) different
  · exact consistent.owner_ne stands

end Machine

def Host.plain (needs : ActionId → List DeviceId)
    (routine : ActionId → Callback → Routine Empty Unit Unit) : Host Empty Unit Unit where
  name _ a := a.label
  needs own a := (own, .ok (needs a))
  routine := routine
  wantsMore _ _ := true
  poll _ own _ := (own, .ok false)
  isAlive _ _ _ := true
  forget _ _ w := w
  perform e := nomatch e
  log _ w := w

/-- A manager that is asked for one thing after another, the latest request first, and makes so
many steps after each. -/
def Host.play (h : Host Empty Unit Unit) : List (Request × Nat) → Machine Empty Unit Unit
  | [] => { table := {}, world := (), own := () }
  | (r, n) :: earlier => ((h.play earlier).asked r).steps h n

def Host.quiet : Host Empty Unit Unit := .plain (fun _ => [⟨1⟩, ⟨1⟩]) fun _ _ => .skip

def interruption : Machine Empty Unit Unit :=
  Host.quiet.play [(.start ⟨2⟩ false, 4), (.start ⟨1⟩ false, 12)]

theorem lockTable_consistent_interruption :
    interruption.table.Consistent ∧ interruption.table.phase ⟨1⟩ = .finished ∧
      interruption.table.isBusy ⟨1⟩ = true ∧ interruption.table.owner ⟨1⟩ = some ⟨2⟩ := by
  have first := ((Machine.Run.fresh (h := Host.quiet) () ()).ask (.start ⟨1⟩ false) rfl).steps 12
  have run := (first.ask (.start ⟨2⟩ false) rfl).steps 4
  exact ⟨(Machine.lockTable_consistent run).1, by decide, by decide, by decide⟩

end RobotControl
