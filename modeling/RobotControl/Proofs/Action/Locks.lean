import Mathlib.Data.List.Basic
import RobotControl.Action.Table

/-!
# The lock table

What the operations of an action table do to its views, and the agreement of its three stores:
`Consistent` says that the phases, the list of running actions and the owners of devices fit
together.  `Consistent.retire` and `Consistent.seize` are its two real steps; every other operation
leaves the stores as they were (`SameLocks`).
-/
set_option autoImplicit false

namespace RobotControl

namespace ActionTable

/-! ### Views after a change of one entry -/

theorem entry_update_self (t : ActionTable) (a : ActionId) (f : Entry → Entry) :
    (t.update a f).entry a = f (t.entry a) := by
  simp [entry_update]

theorem view_update {β : Type} (view : Entry → β) (t : ActionTable) (a b : ActionId)
    (f : Entry → Entry) (keeps : ∀ e, view (f e) = view e) :
    view ((t.update a f).entry b) = view (t.entry b) := by
  rw [entry_update]
  by_cases same : a = b
  · rw [if_pos same, keeps, same]
  · rw [if_neg same]

theorem isRunning_iff (t : ActionTable) (a : ActionId) :
    t.isRunning a = true ↔ t.phase a = .running := by
  simp [isRunning]

/-! ### Retiring several actions -/

theorem phase_foldl_retire (as : List ActionId) (t : ActionTable) (b : ActionId) :
    (as.foldl retire t).phase b = if b ∈ as then .finished else t.phase b := by
  induction as generalizing t with
  | nil => simp
  | cons a rest ih =>
      rw [List.foldl_cons, ih, phase_retire]
      by_cases later : b ∈ rest
      · simp [later]
      · by_cases same : a = b
        · simp [same]
        · simp [later, same, Ne.symm same]

theorem view_foldl_retire {β : Type} (view : Entry → β)
    (keeps : ∀ e p, view { e with phase := p } = view e) (as : List ActionId) (t : ActionTable)
    (b : ActionId) : view ((as.foldl retire t).entry b) = view (t.entry b) := by
  induction as generalizing t with
  | nil => rfl
  | cons a rest ih =>
      rw [List.foldl_cons, ih]
      exact view_update view t a b _ fun e => keeps e .finished

theorem claims_foldl_retire (as : List ActionId) (t : ActionTable) (b : ActionId) :
    (as.foldl retire t).claims b = t.claims b :=
  view_foldl_retire Entry.claims (fun _ _ => rfl) as t b

theorem mem_running_foldl_retire (as : List ActionId) (t : ActionTable) (b : ActionId) :
    b ∈ (as.foldl retire t).running ↔ b ∈ t.running ∧ b ∉ as := by
  induction as generalizing t with
  | nil => simp
  | cons a rest ih =>
      rw [List.foldl_cons, ih, running_retire]
      simp only [List.mem_filter, List.mem_cons, decide_eq_true_eq]
      tauto

theorem owner_foldl_retire (as : List ActionId) (t : ActionTable) (d : DeviceId)
    (o : ActionId) :
    (as.foldl retire t).owner d = some o ↔ t.owner d = some o ∧ o ∉ as := by
  induction as generalizing t with
  | nil => simp
  | cons a rest ih =>
      rw [List.foldl_cons, ih, owner_retire]
      simp only [Option.filter_eq_some_iff, List.mem_cons, decide_eq_true_eq]
      tauto

/-! ### Seizing devices -/

theorem mem_holders (t : ActionTable) (a : ActionId) (ds : List DeviceId) (o : ActionId) :
    o ∈ t.holders a ds ↔ o ≠ a ∧ o ∈ t.running ∧ ∃ d ∈ ds, t.owner d = some o := by
  unfold holders
  rw [List.mem_eraseDups, List.mem_filter, List.mem_filterMap]
  simp only [Bool.and_eq_true, decide_eq_true_eq, List.contains_iff_mem]
  tauto

theorem phase_seize (t : ActionTable) (a b : ActionId) (ds : List DeviceId) :
    (t.seize a ds).phase b =
      if b = a then .running else if b ∈ t.holders a ds then .finished else t.phase b := by
  have lookup : (t.seize a ds).phase b =
      ((((t.holders a ds).foldl retire t).update a fun e => { e with phase := .running }).entry
        b).phase := rfl
  rw [lookup, entry_update]
  by_cases same : a = b
  · simp [same]
  · rw [if_neg same, if_neg (Ne.symm same)]
    exact phase_foldl_retire _ t b

theorem view_seize {β : Type} (view : Entry → β)
    (keeps : ∀ e p, view { e with phase := p } = view e) (t : ActionTable) (a b : ActionId)
    (ds : List DeviceId) : view ((t.seize a ds).entry b) = view (t.entry b) := by
  have started := view_update view ((t.holders a ds).foldl retire t) a b
    (fun e => { e with phase := .running }) fun e => keeps e .running
  exact started.trans (view_foldl_retire view keeps _ t b)

theorem claims_seize (t : ActionTable) (a b : ActionId) (ds : List DeviceId) :
    (t.seize a ds).claims b = t.claims b := view_seize Entry.claims (fun _ _ => rfl) t a b ds

theorem mem_running_seize (t : ActionTable) (a b : ActionId) (ds : List DeviceId) :
    b ∈ (t.seize a ds).running ↔ b = a ∨ (b ∈ t.running ∧ b ∉ t.holders a ds) := by
  have list : (t.seize a ds).running = ((t.holders a ds).foldl retire t).running ++ [a] := rfl
  rw [list, List.mem_append, mem_running_foldl_retire, List.mem_singleton]
  tauto

theorem owner_seize (t : ActionTable) (a : ActionId) (ds : List DeviceId) (d : DeviceId)
    (o : ActionId) :
    (t.seize a ds).owner d = some o ↔
      (d ∈ ds ∧ o = a) ∨ (d ∉ ds ∧ t.owner d = some o ∧ o ∉ t.holders a ds) := by
  have locked := owner_lock (((t.holders a ds).foldl retire t).update a
    fun e => { e with phase := .running }) a ds d
  have table : (t.seize a ds).owner d = if d ∈ ds then some a
      else ((t.holders a ds).foldl retire t).owner d := locked
  rw [table]
  by_cases wanted : d ∈ ds
  · simp [wanted, eq_comm]
  · simp [wanted, owner_foldl_retire]

/-! ### Agreement of the stores -/

/-- Phases, running list and owners agree: the running actions are those on the list, only they own
devices, and each of them owns all that it claims. -/
structure Consistent (t : ActionTable) : Prop where
  running_iff : ∀ a, t.phase a = .running ↔ a ∈ t.running
  owner_runs : ∀ d o, t.owner d = some o → o ∈ t.running
  owns_claims : ∀ a ∈ t.running, ∀ d ∈ t.claims a, t.owner d = some a

structure SameLocks (t t' : ActionTable) : Prop where
  phase : ∀ a, t'.phase a = t.phase a
  claims : ∀ a, t'.claims a = t.claims a
  running : t'.running = t.running
  locks : t'.locks = t.locks

theorem phase_setClaims (t : ActionTable) (a b : ActionId) (ds : List DeviceId) :
    (t.setClaims a ds).phase b = t.phase b :=
  view_update Entry.phase t a b (fun e => { e with claims := ds }) fun _ => rfl

theorem isRunning_setClaims (t : ActionTable) (a b : ActionId) (ds : List DeviceId) :
    (t.setClaims a ds).isRunning b = t.isRunning b := by
  rw [isRunning, isRunning, phase_setClaims]

namespace SameLocks

theorem refl (t : ActionTable) : SameLocks t t := ⟨fun _ => rfl, fun _ => rfl, rfl, rfl⟩

theorem trans {t t' t'' : ActionTable} (first : SameLocks t t') (second : SameLocks t' t'') :
    SameLocks t t'' where
  phase a := (second.phase a).trans (first.phase a)
  claims a := (second.claims a).trans (first.claims a)
  running := second.running.trans first.running
  locks := second.locks.trans first.locks

theorem owner {t t' : ActionTable} (same : SameLocks t t') (d : DeviceId) :
    t'.owner d = t.owner d := by
  rw [ActionTable.owner, ActionTable.owner, same.locks]

theorem isRunning {t t' : ActionTable} (same : SameLocks t t') (a : ActionId) :
    t'.isRunning a = t.isRunning a := by
  rw [ActionTable.isRunning, ActionTable.isRunning, same.phase]

theorem of_update (t : ActionTable) (a : ActionId) (f : Entry → Entry)
    (phase : ∀ e, (f e).phase = e.phase) (claims : ∀ e, (f e).claims = e.claims) :
    SameLocks t (t.update a f) :=
  ⟨fun b => view_update Entry.phase t a b f phase,
    fun b => view_update Entry.claims t a b f claims, rfl, rfl⟩

theorem enter (t : ActionTable) (a : ActionId) : SameLocks t (t.enter a) :=
  of_update t a _ (fun _ => rfl) fun _ => rfl

theorem leave (t : ActionTable) (a : ActionId) : SameLocks t (t.leave a) :=
  of_update t a _ (fun _ => rfl) fun _ => rfl

theorem defer (t : ActionTable) (a : ActionId) (d : Deferred) : SameLocks t (t.defer a d) :=
  of_update t a _ (fun _ => rfl) fun _ => rfl

theorem setOwed (t : ActionTable) (a : ActionId) (ds : List Deferred) :
    SameLocks t (t.setOwed a ds) :=
  of_update t a _ (fun _ => rfl) fun _ => rfl

theorem deferHandOver (t : ActionTable) (next : ActionId) (late : List ActionId) :
    SameLocks t (t.deferHandOver next late) := by
  have folded : ∀ (as : List ActionId) (u : ActionTable), SameLocks u
      (as.foldl (fun v a => v.defer a (.handOver next t.nextTicket)) u) := by
    intro as
    induction as with
    | nil => exact refl
    | cons a rest ih =>
        intro u
        exact (SameLocks.defer u a _).trans (ih _)
  exact ⟨(folded late t).phase, (folded late t).claims, (folded late t).running,
    (folded late t).locks⟩

end SameLocks

namespace Consistent

theorem of_same {t t' : ActionTable} (c : t.Consistent) (same : SameLocks t t') :
    t'.Consistent where
  running_iff a := by rw [same.phase, same.running]; exact c.running_iff a
  owner_runs d o owns := by
    rw [same.running]
    exact c.owner_runs d o (same.owner d ▸ owns)
  owns_claims a runs d claimed := by
    rw [same.owner]
    exact c.owns_claims a (same.running ▸ runs) d (same.claims a ▸ claimed)

theorem empty : ({} : ActionTable).Consistent where
  running_iff a := by simp [ActionTable.phase, entry, Assoc.getD, Assoc.get?_empty]
  owner_runs d o owns := by simp [ActionTable.owner, Assoc.get?_empty] at owns
  owns_claims a runs := by cases runs

theorem retireEach {t : ActionTable} (c : t.Consistent) (as : List ActionId) :
    (as.foldl ActionTable.retire t).Consistent where
  running_iff b := by
    rw [phase_foldl_retire, mem_running_foldl_retire, ← c.running_iff]
    by_cases ended : b ∈ as <;> simp [ended]
  owner_runs d o owns := by
    rw [owner_foldl_retire] at owns
    exact (mem_running_foldl_retire as t o).mpr ⟨c.owner_runs d o owns.1, owns.2⟩
  owns_claims b runs d claimed := by
    rw [mem_running_foldl_retire] at runs
    rw [claims_foldl_retire] at claimed
    exact (owner_foldl_retire as t d b).mpr ⟨c.owns_claims b runs.1 d claimed, runs.2⟩

theorem retire {t : ActionTable} (c : t.Consistent) (a : ActionId) :
    (t.retire a).Consistent := c.retireEach [a]

/-- An action starts on the devices it claims.  Before that its claims may already be the new ones
while it still owns the old devices, as happens when it is started while it runs. -/
theorem seize {t : ActionTable} (a : ActionId) (ds : List DeviceId)
    (runs : ∀ b, t.phase b = .running ↔ b ∈ t.running)
    (owners : ∀ d o, t.owner d = some o → o ∈ t.running)
    (claims : ∀ b ∈ t.running, b ≠ a → ∀ d ∈ t.claims b, t.owner d = some b)
    (claimed : t.claims a = ds) : (t.seize a ds).Consistent where
  running_iff b := by
    rw [phase_seize, mem_running_seize]
    by_cases self : b = a
    · simp [self]
    · by_cases held : b ∈ t.holders a ds <;> simp [self, held, runs]
  owner_runs d o owns := by
    rw [owner_seize] at owns
    rw [mem_running_seize]
    rcases owns with ⟨_, self⟩ | ⟨_, owned, kept⟩
    · exact Or.inl self
    · exact Or.inr ⟨owners d o owned, kept⟩
  owns_claims b running d wants := by
    rw [mem_running_seize] at running
    rw [claims_seize] at wants
    rw [owner_seize]
    by_cases self : b = a
    · subst self
      exact Or.inl ⟨claimed ▸ wants, rfl⟩
    · obtain ⟨still, kept⟩ := running.resolve_left self
      have owned := claims b still self d wants
      -- a device that is wanted by both would make `b` one of the interrupted
      have free : d ∉ ds := fun wanted =>
        kept ((mem_holders t a ds b).mpr ⟨self, still, d, wanted, owned⟩)
      exact Or.inr ⟨free, owned, kept⟩

theorem seize_claims {t : ActionTable} (c : t.Consistent) (a : ActionId) :
    (t.seize a (t.claims a)).Consistent :=
  seize a _ c.running_iff c.owner_runs (fun b runs _ => c.owns_claims b runs) rfl

theorem seize_setClaims {t : ActionTable} (c : t.Consistent) (a : ActionId)
    (ds : List DeviceId) : ((t.setClaims a ds).seize a ds).Consistent := by
  have others : ∀ b, b ≠ a → (t.setClaims a ds).claims b = t.claims b := by
    intro b other
    have entries := entry_update t a b fun e => { e with claims := ds }
    rw [if_neg (Ne.symm other)] at entries
    exact congrArg Entry.claims entries
  refine seize a ds (fun b => ?_) c.owner_runs (fun b runs other d claimed => ?_) ?_
  · rw [phase_setClaims]
    exact c.running_iff b
  · exact c.owns_claims b runs d (others b other ▸ claimed)
  · exact congrArg Entry.claims (entry_update_self t a fun e => { e with claims := ds })

theorem claims_disjoint {t : ActionTable} (c : t.Consistent) {a b : ActionId}
    (runsA : a ∈ t.running) (runsB : b ∈ t.running) (different : a ≠ b) :
    ∀ d ∈ t.claims a, d ∉ t.claims b := by
  intro d wantedA wantedB
  have owned := (c.owns_claims a runsA d wantedA).symm.trans (c.owns_claims b runsB d wantedB)
  exact different (Option.some.inj owned)

theorem owner_ne {t : ActionTable} (c : t.Consistent) {a : ActionId}
    (stands : t.phase a ≠ .running) (d : DeviceId) : t.owner d ≠ some a := by
  intro owns
  exact stands ((c.running_iff a).mpr (c.owner_runs d a owns))

end Consistent

end ActionTable

end RobotControl
