import RobotControl.Proofs.Action.Begin

/-!
# The hand-over of devices

When an action begins, who still has to finish a run in which it held one of its devices?  `debts`
keeps, for every action, the runs that it has yet to finish.  A start waits only for the actions
that it interrupts itself.  If these are all that owe a finish for one of its devices (`Clear`),
they have entered it before the action begins.
-/
set_option autoImplicit false

namespace RobotControl

variable {ε Ω σ : Type}

def endings (ds : List Deferred) : Nat := ds.count (.finish true) + ds.count (.finish false)

theorem endings_append (ds ds' : List Deferred) :
    endings (ds ++ ds') = endings ds + endings ds' := by
  unfold endings
  rw [List.count_append, List.count_append]
  omega

def ActionTable.finishes (t : ActionTable) (b : ActionId) : Nat := endings (t.owed b)

namespace Machine

def finishes (tasks : List (Task ε Ω σ)) (b : ActionId) : Nat :=
  (items tasks).count (b, some (.finish true)) + (items tasks).count (b, some (.finish false))

/-- The step enters a last callback of the action. -/
def closes (m : Machine ε Ω σ) (b : ActionId) : Bool :=
  match m.agenda with
  | .serve c (.finish _) :: _ => c = b
  | _ => false

/-- The place of a run that ends among those that the action has yet to finish: a run that is
finished at once comes first, any other one behind those whose finish the action already owes. -/
def place (h : Host ε Ω σ) (m : Machine ε Ω σ) (b : ActionId) : Nat :=
  if (m.step h).closes b then 0 else m.table.finishes b

/-- The runs that the action has yet to finish, as the machines at whose steps they ended, in the
order in which it will finish them. -/
def debts (h : Host ε Ω σ) (b : ActionId) : List (Machine ε Ω σ) → List (Machine ε Ω σ)
  | [] => []
  | m :: past =>
      if m.closes b then (debts h b past).tail
      else if m.Leaves h b then (debts h b past).insertIdx (m.place h b) m
      else debts h b past

/-- The action held one of the devices when its run ended. -/
def Held (x : Machine ε Ω σ) (b : ActionId) (ds : List DeviceId) : Prop :=
  ∃ d ∈ ds, x.table.owner d = some b

/-- At the last start of the action, every other one that owed a finish for a run in which it held
one of the claimed devices was interrupted by this very start and owed that finish already. -/
def Clear (h : Host ε Ω σ) (a : ActionId) : List (Machine ε Ω σ) → Prop
  | [] => True
  | m :: past =>
      (m.Starts h a ∧ ∀ b, b ≠ a → ∀ i x, (debts h b past)[i]? = some x →
        x.Held b ((m.step h).table.claims a) → m.Leaves h b ∧ i < m.table.finishes b) ∨
      (¬ m.Starts h a ∧ Clear h a past)

/-! ### The finishes that are to come -/

def finishing (m : Machine ε Ω σ) (b : ActionId) : Nat :=
  finishes m.agenda b + m.table.finishes b

theorem finishing_eq (m : Machine ε Ω σ) (b : ActionId) :
    m.finishing b = pending m.table m.agenda (b, some (.finish true)) +
      pending m.table m.agenda (b, some (.finish false)) := by
  unfold finishing finishes pending ActionTable.finishes endings ActionTable.owes
  simp only
  omega

theorem finishes_append (new rest : List (Task ε Ω σ)) (b : ActionId) :
    finishes (new ++ rest) b = finishes new b + finishes rest b := by
  unfold finishes
  rw [items_append, List.count_append, List.count_append]
  omega

theorem count_doing (m : Machine ε Ω σ) (b : ActionId) :
    m.doing.toList.count (b, some (.finish true)) +
      m.doing.toList.count (b, some (.finish false)) = if m.closes b then 1 else 0 := by
  cases agenda : m.agenda with
  | nil => simp [doing, closes, agenda]
  | cons t rest =>
      rw [doing_eq agenda]
      cases t with
      | serve c d =>
          by_cases same : c = b
          · cases d with
            | finish i => cases i <;> simp [Task.does, closes, agenda, same]
            | _ => simp [Task.does, closes, agenda]
          · cases d <;> simp [Task.does, closes, agenda, same]
      | succeed c late => cases late <;> simp [Task.does, closes, agenda]
      | _ => simp [Task.does, closes, agenda]

theorem Accounted.finishing {h : Host ε Ω σ} {m : Machine ε Ω σ}
    (accounted : Accounted h m (m.step h).table (m.step h).agenda) (b : ActionId) :
    (m.step h).finishing b + (if m.closes b then 1 else 0) =
      m.finishing b + if m.Leaves h b then 1 else 0 := by
  obtain ⟨new, makes, count⟩ := accounted
  have well := count (b, some (.finish true))
  have badly := count (b, some (.finish false))
  have done := count_doing m b
  have left : new.count (b, some (.finish true)) + new.count (b, some (.finish false)) =
      if m.Leaves h b then 1 else 0 := by
    unfold Leaves
    cases makes with
    | nothing _ _ same => simp [same]
    | served _ _ _ same => simp [same]
    | posts _ _ _ same => simp [count_places, same]
    | handsOver _ _ _ _ same => simp [same]
    | turns _ _ same => simp [same]
    | @ends as interrupted _ _ nodup ran runs =>
        rw [count_items _ _ nodup, count_items _ _ nodup]
        by_cases member : b ∈ as
        · cases interrupted <;> simp [member, runs, ran b member]
        · simp [member, runs]
    | @starts a as atOnce _ _ nodup ran runs =>
        have begins : ∀ i, [((a, if atOnce then some .begin else none) : Item)].count
            (b, some (.finish i)) = 0 := fun i => by cases atOnce <;> simp
        rw [List.count_append, List.count_append, count_items _ _ nodup, count_items _ _ nodup,
          begins, begins]
        by_cases member : b ∈ as
        · simp [member, runs, (ran b member).1, (ran b member).2]
        · by_cases ran : m.table.isRunning b = true <;> simp [member, runs, ran]
  rw [finishing_eq, finishing_eq]
  omega

theorem Accounted.doing_of_leaves {h : Host ε Ω σ} {m : Machine ε Ω σ}
    (accounted : Accounted h m (m.step h).table (m.step h).agenda) {b : ActionId}
    (leaves : m.Leaves h b) : m.doing = none := by
  obtain ⟨runs, stands⟩ := leaves
  obtain ⟨_, makes, _⟩ := accounted
  cases makes with
  | ends _ _ idle => exact idle
  | starts _ _ idle => exact idle
  | nothing _ _ same => simp [same, runs] at stands
  | served _ _ _ same => simp [same, runs] at stands
  | posts _ _ _ same => simp [same, runs] at stands
  | handsOver _ _ _ _ same => simp [same, runs] at stands
  | turns _ _ same => simp [same, runs] at stands

theorem closes_of_doing {m : Machine ε Ω σ} (idle : m.doing = none) (b : ActionId) :
    m.closes b = false := by
  have none := count_doing m b
  rw [idle] at none
  by_contra closes
  simp [closes] at none

theorem Run.length_debts {h : Host ε Ω σ} {m : Machine ε Ω σ} {past : List (Machine ε Ω σ)}
    (run : Run h m past) (b : ActionId) : (debts h b past).length = m.finishing b := by
  induction run with
  | fresh w own =>
      rw [finishing_eq, (Run.fresh (h := h) w own).pending_eq_zero rfl,
        (Run.fresh (h := h) w own).pending_eq_zero rfl]
      rfl
  | @ask m past r run idle ih =>
      rw [ih]
      unfold finishing
      rw [idle]
      rfl
  | drift w own run ih => exact ih
  | @step m past run ih =>
      have balance := run.accounted.finishing b
      unfold debts
      by_cases closes : m.closes b = true
      · have stays : ¬ m.Leaves h b := fun leaves => by
          simp [closes_of_doing (run.accounted.doing_of_leaves leaves)] at closes
        simp only [if_pos closes, if_neg stays, List.length_tail] at balance ⊢
        omega
      · by_cases leaves : m.Leaves h b
        · simp only [if_neg closes, if_pos leaves] at balance ⊢
          have within : m.place h b ≤ (debts h b past).length := by
            rw [ih]
            unfold place
            split
            · exact Nat.zero_le _
            · exact Nat.le_add_left _ _
          rw [List.length_insertIdx, if_pos within]
          omega
        · simp only [if_neg closes, if_neg leaves] at balance ⊢
          omega

/-! ### What a step leaves alone -/

theorem Move.replaces {h : Host ε Ω σ} {m : Machine ε Ω σ} {table : ActionTable}
    {agenda : List (Task ε Ω σ)} (move : Move h m table agenda) :
    ∃ gone new kept, m.agenda = gone ++ kept ∧ agenda = new ++ kept ∧
      ∀ x ∈ gone.tail, x.isLight = true := by
  have light : ∀ {front : List (Task ε Ω σ)} {t : Task ε Ω σ}, (∀ x ∈ front, x.isCode = true) →
      t.isLight = true → ∀ x ∈ (front ++ [t]).tail, x.isLight = true := by
    intro front t codes last x member
    rcases List.mem_append.mp (List.mem_of_mem_tail member) with early | late
    · exact x.isLight_of_isCode (codes x early)
    · exact List.mem_singleton.mp late ▸ last
  cases move with
  | idle front => exact ⟨[], [], [], front, rfl, by simp⟩
  | @code front new rest t _ whole codes fails newCodes alike quiet =>
      exact ⟨front ++ [t], new, rest, by simp [whole], rfl,
        light codes (t.isLight_of_isCode (t.isCode_of_mayFail fails))⟩
  | drop whole some light _ _ =>
      exact ⟨_, [], _, whole, rfl, fun x member => light x (List.mem_of_mem_tail member)⟩
  | @proceed front rest a whole codes some _ =>
      exact ⟨front ++ [.returned a .process], [_, _], rest, by simp [whole], rfl,
        light codes rfl⟩
  | @ended front rest a cb _ interrupted whole codes some runs alike _ =>
      exact ⟨front ++ [.returned a cb], [_], rest, by simp [whole], rfl, light codes rfl⟩
  | interrupt whole _ _ _ _ _ => exact ⟨[_], _ :: _, _, whole, rfl, by simp⟩
  | stopAll whole _ _ => exact ⟨[_], _, _, whole, (List.append_assoc ..).symm, by simp⟩
  | tick whole _ _ => exact ⟨[_], _, _, whole, (List.append_assoc ..).symm, by simp⟩
  | seize whole _ _ _ => exact ⟨[_], _, _, whole, List.append_cons .., by simp⟩
  | succeedNow whole => exact ⟨[_], [_], _, whole, rfl, by simp⟩
  | succeedLater whole _ => exact ⟨[_], [], _, whole, rfl, by simp⟩
  | defer whole _ => exact ⟨[_], [], _, whole, rfl, by simp⟩
  | enter whole _ => exact ⟨[_], [_, _], _, whole, rfl, by simp⟩
  | call whole _ => exact ⟨[_], [_, _], _, whole, rfl, by simp⟩
  | pass whole _ => exact ⟨[_], [], _, whole, rfl, by simp⟩
  | wait whole _ => exact ⟨[_], [], _, whole, rfl, by simp⟩
  | handOver whole _ _ _ => exact ⟨[_], [_, _], _, whole, rfl, by simp⟩
  | leave whole _ => exact ⟨[_], [], _, whole, rfl, by simp⟩
  | drain whole _ => exact ⟨[_], [_, _], _, whole, rfl, by simp⟩
  | turn whole _ => exact ⟨[_], [_], _, whole, rfl, by simp⟩

theorem Move.keeps_below {h : Host ε Ω σ} {m : Machine ε Ω σ} {table : ActionTable}
    {agenda pre rest : List (Task ε Ω σ)} {t : Task ε Ω σ} (move : Move h m table agenda)
    (whole : m.agenda = pre ++ t :: rest) (above : pre ≠ []) (stays : t.isLight = false) :
    ∃ pre', agenda = pre' ++ t :: rest := by
  obtain ⟨gone, new, kept, split, rfl, light⟩ := move.replaces
  rw [whole] at split
  rcases List.append_eq_append_iff.mp split with ⟨more, rfl, behind⟩ | ⟨more, rfl, behind⟩
  · cases more with
    | nil => exact ⟨new, by rw [← behind.trans (List.nil_append _)]⟩
    | cons x more =>
        obtain ⟨rfl, _⟩ := List.cons.inj behind
        obtain ⟨first, pre, rfl⟩ := List.exists_cons_of_ne_nil above
        have here := light t (List.mem_append_right pre (List.mem_cons_self ..))
        rw [here] at stays
        cases stays
  · exact ⟨new ++ more, by rw [behind, List.append_assoc]⟩

theorem Move.owed {h : Host ε Ω σ} {m : Machine ε Ω σ} {table : ActionTable}
    {agenda : List (Task ε Ω σ)} (move : Move h m table agenda) (b : ActionId) :
    (∃ more, table.owed b = m.table.owed b ++ more) ∨
      ∃ d rest, m.table.owed b = d :: table.owed b ∧ m.agenda = .drain b :: rest ∧
        agenda = .serve b d :: .drain b :: rest ∧ table.isRunning b = m.table.isRunning b := by
  have same : SameCalls m.table table → ∃ more, table.owed b = m.table.owed b ++ more :=
    fun calls => ⟨[], by rw [(calls b).2, List.append_nil]⟩
  have plain : SameCalls m.table m.table := fun _ => ⟨rfl, rfl⟩
  cases move with
  | code _ _ _ _ alike _ => exact .inl (same (sameCalls_alike plain alike))
  | drop _ _ _ alike _ => exact .inl (same (sameCalls_alike plain alike))
  | tick _ _ alike => exact .inl (same (sameCalls_alike plain alike))
  | handOver _ _ _ alike => exact .inl (same (sameCalls_alike plain alike))
  | ended _ _ _ _ _ alike _ =>
      exact .inl (same (sameCalls_alike (sameCalls_retireEach m.table [_]) alike))
  | interrupt _ _ _ _ _ alike =>
      exact .inl (same (sameCalls_alike (sameCalls_retireEach m.table [_]) alike))
  | stopAll _ _ alike =>
      exact .inl (same (sameCalls_alike (sameCalls_retireEach m.table _) alike))
  | seize _ claims _ alike => exact .inl (same (sameCalls_start claims alike))
  | succeedLater _ _ => exact .inl ⟨_, ActionTable.owed_deferHandOver ..⟩
  | @defer _ a d _ _ =>
      refine .inl ?_
      rw [ActionTable.owed_defer]
      split
      · exact ⟨[d], rfl⟩
      · exact ⟨[], (List.append_nil _).symm⟩
  | @enter _ a _ _ _ => exact .inl ⟨[], by rw [List.append_nil, ActionTable.owed_enter]⟩
  | @leave _ a _ _ => exact .inl ⟨[], by rw [List.append_nil, ActionTable.owed_leave]⟩
  | @drain rest a d ds whole owed =>
      by_cases self : a = b
      · subst self
        refine .inr ⟨d, rest, ?_, whole, rfl, (ActionTable.SameLocks.setOwed ..).isRunning a⟩
        rw [ActionTable.owed_setOwed, if_pos rfl, owed]
      · refine .inl ⟨[], ?_⟩
        rw [ActionTable.owed_setOwed, if_neg self, List.append_nil]
  | _ => exact .inl (same plain)

theorem Move.claims {h : Host ε Ω σ} {m : Machine ε Ω σ} {table : ActionTable}
    {agenda : List (Task ε Ω σ)} (move : Move h m table agenda) {a : ActionId}
    (quiet : ¬ m.Starts h a) : table.claims a = m.table.claims a := by
  cases move with
  | code _ _ _ _ alike _ => exact alike.claims a
  | drop _ _ _ alike _ => exact alike.claims a
  | tick _ _ alike => exact alike.claims a
  | handOver _ _ _ alike => exact alike.claims a
  | @ended _ _ b _ _ _ _ _ _ _ alike _ =>
      exact (alike.claims a).trans (ActionTable.claims_foldl_retire [b] m.table a)
  | @interrupt _ _ _ b _ _ _ _ _ _ alike =>
      exact (alike.claims a).trans (ActionTable.claims_foldl_retire [b] m.table a)
  | stopAll _ _ alike =>
      exact (alike.claims a).trans (ActionTable.claims_foldl_retire _ m.table a)
  | @seize _ b ds _ _ _ claims starts alike =>
      rw [alike.claims, ActionTable.claims_seize]
      rcases claims with ⟨rfl, _, _⟩ | ⟨rfl, _⟩
      · rfl
      · have other : b ≠ a := fun same => quiet (same ▸ starts)
        exact congrArg Entry.claims ((ActionTable.entry_update m.table b a _).trans (if_neg other))
  | succeedLater _ _ => exact (ActionTable.SameLocks.deferHandOver ..).claims a
  | defer _ _ => exact (ActionTable.SameLocks.defer ..).claims a
  | enter _ _ => exact (ActionTable.SameLocks.enter ..).claims a
  | leave _ _ => exact (ActionTable.SameLocks.leave ..).claims a
  | drain _ _ => exact (ActionTable.SameLocks.setOwed ..).claims a
  | _ => rfl

/-- What a start leaves on the agenda: the actions that it interrupts finish, then its own begins,
after those of them that are inside a callback. -/
theorem agenda_of_starts {h : Host ε Ω σ} {m : Machine ε Ω σ} {a : ActionId}
    (consistent : m.table.Consistent) (starts : m.Starts h a) :
    ∃ rest holders, m.agenda = .launch a :: rest ∧
      (m.step h).agenda = holders.map (fun o => .invoke o (.finish true)) ++
        .succeed a (holders.filter m.table.isBusy) :: .letGo holders :: rest ∧
      ∀ b, b ∈ holders ↔ m.Leaves h b := by
  obtain ⟨rest, front, ready⟩ := starts
  have seized : ∃ claimed ds, (m.step h).agenda =
      afterSeizing claimed a (claimed.holders a ds) ++ .letGo (claimed.holders a ds) :: rest ∧
        (claimed.seize a ds).Alike (m.step h).table ∧ claimed.running = m.table.running ∧
          (∀ b, claimed.isRunning b = m.table.isRunning b) ∧
            claimed.isBusy = m.table.isBusy := by
    by_cases busy : m.table.isBusy a = true
    · have stepped : m.step h = m.seize a (m.table.claims a) rest := by
        simp only [Machine.step, front, launch, if_pos busy]
      rw [stepped]
      exact ⟨m.table, m.table.claims a, rfl, .hold _ _, rfl, fun _ => rfl, rfl⟩
    · obtain ⟨ds, needed⟩ := ready.resolve_left busy
      have stepped : m.step h = Machine.seize { m with
          own := (h.needs m.own a).1, table := m.table.setClaims a ds.eraseDups }
          a ds.eraseDups rest := by
        simp only [Machine.step, front, launch, if_neg busy, needed]
      rw [stepped]
      exact ⟨m.table.setClaims a ds.eraseDups, ds.eraseDups, rfl, .hold _ _, rfl,
        fun b => m.table.isRunning_setClaims a b _,
        funext fun b => (sameCalls_setClaims m.table a _ b).1⟩
  obtain ⟨claimed, ds, agenda, alike, list, running, busy⟩ := seized
  refine ⟨rest, claimed.holders a ds, front, ?_, fun b => ?_⟩
  · rw [agenda, afterSeizing, busy, List.append_assoc]
    rfl
  · unfold Leaves
    rw [alike.isRunning, isRunning_seize, running]
    constructor
    · intro member
      obtain ⟨other, listed, _⟩ := (ActionTable.mem_holders claimed a ds b).mp member
      have runs : m.table.isRunning b = true := by
        rw [ActionTable.isRunning_iff, consistent.running_iff, ← list]
        exact listed
      exact ⟨runs, by simp [other, member]⟩
    · rintro ⟨runs, stands⟩
      simp only [runs, Bool.true_and, Bool.or_eq_false_iff] at stands
      simpa using stands.2

/-! ### Contested debts -/

section Contested

variable {h : Host ε Ω σ} {m : Machine ε Ω σ} {past : List (Machine ε Ω σ)} {a b : ActionId}

/-- The debt at the place is for a run in which `b` held a device that `a` claims. -/
def Contested (h : Host ε Ω σ) (m : Machine ε Ω σ) (past : List (Machine ε Ω σ))
    (a b : ActionId) (i : Nat) : Prop :=
  ∃ x, (debts h b past)[i]? = some x ∧ x.Held b (m.table.claims a)

/-- Where a contested debt stood before a step.  None is added while `a` is in charge of its
devices. -/
theorem Contested.before {i : Nat} (run : Run h m past) (quiet : ¬ m.Starts h a)
    (runs : m.table.isRunning a = true) (other : b ≠ a)
    (contested : Contested h (m.step h) (m :: past) a b i) :
    (m.closes b = true ∧ Contested h m past a b (i + 1)) ∨
      (m.closes b = false ∧ ¬ m.Leaves h b ∧ Contested h m past a b i) ∨
      (m.closes b = false ∧ m.Leaves h b ∧
        ((i < m.place h b ∧ Contested h m past a b i) ∨
          ∃ j, i = j + 1 ∧ m.place h b ≤ j ∧ Contested h m past a b j)) := by
  obtain ⟨x, found, held⟩ := contested
  rw [run.move.claims quiet] at held
  unfold debts at found
  by_cases closes : m.closes b = true
  · rw [if_pos closes, List.getElem?_tail] at found
    exact .inl ⟨closes, x, found, held⟩
  · have opened : m.closes b = false := by simpa using closes
    rw [if_neg closes] at found
    by_cases leaves : m.Leaves h b
    · rw [if_pos leaves] at found
      refine .inr (.inr ⟨opened, leaves, ?_⟩)
      rcases Nat.lt_trichotomy i (m.place h b) with less | equal | more
      · rw [List.getElem?_insertIdx_of_lt less] at found
        exact .inl ⟨less, x, found, held⟩
      · -- the new debt: the devices belong to `a`
        rw [equal, List.getElem?_insertIdx_self] at found
        split at found
        · cases found
          obtain ⟨d, claimed, owns⟩ := held
          rw [(run.inCharge runs).2 d claimed] at owns
          exact absurd (Option.some.inj owns).symm other
        · cases found
      · rw [List.getElem?_insertIdx_of_gt more] at found
        obtain ⟨j, rfl⟩ := Nat.exists_eq_succ_of_ne_zero (Nat.ne_zero_of_lt more)
        exact .inr ⟨j, rfl, Nat.le_of_lt_succ more, x, found, held⟩
    · rw [if_neg leaves] at found
      exact .inr (.inl ⟨opened, leaves, x, found, held⟩)

/-- The begin of `a` stands on the agenda, behind every contested finish of another action. -/
def Ahead (h : Host ε Ω σ) (m : Machine ε Ω σ) (past : List (Machine ε Ω σ))
    (a : ActionId) : Prop :=
  ∃ pre late rest, m.agenda = pre ++ .succeed a late :: rest ∧
    ∀ b, b ≠ a → ∀ i, Contested h m past a b i →
      i + finishes rest b < (debts h b past).length ∧ (b ∈ frames rest → b ∈ late)

/-- Every action with a contested finish owes the hand-over of a ticket to `a` behind it. -/
def Queued (h : Host ε Ω σ) (m : Machine ε Ω σ) (past : List (Machine ε Ω σ))
    (a : ActionId) (ticket : Nat) : Prop :=
  ∀ b, b ≠ a → ∀ i, Contested h m past a b i →
    ∃ front back, m.table.owed b = front ++ .handOver a ticket :: back ∧
      i < (if m.closes b then 1 else 0) + endings front

/-- A step that does not let `a` begin keeps contested finishes in front of the hand-overs. -/
theorem Queued.step {ticket : Nat} (run : Run h m past) (quiet : ¬ m.Starts h a)
    (runs : m.table.isRunning a = true) (queued : Queued h m past a ticket) :
    Queued h (m.step h) (m :: past) a ticket := by
  intro b other i contested
  have owed := run.move.owed b
  -- what is owed is only added to, or its first part is taken up
  have stays : ∀ i, m.closes b = false → Contested h m past a b i → ∃ front back,
      (m.step h).table.owed b = front ++ .handOver a ticket :: back ∧
        i < (if (m.step h).closes b then 1 else 0) + endings front := by
    intro i opened before
    obtain ⟨front, back, owes, bound⟩ := queued b other i before
    simp only [opened, Bool.false_eq_true, if_false, Nat.zero_add] at bound
    rcases owed with ⟨more, added⟩ | ⟨d, rest, taken, _, after, _⟩
    · exact ⟨front, back ++ more, by rw [added, owes, List.append_assoc]; rfl, by omega⟩
    · cases front with
      | nil => simp [endings] at bound
      | cons e front =>
          rw [owes] at taken
          obtain ⟨rfl, tail⟩ := List.cons.inj taken
          have served : (if (m.step h).closes b then 1 else 0) = endings [e] := by
            simp only [Machine.closes, after]
            cases e with
            | finish i => cases i <;> simp [endings]
            | _ => simp [endings]
          have split := endings_append [e] front
          refine ⟨front, back, tail.symm, Nat.lt_of_lt_of_eq bound ?_⟩
          rw [served]
          exact split
  rcases contested.before run quiet runs other with
    ⟨closes, before⟩ | ⟨opened, _, before⟩ |
      ⟨opened, leaves, ⟨less, before⟩ | ⟨j, rfl, more, before⟩⟩
  · obtain ⟨front, back, owes, bound⟩ := queued b other _ before
    simp only [closes, if_true] at bound
    rcases owed with ⟨more, added⟩ | ⟨d, rest, _, draining, _⟩
    · exact ⟨front, back ++ more, by rw [added, owes, List.append_assoc]; rfl, by omega⟩
    · simp [Machine.closes, draining] at closes
  · exact stays i opened before
  · exact stays i opened before
  · obtain ⟨front, back, owes, bound⟩ := queued b other j before
    simp only [opened, Bool.false_eq_true, if_false, Nat.zero_add] at bound
    rcases owed with ⟨added, same⟩ | ⟨_, _, _, _, _, running⟩
    · refine ⟨front, back ++ added, by rw [same, owes, List.append_assoc]; rfl, ?_⟩
      by_cases served : (m.step h).closes b = true
      · simp only [served, if_true]
        omega
      · -- behind what is owed already there is nothing contested
        have behind : m.place h b = endings front + endings (.handOver a ticket :: back) := by
          rw [place, if_neg served, ActionTable.finishes, owes, endings_append]
        omega
    · rw [leaves.2] at running
      rw [leaves.1] at running
      cases running

theorem Contested.behind {late : List ActionId} {rest : List (Task ε Ω σ)} {i : Nat}
    (run : Run h m past) (quiet : ¬ m.Starts h a) (runs : m.table.isRunning a = true)
    (other : b ≠ a) (behind : ∀ i, Contested h m past a b i →
      i + finishes rest b < (debts h b past).length ∧ (b ∈ frames rest → b ∈ late))
    (contested : Contested h (m.step h) (m :: past) a b i) :
    i + finishes rest b < (debts h b (m :: past)).length ∧ (b ∈ frames rest → b ∈ late) := by
  have length := run.length_debts b
  have length' := run.step.length_debts b
  have balance := run.accounted.finishing b
  rcases contested.before run quiet runs other with
    ⟨closes, before⟩ | ⟨opened, stays, before⟩ |
      ⟨opened, leaves, ⟨less, before⟩ | ⟨j, rfl, more, before⟩⟩
  · obtain ⟨bound, waits⟩ := behind _ before
    have stays : ¬ m.Leaves h b := fun leaves => by
      simp [closes_of_doing (run.accounted.doing_of_leaves leaves)] at closes
    rw [if_pos closes, if_neg stays] at balance
    exact ⟨by omega, waits⟩
  · obtain ⟨bound, waits⟩ := behind _ before
    rw [if_neg (by simp [opened]), if_neg stays] at balance
    exact ⟨by omega, waits⟩
  · obtain ⟨bound, waits⟩ := behind _ before
    rw [if_neg (by simp [opened]), if_pos leaves] at balance
    exact ⟨by omega, waits⟩
  · obtain ⟨bound, waits⟩ := behind _ before
    rw [if_neg (by simp [opened]), if_pos leaves] at balance
    exact ⟨by omega, waits⟩

theorem Contested.waited {late : List ActionId} {rest : List (Task ε Ω σ)} {i : Nat}
    (run : Run h m past) (quiet : ¬ m.Starts h a) (runs : m.table.isRunning a = true)
    (other : b ≠ a) (whole : m.agenda = .succeed a late :: rest)
    (behind : Contested h m past a b i →
      i + finishes rest b < (debts h b past).length ∧ (b ∈ frames rest → b ∈ late))
    (contested : Contested h (m.step h) (m :: past) a b i) :
    b ∈ late ∧ i < m.table.finishes b := by
  have running : (m.step h).table.isRunning b = m.table.isRunning b := by
    cases late with
    | nil => simp only [Machine.step, whole, List.isEmpty_nil, if_true, todo]
    | cons o more =>
        simp only [Machine.step, whole, List.isEmpty_cons, Bool.false_eq_true, if_false]
        exact (ActionTable.SameLocks.deferHandOver ..).isRunning b
  have before : Contested h m past a b i := by
    rcases contested.before run quiet runs other with
      ⟨closes, _⟩ | ⟨_, _, before⟩ | ⟨_, leaves, _⟩
    · simp [Machine.closes, whole] at closes
    · exact before
    · rw [Leaves, running] at leaves
      exact absurd leaves.1 (by simp [leaves.2])
  obtain ⟨bound, waits⟩ := behind before
  have tasks : finishes m.agenda b = finishes rest b := by
    have begins : finishes [(.succeed a late : Task ε Ω σ)] b = 0 := by
      cases late <;> simp [finishes, items, Task.item]
    rw [whole, ← List.singleton_append, finishes_append, begins, Nat.zero_add]
  rw [run.length_debts, finishing, tasks] at bound
  have some : m.table.owed b ≠ [] := fun none => by
    have nothing : m.table.finishes b = 0 := by
      simp [ActionTable.finishes, none, endings]
    omega
  have busy := run.sound.owed_busy b some
  rw [run.sound.busy_iff, whole] at busy
  exact ⟨waits busy, by omega⟩

theorem Ahead.step (run : Run h m past) (quiet : ¬ m.Starts h a)
    (runs : m.table.isRunning a = true) (ahead : Ahead h m past a) :
    Ahead h (m.step h) (m :: past) a ∨ ∃ ticket, Queued h (m.step h) (m :: past) a ticket := by
  obtain ⟨pre, late, rest, whole, behind⟩ := ahead
  cases pre with
  | cons t pre =>
      obtain ⟨pre', whole'⟩ := run.move.keeps_below whole (by simp) rfl
      exact .inl ⟨pre', late, rest, whole', fun b other i contested =>
        contested.behind run quiet runs other (behind b other)⟩
  | nil =>
      rw [List.nil_append] at whole
      have waited : ∀ b, b ≠ a → ∀ i, Contested h (m.step h) (m :: past) a b i →
          b ∈ late ∧ i < m.table.finishes b := fun b other i contested =>
        contested.waited run quiet runs other whole (behind b other i)
      by_cases none : late = []
      · refine .inr ⟨0, fun b other i contested => ?_⟩
        have waits := (waited b other i contested).1
        rw [none] at waits
        cases waits
      · refine .inr ⟨m.table.nextTicket, fun b other i contested => ?_⟩
        obtain ⟨waits, bound⟩ := waited b other i contested
        obtain ⟨n, count⟩ := Nat.exists_eq_succ_of_ne_zero
          (Nat.ne_of_gt (List.count_pos_iff.mpr waits))
        have left : (m.step h).table.owed b = m.table.owed b ++
            .handOver a m.table.nextTicket ::
              List.replicate n (.handOver a m.table.nextTicket) := by
          obtain ⟨o, more, rfl⟩ := List.exists_cons_of_ne_nil none
          simp only [Machine.step, whole, List.isEmpty_cons, Bool.false_eq_true, if_false]
          rw [ActionTable.owed_deferHandOver, count, List.replicate_succ]
        exact ⟨_, _, left, Nat.lt_of_lt_of_le bound (Nat.le_add_left _ _)⟩

theorem Ahead.start (run : Run h m past) (starts : m.Starts h a)
    (clear : ∀ b, b ≠ a → ∀ i x, (debts h b past)[i]? = some x →
      x.Held b ((m.step h).table.claims a) → m.Leaves h b ∧ i < m.table.finishes b) :
    Ahead h (m.step h) (m :: past) a := by
  obtain ⟨rest, holders, whole, agenda, interrupted⟩ := agenda_of_starts run.consistent starts
  refine ⟨_, _, _, agenda, fun b other i contested => ?_⟩
  have length := run.length_debts b
  have length' := run.step.length_debts b
  have balance := run.accounted.finishing b
  have opened : m.closes b = false := by simp [closes, whole]
  have later : (m.step h).closes b = false := by
    rw [closes, agenda]
    cases holders <;> rfl
  have tasks : m.finishing b = finishes rest b + m.table.finishes b := by
    rw [finishing, whole]
    rfl
  have below : finishes (.letGo holders :: rest) b = finishes rest b := rfl
  obtain ⟨x, found, held⟩ := contested
  have leaves : m.Leaves h b ∧ i ≤ m.table.finishes b := by
    unfold debts at found
    rw [if_neg (by simp [opened])] at found
    by_cases leaves : m.Leaves h b
    · refine ⟨leaves, ?_⟩
      rw [if_pos leaves, place, if_neg (by simp [later])] at found
      by_contra more
      rw [List.getElem?_insertIdx_of_gt (by omega)] at found
      have bound := (clear b other _ x found held).2
      omega
    · rw [if_neg leaves] at found
      exact absurd (clear b other i x found held).1 leaves
  rw [if_neg (by simp [opened]), if_pos leaves.1] at balance
  refine ⟨by omega, fun inside => List.mem_filter.mpr ⟨(interrupted b).mpr leaves.1, ?_⟩⟩
  rw [run.sound.busy_iff, whole]
  exact inside

end Contested

theorem step_of_invoke {h : Host ε Ω σ} {m : Machine ε Ω σ} {a : ActionId} {d : Deferred}
    {rest : List (Task ε Ω σ)} (front : m.agenda = .invoke a d :: rest)
    (free : m.table.isBusy a = false) :
    m.step h = { m with
      table := m.table.enter a
      agenda := .serve a d :: .drain a :: rest } := by
  simp only [Machine.step, front, free, Bool.false_eq_true, if_false]

/-! ### Runs -/

section Runs

variable {h : Host ε Ω σ} {m : Machine ε Ω σ} {past : List (Machine ε Ω σ)} {a : ActionId}

/-- Until an action begins that was started clear, its begin stays behind the contested finishes. -/
theorem Run.behind (run : Run h m past) (undisturbed : Undisturbed h a past)
    (clear : Clear h a past) (runs : m.table.isRunning a = true) (waiting : ¬ Begun h a past) :
    Ahead h m past a ∨ ∃ ticket, Queued h m past a ticket := by
  induction run with
  | fresh w own =>
      simp [ActionTable.isRunning, ActionTable.phase, ActionTable.entry, Assoc.getD,
        Assoc.get?_empty] at runs
  | ask r run idle ih =>
      exact absurd (run.tokens_of_not_begun runs waiting) (run.not_tokens_of_idle idle)
  | drift w own run ih => exact ih undisturbed clear runs waiting
  | @step m past run ih =>
      rcases undisturbed with ⟨starts, _⟩ | ⟨quiet, _, undisturbed⟩
      · rcases clear with ⟨_, clear⟩ | ⟨quiet, _⟩
        · exact .inl (Ahead.start run starts clear)
        · exact absurd starts quiet
      · have clear := (clear.resolve_left fun start => quiet start.1).2
        have level : ¬ m.Rises h a := fun rises => quiet (run.accounted.starts_of_rises rises)
        have ran : m.table.isRunning a = true := by
          by_contra stands
          exact level ⟨by simpa using stands, runs⟩
        have before := ih undisturbed clear ran fun begun => waiting (.inr ⟨level, begun⟩)
        rcases before with ahead | ⟨ticket, queued⟩
        · exact ahead.step run quiet ran
        · exact .inr ⟨ticket, queued.step run quiet ran⟩

theorem Run.debts_eq_nil (run : Run h m past) (light : ∀ x ∈ m.agenda, x.isLight = true)
    (b : ActionId) : debts h b past = [] := by
  refine List.length_eq_zero_iff.mp ?_
  rw [run.length_debts, finishing_eq, run.pending_eq_zero_of_isLight light,
    run.pending_eq_zero_of_isLight light]

theorem Run.clear_of_isLight (run : Run h m past) (light : ∀ x ∈ m.agenda, x.isLight = true)
    (starts : m.Starts h a) : Clear h a (m :: past) := by
  refine .inl ⟨starts, fun b _ i x found => ?_⟩
  rw [run.debts_eq_nil light] at found
  cases found

theorem clear_trail (n : Nat) (clear : Clear h a past)
    (quiet : ∀ k < n, ¬ (m.steps h k).Starts h a) : Clear h a (m.trail h n past) := by
  induction n generalizing m past with
  | zero => exact clear
  | succ n ih =>
      exact ih (.inr ⟨quiet 0 (Nat.succ_pos n), clear⟩) fun k less => quiet (k + 1) (by omega)

theorem two_tokens_of_succeed {late : List ActionId} {rest below : List (Task ε Ω σ)}
    {pre : List (Task ε Ω σ)} (front : m.agenda = .serve a .begin :: rest)
    (whole : m.agenda = pre ++ .succeed a late :: below) : m.Tokens a 2 := by
  cases pre with
  | nil => rw [front] at whole; cases whole
  | cons t pre =>
      have behind : rest = pre ++ .succeed a late :: below :=
        (List.cons.inj (front.symm.trans whole)).2
      have tasks : items m.agenda = (a, some .begin) :: (items pre ++
          (a, if late.isEmpty then some .begin else none) :: items below) := by
        rw [front, behind]
        exact congrArg (List.cons _) (items_append pre _)
      refine ⟨[], List.nodup_nil, by simp, ?_⟩
      unfold due held pending
      rw [tasks]
      cases late with
      | nil => simp; omega
      | cons o more => simp; omega

theorem two_tokens_of_owed {b : ActionId} {ticket : Nat} {rest : List (Task ε Ω σ)}
    (front : m.agenda = .serve a .begin :: rest)
    (owes : .handOver a ticket ∈ m.table.owed b) : m.Tokens a 2 := by
  have waits : m.Waits a ticket := ⟨b, Nat.lt_of_lt_of_le
    ((ActionTable.owes_handOver_pos ..).mpr owes) (Nat.le_add_left _ _)⟩
  have here := due_pos_of_front front
  exact ⟨[ticket], by simp, by simpa using waits, by simp; omega⟩

theorem Run.nobody_owes (run : Run h m past) (inside : m.Enters a .begin)
    (undisturbed : Undisturbed h a past) (clear : Clear h a past) {b : ActionId} (other : b ≠ a) :
    ∀ x ∈ debts h b past, ∀ d ∈ m.table.claims a, x.table.owner d ≠ some b := by
  obtain ⟨front⟩ := inside
  intro x member d claimed owns
  obtain ⟨runs, waiting, single⟩ := run.single_token undisturbed (tokens_of_front front)
  obtain ⟨i, _, found⟩ := List.getElem_of_mem member
  have contested : Contested h m past a b i :=
    ⟨x, found ▸ List.getElem?_eq_getElem _, d, claimed, owns⟩
  rcases run.behind undisturbed clear runs waiting with ⟨_, _, _, whole, _⟩ | ⟨ticket, queued⟩
  · exact single (two_tokens_of_succeed front whole)
  · obtain ⟨_, _, owes, _⟩ := queued b other i contested
    exact single (two_tokens_of_owed front (owes ▸ List.mem_append_right _
      (List.mem_cons_self ..)))

theorem Run.start_alone (run : Run h m past) (starts : m.Starts h a)
    (free : m.table.isBusy a = false) (alone : ∀ b, ¬ m.Leaves h b) :
    ∃ rest, m.agenda = .launch a :: rest ∧
      (m.step h).agenda = .succeed a [] :: .letGo [] :: rest ∧
        (m.step h).table.isBusy a = false := by
  obtain ⟨rest, holders, whole, agenda, interrupted⟩ := agenda_of_starts run.consistent starts
  have none : holders = [] := List.eq_nil_iff_forall_not_mem.mpr fun b member =>
    alone b ((interrupted b).mp member)
  subst none
  refine ⟨rest, whole, agenda, ?_⟩
  by_contra busy
  rw [Bool.not_eq_false, run.step.sound.busy_iff, agenda] at busy
  have before : m.table.isBusy a = true := by
    rw [run.sound.busy_iff, whole]
    exact busy
  simp [free] at before

/-- The hand-over of devices.  Whenever `begin` of an action is entered that was started clear and
undisturbed, no other action owes a finish for a run in which it held one of its devices.  A start
that interrupts nobody and is made outside the callbacks of its action waits for nobody: it enters
`begin` three steps later and leaves every debt as it was. -/
theorem holders_finish_first (run : Run h m past) (a : ActionId) :
    (m.Enters a .begin → Undisturbed h a past → Clear h a past →
      ∀ b, b ≠ a → ∀ x ∈ debts h b past, ∀ d ∈ m.table.claims a, x.table.owner d ≠ some b) ∧
    (m.Starts h a → m.table.isBusy a = false → (∀ b, ¬ m.Leaves h b) →
      (m.steps h 3).Enters a .begin ∧
        (m.steps h 3).table.claims a = (m.step h).table.claims a ∧
          ∀ b, debts h b (m.trail h 3 past) = debts h b past) := by
  refine ⟨fun inside undisturbed clear b other => ?_, fun starts free alone => ?_⟩
  · exact run.nobody_owes inside undisturbed clear other
  · obtain ⟨rest, whole, agenda, outside⟩ := run.start_alone starts free alone
    -- the begin is next, then it is marked, then it is in front
    have second : (m.step h).step h = (m.step h).todo (.invoke a .begin :: .letGo [] :: rest) := by
      simp only [Machine.step.eq_1 h (m.step h), agenda, List.isEmpty_nil, if_true]
    have third : ((m.step h).step h).step h = { m.step h with
        table := (m.step h).table.enter a
        agenda := .serve a .begin :: .drain a :: .letGo [] :: rest } := by
      rw [second]
      exact step_of_invoke (m := (m.step h).todo _) rfl outside
    have last : m.steps h 3 = ((m.step h).step h).step h := rfl
    have stays : ∀ b, ¬ (m.step h).Leaves h b ∧ ¬ ((m.step h).step h).Leaves h b := by
      intro b
      have entered := (ActionTable.SameLocks.enter (m.step h).table a).isRunning b
      refine ⟨fun leaves => ?_, fun leaves => ?_⟩
      · have stands := leaves.2
        rw [second] at stands
        exact absurd leaves.1 (by simpa [todo] using stands)
      · have stands := leaves.2
        rw [third] at stands
        have runs := leaves.1
        rw [second] at runs
        exact absurd runs (by simpa [todo, entered] using stands)
    refine ⟨.begin (by rw [last, third]), ?_, fun b => ?_⟩
    · rw [last, third]
      exact (ActionTable.SameLocks.enter ..).claims a
    · have quiet : m.closes b = false ∧ (m.step h).closes b = false ∧
          ((m.step h).step h).closes b = false := by
        refine ⟨by simp [closes, whole], by simp [closes, agenda], ?_⟩
        rw [second]
        rfl
      change debts h b ((m.step h).step h :: m.step h :: m :: past) = _
      simp only [debts, quiet, Bool.false_eq_true, if_false, if_neg (alone b), if_neg (stays b).1,
        if_neg (stays b).2]

end Runs

end Machine

def secondStart : Machine Empty Unit Unit :=
  Host.quiet.play [(.start ⟨2⟩ false, 2), (.start ⟨1⟩ false, 12)]

theorem holders_finish_first_secondStart :
    ∃ past, Machine.Run Host.quiet (secondStart.steps Host.quiet 7) past ∧
      (secondStart.steps Host.quiet 7).Enters ⟨2⟩ .begin ∧
        ∀ b, b ≠ ⟨2⟩ → ∀ x ∈ Machine.debts Host.quiet b past,
          ∀ d ∈ (secondStart.steps Host.quiet 7).table.claims ⟨2⟩, x.table.owner d ≠ some b := by
  have first := ((Machine.Run.fresh (h := Host.quiet) () ()).ask (.start ⟨1⟩ false) rfl).steps 12
  have run := (first.ask (.start ⟨2⟩ false) rfl).steps 2
  have light : ∀ x ∈ secondStart.agenda, x.isLight = true := by decide
  have starts : secondStart.Starts Host.quiet ⟨2⟩ := ⟨_, rfl, .inr ⟨[⟨1⟩, ⟨1⟩], rfl⟩⟩
  have quiet : ∀ k < 6,
      ¬ ((secondStart.step Host.quiet).steps Host.quiet k).Starts Host.quiet ⟨2⟩ ∧
        ¬ ((secondStart.step Host.quiet).steps Host.quiet k).Leaves Host.quiet ⟨2⟩ := by decide
  have inside : (secondStart.steps Host.quiet 7).Enters ⟨2⟩ .begin := .begin rfl
  have undisturbed := Machine.undisturbed_trail 6
    (run.undisturbed_of_isLight light (by decide) starts) quiet
  have clear := Machine.clear_trail 6 (run.clear_of_isLight light starts) fun k less =>
    (quiet k less).1
  exact ⟨_, run.steps 7, inside,
    (Machine.holders_finish_first (run.steps 7) ⟨2⟩).1 inside undisturbed clear⟩

/-- Two actions on one device.  The first one, when it is processed, stops itself and starts the
second one. -/
def Host.giving : Host Empty Unit Unit := .plain (fun _ => [⟨1⟩]) fun a cb =>
  match a, cb with
  | ⟨1⟩, .process => .ask (.stop ⟨1⟩) fun _ => .ask (.start ⟨2⟩ false) fun _ => .skip
  | _, _ => .skip

/-- The second action begins while the first one, which gave the device up, has yet to finish. -/
theorem begin_before_finish :
    ∃ past, Machine.Run Host.giving
        (Host.giving.play [(.tick, 12), (.start ⟨1⟩ false, 12)]) past ∧
      (Host.giving.play [(.tick, 12), (.start ⟨1⟩ false, 12)]).Enters ⟨2⟩ .begin ∧
      ∃ x ∈ Machine.debts Host.giving ⟨1⟩ past,
        ∃ d ∈ (Host.giving.play [(.tick, 12), (.start ⟨1⟩ false, 12)]).table.claims ⟨2⟩,
          x.table.owner d = some ⟨1⟩ := by
  have first := ((Machine.Run.fresh (h := Host.giving) () ()).ask (.start ⟨1⟩ false) rfl).steps 12
  have run := (first.ask .tick rfl).steps 12
  exact ⟨_, run, .begin rfl, by decide⟩

end RobotControl
