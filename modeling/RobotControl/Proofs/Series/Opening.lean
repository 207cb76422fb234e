import RobotControl.Proofs.Series.Scene

/-!
# The begin of a series

A run of a series opens: it starts its first child.  Whatever a series starts, nothing else that
matters to it changes (`Machine.Launched`).
-/
set_option autoImplicit false

namespace RobotControl

open Series

variable {ε Ω σ : Type}

namespace Machine

variable {h : Host ε Ω σ} {s : ActionId} {cs : List ActionId} {f : Option ActionId}
  {score : σ → Option Series} {read : σ → Series} {write : Series → σ → σ}
  {m m' : Machine ε Ω σ} {rest : List (Task ε Ω σ)} {stage stage' : Stage}
  {log : List Note} {t : ActionTable} {x : Series} {i : Nat}

/-- The table inside a callback of the series: nobody else is inside one, and it owns nothing. -/
structure Within (s : ActionId) (t : ActionTable) : Prop where
  consistent : t.Consistent
  bare : ∀ d, t.owner d ≠ some s
  free : ∀ b, b ≠ s → t.Free b
  owed : t.owed s = []

theorem Orderly.within (orderly : m.Orderly) (outside : frames m.agenda = [])
    (bare : ∀ d, m.table.owner d ≠ some s) : Within s (m.table.enter s) where
  consistent := orderly.consistent.of_same (.enter m.table s)
  bare := bare
  free b other := (orderly.sound.free outside b).congr ⟨by
    rw [ActionTable.isBusy_enter, decide_eq_false other.symm, Bool.false_or],
    ActionTable.owed_enter ..⟩
  owed := (ActionTable.owed_enter ..).trans (orderly.sound.free outside s).2

theorem Within.retire (within : Within s t) : Within s (t.retire s) where
  consistent := within.consistent.retire s
  bare := owner_retiredIf within.bare s true
  free b other := (within.free b other).congr (sameCalls_retiredIf t s true b)
  owed := (owed_retiredIf t s s true).trans within.owed

/-- The table after the series has started an action: nothing else that matters to it has
changed. -/
structure Launched (s : ActionId) (cs : List ActionId) (c : ActionId) (failed : Bool)
    (t t' : ActionTable) : Prop where
  phase : t'.phase c = if failed then .finished else .running
  others : ∀ b, b = s ∨ b ∈ cs → b ≠ c → t'.phase b = t.phase b
  bare : ∀ d, t'.owner d ≠ some s
  owed : t'.owed s = t.owed s

/-- What shows of it. -/
def launching (s c : ActionId) (cs : List ActionId) (f : Option ActionId) (failed last : Bool) :
    List Note :=
  .asks (some s) (.start c false) true :: .enters c .begin ::
    plot s cs f (if failed then visit c (.finish true) last else [])

theorem reaches_child (conducts : h.Conducts s score read write) {c : ActionId}
    (front : m.agenda = .run (.ask (.start c false) fun _ => .skip) :: rest)
    (caller : (frames rest).head? = some s) (other : c ≠ s) (stands : m.table.isRunning c = false)
    (still : ∀ d ∈ cs, m.table.phase d ≠ .running) (within : Within s m.table)
    (known : score m.own = some x) (member : c ∈ cs ∨ f = some c) :
    ∃ (log : List Note) (t : ActionTable) (failed last : Bool),
      Reaches h score m log t x (.run .skip :: rest) ∧
        plot s cs f log = launching s c cs f failed last ∧ Launched s cs c failed m.table t := by
  have apart : ∀ ds, s ∉ m.table.holders c ds := not_holder within.bare
  obtain ⟨ds, restarted, finished, failed, last, comes⟩ :=
    comes_ask_start front (fun runs => by rw [stands] at runs; cases runs)
      (conducts.tame c other) (within.free c other)
      (fun ds o held => have other : o ≠ s := fun same => apart ds (same ▸ held)
        ⟨within.free o other, conducts.tame o other⟩)
      fun own _ => conducts.claims own c other
  -- Those it interrupts run, so they are neither the series, which owns nothing, nor children.
  have elsewhere : ∀ o ∈ m.table.holders c ds.eraseDups, o ≠ s ∧ o ∉ cs := by
    intro o held
    refine ⟨fun same => apart _ (same ▸ held), fun child => ?_⟩
    exact still o child
      ((within.consistent.running_iff o).mpr ((ActionTable.mem_holders ..).mp held).2.1)
  have nothing : plot s cs f ((m.table.holders c ds.eraseDups).flatMap
      fun o => visit o (.finish true) (finished o)) = [] := by
    rw [plot, List.filter_flatMap, List.flatMap_eq_nil_iff]
    intro o held
    exact (plot_finish (elsewhere o held).1 true (finished o)).trans (if_neg (elsewhere o held).2)
  have shown : plot s cs f (.asks (frames rest).head? (.start c false) true ::
      starting c ds (m.table.holders c ds.eraseDups) (m.table.isRunning c) restarted finished failed
        last) = launching s c cs f failed last := by
    rw [← List.singleton_append, plot_append, plot_starting other, nothing, stands, caller,
      if_pos member]
    simp [plot, concerns, launching]
  refine ⟨_, _, failed, last, comes.reaches known, shown, ?_, fun b known distinct => ?_, ?_, ?_⟩
  · rw [phase_retiredIf, ActionTable.phase_started, if_pos rfl]
    simp
  · rw [phase_begun _ _ _ distinct, if_neg fun held => ?_]
    obtain ⟨own, child⟩ := elsewhere b held
    exact known.elim own child
  · exact owner_begun within.bare other _ failed ds
  · have calls := sameCalls_retiredIf m.table c (m.table.isRunning c) s
    have started := ActionTable.sameCalls_started (retiredIf m.table c (m.table.isRunning c)) c ds s
    rw [owed_retiredIf]
    exact started.2.trans calls.2

/-! ### One child after the other -/

theorem parts_launching {k : Nat} {c : ActionId} (next : cs[k]? = some c) (apart : s ∉ cs)
    (failed last : Bool) : Parts s cs f (.on k false) (launching s c cs f failed last)
      (.on (k + 1) !failed) := by
  have child : c ∈ cs := List.mem_of_getElem? next
  have begins : Parts s cs f (.on k false) [.asks (some s) (.start c false) true, .enters c .begin]
      (.on (k + 1) true) := (Part.next next).parts
  cases failed with
  | false => exact begins
  | true =>
      have ends : launching s c cs f true last = [.asks (some s) (.start c false) true,
          .enters c .begin] ++ visit c (.finish true) last := by
        have other : c ≠ s := fun same => apart (same ▸ child)
        rw [launching, if_pos rfl, plot_finish other, if_pos child]
        rfl
      rw [ends]
      exact begins.trans (Part.ends next).parts

theorem Launched.scene {k : Nat} {c : ActionId} {failed : Bool} {t t' : ActionTable}
    (launched : Launched s cs c failed t t') (next : cs[k]? = some c) (apart : s ∉ cs)
    (runs : t.phase s = .running) (still : ∀ d ∈ cs, t.phase d ≠ .running) :
    Scene s cs f t'.phase ⟨cs, f, k⟩ (.on (k + 1) !failed) := by
  have child : c ∈ cs := List.mem_of_getElem? next
  refine .on ?_ ((List.getElem?_eq_some_iff.mp next).1) (.inl k.succ_pos) (fun d member => ?_)
    fun ended d now => ?_
  · rw [launched.others s (.inl rfl) fun same => apart (same ▸ child), runs]
  · show _ ↔ _ ∧ cs[k]? = some d
    rw [next, Option.some_inj]
    by_cases same : d = c
    · subst same
      rw [launched.phase]
      cases failed <;> simp
    · rw [launched.others d (.inr member) same]
      exact ⟨fun runs => absurd runs (still d member), fun both => absurd both.2.symm same⟩
  · obtain rfl := Option.some.inj (next.symm.trans now)
    rw [launched.phase]
    cases failed with
    | false => cases ended
    | true => rfl

/-! ### The begin -/

theorem Reaches.leaves (reaches : Reaches h score m log t x (.drain s :: rest))
    (outside : frames rest = []) (orderly : m.Orderly) (owed : t.owed s = [])
    (bare : ∀ d, t.owner d ≠ some s) (scene : Scene s cs f t.phase x stage')
    (parts : Parts s cs f stage (plot s cs f log) stage') :
    ∃ m', m'.agenda = rest ∧ Leads h s cs f score m stage log m' stage' := by
  refine (reaches.drained owed).leads orderly outside bare ?_ parts
  rwa [show (t.leave s).phase = t.phase from funext (ActionTable.SameLocks.leave t s).phase]

theorem leads_begin (conducts : h.Conducts s score read write) (apart : s ∉ cs)
    (front : m.agenda = .invoke s .begin :: rest) (outside : frames rest = [])
    (orderly : m.Orderly) (runs : m.table.phase s = .running)
    (still : ∀ c ∈ cs, m.table.phase c ≠ .running) (bare : ∀ d, m.table.owner d ≠ some s)
    (known : score m.own = some ⟨cs, f, i⟩) (atRest : Bool) :
    ∃ log m' stage', m'.agenda = rest ∧
      Leads h s cs f score m (.off atRest) log m' stage' := by
  obtain ⟨m₁, served, agenda, table, known'⟩ := conducts.goes_begin (m := { m with
    table := m.table.enter s, agenda := .serve s .begin :: .drain s :: rest }) rfl known
  have entered : Goes h m [.enters s .begin] m₁ :=
    (goes_invoke front (orderly.sound.free (front ▸ outside) s)).trans served
  have within : Within s m₁.table := table ▸ orderly.within (front ▸ outside) bare
  have phases : m₁.table.phase = m.table.phase :=
    table ▸ funext (ActionTable.SameLocks.enter m.table s).phase
  rw [← phases] at runs still
  have opens : Parts s cs f (.off atRest) [.enters s .begin] (.on 0 false) := Part.opens.parts
  have returned : ∀ m' : Machine ε Ω σ,
      m'.agenda = .run .skip :: .returned s .begin :: .drain s :: rest →
        Comes h score m' [.leaves s .begin false] m'.table (.drain s :: rest) :=
    fun m' agenda => comes_returned agenda (.inl rfl)
  cases cs with
  | nil =>
      have shown : plot s [] f [.enters s .begin, .leaves s .begin false] = [.enters s .begin] := by
        simp [plot, concerns]
      have scene : Scene s [] f m₁.table.phase ⟨[], f, 0⟩ (.on 0 false) :=
        .on runs (Nat.le_refl 0) (.inr ⟨rfl, rfl⟩) (by simp) (by simp)
      obtain ⟨m', agenda, leads⟩ := (((returned m₁ agenda).reaches known').goes entered).leaves
        outside orderly within.owed within.bare scene (shown ▸ opens)
      exact ⟨_, m', _, agenda, leads⟩
  | cons c more =>
      have other : c ≠ s := fun same => apart (same ▸ List.mem_cons_self)
      have stands : m₁.table.isRunning c = false := by
        simpa [ActionTable.isRunning] using still c List.mem_cons_self
      obtain ⟨log, t, failed, last, reaches, shown, launched⟩ := reaches_child (f := f) conducts
        agenda rfl other stands still within known' (.inl List.mem_cons_self)
      have whole := (reaches.trans fun m' agenda agrees known =>
        ((returned m' agenda).agrees agrees).reaches known).goes entered
      have shown' : plot s (c :: more) f ([.enters s .begin] ++ (log ++ [.leaves s .begin false])) =
          [.enters s .begin] ++ launching s c (c :: more) f failed last := by
        rw [plot_append, plot_append, shown]
        simp [plot, concerns]
      have parts : Parts s (c :: more) f (.on 0 false)
          (launching s c (c :: more) f failed last) (.on 1 !failed) :=
        parts_launching rfl apart failed last
      obtain ⟨m', agenda, leads⟩ := whole.leaves outside orderly
        (launched.owed.trans within.owed) launched.bare (launched.scene rfl apart runs still)
        (shown' ▸ opens.trans parts)
      exact ⟨_, m', _, agenda, leads⟩

theorem Leads.after {m₁ : Machine ε Ω σ} {stage₁ : Stage} {log' : List Note}
    (leads : Leads h s cs f score m₁ stage₁ log' m' stage') (goes : Goes h m log m₁)
    (parts : Parts s cs f stage (plot s cs f log) stage₁) :
    Leads h s cs f score m stage (log ++ log') m' stage' :=
  ⟨goes.trans leads.goes, leads.poised, plot_append log log' ▸ parts.trans leads.parts⟩

theorem Poised.passes (poised : Poised s cs f score m stage) (step : m.step h = m.todo rest)
    (quiet : plot s cs f (m.notes h) = []) (outside : frames rest = []) :
    ∃ m', m'.agenda = rest ∧ Leads h s cs f score m stage (m.notes h) m' stage := by
  obtain ⟨x, known, scene⟩ := poised.scene
  have still : Reaches h score (m.todo rest) [] m.table x rest :=
    ⟨m.todo rest, .refl, rfl, .refl _, known⟩
  have reaches := still.goes (step ▸ Goes.one h m)
  rw [List.append_nil] at reaches
  exact reaches.leads poised.orderly outside poised.bare scene (quiet ▸ .nil)

theorem Leads.letGo {as : List ActionId} (leads : Leads h s cs f score m stage log m' stage')
    (front : m'.agenda = .letGo as :: rest) :
    ∃ m'', m''.agenda = rest ∧ Leads h s cs f score m stage log m'' stage' := by
  have poised := leads.poised
  obtain ⟨x, known, scene⟩ := poised.scene
  have outside : frames rest = [] := by
    have outside := poised.outside
    rwa [front] at outside
  obtain ⟨m'', agenda, more⟩ := ((comes_letGo front).reaches known).leads poised.orderly outside
    poised.bare scene .nil
  exact ⟨m'', agenda, List.append_nil log ▸ leads.trans more⟩

/-- The series is launched: it needs nothing, so it interrupts nobody. -/
theorem leads_launch (conducts : h.Conducts s score read write) (apart : s ∉ cs)
    (front : m.agenda = .launch s :: rest) {atRest : Bool}
    (poised : Poised s cs f score m (.off atRest))
    (still : ∀ c ∈ cs, m.table.phase c ≠ .running) :
    ∃ log m' stage', m'.agenda = rest ∧ Leads h s cs f score m (.off atRest) log m' stage' := by
  have outside : frames rest = [] := by
    have outside := poised.outside
    rwa [front] at outside
  obtain ⟨x, known, scene⟩ := poised.scene
  obtain ⟨needs, keeps⟩ := conducts.unclaimed m.own x known
  have nobody : m.table.holders s ([] : List DeviceId).eraseDups = [] := rfl
  obtain ⟨failed, m₁, goes, agenda, agrees, own, -⟩ := comes_launch front needs
    (keeps.trans known.symm) (poised.free s) fun o held => by rw [nobody] at held; cases held
  have phases : ∀ b, m₁.table.phase b = if b = s then .running else m.table.phase b := fun b => by
    rw [agrees.phase, ActionTable.phase_started, nobody]
    simp
  have bare : ∀ d, m₁.table.owner d ≠ some s := fun d => by
    rw [agrees.owner, Ne, ActionTable.owner_started]
    simpa using fun owns => absurd owns (poised.bare d)
  have still' : ∀ c ∈ cs, m₁.table.phase c ≠ .running := fun c child => by
    have other : c ≠ s := fun same => apart (same ▸ child)
    rw [phases, if_neg other]
    exact still c child
  cases scene with
  | @off i _ _ _ =>
      obtain ⟨log, m', stage', agenda', leads⟩ := leads_begin conducts apart agenda outside
        (poised.orderly.goes goes) ((phases s).trans (if_pos rfl)) still' bare (own.trans known)
        atRest
      have needed : Parts s cs f (.off atRest) (plot s cs f (.needs s [] ::
          (m.table.holders s ([] : List DeviceId).eraseDups).flatMap
            fun o => visit o (.finish true) (failed o))) (.off atRest) := by
        rw [nobody]
        exact .nil
      obtain ⟨m'', agenda'', leads⟩ := (leads.after goes needed).letGo agenda'
      exact ⟨_, m'', stage', agenda'', leads⟩

end Machine

end RobotControl
