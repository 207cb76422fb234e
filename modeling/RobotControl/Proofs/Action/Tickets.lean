import RobotControl.Proofs.Action.Work

/-!
# Begins that are still to come

A start leaves one token for the begin of its action: at once, as long as it waits for others
`held` back, and once it is left to others the ticket of their hand-overs (`Waits`).  `Evolves`
says what one step does to the tokens of an action; `Run.evolves` that every step of a run does one
of these.  The tokens of an action outlive the end of its run.
-/
set_option autoImplicit false

namespace RobotControl

variable {ε Ω σ : Type}

/-! ### Hand-overs in the table -/

theorem ActionTable.awaits_iff (t : ActionTable) (ticket : Nat) :
    t.awaits ticket = true ↔ ∃ o next, .handOver next ticket ∈ t.owed o := by
  unfold ActionTable.awaits
  rw [List.any_eq_true]
  constructor
  · rintro ⟨e, kept, found⟩
    obtain ⟨⟨o, e'⟩, member, rfl⟩ := List.mem_map.mp kept
    obtain ⟨d, owes, same⟩ := List.any_eq_true.mp found
    have entry : t.entry o = e' := by
      unfold ActionTable.entry Assoc.getD Assoc.get?
      rw [Assoc.find_of_mem member t.entries.nodup]
      rfl
    cases d with
    | handOver next k =>
        have equal : k = ticket := by simpa using same
        subst equal
        refine ⟨o, next, ?_⟩
        rw [ActionTable.owed, entry]
        exact owes
    | begin => cases same
    | process => cases same
    | finish _ => cases same
  · rintro ⟨o, next, owes⟩
    cases found : t.entries.get? o with
    | none => simp [ActionTable.owed, ActionTable.entry, Assoc.getD, found] at owes
    | some e =>
        have entry : t.entry o = e := by simp [ActionTable.entry, Assoc.getD, found]
        refine ⟨e, List.mem_map.mpr ⟨(o, e), Assoc.mem_of_find found, rfl⟩, ?_⟩
        rw [ActionTable.owed, entry] at owes
        exact List.any_eq_true.mpr ⟨_, owes, by simp⟩

theorem ActionTable.owes_handOver_pos (t : ActionTable) (o next : ActionId) (ticket : Nat) :
    0 < t.owes (o, some (.handOver next ticket)) ↔ .handOver next ticket ∈ t.owed o := by
  simp [ActionTable.owes, List.count_pos_iff]

namespace Machine

/-! ### Tokens of a begin -/

/-- How many begins of the action will be entered, whatever happens to it. -/
def due (m : Machine ε Ω σ) (a : ActionId) : Nat := pending m.table m.agenda (a, some .begin)

/-- How many begins of the action wait to be left to other actions. -/
def held (m : Machine ε Ω σ) (a : ActionId) : Nat := pending m.table m.agenda (a, none)

/-- Hand-overs to the action under the ticket are still to come. -/
def Waits (m : Machine ε Ω σ) (a : ActionId) (ticket : Nat) : Prop :=
  ∃ o, 0 < pending m.table m.agenda (o, some (.handOver a ticket))

/-- Tickets are new when they are given out, each for one action. -/
structure Ticketed (m : Machine ε Ω σ) : Prop where
  old : ∀ a ticket, m.Waits a ticket → ticket < m.table.nextTicket
  single : ∀ a b ticket, m.Waits a ticket → m.Waits b ticket → a = b

inductive Evolves (h : Host ε Ω σ) (m : Machine ε Ω σ) (a : ActionId) : Prop
  /-- Hand-overs to an action that does not run may be passed over. -/
  | still (quiet : ¬ m.Starts h a) (outside : ¬ m.Enters a .begin)
      (due : (m.step h).due a = m.due a) (held : (m.step h).held a = m.held a)
      (fewer : ∀ k, (m.step h).Waits a k → m.Waits a k)
      (stays : m.table.isRunning a = true → ∀ k, m.Waits a k → (m.step h).Waits a k)
  | begins (starts : m.Starts h a) (due : (m.step h).due a = m.due a + 1)
      (held : (m.step h).held a = m.held a) (waits : ∀ k, (m.step h).Waits a k ↔ m.Waits a k)
  | holds (starts : m.Starts h a) (due : (m.step h).due a = m.due a)
      (held : (m.step h).held a = m.held a + 1) (waits : ∀ k, (m.step h).Waits a k ↔ m.Waits a k)
  | posts {late : List ActionId} {rest : List (Task ε Ω σ)}
      (agenda : m.agenda = .succeed a late :: rest) (quiet : ¬ m.Starts h a)
      (due : (m.step h).due a = m.due a) (held : (m.step h).held a + 1 = m.held a)
      (next : m.table.nextTicket < (m.step h).table.nextTicket)
      (waits : ∀ k, (m.step h).Waits a k ↔ m.Waits a k ∨ k = m.table.nextTicket)
  | handsOver (ticket : Nat) (quiet : ¬ m.Starts h a) (outside : ¬ m.Enters a .begin)
      (runs : m.table.isRunning a = true) (waited : m.Waits a ticket)
      (due : (m.step h).due a = m.due a + 1) (held : (m.step h).held a = m.held a)
      (waits : ∀ k, (m.step h).Waits a k ↔ m.Waits a k ∧ k ≠ ticket)
  | enters (quiet : ¬ m.Starts h a) (inside : m.Enters a .begin)
      (due : (m.step h).due a + 1 = m.due a) (held : (m.step h).held a = m.held a)
      (waits : ∀ k, (m.step h).Waits a k ↔ m.Waits a k)

theorem enters_begin_iff {m : Machine ε Ω σ} {a : ActionId} :
    m.Enters a .begin ↔ m.doing = some (a, some .begin) := by
  constructor
  · rintro ⟨front⟩
    exact doing_eq front
  · intro doing
    cases agenda : m.agenda with
    | nil => simp [Machine.doing, agenda] at doing
    | cons t rest =>
        rw [doing_eq agenda] at doing
        cases t with
        | serve b d =>
            cases doing
            exact .begin agenda
        | succeed b late => cases late <;> cases doing
        | _ => cases doing

theorem handOver_not_mem_items {t : Task ε Ω σ} {rest : List (Task ε Ω σ)}
    (framed : Framed (t :: rest)) (o next : ActionId) (ticket : Nat) :
    (o, some (.handOver next ticket)) ∉ items rest := by
  intro member
  obtain ⟨x, behind, item⟩ := List.mem_filterMap.mp member
  have stays := framed.steady x behind
  cases x with
  | succeed a late => cases late <;> cases item
  | invoke a d =>
      cases item
      cases stays
  | serve a d => cases stays
  | _ => cases item

theorem Waits.congr {m m' : Machine ε Ω σ} {a : ActionId}
    (same : ∀ o k, pending m'.table m'.agenda (o, some (.handOver a k)) =
      pending m.table m.agenda (o, some (.handOver a k))) (k : Nat) :
    m'.Waits a k ↔ m.Waits a k := by
  simp only [Waits, same]

section Evolves

variable {h : Host ε Ω σ} {m : Machine ε Ω σ} {rest : List (Task ε Ω σ)} {a b : ActionId}

theorem Evolves.of_kept (quiet : ¬ m.Starts h a) (other : m.doing ≠ some (a, some .begin))
    (due : (m.step h).due a = m.due a) (held : (m.step h).held a = m.held a)
    (kept : ∀ o k, pending (m.step h).table (m.step h).agenda (o, some (.handOver a k)) =
      pending m.table m.agenda (o, some (.handOver a k))) : m.Evolves h a := by
  have waits : ∀ k, (m.step h).Waits a k ↔ m.Waits a k := Waits.congr kept
  refine .still quiet (fun inside => other (enters_begin_iff.mp inside)) due held ?_ ?_
  · exact fun k => (waits k).mp
  · exact fun _ k => (waits k).mpr

/-- A hand-over is passed over while its action runs only if another one of its ticket is owed. -/
theorem waits_of_passed {k : Nat} (front : m.agenda = .serve b (.handOver a k) :: rest)
    (awaited : m.table.awaits k = true) (ticketed : m.Ticketed)
    (gone : pending (m.step h).table (m.step h).agenda (b, some (.handOver a k)) + 1 =
      pending m.table m.agenda (b, some (.handOver a k)))
    (kept : ∀ o, o ≠ b → pending (m.step h).table (m.step h).agenda (o, some (.handOver a k)) =
      pending m.table m.agenda (o, some (.handOver a k))) : (m.step h).Waits a k := by
  have inFront : 0 < (items m.agenda).count (b, some (.handOver a k)) := by
    rw [front]
    exact List.count_pos_iff.mpr (List.mem_cons_self ..)
  obtain ⟨o, next, owes⟩ := (ActionTable.awaits_iff _ _).mp awaited
  have owed := (ActionTable.owes_handOver_pos m.table o next k).mpr owes
  have waits : m.Waits next k := ⟨o, Nat.lt_of_lt_of_le owed (Nat.le_add_left _ _)⟩
  have before : m.Waits a k := ⟨b, Nat.lt_of_lt_of_le inFront (Nat.le_add_right _ _)⟩
  obtain rfl := ticketed.single a next k before waits
  refine ⟨o, ?_⟩
  by_cases here : o = b
  · subst here
    unfold pending at gone ⊢
    omega
  · rw [kept o here]
    exact Nat.lt_of_lt_of_le owed (Nat.le_add_left _ _)

theorem evolves_of_served {d : Deferred} (front : m.agenda = .serve b d :: rest)
    (reason : ∀ next ticket, d = .handOver next ticket →
      m.table.awaits ticket = true ∨ m.table.isRunning next = false)
    (quiet : ∀ a, ¬ m.Starts h a) (ticketed : m.Ticketed)
    (gone : pending (m.step h).table (m.step h).agenda (b, some d) + 1 =
      pending m.table m.agenda (b, some d))
    (kept : ∀ w, w ≠ (b, some d) → pending (m.step h).table (m.step h).agenda w =
      pending m.table m.agenda w) (a : ActionId) : m.Evolves h a := by
  have doing : m.doing = some (b, some d) := doing_eq front
  by_cases own : b = a ∧ d = .begin
  · obtain ⟨rfl, rfl⟩ := own
    exact .enters (quiet b) (.begin front) gone (kept _ (by simp))
      (Waits.congr fun o k => kept _ (by simp))
  have outside : ¬ m.Enters a .begin := by
    rw [enters_begin_iff, doing]
    intro inside
    cases inside
    exact own ⟨rfl, rfl⟩
  refine .still (quiet a) outside (kept _ fun same => ?_) (kept _ (by simp)) ?_ ?_
  · cases same
    exact own ⟨rfl, rfl⟩
  · rintro k ⟨o, still⟩
    refine ⟨o, Nat.lt_of_lt_of_le still ?_⟩
    by_cases same : ((o, some (.handOver a k)) : Item) = (b, some d)
    · rw [same]
      omega
    · exact Nat.le_of_eq (kept _ same)
  · rintro runs k ⟨o, before⟩
    by_cases same : ((o, some (.handOver a k)) : Item) = (b, some d)
    · cases same
      have awaited := (reason a k rfl).resolve_right fun stands => by simp [runs] at stands
      exact waits_of_passed front awaited ticketed gone fun o other => kept _ (by simp [other])
    · exact ⟨o, (kept _ same).symm ▸ before⟩

theorem evolves_of_starts (atOnce : Bool) (idle : m.doing = none) (starts : m.Starts h b)
    (equation : ∀ w : Item, w.2 ≠ some (.finish true) →
      pending (m.step h).table (m.step h).agenda w = pending m.table m.agenda w +
        [((b, if atOnce then some .begin else none) : Item)].count w) (a : ActionId) :
    m.Evolves h a := by
  have kept : ∀ o k, pending (m.step h).table (m.step h).agenda (o, some (.handOver a k)) =
      pending m.table m.agenda (o, some (.handOver a k)) := fun o k => by
    rw [equation _ (by simp)]
    cases atOnce <;> simp
  by_cases own : b = a
  · subst own
    cases atOnce with
    | true =>
        exact .begins starts ((equation _ (by simp)).trans (by simp [due]))
          ((equation _ (by simp)).trans (by simp [held])) (Waits.congr kept)
    | false =>
        exact .holds starts ((equation _ (by simp)).trans (by simp [due]))
          ((equation _ (by simp)).trans (by simp [held])) (Waits.congr kept)
  · refine .of_kept (fun here => ?_) (by simp [idle])
      ((equation _ (by simp)).trans (by simp [due, own]))
      ((equation _ (by simp)).trans (by simp [held, own])) kept
    obtain ⟨_, front, _⟩ := starts
    obtain ⟨_, front', _⟩ := here
    rw [front] at front'
    cases front'
    exact own rfl

/-- A begin that is left to others is held back no more; its hand-overs have a ticket of their
own. -/
theorem evolves_of_posts {late : List ActionId} (front : m.agenda = .succeed b late :: rest)
    (others : late ≠ []) (quiet : ∀ a, ¬ m.Starts h a)
    (equation : ∀ w, pending (m.step h).table (m.step h).agenda w +
      [((b, none) : Item)].count w = pending m.table m.agenda w +
        if w.2 = some (.handOver b m.table.nextTicket) then late.count w.1 else 0)
    (a : ActionId) : m.Evolves h a := by
  obtain ⟨first, more, rfl⟩ := List.exists_cons_of_ne_nil others
  have doing : m.doing = some (b, none) := doing_eq front
  have due : (m.step h).due a = m.due a := by
    simpa [Machine.due] using equation (a, some .begin)
  by_cases own : b = a
  · subst own
    have next : m.table.nextTicket < (m.step h).table.nextTicket := by
      simp [step, front, ActionTable.deferHandOver]
    refine .posts front (quiet b) due (by simpa [held] using equation (b, none)) next
      fun k => ⟨?_, ?_⟩
    · rintro ⟨o, still⟩
      by_cases new : k = m.table.nextTicket
      · exact .inr new
      · have kept : pending (m.step h).table (m.step h).agenda (o, some (.handOver b k)) =
            pending m.table m.agenda (o, some (.handOver b k)) := by
          simpa [new] using equation (o, some (.handOver b k))
        exact .inl ⟨o, kept ▸ still⟩
    · rintro (⟨o, before⟩ | rfl)
      · refine ⟨o, Nat.lt_of_lt_of_le before ?_⟩
        have equation := equation (o, some (.handOver b k))
        simp only [List.count_singleton] at equation
        simp at equation
        omega
      · refine ⟨first, ?_⟩
        have equation := equation (first, some (.handOver b m.table.nextTicket))
        simp at equation
        omega
  · refine .of_kept (quiet a) (by simp [doing]) due
      (by simpa [held, own] using equation (a, none)) fun o k => ?_
    simpa [Ne.symm own] using equation (o, some (.handOver a k))

/-- The last hand-over of a ticket leaves the begin of its action, and none of its kind. -/
theorem evolves_of_handOver {next : ActionId} {ticket : Nat}
    (front : m.agenda = .serve b (.handOver next ticket) :: rest) (framed : Framed m.agenda)
    (last : m.table.awaits ticket = false) (runs : m.table.isRunning next = true)
    (quiet : ∀ a, ¬ m.Starts h a)
    (equation : ∀ w, pending (m.step h).table (m.step h).agenda w +
      [((b, some (.handOver next ticket)) : Item)].count w =
        pending m.table m.agenda w + [((next, some .begin) : Item)].count w) (a : ActionId) :
    m.Evolves h a := by
  have doing : m.doing = some (b, some (.handOver next ticket)) := doing_eq front
  have held : (m.step h).held a = m.held a := by
    simpa [Machine.held] using equation (a, none)
  by_cases own : next = a
  · subst own
    have outside : ¬ m.Enters next .begin := by
      rw [enters_begin_iff, doing]
      intro inside
      cases inside
    have waited : m.Waits next ticket := ⟨b, Nat.lt_of_lt_of_le
      (List.count_pos_iff.mpr (front ▸ List.mem_cons_self ..)) (Nat.le_add_right _ _)⟩
    refine .handsOver ticket (quiet next) outside runs waited
      (by simpa [due] using equation (next, some .begin)) held fun k => ?_
    by_cases same : k = ticket
    · subst same
      refine ⟨?_, fun both => absurd rfl both.2⟩
      rintro ⟨o, still⟩
      have none : m.table.owes (o, some (.handOver next k)) = 0 := by
        by_contra owed
        have owes := (ActionTable.owes_handOver_pos _ _ _ _).mp (Nat.pos_of_ne_zero owed)
        rw [(ActionTable.awaits_iff _ _).mpr ⟨o, next, owes⟩] at last
        cases last
      have behind := List.count_eq_zero.mpr (handOver_not_mem_items (front ▸ framed) o next k)
      have whole : items m.agenda = (b, some (.handOver next k)) :: items rest := by
        rw [front]
        rfl
      have equation := equation (o, some (.handOver next k))
      rw [pending.eq_1 m.table, none, whole, List.count_cons (l := items rest), behind,
        List.count_singleton] at equation
      simp at equation
      omega
    · have kept : ∀ o, pending (m.step h).table (m.step h).agenda (o, some (.handOver next k)) =
          pending m.table m.agenda (o, some (.handOver next k)) := fun o => by
        simpa [Ne.symm same] using equation (o, some (.handOver next k))
      simp only [Waits, kept, ne_eq, same, not_false_eq_true, and_true]
  · refine .of_kept (quiet a) (by simp [doing])
      (by simpa [due, own] using equation (a, some .begin)) held fun o k => ?_
    simpa [own] using equation (o, some (.handOver a k))

theorem Accounted.evolves (accounted : Accounted h m (m.step h).table (m.step h).agenda)
    (framed : Framed m.agenda) (ticketed : m.Ticketed) (a : ActionId) : m.Evolves h a := by
  obtain ⟨new, makes, count⟩ := accounted
  cases makes with
  | nothing idle quiet same =>
      rw [idle] at count
      exact .of_kept (quiet a) (by simp [idle]) (count (a, _)) (count (a, none)) fun o k => count _
  | @served b d rest front reason quiet same =>
      rw [doing_eq front] at count
      refine evolves_of_served front reason quiet ticketed ?_ (fun w other => ?_) a
      · have equation := count (b, some d)
        rwa [Task.does, Option.toList_some, List.count_singleton_self] at equation
      · have apart : ¬ ((b, some d) == w) = true := by simpa using other.symm
        have equation := count w
        rwa [Task.does, Option.toList_some, List.count_singleton, if_neg apart] at equation
  | @ends as interrupted idle quiet nodup ran runs =>
      have kept : ∀ w : Item, w.2 ≠ some (.finish interrupted) →
          pending (m.step h).table (m.step h).agenda w = pending m.table m.agenda w := by
        intro w other
        have equation := count w
        rw [idle, count_places, if_neg other] at equation
        exact equation
      exact .of_kept (quiet a) (by simp [idle]) (kept _ (by simp)) (kept _ (by simp))
        fun o k => kept _ (by simp)
  | @starts b as atOnce idle starts nodup ran runs =>
      refine evolves_of_starts atOnce idle starts (fun w other => ?_) a
      have equation := count w
      rw [idle, List.count_append, count_places, if_neg other] at equation
      simpa using equation
  | @posts b late rest front others quiet same =>
      refine evolves_of_posts front others quiet (fun w => ?_) a
      have doing : m.doing = some (b, none) := by
        obtain ⟨o, more, rfl⟩ := List.exists_cons_of_ne_nil others
        exact doing_eq front
      have equation := count w
      rw [doing, count_places] at equation
      exact equation
  | @handsOver b next ticket rest front last runs quiet same =>
      refine evolves_of_handOver front framed last runs quiet (fun w => ?_) a
      have equation := count w
      rw [doing_eq front] at equation
      exact equation
  | @turns b idle quiet same =>
      have kept : ∀ w : Item, w.2 ≠ some .process →
          pending (m.step h).table (m.step h).agenda w = pending m.table m.agenda w := by
        intro w other
        have equation := count w
        have apart : (b, some .process) ≠ w := fun same => other (same ▸ rfl)
        rw [idle, List.count_singleton, if_neg (by simpa using apart)] at equation
        exact equation
      exact .of_kept (quiet a) (by simp [idle]) (kept _ (by simp)) (kept _ (by simp))
        fun o k => kept _ (by simp)

end Evolves

theorem nextTicket_foldl_retire (as : List ActionId) (t : ActionTable) :
    (as.foldl ActionTable.retire t).nextTicket = t.nextTicket := by
  induction as generalizing t with
  | nil => rfl
  | cons a rest ih => exact ih _

theorem nextTicket_seize (t : ActionTable) (a : ActionId) (ds : List DeviceId) :
    (t.seize a ds).nextTicket = t.nextTicket := nextTicket_foldl_retire (t.holders a ds) t

theorem Move.nextTicket_le {h : Host ε Ω σ} {m : Machine ε Ω σ} {table : ActionTable}
    {agenda : List (Task ε Ω σ)} (move : Move h m table agenda) :
    m.table.nextTicket ≤ table.nextTicket := by
  cases move with
  | code _ _ _ _ alike _ => exact Nat.le_of_eq alike.nextTicket.symm
  | drop _ _ _ alike _ => exact Nat.le_of_eq alike.nextTicket.symm
  | tick _ _ alike => exact Nat.le_of_eq alike.nextTicket.symm
  | handOver _ _ _ alike => exact Nat.le_of_eq alike.nextTicket.symm
  | ended _ _ _ _ _ alike _ => exact Nat.le_of_eq alike.nextTicket.symm
  | interrupt _ _ _ _ _ alike => exact Nat.le_of_eq alike.nextTicket.symm
  | stopAll _ _ alike =>
      rw [alike.nextTicket]
      exact Nat.le_of_eq (nextTicket_foldl_retire _ m.table).symm
  | seize _ claims _ alike =>
      rw [alike.nextTicket, nextTicket_seize]
      rcases claims with ⟨rfl, _, _⟩ | ⟨rfl, _⟩
      · exact Nat.le_refl _
      · exact Nat.le_refl _
  | succeedLater _ _ => exact Nat.le_succ _
  | _ => exact Nat.le_refl _

theorem Evolves.waited {h : Host ε Ω σ} {m : Machine ε Ω σ} {a : ActionId}
    (evolves : m.Evolves h a) {k : Nat} (waits : (m.step h).Waits a k) :
    m.Waits a k ∨ (k = m.table.nextTicket ∧ m.table.nextTicket < (m.step h).table.nextTicket ∧
      ∃ late rest, m.agenda = .succeed a late :: rest) := by
  cases evolves with
  | still _ _ _ _ fewer _ => exact .inl (fewer k waits)
  | begins _ _ _ same => exact .inl ((same k).mp waits)
  | holds _ _ _ same => exact .inl ((same k).mp waits)
  | posts front _ _ _ next added =>
      rcases (added k).mp waits with before | new
      · exact .inl before
      · exact .inr ⟨new, next, _, _, front⟩
  | handsOver _ _ _ _ _ _ _ kept => exact .inl ((kept k).mp waits).1
  | enters _ _ _ _ same => exact .inl ((same k).mp waits)

theorem Ticketed.step {h : Host ε Ω σ} {m : Machine ε Ω σ} (ticketed : m.Ticketed)
    (evolves : ∀ a, m.Evolves h a) (grows : m.table.nextTicket ≤ (m.step h).table.nextTicket) :
    (m.step h).Ticketed where
  old a k waits := by
    rcases (evolves a).waited waits with before | ⟨rfl, next, _⟩
    · exact Nat.lt_of_lt_of_le (ticketed.old a k before) grows
    · exact next
  single a b k waitsA waitsB := by
    rcases (evolves a).waited waitsA with beforeA | ⟨rfl, _, _, _, frontA⟩
    · rcases (evolves b).waited waitsB with beforeB | ⟨rfl, _, _⟩
      · exact ticketed.single a b k beforeA beforeB
      · exact absurd (ticketed.old a _ beforeA) (Nat.lt_irrefl _)
    · rcases (evolves b).waited waitsB with beforeB | ⟨_, _, _, _, frontB⟩
      · exact absurd (ticketed.old b _ beforeB) (Nat.lt_irrefl _)
      · rw [frontA] at frontB
        cases frontB
        rfl

namespace Orderly

variable {h : Host ε Ω σ} {m : Machine ε Ω σ}

theorem accounted (orderly : m.Orderly) : Accounted h m (m.step h).table (m.step h).agenda :=
  orderly.move.accounted orderly.consistent

theorem pending_eq_zero_of_isLight (orderly : m.Orderly) (light : ∀ x ∈ m.agenda, x.isLight = true)
    (w : Item) : pending m.table m.agenda w = 0 := by
  have nothing : m.table.owed w.1 = [] := by
    refine orderly.sound.owed_eq_nil ?_
    by_contra busy
    rw [Bool.not_eq_false, orderly.sound.busy_iff, frames_of_isLight light] at busy
    cases busy
  unfold pending ActionTable.owes
  rw [items_of_isLight light, nothing]
  cases w.2 <;> rfl

end Orderly

namespace Run

variable {h : Host ε Ω σ} {m : Machine ε Ω σ} {past : List (Machine ε Ω σ)}

theorem accounted (run : Run h m past) : Accounted h m (m.step h).table (m.step h).agenda :=
  run.orderly.accounted

theorem pending_eq_zero_of_isLight (run : Run h m past) (light : ∀ x ∈ m.agenda, x.isLight = true)
    (w : Item) : pending m.table m.agenda w = 0 :=
  run.orderly.pending_eq_zero_of_isLight light w

theorem pending_eq_zero (run : Run h m past) (idle : m.agenda = []) (w : Item) :
    pending m.table m.agenda w = 0 :=
  run.pending_eq_zero_of_isLight (by simp [idle]) w

theorem ticketed (run : Run h m past) : m.Ticketed := by
  have unused : ∀ m : Machine ε Ω σ, (∀ w, pending m.table m.agenda w = 0) → m.Ticketed :=
    fun m none => ⟨fun _ _ ⟨_, left⟩ => absurd left (by simp [none]),
      fun _ _ _ ⟨_, left⟩ => absurd left (by simp [none])⟩
  induction run with
  | fresh w own => exact unused _ ((Run.fresh (h := h) w own).pending_eq_zero rfl)
  | @ask m past r run idle ih =>
      have same : ∀ w, pending (m.asked r).table (m.asked r).agenda w =
          pending m.table m.agenda w := fun w => by rw [idle]; rfl
      exact unused _ fun w => (same w).trans (run.pending_eq_zero idle w)
  | drift w own run ih => exact ⟨ih.old, ih.single⟩
  | step run ih =>
      exact ih.step (fun a => run.accounted.evolves run.sound.framed ih a) run.move.nextTicket_le

theorem evolves (run : Run h m past) (a : ActionId) : m.Evolves h a :=
  run.accounted.evolves run.sound.framed run.ticketed a

end Run

end Machine

end RobotControl
