import Mathlib.Data.List.TakeWhile
import RobotControl.Action.Series
import RobotControl.Proofs.Action.Calls

/-!
# One child after the other

What a log has to say for a series to have played its children in their order.  `runs` cuts a log
into the runs of an action; a run is under way (`InTurn`), has come to its end (`Completed`) or was
cut short (`CutShort`).  The parts that a series plays, one after the other, are the paths of
`Series.Part` through its stages; every run of a log that follows such a path is one of the three
(`Series.Parts.tells`).
-/
set_option autoImplicit false

namespace RobotControl

/-- The runs of an action: what shows from each entry of its begin up to the next one. -/
def runs (s : ActionId) : List Note → List (List Note)
  | [] => []
  | n :: log =>
      if n = .enters s .begin then log.takeWhile (· ≠ .enters s .begin) :: runs s log
      else runs s log

section Runs

variable {s : ActionId} {log : List Note}

theorem runs_of_not_mem (never : .enters s .begin ∉ log) : runs s log = [] := by
  induction log with
  | nil => rfl
  | cons n log ih =>
      obtain ⟨other, later⟩ := List.ne_and_not_mem_of_not_mem_cons never
      rw [runs, if_neg other.symm, ih later]

theorem takeWhile_of_not_mem (never : .enters s .begin ∉ log) :
    log.takeWhile (· ≠ .enters s .begin) = log :=
  List.takeWhile_eq_self_iff.mpr fun n member => by
    simpa using fun same : n = .enters s .begin => never (same ▸ member)

theorem runs_append (before : List Note) {run : List Note} (last : .enters s .begin ∉ run) :
    runs s (before ++ .enters s .begin :: run) = runs s before ++ [run] := by
  induction before with
  | nil =>
      show runs s (.enters s .begin :: run) = [run]
      rw [runs, if_pos rfl, takeWhile_of_not_mem last, runs_of_not_mem last]
  | cons n before ih =>
      rw [List.cons_append, runs, runs, ih]
      by_cases first : n = .enters s .begin
      · rw [if_pos first, if_pos first, List.cons_append, List.takeWhile_append]
        split
        · rename_i whole
          rw [List.takeWhile_cons_of_neg (by simp), List.append_nil]
          exact congrArg (· :: _) ((List.takeWhile_prefix _).eq_of_length whole).symm
        · rfl
      · rw [if_neg first, if_neg first]

theorem getLast?_runs (before : List Note) {run : List Note} (last : .enters s .begin ∉ run) :
    (runs s (before ++ .enters s .begin :: run)).getLast? = some run := by
  rw [runs_append before last, List.getLast?_append, List.getLast?_singleton]
  rfl

theorem mem_runs (before after : List Note) :
    after.takeWhile (· ≠ .enters s .begin) ∈ runs s (before ++ .enters s .begin :: after) := by
  induction before with
  | nil =>
      rw [List.nil_append, runs, if_pos rfl]
      exact List.mem_cons_self
  | cons n before ih =>
      rw [List.cons_append, runs]
      split
      · exact List.mem_cons_of_mem _ ih
      · exact ih

theorem mem_runs_append (before : List Note) {run : List Note} (last : .enters s .begin ∉ run)
    (log' : List Note) : run ++ log'.takeWhile (· ≠ .enters s .begin) ∈
      runs s (before ++ .enters s .begin :: run ++ log') := by
  have goesOn := mem_runs (s := s) before (run ++ log')
  rw [List.takeWhile_append, takeWhile_of_not_mem last, if_pos rfl] at goesOn
  rwa [List.append_assoc, List.cons_append]

/-- What is left of a log after some of its notes are left out falls into runs as the log does. -/
theorem runs_filter (keep : Note → Bool) (keeps : keep (.enters s .begin) = true)
    (log : List Note) : runs s (log.filter keep) = (runs s log).map (List.filter keep) := by
  have upTo : ∀ log : List Note, (log.filter keep).takeWhile (· ≠ .enters s .begin) =
      (log.takeWhile (· ≠ .enters s .begin)).filter keep := by
    intro log
    induction log with
    | nil => rfl
    | cons n log ih =>
        by_cases first : n = .enters s .begin
        · simp [first, keeps]
        · by_cases kept : keep n = true
          · rw [List.filter_cons_of_pos kept, List.takeWhile_cons_of_pos (by simpa using first),
              List.takeWhile_cons_of_pos (by simpa using first), List.filter_cons_of_pos kept, ih]
          · rw [List.filter_cons_of_neg kept, List.takeWhile_cons_of_pos (by simpa using first),
              List.filter_cons_of_neg kept, ih]
  induction log with
  | nil => rfl
  | cons n log ih =>
      by_cases first : n = .enters s .begin
      · rw [first, List.filter_cons_of_pos keeps, runs, runs, if_pos rfl, if_pos rfl,
          List.map_cons, ih, upTo]
      · rw [runs, if_neg first, ← ih]
        by_cases kept : keep n = true
        · rw [List.filter_cons_of_pos kept, runs, if_neg first]
        · rw [List.filter_cons_of_neg kept]

end Runs

/-! ### What a log says of a series -/

/-- Requests that end the run of an action from outside. -/
def Request.cuts (s : ActionId) : Request → Bool
  | .stop a | .start a true => a = s
  | .stopAll => true
  | _ => false

namespace Series

section Order

variable (s : ActionId) (cs : List ActionId) (log : List Note)

def begun : List ActionId := log.filterMap fun
  | .enters c .begin => if c ∈ cs then some c else none
  | _ => none

/-- The children whose finish has returned. -/
def ended : List ActionId := log.filterMap fun
  | .leaves c (.finish _) _ => if c ∈ cs then some c else none
  | _ => none

/-- The calls of the finish of the children, and whether they were interrupted. -/
def finishes : List (ActionId × Bool) := log.filterMap fun
  | .enters c (.finish interrupted) => if c ∈ cs then some (c, interrupted) else none
  | _ => none

/-- What the series asks for, and the answers. -/
def wishes : List (Request × Bool) := log.filterMap fun
  | .asks (some a) r answer => if a = s then some (r, answer) else none
  | _ => none

/-- Whenever a child begins, the finish of each that began before has returned. -/
def Alone : Prop := ∀ u c, u ++ [.enters c .begin] <+: log → c ∈ cs → ended cs u = begun cs u

/-- Nothing that was granted from outside ends the run. -/
def Uncut : Prop := ∀ r, .asks none r true ∈ log → r.cuts s = false

/-- The children have begun in their order, each once and only after the one before has finished,
and the series has started each of them itself.  None has finished twice. -/
structure InTurn : Prop where
  uncut : Uncut s log
  inOrder : begun cs log <+: cs
  oneByOne : ended cs log <+: begun cs log
  once : (finishes cs log).map (·.1) = ended cs log
  alone : Alone cs log
  starts : wishes s log = (begun cs log).map fun c => (.start c false, true)
  lasts : finishes [s] log = []

/-- The follow-up is started, once and unless it already runs. -/
def Follows : Option ActionId → Prop
  | none => wishes s log = []
  | some f => ∃ answer, wishes s log = [(.start f false, answer)] ∧
      (answer = true → .enters f .begin ∈ log)

/-- The run of a series that came to its end: all children have had their turn, and after them the
follow-up was started. -/
inductive Completed (f : Option ActionId) : List Note → Prop
  | intro {body tail : List Note} (inTurn : InTurn s cs body) (all : begun cs body = cs)
      (closed : ended cs body = cs) (once : finishes [s] tail = []) (follows : Follows s tail f)
      (others : ∀ c ∈ begun cs tail, f = some c) :
      Completed f (body ++ .enters s (.finish false) :: tail)

/-- A run that was ended from outside: the child that ran then has finished as interrupted, once,
no other has begun, and the series has started nothing. -/
inductive CutShort : List Note → Prop
  | intro {body tail : List Note} {r : Request} {now : Option ActionId} (inTurn : InTurn s cs body)
      (cuts : r.cuts s = true) (runs : begun cs body = ended cs body ++ now.toList)
      (last : begun cs tail = []) (finish : finishes cs tail = now.toList.map (·, true))
      (closed : ended cs tail = now.toList) (own : finishes [s] tail = [(s, true)])
      (stops : ∀ x ∈ wishes s tail, ∃ c ∈ cs, x.1 = .stop c) :
      CutShort (body ++ .asks none r true :: tail)

/-- A run that is over: it has come to its end, or was cut short. -/
def Sequenced (f : Option ActionId) : Prop := Completed s cs f log ∨ CutShort s cs log

end Order

section Append

variable (s : ActionId) (cs : List ActionId) (log log' : List Note)

@[simp] theorem begun_append : begun cs (log ++ log') = begun cs log ++ begun cs log' :=
  List.filterMap_append

@[simp] theorem ended_append : ended cs (log ++ log') = ended cs log ++ ended cs log' :=
  List.filterMap_append

@[simp] theorem finishes_append : finishes cs (log ++ log') = finishes cs log ++ finishes cs log' :=
  List.filterMap_append

@[simp] theorem wishes_append : wishes s (log ++ log') = wishes s log ++ wishes s log' :=
  List.filterMap_append

end Append

/-! ### What concerns a series -/

/-- Notes that say anything of the order of the children. -/
def concerns (s : ActionId) (cs : List ActionId) (f : Option ActionId) : Note → Bool
  | .asks (some a) _ _ => a = s
  | .asks none r answer => r.cuts s && answer
  | .enters a .begin => a = s ∨ a ∈ cs ∨ f = some a
  | .enters a (.finish _) => a = s ∨ a ∈ cs
  | .leaves a (.finish _) _ => a ∈ cs
  | .needs .. | .enters _ .process | .enters _ .proceed | .leaves _ .begin _ |
    .leaves _ .process _ | .leaves _ .proceed _ => false

def plot (s : ActionId) (cs : List ActionId) (f : Option ActionId) (log : List Note) :
    List Note := log.filter (concerns s cs f)

section Plot

variable {s : ActionId} {cs : List ActionId} {f : Option ActionId}

theorem plot_append (log log' : List Note) :
    plot s cs f (log ++ log') = plot s cs f log ++ plot s cs f log' := List.filter_append ..

theorem filterMap_plot {γ : Type} (view : Note → Option γ)
    (concern : ∀ n, concerns s cs f n = false → view n = none) (log : List Note) :
    (plot s cs f log).filterMap view = log.filterMap view := by
  rw [plot, List.filterMap_filter]
  refine List.filterMap_congr fun n _ => ?_
  cases kept : concerns s cs f n with
  | true => rfl
  | false => exact (concern n kept).symm

@[simp]
theorem begun_plot (log : List Note) : begun cs (plot s cs f log) = begun cs log := by
  refine filterMap_plot _ (fun n apart => ?_) log
  split
  · simp_all [concerns]
  · rfl

@[simp]
theorem ended_plot (log : List Note) : ended cs (plot s cs f log) = ended cs log := by
  refine filterMap_plot _ (fun n apart => ?_) log
  split
  · simp_all [concerns]
  · rfl

@[simp]
theorem finishes_plot {as : List ActionId} (known : as ⊆ s :: cs) (log : List Note) :
    finishes as (plot s cs f log) = finishes as log := by
  refine filterMap_plot _ (fun n apart => ?_) log
  split
  · rename_i c interrupted
    refine if_neg fun member => ?_
    have := known member
    simp_all [concerns]
  · rfl

@[simp]
theorem wishes_plot (log : List Note) : wishes s (plot s cs f log) = wishes s log := by
  refine filterMap_plot _ (fun n apart => ?_) log
  split
  · simp_all [concerns]
  · rfl

theorem finishes_own_plot (log : List Note) :
    finishes [s] (plot s cs f log) = finishes [s] log := finishes_plot (by simp) log

theorem InTurn.of_plot {log : List Note} (inTurn : InTurn s cs (plot s cs f log)) :
    InTurn s cs log where
  uncut r asked := Bool.eq_false_iff.mpr fun cuts => by
    have kept : .asks none r true ∈ plot s cs f log :=
      List.mem_filter.mpr ⟨asked, by simp [concerns, cuts]⟩
    simp [inTurn.uncut r kept] at cuts
  inOrder := by simpa using inTurn.inOrder
  oneByOne := by simpa using inTurn.oneByOne
  once := by simpa [finishes_plot (List.subset_cons_self s cs)] using inTurn.once
  alone u c upTo child := by
    have kept : plot s cs f (u ++ [.enters c .begin]) = plot s cs f u ++ [.enters c .begin] := by
      simp [plot, concerns, child]
    have alone := inTurn.alone (plot s cs f u) c (kept ▸ upTo.filter _) child
    simpa using alone
  starts := by simpa using inTurn.starts
  lasts := (finishes_own_plot log).symm.trans inTurn.lasts

theorem split_of_plot {log body tail : List Note} {n : Note}
    (split : plot s cs f log = body ++ n :: tail) :
    ∃ body' tail', log = body' ++ n :: tail' ∧ plot s cs f body' = body ∧
      plot s cs f tail' = tail := by
  obtain ⟨early, late, rfl, rfl, rest⟩ := List.filter_eq_append_iff.mp split
  obtain ⟨idle, tail', rfl, none, -, rfl⟩ := List.filter_eq_cons_iff.mp rest
  refine ⟨early ++ idle, tail', by simp, ?_, rfl⟩
  rw [plot_append, show plot s cs f idle = [] from List.filter_eq_nil_iff.mpr none,
    List.append_nil]
  rfl

theorem Follows.of_plot {log : List Note} (follows : Follows s (plot s cs f log) f) :
    Follows s log f := by
  cases f with
  | none => simpa [Follows] using follows
  | some c =>
      obtain ⟨answer, asked, begun⟩ := follows
      rw [wishes_plot] at asked
      exact ⟨answer, asked, fun granted => List.mem_of_mem_filter (begun granted)⟩

theorem Completed.of_plot {run : List Note} (completed : Completed s cs f (plot s cs f run)) :
    Completed s cs f run := by
  generalize plotted : plot s cs f run = log at completed
  obtain ⟨inTurn, all, closed, once, follows, others⟩ := completed
  obtain ⟨body, tail, rfl, rfl, rfl⟩ := split_of_plot plotted
  rw [begun_plot] at all others
  rw [ended_plot] at closed
  rw [finishes_own_plot] at once
  exact ⟨inTurn.of_plot, all, closed, once, follows.of_plot, others⟩

theorem CutShort.of_plot {run : List Note} (cut : CutShort s cs (plot s cs f run)) :
    CutShort s cs run := by
  generalize plotted : plot s cs f run = log at cut
  obtain ⟨inTurn, cuts, runs, last, finish, closed, own, stops⟩ := cut
  obtain ⟨body, tail, rfl, rfl, rfl⟩ := split_of_plot plotted
  rw [begun_plot] at runs last
  rw [ended_plot] at runs closed
  rw [finishes_plot (List.subset_cons_self ..)] at finish
  rw [finishes_own_plot] at own
  rw [wishes_plot] at stops
  exact ⟨inTurn.of_plot, cuts, runs, last, finish, closed, own, stops⟩

theorem Sequenced.of_plot {run : List Note} (sequenced : Sequenced s cs (plot s cs f run) f) :
    Sequenced s cs run f :=
  sequenced.imp .of_plot .of_plot

end Plot

/-! ### The parts of a series -/

inductive Stage where
  /-- The series does not run.  At rest its children do not run either. -/
  | off (atRest : Bool)
  /-- So many children have begun; the last of them may still run. -/
  | on (begun : Nat) (plays : Bool)

/-- Nothing begins, and of the children these finish, each once and as interrupted. -/
structure Stills (s : ActionId) (cs now : List ActionId) (log : List Note) : Prop where
  last : ∀ c, .enters c .begin ∉ log
  finish : finishes cs log = now.map (·, true)
  closed : ended cs log = now
  stops : ∀ x ∈ wishes s log, ∃ c ∈ cs, x.1 = .stop c

theorem Stills.append {s : ActionId} {cs now now' : List ActionId} {log log' : List Note}
    (first : Stills s cs now log) (second : Stills s cs now' log') :
    Stills s cs (now ++ now') (log ++ log') where
  last c listed := (List.mem_append.mp listed).elim (first.last c) (second.last c)
  finish := by simp [first.finish, second.finish]
  closed := by simp [first.closed, second.closed]
  stops x wish := by
    rw [wishes_append] at wish
    exact (List.mem_append.mp wish).elim (first.stops x) (second.stops x)

/-- What shows of one thing that happens to a series, as far as it concerns it. -/
inductive Part (s : ActionId) (cs : List ActionId) (f : Option ActionId) :
    Stage → List Note → Stage → Prop
  /-- Asked to end while it does not run. -/
  | idle {atRest : Bool} (r : Request) : Part s cs f (.off atRest) [.asks none r true] (.off atRest)
  /-- The follow-up begins. -/
  | other {stage : Stage} {c : ActionId} (followUp : f = some c) (other : c ∉ cs) :
      Part s cs f stage [.enters c .begin] stage
  /-- The follow-up is one of the children and ends. -/
  | stray {c : ActionId} {interrupted failed : Bool} (child : c ∈ cs) :
      Part s cs f (.off false) (Machine.visit c (.finish interrupted) failed) (.off false)
  | opens {atRest : Bool} : Part s cs f (.off atRest) [.enters s .begin] (.on 0 false)
  | next {k : Nat} {c : ActionId} (next : cs[k]? = some c) :
      Part s cs f (.on k false) [.asks (some s) (.start c false) true, .enters c .begin]
        (.on (k + 1) true)
  | ends {k : Nat} {c : ActionId} {interrupted failed : Bool} (current : cs[k]? = some c) :
      Part s cs f (.on (k + 1) true) (Machine.visit c (.finish interrupted) failed)
        (.on (k + 1) false)
  | closes {tail : List Note} (follows : Follows s tail f) (once : finishes [s] tail = [])
      (others : ∀ c, .enters c .begin ∈ tail → f = some c) :
      Part s cs f (.on cs.length false) (.enters s (.finish false) :: tail) (.off false)
  | cut {k : Nat} {now : Option ActionId} {r : Request} {tail : List Note}
      (cuts : r.cuts s = true) (runs : ∀ c, now = some c → 0 < k ∧ cs[k - 1]? = some c)
      (stills : Stills s cs now.toList tail) (own : finishes [s] tail = [(s, true)]) :
      Part s cs f (.on k now.isSome) (.asks none r true :: tail) (.off true)

/-- Parts one after the other. -/
inductive Parts (s : ActionId) (cs : List ActionId) (f : Option ActionId) (start : Stage) :
    List Note → Stage → Prop
  | nil : Parts s cs f start [] start
  | snoc {log part : List Note} {stage stage' : Stage} (before : Parts s cs f start log stage)
      (last : Part s cs f stage part stage') : Parts s cs f start (log ++ part) stage'

section Parts

variable {s : ActionId} {cs : List ActionId} {f : Option ActionId} {stage stage' stage'' : Stage}
  {log log' run part : List Note}

theorem Part.parts (part' : Part s cs f stage part stage') : Parts s cs f stage part stage' :=
  .snoc .nil part'

theorem Parts.trans (first : Parts s cs f stage log stage')
    (second : Parts s cs f stage' log' stage'') : Parts s cs f stage (log ++ log') stage'' := by
  induction second with
  | nil => rwa [List.append_nil]
  | snoc before last ih => exact List.append_assoc .. ▸ .snoc ih last

/-! ### What a log of parts says -/

theorem InTurn.nil : InTurn s cs [] where
  uncut r asked := by cases asked
  inOrder := List.nil_prefix
  oneByOne := List.nil_prefix
  once := rfl
  alone u c upTo _ := by simp at upTo
  starts := rfl
  lasts := rfl

theorem Alone.snoc {n : Note} (alone : Alone cs log)
    (begins : begun cs [n] ≠ [] → ended cs log = begun cs log) : Alone cs (log ++ [n]) := by
  intro u c upTo child
  rcases List.prefix_concat_iff.mp upTo with whole | before
  · obtain ⟨rfl, same⟩ := List.append_inj' whole rfl
    rw [← same] at begins
    exact begins (by simp [begun, child])
  · exact alone u c before child

theorem Alone.append (alone : Alone cs log) (begins : begun cs part = []) :
    Alone cs (log ++ part) := by
  induction part generalizing log with
  | nil => rwa [List.append_nil]
  | cons n part ih =>
      rw [← List.singleton_append, begun_append, List.append_eq_nil_iff] at begins
      rw [List.append_cons]
      exact ih (alone.snoc fun some => absurd begins.1 some) begins.2

theorem InTurn.next {k : Nat} {c : ActionId} (inTurn : InTurn s cs log)
    (upTo : begun cs log = cs.take k) (closed : ended cs log = cs.take k) (next : cs[k]? = some c)
    (start : part = [.asks (some s) (.start c false) true, .enters c .begin]) :
    InTurn s cs (log ++ part) ∧ begun cs (log ++ part) = cs.take (k + 1) ∧
      ended cs (log ++ part) = cs.take k := by
  subst start
  have child : c ∈ cs := List.mem_of_getElem? next
  have begins : begun cs [.asks (some s) (.start c false) true, .enters c .begin] = [c] := by
    simp [begun, child]
  have taken : begun cs (log ++ [.asks (some s) (.start c false) true, .enters c .begin]) =
      cs.take (k + 1) := by
    rw [begun_append, begins, upTo, List.take_add_one, next]
    rfl
  have still : ended cs (log ++ [.asks (some s) (.start c false) true, .enters c .begin]) =
      cs.take k := by
    rw [ended_append, closed]
    exact List.append_nil _
  refine ⟨⟨fun r asked => ?_, ?_, ?_, ?_, ?_, ?_, ?_⟩, taken, still⟩
  · exact inTurn.uncut r (by simpa using asked)
  · rw [taken]
    exact List.take_prefix ..
  · rw [taken, still]
    exact List.take_prefix_take_left (Nat.le_succ k)
  · rw [still, finishes_append, List.map_append, inTurn.once, closed]
    exact List.append_nil _
  · have asked : Alone cs (log ++ [.asks (some s) (.start c false) true]) :=
      inTurn.alone.append rfl
    rw [List.append_cons]
    refine asked.snoc fun _ => ?_
    rw [ended_append, begun_append, upTo, closed]
    rfl
  · rw [wishes_append, begun_append, begins, List.map_append, inTurn.starts]
    simp [wishes]
  · rw [finishes_append, inTurn.lasts]
    rfl

theorem InTurn.append (inTurn : InTurn s cs log) (begins : begun cs part = [])
    (asks : wishes s part = []) (lasts : finishes [s] part = [])
    (once : (finishes cs part).map (·.1) = ended cs part) (uncut : Uncut s part)
    (closed : ended cs log ++ ended cs part <+: begun cs log) : InTurn s cs (log ++ part) where
  uncut r asked := (List.mem_append.mp asked).elim (inTurn.uncut r) (uncut r)
  inOrder := by simpa [begins] using inTurn.inOrder
  oneByOne := by simpa [begins] using closed
  once := by simp [inTurn.once, once]
  alone := inTurn.alone.append begins
  starts := by simpa [begins, asks] using inTurn.starts
  lasts := by simp [inTurn.lasts, lasts]

theorem Completed.append (completed : Completed s cs f log) (asks : wishes s part = [])
    (lasts : finishes [s] part = []) (others : ∀ c ∈ begun cs part, f = some c) :
    Completed s cs f (log ++ part) := by
  obtain @⟨body, tail, inTurn, all, closed, once, follows, others'⟩ := completed
  rw [List.append_assoc, List.cons_append]
  refine ⟨inTurn, all, closed, by simp [once, lasts], ?_, fun c begins => ?_⟩
  · cases f with
    | none => simpa [Follows, asks] using follows
    | some c =>
        obtain ⟨answer, asked, begun⟩ := follows
        exact ⟨answer, by simp [asked, asks], fun granted =>
          List.mem_append_left _ (begun granted)⟩
  · rw [begun_append] at begins
    exact (List.mem_append.mp begins).elim (others' c) (others c)

theorem CutShort.append (cut : CutShort s cs log) (begins : begun cs part = [])
    (finish : finishes cs part = []) (closed : ended cs part = []) (own : finishes [s] part = [])
    (asks : wishes s part = []) : CutShort s cs (log ++ part) := by
  obtain ⟨inTurn, cuts, runs, last, finish', closed', own', stops⟩ := cut
  rw [List.append_assoc, List.cons_append]
  exact ⟨inTurn, cuts, runs, by simp [last, begins], by simp [finish', finish],
    by simp [closed', closed], by simp [own', own], by simpa [asks] using stops⟩

/-- What is known of the run under way. -/
def Told (s : ActionId) (cs : List ActionId) (f : Option ActionId) (run : List Note) :
    Stage → Prop
  | .off atRest => Completed s cs f run ∨ atRest = true ∧ CutShort s cs run
  | .on k plays => InTurn s cs run ∧ begun cs run = cs.take k ∧
      ended cs run = cs.take (if plays then k - 1 else k)

theorem Told.sequenced {atRest : Bool} (told : Told s cs f run (.off atRest)) :
    Sequenced s cs run f := told.imp_right And.right

theorem Told.of_plot (told : Told s cs f (plot s cs f run) stage) : Told s cs f run stage := by
  cases stage with
  | off atRest => exact told.imp .of_plot fun cut => ⟨cut.1, cut.2.of_plot⟩
  | on k plays =>
      obtain ⟨inTurn, upTo, closed⟩ := told
      exact ⟨inTurn.of_plot, by simpa using upTo, by simpa using closed⟩

theorem finishes_visit_other {c : ActionId} {interrupted failed : Bool} (child : c ∈ cs)
    (own : s ∉ cs) : finishes [s] (Machine.visit c (.finish interrupted) failed) = [] := by
  have other : c ≠ s := fun same => own (same ▸ child)
  simp [finishes, Machine.visit, other]

theorem ended_visit {c : ActionId} {interrupted failed : Bool} (child : c ∈ cs) :
    ended cs (Machine.visit c (.finish interrupted) failed) = [c] := by
  simp [ended, Machine.visit, child]

theorem mem_of_begun {c : ActionId} (begins : c ∈ begun cs log) : .enters c .begin ∈ log := by
  obtain ⟨n, listed, view⟩ := List.mem_filterMap.mp begins
  split at view
  · split at view
    · cases view
      exact listed
    · cases view
  · cases view

theorem begun_eq_nil (none : ∀ c, .enters c .begin ∉ log) : begun cs log = [] :=
  List.eq_nil_iff_forall_not_mem.mpr fun c begins => none c (mem_of_begun begins)

/-- The children that have begun are those that have finished and the one that plays. -/
theorem take_now {k : Nat} {now : Option ActionId}
    (plays : ∀ c, now = some c → 0 < k ∧ cs[k - 1]? = some c) :
    cs.take k = cs.take (if now.isSome then k - 1 else k) ++ now.toList := by
  cases now with
  | none => simp
  | some c =>
      obtain ⟨positive, current⟩ := plays c rfl
      obtain ⟨k, rfl⟩ := Nat.exists_eq_succ_of_ne_zero positive.ne'
      rw [Nat.succ_eq_add_one, Nat.add_sub_cancel] at current
      simp [List.take_add_one, current]

theorem Told.step (told : Told s cs f run stage) (part' : Part s cs f stage part stage')
    (own : s ∉ cs) (same : .enters s .begin ∉ part) : Told s cs f (run ++ part) stage' := by
  cases part' with
  | idle r =>
      rcases told with completed | ⟨rest, cut⟩
      · exact .inl (completed.append rfl rfl fun c none => by cases none)
      · exact .inr ⟨rest, cut.append rfl rfl rfl rfl rfl⟩
  | @other stage c followUp other =>
      have begins : begun cs [.enters c .begin] = [] := by simp [begun, other]
      cases stage with
      | off atRest =>
          rcases told with completed | ⟨rest, cut⟩
          · exact .inl (completed.append rfl rfl fun d later => by
              rw [begins] at later
              cases later)
          · exact .inr ⟨rest, cut.append begins rfl rfl rfl rfl⟩
      | on k plays =>
          obtain ⟨inTurn, upTo, closed⟩ := told
          have none : ended cs [.enters c .begin] = [] := rfl
          have uncut : Uncut s [.enters c .begin] := fun r asked => by simp at asked
          exact ⟨inTurn.append begins rfl rfl rfl uncut (by simpa [none] using inTurn.oneByOne),
            by simp [begins, upTo], by simp [none, closed]⟩
  | stray child =>
      rcases told with completed | ⟨rest, -⟩
      · exact .inl (completed.append rfl (finishes_visit_other child own) fun c none => by
          cases none)
      · cases rest
  | opens => exact absurd List.mem_cons_self same
  | next next =>
      obtain ⟨inTurn, upTo, closed⟩ := told
      exact inTurn.next upTo closed next rfl
  | @ends k c interrupted failed current =>
      obtain ⟨inTurn, upTo, closed⟩ := told
      have child : c ∈ cs := List.mem_of_getElem? current
      have begins : begun cs (Machine.visit c (.finish interrupted) failed) = [] := rfl
      have whole : ended cs run ++ ended cs (Machine.visit c (.finish interrupted) failed) =
          cs.take (k + 1) := by
        rw [closed, ended_visit child, List.take_add_one, current]
        rfl
      have once : (finishes cs (Machine.visit c (.finish interrupted) failed)).map (·.1) =
          ended cs (Machine.visit c (.finish interrupted) failed) := by
        simp [finishes, ended, Machine.visit, child]
      have uncut : Uncut s (Machine.visit c (.finish interrupted) failed) := fun r asked => by
        simp [Machine.visit] at asked
      have inTurn' := inTurn.append begins rfl (finishes_visit_other child own) once uncut
        (whole ▸ upTo ▸ List.prefix_refl _)
      exact ⟨inTurn', by simp [begins, upTo], (ended_append ..).trans whole⟩
  | closes follows once others =>
      obtain ⟨inTurn, upTo, closed⟩ := told
      rw [List.take_length] at upTo
      exact .inl ⟨inTurn, upTo, by simpa using closed, once, follows,
        fun c begins => others c (mem_of_begun begins)⟩
  | @cut k now r tail cuts runs stills own =>
      obtain ⟨inTurn, upTo, closed⟩ := told
      refine .inr ⟨rfl, inTurn, cuts, ?_, begun_eq_nil stills.last, stills.finish, stills.closed,
        own, stills.stops⟩
      rw [upTo, closed, take_now runs]

/-- What a log of parts says: all its runs but the last are over, and how the last one stands. -/
inductive Chronicle (s : ActionId) (cs : List ActionId) (f : Option ActionId) :
    List Note → Stage → Prop
  | never {log : List Note} {atRest : Bool} (none : .enters s .begin ∉ log) :
      Chronicle s cs f log (.off atRest)
  | last {before run : List Note} {stage : Stage}
      (past : ∀ run ∈ runs s before, Sequenced s cs run f)
      (within : .enters s .begin ∉ run) (told : Told s cs f run stage) :
      Chronicle s cs f (before ++ .enters s .begin :: run) stage

namespace Chronicle

theorem past (chronicle : Chronicle s cs f log stage) :
    ∀ run ∈ (runs s log).dropLast, Sequenced s cs run f := by
  cases chronicle with
  | never none =>
      rw [runs_of_not_mem none]
      exact fun _ member => by cases member
  | @last before run _ past within told =>
      rw [runs_append before within, List.dropLast_concat]
      exact past

theorem stands (chronicle : Chronicle s cs f log stage) :
    ∀ run ∈ runs s log, InTurn s cs run ∨ Sequenced s cs run f := by
  cases chronicle with
  | never none =>
      rw [runs_of_not_mem none]
      exact fun _ member => by cases member
  | @last before last _ past within told =>
      rw [runs_append before within]
      refine List.forall_mem_append.mpr ⟨fun run member => .inr (past run member), ?_⟩
      refine List.forall_mem_singleton.mpr ?_
      cases stage with
      | off atRest => exact .inr told.sequenced
      | on k plays => exact .inl told.1

theorem sequenced {atRest : Bool} (chronicle : Chronicle s cs f log (.off atRest)) :
    ∀ run ∈ runs s log, Sequenced s cs run f := by
  cases chronicle with
  | never none =>
      rw [runs_of_not_mem none]
      exact fun _ member => by cases member
  | @last before last _ past within told =>
      rw [runs_append before within]
      exact List.forall_mem_append.mpr ⟨past, List.forall_mem_singleton.mpr told.sequenced⟩

theorem of_plot (chronicle : Chronicle s cs f (plot s cs f log) stage) :
    Chronicle s cs f log stage := by
  have kept : ∀ {part : List Note}, .enters s .begin ∉ plot s cs f part →
      .enters s .begin ∉ part := fun none listed =>
    none (List.mem_filter.mpr ⟨listed, by simp [concerns]⟩)
  generalize plotted : plot s cs f log = log' at chronicle
  cases chronicle with
  | never none =>
      subst plotted
      exact .never (kept none)
  | last past within told =>
      obtain ⟨before, run, rfl, rfl, rfl⟩ := split_of_plot plotted
      refine .last (fun run' member => .of_plot (past _ ?_)) (kept within) told.of_plot
      rw [plot, runs_filter _ (by simp [concerns])]
      exact List.mem_map_of_mem member

theorem goOn (chronicle : Chronicle s cs f log stage)
    (part' : Part s cs f stage part stage') (own : s ∉ cs) (same : .enters s .begin ∉ part) :
    Chronicle s cs f (log ++ part) stage' := by
  cases chronicle with
  | never none =>
      have none' : .enters s .begin ∉ log ++ part := by simp [none, same]
      cases part' with
      | opens => exact absurd List.mem_cons_self same
      | _ => exact .never none'
  | last past within told =>
      rw [List.append_assoc, List.cons_append]
      exact .last past (by simp [within, same]) (told.step part' own same)

end Chronicle

theorem Parts.chronicle {atRest : Bool} (parts : Parts s cs f (.off atRest) log stage)
    (own : s ∉ cs) (elsewhere : f ≠ some s) : Chronicle s cs f log stage := by
  induction parts with
  | nil => exact .never List.not_mem_nil
  | @snoc log part stage stage' before last ih =>
      cases last with
      | opens =>
          -- A run opens only where no other is under way, so all before it are over.
          refine .last ih.sequenced List.not_mem_nil ⟨.nil, ?_, ?_⟩ <;> simp [begun, ended]
      | next next =>
          have other : s ≠ _ := fun same => own (same ▸ List.mem_of_getElem? next)
          exact ih.goOn (.next next) own (by simp [other])
      | closes follows once others =>
          refine ih.goOn (.closes follows once others) own fun listed => ?_
          rcases List.mem_cons.mp listed with now | later
          · cases now
          · exact elsewhere (others s later)
      | cut cuts runs stills own' =>
          refine ih.goOn (.cut cuts runs stills own') own fun listed => ?_
          rcases List.mem_cons.mp listed with now | later
          · cases now
          · exact stills.last s later
      | other followUp other =>
          refine ih.goOn (.other followUp other) own fun listed => ?_
          cases List.mem_singleton.mp listed
          exact elsewhere followUp
      | idle r => exact ih.goOn (.idle r) own (by simp)
      | stray child => exact ih.goOn (.stray child) own (by simp [Machine.visit])
      | ends current => exact ih.goOn (.ends current) own (by simp [Machine.visit])

theorem Parts.tells {atRest : Bool} (parts : Parts s cs f (.off atRest) (plot s cs f log) stage)
    (own : s ∉ cs) (elsewhere : f ≠ some s) : Chronicle s cs f log stage :=
  .of_plot (parts.chronicle own elsewhere)

theorem finishes_of_mem {a : ActionId} {interrupted : Bool}
    (listed : .enters a (.finish interrupted) ∈ log) : finishes [a] log ≠ [] := fun none => by
  have first := List.filterMap_eq_nil_iff.mp none _ listed
  simp at first

/-- A run that is under way when its end is granted from outside is cut short there. -/
theorem cutShort_of_cuts {body : List Note} {r : Request} (cuts : r.cuts s = true)
    (lasts : finishes [s] body = [])
    (stands : InTurn s cs (body ++ .asks none r true :: part) ∨
      Sequenced s cs (body ++ .asks none r true :: part) f) :
    CutShort s cs (body ++ .asks none r true :: part) := by
  rcases stands with inTurn | completed | cut
  · simp [inTurn.uncut r (by simp)] at cuts
  · generalize whole : body ++ .asks none r true :: part = log at completed
    obtain @⟨body', tail, inTurn, all, closed, once, follows, others⟩ := completed
    -- The end comes after the request, which then stands in the part where nothing is cut.
    rcases List.append_eq_append_iff.mp whole with ⟨more, rfl, rest⟩ | ⟨more, rfl, rest⟩
    · cases more with
      | nil => cases rest
      | cons n more =>
          obtain ⟨rfl, -⟩ := List.cons_eq_cons.mp rest
          simp [inTurn.uncut r (by simp)] at cuts
    · cases more with
      | nil => cases rest
      | cons n more =>
          obtain ⟨rfl, -⟩ := List.cons_eq_cons.mp rest
          exact absurd lasts
            (finishes_of_mem (List.mem_append_right body' List.mem_cons_self))
  · exact cut

end Parts

end Series

end RobotControl
