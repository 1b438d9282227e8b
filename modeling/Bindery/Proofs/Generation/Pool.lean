import Bindery.Generation.Pool
import Mathlib.Algebra.GroupWithZero.Nat
import Mathlib.Data.List.Nodup

/-!
Workers that share a counter. One invariant carries everything: a number that was given out is with
one worker or was stored to once. Every move keeps it and brings the end nearer by one, so all runs
have the same length, and each ends with the outcomes that a single worker finds.
-/

set_option autoImplicit false

namespace Bindery

namespace Worker

variable {β : Type}

def held : Worker β → List Nat
  | claimed index => [index]
  | computed index _ => [index]
  | idle | stopped => []

/-- The moves ahead of a worker up to its next look at the counter. -/
def pending : Worker β → Nat
  | idle => 1
  | claimed _ => 3
  | computed _ _ => 2
  | stopped => 0

theorem pending_eq_zero_iff {w : Worker β} : w.pending = 0 ↔ w.isStopped = true := by
  cases w <;> simp [pending, isStopped]

end Worker

namespace Pool

variable {α β : Type}

def held (p : Pool β) : List Nat := p.workers.flatMap Worker.held

def remaining (items : List α) (p : Pool β) : Nat :=
  3 * (items.length - p.next) + (p.workers.map Worker.pending).sum

/-- What a move changes. The worker that makes it stands between `before` and `after`. -/
inductive Move (process : α → β) (items : List α) : Pool β → Pool β → Prop where
  | claim {next : Nat} {before after : List (Worker β)} {slots : List β} {stores : List Nat}
    (hnext : next < items.length) :
    Move process items ⟨next, before ++ .idle :: after, slots, stores⟩
      ⟨next + 1, before ++ .claimed next :: after, slots, stores⟩
  | stop {next : Nat} {before after : List (Worker β)} {slots : List β} {stores : List Nat}
    (hnext : items.length ≤ next) :
    Move process items ⟨next, before ++ .idle :: after, slots, stores⟩
      ⟨next + 1, before ++ .stopped :: after, slots, stores⟩
  | compute {next index : Nat} {item : α} {before after : List (Worker β)} {slots : List β}
    {stores : List Nat} (hitem : items[index]? = some item) :
    Move process items ⟨next, before ++ .claimed index :: after, slots, stores⟩
      ⟨next, before ++ .computed index (process item) :: after, slots, stores⟩
  | store {next index : Nat} {value : β} {before after : List (Worker β)} {slots : List β}
    {stores : List Nat} :
    Move process items ⟨next, before ++ .computed index value :: after, slots, stores⟩
      ⟨next, before ++ .idle :: after, slots.set index value, index :: stores⟩

section
variable {process : α → β} {items : List α}

theorem split_workers {p : Pool β} {w : Nat} {worker : Worker β}
    (h : p.workers[w]? = some worker) :
    ∃ before after, p.workers = before ++ worker :: after ∧
      ∀ moved, p.workers.set w moved = before ++ moved :: after := by
  obtain ⟨hw, rfl⟩ := List.getElem?_eq_some_iff.mp h
  refine ⟨p.workers.take w, p.workers.drop (w + 1), ?_, fun moved => ?_⟩
  · rw [List.getElem_cons_drop, List.take_append_drop]
  · rw [List.set_eq_take_append_cons_drop, if_pos hw]

theorem move_of_step? {p p' : Pool β} {w : Nat} (h : p.step? process items w = some p') :
    Move process items p p' := by
  obtain ⟨next, workers, slots, stores⟩ := p
  unfold step? at h
  cases hw : workers[w]? with
  | none => simp only [hw, reduceCtorEq] at h
  | some worker =>
    obtain ⟨before, after, hworkers, hset⟩ :=
      split_workers (p := ⟨next, workers, slots, stores⟩) hw
    dsimp only at hworkers hset
    cases worker with
    | idle =>
      simp only [hw, hset, Option.some.injEq] at h
      subst h hworkers
      split_ifs with hnext
      · exact .claim hnext
      · exact .stop (Nat.not_lt.mp hnext)
    | claimed index =>
      simp only [hw, hset, Option.map_eq_some_iff] at h
      obtain ⟨item, hitem, rfl⟩ := h
      subst hworkers
      exact .compute hitem
    | computed index value =>
      simp only [hw, hset, Option.some.injEq] at h
      subst h hworkers
      exact .store
    | stopped => simp only [hw, reduceCtorEq] at h

theorem held_perm (next : Nat) (before after : List (Worker β)) (worker : Worker β)
    (slots : List β) (stores : List Nat) :
    (held ⟨next, before ++ worker :: after, slots, stores⟩).Perm
      (worker.held ++ (before ++ after).flatMap Worker.held) :=
  List.perm_middle.flatMap_right Worker.held

structure Invariant (process : α → β) (items : List α) (n : Nat) (p : Pool β) : Prop where
  workers : p.workers.length = n
  slots : p.slots.length = items.length
  /-- A number that was given out is with one worker, or was stored to once. -/
  numbers : (p.held ++ p.stores).Perm (List.range (min p.next items.length))
  /-- A worker stops where it gets a number too many. -/
  stopped : p.workers.countP Worker.isStopped = p.next - items.length
  computed : ∀ index value, .computed index value ∈ p.workers →
    items[index]?.map process = some value
  stored : ∀ index ∈ p.stores, p.slots[index]? = items[index]?.map process

theorem invariant_start (n : Nat) {slots : List β} (hslots : slots.length = items.length) :
    Invariant process items n (start n slots) where
  workers := List.length_replicate
  slots := hslots
  numbers := by simp [start, held, Worker.held, List.flatMap_replicate]
  stopped := by simp [start, List.countP_replicate, Worker.isStopped]
  computed := by simp [start]
  stored := by simp [start]

theorem remaining_start (n : Nat) (slots : List β) :
    remaining items (start n slots) = 3 * items.length + n := by
  simp [remaining, start, Worker.pending]

variable {n : Nat} {p p' : Pool β}

theorem Move.invariant (hmove : Move process items p p') (h : Invariant process items n p) :
    Invariant process items n p' := by
  obtain ⟨hworkers, hslots, hnumbers, hstopped, hcomputed, hstored⟩ := h
  cases hmove with
  | @claim next before after slots stores hnext =>
    refine ⟨by simpa using hworkers, hslots, ?_, ?_, by simpa using hcomputed, hstored⟩
    · have hrange : List.range (min (next + 1) items.length) =
          List.range (min next items.length) ++ [next] := by
        rw [Nat.min_eq_left hnext, Nat.min_eq_left (Nat.le_of_lt hnext), List.range_succ]
      rw [hrange]
      have hbefore := (held_perm next before after .idle slots stores).append_right stores
      have hafter :=
        (held_perm (next + 1) before after (.claimed next) slots stores).append_right stores
      exact hafter.trans (((hbefore.symm.trans hnumbers).cons next).trans
        (List.perm_append_singleton _ _).symm)
    · simp [Worker.isStopped] at hstopped ⊢
      omega
  | @stop next before after slots stores hnext =>
    refine ⟨by simpa using hworkers, hslots, ?_, ?_, by simpa using hcomputed, hstored⟩
    · have hmin : min (next + 1) items.length = min next items.length := by omega
      rw [hmin]
      simpa [held, Worker.held] using hnumbers
    · simp [Worker.isStopped, List.countP_cons] at hstopped ⊢
      omega
  | @compute next index item before after slots stores hitem =>
    refine ⟨by simpa using hworkers, hslots, ?_, ?_, ?_, hstored⟩
    · simpa [held, Worker.held] using hnumbers
    · simpa [Worker.isStopped] using hstopped
    · intro i value hmem
      rw [List.mem_append, List.mem_cons, Worker.computed.injEq] at hmem
      rcases hmem with hmem | ⟨rfl, rfl⟩ | hmem
      · exact hcomputed i value (List.mem_append_left _ hmem)
      · rw [hitem, Option.map_some]
      · exact hcomputed i value (List.mem_append_right _ (List.mem_cons_of_mem _ hmem))
  | @store next index value before after slots stores =>
    have hvalue : items[index]?.map process = some value := hcomputed index value (by simp)
    refine ⟨by simpa using hworkers, by simpa using hslots, ?_, ?_, ?_, ?_⟩
    · have hbefore :=
        (held_perm next before after (.computed index value) slots stores).append_right stores
      have hafter := (held_perm next before after .idle slots stores).append_right (index :: stores)
      exact hafter.trans (List.perm_middle.trans (hbefore.symm.trans hnumbers))
    · simpa [Worker.isStopped] using hstopped
    · intro i v hmem
      apply hcomputed i v
      simp only [List.mem_append, List.mem_cons, reduceCtorEq, false_or] at hmem ⊢
      exact hmem.imp_right .inr
    · intro i hi
      have hindex : index < slots.length := by
        obtain ⟨item, hitem, -⟩ := Option.map_eq_some_iff.mp hvalue
        rw [hslots]
        exact (List.getElem?_eq_some_iff.mp hitem).1
      by_cases heq : i = index
      · rw [heq, List.getElem?_set_self hindex, hvalue]
      · rw [List.getElem?_set_ne (Ne.symm heq)]
        exact hstored i ((List.mem_cons.mp hi).resolve_left heq)

theorem Move.remaining_succ (hmove : Move process items p p') :
    remaining items p' + 1 = remaining items p := by
  cases hmove <;> simp [remaining, Worker.pending] <;> omega

theorem run_cons (p : Pool β) (w : Nat) (schedule : List Nat) :
    p.run process items (w :: schedule) =
      (p.step? process items w).bind fun p => p.run process items schedule := rfl

theorem run_invariant {schedule : List Nat} (h : Invariant process items n p)
    (hrun : p.run process items schedule = some p') :
    Invariant process items n p' ∧ schedule.length + remaining items p' = remaining items p := by
  induction schedule generalizing p with
  | nil =>
    cases hrun
    exact ⟨h, Nat.zero_add _⟩
  | cons w schedule ih =>
    rw [run_cons, Option.bind_eq_some_iff] at hrun
    obtain ⟨q, hstep, hrun⟩ := hrun
    have hmove := move_of_step? hstep
    obtain ⟨hinvariant, hlength⟩ := ih (hmove.invariant h) hrun
    refine ⟨hinvariant, ?_⟩
    have hremaining := hmove.remaining_succ
    rw [List.length_cons]
    omega

theorem Invariant.exists_step? (h : Invariant process items n p) {w : Nat} {worker : Worker β}
    (hw : p.workers[w]? = some worker) (hworker : worker ≠ .stopped) :
    ∃ p', p.step? process items w = some p' := by
  unfold step?
  rw [hw]
  cases worker with
  | idle => exact ⟨_, rfl⟩
  | claimed index =>
    have hheld : index ∈ p.held := by
      rw [held, List.mem_flatMap]
      exact ⟨_, List.mem_of_getElem? hw, List.mem_singleton_self index⟩
    have hindex : index < items.length := by
      have hrange := h.numbers.mem_iff.mp (List.mem_append_left _ hheld)
      rw [List.mem_range] at hrange
      omega
    obtain ⟨item, hitem⟩ : ∃ item, items[index]? = some item := ⟨_, List.getElem?_eq_getElem hindex⟩
    exact ⟨_, congrArg (Option.map _) hitem⟩
  | computed index value => exact ⟨_, rfl⟩
  | stopped => exact absurd rfl hworker

theorem sum_pending_eq_zero_iff {workers : List (Worker β)} :
    (workers.map Worker.pending).sum = 0 ↔ workers.all Worker.isStopped = true := by
  induction workers with
  | nil => simp
  | cons w workers ih =>
    rw [List.map_cons, List.sum_cons, Nat.add_eq_zero_iff, ih, Worker.pending_eq_zero_iff,
      List.all_cons, Bool.and_eq_true]

theorem Invariant.next_le (h : Invariant process items n p) : p.next ≤ items.length + n := by
  have hcount : p.workers.countP Worker.isStopped ≤ p.workers.length := List.countP_le_length
  rw [h.stopped, h.workers] at hcount
  omega

theorem Invariant.length_le_next (h : Invariant process items n p) (hn : 1 ≤ n)
    (hfinished : p.finished = true) : items.length ≤ p.next := by
  have hcount : p.workers.countP Worker.isStopped = p.workers.length :=
    List.countP_eq_length.mpr fun w hw => List.all_eq_true.mp hfinished w hw
  rw [h.stopped, h.workers] at hcount
  omega

theorem Invariant.finished_iff (h : Invariant process items n p) (hn : 1 ≤ n) :
    p.finished = true ↔ remaining items p = 0 := by
  rw [remaining, Nat.add_eq_zero_iff, sum_pending_eq_zero_iff]
  constructor
  · intro hfinished
    have hnext := h.length_le_next hn hfinished
    exact ⟨by omega, hfinished⟩
  · exact fun hremaining => hremaining.2

theorem held_of_finished (h : p.finished = true) : p.held = [] := by
  rw [held, List.flatMap_eq_nil_iff]
  intro w hw
  have hstopped := List.all_eq_true.mp h w hw
  cases w with
  | stopped => rfl
  | _ => cases hstopped

/-- When all have stopped, every slot was stored to once. -/
theorem Invariant.stores_perm (h : Invariant process items n p) (hn : 1 ≤ n)
    (hfinished : p.finished = true) : p.stores.Perm (List.range items.length) := by
  have hnumbers := h.numbers
  rw [held_of_finished hfinished, Nat.min_eq_right (h.length_le_next hn hfinished)] at hnumbers
  exact hnumbers

theorem Invariant.slots_eq (h : Invariant process items n p) (hn : 1 ≤ n)
    (hfinished : p.finished = true) : p.slots = items.map process := by
  apply List.ext_getElem?
  intro i
  rw [List.getElem?_map]
  by_cases hi : i < items.length
  · exact h.stored i ((h.stores_perm hn hfinished).mem_iff.mpr (List.mem_range.mpr hi))
  · rw [List.getElem?_eq_none (by rw [h.slots]; omega), List.getElem?_eq_none (by omega)]
    rfl

theorem exists_running (h : p.finished = false) :
    ∃ (w : Nat) (worker : Worker β), p.workers[w]? = some worker ∧ worker ≠ .stopped := by
  obtain ⟨worker, hmem, hworker⟩ := List.all_eq_false.mp h
  obtain ⟨w, hw⟩ := List.getElem?_of_mem hmem
  refine ⟨w, worker, hw, ?_⟩
  intro hstopped
  rw [hstopped] at hworker
  exact hworker rfl

theorem Invariant.exists_run (h : Invariant process items n p) :
    ∃ schedule p', p.run process items schedule = some p' ∧ p'.finished = true := by
  induction hremaining : remaining items p using Nat.strongRecOn generalizing p with
  | ind k ih =>
    cases hfinished : p.finished with
    | true => exact ⟨[], p, rfl, hfinished⟩
    | false =>
      obtain ⟨w, worker, hw, hworker⟩ := exists_running hfinished
      obtain ⟨q, hstep⟩ := h.exists_step? hw hworker
      have hmove := move_of_step? hstep
      have hsucc := hmove.remaining_succ
      obtain ⟨schedule, p', hrun, hfinished'⟩ :=
        ih (remaining items q) (by omega) (hmove.invariant h) rfl
      refine ⟨w :: schedule, p', ?_, hfinished'⟩
      rw [run_cons, hstep]
      exact hrun

/-- What can be said after the moves of any schedule of `n` workers. -/
structure Accounts (process : α → β) (items : List α) (n : Nat) (schedule : List Nat)
    (p : Pool β) : Prop where
  /-- Each worker takes one number too many, so the counter is bounded. -/
  counter : p.next ≤ items.length + n
  moves : ∀ (w : Nat) (worker : Worker β), p.workers[w]? = some worker → worker ≠ .stopped →
    ∃ p', p.step? process items w = some p'
  length : p.finished = true ↔ schedule.length = 3 * items.length + n
  stored : p.finished = true → ∀ i, i < items.length → p.stores.count i = 1
  holds : p.finished = true → ∀ (i : Nat) (item : α), items[i]? = some item →
    p.slots[i]? = some (process item)

theorem Invariant.accounts {schedule : List Nat} (h : Invariant process items n p) (hn : 1 ≤ n)
    (hremaining : remaining items p = 3 * items.length + n)
    (hrun : p.run process items schedule = some p') : p'.Accounts process items n schedule := by
  obtain ⟨hinvariant, hlength⟩ := run_invariant h hrun
  refine ⟨hinvariant.next_le, fun w worker => hinvariant.exists_step?, ?_, ?_, ?_⟩
  · rw [hinvariant.finished_iff hn]
    omega
  · intro hfinished i hi
    rw [(hinvariant.stores_perm hn hfinished).count_eq]
    exact List.count_eq_one_of_mem List.nodup_range (List.mem_range.mpr hi)
  · intro hfinished i item hitem
    rw [hinvariant.slots_eq hn hfinished, List.getElem?_map, hitem, Option.map_some]

end

end Pool

def Options.withJobs (o : Options) (jobs : Int) : Options := { o with jobs }

def Context.withJobs (c : Context) (jobs : Int) : Context :=
  { c with options := c.options.withJobs jobs }

section
variable (c : Context) (jobs : Int) (t : TypeDef)

theorem planFields_withJobs (seen : List Text) (fields : List Field) :
    planFields (c.withJobs jobs) t seen fields = planFields c t seen fields := by
  induction fields generalizing seen with
  | nil => rfl
  | cons f fs ih =>
    simp only [planFields, ih]
    rfl

theorem draftType_withJobs : draftType (c.withJobs jobs) t = draftType c t := by
  simp only [draftType, planDefinition, planRecord, planFields_withJobs]
  rfl

theorem processType_withJobs : processType (c.withJobs jobs) t = processType c t := by
  rw [processType, processType, draftType_withJobs]
  rfl

end

section
variable (r : Registry) (target : Target) (o : Options)

theorem generate_withJobs (jobs : Int) :
    generate r target (o.withJobs jobs) = generate r target o := by
  have hproblem : (o.withJobs jobs).problem? target = o.problem? target := by cases target <;> rfl
  have hprocessed : ∀ enabled, processAll r target (o.withJobs jobs) enabled =
      processAll r target o enabled := fun enabled =>
    List.map_congr_left fun t _ => processType_withJobs (contextOf r target o enabled) jobs t
  simp only [generate, hproblem, hprocessed]
  rfl

variable (hardware : UInt32) (enabled : List TypeId)

theorem processPooled_eq {schedule : List Nat} {outcomes : List TypeOutcome}
    (h : processPooled hardware schedule r target o enabled = some outcomes) :
    outcomes = processAll r target o enabled := by
  unfold processPooled at h
  dsimp only at h
  split_ifs at h with hwidth
  · exact (Option.some.inj h).symm
  · rw [Option.bind_eq_bind, Option.bind_eq_some_iff] at h
    obtain ⟨p, hrun, h⟩ := h
    split_ifs at h with hfinished
    obtain ⟨hinvariant, -⟩ := Pool.run_invariant
      (Pool.invariant_start _ (List.length_map _)) hrun
    rw [← Option.some.inj h]
    exact hinvariant.slots_eq (by omega) hfinished

theorem exists_processPooled :
    ∃ schedule, processPooled hardware schedule r target o enabled =
      some (processAll r target o enabled) := by
  by_cases hwidth : Pool.width hardware o.jobs (enabledTypes r enabled).length ≤ 1
  · exact ⟨[], by rw [processPooled]; exact if_pos hwidth⟩
  · have hstart : Pool.Invariant (processType (contextOf r target o enabled))
        (enabledTypes r enabled)
        (Pool.width hardware o.jobs (enabledTypes r enabled).length).toNat
        (Pool.start _ ((enabledTypes r enabled).map TypeOutcome.blank)) :=
      Pool.invariant_start _ (List.length_map _)
    obtain ⟨schedule, p, hrun, hfinished⟩ := hstart.exists_run
    have hpooled : processPooled hardware schedule r target o enabled = some p.slots := by
      simp only [processPooled, if_neg hwidth, hrun, Option.bind_eq_bind, Option.bind_some,
        hfinished, if_true]
    exact ⟨schedule, by rw [← processPooled_eq r target o hardware enabled hpooled, hpooled]⟩

theorem generatePooled_eq {schedule : List Nat} {report : Report}
    (h : generatePooled hardware schedule r target o = some report) :
    report = generate r target o := by
  unfold generatePooled at h
  unfold generate
  cases hproblem : o.problem? target with
  | some message =>
    rw [hproblem] at h
    exact (Option.some.inj h).symm
  | none =>
    simp only [hproblem, Option.map_eq_some_iff] at h
    obtain ⟨outcomes, hpooled, rfl⟩ := h
    rw [processPooled_eq r target o hardware _ hpooled]

theorem exists_generatePooled :
    ∃ schedule, generatePooled hardware schedule r target o = some (generate r target o) := by
  unfold generatePooled generate
  cases o.problem? target with
  | some message => exact ⟨[], rfl⟩
  | none =>
    obtain ⟨schedule, hpooled⟩ := exists_processPooled r target o hardware
      ((Availability.mk target.name o.features).select r).enabled
    exact ⟨schedule, by simp only [hpooled, Option.map_some]⟩

end

/-- However many workers there are and however their moves interleave, each slot is stored to once
and holds the outcome of its type, so the report is that of a single worker. -/
theorem generate_pooled (r : Registry) (target : Target) (o : Options) (hardware : UInt32) :
    (∀ (c : Context) (types : List TypeDef) (n : Nat) (schedule : List Nat) (p : Pool TypeOutcome),
      1 ≤ n →
      (Pool.start n (types.map TypeOutcome.blank)).run (processType c) types schedule = some p →
      p.Accounts (processType c) types n schedule) ∧
    (∃ schedule,
      generatePooled hardware schedule r target o = some (generate r target (o.withJobs 1))) ∧
    ∀ schedule report, generatePooled hardware schedule r target o = some report →
      report = generate r target (o.withJobs 1) := by
  rw [generate_withJobs]
  refine ⟨?_, exists_generatePooled r target o hardware, ?_⟩
  · intro c types n schedule p hn hrun
    have hstart : Pool.Invariant (processType c) types n
        (Pool.start n (types.map TypeOutcome.blank)) :=
      Pool.invariant_start n (List.length_map _)
    exact hstart.accounts hn (Pool.remaining_start n _) hrun
  · exact fun schedule report h => generatePooled_eq r target o hardware h

namespace Crew

def sail : TypeDef :=
  ⟨2, "Sail", [], [], .object [⟨"trim", [], [], .shared, [], .primitive .f64⟩]⟩

def deck : TypeDef := ⟨5, "Deck", [], [], .record [] []⟩

def watch : TypeDef := ⟨9, "Watch", [], [], .enumeration [⟨"port", [], 0⟩, ⟨"starboard", [], 1⟩]⟩

def registry : Registry := ⟨"crew", [sail, deck, watch]⟩

def options : Options := ⟨[], 64, "crew", -1, true⟩

def context : Context := contextOf registry .cpp options [2, 5, 9]

def schedule : List Nat := [0, 1, 1, 0, 1, 1, 2, 1, 1, 0, 0, 1]

end Crew

theorem generate_pooled_crew :
    Pool.width 8 Crew.options.jobs Crew.registry.types.length = 3 ∧
    (∃ p, (Pool.start 3 (Crew.registry.types.map TypeOutcome.blank)).run
        (processType Crew.context) Crew.registry.types Crew.schedule = some p ∧
      p.finished = true ∧ p.stores = [0, 2, 1] ∧
      p.Accounts (processType Crew.context) Crew.registry.types 3 Crew.schedule) ∧
    generatePooled 8 Crew.schedule Crew.registry .cpp Crew.options =
      some (generate Crew.registry .cpp (Crew.options.withJobs 1)) := by
  obtain ⟨hpool, -, hreport⟩ := generate_pooled Crew.registry .cpp Crew.options 8
  have hrun : ((Pool.start 3 (Crew.registry.types.map TypeOutcome.blank)).run
      (processType Crew.context) Crew.registry.types Crew.schedule).map
        (fun p => (p.finished, p.stores)) = some (true, [0, 2, 1]) := by decide +kernel
  have hsome : (generatePooled 8 Crew.schedule Crew.registry .cpp Crew.options).isSome = true := by
    decide +kernel
  obtain ⟨p, hp, hshown⟩ := Option.map_eq_some_iff.mp hrun
  obtain ⟨report, hpooled⟩ := Option.isSome_iff_exists.mp hsome
  rw [Prod.mk.injEq] at hshown
  refine ⟨by decide, ⟨p, hp, hshown.1, hshown.2, hpool _ _ 3 _ p (by decide) hp⟩, ?_⟩
  rw [hpooled, hreport _ report hpooled]

end Bindery
