import Mathlib.Data.List.Sort
import Mathlib.Data.Int.Init
import Mathlib.Tactic.NormNum

/-!
# The scheduler

Tasks are scheduled for a time point, in nanoseconds, and kept in the order of their time points.
The scheduler thread posts the first one to the server once it is due. It computes in milliseconds
how long it has to wait for it, without the fraction, so that a task counts as due in the last
millisecond before its time point already.
-/

namespace BlobsDb

def nanosecondsPerMillisecond : ℤ := 1000000

structure ScheduledTask (α : Type*) where
  timePoint : ℤ
  task : α
  deriving DecidableEq

/-- A task that was posted: what the clock showed, and the tasks that remained scheduled. -/
structure Posting (α : Type*) where
  scheduledTask : ScheduledTask α
  now : ℤ
  rest : List (ScheduledTask α)
  deriving DecidableEq

structure Scheduler (α : Type*) where
  scheduledTasks : List (ScheduledTask α)
  posted : List (Posting α)
  deriving DecidableEq

namespace Scheduler

variable {α : Type*} {s s' : Scheduler α} {all : List (ScheduledTask α)} {t : ScheduledTask α}
  {now : ℤ}

def empty : Scheduler α := ⟨[], []⟩

/-- `RunAt`: sorted insertion, behind the tasks with the same time point. -/
def runAt (timePoint : ℤ) (task : α) (s : Scheduler α) : Scheduler α :=
  { s with
    scheduledTasks :=
      s.scheduledTasks.orderedInsert (fun a b => a.timePoint < b.timePoint) ⟨timePoint, task⟩ }

/-- `NextTaskDeadline`: the milliseconds until the first task, as `duration_cast` gives them. -/
def nextTaskDeadline (now : ℤ) (s : Scheduler α) : Option ℤ :=
  s.scheduledTasks.head?.map fun t => (t.timePoint - now).tdiv nanosecondsPerMillisecond

/-- A round of the loop of `SchedulerThreadMain` that posts a task, which is returned; otherwise the
thread waits. -/
def postTask (now : ℤ) (s : Scheduler α) : Option (ScheduledTask α × Scheduler α) :=
  match s.nextTaskDeadline now, s.scheduledTasks with
  | some count, t :: scheduledTasks =>
    if count ≤ 0 then
      some (t, ⟨scheduledTasks, s.posted ++ [⟨t, now, scheduledTasks⟩]⟩)
    else none
  | _, _ => none

/-- The first task is due in less than a millisecond, but not yet. -/
def AlmostDue (now : ℤ) (s : Scheduler α) : Prop :=
  ∃ t ∈ s.scheduledTasks.head?, now < t.timePoint ∧ t.timePoint < now + nanosecondsPerMillisecond

instance (now : ℤ) (s : Scheduler α) : Decidable (s.AlmostDue now) :=
  match h : s.scheduledTasks.head? with
  | none => isFalse fun ⟨_, ht, _⟩ => nomatch h.symm.trans ht
  | some t => decidable_of_iff (now < t.timePoint ∧
      t.timePoint < now + nanosecondsPerMillisecond)
    ⟨fun hdue => ⟨t, h, hdue⟩, fun ⟨_, ht, hdue⟩ => Option.some_inj.mp (h.symm.trans ht) ▸ hdue⟩

theorem tdiv_le_zero_iff {d : ℤ} :
    d.tdiv nanosecondsPerMillisecond ≤ 0 ↔ d < nanosecondsPerMillisecond := by
  rw [nanosecondsPerMillisecond]
  by_cases hd : 0 ≤ d
  · rw [Int.tdiv_eq_ediv_of_nonneg hd]
    omega
  · have hneg : d.tdiv 1000000 = -((-d).tdiv 1000000) := by rw [Int.neg_tdiv, neg_neg]
    rw [hneg, Int.tdiv_eq_ediv_of_nonneg (by omega)]
    omega

theorem postTask_eq_some_iff : s.postTask now = some (t, s') ↔
    ∃ rest, s.scheduledTasks = t :: rest ∧ t.timePoint < now + nanosecondsPerMillisecond ∧
      s' = ⟨rest, s.posted ++ [⟨t, now, rest⟩]⟩ := by
  rw [postTask, nextTaskDeadline]
  cases s.scheduledTasks with
  | nil => simp
  | cons t' rest =>
    simp only [List.head?_cons, Option.map_some, tdiv_le_zero_iff]
    constructor
    · intro h
      split_ifs at h with hdue
      obtain ⟨rfl, rfl⟩ := Prod.mk.inj (Option.some_inj.mp h)
      exact ⟨rest, rfl, by omega, rfl⟩
    · rintro ⟨rest', hrest, hdue, rfl⟩
      obtain ⟨rfl, rfl⟩ := List.cons.inj hrest
      rw [if_pos (by omega)]

/-- A task that is not due before the others is the last one. -/
theorem scheduledTasks_runAt {timePoint : ℤ} {task : α}
    (h : ∀ t ∈ s.scheduledTasks, t.timePoint ≤ timePoint) :
    (s.runAt timePoint task).scheduledTasks = s.scheduledTasks ++ [⟨timePoint, task⟩] := by
  rw [runAt]
  dsimp only
  generalize s.scheduledTasks = l at h
  induction l with
  | nil => rfl
  | cons b l ih =>
    obtain ⟨hb, hl⟩ := List.forall_mem_cons.mp h
    rw [List.orderedInsert_cons, if_neg (not_lt.mpr hb), ih hl, List.cons_append]

/-! ### Exactly once, and in order -/

/-- Given all tasks that were scheduled so far, each one was posted or still is scheduled, and no
task was posted before another one with an earlier time point. -/
structure Orderly (all : List (ScheduledTask α)) (s : Scheduler α) : Prop where
  once : (s.posted.map Posting.scheduledTask ++ s.scheduledTasks).Perm all
  sorted : s.scheduledTasks.Pairwise fun a b => a.timePoint ≤ b.timePoint
  order : ∀ p ∈ s.posted, ∀ t ∈ p.rest, p.scheduledTask.timePoint ≤ t.timePoint

theorem Orderly.empty : Orderly ([] : List (ScheduledTask α)) empty :=
  ⟨.nil, .nil, fun _ => (nomatch ·)⟩

theorem pairwise_orderedInsert {l : List (ScheduledTask α)}
    (h : l.Pairwise fun a b => a.timePoint ≤ b.timePoint) (t : ScheduledTask α) :
    (l.orderedInsert (fun a b => a.timePoint < b.timePoint) t).Pairwise
      fun a b => a.timePoint ≤ b.timePoint := by
  induction l with
  | nil => exact List.pairwise_singleton _ _
  | cons b l ih =>
    obtain ⟨hb, hl⟩ := List.pairwise_cons.mp h
    rw [List.orderedInsert_cons]
    split_ifs with hlt
    · refine List.pairwise_cons.mpr ⟨fun c hc => ?_, h⟩
      rcases List.mem_cons.mp hc with rfl | hc
      · exact hlt.le
      · exact hlt.le.trans (hb c hc)
    · refine List.pairwise_cons.mpr ⟨fun c hc => ?_, ih hl⟩
      rcases List.mem_cons.mp ((List.perm_orderedInsert _ t l).mem_iff.mp hc) with rfl | hc
      · exact not_lt.mp hlt
      · exact hb c hc

theorem Orderly.runAt (h : Orderly all s) (timePoint : ℤ) (task : α) :
    Orderly (all ++ [⟨timePoint, task⟩]) (s.runAt timePoint task) where
  once := by
    have hinsert := List.perm_orderedInsert (fun a b : ScheduledTask α => a.timePoint < b.timePoint)
      ⟨timePoint, task⟩ s.scheduledTasks
    refine ((hinsert.append_left _).trans ?_).trans (h.once.append_right _)
    rw [List.append_assoc]
    exact (List.perm_append_singleton _ _).symm.append_left _
  sorted := pairwise_orderedInsert h.sorted _
  order := h.order

theorem Orderly.postTask (h : Orderly all s) (hpost : s.postTask now = some (t, s')) :
    Orderly all s' := by
  obtain ⟨rest, hrest, -, rfl⟩ := postTask_eq_some_iff.mp hpost
  have hsorted := h.sorted
  rw [hrest] at hsorted
  obtain ⟨hfirst, hsorted⟩ := List.pairwise_cons.mp hsorted
  refine ⟨?_, hsorted, fun p hp => ?_⟩
  · have honce := h.once
    rw [hrest] at honce
    rw [List.map_append, List.append_assoc]
    exact honce
  · rcases List.mem_append.mp hp with hp | hp
    · exact h.order p hp
    · rw [List.mem_singleton.mp hp]
      exact hfirst

/-- A task is posted before its time point exactly when it was almost due. -/
theorem timePoint_le_iff (hpost : s.postTask now = some (t, s')) :
    t.timePoint ≤ now ↔ ¬s.AlmostDue now := by
  obtain ⟨rest, hrest, hdue, -⟩ := postTask_eq_some_iff.mp hpost
  rw [AlmostDue, hrest]
  constructor
  · rintro hle ⟨t', ht', hlt, -⟩
    obtain rfl := Option.some_inj.mp ht'
    omega
  · intro hnot
    by_contra hlt
    exact hnot ⟨t, rfl, not_le.mp hlt, hdue⟩

end Scheduler

end BlobsDb
