import BlobsDb.ForMathlib.GuardedRun
import BlobsDb.Server.Answers
import BlobsDb.Server.Scheduler

/-!
# Lock timeouts

A read with a lock timeout that has to wait is queued, and a task is scheduled for the time point at
which the timeout is over. The task looks through the queue, and answers the reads that are due by
the time it reads the clock. It is not scheduled again.

The server and the scheduler thread read the same clock, which does not go back. A task that is
posted before its time point, as the scheduler does with one that is almost due, may run too early
for its read as well, which then waits without a timeout.

The queue here notes when a read was queued and when its timeout is over. Apart from that it is the
queue of the server: both lose the same reads (`LockTimeouts.queue_checkForLockTimeouts`).
-/

namespace BlobsDb

/-- A read in the queue. Reads are numbered in the order in which they were queued. -/
structure QueuedMessage where
  message : BlobsRead
  lockTimeoutTime : Option ℤ
  number : ℕ
  deriving DecidableEq

/-- `CheckForLockTimeouts` of a database, scheduled for one of its reads, or another task. -/
inductive Task
  | checkForLockTimeouts (name : DatabaseName) (number : ℕ)
  | other
  deriving DecidableEq

/-- The queues, the scheduler, and the tasks that were posted to the server and did not run yet;
`queueing` is the read that `QueueReadCheckDeadlock` is about to queue. -/
structure LockTimeouts where
  now : ℤ
  count : ℕ
  queueing : Option (DatabaseName × BlobsRead × Option ℤ)
  queuedReads : DatabaseName → List QueuedMessage
  scheduler : Scheduler Task
  packets : List (ScheduledTask Task)
  scheduled : List (ScheduledTask Task)
  ran : List (ScheduledTask Task)
  timedOut : List (DatabaseName × ℕ)
  answered : List (DatabaseName × ℕ)

namespace LockTimeouts

def initial (now : ℤ) : LockTimeouts :=
  ⟨now, 0, none, fun _ => [], .empty, [], [], [], [], []⟩

/-- The timeout of a read is over. -/
def isDue (now : ℤ) (q : QueuedMessage) : Bool := q.lockTimeoutTime.any (· ≤ now)

/-- `QueueReadCheckDeadlock`, up to `RunAt`: when the timeout will be over. -/
def lockTimeoutTime (now : ℤ) (message : BlobsRead) : Option ℤ :=
  if 0 < message.lockTimeoutMs then
    some (now + message.lockTimeoutMs * nanosecondsPerMillisecond)
  else none

def runAt (timePoint : ℤ) (task : Task) (s : LockTimeouts) : LockTimeouts :=
  { s with
    scheduler := s.scheduler.runAt timePoint task
    scheduled := s.scheduled ++ [⟨timePoint, task⟩] }

/-- `QueueReadCheckDeadlock`, from `RunAt` on. -/
def queueRead (name : DatabaseName) (message : BlobsRead) (time : Option ℤ) (s : LockTimeouts) :
    LockTimeouts :=
  let s :=
    match time with
    | none => s
    | some time => s.runAt time (.checkForLockTimeouts name s.count)
  { s with
    count := s.count + 1
    queueing := none
    queuedReads := Function.update s.queuedReads name
      (s.queuedReads name ++ [⟨message, time, s.count⟩]) }

/-- `CheckForLockTimeouts` -/
def checkForLockTimeouts (name : DatabaseName) (now : ℤ) (s : LockTimeouts) : LockTimeouts :=
  { s with
    queuedReads := Function.update s.queuedReads name
      ((s.queuedReads name).filter fun q => !isDue now q)
    timedOut := s.timedOut ++
      ((s.queuedReads name).filter (isDue now)).map fun q => (name, q.number) }

/-- What the server and the scheduler thread do. A read may also be answered, or its client may end
its transaction. -/
inductive Action
  | queueRead (name : DatabaseName) (message : BlobsRead) (now : ℤ)
  | runAt
  | runOther (timePoint : ℤ)
  | nextTask (now : ℤ)
  | runTask (t : ScheduledTask Task) (now : ℤ)
  | leave (name : DatabaseName) (number : ℕ)

/-- One step. While the server queues a read it does nothing else, and only the scheduler thread
goes on. -/
def step (s : LockTimeouts) : Action → Option LockTimeouts
  | .queueRead name message now =>
    if s.queueing = none ∧ s.now ≤ now ∧ message.lockTimeoutMs ≠ 0 then
      some { s with now, queueing := some (name, message, lockTimeoutTime now message) }
    else none
  | .runAt => s.queueing.map fun e => s.queueRead e.1 e.2.1 e.2.2
  | .runOther timePoint => if s.queueing = none then some (s.runAt timePoint .other) else none
  | .nextTask now =>
    if s.now ≤ now then
      match s.scheduler.postTask now with
      | none => some { s with now }
      | some (t, scheduler) => some { s with now, scheduler, packets := s.packets ++ [t] }
    else none
  | .runTask t now =>
    if s.queueing = none ∧ s.now ≤ now ∧ t ∈ s.packets then
      let s := { s with now, packets := s.packets.erase t, ran := s.ran ++ [t] }
      match t.task with
      | .other => some s
      | .checkForLockTimeouts name _ => some (s.checkForLockTimeouts name now)
    else none
  | .leave name number =>
    if s.queueing = none ∧ number ∈ (s.queuedReads name).map QueuedMessage.number then
      some { s with
        queuedReads := Function.update s.queuedReads name
          ((s.queuedReads name).filter fun q => q.number ≠ number)
        answered := s.answered ++ [(name, number)] }
    else none

/-- The scheduler does not look for the next task in the last millisecond before its time point. -/
def NeverAlmostDue (s : LockTimeouts) : Action → Prop
  | .nextTask now => ¬s.scheduler.AlmostDue now
  | _ => True

instance (s : LockTimeouts) : (a : Action) → Decidable (NeverAlmostDue s a)
  | .nextTask now => inferInstanceAs (Decidable (¬s.scheduler.AlmostDue now))
  | .queueRead .. | .runAt | .runOther _ | .runTask .. | .leave .. => isTrue trivial

/-- Tasks are posted once, in the order of their time points and not before them. A read whose task
ran was answered, and one that waits has its task still to come. -/
structure Timely (s : LockTimeouts) : Prop where
  orderly : s.scheduler.Orderly s.scheduled
  handled : (s.packets ++ s.ran).Perm (s.scheduler.posted.map Posting.scheduledTask)
  notBefore : ∀ p ∈ s.scheduler.posted, p.scheduledTask.timePoint ≤ p.now
  removed : ∀ t ∈ s.ran, ∀ name number, t.task = .checkForLockTimeouts name number →
    (∀ q ∈ s.queuedReads name, q.number ≠ number) ∧
      ((name, number) ∈ s.timedOut ∨ (name, number) ∈ s.answered)
  pending : ∀ name, ∀ q ∈ s.queuedReads name, ∀ time, q.lockTimeoutTime = some time →
    ⟨time, .checkForLockTimeouts name q.number⟩ ∈ s.scheduler.scheduledTasks ++ s.packets

variable {s s' : LockTimeouts} {a : Action} {name : DatabaseName} {now : ℤ}

/-! ### What a step keeps -/

/-- The tasks that ran are found with the reads they were scheduled for. -/
structure Inv (s : LockTimeouts) : Prop where
  timely : s.Timely
  past : ∀ t ∈ s.packets, t.timePoint ≤ s.now
  gone : ∀ name number, (name, number) ∈ s.timedOut ∨ (name, number) ∈ s.answered →
    number < s.count ∧ ∀ q ∈ s.queuedReads name, q.number ≠ number
  numbered : ∀ name, ∀ q ∈ s.queuedReads name, q.number < s.count
  nodup : ∀ name, ((s.queuedReads name).map QueuedMessage.number).Nodup
  known : ∀ t ∈ s.scheduled, ∀ name number, t.task = .checkForLockTimeouts name number →
    number < s.count ∧ ((∃ q ∈ s.queuedReads name, q.number = number ∧
      q.lockTimeoutTime = some t.timePoint) ∨
        (name, number) ∈ s.timedOut ∨ (name, number) ∈ s.answered)

theorem Inv.initial (now : ℤ) : Inv (initial now) where
  timely := {
    orderly := .empty
    handled := .nil
    notBefore _ := (nomatch ·)
    removed _ := (nomatch ·)
    pending _ _ := (nomatch ·) }
  past _ := (nomatch ·)
  gone _ _ h := by rcases h with h | h <;> cases h
  numbered _ _ := (nomatch ·)
  nodup _ := List.nodup_nil
  known _ := (nomatch ·)

theorem Inv.mono (h : Inv s) (hnow : s.now ≤ now) : Inv { s with now } :=
  ⟨⟨h.timely.orderly, h.timely.handled, h.timely.notBefore, h.timely.removed, h.timely.pending⟩,
    fun t ht => (h.past t ht).trans hnow, h.gone, h.numbered, h.nodup, h.known⟩

theorem Inv.setQueueing (h : Inv s) (queueing : Option (DatabaseName × BlobsRead × Option ℤ)) :
    Inv { s with queueing } :=
  ⟨⟨h.timely.orderly, h.timely.handled, h.timely.notBefore, h.timely.removed, h.timely.pending⟩,
    h.past, h.gone, h.numbered, h.nodup, h.known⟩

theorem mem_scheduledTasks_runAt (timePoint : ℤ) (task : Task) (s : LockTimeouts)
    {t : ScheduledTask Task} :
    t ∈ (s.runAt timePoint task).scheduler.scheduledTasks ↔
      t = ⟨timePoint, task⟩ ∨ t ∈ s.scheduler.scheduledTasks :=
  List.mem_orderedInsert _

theorem Inv.runOther (h : Inv s) (timePoint : ℤ) : Inv (s.runAt timePoint .other) where
  timely := {
    orderly := h.timely.orderly.runAt timePoint .other
    handled := h.timely.handled
    notBefore := h.timely.notBefore
    removed := h.timely.removed
    pending := fun name q hq time htime => by
      rcases List.mem_append.mp (h.timely.pending name q hq time htime) with ht | ht
      · exact List.mem_append_left _ ((mem_scheduledTasks_runAt _ _ _).mpr (.inr ht))
      · exact List.mem_append_right _ ht }
  past := h.past
  gone := h.gone
  numbered := h.numbered
  nodup := h.nodup
  known t ht name number htask := by
    rcases List.mem_append.mp ht with ht | ht
    · exact h.known t ht name number htask
    · rw [List.mem_singleton.mp ht] at htask
      cases htask

section

variable {queuedReads : DatabaseName → List QueuedMessage} {q q₀ : QueuedMessage}
  {name' : DatabaseName}

theorem mem_update_append : q ∈ Function.update queuedReads name (queuedReads name ++ [q₀]) name' ↔
    q ∈ queuedReads name' ∨ name' = name ∧ q = q₀ := by
  by_cases hname : name' = name
  · subst hname
    rw [Function.update_self, List.mem_append, List.mem_singleton]
    exact or_congr_right (and_iff_right rfl).symm
  · rw [Function.update_of_ne hname]
    exact (or_iff_left fun hand => hname hand.1).symm

theorem mem_update_filter {keep : QueuedMessage → Bool} :
    q ∈ Function.update queuedReads name ((queuedReads name).filter keep) name' ↔
      q ∈ queuedReads name' ∧ (name' = name → keep q = true) := by
  by_cases hname : name' = name
  · subst hname
    rw [Function.update_self, List.mem_filter]
    exact and_congr_right fun _ => ⟨fun hkeep _ => hkeep, fun hkeep => hkeep rfl⟩
  · rw [Function.update_of_ne hname]
    exact (and_iff_left fun heq => absurd heq hname).symm

end

/-- The read gets a new number, and its task, if it has a timeout. -/
theorem Inv.queueRead (h : Inv s) (name : DatabaseName) (message : BlobsRead) (time : Option ℤ) :
    Inv (s.queueRead name message time) := by
  set s' := s.queueRead name message time
  have hqueue : ∀ {name' q}, q ∈ s'.queuedReads name' ↔
      q ∈ s.queuedReads name' ∨ name' = name ∧ q = ⟨message, time, s.count⟩ := by
    intro name' q
    rw [← mem_update_append]
    cases time <;> rfl
  have hcount : s'.count = s.count + 1 := by cases time <;> rfl
  have hpackets : s'.packets = s.packets := by cases time <;> rfl
  have hran : s'.ran = s.ran := by cases time <;> rfl
  have hposted : s'.scheduler.posted = s.scheduler.posted := by cases time <;> rfl
  have htimedOut : s'.timedOut = s.timedOut ∧ s'.answered = s.answered := by
    cases time <;> exact ⟨rfl, rfl⟩
  have hscheduled : ∀ {t}, t ∈ s'.scheduled ↔ t ∈ s.scheduled ∨
      ∃ timePoint, time = some timePoint ∧
        t = ⟨timePoint, .checkForLockTimeouts name s.count⟩ := by
    intro t
    cases time with
    | none => exact ⟨.inl, fun h => h.elim id fun ⟨_, htime, _⟩ => nomatch htime⟩
    | some timePoint =>
      refine List.mem_append.trans (or_congr_right (List.mem_singleton.trans ?_))
      exact ⟨fun ht => ⟨timePoint, rfl, ht⟩, fun ⟨_, htime, ht⟩ => by
        rw [ht, Option.some_inj.mp htime]⟩
  -- the number of the new read was not used before
  have hnew : ∀ {name' number}, number < s.count → (∀ q ∈ s.queuedReads name', q.number ≠ number) →
      ∀ q ∈ s'.queuedReads name', q.number ≠ number := by
    intro name' number hlt hold q hq
    rcases hqueue.mp hq with hq | ⟨-, rfl⟩
    · exact hold q hq
    · exact hlt.ne'
  exact {
    timely := {
      orderly := by
        cases time with
        | none => exact h.timely.orderly
        | some timePoint => exact h.timely.orderly.runAt timePoint _
      handled := by
        rw [hpackets, hran, hposted]
        exact h.timely.handled
      notBefore := by
        rw [hposted]
        exact h.timely.notBefore
      removed := fun t ht name' number htask => by
        rw [hran] at ht
        rw [htimedOut.1, htimedOut.2]
        obtain ⟨hnot, hgone⟩ := h.timely.removed t ht name' number htask
        exact ⟨hnew (h.gone name' number hgone).1 hnot, hgone⟩
      pending := fun name' q hq timePoint htime => by
        rw [hpackets]
        -- tasks are only added
        have hmono : s.scheduler.scheduledTasks ⊆ s'.scheduler.scheduledTasks := by
          cases time with
          | none => exact fun _ ht => ht
          | some _ => exact fun _ ht => (mem_scheduledTasks_runAt _ _ _).mpr (.inr ht)
        rcases hqueue.mp hq with hq | ⟨rfl, rfl⟩
        · rcases List.mem_append.mp (h.timely.pending name' q hq timePoint htime) with ht | ht
          · exact List.mem_append_left _ (hmono ht)
          · exact List.mem_append_right _ ht
        · obtain rfl : time = some timePoint := htime
          exact List.mem_append_left _ ((mem_scheduledTasks_runAt _ _ _).mpr (.inl rfl)) }
    past := by
      rw [hpackets, show s'.now = s.now by cases time <;> rfl]
      exact h.past
    gone := fun name' number hgone => by
      rw [htimedOut.1, htimedOut.2] at hgone
      obtain ⟨hlt, hold⟩ := h.gone name' number hgone
      rw [hcount]
      exact ⟨hlt.trans (Nat.lt_succ_self _), hnew hlt hold⟩
    numbered := fun name' q hq => by
      rw [hcount]
      rcases hqueue.mp hq with hq | ⟨-, rfl⟩
      · exact (h.numbered name' q hq).trans (Nat.lt_succ_self _)
      · exact Nat.lt_succ_self _
    nodup := fun name' => by
      have hEq : s'.queuedReads name' = if name' = name then
          s.queuedReads name ++ [⟨message, time, s.count⟩] else s.queuedReads name' := by
        cases time <;> exact Function.update_apply _ _ _ _
      rw [hEq]
      split_ifs with hname
      · rw [List.map_append]
        refine (h.nodup name).append (List.nodup_singleton _) fun number hmem hnew => ?_
        obtain ⟨q, hq, rfl⟩ := List.mem_map.mp hmem
        exact (h.numbered name q hq).ne (List.mem_singleton.mp hnew)
      · exact h.nodup name'
    known := fun t ht name' number htask => by
      rw [hcount, htimedOut.1, htimedOut.2]
      rcases hscheduled.mp ht with ht | ⟨timePoint, htime, rfl⟩
      · obtain ⟨hlt, hread⟩ := h.known t ht name' number htask
        refine ⟨hlt.trans (Nat.lt_succ_self _), hread.imp_left ?_⟩
        exact fun ⟨q, hq, hnumber⟩ => ⟨q, hqueue.mpr (.inl hq), hnumber⟩
      · obtain ⟨rfl, rfl⟩ := Task.checkForLockTimeouts.inj htask
        exact ⟨Nat.lt_succ_self _, .inl ⟨_, hqueue.mpr (.inr ⟨rfl, rfl⟩), rfl, htime⟩⟩ }

/-- Reads are taken off a queue, and noted. -/
theorem Inv.remove (h : Inv s) (name : DatabaseName) (keep : QueuedMessage → Bool)
    {timedOut answered : List (DatabaseName × ℕ)} (htimedOut : s.timedOut ⊆ timedOut)
    (hanswered : s.answered ⊆ answered)
    (hsound : ∀ e, e ∈ timedOut ∨ e ∈ answered → (e ∈ s.timedOut ∨ e ∈ s.answered) ∨
      ∃ q ∈ s.queuedReads name, keep q = false ∧ e = (name, q.number))
    (hnoted : ∀ q ∈ s.queuedReads name, keep q = false →
      (name, q.number) ∈ timedOut ∨ (name, q.number) ∈ answered) :
    Inv { s with
      queuedReads := Function.update s.queuedReads name ((s.queuedReads name).filter keep)
      timedOut, answered } := by
  have hmono : ∀ {e}, e ∈ s.timedOut ∨ e ∈ s.answered → e ∈ timedOut ∨ e ∈ answered :=
    fun h => h.imp (fun h => htimedOut h) (fun h => hanswered h)
  exact {
    timely := {
      orderly := h.timely.orderly
      handled := h.timely.handled
      notBefore := h.timely.notBefore
      removed := fun t ht name' number htask => by
        obtain ⟨hnot, hgone⟩ := h.timely.removed t ht name' number htask
        exact ⟨fun q hq => hnot q (mem_update_filter.mp hq).1, hmono hgone⟩
      pending := fun name' q hq => h.timely.pending name' q (mem_update_filter.mp hq).1 }
    past := h.past
    gone := fun name' number hgone => by
      rcases hsound _ hgone with hgone | ⟨q, hq, hkeep, heq⟩
      · obtain ⟨hlt, hnot⟩ := h.gone name' number hgone
        exact ⟨hlt, fun q hq => hnot q (mem_update_filter.mp hq).1⟩
      · obtain ⟨rfl, rfl⟩ := Prod.mk.inj heq
        refine ⟨h.numbered name' q hq, fun q' hq' hnumber => ?_⟩
        -- the number is that of the read that was removed
        obtain ⟨hq', hkeep'⟩ := mem_update_filter.mp hq'
        obtain rfl := List.inj_on_of_nodup_map (h.nodup name') hq' hq hnumber
        rw [hkeep' rfl] at hkeep
        cases hkeep
    numbered := fun name' q hq => h.numbered name' q (mem_update_filter.mp hq).1
    nodup := fun name' => by
      dsimp only
      rw [Function.update_apply]
      split_ifs with hname
      · exact (h.nodup name).sublist (List.filter_sublist.map _)
      · exact h.nodup name'
    known := fun t ht name' number htask => by
      obtain ⟨hlt, hread⟩ := h.known t ht name' number htask
      refine ⟨hlt, ?_⟩
      rcases hread with ⟨q, hq, rfl, htime⟩ | hgone
      · by_cases hkeep : name' = name → keep q = true
        · exact .inl ⟨q, mem_update_filter.mpr ⟨hq, hkeep⟩, rfl, htime⟩
        · obtain ⟨rfl, hnot⟩ := Classical.not_imp.mp hkeep
          exact .inr (hnoted q hq (Bool.eq_false_iff.mpr hnot))
      · exact .inr (hmono hgone) }

theorem Inv.checkForLockTimeouts (h : Inv s) (name : DatabaseName) (now : ℤ) :
    Inv (s.checkForLockTimeouts name now) := by
  refine h.remove name (fun q => !isDue now q) (List.subset_append_left _ _) (List.Subset.refl _)
    (fun e he => ?_) (fun q hq hdue => ?_)
  · rcases he with he | he
    · rcases List.mem_append.mp he with he | he
      · exact .inl (.inl he)
      · obtain ⟨q, hq, rfl⟩ := List.mem_map.mp he
        obtain ⟨hq, hdue⟩ := List.mem_filter.mp hq
        exact .inr ⟨q, hq, by rw [hdue]; rfl, rfl⟩
    · exact .inl (.inr he)
  · have hdue : isDue now q = true := by simpa using hdue
    exact .inl (List.mem_append_right _
      (List.mem_map_of_mem (List.mem_filter.mpr ⟨hq, hdue⟩)))

theorem Inv.leave (h : Inv s) {number : ℕ}
    (hnumber : number ∈ (s.queuedReads name).map QueuedMessage.number) :
    Inv { s with
      queuedReads := Function.update s.queuedReads name
        ((s.queuedReads name).filter fun q => q.number ≠ number)
      answered := s.answered ++ [(name, number)] } := by
  refine h.remove name (fun q => q.number ≠ number) (List.Subset.refl _)
    (List.subset_append_left _ _) (fun e he => ?_) (fun q hq hkeep => ?_)
  · rcases he with he | he
    · exact .inl (.inl he)
    · rcases List.mem_append.mp he with he | he
      · exact .inl (.inr he)
      · obtain ⟨q, hq, rfl⟩ := List.mem_map.mp hnumber
        exact .inr ⟨q, hq, by simp, List.mem_singleton.mp he⟩
  · have heq : q.number = number := by simpa using hkeep
    exact .inr (List.mem_append_right _ (by rw [heq]; exact List.mem_singleton_self _))

theorem Inv.mem_scheduled (h : Inv s) {t : ScheduledTask Task} (ht : t ∈ s.packets) :
    t ∈ s.scheduled := by
  have hposted := h.timely.handled.mem_iff.mp (List.mem_append_left s.ran ht)
  exact h.timely.orderly.once.mem_iff.mp (List.mem_append_left _ hposted)

/-- A task ran that no read waits for any more. -/
theorem Inv.ranTask (h : Inv s) {t : ScheduledTask Task} (ht : t ∈ s.packets)
    (hdone : ∀ name number, t.task = .checkForLockTimeouts name number →
      ∀ q ∈ s.queuedReads name, q.number = number → q.lockTimeoutTime ≠ some t.timePoint) :
    Inv { s with packets := s.packets.erase t, ran := s.ran ++ [t] } where
  timely := {
    orderly := h.timely.orderly
    handled := by
      refine List.Perm.trans ?_ h.timely.handled
      rw [← List.append_assoc]
      refine (List.perm_append_singleton t _).trans ?_
      exact (List.perm_cons_erase ht).symm.append_right s.ran
    notBefore := h.timely.notBefore
    removed := fun u hu name number htask => by
      rcases List.mem_append.mp hu with hu | hu
      · exact h.timely.removed u hu name number htask
      · obtain rfl := List.mem_singleton.mp hu
        rcases (h.known u (h.mem_scheduled ht) name number htask).2 with
          ⟨q, hq, hnumber, htime⟩ | hgone
        · exact absurd htime (hdone name number htask q hq hnumber)
        · exact ⟨(h.gone name number hgone).2, hgone⟩
    pending := fun name q hq time htime => by
      rcases List.mem_append.mp (h.timely.pending name q hq time htime) with hu | hu
      · exact List.mem_append_left _ hu
      · refine List.mem_append_right _ ((List.mem_erase_of_ne ?_).mpr hu)
        rintro rfl
        exact hdone name q.number rfl q hq rfl htime }
  past u hu := h.past u (List.mem_of_mem_erase hu)
  gone := h.gone
  numbered := h.numbered
  nodup := h.nodup
  known := h.known

/-- The scheduler thread posts a task that is due. -/
theorem Inv.postTask (h : Inv s) {t : ScheduledTask Task} {scheduler : Scheduler Task}
    (hnow : s.now ≤ now) (hpost : s.scheduler.postTask now = some (t, scheduler))
    (hdue : ¬s.scheduler.AlmostDue now) :
    Inv { s with now, scheduler, packets := s.packets ++ [t] } := by
  have hle := (Scheduler.timePoint_le_iff hpost).mpr hdue
  obtain ⟨rest, hrest, -, hscheduler⟩ := Scheduler.postTask_eq_some_iff.mp hpost
  have hposted : scheduler.posted = s.scheduler.posted ++ [⟨t, now, rest⟩] := by rw [hscheduler]
  have htasks : scheduler.scheduledTasks = rest := by rw [hscheduler]
  exact {
    timely := {
      orderly := h.timely.orderly.postTask hpost
      handled := by
        rw [hposted, List.map_append, List.append_assoc]
        refine (List.perm_append_comm.append_left _).trans ?_
        rw [← List.append_assoc]
        exact h.timely.handled.append_right _
      notBefore := fun p hp => by
        rw [hposted] at hp
        rcases List.mem_append.mp hp with hp | hp
        · exact h.timely.notBefore p hp
        · rw [List.mem_singleton.mp hp]
          exact hle
      removed := h.timely.removed
      pending := fun name q hq time htime => by
        have hmem := h.timely.pending name q hq time htime
        rw [hrest] at hmem
        rw [htasks, ← List.append_assoc]
        rcases List.mem_append.mp hmem with hmem | hmem
        · rcases List.mem_cons.mp hmem with rfl | hmem
          · exact List.mem_append_right _ (List.mem_singleton_self _)
          · exact List.mem_append_left _ (List.mem_append_left _ hmem)
        · exact List.mem_append_left _ (List.mem_append_right _ hmem) }
    past := fun u hu => by
      rcases List.mem_append.mp hu with hu | hu
      · exact (h.past u hu).trans hnow
      · rw [List.mem_singleton.mp hu]
        exact hle
    gone := h.gone
    numbered := h.numbered
    nodup := h.nodup
    known := h.known }

/-- A task that runs at or after its time point answers its read, unless it was answered. -/
theorem Inv.runTask (h : Inv s) {t : ScheduledTask Task}
    (hstep : s.step (.runTask t now) = some s') : Inv s' := by
  rw [LockTimeouts.step] at hstep
  split_ifs at hstep with hguard
  obtain ⟨-, hnow, ht⟩ := hguard
  have h := h.mono hnow
  obtain ⟨timePoint, task⟩ := t
  cases task with
  | other =>
    obtain rfl := Option.some_inj.mp hstep
    exact h.ranTask ht fun _ _ htask => nomatch htask
  | checkForLockTimeouts name number =>
    obtain rfl := Option.some_inj.mp hstep
    refine (h.checkForLockTimeouts name now).ranTask ht fun name' number' htask q hq _ htime => ?_
    obtain ⟨rfl, rfl⟩ := Task.checkForLockTimeouts.inj htask
    -- the read is due by now
    have hkeep := (mem_update_filter.mp hq).2 rfl
    have hpast : timePoint ≤ now := h.past _ ht
    rw [isDue, htime] at hkeep
    simp [hpast] at hkeep

/-- Each step keeps the invariant, unless the scheduler looks for a task that is almost due. -/
theorem Inv.step (h : Inv s) (hdue : NeverAlmostDue s a) (hstep : s.step a = some s') : Inv s' := by
  cases a with
  | queueRead name message now =>
    rw [LockTimeouts.step] at hstep
    split_ifs at hstep with hguard
    obtain rfl := Option.some_inj.mp hstep
    exact (h.mono hguard.2.1).setQueueing _
  | runAt =>
    obtain ⟨e, -, rfl⟩ := Option.map_eq_some_iff.mp hstep
    exact h.queueRead e.1 e.2.1 e.2.2
  | runOther timePoint =>
    rw [LockTimeouts.step] at hstep
    split_ifs at hstep
    obtain rfl := Option.some_inj.mp hstep
    exact h.runOther timePoint
  | nextTask now =>
    rw [LockTimeouts.step] at hstep
    split_ifs at hstep with hnow
    cases hpost : s.scheduler.postTask now with
    | none =>
      rw [hpost] at hstep
      obtain rfl := Option.some_inj.mp hstep
      exact h.mono hnow
    | some e =>
      rw [hpost] at hstep
      obtain rfl := Option.some_inj.mp hstep
      exact h.postTask hnow hpost hdue
  | runTask t now => exact h.runTask hstep
  | leave name number =>
    rw [LockTimeouts.step] at hstep
    split_ifs at hstep with hguard
    obtain rfl := Option.some_inj.mp hstep
    exact h.leave hguard.2

/-- A task that is almost due is posted too early. -/
theorem not_timely_of_almostDue (hdue : ¬NeverAlmostDue s a) (hstep : s.step a = some s') :
    ¬s'.Timely := by
  intro htimely
  cases a with
  | nextTask now =>
    have halmost : s.scheduler.AlmostDue now := not_not.mp hdue
    obtain ⟨t, hhead, hlt, hnear⟩ := halmost
    obtain ⟨rest, hrest⟩ : ∃ rest, s.scheduler.scheduledTasks = t :: rest := by
      cases htasks : s.scheduler.scheduledTasks with
      | nil => rw [htasks] at hhead; cases hhead
      | cons t' rest =>
        rw [htasks] at hhead
        exact ⟨rest, by rw [Option.some_inj.mp hhead]⟩
    have hpost := Scheduler.postTask_eq_some_iff.mpr ⟨rest, hrest, hnear, rfl⟩
    rw [LockTimeouts.step, hpost] at hstep
    split_ifs at hstep
    obtain rfl := Option.some_inj.mp hstep
    have hle := htimely.notBefore _ (List.mem_append_right _ (List.mem_singleton_self _))
    exact absurd hle (not_le.mpr hlt)
  | queueRead | runAt | runOther | runTask | leave => exact hdue trivial

/-- No lock timeout is lost as long as the scheduler never looks for a task that is almost due. -/
theorem timely_of_neverAlmostDue {start : ℤ} {as : List Action}
    (h : GuardedRun step NeverAlmostDue (initial start) as s) :
    s.Timely ∧ ∀ a s', s.step a = some s' → (s'.Timely ↔ NeverAlmostDue s a) :=
  h.exact (I := fun _ s => Inv s) (P := fun _ s => Timely s) (Inv.initial start)
    (fun _ _ _ _ => Inv.step) (fun _ _ hinv => hinv.timely)
    fun _ _ _ _ _ => not_timely_of_almostDue

/-- Two reads, of which the second one is due first. -/
theorem timely_of_neverAlmostDue_twoReads : ∃ as s,
    GuardedRun step NeverAlmostDue (initial 0) as s ∧ s.Timely ∧ s.timedOut = [(.mem 0, 1)] ∧
      (s.queuedReads (.mem 0)).map QueuedMessage.number = [0] := by
  let as : List Action := [.queueRead (.mem 0) ⟨1, 0, .write, 2, []⟩ 0, .runAt,
    .queueRead (.mem 0) ⟨2, 0, .write, 1, []⟩ 500000, .runAt, .nextTask 500000,
    .nextTask 1500000, .runTask ⟨1500000, .checkForLockTimeouts (.mem 0) 1⟩ 1500001]
  have hplay : (GuardedRun.play step NeverAlmostDue as (initial 0)).map (fun s => decide
      (s.timedOut = [(.mem 0, 1)] ∧ (s.queuedReads (.mem 0)).map QueuedMessage.number = [0])) =
      some true := by
    decide +kernel
  obtain ⟨s, hs, hplay⟩ := Option.map_eq_some_iff.mp hplay
  obtain ⟨htimedOut, hqueue⟩ := of_decide_eq_true hplay
  have hrun := GuardedRun.of_play hs
  exact ⟨as, s, hrun, (timely_of_neverAlmostDue hrun).1, htimedOut, hqueue⟩

/-- The task of a read is posted half a millisecond early, and runs before its time point. The read
stays in the queue, and no task is left for it. -/
theorem not_timely_of_early : ∃ as s, GuardedRun step (fun _ _ => True) (initial 0) as s ∧
    s.queuedReads (.mem 0) = [⟨⟨1, 0, .write, 1, []⟩, some 1000000, 0⟩] ∧ s.timedOut = [] ∧
      s.scheduler.scheduledTasks = [] ∧ s.packets = [] ∧ ¬s.Timely := by
  let as : List Action := [.queueRead (.mem 0) ⟨1, 0, .write, 1, []⟩ 0, .runAt, .nextTask 500000,
    .runTask ⟨1000000, .checkForLockTimeouts (.mem 0) 0⟩ 600000]
  have hplay : (GuardedRun.play step (fun _ _ => True) as (initial 0)).map (fun s => decide
      (s.queuedReads (.mem 0) = [⟨⟨1, 0, .write, 1, []⟩, some 1000000, 0⟩] ∧ s.timedOut = [] ∧
        s.scheduler.scheduledTasks = [] ∧ s.packets = [])) = some true := by
    decide +kernel
  obtain ⟨s, hs, hplay⟩ := Option.map_eq_some_iff.mp hplay
  obtain ⟨hqueue, htimedOut, htasks, hpackets⟩ := of_decide_eq_true hplay
  refine ⟨as, s, GuardedRun.of_play hs, hqueue, htimedOut, htasks, hpackets, fun h => ?_⟩
  have hpending := h.pending (.mem 0) _ (by rw [hqueue]; exact List.mem_singleton_self _) _ rfl
  rw [htasks, hpackets] at hpending
  cases hpending

/-! ### The queue of the server -/

/-- The server answers and removes the reads that are due. -/
theorem queue_checkForLockTimeouts {server server' : Server} {od : OpenDatabase}
    {due : BlobsRead → Bool} (hod : server.databases name = some od)
    (hqueue : od.queuedReads = (s.queuedReads name).map QueuedMessage.message)
    (hdue : ∀ q ∈ s.queuedReads name,
      isDue now q = (decide (0 < q.message.lockTimeoutMs) && due q.message))
    (h : server.checkForLockTimeouts name due = some server') :
    server'.queue name =
        ((s.checkForLockTimeouts name now).queuedReads name).map QueuedMessage.message ∧
      ∀ c, server'.sentTo c = server.sentTo c ++
        (((s.queuedReads name).filter (isDue now)).filter fun q => q.message.clientId = c).map
          fun _ => .blobsRead (.createError .lockTimeout) := by
  set timedOut : BlobsRead → Bool := fun m => decide (0 < m.lockTimeoutMs) && due m
  have hfilter : (od.queuedReads.filter timedOut) =
      ((s.queuedReads name).filter (isDue now)).map QueuedMessage.message := by
    rw [hqueue, List.filter_map]
    exact congrArg _ (List.filter_congr fun q hq => (hdue q hq).symm)
  have hrest : (od.queuedReads.filter fun m => !timedOut m) =
      ((s.queuedReads name).filter fun q => !isDue now q).map QueuedMessage.message := by
    rw [hqueue, List.filter_map]
    exact congrArg _ (List.filter_congr fun q hq => congrArg not (hdue q hq).symm)
  rw [Server.checkForLockTimeouts, hod] at h
  dsimp only at h
  obtain rfl := Option.some_inj.mp h
  obtain ⟨-, hsent⟩ := Server.foldl_lockTimeout (od.queuedReads.filter timedOut) server
  refine ⟨?_, fun c => ?_⟩
  · rw [Server.queue_setDatabase_self, hrest, LockTimeouts.checkForLockTimeouts]
    dsimp only
    rw [Function.update_self]
  · rw [Server.sentTo_setDatabase, hsent, hfilter, List.filter_map, List.map_map]
    rfl

end LockTimeouts

end BlobsDb
