import BlobsDb.Server.Registry

/-!
# The delayed close

When the last client released a database, a task is scheduled that closes it after a while. The task
has a pointer to the object, which is only safe if the object still is registered when the task
runs. It recognizes by its time point whether the database was opened in the meantime.

A task is lost when a registered database that nobody uses is created anew, as that closes the
database at once. And two releases at the same time cannot be told apart.
-/

namespace BlobsDb

namespace Registry

/-- The tasks that are still to run: those that were posted, and those that are scheduled. -/
def pending (s : Registry) : List (ScheduledTask CloseTask) :=
  s.packets ++ s.scheduler.scheduledTasks

/-- Each task will find its object, and closes it only if it was not opened since the release that
scheduled the task. No object is closed twice. -/
structure ClosesLive (s : Registry) : Prop where
  live : ∀ t ∈ s.pending, ∃ d ∈ s.databases, d.id = t.task.id
  unopened : ∀ t ∈ s.pending, ∀ d ∈ s.databases, d.id = t.task.id → d.useCount = 0 →
    d.delayedCloseAt = t.timePoint → d.opens = t.task.opens
  once : s.closed.Nodup

/-- No database that nobody uses is created anew, and none is released by its last client at the
very time at which a task that closes it was scheduled already. -/
def KeepsTasks (env : Environment) (s : Registry) : Action → Prop
  | .openDatabase request .createAlways _ =>
    ∀ e ∈ s.lookup env request, ∀ d ∈ e.1, 0 < d.useCount
  | .release id now => ∀ d ∈ s.databases, d.id = id → d.useCount = 1 →
    ∀ t ∈ s.pending, t.task.id = id → t.timePoint ≠ now + env.closeDelay
  | _ => True

instance (env : Environment) (s : Registry) : ∀ a, Decidable (KeepsTasks env s a)
  | .openDatabase request .createAlways _ =>
    inferInstanceAs (Decidable (∀ e ∈ s.lookup env request, ∀ d ∈ e.1, 0 < d.useCount))
  | .openDatabase _ .createFailIfExist _ => isTrue trivial
  | .openDatabase _ .createIfNotExist _ => isTrue trivial
  | .openDatabase _ .openFailIfNotExist _ => isTrue trivial
  | .release id now => inferInstanceAs (Decidable (∀ d ∈ s.databases, d.id = id →
      d.useCount = 1 → ∀ t ∈ s.pending, t.task.id = id → t.timePoint ≠ now + env.closeDelay))
  | .nextTask _ => isTrue trivial
  | .runTask => isTrue trivial

variable {env : Environment} {s s' : Registry} {a : Action} {d e : RegisteredDatabase} {id : ℕ}
  {request name : DatabaseName} {mode : OpenMode} {loaded : DatabaseOpenResponse.Result}
  {t : ScheduledTask CloseTask} {now : ℤ}

/-! ### The invariant -/

/-- A task belongs to an object. It is not the last one if the object is in use, and if it is the
last one, then the object was not opened since. -/
structure Scheduled (d : RegisteredDatabase) (t : ScheduledTask CloseTask) : Prop where
  id : d.id = t.task.id
  timePoint : t.timePoint ≤ d.delayedCloseAt
  opens : t.task.opens ≤ d.opens
  inUse : 0 < d.useCount → t.task.opens < d.opens
  last : d.useCount = 0 → d.delayedCloseAt = t.timePoint → d.opens = t.task.opens

structure Inv (env : Environment) (s : Registry) : Prop where
  numbered : Numbered s
  once : s.closed.Nodup
  closed : ∀ id ∈ s.closed, id < s.nextId ∧ ∀ d ∈ s.databases, d.id ≠ id
  due : ∀ t ∈ s.pending, t.timePoint ≤ s.now + env.closeDelay
  order : s.pending.Pairwise fun a b => a.task.id = b.task.id → a.timePoint < b.timePoint
  owner : ∀ t ∈ s.pending, ∃ d ∈ s.databases, Scheduled d t

/-- An object that nobody uses has a task that will close it. -/
def Waits (s : Registry) : Prop :=
  ∀ d ∈ s.databases, d.useCount = 0 →
    ∃ t ∈ s.pending, t.task.id = d.id ∧ t.timePoint = d.delayedCloseAt

/-- A task for a registered database is the one that was scheduled for it. -/
theorem Inv.scheduled (h : Inv env s) (ht : t ∈ s.pending) (hd : d ∈ s.databases)
    (hid : d.id = t.task.id) : Scheduled d t := by
  obtain ⟨d', hd', hscheduled⟩ := h.owner t ht
  obtain rfl := h.numbered.eq_of_id hd hd' (hid.trans hscheduled.id.symm)
  exact hscheduled

/-- The invariant says that tasks meet live databases. -/
theorem Inv.closesLive (h : Inv env s) : ClosesLive s where
  live t ht := by
    obtain ⟨d, hd, hscheduled⟩ := h.owner t ht
    exact ⟨d, hd, hscheduled.id⟩
  unopened t ht d hd hid := (h.scheduled ht hd hid).last
  once := h.once

/-- The task that runs next has an answer. It closes its object only if it was not opened since the
release that scheduled the task, and otherwise leaves the databases alone. -/
theorem ClosesLive.runTask (h : ClosesLive s) {packets : List (ScheduledTask CloseTask)}
    (hpackets : s.packets = t :: packets) : ∃ d ∈ s.databases, d.id = t.task.id ∧
      (step env s .runTask = some { s with packets } ∨
        d.opens = t.task.opens ∧ step env s .runTask = some ({ s with packets }.close d.id)) := by
  have ht : t ∈ s.pending := by
    rw [pending, hpackets]
    exact List.mem_cons_self
  obtain ⟨d, hd, hid⟩ := h.live t ht
  obtain ⟨d', hfind⟩ := Option.isSome_iff_exists.mp (List.find?_isSome
    (p := fun d : RegisteredDatabase => d.id = t.task.id).mpr ⟨d, hd, decide_eq_true hid⟩)
  have hd' := List.mem_of_find?_eq_some hfind
  have hid' := List.find?_some hfind
  refine ⟨d', hd', of_decide_eq_true hid', ?_⟩
  rw [step, hpackets]
  dsimp only
  rw [hfind]
  dsimp only
  split_ifs with hclose
  · exact .inr ⟨h.unopened t ht d' hd' (of_decide_eq_true hid') hclose.1 hclose.2, rfl⟩
  · exact .inl rfl

/-- A database may change if its tasks stay those scheduled for it. -/
theorem Inv.modify (h : Inv env s) {f : RegisteredDatabase → RegisteredDatabase}
    (hid : ∀ d, (f d).id = d.id)
    (hf : ∀ d ∈ s.databases, d.id = id → ∀ t ∈ s.pending, Scheduled d t → Scheduled (f d) t) :
    Inv env (s.modify id f) where
  numbered := h.numbered.modify id hid
  once := h.once
  closed i hi := by
    refine ⟨(h.closed i hi).1, fun e he => ?_⟩
    obtain ⟨d, hd, rfl⟩ := mem_modify.mp he
    split_ifs
    · rw [hid]
      exact (h.closed i hi).2 d hd
    · exact (h.closed i hi).2 d hd
  due := h.due
  order := h.order
  owner t ht := by
    obtain ⟨d, hd, hscheduled⟩ := h.owner t ht
    refine ⟨_, mem_modify.mpr ⟨d, hd, rfl⟩, ?_⟩
    split_ifs with hdid
    · exact hf d hd hdid t ht hscheduled
    · exact hscheduled

/-- A task stays the scheduled one when the database is used again. -/
theorem Scheduled.use (h : Scheduled d t) :
    Scheduled { d with useCount := d.useCount + 1, opens := d.opens + 1 } t :=
  ⟨h.id, h.timePoint, h.opens.trans (Nat.le_succ _), fun _ => Nat.lt_succ_of_le h.opens,
    fun huse => absurd huse (Nat.succ_ne_zero _)⟩

/-- Another use keeps the invariant. -/
theorem Inv.use (h : Inv env s) (id : ℕ) : Inv env (s.use id) :=
  h.modify (fun _ => rfl) fun _ _ _ _ _ => Scheduled.use

/-- An object without tasks may be closed. -/
theorem Inv.close (h : Inv env s) (hd : d ∈ s.databases)
    (htasks : ∀ t ∈ s.pending, t.task.id ≠ d.id) : Inv env (s.close d.id) where
  numbered := h.numbered.close d.id
  once := by
    refine h.once.append (List.nodup_singleton _) fun id hclosed hid => ?_
    exact (h.closed id hclosed).2 d hd (List.mem_singleton.mp hid).symm
  closed id hid := by
    rcases List.mem_append.mp hid with hid | hid
    · exact ⟨(h.closed id hid).1, fun e he => (h.closed id hid).2 e (mem_close.mp he).1⟩
    · rw [List.mem_singleton.mp hid]
      exact ⟨h.numbered.lt d hd, fun e he => (mem_close.mp he).2⟩
  due := h.due
  order := h.order
  owner t ht := by
    obtain ⟨e, he, hscheduled⟩ := h.owner t ht
    exact ⟨e, mem_close.mpr ⟨he, fun heq => htasks t ht (hscheduled.id.symm.trans heq)⟩, hscheduled⟩

/-- A new database keeps the invariant: no task has its id. -/
theorem Inv.register (h : Inv env s) (request name : DatabaseName) :
    Inv env (s.register request name) where
  numbered := h.numbered.register request name
  once := h.once
  closed id hid := by
    obtain ⟨hlt, hne⟩ := h.closed id hid
    refine ⟨hlt.trans (Nat.lt_succ_self _), fun d hd => ?_⟩
    rcases List.mem_append.mp hd with hd | hd
    · exact hne d hd
    · rw [List.mem_singleton.mp hd]
      exact hlt.ne'
  due := h.due
  order := h.order
  owner t ht := by
    obtain ⟨d, hd, hscheduled⟩ := h.owner t ht
    exact ⟨d, List.mem_append_left _ hd, hscheduled⟩

/-- An object that could not be loaded has no task yet. -/
theorem Inv.create (h : Inv env s) (request name : DatabaseName) (mode : OpenMode)
    (loaded : DatabaseOpenResponse.Result) : Inv env (s.create request name mode loaded).2 := by
  have hregister := h.register request name
  rw [Registry.create.eq_def]
  cases name with
  | mem n =>
    dsimp only
    split_ifs
    · exact h
    · exact hregister.use _
  | file path =>
    have hopened : Inv env { s.register request (.file path) with
        opened := s.opened ++ [(request, .file path)] } :=
      ⟨⟨hregister.numbered.nodup, hregister.numbered.lt⟩, hregister.once, hregister.closed,
        hregister.due, hregister.order, hregister.owner⟩
    dsimp only
    split_ifs
    · exact hopened.use _
    · refine hopened.close (List.mem_append_right _ (List.mem_singleton_self _)) fun t ht => ?_
      obtain ⟨d, hd, hscheduled⟩ := h.owner t ht
      rw [← hscheduled.id]
      exact (h.numbered.lt d hd).ne

/-- The new object is in use, if it remains registered. -/
theorem mem_create (he : e ∈ (s.create request name mode loaded).2.databases) :
    e ∈ s.databases ∨ e.id = s.nextId ∧ 0 < e.useCount := by
  have huse : ∀ d ∈ (s.register request name).databases,
      (if d.id = s.nextId then
        { d with useCount := d.useCount + 1, opens := d.opens + 1 } else d) ∈ s.databases ∨
      (if d.id = s.nextId then
        { d with useCount := d.useCount + 1, opens := d.opens + 1 } else d).id = s.nextId ∧
      0 < (if d.id = s.nextId then
        { d with useCount := d.useCount + 1, opens := d.opens + 1 } else d).useCount := by
    intro d hd
    split_ifs with hid
    · exact .inr ⟨hid, Nat.succ_pos _⟩
    · rcases List.mem_append.mp hd with hd | hd
      · exact .inl hd
      · rw [List.mem_singleton.mp hd] at hid
        exact absurd rfl hid
  rw [Registry.create.eq_def] at he
  cases name with
  | mem n =>
    dsimp only at he
    split_ifs at he
    · exact .inl he
    · obtain ⟨d, hd, rfl⟩ := mem_modify.mp he
      exact huse d hd
  | file path =>
    dsimp only at he
    split_ifs at he
    · obtain ⟨d, hd, rfl⟩ := mem_modify.mp he
      exact huse d hd
    · obtain ⟨hd, hne⟩ := mem_close.mp he
      rcases List.mem_append.mp hd with hd | hd
      · exact .inl hd
      · rw [List.mem_singleton.mp hd] at hne
        exact absurd rfl hne

/-- Creating a database schedules nothing. -/
theorem pending_create : (s.create request name mode loaded).2.pending = s.pending := by
  rw [Registry.create.eq_def]
  cases name with
  | mem n =>
    dsimp only
    split_ifs <;> rfl
  | file path =>
    dsimp only
    split_ifs <;> rfl

theorem Waits.create (h : Waits s) (request name : DatabaseName) (mode : OpenMode)
    (loaded : DatabaseOpenResponse.Result) : Waits (s.create request name mode loaded).2 := by
  intro e he huse
  rw [pending_create]
  rcases mem_create he with he | ⟨-, hpos⟩
  · exact h e he huse
  · omega

theorem Waits.use (h : Waits s) (id : ℕ) : Waits (s.use id) := by
  intro e he huse
  obtain ⟨d, hd, rfl⟩ := mem_modify.mp he
  split_ifs at huse ⊢
  exact h d hd huse

/-! ### Steps -/

/-- Opening keeps the invariant, when no database with a task is replaced. -/
theorem Inv.openDatabase (h : Inv env s ∧ Waits s)
    (hok : KeepsTasks env s (.openDatabase request mode loaded)) :
    Inv env (s.openDatabase env request mode loaded).2 ∧
      Waits (s.openDatabase env request mode loaded).2 := by
  rw [Registry.openDatabase]
  cases hlookup : s.lookup env request with
  | none => exact h
  | some r =>
    obtain ⟨_ | d, name⟩ := r
    · exact ⟨h.1.create request name mode loaded, h.2.create request name mode loaded⟩
    · cases mode with
      | createAlways =>
        dsimp only
        rw [if_pos (hok _ hlookup d rfl)]
        exact h
      | createFailIfExist => exact h
      | createIfNotExist => exact ⟨h.1.use d.id, h.2.use d.id⟩
      | openFailIfNotExist => exact ⟨h.1.use d.id, h.2.use d.id⟩

/-- Time may pass. -/
theorem Inv.mono (h : Inv env s) (hnow : s.now ≤ now) : Inv env { s with now } :=
  ⟨⟨h.numbered.nodup, h.numbered.lt⟩, h.once, h.closed,
    fun t ht => (h.due t ht).trans (Int.add_le_add_right hnow _), h.order, h.owner⟩

/-- The new task is the last one of all. -/
theorem pending_runAt (now : ℤ) {timePoint : ℤ} (task : CloseTask)
    (h : ∀ t ∈ s.pending, t.timePoint ≤ timePoint) :
    ({ s with now, scheduler := s.scheduler.runAt timePoint task } : Registry).pending =
      s.pending ++ [⟨timePoint, task⟩] := by
  rw [pending, pending, List.append_assoc]
  dsimp only
  rw [Scheduler.scheduledTasks_runAt fun t ht => h t (List.mem_append_right _ ht)]

/-- A task is scheduled for an object that was just released, which had none for that time. -/
theorem Inv.schedule (h : Inv env s) (hd : d ∈ s.databases) (hnow : s.now ≤ now)
    (hunused : d.useCount = 0) (hat : d.delayedCloseAt = now + env.closeDelay)
    (hnever : ∀ t ∈ s.pending, t.task.id = d.id → t.timePoint ≠ now + env.closeDelay) :
    Inv env { s with
      now, scheduler := s.scheduler.runAt (now + env.closeDelay) ⟨d.id, d.opens⟩ } := by
  have hdue : ∀ t ∈ s.pending, t.timePoint ≤ now + env.closeDelay := fun t ht =>
    (h.due t ht).trans (Int.add_le_add_right hnow _)
  have hpending := pending_runAt now ⟨d.id, d.opens⟩ hdue
  refine ⟨⟨h.numbered.nodup, h.numbered.lt⟩, h.once, h.closed, fun t ht => ?_, ?_, fun t ht => ?_⟩
  · rw [hpending] at ht
    rcases List.mem_append.mp ht with ht | ht
    · exact hdue t ht
    · rw [List.mem_singleton.mp ht]
  · rw [hpending]
    refine List.pairwise_append.mpr ⟨h.order, List.pairwise_singleton _ _,
      fun t ht t' ht' hid => ?_⟩
    obtain rfl := List.mem_singleton.mp ht'
    exact lt_of_le_of_ne (hdue t ht) (hnever t ht hid)
  · rw [hpending] at ht
    rcases List.mem_append.mp ht with ht | ht
    · exact h.owner t ht
    · obtain rfl := List.mem_singleton.mp ht
      exact ⟨d, hd, rfl, hat.ge, le_rfl, fun hpos => absurd hunused hpos.ne', fun _ _ => rfl⟩

/-- Releasing keeps the invariant: the last user schedules the close. -/
theorem Inv.release (hdelay : 0 < env.closeDelay) (h : Inv env s ∧ Waits s) (hd : d ∈ s.databases)
    (huse : 0 < d.useCount) (hnow : s.now ≤ now) (hok : KeepsTasks env s (.release d.id now)) :
    Inv env (s.release env d now) ∧ Waits (s.release env d now) := by
  rw [Registry.release]
  by_cases hlast : d.useCount = 1
  · rw [if_pos hlast, if_pos hdelay]
    set f : RegisteredDatabase → RegisteredDatabase := fun d =>
      { d with useCount := 0, delayedCloseAt := now + env.closeDelay }
    have hnever := hok d hd rfl hlast
    have hdue : ∀ t ∈ s.pending, t.timePoint ≤ now + env.closeDelay := fun t ht =>
      (h.1.due t ht).trans (Int.add_le_add_right hnow _)
    have hmodify : Inv env (s.modify d.id f) := by
      refine h.1.modify (fun _ => rfl) fun e _ hid t ht hscheduled => ?_
      refine ⟨hscheduled.id, hdue t ht, hscheduled.opens, fun hpos => absurd hpos (lt_irrefl _),
        fun _ htimePoint => ?_⟩
      exact absurd htimePoint.symm (hnever t ht (hscheduled.id.symm.trans hid))
    have hf : f d ∈ (s.modify d.id f).databases := mem_modify.mpr ⟨d, hd, (if_pos rfl).symm⟩
    refine ⟨hmodify.schedule (d := f d) hf hnow rfl rfl hnever, fun e he hunused => ?_⟩
    have hpending := pending_runAt (s := s.modify d.id f) now ⟨d.id, d.opens⟩ hdue
    obtain ⟨e', he', rfl⟩ := mem_modify.mp he
    split_ifs at hunused ⊢ with hid
    · exact ⟨_, hpending ▸ List.mem_append_right _ (List.mem_singleton_self _), hid.symm, rfl⟩
    · obtain ⟨t, ht, htask⟩ := h.2 e' he' hunused
      exact ⟨t, hpending ▸ List.mem_append_left _ ht, htask⟩
  · rw [if_neg hlast]
    have hmodify : Inv env (s.modify d.id fun d => { d with useCount := d.useCount - 1 }) := by
      refine h.1.modify (fun _ => rfl) fun e he hid t _ hscheduled => ?_
      obtain rfl := h.1.numbered.eq_of_id he hd hid
      exact ⟨hscheduled.id, hscheduled.timePoint, hscheduled.opens, fun _ => hscheduled.inUse huse,
        fun hzero => absurd hzero (by dsimp only; omega)⟩
    refine ⟨hmodify.mono hnow, fun e he hunused => ?_⟩
    obtain ⟨e', he', rfl⟩ := mem_modify.mp he
    split_ifs at hunused ⊢ with hid
    · obtain rfl := h.1.numbered.eq_of_id he' hd hid
      exact absurd hunused (by dsimp only; omega)
    · exact h.2 e' he' hunused

/-- A task that was posted runs later, and the tasks stay in their order. -/
theorem pending_postTask {scheduler : Scheduler CloseTask}
    (hpost : s.scheduler.postTask now = some (t, scheduler)) :
    ({ s with now, scheduler, packets := s.packets ++ [t] } : Registry).pending = s.pending := by
  obtain ⟨rest, hrest, -, rfl⟩ := Scheduler.postTask_eq_some_iff.mp hpost
  rw [pending, pending, hrest, List.append_assoc, List.singleton_append]

/-- The next task keeps the invariant: it closes a database that is live and unused. -/
theorem Inv.nextTask (h : Inv env s ∧ Waits s) (hstep : step env s (.nextTask now) = some s') :
    Inv env s' ∧ Waits s' := by
  obtain ⟨hnow, ⟨-, rfl⟩ | ⟨t, scheduler, hpost, rfl⟩⟩ := step_nextTask hstep
  · exact ⟨h.1.mono hnow, h.2⟩
  · have hpending := pending_postTask hpost
    refine ⟨⟨⟨h.1.numbered.nodup, h.1.numbered.lt⟩, h.1.once, h.1.closed, ?_, ?_, ?_⟩, ?_⟩
    · rw [hpending]
      exact (h.1.mono hnow).due
    · rw [hpending]
      exact h.1.order
    · rw [hpending]
      exact h.1.owner
    · intro d hd
      rw [hpending]
      exact h.2 d hd

/-- The task that closes an object was the last one of the object. -/
theorem Inv.runTask (h : Inv env s ∧ Waits s) (hstep : step env s .runTask = some s') :
    Inv env s' ∧ Waits s' := by
  obtain ⟨t, packets, hpackets, d, hd, hid, rfl⟩ := step_runTask hstep
  have hpending : s.pending = t :: ({ s with packets } : Registry).pending := by
    rw [pending, pending, hpackets, List.cons_append]
  have ht : t ∈ s.pending := hpending ▸ List.mem_cons_self
  obtain ⟨hbefore, horder⟩ := List.pairwise_cons.mp (hpending ▸ h.1.order)
  have hrest : ∀ t' ∈ ({ s with packets } : Registry).pending, t' ∈ s.pending := fun t' ht' =>
    hpending ▸ List.mem_cons_of_mem _ ht'
  have htail : Inv env { s with packets } := ⟨⟨h.1.numbered.nodup, h.1.numbered.lt⟩, h.1.once,
    h.1.closed, fun t' ht' => h.1.due t' (hrest t' ht'), horder,
    fun t' ht' => h.1.owner t' (hrest t' ht')⟩
  have hscheduled := h.1.scheduled ht hd hid
  have hwaits : ∀ e ∈ s.databases, e.useCount = 0 → (e.id = d.id → d.delayedCloseAt ≠ t.timePoint) →
      ∃ t' ∈ ({ s with packets } : Registry).pending,
        t'.task.id = e.id ∧ t'.timePoint = e.delayedCloseAt := by
    intro e he hunused hne
    obtain ⟨t', ht', htask, htimePoint⟩ := h.2 e he hunused
    rcases List.mem_cons.mp (hpending ▸ ht') with rfl | ht'
    · have hed := h.1.numbered.eq_of_id he hd (htask.symm.trans hid.symm)
      rw [hed] at htimePoint
      exact absurd htimePoint.symm (hne (congrArg _ hed))
    · exact ⟨t', ht', htask, htimePoint⟩
  split_ifs with hclose
  · refine ⟨htail.close hd fun t' ht' hsame => ?_, fun e he hunused => ?_⟩
    · have hlt := hbefore t' ht' (hid.symm.trans hsame.symm)
      have hle := (h.1.scheduled (hrest t' ht') hd hsame.symm).timePoint
      rw [hclose.2] at hle
      exact absurd hle (not_le.mpr hlt)
    · obtain ⟨he, hne⟩ := mem_close.mp he
      exact hwaits e he hunused fun hed => absurd hed hne
  · refine ⟨htail, fun e he hunused => hwaits e he hunused fun hed htimePoint => hclose ?_⟩
    obtain rfl := h.1.numbered.eq_of_id he hd hed
    exact ⟨hunused, htimePoint⟩

/-- Each step keeps the invariant. -/
theorem Inv.step (hdelay : 0 < env.closeDelay) (h : Inv env s ∧ Waits s) (hok : KeepsTasks env s a)
    (hstep : Registry.step env s a = some s') : Inv env s' ∧ Waits s' := by
  cases a with
  | openDatabase request mode loaded =>
    obtain rfl := Option.some_inj.mp hstep
    exact Inv.openDatabase h hok
  | release id now =>
    obtain ⟨d, hd, rfl, huse, hnow, rfl⟩ := step_release hstep
    exact Inv.release hdelay h hd huse hnow hok
  | nextTask now => exact Inv.nextTask h hstep
  | runTask => exact Inv.runTask h hstep

/-- The task of the object that is closed at once is left without an object. -/
theorem not_closesLive_of_recreated (h : Inv env s ∧ Waits s)
    (hlookup : s.lookup env request = some (some d, name)) (hunused : d.useCount = 0) :
    ¬ClosesLive (s.openDatabase env request .createAlways loaded).2 := by
  intro hlive
  rw [Registry.openDatabase, hlookup] at hlive
  dsimp only at hlive
  rw [if_neg (by omega)] at hlive
  change ClosesLive ((s.close d.id).create request name .createAlways loaded).2 at hlive
  rcases lookup_eq_some hlookup with ⟨d', hd, hr, -⟩ | ⟨hnone, -⟩
  · obtain ⟨hdd', -⟩ := Prod.mk.inj hr
    obtain rfl := Option.some_inj.mp hdd'
    obtain ⟨t, ht, htask, -⟩ := h.2 d hd hunused
    obtain ⟨e, he, hid⟩ := hlive.live t (by rwa [pending_create])
    rcases mem_create he with he | ⟨hnew, -⟩
    · exact (mem_close.mp he).2 (hid.trans htask)
    · exact (h.1.numbered.lt d hd).ne ((hid.trans htask).symm.trans hnew)
  · cases hnone

/-- The earlier task would close the object although it was opened since. -/
theorem not_closesLive_of_sameTime (hdelay : 0 < env.closeDelay) (h : Inv env s)
    (hd : d ∈ s.databases) (hlast : d.useCount = 1) (ht : t ∈ s.pending) (htask : t.task.id = d.id)
    (htimePoint : t.timePoint = now + env.closeDelay) : ¬ClosesLive (s.release env d now) := by
  intro hlive
  have hopened := (h.scheduled ht hd htask.symm).inUse (hlast ▸ Nat.one_pos)
  rw [Registry.release, if_pos hlast, if_pos hdelay] at hlive
  refine hopened.ne (hlive.unopened t ?_ _ (mem_modify.mpr ⟨d, hd, (if_pos rfl).symm⟩) htask.symm
    rfl htimePoint.symm).symm
  rcases List.mem_append.mp ht with ht | ht
  · exact List.mem_append_left _ ht
  · exact List.mem_append_right _ ((List.perm_orderedInsert _ _ _).mem_iff.mpr
      (List.mem_cons_of_mem _ ht))

/-- A step that loses the database of a task leaves a task without a live one. -/
theorem not_closesLive_of_losesTask (hdelay : 0 < env.closeDelay) (h : Inv env s ∧ Waits s)
    (hok : ¬KeepsTasks env s a) (hstep : Registry.step env s a = some s') : ¬ClosesLive s' := by
  intro hlive
  refine hok ?_
  cases a with
  | openDatabase request mode loaded =>
    obtain rfl := Option.some_inj.mp hstep
    cases mode with
    | createAlways =>
      rintro ⟨o, name⟩ hlookup d rfl
      by_contra hunused
      exact not_closesLive_of_recreated h hlookup (Nat.eq_zero_of_not_pos hunused) hlive
    | createFailIfExist | createIfNotExist | openFailIfNotExist => exact trivial
  | release id now =>
    obtain ⟨d, hd, rfl, huse, hnow, rfl⟩ := step_release hstep
    intro e he hid hlast t ht htask htimePoint
    obtain rfl := h.1.numbered.eq_of_id he hd hid
    exact not_closesLive_of_sameTime hdelay h.1 hd hlast ht htask htimePoint hlive
  | nextTask | runTask => exact trivial

/-- Tasks only act on their live objects as long as each one keeps its object and its time. -/
theorem closesLive_of_keepsTasks (hdelay : 0 < env.closeDelay) {start : ℤ} {as : List Action}
    (h : GuardedRun (Registry.step env) (KeepsTasks env) (initial start) as s) :
    ClosesLive s ∧ ∀ a s', Registry.step env s a = some s' →
      (ClosesLive s' ↔ KeepsTasks env s a) :=
  h.exact (I := fun _ s => Inv env s ∧ Waits s) (P := fun _ s => ClosesLive s)
    ⟨⟨⟨List.nodup_nil, fun _ => (nomatch ·)⟩, List.nodup_nil, fun _ => (nomatch ·),
      fun _ => (nomatch ·), .nil, fun _ => (nomatch ·)⟩, fun _ => (nomatch ·)⟩
    (fun _ _ _ _ hinv => Inv.step hdelay hinv) (fun _ _ hinv => hinv.1.closesLive)
    fun _ _ _ _ hinv => not_closesLive_of_losesTask hdelay hinv

/-- A database is opened again before the first task runs, and closed by the second one. -/
theorem closesLive_of_keepsTasks_reopened : ∃ as s,
    GuardedRun (Registry.step (relativeNames 5)) (KeepsTasks (relativeNames 5)) (initial 0) as s ∧
      ClosesLive s ∧ s.databases = [] ∧ s.closed = [0] := by
  let as : List Action := [.openDatabase (.file 3) .createIfNotExist .success, .release 0 1,
    .openDatabase (.file 3) .openFailIfNotExist .success, .nextTask 6, .release 0 7, .runTask,
    .nextTask 12, .runTask]
  have hplay : (GuardedRun.play (Registry.step (relativeNames 5)) (KeepsTasks (relativeNames 5)) as
      (initial 0)).map (fun s => decide (s.databases = [] ∧ s.closed = [0])) = some true := by
    decide +kernel
  obtain ⟨s, hs, hplay⟩ := Option.map_eq_some_iff.mp hplay
  obtain ⟨hdatabases, hclosed⟩ := of_decide_eq_true hplay
  have hrun := GuardedRun.of_play hs
  exact ⟨as, s, hrun, (closesLive_of_keepsTasks (by decide) hrun).1, hdatabases, hclosed⟩

/-- A database is created anew while it waits to be closed. The task that runs then has no
object. -/
theorem not_closesLive_of_createAlways : ∃ as s,
    GuardedRun (Registry.step (relativeNames 5)) (fun _ _ => True) (initial 0) as s ∧
      s.packets = [⟨6, 0, 1⟩] ∧ s.databases.map RegisteredDatabase.id = [1] ∧ s.closed = [0] ∧
      Registry.step (relativeNames 5) s .runTask = none ∧ ¬ClosesLive s := by
  let as : List Action := [.openDatabase (.file 3) .createIfNotExist .success, .release 0 1,
    .openDatabase (.file 3) .createAlways .success, .nextTask 6]
  have hplay : (GuardedRun.play (Registry.step (relativeNames 5)) (fun _ _ => True) as
      (initial 0)).map (fun s => decide (s.packets = [⟨6, 0, 1⟩] ∧
        s.databases.map RegisteredDatabase.id = [1] ∧ s.closed = [0] ∧
        Registry.step (relativeNames 5) s .runTask = none)) = some true := by
    decide +kernel
  obtain ⟨s, hs, hplay⟩ := Option.map_eq_some_iff.mp hplay
  obtain ⟨hpackets, hids, hclosed, hrun⟩ := of_decide_eq_true hplay
  refine ⟨as, s, GuardedRun.of_play hs, hpackets, hids, hclosed, hrun, fun h => ?_⟩
  obtain ⟨d, hd, hid⟩ := h.live ⟨6, 0, 1⟩ (by
    rw [pending, hpackets]
    exact List.mem_cons_self)
  have hmem : d.id ∈ s.databases.map RegisteredDatabase.id := List.mem_map_of_mem hd
  rw [hids, hid] at hmem
  exact absurd (List.mem_singleton.mp hmem) Nat.zero_ne_one

end Registry

end BlobsDb
