import BlobsDb.ForMathlib.SharedLock

/-!
# Books of locks

A `LockBook` has at most one `SharedLock` at each location. For every client it also keeps the
list of the locations the client locked (`held`), and the list of those that were taken away from
it (`revoked`) and that it has not been told about. The two lists are changed at other times than
the locks: a lock that is taken away stays in the client's list until the client asks.

`Agrees` is what ties them together. It is kept by acquiring what can be acquired, by releasing
what is held, and by taking away what inactive clients hold.
-/

structure LockBook (κ γ : Type*) where
  locks : κ → Option (SharedLock γ)
  held : γ → List κ
  revoked : γ → List κ

namespace LockBook

variable {κ γ : Type*} [DecidableEq κ] [DecidableEq γ]

/-- No locks. -/
def empty : LockBook κ γ := ⟨fun _ => none, fun _ => [], fun _ => []⟩

def canAcquire (active : γ → Bool) (b : LockBook κ γ) (client : γ) (location : κ)
    (write : Bool) : Bool :=
  match b.locks location with
  | none => true
  | some lock => lock.canAcquire active client write

/-- The active clients that keep a client from a lock. -/
def conflicts (active : γ → Bool) (b : LockBook κ γ) (client : γ) (write : Bool)
    (location : κ) : List γ :=
  match b.locks location with
  | none => []
  | some lock => lock.collectConflictingClients active client write

def ownsWriteLock (b : LockBook κ γ) (client : γ) (location : κ) : Bool :=
  match b.locks location with
  | none => false
  | some lock => lock.ownsWriteLock client

/-- Notes that a lock was taken away from a client. -/
def revoke (location : κ) (revoked : γ → List κ) (client : γ) : γ → List κ :=
  Function.update revoked client (revoked client ++ [location])

/-- Locks a location, taking it away from others. -/
def acquireLock (client : γ) (write : Bool) (b : LockBook κ γ) (location : κ) : LockBook κ γ :=
  match b.locks location with
  | none => { b with locks := Function.update b.locks location (some (.new client write)) }
  | some lock =>
    { b with
      locks := Function.update b.locks location (some (lock.acquire client write).1)
      revoked := (lock.acquire client write).2.foldl (revoke location) b.revoked }

/-- Enters a location in the list of a client, once. -/
def addLock (client : γ) (b : LockBook κ γ) (location : κ) : LockBook κ γ :=
  if location ∈ b.held client then b
  else { b with held := Function.update b.held client (b.held client ++ [location]) }

/-- Locks several locations, and then enters them in the list of the client. -/
def acquireLocks (b : LockBook κ γ) (client : γ) (write : Bool) (locations : List κ) :
    LockBook κ γ :=
  locations.foldl (addLock client) (locations.foldl (acquireLock client write) b)

/-- Write locks several locations nobody holds. The list of the client is just extended. -/
def acquireImplicitWriteLocks (b : LockBook κ γ) (client : γ) (locations : List κ) :
    LockBook κ γ :=
  let b := locations.foldl (acquireLock client true) b
  { b with held := Function.update b.held client (b.held client ++ locations) }

/-- Gives up a lock; there has to be one. -/
def releaseLock (client : γ) (b : LockBook κ γ) (location : κ) : Option (LockBook κ γ) :=
  match b.locks location with
  | none => none
  | some lock =>
    some { b with
      locks := Function.update b.locks location
        (if (lock.release client).2 then none else some (lock.release client).1) }

def releaseLocks (b : LockBook κ γ) (client : γ) (locations : List κ) : Option (LockBook κ γ) :=
  locations.foldlM (releaseLock client) b

/-- Replaces the list of a client. -/
def setHeld (b : LockBook κ γ) (client : γ) (locations : List κ) : LockBook κ γ :=
  { b with held := Function.update b.held client locations }

/-- The client has been told what was taken away from it. -/
def clearRevoked (b : LockBook κ γ) (client : γ) : LockBook κ γ :=
  { b with revoked := Function.update b.revoked client [] }

/-- Takes the locations that were taken away off the list of a client. -/
def applyRevokedLocks (b : LockBook κ γ) (client : γ) : LockBook κ γ :=
  b.setHeld client ((b.held client).filter (· ∉ b.revoked client))

/-- Gives up all locks in the list of a client. -/
def releaseHeld (b : LockBook κ γ) (client : γ) : Option (LockBook κ γ) :=
  match b.releaseLocks client (b.held client) with
  | none => none
  | some b => some (b.setHeld client [])

/-- Gives up all locks a client still has. -/
def releaseAll (b : LockBook κ γ) (client : γ) : Option (LockBook κ γ) :=
  ((b.applyRevokedLocks client).clearRevoked client).releaseHeld client

/-- Gives up the locks of a client that a test picks. -/
def releaseIf (b : LockBook κ γ) (client : γ) (test : κ → Bool) : Option (LockBook κ γ) :=
  match b.releaseLocks client ((b.held client).filter test) with
  | none => none
  | some b => some (b.setHeld client ((b.held client).filter fun l => !test l))

/-- The lock at the location is held by the client. -/
def HeldBy (b : LockBook κ γ) (location : κ) (client : γ) : Prop :=
  ∃ lock, b.locks location = some lock ∧ lock.Holds client

/-- All locks are held by somebody. -/
def WF (b : LockBook κ γ) : Prop := ∀ location lock, b.locks location = some lock → lock.WF

/-- The lists of the clients tell who holds which lock. -/
structure Agrees (active : γ → Bool) (b : LockBook κ γ) : Prop where
  wf : b.WF
  heldBy : ∀ l c, b.HeldBy l c ↔ l ∈ b.held c ∧ l ∉ b.revoked c
  nodup_held : ∀ c, (b.held c).Nodup
  nodup_revoked : ∀ c, (b.revoked c).Nodup
  revoked_subset : ∀ c, b.revoked c ⊆ b.held c
  active : ∀ c, active c = true → b.revoked c = []

section

variable {active : γ → Bool} {b b' : LockBook κ γ} {c d z : γ} {l l' : κ} {ls : List κ}
  {w w' : Bool}

/-! ### The single lock -/

omit [DecidableEq κ] in
/-- A lock can be acquired if and only if no one is in conflict. -/
theorem canAcquire_iff :
    b.canAcquire active c l w = true ↔ ∀ z, z ∉ b.conflicts active c w l := by
  unfold canAcquire conflicts
  cases b.locks l with
  | none => simp
  | some lock => exact SharedLock.canAcquire_iff

omit [DecidableEq κ] in
/-- Only other active clients are in conflict. -/
theorem ne_of_mem_conflicts (h : z ∈ b.conflicts active c w l) : z ≠ c ∧ active z = true := by
  unfold conflicts at h
  cases hl : b.locks l with
  | none =>
    rw [hl] at h
    cases h
  | some lock =>
    rw [hl] at h
    obtain ⟨h1, h2, -⟩ := SharedLock.mem_collectConflictingClients.mp h
    exact ⟨h1, h2⟩

/-- An acquired lock is joined, or is a new one. -/
theorem locks_acquireLock : (acquireLock c w b l).locks = Function.update b.locks l
    (some (((b.locks l).map fun lock => (lock.acquire c w).1).getD (.new c w))) := by
  unfold acquireLock
  cases b.locks l <;> rfl

/-- Who loses a lock to the new holder is told so. -/
theorem revoked_acquireLock : (acquireLock c w b l).revoked =
    (((b.locks l).map fun lock => (lock.acquire c w).2).getD []).foldl (revoke l) b.revoked := by
  unfold acquireLock
  cases b.locks l <;> rfl

@[simp]
theorem held_acquireLock : (acquireLock c w b l).held = b.held := by
  unfold acquireLock
  cases b.locks l <;> rfl

omit [DecidableEq κ] in
/-- What is revoked after some holders lost a lock. -/
theorem mem_foldl_revoke {zs : List γ} {r : γ → List κ} :
    l' ∈ zs.foldl (revoke l) r d ↔ l' ∈ r d ∨ l' = l ∧ d ∈ zs := by
  induction zs generalizing r with
  | nil => simp
  | cons z zs ih =>
    rw [List.foldl_cons, ih, revoke]
    by_cases hd : d = z
    · subst hd
      rw [Function.update_self, List.mem_append, List.mem_singleton]
      simp only [List.mem_cons_self, and_true]
      tauto
    · rw [Function.update_of_ne hd, List.mem_cons]
      tauto

omit [DecidableEq κ] in
/-- A lock is revoked once, if no one who loses it was told before. -/
theorem nodup_foldl_revoke {zs : List γ} {r : γ → List κ} (hz : zs.Nodup)
    (hr : (r d).Nodup) (hl : d ∈ zs → l ∉ r d) : (zs.foldl (revoke l) r d).Nodup := by
  induction zs generalizing r with
  | nil => exact hr
  | cons z zs ih =>
    obtain ⟨hz1, hz2⟩ := List.nodup_cons.mp hz
    rw [List.foldl_cons]
    refine ih hz2 ?_ fun hd => ?_
    · rw [revoke]
      by_cases hd : d = z
      · subst hd
        rw [Function.update_self]
        exact List.nodup_append'.mpr ⟨hr, List.nodup_singleton _,
          fun x hx hx' => hl List.mem_cons_self (List.mem_singleton.mp hx' ▸ hx)⟩
      · rw [Function.update_of_ne hd]
        exact hr
    · rw [revoke, Function.update_of_ne fun h : d = z => hz1 (h ▸ hd)]
      exact hl (List.mem_cons_of_mem _ hd)

/-- Acquiring keeps locks that are held. -/
theorem wf_acquireLock (h : b.WF) : (acquireLock c w b l).WF := by
  intro l' lock hl
  rw [locks_acquireLock] at hl
  by_cases hll : l' = l
  · subst hll
    rw [Function.update_self] at hl
    obtain rfl := Option.some.inj hl
    cases hb : b.locks l' with
    | none => exact SharedLock.wf_new
    | some lock => exact SharedLock.wf_acquire (h _ _ hb)
  · rw [Function.update_of_ne hll] at hl
    exact h _ _ hl

/-- Releasing keeps locks that are held: one that nobody holds any more is gone. -/
theorem wf_releaseLock (h : b.WF) (hb : releaseLock c b l = some b') : b'.WF := by
  unfold releaseLock at hb
  cases hl : b.locks l with
  | none =>
    rw [hl] at hb
    cases hb
  | some lock =>
    rw [hl] at hb
    obtain rfl := Option.some.inj hb
    intro l' lock' hl'
    by_cases hll : l' = l
    · subst hll
      simp only [Function.update_self] at hl'
      cases he : (lock.release c).2 with
      | true => simp [he] at hl'
      | false =>
        simp only [he, Bool.false_eq_true, if_false, Option.some.injEq] at hl'
        exact hl' ▸ SharedLock.wf_release (h _ _ hl) he
    · simp only [Function.update_of_ne hll] at hl'
      exact h _ _ hl'

/-- Conflicts with others stay when a client locks what it can. -/
theorem mem_conflicts_acquireLock (hcan : b.canAcquire active c l w = true)
    (hz : z ∈ b.conflicts active d w' l') :
    z ∈ (acquireLock c w b l).conflicts active d w' l' := by
  unfold conflicts at hz ⊢
  rw [locks_acquireLock]
  by_cases hll : l' = l
  · subst hll
    rw [Function.update_self]
    unfold canAcquire at hcan
    cases hb : b.locks l' with
    | none =>
      rw [hb] at hz
      cases hz
    | some lock =>
      rw [hb] at hz hcan
      exact SharedLock.mem_collectConflictingClients_acquire hcan hz
  · rw [Function.update_of_ne hll]
    exact hz

/-- Other clients get no new conflicts when a client locks. -/
theorem mem_conflicts_of_acquireLock (h : b.WF) (hzc : z ≠ c)
    (hz : z ∈ (acquireLock c w b l).conflicts active d w' l') :
    z ∈ b.conflicts active d w' l' := by
  unfold conflicts at hz ⊢
  rw [locks_acquireLock] at hz
  by_cases hll : l' = l
  · subst hll
    rw [Function.update_self] at hz
    cases hb : b.locks l' with
    | none =>
      rw [hb] at hz
      obtain ⟨-, -, hz⟩ := SharedLock.mem_collectConflictingClients.mp hz
      have hholds : (SharedLock.new c w).Holds z :=
        hz.elim Or.inr fun ⟨_, _, hread⟩ => Or.inl hread
      exact absurd (SharedLock.holds_new.mp hholds) hzc
    | some lock =>
      rw [hb] at hz
      exact SharedLock.mem_collectConflictingClients_of_acquire (h _ _ hb) hzc hz
  · rwa [Function.update_of_ne hll] at hz

/-- A client that locked is in conflict with others. -/
theorem mem_conflicts_acquireLock_self (ha : active c = true) (hd : d ≠ c)
    (hw : w = true ∨ w' = true) : c ∈ (acquireLock c w b l).conflicts active d w' l := by
  unfold conflicts
  rw [locks_acquireLock, Function.update_self]
  cases b.locks l with
  | none => exact SharedLock.mem_collectConflictingClients_new ha hd hw
  | some lock => exact SharedLock.mem_collectConflictingClients_acquire_self ha hd hw

/-- What a client releases does not change the conflicts with others. -/
theorem mem_conflicts_releaseLock (hb : releaseLock c b l = some b') (hzc : z ≠ c)
    (hz : z ∈ b.conflicts active d w' l') : z ∈ b'.conflicts active d w' l' := by
  unfold releaseLock at hb
  cases hl : b.locks l with
  | none =>
    rw [hl] at hb
    cases hb
  | some lock =>
    rw [hl] at hb
    obtain rfl := Option.some.inj hb
    unfold conflicts at hz ⊢
    by_cases hll : l' = l
    · subst hll
      rw [hl] at hz
      obtain ⟨hz', he⟩ := SharedLock.mem_collectConflictingClients_release hzc hz
      simp only [Function.update_self, he, Bool.false_eq_true, if_false]
      exact hz'
    · simp only [Function.update_of_ne hll]
      exact hz

/-- A client that locked something can still lock what it could in the same mode. -/
theorem canAcquire_acquireLock (hcan : b.canAcquire active c l' w = true) :
    (acquireLock c w b l).canAcquire active c l' w = true := by
  unfold canAcquire at hcan ⊢
  rw [locks_acquireLock]
  by_cases hll : l' = l
  · subst hll
    rw [Function.update_self]
    cases hb : b.locks l' with
    | none => exact SharedLock.canAcquire_new
    | some lock => exact SharedLock.canAcquire_acquire
  · rw [Function.update_of_ne hll]
    exact hcan

/-! ### Several locks -/

/-- What each acquisition keeps holds after all of them, where the next one may rely on what has
been acquired so far. -/
theorem foldl_acquireLock_of {P : LockBook κ γ → Prop}
    (hP : ∀ b l, P b → b.canAcquire active c l w = true → P (acquireLock c w b l))
    (hcan : ∀ l ∈ ls, b.canAcquire active c l w = true) (hb : P b) :
    P (ls.foldl (acquireLock c w) b) := by
  induction ls generalizing b with
  | nil => exact hb
  | cons l ls ih =>
    exact ih (fun l' hl' => canAcquire_acquireLock (hcan l' (List.mem_cons_of_mem _ hl')))
      (hP b l hb (hcan l List.mem_cons_self))

@[simp]
theorem locks_addLock : (addLock c b l).locks = b.locks := by
  unfold addLock
  split_ifs <;> rfl

@[simp]
theorem revoked_addLock : (addLock c b l).revoked = b.revoked := by
  unfold addLock
  split_ifs <;> rfl

theorem foldl_addLock_locks : (ls.foldl (addLock c) b).locks = b.locks ∧
    (ls.foldl (addLock c) b).revoked = b.revoked := by
  induction ls generalizing b with
  | nil => exact ⟨rfl, rfl⟩
  | cons l ls ih =>
    obtain ⟨h1, h2⟩ := ih (b := addLock c b l)
    exact ⟨h1.trans locks_addLock, h2.trans revoked_addLock⟩

/-- The locks after acquiring several are those after acquiring one after another. -/
theorem locks_acquireLocks : (b.acquireLocks c w ls).locks =
    (ls.foldl (acquireLock c w) b).locks := foldl_addLock_locks.1

omit [DecidableEq κ] in
/-- Conflicts are read off the locks, not off the lists. -/
theorem conflicts_congr (h : b'.locks = b.locks) :
    b'.conflicts active c w l = b.conflicts active c w l := by
  unfold conflicts
  rw [h]

omit [DecidableEq κ] [DecidableEq γ] in
theorem wf_congr (h : b'.locks = b.locks) (hb : b.WF) : b'.WF := by
  unfold WF
  rw [h]
  exact hb

/-- Conflicts with others stay when a client locks several locations it can lock. -/
theorem mem_conflicts_acquireLocks (hcan : ∀ l ∈ ls, b.canAcquire active c l w = true)
    (hz : z ∈ b.conflicts active d w' l') :
    z ∈ (b.acquireLocks c w ls).conflicts active d w' l' := by
  rw [conflicts_congr locks_acquireLocks]
  exact foldl_acquireLock_of (P := fun b => z ∈ b.conflicts active d w' l')
    (fun b l hb hcan => mem_conflicts_acquireLock hcan hb) hcan hz

/-- A client that locked several locations is in conflict with others at all of them. -/
theorem mem_conflicts_acquireLocks_self (hcan : ∀ l ∈ ls, b.canAcquire active c l w = true)
    (ha : active c = true) (hd : d ≠ c) (hw : w = true ∨ w' = true) (hl : l ∈ ls) :
    c ∈ (b.acquireLocks c w ls).conflicts active d w' l := by
  rw [conflicts_congr locks_acquireLocks]
  induction ls generalizing b with
  | nil => cases hl
  | cons l₁ ls ih =>
    have hcan' : ∀ l ∈ ls, (acquireLock c w b l₁).canAcquire active c l w = true := fun l hl =>
      canAcquire_acquireLock (hcan l (List.mem_cons_of_mem _ hl))
    rw [List.foldl_cons]
    rcases List.mem_cons.mp hl with rfl | hl
    · exact foldl_acquireLock_of (P := fun b => c ∈ b.conflicts active d w' l)
        (fun b l hb hcan => mem_conflicts_acquireLock hcan hb) hcan'
        (mem_conflicts_acquireLock_self ha hd hw)
    · exact ih hcan' hl

/-- Acquiring several locks keeps locks that are held. -/
theorem wf_foldl_acquireLock (h : b.WF) : (ls.foldl (acquireLock c w) b).WF := by
  induction ls generalizing b with
  | nil => exact h
  | cons l ls ih => exact ih (wf_acquireLock h)

/-- Other clients get no new conflicts when a client locks several locations. -/
theorem mem_conflicts_of_acquireLocks (h : b.WF) (hzc : z ≠ c)
    (hz : z ∈ (b.acquireLocks c w ls).conflicts active d w' l') :
    z ∈ b.conflicts active d w' l' := by
  rw [conflicts_congr locks_acquireLocks] at hz
  induction ls generalizing b with
  | nil => exact hz
  | cons l ls ih => exact mem_conflicts_of_acquireLock h hzc (ih (wf_acquireLock h) hz)

theorem wf_acquireLocks (h : b.WF) : (b.acquireLocks c w ls).WF :=
  wf_congr locks_acquireLocks (wf_foldl_acquireLock h)

theorem wf_acquireImplicitWriteLocks (h : b.WF) : (b.acquireImplicitWriteLocks c ls).WF :=
  wf_congr (b := ls.foldl (acquireLock c true) b) rfl (wf_foldl_acquireLock h)

/-- What is kept by each release is kept by several. -/
theorem releaseLocks_of {P : LockBook κ γ → Prop}
    (hP : ∀ b b' l, P b → releaseLock c b l = some b' → P b')
    (hb : b.releaseLocks c ls = some b') (h : P b) : P b' := by
  induction ls generalizing b with
  | nil =>
    obtain rfl := Option.some.inj hb
    exact h
  | cons l ls ih =>
    rw [releaseLocks, List.foldlM_cons] at hb
    obtain ⟨b₁, h1, h2⟩ := Option.bind_eq_some_iff.mp hb
    exact ih h2 (hP b b₁ l h h1)

theorem wf_releaseLocks (hb : b.releaseLocks c ls = some b') (h : b.WF) : b'.WF :=
  releaseLocks_of (P := WF) (fun _ _ _ h hb => wf_releaseLock h hb) hb h

/-- Releasing locks of one client removes no conflict with another. -/
theorem mem_conflicts_releaseLocks (hb : b.releaseLocks c ls = some b') (hzc : z ≠ c)
    (hz : z ∈ b.conflicts active d w' l') : z ∈ b'.conflicts active d w' l' :=
  releaseLocks_of (P := fun b => z ∈ b.conflicts active d w' l')
    (fun _ _ _ h hb => mem_conflicts_releaseLock hb hzc h) hb hz

/-- Releasing what is held is releasing the list, and then emptying it. -/
theorem releaseHeld_eq_some_iff : b.releaseHeld c = some b' ↔
    ∃ b₁, b.releaseLocks c (b.held c) = some b₁ ∧ b' = b₁.setHeld c [] := by
  unfold releaseHeld
  cases b.releaseLocks c (b.held c) <;> simp [eq_comm]

theorem wf_releaseHeld (hb : b.releaseHeld c = some b') (h : b.WF) : b'.WF := by
  obtain ⟨b₁, h1, rfl⟩ := releaseHeld_eq_some_iff.mp hb
  exact wf_congr (b := b₁) rfl (wf_releaseLocks h1 h)

/-- Releasing what a client holds removes no conflict with another. -/
theorem mem_conflicts_releaseHeld (hb : b.releaseHeld c = some b') (hzc : z ≠ c)
    (hz : z ∈ b.conflicts active d w' l') : z ∈ b'.conflicts active d w' l' := by
  obtain ⟨b₁, h1, rfl⟩ := releaseHeld_eq_some_iff.mp hb
  have hz' := mem_conflicts_releaseLocks h1 hzc hz
  exact hz'

theorem wf_releaseAll (hb : b.releaseAll c = some b') (h : b.WF) : b'.WF :=
  wf_releaseHeld hb (wf_congr (b := b) rfl h)

/-- Releasing all that a client has removes no conflict with another. -/
theorem mem_conflicts_releaseAll (hb : b.releaseAll c = some b') (hzc : z ≠ c)
    (hz : z ∈ b.conflicts active d w' l') : z ∈ b'.conflicts active d w' l' :=
  mem_conflicts_releaseHeld hb hzc hz

/-- Releasing a lock leaves the lists. -/
theorem lists_releaseLock (hb : releaseLock c b l = some b') :
    b'.held = b.held ∧ b'.revoked = b.revoked := by
  unfold releaseLock at hb
  split at hb
  · cases hb
  · obtain rfl := Option.some.inj hb
    exact ⟨rfl, rfl⟩

/-- Releasing locks leaves the lists. -/
theorem lists_releaseLocks (hb : b.releaseLocks c ls = some b') :
    b'.held = b.held ∧ b'.revoked = b.revoked :=
  releaseLocks_of (P := fun b₁ => b₁.held = b.held ∧ b₁.revoked = b.revoked)
    (fun _ _ _ h hb => ⟨(lists_releaseLock hb).1.trans h.1, (lists_releaseLock hb).2.trans h.2⟩) hb
    ⟨rfl, rfl⟩

/-- A client that gave up all locks has none in its lists. -/
theorem nil_of_releaseAll (hb : b.releaseAll c = some b') :
    b'.held c = [] ∧ b'.revoked c = [] := by
  obtain ⟨b₁, h1, rfl⟩ := releaseHeld_eq_some_iff.mp hb
  refine ⟨Function.update_self _ _ _, ?_⟩
  change b₁.revoked c = []
  rw [(lists_releaseLocks h1).2]
  exact Function.update_self _ _ _

/-- A client without locks, and with none taken away from it, has nothing to give up. -/
theorem eq_of_releaseAll_of_nil (hheld : b.held c = []) (hrevoked : b.revoked c = [])
    (hb : b.releaseAll c = some b') : b' = b := by
  have hupdate : Function.update b.held c [] = b.held := by
    rw [← hheld, Function.update_eq_self]
  have hlists : (b.applyRevokedLocks c).clearRevoked c = b := by
    simp only [applyRevokedLocks, clearRevoked, setHeld, hheld, List.filter_nil, hupdate]
    rw [← hrevoked, Function.update_eq_self]
  obtain ⟨b₁, h1, rfl⟩ := releaseHeld_eq_some_iff.mp hb
  rw [hlists, hheld] at h1
  obtain rfl := Option.some.inj h1
  rw [setHeld, hupdate]

/-- Releasing part of what is held is releasing those that pass the test, and keeping the rest in
the list. -/
theorem releaseIf_eq_some_iff {test : κ → Bool} : b.releaseIf c test = some b' ↔
    ∃ b₁, b.releaseLocks c ((b.held c).filter test) = some b₁ ∧
      b' = b₁.setHeld c ((b₁.held c).filter fun l => !test l) := by
  unfold releaseIf
  cases b.releaseLocks c ((b.held c).filter test) <;> simp [eq_comm]

theorem wf_releaseIf {test : κ → Bool} (hb : b.releaseIf c test = some b') (h : b.WF) :
    b'.WF := by
  obtain ⟨b₁, h1, rfl⟩ := releaseIf_eq_some_iff.mp hb
  exact wf_congr (b := b₁) rfl (wf_releaseLocks h1 h)

/-- Releasing part of what a client holds removes no conflict with another. -/
theorem mem_conflicts_releaseIf {test : κ → Bool} (hb : b.releaseIf c test = some b') (hzc : z ≠ c)
    (hz : z ∈ b.conflicts active d w' l') : z ∈ b'.conflicts active d w' l' := by
  obtain ⟨b₁, h1, rfl⟩ := releaseIf_eq_some_iff.mp hb
  have hz' := mem_conflicts_releaseLocks h1 hzc hz
  exact hz'

/-! ### Who holds what -/

/-- Who holds locks after one was acquired: the new holder, and those who did not lose it. -/
theorem heldBy_acquireLock (h : b.WF) : (acquireLock c w b l).HeldBy l' d ↔
    if l' = l then d = c ∨ b.HeldBy l d ∧
      d ∉ ((b.locks l).map fun lock => (lock.acquire c w).2).getD [] else b.HeldBy l' d := by
  unfold HeldBy
  rw [locks_acquireLock]
  split_ifs with hll
  · subst hll
    rw [Function.update_self]
    cases hb : b.locks l' with
    | none => simp [SharedLock.holds_new]
    | some lock => simp [SharedLock.holds_acquire (h _ _ hb)]
  · rw [Function.update_of_ne hll]

/-- Who holds locks after one was released: all but the client that released it. -/
theorem heldBy_releaseLock (h : b.WF) (hc : b.HeldBy l c) (hb : releaseLock c b l = some b') :
    b'.HeldBy l' d ↔ b.HeldBy l' d ∧ ¬(d = c ∧ l' = l) := by
  obtain ⟨lock, hlock, hholds⟩ := hc
  unfold releaseLock at hb
  rw [hlock] at hb
  obtain rfl := Option.some.inj hb
  unfold HeldBy
  by_cases hll : l' = l
  · subst hll
    simp only [Function.update_self, hlock, Option.some.injEq, exists_eq_left', and_true]
    rw [← SharedLock.holds_release (h _ _ hlock) hholds]
    split_ifs with he
    · -- nobody is left
      constructor
      · rintro ⟨_, hnone, -⟩
        cases hnone
      · intro hd
        obtain ⟨hd, hne⟩ := (SharedLock.holds_release (h _ _ hlock) hholds).mp hd
        exact absurd (SharedLock.not_holds_of_release (h _ _ hlock) hholds he hd) hne
    · simp
  · simp [hll]

/-- A client releases what it holds, each lock once. -/
theorem heldBy_releaseLocks (h : b.WF) (hn : ls.Nodup) (hc : ∀ l ∈ ls, b.HeldBy l c)
    (hb : b.releaseLocks c ls = some b') :
    b'.HeldBy l' d ↔ b.HeldBy l' d ∧ ¬(d = c ∧ l' ∈ ls) := by
  induction ls generalizing b with
  | nil =>
    obtain rfl := Option.some.inj hb
    simp
  | cons l ls ih =>
    obtain ⟨hl, hn⟩ := List.nodup_cons.mp hn
    rw [releaseLocks, List.foldlM_cons] at hb
    obtain ⟨b₁, h1, h2⟩ := Option.bind_eq_some_iff.mp hb
    have hstep : ∀ l' d, b₁.HeldBy l' d ↔ b.HeldBy l' d ∧ ¬(d = c ∧ l' = l) := fun _ _ =>
      heldBy_releaseLock h (hc l List.mem_cons_self) h1
    have hrest : ∀ l' ∈ ls, b₁.HeldBy l' c := fun l' hl' =>
      (hstep l' c).mpr ⟨hc l' (List.mem_cons_of_mem _ hl'), fun hll => hl (hll.2 ▸ hl')⟩
    rw [ih (wf_releaseLock h h1) hn hrest h2, hstep, List.mem_cons]
    tauto

namespace Agrees

omit [DecidableEq κ] [DecidableEq γ] in
/-- It matters which clients are active only as far as they lost locks. -/
theorem of_active {active' : γ → Bool} (h : Agrees active b)
    (hactive : ∀ c, active' c = true → b.revoked c = []) : Agrees active' b :=
  { h with active := hactive }

omit [DecidableEq κ] [DecidableEq γ] in
/-- With no locks, locks and lists agree. -/
theorem empty : Agrees active (LockBook.empty : LockBook κ γ) where
  wf _ _ h := nomatch h
  heldBy l c := by
    refine iff_of_false (fun h => ?_) fun h => List.not_mem_nil h.1
    obtain ⟨_, h, -⟩ := h
    cases h
  nodup_held _ := List.nodup_nil
  nodup_revoked _ := List.nodup_nil
  revoked_subset _ := List.Subset.refl _
  active _ _ := rfl

omit [DecidableEq κ] [DecidableEq γ] in
/-- There are no locks if no client has a location in its list. -/
theorem locks_eq_none (h : Agrees active b) (hheld : ∀ c, b.held c = []) (l : κ) :
    b.locks l = none := by
  cases hl : b.locks l with
  | none => rfl
  | some lock =>
    obtain ⟨c, hc⟩ : ∃ c, lock.Holds c := by
      rcases h.wf l lock hl with ⟨c, hc, -⟩ | ⟨-, hne, -⟩
      · exact ⟨c, Or.inr hc⟩
      · obtain ⟨c, hc⟩ := List.exists_mem_of_ne_nil _ hne
        exact ⟨c, Or.inl hc⟩
    have hmem := ((h.heldBy l c).mp ⟨lock, hl, hc⟩).1
    rw [hheld c] at hmem
    cases hmem

end Agrees

/-- While an active client locks several locations, it holds some that are not in its list yet. -/
structure AgreesBut (active : γ → Bool) (c : γ) (ls : List κ) (b : LockBook κ γ) : Prop where
  wf : b.WF
  heldBy : ∀ l d, b.HeldBy l d ↔ (l ∈ b.held d ∧ l ∉ b.revoked d) ∨ d = c ∧ l ∈ ls
  nodup_held : ∀ d, (b.held d).Nodup
  nodup_revoked : ∀ d, (b.revoked d).Nodup
  revoked_subset : ∀ d, b.revoked d ⊆ b.held d
  active : ∀ d, active d = true → b.revoked d = []

omit [DecidableEq κ] [DecidableEq γ] in
/-- Agreement is agreement up to no locks. -/
theorem Agrees.but (h : Agrees active b) (c : γ) : AgreesBut active c [] b :=
  ⟨h.wf, fun l d => by simp [h.heldBy], h.nodup_held, h.nodup_revoked, h.revoked_subset, h.active⟩

/-- Locks are taken away from inactive clients only. -/
theorem AgreesBut.acquireLock (h : AgreesBut active c ls b)
    (hcan : b.canAcquire active c l w = true) :
    AgreesBut active c (ls ++ [l]) (acquireLock c w b l) := by
  set taken := ((b.locks l).map fun lock => (lock.acquire c w).2).getD [] with htaken
  have hrevoked : ∀ {l' d}, l' ∈ (LockBook.acquireLock c w b l).revoked d ↔
      l' ∈ b.revoked d ∨ l' = l ∧ d ∈ taken := by
    rw [revoked_acquireLock]
    exact mem_foldl_revoke
  -- a lock is taken from inactive holders only, who are told of it once
  have hloser : ∀ d ∈ taken, d ≠ c ∧ active d = false ∧ l ∈ b.held d ∧ l ∉ b.revoked d := by
    intro d hd
    rw [htaken] at hd
    cases hlock : b.locks l with
    | none =>
      rw [hlock] at hd
      cases hd
    | some lock =>
      rw [hlock] at hd
      have hne : d ≠ c := fun hdc => SharedLock.not_mem_acquire_self (hdc ▸ hd)
      rw [canAcquire, hlock] at hcan
      have hheld := (h.heldBy l d).mp ⟨lock, hlock, SharedLock.mem_acquire_holds hd⟩
      exact ⟨hne, SharedLock.mem_acquire_inactive hcan hd (h.wf _ _ hlock),
        hheld.resolve_right fun hdc => hne hdc.1⟩
  refine ⟨wf_acquireLock h.wf, fun l' d => ?_, fun d => ?_, fun d => ?_, fun d l' hl' => ?_,
    fun d hd => ?_⟩
  · rw [heldBy_acquireLock h.wf, held_acquireLock, hrevoked, List.mem_append, List.mem_singleton]
    split_ifs with hll
    · subst hll
      by_cases hdc : d = c
      · simp [hdc]
      · simp only [hdc, false_or, h.heldBy, false_and, or_false, true_and]
        tauto
    · simp [h.heldBy, hll]
  · rw [held_acquireLock]
    exact h.nodup_held d
  · rw [revoked_acquireLock, ← htaken]
    refine nodup_foldl_revoke ?_ (h.nodup_revoked d) fun hd => (hloser d hd).2.2.2
    cases hlock : b.locks l with
    | none =>
      rw [htaken, hlock]
      exact List.nodup_nil
    | some lock =>
      rw [htaken, hlock]
      exact SharedLock.nodup_acquire (h.wf _ _ hlock)
  · rw [held_acquireLock]
    rcases hrevoked.mp hl' with hl' | ⟨rfl, hd⟩
    · exact h.revoked_subset d hl'
    · exact (hloser d hd).2.2.1
  · rw [List.eq_nil_iff_forall_not_mem]
    intro l' hl'
    rcases hrevoked.mp hl' with hl' | ⟨-, hd'⟩
    · rw [h.active d hd] at hl'
      cases hl'
    · rw [(hloser d hd').2.1] at hd
      cases hd

/-- Locks that are acquired, but not yet listed, are the ones to except. -/
theorem AgreesBut.foldl_acquireLock {ls' : List κ} (h : AgreesBut active c ls b)
    (hcan : ∀ l ∈ ls', b.canAcquire active c l w = true) :
    AgreesBut active c (ls ++ ls') (ls'.foldl (LockBook.acquireLock c w) b) := by
  induction ls' generalizing b ls with
  | nil => rwa [List.append_nil]
  | cons l ls' ih =>
    obtain ⟨hl, hls⟩ := List.forall_mem_cons.mp hcan
    have hrest := ih (h.acquireLock hl) fun l' hl' => canAcquire_acquireLock (hls l' hl')
    rwa [List.append_assoc] at hrest

/-- Adding lists the lock once more. -/
theorem mem_held_addLock : l' ∈ (addLock c b l).held d ↔ l' ∈ b.held d ∨ d = c ∧ l' = l := by
  unfold addLock
  split_ifs with hl
  · constructor
    · exact Or.inl
    · rintro (h | ⟨rfl, rfl⟩)
      · exact h
      · exact hl
  · by_cases hd : d = c
    · subst hd
      simp
    · simp [hd]

/-- A lock is listed once, also if it is added again. -/
theorem nodup_held_addLock (h : (b.held d).Nodup) : ((addLock c b l).held d).Nodup := by
  unfold addLock
  split_ifs with hl
  · exact h
  · dsimp only
    by_cases hd : d = c
    · subst hd
      rw [Function.update_self]
      exact List.nodup_append'.mpr ⟨h, List.nodup_singleton _,
        fun x hx hx' => hl (List.mem_singleton.mp hx' ▸ hx)⟩
    · rw [Function.update_of_ne hd]
      exact h

/-- Adding several locks lists them, each once. -/
theorem foldl_addLock_held : (∀ l' d, l' ∈ (ls.foldl (addLock c) b).held d ↔
    l' ∈ b.held d ∨ d = c ∧ l' ∈ ls) ∧
    ((∀ d, (b.held d).Nodup) → ∀ d, ((ls.foldl (addLock c) b).held d).Nodup) := by
  induction ls generalizing b with
  | nil => simp
  | cons l ls ih =>
    obtain ⟨h1, h2⟩ := ih (b := addLock c b l)
    refine ⟨fun l' d => ?_, fun h => h2 fun d => nodup_held_addLock (h d)⟩
    rw [List.foldl_cons, h1, mem_held_addLock, List.mem_cons]
    tauto

omit [DecidableEq κ] [DecidableEq γ] in
theorem heldBy_congr (h : b'.locks = b.locks) : b'.HeldBy l c ↔ b.HeldBy l c := by
  unfold HeldBy
  rw [h]

/-- Acquiring alone lists nothing. -/
theorem held_foldl_acquireLock : (ls.foldl (acquireLock c w) b).held = b.held := by
  induction ls generalizing b with
  | nil => rfl
  | cons l ls ih => exact ih.trans held_acquireLock

/-- The locks that are listed after acquiring several. -/
theorem mem_held_acquireLocks :
    l ∈ (b.acquireLocks c w ls).held d ↔ l ∈ b.held d ∨ d = c ∧ l ∈ ls := by
  rw [LockBook.acquireLocks, foldl_addLock_held.1, held_foldl_acquireLock]

/-- The same for locks that are acquired over the locks of others. -/
theorem mem_held_acquireImplicitWriteLocks :
    l ∈ (b.acquireImplicitWriteLocks c ls).held d ↔ l ∈ b.held d ∨ d = c ∧ l ∈ ls := by
  rw [acquireImplicitWriteLocks]
  dsimp only
  rw [held_foldl_acquireLock]
  by_cases hd : d = c
  · subst hd
    simp
  · simp [hd]

omit [DecidableEq κ] in
theorem mem_held_setHeld :
    l ∈ (b.setHeld c ls).held d ↔ if d = c then l ∈ ls else l ∈ b.held d := by
  rw [setHeld]
  dsimp only
  split_ifs with hd
  · rw [hd, Function.update_self]
  · rw [Function.update_of_ne hd]

/-- What is told, given up or released is on no other list. -/
theorem mem_held_of_applyRevokedLocks
    (hl : l ∈ ((b.applyRevokedLocks c).clearRevoked c).held d) : l ∈ b.held d := by
  have hset : l ∈ (b.applyRevokedLocks c).held d := hl
  rw [applyRevokedLocks, mem_held_setHeld] at hset
  split_ifs at hset with hd
  · exact hd ▸ List.mem_of_mem_filter hset
  · exact hset

/-- Releasing lists nothing. -/
theorem mem_held_of_releaseHeld (hb : b.releaseHeld c = some b') (hl : l ∈ b'.held d) :
    l ∈ b.held d := by
  obtain ⟨b₁, h1, rfl⟩ := releaseHeld_eq_some_iff.mp hb
  rw [mem_held_setHeld, (lists_releaseLocks h1).1] at hl
  split_ifs at hl
  · cases hl
  · exact hl

/-- Releasing all lists nothing. -/
theorem mem_held_of_releaseAll (hb : b.releaseAll c = some b') (hl : l ∈ b'.held d) :
    l ∈ b.held d :=
  mem_held_of_applyRevokedLocks (mem_held_of_releaseHeld hb hl)

/-- Releasing part lists nothing. -/
theorem mem_held_of_releaseIf {test : κ → Bool} (hb : b.releaseIf c test = some b')
    (hl : l ∈ b'.held d) : l ∈ b.held d := by
  obtain ⟨b₁, h1, rfl⟩ := releaseIf_eq_some_iff.mp hb
  rw [mem_held_setHeld, (lists_releaseLocks h1).1] at hl
  split_ifs at hl with hd
  · exact hd ▸ List.mem_of_mem_filter hl
  · exact hl

namespace Agrees

/-- An active client locks what it can. -/
theorem acquireLocks (h : Agrees active b) (hc : active c = true)
    (hcan : ∀ l ∈ ls, b.canAcquire active c l w = true) :
    Agrees active (b.acquireLocks c w ls) := by
  have hbut := (h.but c).foldl_acquireLock hcan
  rw [List.nil_append] at hbut
  set b₁ := ls.foldl (acquireLock c w) b
  obtain ⟨hlocks, hrevoked⟩ : (ls.foldl (addLock c) b₁).locks = b₁.locks ∧
    (ls.foldl (addLock c) b₁).revoked = b₁.revoked := foldl_addLock_locks
  obtain ⟨hheld, hnodup⟩ : (∀ l' d, l' ∈ (ls.foldl (addLock c) b₁).held d ↔
    l' ∈ b₁.held d ∨ d = c ∧ l' ∈ ls) ∧ ((∀ d, (b₁.held d).Nodup) → ∀ d,
      ((ls.foldl (addLock c) b₁).held d).Nodup) := foldl_addLock_held
  refine ⟨wf_congr hlocks hbut.wf, fun l d => ?_, hnodup hbut.nodup_held, fun d => ?_,
    fun d l hl => ?_, fun d hd => ?_⟩
  · rw [LockBook.acquireLocks, heldBy_congr hlocks, hbut.heldBy, hheld, hrevoked]
    by_cases hdc : d = c
    · subst hdc
      simp [hbut.active d hc]
    · simp [hdc]
  · rw [LockBook.acquireLocks, hrevoked]
    exact hbut.nodup_revoked d
  · rw [LockBook.acquireLocks, hrevoked] at hl
    exact (hheld l d).mpr (Or.inl (hbut.revoked_subset d hl))
  · rw [LockBook.acquireLocks, hrevoked]
    exact hbut.active d hd

end Agrees

/-- The locations that a client may be granted: it has none of them, nobody who is active is in
conflict, and none is there twice. -/
structure Free (active : γ → Bool) (b : LockBook κ γ) (c : γ) (ls : List κ) : Prop where
  nodup : ls.Nodup
  not_mem : ∀ l ∈ ls, l ∉ b.held c
  canAcquire : ∀ l ∈ ls, b.canAcquire active c l true = true

instance : Decidable (Free active b c ls) :=
  decidable_of_iff (ls.Nodup ∧ (∀ l ∈ ls, l ∉ b.held c) ∧
      ∀ l ∈ ls, b.canAcquire active c l true = true)
    ⟨fun h => ⟨h.1, h.2.1, h.2.2⟩, fun h => ⟨h.nodup, h.not_mem, h.canAcquire⟩⟩

namespace Agrees

/-- Locks and lists agree after acquiring over the locks of others, where these are free. -/
theorem acquireImplicitWriteLocks (h : Agrees active b) (hc : active c = true)
    (hfree : Free active b c ls) : Agrees active (b.acquireImplicitWriteLocks c ls) := by
  have hbut := (h.but c).foldl_acquireLock hfree.canAcquire
  rw [List.nil_append] at hbut
  set b₁ := ls.foldl (acquireLock c true) b with hb₁
  have hheld : b₁.held = b.held := held_foldl_acquireLock
  refine ⟨hbut.wf, fun l d => ?_, fun d => ?_, hbut.nodup_revoked, fun d l hl => ?_, hbut.active⟩
  · rw [mem_held_acquireImplicitWriteLocks]
    change b₁.HeldBy l d ↔ _ ∧ l ∉ b₁.revoked d
    rw [hbut.heldBy, hheld]
    by_cases hdc : d = c
    · subst hdc
      simp [hbut.active d hc]
    · simp [hdc]
  · rw [LockBook.acquireImplicitWriteLocks, ← hb₁]
    dsimp only
    by_cases hd : d = c
    · subst hd
      rw [Function.update_self, hheld]
      exact List.nodup_append'.mpr ⟨h.nodup_held d, hfree.nodup,
        fun l hl hl' => hfree.not_mem l hl' hl⟩
    · rw [Function.update_of_ne hd, hheld]
      exact h.nodup_held d
  · have hmem : l ∈ b₁.held d := hbut.revoked_subset d hl
    exact mem_held_acquireImplicitWriteLocks.mpr (Or.inl (hheld ▸ hmem))

/-- A client releases some of its locks, none of which was taken away, and takes them off its
list. -/
theorem releaseLocks_setHeld {kept : List κ} (h : Agrees active b) (hrevoked : b.revoked c = [])
    (hn : ls.Nodup) (hls : ls ⊆ b.held c) (hkept : kept.Nodup)
    (hmem : ∀ l, l ∈ kept ↔ l ∈ b.held c ∧ l ∉ ls) (hb : b.releaseLocks c ls = some b') :
    Agrees active (b'.setHeld c kept) := by
  have hheldBy : ∀ l ∈ ls, b.HeldBy l c := fun l hl =>
    (h.heldBy l c).mpr ⟨hls hl, by rw [hrevoked]; exact List.not_mem_nil⟩
  obtain ⟨hheld, hrevoked'⟩ := lists_releaseLocks hb
  have hself : (b'.setHeld c kept).held c = kept := Function.update_self _ _ _
  have hother : ∀ d, d ≠ c → (b'.setHeld c kept).held d = b.held d := fun d hd =>
    (Function.update_of_ne hd _ _).trans (congrFun hheld d)
  refine ⟨wf_congr (b := b') rfl (wf_releaseLocks hb h.wf), fun l d => ?_, fun d => ?_, fun d => ?_,
    fun d => ?_, fun d hd => ?_⟩
  · change b'.HeldBy l d ↔ _ ∧ l ∉ b'.revoked d
    rw [heldBy_releaseLocks h.wf hn hheldBy hb, h.heldBy, hrevoked']
    by_cases hd : d = c
    · subst hd
      rw [hself, hmem, hrevoked]
      simp
    · rw [hother d hd]
      simp [hd]
  · by_cases hd : d = c
    · rw [hd, hself]
      exact hkept
    · rw [hother d hd]
      exact h.nodup_held d
  · change (b'.revoked d).Nodup
    rw [hrevoked']
    exact h.nodup_revoked d
  · change b'.revoked d ⊆ _
    rw [hrevoked']
    by_cases hd : d = c
    · rw [hd, hrevoked]
      exact List.nil_subset _
    · rw [hother d hd]
      exact h.revoked_subset d
  · change b'.revoked d = []
    rw [hrevoked']
    exact h.active d hd

/-- Locks and lists agree after a client without revoked locks releases what it holds. -/
theorem releaseHeld (h : Agrees active b) (hrevoked : b.revoked c = [])
    (hb : b.releaseHeld c = some b') : Agrees active b' := by
  obtain ⟨b₁, h1, rfl⟩ := releaseHeld_eq_some_iff.mp hb
  exact h.releaseLocks_setHeld hrevoked (h.nodup_held c) (List.Subset.refl _) List.nodup_nil
    (fun l => by simp) h1

/-- The same when it releases part of it. -/
theorem releaseIf {test : κ → Bool} (h : Agrees active b) (hrevoked : b.revoked c = [])
    (hb : b.releaseIf c test = some b') : Agrees active b' := by
  obtain ⟨b₁, h1, rfl⟩ := releaseIf_eq_some_iff.mp hb
  rw [(lists_releaseLocks h1).1]
  refine h.releaseLocks_setHeld hrevoked ((h.nodup_held c).filter _) (List.filter_subset_self _)
    ((h.nodup_held c).filter _) (fun l => ?_) h1
  simp only [List.mem_filter, not_and, Bool.not_eq_true']
  exact and_congr_right fun hl => ⟨fun ht _ => by simp [ht], fun ht => Bool.eq_false_iff.mpr (ht hl)⟩

/-- A client is told what it lost. -/
theorem applyRevokedLocks (h : Agrees active b) (c : γ) :
    Agrees active ((b.applyRevokedLocks c).clearRevoked c) := by
  have hheld : ∀ d, ((b.applyRevokedLocks c).clearRevoked c).held d =
      if d = c then (b.held c).filter (· ∉ b.revoked c) else b.held d := fun d => by
    by_cases hd : d = c
    · subst hd
      rw [if_pos rfl]
      exact Function.update_self _ _ _
    · rw [if_neg hd]
      exact Function.update_of_ne hd _ _
  have hrevoked : ∀ d, ((b.applyRevokedLocks c).clearRevoked c).revoked d =
      if d = c then [] else b.revoked d := fun d => by
    by_cases hd : d = c
    · subst hd
      rw [if_pos rfl]
      exact Function.update_self _ _ _
    · rw [if_neg hd]
      exact Function.update_of_ne hd _ _
  refine ⟨wf_congr (b := b) rfl h.wf, fun l d => ?_, fun d => ?_, fun d => ?_, fun d => ?_,
    fun d hd => ?_⟩
  · change b.HeldBy l d ↔ _
    rw [hheld, hrevoked, h.heldBy]
    split_ifs with hd
    · subst hd
      simp
    · rfl
  · rw [hheld]
    split_ifs
    · exact (h.nodup_held c).filter _
    · exact h.nodup_held d
  · rw [hrevoked]
    split_ifs
    · exact List.nodup_nil
    · exact h.nodup_revoked d
  · rw [hheld, hrevoked]
    split_ifs
    · exact List.nil_subset _
    · exact h.revoked_subset d
  · rw [hrevoked, h.active d hd, ite_self]

/-- Locks and lists agree after a client releases all that it has. -/
theorem releaseAll (h : Agrees active b) (hb : b.releaseAll c = some b') : Agrees active b' :=
  (h.applyRevokedLocks c).releaseHeld (Function.update_self _ _ _) hb

end Agrees

/-! ### Who held what before -/

omit [DecidableEq κ] in
/-- Who has a write lock is the only one who holds a lock. -/
theorem eq_of_ownsWriteLock (h : b.WF) (hown : b.ownsWriteLock c l = true) (hd : b.HeldBy l d) :
    d = c := by
  obtain ⟨lock, hlock, hd⟩ := hd
  rw [ownsWriteLock, hlock] at hown
  have hwrite := SharedLock.ownsWriteLock_iff.mp hown
  rcases h l lock hlock with ⟨w, hw, hread⟩ | ⟨hw, -⟩
  · rcases hd with hd | hd
    · rw [hread] at hd
      cases hd
    · exact Option.some.inj (hd.symm.trans hwrite)
  · rw [hw] at hwrite
    cases hwrite

omit [DecidableEq κ] in
/-- Who owns a write lock holds the lock. -/
theorem heldBy_of_ownsWriteLock (hown : b.ownsWriteLock c l = true) : b.HeldBy l c := by
  unfold ownsWriteLock at hown
  split at hown
  · cases hown
  · next lock hlock => exact ⟨lock, hlock, Or.inr (SharedLock.ownsWriteLock_iff.mp hown)⟩

omit [DecidableEq κ] in
/-- Who is in conflict holds the lock. -/
theorem heldBy_of_mem_conflicts (hz : z ∈ b.conflicts active c w l) : b.HeldBy l z := by
  unfold conflicts at hz
  split at hz
  · cases hz
  · next lock hlock =>
    obtain ⟨-, -, hwrite | ⟨-, -, hread⟩⟩ := SharedLock.mem_collectConflictingClients.mp hz
    · exact ⟨lock, hlock, Or.inr hwrite⟩
    · exact ⟨lock, hlock, Or.inl hread⟩

omit [DecidableEq κ] in
/-- Who has a lock and is active keeps all others from a write lock. -/
theorem mem_conflicts_of_heldBy (h : b.WF) (hheld : b.HeldBy l z) (hz : active z = true)
    (hzd : z ≠ d) : z ∈ b.conflicts active d true l := by
  obtain ⟨lock, hlock, hholds⟩ := hheld
  unfold conflicts
  rw [hlock]
  refine SharedLock.mem_collectConflictingClients.mpr ⟨hzd, hz, ?_⟩
  rcases h l lock hlock with ⟨v, hw, hr⟩ | ⟨hw, -, -⟩
  · rcases hholds with hread | hwrite
    · rw [hr] at hread
      exact absurd hread List.not_mem_nil
    · exact Or.inl hwrite
  · rcases hholds with hread | hwrite
    · exact Or.inr ⟨hw, rfl, hread⟩
    · exact Or.inl hwrite

/-- Who holds a lock after some were acquired held it before, or acquired it. -/
theorem heldBy_of_foldl_acquireLock (h : b.WF)
    (hd : (ls.foldl (acquireLock c w) b).HeldBy l d) : b.HeldBy l d ∨ d = c ∧ l ∈ ls := by
  induction ls generalizing b with
  | nil => exact Or.inl hd
  | cons l' ls ih =>
    rcases ih (wf_acquireLock h) hd with hd | ⟨hd, hl⟩
    · rw [heldBy_acquireLock h] at hd
      split_ifs at hd with hll
      · rcases hd with hd | hd
        · exact Or.inr ⟨hd, hll ▸ List.mem_cons_self⟩
        · exact Or.inl (hll ▸ hd.1)
      · exact Or.inl hd
    · exact Or.inr ⟨hd, List.mem_cons_of_mem _ hl⟩

theorem heldBy_of_acquireLocks (h : b.WF) (hd : (b.acquireLocks c w ls).HeldBy l d) :
    b.HeldBy l d ∨ d = c ∧ l ∈ ls :=
  heldBy_of_foldl_acquireLock h ((heldBy_congr locks_acquireLocks).mp hd)

theorem heldBy_of_acquireImplicitWriteLocks (h : b.WF)
    (hd : (b.acquireImplicitWriteLocks c ls).HeldBy l d) : b.HeldBy l d ∨ d = c ∧ l ∈ ls :=
  heldBy_of_foldl_acquireLock h hd

/-- Who holds a lock after one was released held it before. -/
theorem heldBy_of_releaseLock (hb : releaseLock c b l' = some b') (hd : b'.HeldBy l d) :
    b.HeldBy l d := by
  unfold releaseLock at hb
  split at hb
  · cases hb
  · next lock hlock =>
    obtain rfl := Option.some.inj hb
    obtain ⟨lock', hlock', hd⟩ := hd
    dsimp only at hlock'
    by_cases hll : l = l'
    · subst hll
      rw [Function.update_self] at hlock'
      split_ifs at hlock'
      obtain rfl := Option.some.inj hlock'
      exact ⟨lock, hlock, SharedLock.holds_of_release hd⟩
    · rw [Function.update_of_ne hll] at hlock'
      exact ⟨lock', hlock', hd⟩

/-- Who holds a lock after some were released held it before. -/
theorem heldBy_of_releaseLocks (hb : b.releaseLocks c ls = some b') (hd : b'.HeldBy l d) :
    b.HeldBy l d := by
  induction ls generalizing b with
  | nil =>
    obtain rfl := Option.some.inj hb
    exact hd
  | cons l' ls ih =>
    obtain ⟨b₁, h1, h2⟩ := Option.bind_eq_some_iff.mp (List.foldlM_cons.symm.trans hb)
    exact heldBy_of_releaseLock h1 (ih h2)

theorem heldBy_of_releaseHeld (hb : b.releaseHeld c = some b') (hd : b'.HeldBy l d) :
    b.HeldBy l d := by
  obtain ⟨b₁, h1, rfl⟩ := releaseHeld_eq_some_iff.mp hb
  exact heldBy_of_releaseLocks h1 hd

theorem heldBy_of_releaseAll (hb : b.releaseAll c = some b') (hd : b'.HeldBy l d) :
    b.HeldBy l d := by
  have htold : ((b.applyRevokedLocks c).clearRevoked c).HeldBy l d := heldBy_of_releaseHeld hb hd
  exact htold

theorem heldBy_of_releaseIf {test : κ → Bool} (hb : b.releaseIf c test = some b')
    (hd : b'.HeldBy l d) : b.HeldBy l d := by
  obtain ⟨b₁, h1, rfl⟩ := releaseIf_eq_some_iff.mp hb
  exact heldBy_of_releaseLocks h1 hd

/-- What the test picks is given up. -/
theorem Agrees.not_heldBy_of_releaseIf {test : κ → Bool} (h : Agrees active b)
    (hrevoked : b.revoked c = []) (hb : b.releaseIf c test = some b') (hl : test l = true) :
    ¬b'.HeldBy l c := fun hd => by
  have hheld := (((h.releaseIf hrevoked hb).heldBy l c).mp hd).1
  obtain ⟨b₁, h1, rfl⟩ := releaseIf_eq_some_iff.mp hb
  rw [mem_held_setHeld, if_pos rfl] at hheld
  have hnot := (List.mem_filter.mp hheld).2
  rw [hl] at hnot
  cases hnot

omit [DecidableEq κ] in
/-- Locations nobody holds may be granted. -/
theorem Agrees.free (h : Agrees active b) (hc : active c = true) (hn : ls.Nodup)
    (hnone : ∀ l ∈ ls, ∀ d, ¬b.HeldBy l d) : Free active b c ls := by
  refine ⟨hn, fun l hl hheld => hnone l hl c ((h.heldBy l c).mpr ⟨hheld, ?_⟩), fun l hl => ?_⟩
  · rw [h.active c hc]
    exact List.not_mem_nil
  · unfold canAcquire
    split
    · rfl
    · next lock hlock =>
      exfalso
      rcases h.wf l lock hlock with ⟨d, hd, -⟩ | ⟨-, hne, -⟩
      · exact hnone l hl d ⟨lock, hlock, Or.inr hd⟩
      · obtain ⟨d, hd⟩ := List.exists_mem_of_ne_nil _ hne
        exact hnone l hl d ⟨lock, hlock, Or.inl hd⟩

/-! ### Who was in conflict before -/

/-- Nobody gets new conflicts when a client releases a lock. -/
theorem mem_conflicts_of_releaseLock (hb : releaseLock c b l = some b')
    (hz : z ∈ b'.conflicts active d w' l') : z ∈ b.conflicts active d w' l' := by
  unfold releaseLock at hb
  split at hb
  · cases hb
  · next lock hlock =>
    obtain rfl := Option.some.inj hb
    unfold conflicts at hz ⊢
    by_cases hll : l' = l
    · subst hll
      rw [hlock]
      simp only [Function.update_self] at hz
      split_ifs at hz with he
      · cases hz
      · exact SharedLock.mem_collectConflictingClients_of_release (Bool.eq_false_iff.mpr he) hz
    · simp only [Function.update_of_ne hll] at hz
      exact hz

/-- Releasing makes no conflict. -/
theorem mem_conflicts_of_releaseLocks (hb : b.releaseLocks c ls = some b')
    (hz : z ∈ b'.conflicts active d w' l') : z ∈ b.conflicts active d w' l' :=
  releaseLocks_of (P := fun b₁ => z ∈ b₁.conflicts active d w' l' → z ∈ b.conflicts active d w' l')
    (fun _ _ _ h hb hz => h (mem_conflicts_of_releaseLock hb hz)) hb id hz

theorem mem_conflicts_of_releaseHeld (hb : b.releaseHeld c = some b')
    (hz : z ∈ b'.conflicts active d w' l') : z ∈ b.conflicts active d w' l' := by
  obtain ⟨b₁, h1, rfl⟩ := releaseHeld_eq_some_iff.mp hb
  exact mem_conflicts_of_releaseLocks h1 hz

theorem mem_conflicts_of_releaseAll (hb : b.releaseAll c = some b')
    (hz : z ∈ b'.conflicts active d w' l') : z ∈ b.conflicts active d w' l' := by
  have htold : z ∈ ((b.applyRevokedLocks c).clearRevoked c).conflicts active d w' l' :=
    mem_conflicts_of_releaseHeld hb hz
  exact htold

theorem mem_conflicts_of_releaseIf {test : κ → Bool} (hb : b.releaseIf c test = some b')
    (hz : z ∈ b'.conflicts active d w' l') : z ∈ b.conflicts active d w' l' := by
  obtain ⟨b₁, h1, rfl⟩ := releaseIf_eq_some_iff.mp hb
  exact mem_conflicts_of_releaseLocks h1 hz

/-- Other clients get no new conflicts when a commit is granted its locks. -/
theorem mem_conflicts_of_acquireImplicitWriteLocks (h : b.WF) (hzc : z ≠ c)
    (hz : z ∈ (b.acquireImplicitWriteLocks c ls).conflicts active d w' l') :
    z ∈ b.conflicts active d w' l' := by
  have hz' : z ∈ (b.acquireLocks c true ls).conflicts active d w' l' := by
    rw [conflicts_congr locks_acquireLocks]
    exact hz
  exact mem_conflicts_of_acquireLocks h hzc hz'

end

end LockBook
