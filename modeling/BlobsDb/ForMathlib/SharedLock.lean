import Mathlib.Data.List.Basic
import Mathlib.Data.List.Nodup
import Mathlib.Logic.Function.Basic

/-!
# Read and write locks that can be taken away

A `SharedLock` is held by any number of readers or by one writer. Its clients come and go: a
client is active or inactive, and an inactive client keeps its locks until an active one wants
them in a conflicting mode, in which case they are taken away from it.

A `LockBook` has such locks on locations of any kind and keeps, for every client, the list of
the locations it locked and the list of those taken away since. The main invariant is
`LockBook.Agrees`: the locations a client locked and did not lose are those where the lock is
held by it.
-/

/-- The clients that hold a lock. -/
structure SharedLock (γ : Type*) where
  read : List γ
  write : Option γ
  deriving DecidableEq

namespace SharedLock

variable {γ : Type*} [DecidableEq γ] {active : γ → Bool} {lock : SharedLock γ} {c d z : γ}
  {w w' : Bool}

/-- A lock held by one client. -/
def new (client : γ) (writeLock : Bool) : SharedLock γ :=
  if writeLock then ⟨[], some client⟩ else ⟨[client], none⟩

/-- A client may lock if all conflicting holders are inactive. -/
def canAcquire (active : γ → Bool) (lock : SharedLock γ) (client : γ) (writeLock : Bool) : Bool :=
  match lock.write with
  | some w => w = client || !active w
  | none => !writeLock || lock.read.all fun c => c = client || !active c

/-- The active clients whose hold conflicts with what a client wants. -/
def collectConflictingClients (active : γ → Bool) (lock : SharedLock γ) (client : γ)
    (writeLock : Bool) : List γ :=
  match lock.write with
  | some w => if w ≠ client ∧ active w then [w] else []
  | none => if writeLock then lock.read.filter fun c => c ≠ client ∧ active c else []

/-- The lock with one more client, and the clients it is taken away from. Writers do not turn
into readers. -/
def acquire (lock : SharedLock γ) (client : γ) (writeLock : Bool) : SharedLock γ × List γ :=
  if writeLock then
    (⟨[], some client⟩,
      match lock.write with
      | some w => if w ≠ client then [w] else lock.read.filter (· ≠ client)
      | none => lock.read.filter (· ≠ client))
  else if lock.write = some client then (lock, [])
  else
    (⟨if client ∈ lock.read then lock.read else lock.read ++ [client], none⟩, lock.write.toList)

/-- The lock with one client less, and whether nobody is left. -/
def release (lock : SharedLock γ) (client : γ) : SharedLock γ × Bool :=
  match lock.write with
  | some w => if w = client then (⟨lock.read, none⟩, true) else (lock, false)
  | none => (⟨lock.read.filter (· ≠ client), none⟩, (lock.read.filter (· ≠ client)).isEmpty)

def ownsWriteLock (lock : SharedLock γ) (client : γ) : Bool := lock.write = some client

/-- The client is a reader or the writer. -/
def Holds (lock : SharedLock γ) (client : γ) : Prop := client ∈ lock.read ∨ lock.write = some client

instance : Decidable (lock.Holds c) := inferInstanceAs (Decidable (_ ∨ _))

/-- Somebody holds the lock: one writer and no readers, or readers, each once. -/
def WF (lock : SharedLock γ) : Prop :=
  (∃ w, lock.write = some w ∧ lock.read = []) ∨
    lock.write = none ∧ lock.read ≠ [] ∧ lock.read.Nodup

/-! ### Conflicts -/

theorem mem_collectConflictingClients : z ∈ lock.collectConflictingClients active c w ↔
    z ≠ c ∧ active z = true ∧
      (lock.write = some z ∨ lock.write = none ∧ w = true ∧ z ∈ lock.read) := by
  unfold collectConflictingClients
  cases hw : lock.write with
  | some v =>
    by_cases hv : v ≠ c ∧ active v = true
    · simp only [if_pos hv, List.mem_singleton, Option.some.injEq, reduceCtorEq, false_and,
        or_false]
      constructor
      · rintro rfl
        exact ⟨hv.1, hv.2, rfl⟩
      · rintro ⟨-, -, rfl⟩
        rfl
    · simp only [if_neg hv, List.not_mem_nil, false_iff, Option.some.injEq, reduceCtorEq,
        false_and, or_false]
      rintro ⟨h1, h2, rfl⟩
      exact hv ⟨h1, h2⟩
  | none =>
    cases w with
    | false => simp
    | true => simp; tauto

/-- A client can lock exactly if nobody is in conflict. -/
theorem canAcquire_iff : lock.canAcquire active c w = true ↔
    ∀ z, z ∉ lock.collectConflictingClients active c w := by
  simp only [mem_collectConflictingClients, not_and, not_or]
  unfold canAcquire
  cases hw : lock.write with
  | some v =>
    simp only [Bool.or_eq_true, decide_eq_true_eq, Bool.not_eq_true', Option.some.injEq,
      reduceCtorEq, false_implies, and_true]
    constructor
    · rintro h z hz hza rfl
      rcases h with h | h
      · exact hz h
      · rw [h] at hza
        cases hza
    · intro h
      by_cases hv : v = c
      · exact Or.inl hv
      · cases hva : active v with
        | false => exact Or.inr rfl
        | true => exact absurd rfl (h v hv hva)
  | none =>
    simp only [Bool.or_eq_true, Bool.not_eq_true', List.all_eq_true, decide_eq_true_eq,
      reduceCtorEq, not_false_eq_true, true_implies, true_and]
    constructor
    · rintro h z hz hza rfl hread
      rcases h with h | h
      · cases h
      · rcases h z hread with h | h
        · exact hz h
        · rw [h] at hza
          cases hza
    · intro h
      cases w with
      | false => exact Or.inl rfl
      | true =>
        refine Or.inr fun z hread => ?_
        by_cases hz : z = c
        · exact Or.inl hz
        · cases hza : active z with
          | false => exact Or.inr rfl
          | true => exact absurd hread (h z hz hza rfl)

/-- A lock that may be acquired and is keeps all its conflicts with others. -/
theorem mem_collectConflictingClients_acquire (hcan : lock.canAcquire active c w = true)
    (hz : z ∈ lock.collectConflictingClients active d w') :
    z ∈ (lock.acquire c w).1.collectConflictingClients active d w' := by
  rw [mem_collectConflictingClients] at hz ⊢
  obtain ⟨hzd, hza, hhold⟩ := hz
  refine ⟨hzd, hza, ?_⟩
  have hself : ∀ w'', z ≠ c → ¬ (lock.write = some z ∨
      lock.write = none ∧ w'' = true ∧ z ∈ lock.read) ∨ w'' ≠ w := fun w'' hzc => by
    by_cases hw : w'' = w
    · refine Or.inl fun h => canAcquire_iff.mp hcan z ?_
      exact mem_collectConflictingClients.mpr ⟨hzc, hza, hw ▸ h⟩
    · exact Or.inr hw
  unfold acquire
  rcases hhold with hwrite | ⟨hwrite, rfl, hread⟩
  · -- the writer is active, so it is the client itself
    have hzc : z = c := by
      by_contra hzc
      rcases hself w hzc with h | h
      · exact h (Or.inl hwrite)
      · exact h rfl
    subst hzc
    cases w with
    | true => exact Or.inl rfl
    | false => simp [hwrite]
  · cases w with
    | true =>
      have hzc : z = c := by
        by_contra hzc
        rcases hself true hzc with h | h
        · exact h (Or.inr ⟨hwrite, rfl, hread⟩)
        · exact h rfl
      exact Or.inl (congrArg some hzc.symm)
    | false =>
      refine Or.inr ?_
      simp only [hwrite, reduceCtorEq, if_false, Bool.false_eq_true]
      refine ⟨trivial, trivial, ?_⟩
      split_ifs
      · exact hread
      · exact List.mem_append_left _ hread

/-- The lock of another client is in conflict with what it was in conflict with before. -/
theorem mem_collectConflictingClients_of_acquire (h : lock.WF) (hzc : z ≠ c)
    (hz : z ∈ (lock.acquire c w).1.collectConflictingClients active d w') :
    z ∈ lock.collectConflictingClients active d w' := by
  rw [mem_collectConflictingClients] at hz ⊢
  obtain ⟨hzd, hza, hhold⟩ := hz
  refine ⟨hzd, hza, ?_⟩
  unfold acquire at hhold
  cases w with
  | true =>
    rcases hhold with hwrite | ⟨-, -, hread⟩
    · exact absurd (Option.some.inj hwrite).symm hzc
    · cases hread
  | false =>
    by_cases hc : lock.write = some c
    · simp only [Bool.false_eq_true, if_false, if_pos hc] at hhold
      exact hhold
    · simp only [Bool.false_eq_true, if_false, if_neg hc, reduceCtorEq, false_or, true_and] at hhold
      obtain ⟨hw', hread⟩ := hhold
      have hread : z ∈ lock.read := by
        split_ifs at hread
        · exact hread
        · rcases List.mem_append.mp hread with hread | hread
          · exact hread
          · exact absurd (List.mem_singleton.mp hread) hzc
      -- a lock with readers has no writer
      rcases h with ⟨_, -, hnil⟩ | ⟨hwrite, -⟩
      · rw [hnil] at hread
        cases hread
      · exact Or.inr ⟨hwrite, hw', hread⟩

/-- A client that locked is in conflict with the writers, and as a writer with all others. -/
theorem mem_collectConflictingClients_acquire_self (ha : active c = true) (hd : d ≠ c)
    (hw : w = true ∨ w' = true) :
    c ∈ (lock.acquire c w).1.collectConflictingClients active d w' := by
  refine mem_collectConflictingClients.mpr ⟨hd.symm, ha, ?_⟩
  unfold acquire
  cases w with
  | true => exact Or.inl rfl
  | false =>
    by_cases hc : lock.write = some c
    · simp only [Bool.false_eq_true, if_false, if_pos hc]
      exact Or.inl hc
    · simp only [Bool.false_eq_true, if_false, if_neg hc]
      refine Or.inr ⟨trivial, hw.resolve_left (by decide), ?_⟩
      split_ifs with hm
      · exact hm
      · exact List.mem_append_right _ (List.mem_singleton_self c)

theorem mem_collectConflictingClients_new (ha : active c = true) (hd : d ≠ c)
    (hw : w = true ∨ w' = true) : c ∈ (new c w).collectConflictingClients active d w' := by
  refine mem_collectConflictingClients.mpr ⟨hd.symm, ha, ?_⟩
  cases w with
  | true => exact Or.inl rfl
  | false => exact Or.inr ⟨rfl, hw.resolve_left (by decide), List.mem_singleton_self c⟩

/-- What a client has acquired, it can acquire again. -/
theorem canAcquire_acquire : (lock.acquire c w).1.canAcquire active c w = true := by
  unfold canAcquire acquire
  cases w with
  | true => simp
  | false =>
    by_cases hc : lock.write = some c
    · simp [hc]
    · simp [hc]

theorem canAcquire_new : (new c w).canAcquire active c w = true := by
  cases w <;> simp [canAcquire, new]

/-! ### Holders -/

omit [DecidableEq γ] in
theorem holds_new : (new c w).Holds d ↔ d = c := by
  cases w <;> simp [new, Holds, eq_comm]

theorem ownsWriteLock_iff : lock.ownsWriteLock c = true ↔ lock.write = some c :=
  decide_eq_true_iff

omit [DecidableEq γ] in
theorem wf_new : (new c w).WF := by
  cases w with
  | true => exact Or.inl ⟨c, rfl, rfl⟩
  | false => exact Or.inr ⟨rfl, List.cons_ne_nil _ _, List.nodup_singleton _⟩

theorem wf_acquire (h : lock.WF) : (lock.acquire c w).1.WF := by
  unfold acquire
  cases w with
  | true => exact Or.inl ⟨c, rfl, rfl⟩
  | false =>
    simp only [Bool.false_eq_true, if_false]
    by_cases hc : lock.write = some c
    · rw [if_pos hc]
      exact h
    · rw [if_neg hc]
      have hnodup : lock.read.Nodup := by
        rcases h with ⟨w, -, hr⟩ | ⟨-, -, hr⟩
        · rw [hr]
          exact List.nodup_nil
        · exact hr
      refine Or.inr ⟨rfl, ?_, ?_⟩
      · dsimp only
        split_ifs with hm
        · exact List.ne_nil_of_mem hm
        · exact List.append_ne_nil_of_right_ne_nil _ (List.cons_ne_nil _ _)
      · dsimp only
        split_ifs with hm
        · exact hnodup
        · exact List.nodup_append'.mpr ⟨hnodup, List.nodup_singleton _,
            fun x hx hx' => hm (List.mem_singleton.mp hx' ▸ hx)⟩

/-- The holders after a lock was acquired: the client, and those it was not taken away from. -/
theorem holds_acquire (h : lock.WF) : (lock.acquire c w).1.Holds d ↔
    d = c ∨ lock.Holds d ∧ d ∉ (lock.acquire c w).2 := by
  unfold acquire Holds
  rcases h with ⟨v, hv, hr⟩ | ⟨hv, -, -⟩
  · cases w with
    | true =>
      by_cases hvc : v = c
      · subst hvc
        simp [hv, hr, eq_comm]
      · simp only [if_true, hv, hr, List.not_mem_nil, Option.some.injEq, false_or, ne_eq, hvc,
          not_false_eq_true, List.mem_singleton]
        constructor
        · rintro rfl
          exact Or.inl rfl
        · rintro (rfl | ⟨rfl, hne⟩)
          · rfl
          · exact absurd rfl hne
    | false =>
      by_cases hvc : v = c
      · subst hvc
        simp [hv, hr, eq_comm]
      · have hne : ¬ some v = some c := fun h => hvc (Option.some.inj h)
        simp only [Bool.false_eq_true, if_false, hv, hr, hne, List.not_mem_nil, List.nil_append,
          List.mem_singleton, reduceCtorEq, or_false, Option.some.injEq, false_or,
          Option.toList_some]
        constructor
        · rintro rfl
          exact Or.inl rfl
        · rintro (rfl | ⟨rfl, hne⟩)
          · rfl
          · exact absurd rfl hne
  · cases w with
    | true =>
      simp only [if_true, hv, List.not_mem_nil, Option.some.injEq, false_or, reduceCtorEq, or_false,
        List.mem_filter, decide_not, Bool.not_eq_true', decide_eq_false_iff_not, not_and, not_not]
      constructor
      · rintro rfl
        exact Or.inl rfl
      · rintro (rfl | ⟨hd, hne⟩)
        · rfl
        · exact (hne hd).symm
    | false =>
      simp only [Bool.false_eq_true, if_false, hv, reduceCtorEq, or_false, Option.toList_none,
        List.not_mem_nil, not_false_eq_true, and_true]
      split_ifs with hm
      · constructor
        · exact Or.inr
        · rintro (rfl | hd)
          · exact hm
          · exact hd
      · rw [List.mem_append, List.mem_singleton, or_comm]

theorem not_mem_acquire_self : c ∉ (lock.acquire c w).2 := by
  unfold acquire
  cases w with
  | true =>
    cases hw : lock.write with
    | none => simp
    | some v =>
      by_cases hv : v = c
      · simp [hv]
      · simpa [hv] using fun h => hv h.symm
  | false =>
    by_cases hc : lock.write = some c
    · simp [hc]
    · simp [hc]

theorem mem_acquire_holds (hz : z ∈ (lock.acquire c w).2) : lock.Holds z := by
  unfold acquire at hz
  cases w with
  | true =>
    cases hw : lock.write with
    | none =>
      simp only [hw, if_true] at hz
      exact Or.inl (List.mem_of_mem_filter hz)
    | some v =>
      simp only [hw, if_true] at hz
      by_cases hv : v ≠ c
      · rw [if_pos hv] at hz
        exact Or.inr (by rw [hw, List.mem_singleton.mp hz])
      · rw [if_neg hv] at hz
        exact Or.inl (List.mem_of_mem_filter hz)
  | false =>
    by_cases hc : lock.write = some c
    · simp [hc] at hz
    · simp only [Bool.false_eq_true, if_false, hc, Option.mem_toList] at hz
      exact Or.inr hz

/-- A lock is taken away only from clients in conflict. -/
theorem mem_acquire_inactive (hcan : lock.canAcquire active c w = true)
    (hz : z ∈ (lock.acquire c w).2) (h : lock.WF) : active z = false := by
  have hzc : z ≠ c := fun hzc => not_mem_acquire_self (hzc ▸ hz)
  cases hza : active z with
  | false => rfl
  | true =>
    refine absurd (mem_collectConflictingClients.mpr ⟨hzc, hza, ?_⟩) (canAcquire_iff.mp hcan z)
    rcases h with ⟨v, hv, hr⟩ | ⟨hv, -, -⟩
    · rcases mem_acquire_holds hz with hh | hh
      · rw [hr] at hh
        cases hh
      · exact Or.inl hh
    · cases w with
      | true =>
        rcases mem_acquire_holds hz with hh | hh
        · exact Or.inr ⟨hv, rfl, hh⟩
        · exact Or.inl hh
      | false =>
        unfold acquire at hz
        simp [hv] at hz

theorem nodup_acquire (h : lock.WF) : (lock.acquire c w).2.Nodup := by
  unfold acquire
  rcases h with ⟨v, hv, hr⟩ | ⟨hv, -, hn⟩
  · cases w with
    | true =>
      simp only [if_true, hv, hr, List.filter_nil]
      split_ifs
      · exact List.nodup_singleton _
      · exact List.nodup_nil
    | false =>
      by_cases hvc : v = c
      · simp [hv, hvc]
      · simp [hv, hvc]
  · cases w with
    | true =>
      simp only [if_true, hv]
      exact hn.filter _
    | false => simp [hv]

/-- Releasing a lock one holds. -/
theorem holds_release (h : lock.WF) (hc : lock.Holds c) : (lock.release c).1.Holds d ↔
    lock.Holds d ∧ d ≠ c := by
  unfold release Holds
  rcases h with ⟨v, hv, hr⟩ | ⟨hv, -, -⟩
  · have hvc : v = c := by
      rcases hc with hc | hc
      · rw [hr] at hc
        cases hc
      · exact Option.some.inj (hv.symm.trans hc)
    subst hvc
    simp only [hv, hr, if_true, List.not_mem_nil, reduceCtorEq, or_false, false_or,
      Option.some.injEq, false_iff, not_and, not_not]
    exact fun h => h.symm
  · simp [hv]

/-- Whoever holds a lock after it is released held it before. -/
theorem holds_of_release (hd : (lock.release c).1.Holds d) : lock.Holds d := by
  unfold release at hd
  split at hd
  · split_ifs at hd
    · exact Or.inl (hd.resolve_right nofun)
    · exact hd
  · exact Or.inl (List.mem_of_mem_filter (hd.resolve_right nofun))

theorem wf_release (h : lock.WF) (he : (lock.release c).2 = false) : (lock.release c).1.WF := by
  unfold release at he ⊢
  rcases h with ⟨v, hv, hr⟩ | ⟨hv, -, hn⟩
  · simp only [hv] at he ⊢
    by_cases hvc : v = c
    · simp [hvc] at he
    · rw [if_neg hvc]
      exact Or.inl ⟨v, hv, hr⟩
  · simp only [hv] at he ⊢
    exact Or.inr ⟨rfl, by simpa using he, hn.filter _⟩

theorem not_holds_of_release (h : lock.WF) (hc : lock.Holds c) (he : (lock.release c).2 = true)
    (hd : lock.Holds d) : d = c := by
  by_contra hdc
  have hh := (holds_release h hc).mpr ⟨hd, hdc⟩
  unfold release at he hh
  rcases h with ⟨v, hv, hr⟩ | ⟨hv, -, -⟩
  · unfold Holds at hh
    rcases hc with hc | hc
    · rw [hr] at hc
      cases hc
    · obtain rfl := Option.some.inj (hv.symm.trans hc)
      simp [hv, hr] at hh
  · simp only [hv, List.isEmpty_iff] at he
    simp only [hv, Holds, he, List.not_mem_nil, reduceCtorEq, or_false] at hh

/-- Releasing a lock takes only the client's own conflicts away. -/
theorem mem_collectConflictingClients_release (hz : z ≠ c)
    (hconf : z ∈ lock.collectConflictingClients active d w') :
    z ∈ (lock.release c).1.collectConflictingClients active d w' ∧
      (lock.release c).2 = false := by
  rw [mem_collectConflictingClients] at hconf ⊢
  obtain ⟨h1, h2, h3⟩ := hconf
  unfold release
  rcases h3 with hw | ⟨hw, h4, h5⟩
  · simp only [hw, if_neg hz]
    exact ⟨⟨h1, h2, Or.inl trivial⟩, trivial⟩
  · have hmem : z ∈ lock.read.filter (· ≠ c) := List.mem_filter.mpr ⟨h5, by simpa using hz⟩
    simp only [hw]
    refine ⟨⟨h1, h2, Or.inr ⟨trivial, h4, hmem⟩⟩, ?_⟩
    rw [List.isEmpty_eq_false_iff]
    exact List.ne_nil_of_mem hmem

/-- Releasing a lock that is still held makes nobody stand in the way. -/
theorem mem_collectConflictingClients_of_release (he : (lock.release c).2 = false)
    (hz : z ∈ (lock.release c).1.collectConflictingClients active d w') :
    z ∈ lock.collectConflictingClients active d w' := by
  rw [mem_collectConflictingClients] at hz ⊢
  obtain ⟨h1, h2, h3⟩ := hz
  refine ⟨h1, h2, ?_⟩
  unfold release at he h3
  split at h3
  · next v hv =>
    rw [hv] at he
    dsimp only at he
    split_ifs at he h3 with hvc
    exact hv ▸ h3
  · next hv =>
    rcases h3 with h3 | ⟨-, hw, hmem⟩
    · cases h3
    · exact Or.inr ⟨hv, hw, List.mem_of_mem_filter hmem⟩

end SharedLock
