import BlobsDb.Server.Effects

/-!
# Who uses a database

A database stays open while clients use it. `UsersWF` counts them: the use count of a database is
the number of clients that have it open, and only such clients wait in it.
-/

namespace BlobsDb

namespace Server

variable {s s' : Server} {c d : ClientId} {name name' : DatabaseName} {m : BlobsRead} {b : Bool}
  {od od' : OpenDatabase} {n : ℕ}

/-- The clients that use a database are counted, and a client that waits is one of them. -/
structure UsersWF (s : Server) : Prop where
  nodup : ∀ c, (s.openNames c).Nodup
  users : ∀ name n, s.useCount name = some n → ∃ users : List ClientId, users.Nodup ∧
    users.length = n ∧ ∀ c, c ∈ users ↔ name ∈ s.openNames c
  isOpen : ∀ c name, name ∈ s.openNames c → (s.useCount name).isSome
  waits : ∀ c name, s.Waits c name → name ∈ s.openNames c

theorem openNames_congr (h : (s'.clients c).openDatabases = (s.clients c).openDatabases) :
    s'.openNames c = s.openNames c := by rw [openNames, h, openNames]

/-- The use count of a database, or `0` if it is closed. -/
def uses (s : Server) (name : DatabaseName) : ℕ := (s.useCount name).getD 0

theorem uses_of_some (hod : s.databases name = some od) : s.uses name = od.useCount := by
  rw [uses, useCount, hod]
  rfl

/-- A database has no users if its count is 0, or if it is not open. -/
theorem uses_eq_zero_iff : s.uses name = 0 ↔ s.useCount name = some 0 ∨ s.useCount name = none := by
  unfold uses
  cases s.useCount name <;> simp

namespace UsersWF

/-- A database nobody has open is not in use. -/
theorem forall_not_mem (h : UsersWF s) (hn : s.uses name = 0) (c : ClientId) :
    name ∉ s.openNames c := by
  rcases uses_eq_zero_iff.mp hn with hn | hn
  · obtain ⟨users, -, hlen, hmem⟩ := h.users name 0 hn
    rw [← hmem, List.length_eq_zero_iff.mp hlen]
    exact List.not_mem_nil
  · intro hc
    have := h.isOpen c name hc
    rw [hn] at this
    cases this

/-- Nobody waits in a database without users. -/
theorem not_waits (h : UsersWF s) (hn : s.uses name = 0) (c : ClientId) : ¬s.Waits c name :=
  fun hw => h.forall_not_mem hn c (h.waits c name hw)

/-- Nobody opens or closes a database or starts to wait; only databases that are not in use may be
closed or opened. -/
theorem of_sublist (h : UsersWF s) (hnames : ∀ c, s'.openNames c = s.openNames c)
    (hcount : ∀ name, s'.useCount name = s.useCount name ∨ s.uses name = 0 ∧ s'.uses name = 0)
    (hsub : ∀ name, (s'.queue name).Sublist (s.queue name)) : UsersWF s' where
  nodup c := hnames c ▸ h.nodup c
  users name n hn := by
    simp only [hnames]
    rcases hcount name with hsame | ⟨hzero, hzero'⟩
    · exact h.users name n (hsame ▸ hn)
    · rw [uses, hn] at hzero'
      refine ⟨[], List.nodup_nil, hzero'.symm, fun c => ?_⟩
      exact iff_of_false List.not_mem_nil (h.forall_not_mem hzero c)
  isOpen c name hn := by
    rw [hnames] at hn
    rcases hcount name with hsame | ⟨hzero, -⟩
    · exact hsame ▸ h.isOpen c name hn
    · exact absurd hn (h.forall_not_mem hzero c)
  waits c name hw := by
    rw [hnames]
    exact h.waits c name (hw.of_sublist (hsub name))

theorem of_kept (h : UsersWF s) (hkept : Kept s s') (hqueue : ∀ name, s'.queue name = s.queue name) :
    UsersWF s' :=
  h.of_sublist (fun _ => openNames_congr (by rw [hkept.clients]))
    (fun name => Or.inl (hkept.useCount name)) fun name => by rw [hqueue]

/-- The end of a transaction changes no users. -/
theorem ended (h : UsersWF s) (he : Ended c s s') : UsersWF s' := by
  refine h.of_sublist (fun d => openNames_congr ?_) (fun name => Or.inl (he.useCount name)) he.queue
  rw [he.clients]
  by_cases hd : d = c
  · subst hd
    rw [Function.update_self]
  · rw [Function.update_of_ne hd]

/-- At the end of its transaction a client waits nowhere. -/
theorem not_waits_of_ended (h : UsersWF s) (he : Ended c s s') (name : DatabaseName) :
    ¬s'.Waits c name := fun hw =>
  he.not_waits name (h.waits c name (hw.of_sublist (he.queue name))) hw

end UsersWF

/-! ### Opening -/

theorem queue_of_none (h : s.databases name = none) : s.queue name = [] := by
  rw [queue, h]
  rfl

theorem useCount_of_some (h : s.databases name = some od) : s.useCount name = some od.useCount := by
  rw [useCount, h]
  rfl

/-- One more use of a database. -/
structure OpenedOnce (name : DatabaseName) (s s' : Server) : Prop where
  clients : s'.clients = s.clients
  sent : s'.sent = s.sent
  databases : ∀ name', name' ≠ name → s'.databases name' = s.databases name'
  useCount : s'.useCount name = some (s.uses name + 1)
  queue : s'.queue name = s.queue name ∨ s.uses name = 0 ∧ s'.queue name = []

theorem closeDatabase_clients : (s.closeDatabase name).clients = s.clients := by
  unfold closeDatabase
  split <;> rfl

theorem closeDatabase_sent : (s.closeDatabase name).sent = s.sent := by
  unfold closeDatabase
  split <;> rfl

theorem closeDatabase_databases : (s.closeDatabase name).databases =
    Function.update s.databases name none := by
  unfold closeDatabase
  split
  · next h => exact (Function.update_eq_self_iff.mpr h.symm).symm
  · rfl

/-- The database is not open in `s₁`, where it is loaded: it never was, or nobody uses it and it is
closed to be overwritten. -/
def Unloads (name : DatabaseName) (mode : OpenMode) (s s₁ : Server) : Prop :=
  s.databases name = none ∧ s₁ = s ∨
    mode = .createAlways ∧ (∃ od, s.databases name = some od ∧ od.useCount = 0) ∧
      s₁ = s.closeDatabase name

/-- The database is not open then. -/
theorem Unloads.databases {mode : OpenMode} (h : Unloads name mode s s') :
    s'.databases name = none := by
  rcases h with ⟨hnone, rfl⟩ | ⟨-, -, rfl⟩
  · exact hnone
  · rw [closeDatabase_databases, Function.update_self]

theorem Unloads.uses {mode : OpenMode} (h : Unloads name mode s s') : s.uses name = 0 := by
  rcases h with ⟨hnone, -⟩ | ⟨-, ⟨od, hod, hzero⟩, -⟩
  · rw [Server.uses, useCount, hnone]
    rfl
  · exact (uses_of_some hod).trans hzero

/-- How a database is opened. -/
inductive Opening (name : DatabaseName) (mode : OpenMode) (s : Server) :
    DatabaseOpenResponse.Result → Server → Prop
  | refused {r : DatabaseOpenResponse.Result} {od : OpenDatabase}
      (hod : s.databases name = some od) (hr : r ≠ .success)
      (huse : mode = .createAlways → 0 < od.useCount) : Opening name mode s r s
  | used {od : OpenDatabase} (hod : s.databases name = some od) (hmode : mode ≠ .createAlways) :
      Opening name mode s .success (s.setDatabase name { od with useCount := od.useCount + 1 })
  | failed {r : DatabaseOpenResponse.Result} {s₁ : Server} (hs₁ : Unloads name mode s s₁)
      (hload : s₁.load name mode = some (r, none)) : Opening name mode s r s₁
  | loaded {r : DatabaseOpenResponse.Result} {s₁ : Server} {db : Database}
      (hs₁ : Unloads name mode s s₁) (hload : s₁.load name mode = some (r, some db)) :
      Opening name mode s r (s₁.setDatabase name ⟨db, .empty, [], 1⟩)

/-- Opening a database is one of the cases. -/
theorem opening_of_openDatabase {mode : OpenMode} {r : DatabaseOpenResponse.Result}
    (h : s.openDatabase name mode = some (r, s')) : Opening name mode s r s' := by
  unfold openDatabase at h
  dsimp only at h
  split at h
  · next hnone =>
    split at h
    · cases h
    · next hload =>
      cases h
      exact .failed (Or.inl ⟨hnone, rfl⟩) hload
    · next hload =>
      cases h
      exact .loaded (Or.inl ⟨hnone, rfl⟩) hload
  · next od hod =>
    split at h
    · split_ifs at h with hpos
      · cases h
        exact .refused hod (by decide) fun _ => hpos
      · have hunloads : Unloads name .createAlways s (s.closeDatabase name) :=
          Or.inr ⟨rfl, ⟨od, hod, by omega⟩, rfl⟩
        split at h
        · cases h
        · next hload =>
          cases h
          exact .failed hunloads hload
        · next hload =>
          cases h
          exact .loaded hunloads hload
    · cases h
      exact .refused hod (by decide) fun hmode => by cases hmode
    · next hmode _ =>
      cases h
      exact .used hod hmode

/-- Loading succeeds if there is a database then. -/
theorem load_success_iff {mode : OpenMode} {r : DatabaseOpenResponse.Result}
    {o : Option Database} (h : s.load name mode = some (r, o)) : r = .success ↔ o.isSome := by
  unfold load at h
  split at h
  · split_ifs at h <;> cases h <;> simp
  · split at h
    · cases h
      simp
    · cases h
      simp
    · obtain ⟨db, -, heq⟩ := Option.map_eq_some_iff.mp h
      cases heq
      simp
    · obtain ⟨db, -, heq⟩ := Option.map_eq_some_iff.mp h
      cases heq
      simp
    · split at h <;> cases h <;> simp

/-- What opening changes when it succeeds, and when not. -/
theorem openDatabase_eq_some {mode : OpenMode} {r : DatabaseOpenResponse.Result}
    (h : s.openDatabase name mode = some (r, s')) :
    r = .success ∧ OpenedOnce name s s' ∨
      r ≠ .success ∧ (s' = s ∨ s.uses name = 0 ∧ s' = s.closeDatabase name) := by
  cases opening_of_openDatabase h with
  | refused _ hr _ => exact Or.inr ⟨hr, Or.inl rfl⟩
  | used hod _ =>
    refine Or.inl ⟨rfl, rfl, rfl, fun name' hne => databases_setDatabase_of_ne hne, ?_, ?_⟩
    · rw [uses_of_some hod]
      exact useCount_of_some databases_setDatabase_self
    · exact Or.inl (queue_setDatabase_self.trans (queue_of_some hod).symm)
  | failed hs₁ hload =>
    refine Or.inr ⟨fun hr => by simpa using (load_success_iff hload).mp hr, ?_⟩
    exact hs₁.imp And.right fun hclosed => ⟨hs₁.uses, hclosed.2.2⟩
  | loaded hs₁ hload =>
    refine Or.inl ⟨(load_success_iff hload).mpr rfl, ?_⟩
    have huses := hs₁.uses
    rcases hs₁ with ⟨-, rfl⟩ | ⟨-, -, rfl⟩
    · refine ⟨rfl, rfl, fun name' hne => databases_setDatabase_of_ne hne, ?_, ?_⟩
      · rw [huses]
        exact useCount_of_some databases_setDatabase_self
      · exact Or.inr ⟨huses, queue_setDatabase_self⟩
    · refine ⟨closeDatabase_clients, closeDatabase_sent, fun name' hne => ?_, ?_, ?_⟩
      · rw [databases_setDatabase_of_ne hne, closeDatabase_databases, Function.update_of_ne hne]
      · rw [huses]
        exact useCount_of_some databases_setDatabase_self
      · exact Or.inr ⟨huses, queue_setDatabase_self⟩

/-- One use of a database less. -/
structure ReleasedOnce (name : DatabaseName) (s s' : Server) : Prop where
  clients : s'.clients = s.clients
  sent : s'.sent = s.sent
  databases : ∀ name', name' ≠ name → s'.databases name' = s.databases name'
  useCount : s'.useCount name = some (s.uses name - 1) ∨
    s.uses name - 1 = 0 ∧ s'.useCount name = none
  queue : s'.queue name = s.queue name ∨ s.uses name - 1 = 0 ∧ s'.queue name = []

/-- What a release does. -/
theorem releasedOnce (h : s.release name = some s') : ReleasedOnce name s s' := by
  unfold release at h
  split at h
  · cases h
  · next od hod =>
    have huses : s.uses name = od.useCount := uses_of_some hod
    obtain rfl := Option.some.inj h
    split_ifs with hclose
    · refine ⟨closeDatabase_clients, closeDatabase_sent, fun name' hne => ?_, Or.inr ⟨?_, ?_⟩,
        Or.inr ⟨?_, queue_of_none ?_⟩⟩
      · rw [closeDatabase_databases, Function.update_of_ne hne, databases_setDatabase_of_ne hne]
      · rw [huses]
        exact hclose.1
      · rw [useCount, closeDatabase_databases, Function.update_self]
        rfl
      · rw [huses]
        exact hclose.1
      · rw [closeDatabase_databases, Function.update_self]
    · refine ⟨rfl, rfl, fun name' hne => databases_setDatabase_of_ne hne, Or.inl ?_, Or.inl ?_⟩
      · rw [huses]
        exact useCount_of_some databases_setDatabase_self
      · exact queue_setDatabase_self.trans (queue_of_some hod).symm

theorem useCount_congr (h : s'.databases name = s.databases name) :
    s'.useCount name = s.useCount name := by rw [useCount, h, useCount]

theorem queue_congr (h : s'.databases name = s.databases name) :
    s'.queue name = s.queue name := by rw [queue, h, queue]

/-- Opening a database and releasing it at once changes no use. -/
theorem UsersWF.release_of_opened (h : UsersWF s) {s₁ s₂ s₃ : Server} (ho : OpenedOnce name s s₁)
    (hdb : s₂.databases = s₁.databases) (hclients : s₂.clients = s₁.clients)
    (hr : ReleasedOnce name s₂ s₃) : UsersWF s₃ ∧ ∀ name', s₃.queue name' = s.queue name' ∨
      s.uses name' = 0 ∧ s₃.queue name' = [] := by
  have huses : s₂.uses name = s.uses name + 1 := by
    rw [uses, useCount_congr (congrFun hdb name), ho.useCount]
    rfl
  have hother : ∀ name', name' ≠ name → s₃.databases name' = s.databases name' := fun name' hne =>
    (hr.databases name' hne).trans ((congrFun hdb name').trans (ho.databases name' hne))
  have hq : ∀ name', s₃.queue name' = s.queue name' ∨ s.uses name' = 0 ∧ s₃.queue name' = [] :=
    fun name' => by
      by_cases hne : name' = name
      · subst hne
        rcases hr.queue with hq | ⟨hzero, hq⟩
        · rw [hq, queue_congr (congrFun hdb name')]
          exact ho.queue
        · rw [huses] at hzero
          exact Or.inr ⟨hzero, hq⟩
      · exact Or.inl (queue_congr (hother name' hne))
  refine ⟨h.of_sublist (fun c => openNames_congr ?_) (fun name' => ?_) fun name' => ?_, hq⟩
  · rw [hr.clients, hclients, ho.clients]
  · by_cases hne : name' = name
    · subst hne
      rcases hr.useCount with hu | ⟨hzero, hu⟩
      · rw [huses] at hu
        cases hs : s.useCount name' with
        | none =>
          refine Or.inr ⟨uses_eq_zero_iff.mpr (Or.inr hs), ?_⟩
          rw [uses, hu, uses, hs]
          rfl
        | some n =>
          rw [uses, hs] at hu
          exact Or.inl hu
      · rw [huses] at hzero
        exact Or.inr ⟨hzero, uses_eq_zero_iff.mpr (Or.inr hu)⟩
    · exact Or.inl (useCount_congr (hother name' hne))
  · rcases hq name' with hq | ⟨-, hq⟩
    · rw [hq]
    · rw [hq]
      exact List.nil_sublist _

/-! ### The list of a client's databases -/

/-- A database is entered in the list once. -/
theorem enterDatabase_perm {slots slots' : List DatabaseSlot} {slot : DatabaseSlot} {id : DatabaseId}
    (h : enterDatabase slots slot = some (id, slots')) (hslot : slot.database = some name) :
    (slots'.filterMap DatabaseSlot.database).Perm
      (name :: slots.filterMap DatabaseSlot.database) := by
  unfold enterDatabase at h
  split at h
  · next i hi =>
    cases h
    obtain ⟨hlt, hnone, -⟩ := List.findIdx?_eq_some_iff_getElem.mp hi
    have hnone : slots[id].database = none := Option.isNone_iff_eq_none.mp hnone
    rw [List.set_eq_take_append_cons_drop, if_pos hlt, List.filterMap_append,
      List.filterMap_cons_some hslot]
    refine List.perm_middle.trans (List.Perm.cons _ (List.Perm.of_eq ?_))
    conv_rhs => rw [← List.take_append_drop id slots, List.drop_eq_getElem_cons hlt]
    rw [List.filterMap_append, List.filterMap_cons_none hnone]
  · split_ifs at h
    cases h
    rw [List.filterMap_append, List.filterMap_cons_some hslot]
    exact List.perm_append_comm

/-- A database is taken off the list. -/
theorem set_none_perm {slots : List DatabaseSlot} {id : DatabaseId} {slot slot' : DatabaseSlot}
    (h : slots[id]? = some slot) (hslot : slot.database = some name)
    (hslot' : slot'.database = none) :
    (slots.filterMap DatabaseSlot.database).Perm
      (name :: (slots.set id slot').filterMap DatabaseSlot.database) := by
  obtain ⟨hlt, hget⟩ := List.getElem?_eq_some_iff.mp h
  rw [List.set_eq_take_append_cons_drop, if_pos hlt, List.filterMap_append,
    List.filterMap_cons_none hslot']
  conv_lhs => rw [← List.take_append_drop id slots, List.drop_eq_getElem_cons hlt]
  rw [List.filterMap_append, hget, List.filterMap_cons_some hslot]
  exact List.perm_middle

/-- Another mode of a database leaves the names as they are. -/
theorem set_some_eq {slots : List DatabaseSlot} {id : DatabaseId} {slot slot' : DatabaseSlot}
    (h : slots[id]? = some slot) (hslot : slot'.database = slot.database) :
    (slots.set id slot').filterMap DatabaseSlot.database =
      slots.filterMap DatabaseSlot.database := by
  obtain ⟨hlt, hget⟩ := List.getElem?_eq_some_iff.mp h
  rw [List.set_eq_take_append_cons_drop, if_pos hlt, List.filterMap_append]
  conv_rhs => rw [← List.take_append_drop id slots, List.drop_eq_getElem_cons hlt]
  rw [List.filterMap_append, hget, List.filterMap_cons, List.filterMap_cons, hslot]

end Server

end BlobsDb
