import BlobsDb.Server.Events

/-!
# Rejected transactions

`TransactionBegin` names databases by their ids, and chooses a mode for each. The entries are
processed one after another, so when an id is not in use, the entries before it have had their
effect already. The rejected message has changed nothing if these had no effect
(`unchanged_iff_of_rejected`).
-/

namespace BlobsDb

namespace Server

variable {c d : ClientId} {s s' s₁ : Server} {name : DatabaseName} {id : DatabaseId}
  {modes : List (DatabaseId × TxnMode)}

/-- The locks, modes and uses of snapshots, and who is inside a transaction. -/
structure Unchanged (s s' : Server) : Prop where
  locks : ∀ name, (s'.databases name).map OpenDatabase.locks =
    (s.databases name).map OpenDatabase.locks
  mvccUseCount : ∀ name, (s'.databases name).map (fun od => od.database.mvccUseCount) =
    (s.databases name).map fun od => od.database.mvccUseCount
  isDatabaseMVCC : ∀ c id, s'.isDatabaseMVCC c id = s.isDatabaseMVCC c id
  active : ∀ c, s'.active c = s.active c

/-- The entries before the first with an id that is not in use. -/
def validEntries (c : ClientId) (s : Server) (modes : List (DatabaseId × TxnMode)) :
    List (DatabaseId × TxnMode) :=
  modes.takeWhile fun e => (s.getDatabase c e.1).isSome

/-- Entries without effect: locks are given up only in databases where the client has none and
none was taken away from it, and the last entry for a database chooses the mode it has. -/
structure WithoutEffect (c : ClientId) (s : Server) (es : List (DatabaseId × TxnMode)) : Prop where
  locks : ∀ e ∈ es, e.2 ≠ .updateKeepStickyLocks → ∀ name, s.getDatabase c e.1 = some name →
    ∀ od, s.databases name = some od → od.locks.held c = [] ∧ od.locks.revoked c = []
  modes : ∀ id e, (es.filter fun e => e.1 = id).getLast? = some e →
    s.isDatabaseMVCC c id = decide (e.2 = .mvcc)

/-! ### Processing entries -/

/-- What an entry does to the ids and modes of the databases. -/
theorem modes_setTxnMode {mode : TxnMode} (hname : s.getDatabase c id = some name)
    (h : s.setTxnMode c name id mode = some s₁) :
    (∀ d i, s₁.getDatabase d i = s.getDatabase d i) ∧
      (∀ d i, s₁.isDatabaseMVCC d i =
        if d = c ∧ i = id then decide (mode = .mvcc) else s.isDatabaseMVCC d i) ∧
      ∀ d, s₁.active d = s.active d := by
  obtain ⟨-, hclients⟩ := setTxnMode_same h hname
  obtain ⟨slot, hslot, hslotname⟩ := getDatabase_eq_some_iff.mp hname
  have hlength : id < (s.clients c).openDatabases.length :=
    (List.getElem?_eq_some_iff.mp hslot).1
  refine ⟨fun d i => ?_, fun d i => ?_, fun d => ?_⟩
  · unfold getDatabase
    rw [hclients]
    by_cases hd : d = c
    · subst hd
      rw [Function.update_self]
      by_cases hi : i = id
      · subst hi
        simp only [List.getElem?_set_self hlength, hslot, hslotname]
      · simp only [List.getElem?_set_ne (Ne.symm hi)]
    · rw [Function.update_of_ne hd]
  · unfold isDatabaseMVCC
    rw [hclients]
    by_cases hd : d = c
    · subst hd
      rw [Function.update_self]
      by_cases hi : i = id
      · subst hi
        simp only [List.getElem?_set_self hlength, and_self, if_true]
      · simp only [List.getElem?_set_ne (Ne.symm hi), hi, and_false, if_false]
    · rw [Function.update_of_ne hd, if_neg fun h => hd h.1]
  · unfold active
    rw [hclients]
    by_cases hd : d = c
    · subst hd
      rw [Function.update_self]
    · rw [Function.update_of_ne hd]

/-- What an entry does to the locks. -/
theorem databases_setTxnMode {mode : TxnMode} (h : s.setTxnMode c name id mode = some s₁) :
    if mode = .updateKeepStickyLocks then s₁.databases = s.databases
    else ∃ od book, s.databases name = some od ∧ od.locks.releaseAll c = some book ∧
      s₁.databases = Function.update s.databases name (some { od with locks := book }) := by
  unfold setTxnMode at h
  obtain ⟨s₂, h₂, rfl⟩ := Option.map_eq_some_iff.mp h
  split_ifs with hmode
  · rw [if_neg (not_not.mpr hmode)] at h₂
    obtain rfl := Option.some.inj h₂
    rfl
  · rw [if_pos hmode] at h₂
    obtain ⟨od, od', hod, hod', rfl⟩ := updateDatabase_eq_some_iff.mp h₂
    obtain ⟨book, hbook, rfl⟩ := Option.map_eq_some_iff.mp hod'
    exact ⟨od, book, hod, hbook, rfl⟩

/-- Some of the entries gives up the locks in a database. -/
def GivesUp (c : ClientId) (s : Server) (es : List (DatabaseId × TxnMode)) (name : DatabaseName) :
    Prop :=
  ∃ e ∈ es, e.2 ≠ .updateKeepStickyLocks ∧ s.getDatabase c e.1 = some name

/-- A database after entries of a client: only the locks may be different, and only when they were
given up. -/
structure AfterEntries (c : ClientId) (givesUp : Prop) (od od' : OpenDatabase) : Prop where
  database : od'.database = od.database
  given : givesUp → od'.locks.held c = [] ∧ od'.locks.revoked c = []
  kept : (givesUp → od.locks.held c = [] ∧ od.locks.revoked c = []) → od'.locks = od.locks

theorem AfterEntries.trans {p q : Prop} {od od₁ od' : OpenDatabase}
    (h : AfterEntries c p od od₁) (h' : AfterEntries c q od₁ od') :
    AfterEntries c (p ∨ q) od od' where
  database := h'.database.trans h.database
  given hpq := by
    by_cases hq : q
    · exact h'.given hq
    · rw [h'.kept fun hq' => absurd hq' hq]
      exact h.given (hpq.resolve_right hq)
  kept hnil := by
    have h₁ : od₁.locks = od.locks := h.kept fun hp => hnil (Or.inl hp)
    rw [← h₁]
    exact h'.kept fun hq => h₁ ▸ hnil (Or.inr hq)

/-- What an entry does to a database. -/
theorem afterEntries_setTxnMode {mode : TxnMode} {od : OpenDatabase} {name' : DatabaseName}
    (h : s.setTxnMode c name id mode = some s₁) (hod : s.databases name' = some od) :
    ∃ od', s₁.databases name' = some od' ∧
      AfterEntries c (mode ≠ .updateKeepStickyLocks ∧ name = name') od od' := by
  have hdatabases := databases_setTxnMode h
  split_ifs at hdatabases with hmode
  · exact ⟨od, by rw [hdatabases, hod], rfl, fun hp => absurd hmode hp.1, fun _ => rfl⟩
  · obtain ⟨od₀, book, hod₀, hbook, heq⟩ := hdatabases
    rw [heq]
    by_cases hname : name = name'
    · subst hname
      obtain rfl := Option.some.inj (hod₀.symm.trans hod)
      refine ⟨_, Function.update_self _ _ _, rfl, fun _ => LockBook.nil_of_releaseAll hbook, ?_⟩
      intro hnil
      obtain ⟨hheld, hrevoked⟩ := hnil ⟨hmode, rfl⟩
      exact LockBook.eq_of_releaseAll_of_nil hheld hrevoked hbook
    · exact ⟨od, by rw [Function.update_of_ne (Ne.symm hname), hod], rfl,
        fun hp => absurd hp.2 hname, fun _ => rfl⟩

theorem none_setTxnMode {mode : TxnMode} {name' : DatabaseName}
    (h : s.setTxnMode c name id mode = some s₁) (hod : s.databases name' = none) :
    s₁.databases name' = none := by
  have hdatabases := databases_setTxnMode h
  split_ifs at hdatabases with hmode
  · rw [hdatabases, hod]
  · obtain ⟨od₀, book, hod₀, -, heq⟩ := hdatabases
    have hne : name' ≠ name := fun hname => by
      rw [hname, hod₀] at hod
      cases hod
    rw [heq, Function.update_of_ne hne, hod]

/-- The mode a database has after entries of its client. -/
def modeAfter (id : DatabaseId) (es : List (DatabaseId × TxnMode)) (mvcc : Bool) : Bool :=
  match (es.filter fun e => e.1 = id).getLast? with
  | none => mvcc
  | some e => decide (e.2 = .mvcc)

theorem modeAfter_cons (e : DatabaseId × TxnMode) (es : List (DatabaseId × TxnMode)) (mvcc : Bool) :
    modeAfter id (e :: es) mvcc =
      modeAfter id es (if id = e.1 then decide (e.2 = .mvcc) else mvcc) := by
  unfold modeAfter
  by_cases he : e.1 = id
  · rw [List.filter_cons_of_pos (by simpa using he), List.getLast?_cons, if_pos he.symm]
    cases (es.filter fun e => e.1 = id).getLast? <;> rfl
  · rw [List.filter_cons_of_neg (by simpa using he), if_neg (Ne.symm he)]

/-- What the entries have done, whether or not an id was not in use. -/
theorem setTxnModes_spec {b : Bool} (h : setTxnModes c modes s = some (b, s')) :
    (∀ name, s.databases name = none → s'.databases name = none) ∧
      (∀ name od, s.databases name = some od → ∃ od', s'.databases name = some od' ∧
        AfterEntries c (GivesUp c s (validEntries c s modes) name) od od') ∧
      (∀ d i, s'.isDatabaseMVCC d i =
        if d = c then modeAfter i (validEntries c s modes) (s.isDatabaseMVCC c i)
        else s.isDatabaseMVCC d i) ∧
      ∀ d, s'.active d = s.active d := by
  -- entries that are not processed do nothing
  have hnone : ∀ s : Server, (∀ name, s.databases name = none → s.databases name = none) ∧
      (∀ name od, s.databases name = some od → ∃ od', s.databases name = some od' ∧
        AfterEntries c (GivesUp c s [] name) od od') ∧
      (∀ d i, s.isDatabaseMVCC d i = if d = c then modeAfter i [] (s.isDatabaseMVCC c i)
        else s.isDatabaseMVCC d i) ∧ ∀ d, s.active d = s.active d := by
    refine fun s => ⟨fun _ => id, fun name od hod => ⟨od, hod, rfl, ?_, fun _ => rfl⟩,
      fun d i => ?_, fun _ => rfl⟩
    · rintro ⟨e, he, -⟩
      cases he
    · split_ifs with hd
      · rw [hd]
        rfl
      · rfl
  induction modes generalizing s with
  | nil =>
    cases h
    exact hnone _
  | cons e es ih =>
    rw [setTxnModes] at h
    split at h
    · next hid =>
      cases h
      rw [validEntries, List.takeWhile_cons_of_neg (by rw [hid]; exact Bool.false_ne_true)]
      exact hnone _
    · next name₀ hname₀ =>
      split at h
      · cases h
      · next s₁ hs₁ =>
        obtain ⟨hget, hmvcc, hactive⟩ := modes_setTxnMode hname₀ hs₁
        obtain ⟨h1, h2, h3, h4⟩ := ih h
        have hvalid : validEntries c s₁ es = validEntries c s es := by
          unfold validEntries
          simp only [hget]
        have hcons : validEntries c s (e :: es) = e :: validEntries c s es := by
          rw [validEntries, List.takeWhile_cons_of_pos (by rw [hname₀]; rfl), validEntries]
        rw [hcons]
        refine ⟨fun name hod => h1 name (none_setTxnMode hs₁ hod), fun name od hod => ?_,
          fun d i => ?_, fun d => (h4 d).trans (hactive d)⟩
        · obtain ⟨od₁, hod₁, ha₁⟩ := afterEntries_setTxnMode hs₁ hod
          obtain ⟨od', hod', ha'⟩ := h2 name od₁ hod₁
          refine ⟨od', hod', ?_⟩
          have hgives : GivesUp c s (e :: validEntries c s es) name ↔
              (e.2 ≠ .updateKeepStickyLocks ∧ name₀ = name) ∨
                GivesUp c s₁ (validEntries c s₁ es) name := by
            unfold GivesUp
            simp only [List.mem_cons, exists_eq_or_imp, hname₀, hvalid, hget, Option.some.injEq]
          rw [hgives]
          exact ha₁.trans ha'
        · rw [h3, hvalid]
          by_cases hd : d = c
          · rw [if_pos hd, if_pos hd, modeAfter_cons, hmvcc]
            simp only [true_and]
          · rw [if_neg hd, if_neg hd, hmvcc, if_neg fun h => hd h.1]

/-! ### Rejected messages -/

/-- What the entries have done is nothing when they had no effect, and only then. -/
theorem unchanged_setTxnModes_iff {b : Bool} (h : setTxnModes c modes s = some (b, s')) :
    Unchanged s s' ↔ WithoutEffect c s (validEntries c s modes) := by
  obtain ⟨hnone, hsome, hmvcc, hactive⟩ := setTxnModes_spec h
  constructor
  · intro hu
    refine ⟨fun e he hmode name hname od hod => ?_, fun id e hlast => ?_⟩
    · obtain ⟨od', hod', ha⟩ := hsome name od hod
      have hlocks := hu.locks name
      rw [hod, hod', Option.map_some, Option.map_some, Option.some.injEq] at hlocks
      rw [← hlocks]
      exact ha.given ⟨e, he, hmode, hname⟩
    · rw [← hu.isDatabaseMVCC, hmvcc, if_pos rfl, modeAfter, hlast]
  · intro hw
    have hkept : ∀ name od, s.databases name = some od → ∃ od', s'.databases name = some od' ∧
        od'.locks = od.locks ∧ od'.database = od.database := fun name od hod => by
      obtain ⟨od', hod', ha⟩ := hsome name od hod
      refine ⟨od', hod', ha.kept ?_, ha.database⟩
      rintro ⟨e, he, hmode, hname⟩
      exact hw.locks e he hmode name hname od hod
    refine ⟨fun name => ?_, fun name => ?_, fun d i => ?_, hactive⟩
    · cases hod : s.databases name with
      | none => rw [hnone name hod]
      | some od =>
        obtain ⟨od', hod', hlocks, -⟩ := hkept name od hod
        rw [hod', Option.map_some, Option.map_some, hlocks]
    · cases hod : s.databases name with
      | none => rw [hnone name hod]
      | some od =>
        obtain ⟨od', hod', -, hdatabase⟩ := hkept name od hod
        rw [hod', Option.map_some, Option.map_some, hdatabase]
    · rw [hmvcc]
      split_ifs with hd
      · subst hd
        unfold modeAfter
        split
        · rfl
        · next e hlast => exact (hw.modes i e hlast).symm
      · rfl

/-- A message that is rejected has changed nothing when the client was already inside a
transaction, or when the entries before the first invalid id had no effect, and only then. -/
theorem unchanged_iff_of_rejected {priority : Int} {r : TransactionBeginResponse.Result}
    (h : s.handleTransactionBegin c priority modes = some s')
    (hsent : s'.sent = s.sent ++ [(c, .transactionBegin r [])]) (hr : r ≠ .success) :
    Unchanged s s' ↔ s.active c = true ∨ WithoutEffect c s (validEntries c s modes) := by
  unfold handleTransactionBegin at h
  split_ifs at h with hactive
  · obtain rfl := Option.some.inj h
    exact iff_of_true ⟨fun _ => rfl, fun _ => rfl, fun _ _ => rfl, fun _ => rfl⟩ (Or.inl hactive)
  · rw [or_iff_right hactive]
    split at h
    · cases h
    · next s₁ hs₁ =>
      obtain rfl := Option.some.inj h
      rw [← unchanged_setTxnModes_iff hs₁]
      exact ⟨fun hu => ⟨hu.1, hu.2, hu.3, hu.4⟩, fun hu => ⟨hu.1, hu.2, hu.3, hu.4⟩⟩
    · next s₁ hs₁ =>
      -- the message was accepted
      exfalso
      split at h
      · cases h
      · next s₂ hs₂ =>
        obtain ⟨⟨locks, s₃⟩, hs₃, rfl⟩ := Option.map_eq_some_iff.mp h
        have hsame : s₃.sent = s.sent :=
          (constructTransactionBeginResponse_same hs₃).1.sent.trans
            ((clientBeginTransaction_begun hs₂).1.same.sent.trans (setTxnModes_begun hs₁).1.same.sent)
        rw [send, hsame, List.append_cancel_left_eq, List.singleton_inj, Prod.mk.injEq] at hsent
        injection hsent.2 with hresult
        exact hr hresult.symm

/-- A client with a lock from an earlier transaction keeps it in one database, gives up its locks in
another, where it has none, and then names a database it has not opened: the message is rejected, and
the two entries before the error have changed nothing. -/
theorem unchanged_iff_of_rejected_stickyLock : ∃ s s',
    run [.connectionOpened 1, .databaseOpen 1 (.mem 0) .createIfNotExist false,
      .databaseOpen 1 (.mem 1) .createIfNotExist false, .transactionBegin 1 0 [],
      .blobsRead ⟨1, 0, .write, -1, [⟨⟨0, 0, 0⟩, 0⟩]⟩, .transactionAbort 1]
      (start (fun _ => none) 0) = some s ∧
    (s.databases (.mem 0)).map (fun od => od.locks.held 1) = some [⟨0, 0, 0⟩] ∧
    validEntries 1 s [(0, .updateKeepStickyLocks), (1, .updateDiscardStickyLocks), (7, .mvcc)] =
      [(0, .updateKeepStickyLocks), (1, .updateDiscardStickyLocks)] ∧
    s.handleTransactionBegin 1 0
      [(0, .updateKeepStickyLocks), (1, .updateDiscardStickyLocks), (7, .mvcc)] = some s' ∧
    s'.sent = s.sent ++ [(1, .transactionBegin .errorInvalidDatabase [])] ∧ Unchanged s s' := by
  have hrun : ((run [.connectionOpened 1, .databaseOpen 1 (.mem 0) .createIfNotExist false,
      .databaseOpen 1 (.mem 1) .createIfNotExist false, .transactionBegin 1 0 [],
      .blobsRead ⟨1, 0, .write, -1, [⟨⟨0, 0, 0⟩, 0⟩]⟩, .transactionAbort 1]
      (start (fun _ => none) 0)).bind fun s =>
      (s.handleTransactionBegin 1 0
        [(0, .updateKeepStickyLocks), (1, .updateDiscardStickyLocks), (7, .mvcc)]).map fun s' =>
        decide (s'.sent = s.sent ++ [(1, .transactionBegin .errorInvalidDatabase [])] ∧
          (s.databases (.mem 0)).map (fun od => od.locks.held 1) = some [⟨0, 0, 0⟩] ∧
          (s.databases (.mem 1)).map (fun od => (od.locks.held 1, od.locks.revoked 1)) =
            some ([], []) ∧
          s.getDatabase 1 0 = some (.mem 0) ∧ s.getDatabase 1 1 = some (.mem 1) ∧
          s.getDatabase 1 7 = none ∧ s.isDatabaseMVCC 1 0 = false ∧
          s.isDatabaseMVCC 1 1 = false)) = some true := by
    decide +kernel
  obtain ⟨s, hs, hrun⟩ := Option.bind_eq_some_iff.mp hrun
  obtain ⟨s', hs', hrun⟩ := Option.map_eq_some_iff.mp hrun
  obtain ⟨hsent, hheld, hnone, h0, h1, h7, hmvcc0, hmvcc1⟩ := of_decide_eq_true hrun
  have hvalid : validEntries 1 s
      [(0, .updateKeepStickyLocks), (1, .updateDiscardStickyLocks), (7, .mvcc)] =
      [(0, .updateKeepStickyLocks), (1, .updateDiscardStickyLocks)] := by
    simp [validEntries, h0, h1, h7]
  refine ⟨s, s', hs, hheld, hvalid, hs', hsent,
    (unchanged_iff_of_rejected hs' hsent (by decide)).mpr (Or.inr ?_)⟩
  rw [hvalid]
  refine ⟨fun e he hmode name hname od hod => ?_, fun id e hlast => ?_⟩
  · -- only the second entry gives up locks
    simp only [List.mem_cons, List.not_mem_nil, or_false] at he
    rcases he with rfl | rfl
    · exact absurd rfl hmode
    · obtain rfl := Option.some.inj (h1.symm.trans hname)
      rw [hod, Option.map_some, Option.some.injEq, Prod.mk.injEq] at hnone
      exact hnone
  · have he := List.mem_filter.mp (List.mem_of_getLast? hlast)
    simp only [List.mem_cons, List.not_mem_nil, or_false, decide_eq_true_eq] at he
    rcases he with ⟨rfl | rfl, rfl⟩
    · exact hmvcc0
    · exact hmvcc1

/-- A client keeps a lock from an earlier transaction. It gives up its locks in the database by a
message that also names a database it has not opened: the message is rejected, but the lock is
gone. -/
theorem not_unchanged_of_rejected : ∃ s s',
    run [.connectionOpened 1, .databaseOpen 1 (.mem 0) .createIfNotExist false,
      .transactionBegin 1 0 [], .blobsRead ⟨1, 0, .write, -1, [⟨⟨0, 0, 0⟩, 0⟩]⟩,
      .transactionAbort 1] (start (fun _ => none) 0) = some s ∧
    s.handleTransactionBegin 1 0 [(0, .updateDiscardStickyLocks), (7, .mvcc)] = some s' ∧
    s'.sent = s.sent ++ [(1, .transactionBegin .errorInvalidDatabase [])] ∧ ¬Unchanged s s' := by
  have hrun : ((run [.connectionOpened 1, .databaseOpen 1 (.mem 0) .createIfNotExist false,
      .transactionBegin 1 0 [], .blobsRead ⟨1, 0, .write, -1, [⟨⟨0, 0, 0⟩, 0⟩]⟩,
      .transactionAbort 1] (start (fun _ => none) 0)).bind fun s =>
      (s.handleTransactionBegin 1 0 [(0, .updateDiscardStickyLocks), (7, .mvcc)]).map fun s' => decide (
        s'.sent = s.sent ++ [(1, .transactionBegin .errorInvalidDatabase [])] ∧
        (s.databases (.mem 0)).map (fun od => od.locks.held 1) = some [⟨0, 0, 0⟩] ∧
        (s'.databases (.mem 0)).map (fun od => od.locks.held 1) = some [])) = some true := by
    decide +kernel
  obtain ⟨s, hs, hrun⟩ := Option.bind_eq_some_iff.mp hrun
  obtain ⟨s', hs', hrun⟩ := Option.map_eq_some_iff.mp hrun
  obtain ⟨hsent, hbefore, hafter⟩ := of_decide_eq_true hrun
  refine ⟨s, s', hs, hs', hsent, fun hu => ?_⟩
  have hlocks := congrArg (Option.map fun b : LockBook BlobLocation ClientId => b.held 1)
    (hu.locks (.mem 0))
  rw [Option.map_map, Option.map_map] at hlocks
  have := hafter.symm.trans (hlocks.trans hbefore)
  cases this

end Server

end BlobsDb
