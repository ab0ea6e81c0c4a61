import BlobsDb.Server.Users

/-!
# What an event changes

Most events concern one client only: the other clients wait on, and are sent nothing (`Calm`).
The exceptions are the end of a transaction, after which reads of others may be granted
(`Ended`), and the read that closes a deadlock, which may end the transactions of others.
-/

namespace BlobsDb

namespace Server

variable {s s' : Server} {c d : ClientId} {name name' : DatabaseName} {m : BlobsRead} {b : Bool}
  {od od' : OpenDatabase} {id : DatabaseId}

/-- Nothing happens to the other clients, and no read is queued. -/
structure Calm (c : ClientId) (s s' : Server) : Prop where
  clients : ∀ d, d ≠ c → s'.clients d = s.clients d
  queue : ∀ name, (s'.queue name).Sublist (s.queue name)
  waits : ∀ d, d ≠ c → ∀ name, s.Waits d name → s'.Waits d name
  sentTo : ∀ d, d ≠ c → s'.sentTo d = s.sentTo d
  commitMessages : (s'.clients c).commitMessages = (s.clients c).commitMessages
  hasTransaction : (s'.clients c).hasTransaction = (s.clients c).hasTransaction
  connected : (s'.clients c).connected = (s.clients c).connected

namespace Calm

theorem refl (c : ClientId) (s : Server) : Calm c s s :=
  ⟨fun _ _ => rfl, fun _ => List.Sublist.refl _, fun _ _ _ h => h, fun _ _ => rfl, rfl, rfl, rfl⟩

theorem trans {s'' : Server} (h : Calm c s s') (h' : Calm c s' s'') : Calm c s s'' :=
  ⟨fun d hd => (h'.clients d hd).trans (h.clients d hd),
    fun name => (h'.queue name).trans (h.queue name),
    fun d hd name hw => h'.waits d hd name (h.waits d hd name hw),
    fun d hd => (h'.sentTo d hd).trans (h.sentTo d hd),
    h'.commitMessages.trans h.commitMessages, h'.hasTransaction.trans h.hasTransaction,
    h'.connected.trans h.connected⟩

theorem send (r : Response) : Calm c s (s.send c r) :=
  { refl c s with sentTo := fun _ hd => sentTo_send_of_ne hd r }

theorem setClient {client : Client} (hm : client.commitMessages = (s.clients c).commitMessages)
    (ht : client.hasTransaction = (s.clients c).hasTransaction)
    (hc : client.connected = (s.clients c).connected) : Calm c s (s.setClient c client) where
  clients _ hd := clients_setClient_of_ne hd client
  queue _ := List.Sublist.refl _
  waits _ _ _ h := h
  sentTo _ _ := rfl
  commitMessages := by rw [clients_setClient_self, hm]
  hasTransaction := by rw [clients_setClient_self, ht]
  connected := by rw [clients_setClient_self, hc]

/-- The clients are the same, and only databases that nobody uses lose their queues. -/
theorem of_databases (hwf : UsersWF s) (hclients : s'.clients = s.clients)
    (hsent : s'.sent = s.sent)
    (hq : ∀ name, s'.queue name = s.queue name ∨ s.uses name = 0 ∧ s'.queue name = []) :
    Calm c s s' where
  clients _ _ := by rw [hclients]
  queue name := by
    rcases hq name with h | ⟨-, h⟩
    · rw [h]
    · rw [h]
      exact List.nil_sublist _
  waits d _ name hw := by
    rcases hq name with h | ⟨hzero, -⟩
    · rwa [Waits, h]
    · exact absurd hw (hwf.not_waits hzero d)
  sentTo _ _ := by rw [Server.sentTo, hsent, Server.sentTo]
  commitMessages := by rw [hclients]
  hasTransaction := by rw [hclients]
  connected := by rw [hclients]

/-- Where clients, sent messages and queues are kept, nothing happens to others. -/
theorem of_kept (hkept : Kept s s') (hsent : s'.sent = s.sent)
    (hq : ∀ name, s'.queue name = s.queue name) : Calm c s s' where
  clients _ _ := by rw [hkept.clients]
  queue name := by rw [hq]
  waits _ _ name hw := by rwa [Waits, hq]
  sentTo _ _ := by rw [Server.sentTo, hsent, Server.sentTo]
  commitMessages := by rw [hkept.clients]
  hasTransaction := by rw [hkept.clients]
  connected := by rw [hkept.clients]

end Calm

/-! ### Opening -/

theorem UsersWF.send (h : UsersWF s) (r : Response) : UsersWF (s.send c r) :=
  h.of_sublist (fun _ => rfl) (fun _ => Or.inl rfl) fun _ => List.Sublist.refl _

/-- A database without users may be closed: no client sees it. -/
theorem UsersWF.closeDatabase (h : UsersWF s) (hzero : s.uses name = 0) :
    UsersWF (s.closeDatabase name) ∧ Calm c s (s.closeDatabase name) := by
  have hdb : ∀ name', (s.closeDatabase name).databases name' =
      if name' = name then none else s.databases name' := fun name' => by
    rw [closeDatabase_databases, Function.update_apply]
  have hq : ∀ name', (s.closeDatabase name).queue name' = s.queue name' ∨
      s.uses name' = 0 ∧ (s.closeDatabase name).queue name' = [] := fun name' => by
    by_cases hne : name' = name
    · subst hne
      exact Or.inr ⟨hzero, queue_of_none (by rw [hdb, if_pos rfl])⟩
    · exact Or.inl (queue_congr (by rw [hdb, if_neg hne]))
  have hcalm : Calm c s (s.closeDatabase name) :=
    Calm.of_databases h closeDatabase_clients closeDatabase_sent hq
  refine ⟨h.of_sublist (fun c => openNames_congr (by rw [closeDatabase_clients])) (fun name' => ?_)
    hcalm.queue, hcalm⟩
  by_cases hne : name' = name
  · subst hne
    refine Or.inr ⟨hzero, uses_eq_zero_iff.mpr (Or.inr ?_)⟩
    rw [useCount, hdb, if_pos rfl]
    rfl
  · exact Or.inl (useCount_congr (by rw [hdb, if_neg hne]))

/-- Opening a database concerns only the client that opens it. -/
theorem OpenedOnce.calm (hwf : UsersWF s) (h : OpenedOnce name s s') : Calm c s s' := by
  refine .of_databases hwf h.clients h.sent fun name' => ?_
  by_cases hne : name' = name
  · exact hne ▸ h.queue
  · exact Or.inl (queue_congr (h.databases name' hne))

/-- A client that opens a database is one of its users. -/
theorem UsersWF.of_opened (h : UsersWF s) {s₁ : Server} (ho : OpenedOnce name s s₁)
    (hclients : ∀ d, d ≠ c → s'.clients d = s₁.clients d)
    (hnames : (s'.openNames c).Perm (name :: s.openNames c)) (hnew : name ∉ s.openNames c)
    (hcount : ∀ name, s'.useCount name = s₁.useCount name)
    (hq : ∀ name, s'.queue name = s₁.queue name) : UsersWF s' := by
  have hother : ∀ d, d ≠ c → s'.openNames d = s.openNames d := fun d hd =>
    openNames_congr (by rw [hclients d hd, ho.clients])
  have hcount' : ∀ name', name' ≠ name → s'.useCount name' = s.useCount name' := fun name' hne =>
    (hcount name').trans (useCount_congr (ho.databases name' hne))
  have hmem : ∀ d name', name' ≠ name → (name' ∈ s'.openNames d ↔ name' ∈ s.openNames d) :=
    fun d name' hne => by
      by_cases hd : d = c
      · subst hd
        rw [hnames.mem_iff, List.mem_cons]
        simp [hne]
      · rw [hother d hd]
  have hself : name ∈ s'.openNames c := hnames.mem_iff.mpr List.mem_cons_self
  refine ⟨fun d => ?_, fun name' n hn => ?_, fun d name' hn => ?_, fun d name' hw => ?_⟩
  · by_cases hd : d = c
    · subst hd
      exact hnames.nodup_iff.mpr (List.nodup_cons.mpr ⟨hnew, h.nodup d⟩)
    · exact hother d hd ▸ h.nodup d
  · by_cases hne : name' = name
    · subst hne
      rw [hcount, ho.useCount] at hn
      obtain rfl := Option.some.inj hn
      have hold : ∃ users : List ClientId, users.Nodup ∧ users.length = s.uses name' ∧
          ∀ d, d ∈ users ↔ name' ∈ s.openNames d := by
        cases hs : s.useCount name' with
        | some n =>
          rw [uses, hs]
          exact h.users name' n hs
        | none =>
          have hzero : s.uses name' = 0 := uses_eq_zero_iff.mpr (Or.inr hs)
          exact ⟨[], List.nodup_nil, hzero.symm, fun d =>
            iff_of_false List.not_mem_nil (h.forall_not_mem hzero d)⟩
      obtain ⟨users, hn, hlen, hu⟩ := hold
      refine ⟨c :: users, List.nodup_cons.mpr ⟨fun hc => hnew ((hu c).mp hc), hn⟩,
        congrArg (· + 1) hlen, fun d => ?_⟩
      rw [List.mem_cons]
      by_cases hd : d = c
      · exact iff_of_true (Or.inl hd) (hd ▸ hself)
      · rw [hother d hd, hu]
        simp [hd]
    · obtain ⟨users, hu⟩ := h.users name' n (hcount' name' hne ▸ hn)
      exact ⟨users, hu.1, hu.2.1, fun d => (hu.2.2 d).trans (hmem d name' hne).symm⟩
  · by_cases hne : name' = name
    · subst hne
      rw [hcount, ho.useCount]
      rfl
    · rw [hcount' name' hne]
      exact h.isOpen d name' ((hmem d name' hne).mp hn)
  · rw [Waits, hq] at hw
    have hw : s.Waits d name' := (ho.calm (c := c) h).queue name' |>.subset hw.choose_spec.1 |> fun hm =>
      ⟨_, hm, hw.choose_spec.2⟩
    have hn := h.waits d name' hw
    by_cases hd : d = c
    · exact hd ▸ hnames.mem_iff.mpr (List.mem_cons_of_mem _ (hd ▸ hn))
    · exact hother d hd ▸ hn

/-- What opening a database changes. -/
theorem handleDatabaseOpen_calm {mode : OpenMode} {mvcc : Bool}
    (h : s.handleDatabaseOpen c name mode mvcc = some s') (hwf : UsersWF s) :
    UsersWF s' ∧ Calm c s s' ∧ ∃ r i, s'.sentTo c = s.sentTo c ++ [.databaseOpen r i] := by
  unfold handleDatabaseOpen at h
  split at h
  · cases h
  · next s₁ hopen =>
    rcases openDatabase_eq_some hopen with ⟨-, ho⟩ | ⟨hne, -⟩
    swap
    · exact absurd rfl hne
    have hsent : ∀ d, s₁.sentTo d = s.sentTo d := fun d => by
      rw [sentTo, ho.sent, sentTo]
    -- a client that may not open the database gives it up again
    have hfail : ∀ r, ((s₁.send c (.databaseOpen r 0)).release name = some s') →
        UsersWF s' ∧ Calm c s s' ∧ ∃ r i, s'.sentTo c = s.sentTo c ++ [.databaseOpen r i] := by
      intro r hrel
      have hr : ReleasedOnce name (s₁.send c (.databaseOpen r 0)) s' := releasedOnce hrel
      obtain ⟨hwf', hq⟩ := hwf.release_of_opened ho
        (show (s₁.send c (.databaseOpen r 0)).databases = s₁.databases from rfl) rfl hr
      refine ⟨hwf', (Calm.send (.databaseOpen r 0)).trans (.of_databases (hwf.send _) ?_ ?_ hq), r, 0,
        ?_⟩
      · exact hr.clients.trans ho.clients
      · rw [hr.sent]
        exact congrArg (· ++ _) ho.sent
      · rw [sentTo, hr.sent]
        exact (sentTo_send_self _).trans (by rw [hsent])
    have hnames : s₁.openNames c = s.openNames c := openNames_congr (by rw [ho.clients])
    split_ifs at h with hmem
    · exact hfail _ h
    · split at h
      · exact hfail _ h
      · next i slots hslots =>
        set s₂ := (s₁.setClient c { s₁.clients c with openDatabases := slots }).send c
          (.databaseOpen .success i) with hs₂
        have hperm : (s₂.openNames c).Perm (name :: s.openNames c) := by
          rw [hs₂, openNames, clients_send, clients_setClient_self, ← hnames]
          exact enterDatabase_perm hslots rfl
        have hclients : ∀ d, d ≠ c → s₂.clients d = s₁.clients d := fun d hd =>
          clients_setClient_of_ne hd _
        have hset : Calm c s₁ (s₁.setClient c { s₁.clients c with openDatabases := slots }) :=
          .setClient rfl rfl rfl
        have hcalm : Calm c s s₂ := (ho.calm hwf).trans (hset.trans (Calm.send _))
        have hto : s₂.sentTo c = s.sentTo c ++ [.databaseOpen .success i] := by
          rw [hs₂, sentTo_send_self, sentTo_setClient, hsent]
        have hwf₂ : UsersWF s₂ := hwf.of_opened ho hclients hperm (hnames ▸ hmem) (fun _ => rfl)
          fun _ => rfl
        replace h : (if (s₂.clients c).hasTransaction = true ∧ mvcc = true then
          s₂.updateDatabase (fun od => some { od with database := od.database.beginMVCC }) name
          else some s₂) = some s' := h
        split_ifs at h
        · obtain ⟨od, od', hod, hod', rfl⟩ := updateDatabase_eq_some_iff.mp h
          obtain rfl := Option.some.inj hod'
          have hkept := kept_setDatabase hod
            (show OpenDatabase.useCount { od with database := od.database.beginMVCC } = _ from rfl)
          have hq := queue_setDatabase hod (show OpenDatabase.queuedReads
            { od with database := od.database.beginMVCC } = _ from rfl)
          exact ⟨hwf₂.of_kept hkept hq, hcalm.trans (.of_kept hkept rfl hq), _, _, hto⟩
        · obtain rfl := Option.some.inj h
          exact ⟨hwf₂, hcalm, _, _, hto⟩
  · next r s₁ hne hopen =>
    obtain rfl := Option.some.inj h
    rcases openDatabase_eq_some hopen with ⟨hr, -⟩ | ⟨-, rfl | ⟨hzero, rfl⟩⟩
    · exact absurd hr hne
    · exact ⟨hwf.send _, Calm.send _, r, 0, sentTo_send_self _⟩
    · -- a database to be created anew was closed first
      obtain ⟨h1, h2⟩ := hwf.closeDatabase (c := c) hzero
      refine ⟨h1.send _, h2.trans (Calm.send _), r, 0, ?_⟩
      rw [sentTo_send_self, sentTo, closeDatabase_sent, sentTo]

/-! ### Closing -/

/-- A client knows a database by the place of its entry. -/
theorem getDatabase_eq_some_iff : s.getDatabase c id = some name ↔
    ∃ slot, (s.clients c).openDatabases[id]? = some slot ∧ slot.database = some name := by
  unfold getDatabase
  cases (s.clients c).openDatabases[id]? <;> simp

theorem mem_openNames_of_getDatabase (h : s.getDatabase c id = some name) :
    name ∈ s.openNames c := by
  obtain ⟨slot, hslot, hname⟩ := getDatabase_eq_some_iff.mp h
  exact List.mem_filterMap.mpr ⟨slot, List.mem_of_getElem? hslot, hname⟩

/-- A client that closes a database is no longer one of its users. -/
theorem UsersWF.of_closed (h : UsersWF s) {s₁ : Server} (hr : ReleasedOnce name s₁ s')
    (hclients : ∀ d, d ≠ c → s₁.clients d = s.clients d)
    (hnames : (s.openNames c).Perm (name :: s₁.openNames c))
    (hcount : ∀ name, s₁.useCount name = s.useCount name)
    (hq : ∀ name, (s₁.queue name).Sublist (s.queue name)) (hno : ¬s₁.Waits c name) :
    UsersWF s' := by
  have hother : ∀ d, d ≠ c → s'.openNames d = s.openNames d := fun d hd =>
    openNames_congr (by rw [hr.clients, hclients d hd])
  have hself : s'.openNames c = s₁.openNames c := openNames_congr (by rw [hr.clients])
  have hcount' : ∀ name', name' ≠ name → s'.useCount name' = s.useCount name' := fun name' hne =>
    (useCount_congr (hr.databases name' hne)).trans (hcount name')
  have hnodup : name ∉ s₁.openNames c ∧ (s₁.openNames c).Nodup :=
    List.nodup_cons.mp (hnames.nodup_iff.mp (h.nodup c))
  have hmem : ∀ d name', name' ≠ name → (name' ∈ s'.openNames d ↔ name' ∈ s.openNames d) :=
    fun d name' hne => by
      by_cases hd : d = c
      · subst hd
        rw [hself, hnames.mem_iff, List.mem_cons]
        simp [hne]
      · rw [hother d hd]
  have huser : name ∈ s.openNames c := hnames.mem_iff.mpr List.mem_cons_self
  obtain ⟨n, hn⟩ := Option.isSome_iff_exists.mp (h.isOpen c name huser)
  obtain ⟨users, hu, hlen, husers⟩ := h.users name n hn
  have huses : s₁.uses name = n := by
    rw [uses, hcount, hn]
    rfl
  -- the users that are left are those that still have the database open
  have hleft : ∀ d, d ∈ users.erase c ↔ name ∈ s'.openNames d := fun d => by
    rw [hu.mem_erase_iff, husers]
    by_cases hd : d = c
    · subst hd
      rw [hself]
      exact iff_of_false (fun h => h.1 rfl) hnodup.1
    · rw [hother d hd]
      simp [hd]
  have hlen' : (users.erase c).length = n - 1 := by
    rw [List.length_erase_of_mem ((husers c).mpr huser), hlen]
  refine ⟨fun d => ?_, fun name' k hk => ?_, fun d name' hd => ?_, fun d name' hw => ?_⟩
  · by_cases hd : d = c
    · subst hd
      exact hself ▸ hnodup.2
    · exact hother d hd ▸ h.nodup d
  · by_cases hne : name' = name
    · subst hne
      rcases hr.useCount with hk' | ⟨-, hk'⟩
      · rw [hk', huses] at hk
        obtain rfl := Option.some.inj hk
        exact ⟨users.erase c, hu.erase c, hlen', hleft⟩
      · rw [hk'] at hk
        cases hk
    · obtain ⟨users', hu'⟩ := h.users name' k (hcount' name' hne ▸ hk)
      exact ⟨users', hu'.1, hu'.2.1, fun d => (hu'.2.2 d).trans (hmem d name' hne).symm⟩
  · by_cases hne : name' = name
    · subst hne
      rcases hr.useCount with hk | ⟨hzero, -⟩
      · rw [hk]
        rfl
      · -- without users nobody has it open, yet `d` has
        rw [huses, ← hlen'] at hzero
        have := (hleft d).mpr hd
        rw [List.length_eq_zero_iff.mp hzero] at this
        cases this
    · rw [hcount' name' hne]
      exact h.isOpen d name' ((hmem d name' hne).mp hd)
  · have hw₁ : s₁.Waits d name' := by
      obtain ⟨m, hm, hc⟩ := hw
      refine ⟨m, ?_, hc⟩
      by_cases hne : name' = name
      · subst hne
        rcases hr.queue with hq | ⟨-, hq⟩
        · exact hq ▸ hm
        · rw [hq] at hm
          cases hm
      · exact queue_congr (hr.databases name' hne) ▸ hm
    have hopen := h.waits d name' (hw₁.of_sublist (hq name'))
    by_cases hne : name' = name
    · subst hne
      by_cases hd : d = c
      · exact absurd (hd ▸ hw₁) hno
      · exact hother d hd ▸ hopen
    · exact (hmem d name' hne).mpr hopen

/-- `Client::CloseDatabase`, up to `Database::Release`. -/
def leaving (c : ClientId) (id : DatabaseId) (name : DatabaseName) (s : Server) : Option Server :=
  (s.updateDatabase (fun od => (od.locks.releaseAll c).map fun book =>
    OpenDatabase.dropReads c { od with locks := book }) name).map fun s =>
      s.setClient c { s.clients c with
        openDatabases := (s.clients c).openDatabases.set id ⟨none, s.isDatabaseMVCC c id⟩ }

/-- Closing a database for a client: its entry and its reads go, then the database is released. -/
theorem clientCloseDatabase_eq_some (h : s.clientCloseDatabase c id = some s') :
    ∃ name s₁, s.getDatabase c id = some name ∧ s.leaving c id name = some s₁ ∧
      s₁.release name = some s' := by
  unfold clientCloseDatabase at h
  split at h
  · cases h
  · next name hname =>
    dsimp only at h
    split at h
    · cases h
    · next s₁ hs₁ => exact ⟨name, _, hname, by rw [leaving, hs₁]; rfl, h⟩

/-- What is changed when a client leaves a database. -/
structure Left (c : ClientId) (id : DatabaseId) (name : DatabaseName) (s s' : Server) : Prop where
  clients : s'.clients = Function.update s.clients c { s.clients c with
    openDatabases := (s.clients c).openDatabases.set id ⟨none, s.isDatabaseMVCC c id⟩ }
  names : (s.openNames c).Perm (name :: s'.openNames c)
  useCount : ∀ name, s'.useCount name = s.useCount name
  queue : ∀ name', s'.queue name' = if name' = name then
    (s.queue name).filter (fun m => m.clientId ≠ c) else s.queue name'
  sent : s'.sent = s.sent

/-- What a client leaves behind that closes a database. -/
theorem left_of_leaving (h : s.leaving c id name = some s') (hname : s.getDatabase c id = some name) :
    Left c id name s s' := by
  unfold leaving at h
  obtain ⟨s₁, hs₁, rfl⟩ := Option.map_eq_some_iff.mp h
  obtain ⟨od, od', hod, hod', rfl⟩ := updateDatabase_eq_some_iff.mp hs₁
  obtain ⟨book, -, rfl⟩ := Option.map_eq_some_iff.mp hod'
  obtain ⟨slot, hslot, hslotname⟩ := getDatabase_eq_some_iff.mp hname
  refine ⟨rfl, ?_, fun name' => ?_, fun name' => ?_, rfl⟩
  · rw [openNames, openNames, clients_setClient_self]
    exact set_none_perm hslot hslotname rfl
  · exact (kept_setDatabase hod (show OpenDatabase.useCount
      (OpenDatabase.dropReads c { od with locks := book }) = _ from rfl)).useCount name'
  · change (s.setDatabase name (OpenDatabase.dropReads c { od with locks := book })).queue name' = _
    split_ifs with hne
    · subst hne
      rw [queue_setDatabase_self, queue_of_some hod]
      rfl
    · exact queue_setDatabase_of_ne hne

namespace Left

theorem clients_of_ne (h : Left c id name s s') (hd : d ≠ c) : s'.clients d = s.clients d := by
  rw [h.clients, Function.update_of_ne hd]

theorem clients_self (h : Left c id name s s') : s'.clients c = { s.clients c with
    openDatabases := (s.clients c).openDatabases.set id ⟨none, s.isDatabaseMVCC c id⟩ } := by
  rw [h.clients, Function.update_self]

/-- Reads may be taken from the queues, and none is added. -/
theorem queue_sublist (h : Left c id name s s') (name' : DatabaseName) :
    (s'.queue name').Sublist (s.queue name') := by
  rw [h.queue]
  split_ifs with hne
  · exact hne ▸ List.filter_sublist
  · exact List.Sublist.refl _

/-- The client does not wait in the database it left. -/
theorem not_waits (h : Left c id name s s') : ¬s'.Waits c name := fun ⟨m, hm, hc⟩ => by
  rw [h.queue, if_pos rfl] at hm
  simpa [hc] using (List.mem_filter.mp hm).2

/-- Other clients wait on. -/
theorem waits (h : Left c id name s s') (hd : d ≠ c) (hw : s.Waits d name') : s'.Waits d name' := by
  obtain ⟨m, hm, hm'⟩ := hw
  refine ⟨m, ?_, hm'⟩
  rw [h.queue]
  split_ifs with hne
  · subst hne
    exact List.mem_filter.mpr ⟨hm, by simpa using fun hc => hd (hm'.symm.trans hc)⟩
  · exact hm

/-- The users are counted as before when the client is released once. -/
theorem usersWF {s'' : Server} (h : Left c id name s s') (hr : ReleasedOnce name s' s'')
    (hwf : UsersWF s) : UsersWF s'' :=
  hwf.of_closed hr (fun _ => h.clients_of_ne) h.names h.useCount h.queue_sublist h.not_waits

end Left

/-- What closing a database changes. -/
theorem clientCloseDatabase_calm (h : s.clientCloseDatabase c id = some s') (hwf : UsersWF s) :
    UsersWF s' ∧ Calm c s s' ∧ s'.sent = s.sent ∧
      (s'.clients c).openDatabases.length = (s.clients c).openDatabases.length := by
  obtain ⟨name, s₂, hname, hleaving, hrelease⟩ := clientCloseDatabase_eq_some h
  have hl : Left c id name s s₂ := left_of_leaving hleaving hname
  have hr : ReleasedOnce name s₂ s' := releasedOnce hrelease
  have hself : s'.clients c = _ := (congrFun hr.clients c).trans hl.clients_self
  refine ⟨hl.usersWF hr hwf, ⟨fun d hd => ?_, fun name' => ?_, fun d hd name' hw => ?_,
    fun d hd => ?_, ?_, ?_, ?_⟩, hr.sent.trans hl.sent, ?_⟩
  · rw [hr.clients, hl.clients_of_ne hd]
  · refine List.Sublist.trans ?_ (hl.queue_sublist name')
    by_cases hne : name' = name
    · subst hne
      rcases hr.queue with hq | ⟨-, hq⟩
      · rw [hq]
      · rw [hq]
        exact List.nil_sublist _
    · rw [queue_congr (hr.databases name' hne)]
  · have hw₂ := hl.waits hd hw
    by_cases hne : name' = name
    · subst hne
      rcases hr.queue with hq | ⟨hzero, -⟩
      · rwa [Waits, hq]
      · -- both clients use the database, so it is not closed
        exfalso
        obtain ⟨n, hn⟩ := Option.isSome_iff_exists.mp (hwf.isOpen d name' (hwf.waits d name' hw))
        obtain ⟨users, hu, hlen, husers⟩ := hwf.users name' n hn
        have hd' := (husers d).mpr (hwf.waits d name' hw)
        have hc' := (husers c).mpr (hl.names.mem_iff.mpr List.mem_cons_self)
        rw [uses, hl.useCount, hn, Option.getD_some, ← hlen] at hzero
        have h1 := List.length_erase_of_mem hc'
        have h2 : d ∈ users.erase c := (hu.mem_erase_iff).mpr ⟨hd, hd'⟩
        rw [hzero, List.length_eq_zero_iff] at h1
        rw [h1] at h2
        cases h2
    · rwa [Waits, queue_congr (hr.databases name' hne)]
  · rw [sentTo, hr.sent, hl.sent, sentTo]
  · rw [hself]
  · rw [hself]
  · rw [hself]
  · rw [hself]
    exact List.length_set

/-- What closing a database changes. -/
theorem handleDatabaseClose_calm (h : s.handleDatabaseClose c id = some s') (hwf : UsersWF s) :
    UsersWF s' ∧ Calm c s s' ∧ ∃ r, s'.sentTo c = s.sentTo c ++ [.databaseClose r] := by
  unfold handleDatabaseClose at h
  split_ifs at h with hactive
  · obtain rfl := Option.some.inj h
    exact ⟨hwf.send _, Calm.send _, _, sentTo_send_self _⟩
  · split at h
    · obtain rfl := Option.some.inj h
      exact ⟨hwf.send _, Calm.send _, _, sentTo_send_self _⟩
    · obtain ⟨s₁, h₁, rfl⟩ := Option.map_eq_some_iff.mp h
      obtain ⟨h1, h2, h3, -⟩ := clientCloseDatabase_calm h₁ hwf
      refine ⟨h1.send _, h2.trans (Calm.send _), .success, ?_⟩
      rw [sentTo_send_self, sentTo, h3, sentTo]

/-- Closing all databases of a client concerns only this client. -/
theorem closeAllDatabases_calm (h : s.closeAllDatabases c = some s') (hwf : UsersWF s) :
    UsersWF s' ∧ Calm c s s' ∧ s'.sent = s.sent := by
  refine foldlM_induction (P := fun s' => UsersWF s' ∧ Calm c s s' ∧ s'.sent = s.sent) h
    ⟨hwf, Calm.refl c s, rfl⟩ fun i _ s₁ s₂ hstep ⟨h1, h2, h3⟩ => ?_
  split_ifs at hstep
  · obtain ⟨h4, h5, h6, -⟩ := clientCloseDatabase_calm hstep h1
    exact ⟨h4, h2.trans h5, h6.trans h3⟩
  · obtain rfl := Option.some.inj hstep
    exact ⟨h1, h2, h3⟩

/-! ### Beginning a transaction -/

/-- The databases of a client change their modes and locks only. -/
structure SameDatabases (s s' : Server) : Prop where
  openNames : ∀ c, s'.openNames c = s.openNames c
  useCount : ∀ name, s'.useCount name = s.useCount name
  queue : ∀ name, s'.queue name = s.queue name
  sent : s'.sent = s.sent

theorem SameDatabases.refl (s : Server) : SameDatabases s s :=
  ⟨fun _ => rfl, fun _ => rfl, fun _ => rfl, rfl⟩

theorem SameDatabases.trans {s'' : Server} (h : SameDatabases s s') (h' : SameDatabases s' s'') :
    SameDatabases s s'' :=
  ⟨fun c => (h'.openNames c).trans (h.openNames c), fun name => (h'.useCount name).trans
    (h.useCount name), fun name => (h'.queue name).trans (h.queue name), h'.sent.trans h.sent⟩

/-- The users are counted as before where databases and connections are the same. -/
theorem SameDatabases.usersWF (h : SameDatabases s s') (hwf : UsersWF s) : UsersWF s' :=
  hwf.of_sublist h.openNames (fun name => Or.inl (h.useCount name)) fun name => by rw [h.queue]

/-- A database may change in all but its users and its queue. -/
theorem sameDatabases_setDatabase (hod : s.databases name = some od)
    (hu : od'.useCount = od.useCount) (hq : od'.queuedReads = od.queuedReads) :
    SameDatabases s (s.setDatabase name od') :=
  ⟨fun _ => rfl, (kept_setDatabase hod hu).useCount, queue_setDatabase hod hq, rfl⟩

theorem sameDatabases_setClient {client : Client}
    (h : client.openDatabases.filterMap DatabaseSlot.database = s.openNames c) :
    SameDatabases s (s.setClient c client) := by
  refine ⟨fun d => ?_, fun _ => rfl, fun _ => rfl, rfl⟩
  by_cases hd : d = c
  · subst hd
    rw [openNames, clients_setClient_self, h]
  · exact openNames_congr (by rw [clients_setClient_of_ne hd])

/-- What the mode of a database changes. -/
theorem setTxnMode_same {mode : TxnMode} (h : s.setTxnMode c name id mode = some s')
    (hname : s.getDatabase c id = some name) : SameDatabases s s' ∧
      s'.clients = Function.update s.clients c { s.clients c with
        openDatabases := (s.clients c).openDatabases.set id ⟨some name, mode = .mvcc⟩ } := by
  unfold setTxnMode at h
  obtain ⟨s₁, h₁, rfl⟩ := Option.map_eq_some_iff.mp h
  have hsame : SameDatabases s s₁ ∧ s₁.clients = s.clients := by
    split_ifs at h₁
    · obtain ⟨od, od', hod, hod', rfl⟩ := updateDatabase_eq_some_iff.mp h₁
      obtain ⟨book, -, rfl⟩ := Option.map_eq_some_iff.mp hod'
      exact ⟨sameDatabases_setDatabase hod rfl rfl, rfl⟩
    · obtain rfl := Option.some.inj h₁
      exact ⟨SameDatabases.refl _, rfl⟩
  obtain ⟨slot, hslot, hslotname⟩ := getDatabase_eq_some_iff.mp hname
  refine ⟨hsame.1.trans (sameDatabases_setClient ?_), by rw [setClient, hsame.2]⟩
  rw [hsame.2, set_some_eq hslot hslotname.symm, openNames, hsame.2]

/-- The users are counted as before when a client keeps its open databases. -/
theorem UsersWF.setClient (h : UsersWF s) {client : Client}
    (ho : client.openDatabases = (s.clients c).openDatabases) : UsersWF (s.setClient c client) :=
  (sameDatabases_setClient (by rw [ho, openNames])).usersWF h

/-- A transaction that begins changes only the client that begins it. -/
structure Begun (c : ClientId) (s s' : Server) : Prop where
  same : SameDatabases s s'
  clients : ∀ d, d ≠ c → s'.clients d = s.clients d
  commitMessages : (s'.clients c).commitMessages = (s.clients c).commitMessages
  connected : (s'.clients c).connected = (s.clients c).connected

theorem Begun.trans {s'' : Server} (h : Begun c s s') (h' : Begun c s' s'') : Begun c s s'' :=
  ⟨h.same.trans h'.same, fun d hd => (h'.clients d hd).trans (h.clients d hd),
    h'.commitMessages.trans h.commitMessages, h'.connected.trans h.connected⟩

/-- What changes databases only may be part of a begin. -/
theorem Begun.of_same (h : SameDatabases s s') (hclients : s'.clients = s.clients) :
    Begun c s s' :=
  ⟨h, fun _ _ => by rw [hclients], by rw [hclients], by rw [hclients]⟩

/-- Setting the modes of a transaction is part of its begin. -/
theorem setTxnModes_begun {modes : List (DatabaseId × TxnMode)}
    (h : setTxnModes c modes s = some (b, s')) :
    Begun c s s' ∧ (s'.clients c).hasTransaction = (s.clients c).hasTransaction := by
  induction modes generalizing s with
  | nil =>
    cases h
    exact ⟨.of_same (.refl _) rfl, rfl⟩
  | cons e es ih =>
    rw [setTxnModes] at h
    split at h
    · cases h
      exact ⟨.of_same (.refl _) rfl, rfl⟩
    · next name hname =>
      split at h
      · cases h
      · next s₁ hs₁ =>
        obtain ⟨hsame, hclients⟩ := setTxnMode_same hs₁ hname
        obtain ⟨h1, h2⟩ := ih h
        have hbegun : Begun c s s₁ := by
          refine ⟨hsame, fun d hd => ?_, ?_, ?_⟩
          · rw [hclients, Function.update_of_ne hd]
          · rw [hclients, Function.update_self]
          · rw [hclients, Function.update_self]
        refine ⟨hbegun.trans h1, h2.trans ?_⟩
        rw [hclients, Function.update_self]

/-- The client is in a transaction then. -/
theorem clientBeginTransaction_begun {priority : Int}
    (h : s.clientBeginTransaction c priority = some s') :
    Begun c s s' ∧ (s'.clients c).hasTransaction = true := by
  unfold clientBeginTransaction at h
  dsimp only at h
  have hfirst : Begun c s (s.setClient c
      { s.clients c with hasTransaction := true, transactionPriority := priority }) := by
    refine ⟨sameDatabases_setClient rfl, fun d hd => clients_setClient_of_ne hd _, ?_, ?_⟩
    · rw [clients_setClient_self]
    · rw [clients_setClient_self]
  refine foldlM_induction (P := fun s' => Begun c s s' ∧ (s'.clients c).hasTransaction = true) h
    ⟨hfirst, by rw [clients_setClient_self]⟩ fun slot _ s₁ s₂ hstep ⟨h1, h2⟩ => ?_
  split at hstep
  · obtain ⟨od, od', hod, hod', rfl⟩ := updateDatabase_eq_some_iff.mp hstep
    obtain rfl := Option.some.inj hod'
    exact ⟨h1.trans (.of_same (sameDatabases_setDatabase hod rfl rfl) rfl), h2⟩
  · obtain rfl := Option.some.inj hstep
    exact ⟨h1, h2⟩

/-- Telling a client of its locks changes neither clients nor queues. -/
theorem constructTransactionBeginResponse_same {locks : List DatabaseStickyLocks}
    (h : s.constructTransactionBeginResponse c = some (locks, s')) :
    SameDatabases s s' ∧ s'.clients = s.clients := by
  unfold constructTransactionBeginResponse at h
  refine foldlM_induction (P := fun r => SameDatabases s r.2 ∧ r.2.clients = s.clients) h
    ⟨.refl s, rfl⟩ fun e _ r r' hstep ⟨h1, h2⟩ => ?_
  unfold tellLocks at hstep
  split at hstep
  · cases hstep
  · next od hod =>
    cases hstep
    exact ⟨h1.trans (sameDatabases_setDatabase hod rfl rfl), h2⟩

/-- What beginning a transaction changes. -/
theorem handleTransactionBegin_begun {priority : Int} {modes : List (DatabaseId × TxnMode)}
    (h : s.handleTransactionBegin c priority modes = some s') :
    ∃ s₁ r locks, Begun c s s₁ ∧ s' = s₁.send c (.transactionBegin r locks) ∧
      (s.active c = true → s₁.active c = true) := by
  unfold handleTransactionBegin at h
  split_ifs at h with hactive
  · obtain rfl := Option.some.inj h
    exact ⟨s, _, _, .of_same (.refl _) rfl, rfl, id⟩
  · split at h
    · cases h
    · next s₁ hs₁ =>
      obtain rfl := Option.some.inj h
      exact ⟨s₁, _, _, (setTxnModes_begun hs₁).1, rfl, fun ha => absurd ha hactive⟩
    · next s₁ hs₁ =>
      split at h
      · cases h
      · next s₂ hs₂ =>
        obtain ⟨⟨locks, s₃⟩, hs₃, rfl⟩ := Option.map_eq_some_iff.mp h
        obtain ⟨h1, h2⟩ := constructTransactionBeginResponse_same hs₃
        obtain ⟨h3, h4⟩ := clientBeginTransaction_begun hs₂
        refine ⟨s₃, _, _, ((setTxnModes_begun hs₁).1.trans h3).trans (.of_same h1 h2), rfl,
          fun _ => ?_⟩
        rw [active, h2]
        exact h4

/-! ### Committing -/

/-- Validating a commit changes neither clients nor queues. -/
theorem validateCommitMessages_same {gs : List (DatabaseId × List TransactionCommit)}
    {r : TransactionCommitResponse.Result} {ls : List (DatabaseId × List BlobLocation)}
    (h : validateCommitMessages c gs s = some (r, ls, s')) :
    SameDatabases s s' ∧ s'.clients = s.clients := by
  induction gs generalizing s ls with
  | nil =>
    cases h
    exact ⟨.refl _, rfl⟩
  | cons g gs ih =>
    rw [validateCommitMessages] at h
    split at h
    · cases h
      exact ⟨.refl _, rfl⟩
    · next name hname =>
      split at h
      · cases h
      · next od hod =>
        split at h
        · cases h
        · next db ls' _ =>
          obtain ⟨⟨r', ls'', s''⟩, hr, heq⟩ := Option.map_eq_some_iff.mp h
          cases heq
          obtain ⟨h1, h2⟩ := ih hr
          have hdb : SameDatabases s (s.setDatabase name { od with database := db }) :=
            sameDatabases_setDatabase hod rfl rfl
          exact ⟨hdb.trans h1, h2⟩
        · cases h
          exact ⟨sameDatabases_setDatabase hod rfl rfl, rfl⟩

/-- Applying a commit to a database changes neither its use count nor its queue. -/
theorem commitDatabase_keeps {us : List BlobData} {σ : Schedule} {ls : List BlobLocation}
    (h : commitDatabase c us σ ls od = some od') :
    od'.useCount = od.useCount ∧ od'.queuedReads = od.queuedReads := by
  unfold commitDatabase at h
  split at h
  · cases h
  · obtain ⟨book, -, rfl⟩ := Option.map_eq_some_iff.mp h
    exact ⟨rfl, rfl⟩

/-- Applying a commit changes neither clients nor queues. -/
theorem commitDatabases_same {σ : DatabaseName → Schedule}
    {gs : List ((DatabaseId × List TransactionCommit) × List BlobLocation)}
    {commits : List (DatabaseId × CommitId)} (h : commitDatabases c σ gs s = some (commits, s')) :
    SameDatabases s s' ∧ s'.clients = s.clients := by
  induction gs generalizing s commits with
  | nil =>
    cases h
    exact ⟨.refl _, rfl⟩
  | cons g gs ih =>
    obtain ⟨g, ls⟩ := g
    rw [commitDatabases] at h
    split at h
    · cases h
    · next name hname =>
      split at h
      · cases h
      · next od hod =>
        split at h
        · cases h
        · next od' hod' =>
          obtain ⟨⟨commits', s''⟩, hr, heq⟩ := Option.map_eq_some_iff.mp h
          cases heq
          obtain ⟨h1, h2⟩ := ih hr
          obtain ⟨hu, hq⟩ := commitDatabase_keeps hod'
          exact ⟨(sameDatabases_setDatabase hod hu hq).trans h1, h2⟩

/-- The messages of a commit are dealt with: they are kept no longer, and the client is told. -/
structure Replied (c : ClientId) (r : Response) (s s' : Server) : Prop where
  clients : s'.clients = Function.update s.clients c { s.clients c with commitMessages := [] }
  useCount : ∀ name, s'.useCount name = s.useCount name
  queue : ∀ name, s'.queue name = s.queue name
  sent : s'.sent = s.sent ++ [(c, r)]

theorem Replied.openNames {r : Response} (h : Replied c r s s') (d : ClientId) :
    s'.openNames d = s.openNames d := by
  refine openNames_congr ?_
  rw [h.clients]
  by_cases hd : d = c
  · subst hd
    rw [Function.update_self]
  · rw [Function.update_of_ne hd]

/-- Whatever is replied, the users of the databases stay counted. -/
theorem Replied.usersWF {r : Response} (h : Replied c r s s') (hwf : UsersWF s) : UsersWF s' :=
  hwf.of_sublist h.openNames (fun name => Or.inl (h.useCount name)) fun name => by rw [h.queue]

theorem Replied.active {r : Response} (h : Replied c r s s') (d : ClientId) :
    s'.active d = s.active d := by
  rw [Server.active, h.clients]
  by_cases hd : d = c
  · subst hd
    rw [Function.update_self]
    rfl
  · rw [Function.update_of_ne hd]
    rfl

/-- The client is sent its reply, and nothing else. -/
theorem Replied.sentTo_self {r : Response} (h : Replied c r s s') :
    s'.sentTo c = s.sentTo c ++ [r] := by
  simp [sentTo, h.sent]

theorem Replied.sentTo_of_ne {r : Response} (h : Replied c r s s') (hd : d ≠ c) :
    s'.sentTo d = s.sentTo d := by
  simp [sentTo, h.sent, hd.symm]

/-- The end of a commit: the client is told the result, and its transaction ends. When it is
successful, what was applied are the groups of its messages. -/
theorem finishCommit_eq_some {σ : DatabaseName → Schedule} {ms : List TransactionCommit}
    (h : s.finishCommit c σ ms = some s') :
    ∃ s₁ r commits, Replied c (.transactionCommit r commits) s s₁ ∧
      s₁.abortTransaction c (decide (r ≠ .success)) = some s' ∧
      (r = .success → ∃ gs ls s₂ s₃, groupByDatabase [] ms = some gs ∧
        validateCommitMessages c gs s = some (.success, ls, s₂) ∧
        commitDatabases c σ (gs.zip (ls.map Prod.snd))
          (s₂.setClient c { s₂.clients c with commitMessages := [] }) = some (commits, s₃) ∧
        s₁ = s₃.send c (.transactionCommit .success commits)) := by
  unfold finishCommit at h
  dsimp only at h
  have hreject : ∀ (s₀ : Server) (r : TransactionCommitResponse.Result), r ≠ .success →
      SameDatabases s s₀ → s₀.clients = s.clients →
      ((s₀.send c (.transactionCommit r [])).setClient c
        { (s₀.send c (.transactionCommit r [])).clients c with commitMessages := [] }
          ).abortTransaction c true = some s' → ∃ s₁ r commits,
        Replied c (.transactionCommit r commits) s s₁ ∧
        s₁.abortTransaction c (decide (r ≠ .success)) = some s' ∧
        (r = .success → ∃ gs ls s₂ s₃, groupByDatabase [] ms = some gs ∧
          validateCommitMessages c gs s = some (.success, ls, s₂) ∧
          commitDatabases c σ (gs.zip (ls.map Prod.snd))
            (s₂.setClient c { s₂.clients c with commitMessages := [] }) = some (commits, s₃) ∧
          s₁ = s₃.send c (.transactionCommit .success commits)) := by
    intro s₀ r hr hsame hclients habort
    refine ⟨(s₀.send c (.transactionCommit r [])).setClient c
      { (s₀.send c (.transactionCommit r [])).clients c with commitMessages := [] }, r, [],
      ⟨?_, hsame.useCount, hsame.queue, ?_⟩, ?_, fun h => absurd h hr⟩
    · rw [setClient, clients_send, hclients]
    · exact congrArg (· ++ _) hsame.sent
    · rw [decide_eq_true hr]
      exact habort
  split at h
  · exact hreject s _ (by decide) (.refl s) rfl h
  · next gs hgs =>
    split at h
    · cases h
    · next ls s₂ hvalid =>
      obtain ⟨hsame, hclients⟩ := validateCommitMessages_same hvalid
      split at h
      · cases h
      · next commits s₃ hcommit =>
        obtain ⟨hsame', hclients'⟩ := commitDatabases_same hcommit
        refine ⟨_, .success, commits, ⟨?_, fun name => ?_, fun name => ?_, ?_⟩, h, fun _ =>
          ⟨gs, ls, s₂, s₃, hgs, hvalid, hcommit, rfl⟩⟩
        · rw [clients_send, hclients', setClient, hclients]
        · exact (hsame'.useCount name).trans (hsame.useCount name)
        · exact (hsame'.queue name).trans (hsame.queue name)
        · exact congrArg (· ++ _) (hsame'.sent.trans hsame.sent)
    · next r ls s₂ hne hvalid =>
      obtain ⟨hsame, hclients⟩ := validateCommitMessages_same hvalid
      exact hreject s₂ r hne hsame hclients h

/-! ### Deadlocks -/

/-- The victims of the deadlocks a read closes, and the state in which their transactions end. -/
def findVictims (m : BlobsRead) (s : Server) : Option (List ClientId × Server) :=
  match s.tryHandleBlobsRead m with
  | some (false, s) =>
    if m.lockTimeoutMs = 0 then none
    else
      match s.getDatabase m.clientId m.databaseId with
      | none => none
      | some name =>
        (s.queueReadCheckDeadlock m name).map fun r =>
          (if r.1.any fun c => (r.2.clients m.clientId).transactionPriority ≤
            (r.2.clients c).transactionPriority then [m.clientId] else r.1, r.2)
  | _ => none

/-- Only other clients in a transaction keep a read waiting. -/
theorem ne_of_mem_collectLockConflicts {active : ClientId → Bool} {t : Tree 3}
    {cs : List ClientId} (h : collectLockConflicts active m t od = some cs) (hd : d ∈ cs) :
    d ≠ m.clientId ∧ active d = true := by
  obtain ⟨ls, -, rfl⟩ := Option.map_eq_some_iff.mp h
  obtain ⟨l, -, hl⟩ := List.mem_flatMap.mp hd
  exact LockBook.ne_of_mem_conflicts hl

/-- The clients of a deadlock block the read and wait in the queue for its client. -/
theorem deadlocks_eq_some {active : ClientId → Bool} {t : Tree 3} {blockedBy found found' : List ClientId}
    {qs : List BlobsRead} (h : deadlocks active m t od blockedBy qs found = some found')
    (hn : found.Nodup) : found'.Nodup ∧
      ∀ d, d ∈ found' ↔ d ∈ found ∨ d ∈ blockedBy ∧ ∃ q ∈ qs, q.clientId = d ∧
        findLockConflictWith active q t od m.clientId = some true := by
  induction qs generalizing found with
  | nil =>
    obtain rfl := Option.some.inj h
    exact ⟨hn, fun d => by simp⟩
  | cons q qs ih =>
    rw [deadlocks] at h
    simp only [List.exists_mem_cons_iff]
    split_ifs at h with hseen
    · obtain ⟨h1, h2⟩ := ih h hn
      refine ⟨h1, fun d => (h2 d).trans ?_⟩
      constructor
      · exact fun hd => hd.imp id fun ⟨hb, hq⟩ => ⟨hb, Or.inr hq⟩
      · rintro (hd | ⟨hb, ⟨rfl, -⟩ | hq⟩)
        · exact Or.inl hd
        · exact Or.inl (hseen.resolve_right fun h => h hb)
        · exact Or.inr ⟨hb, hq⟩
    · rw [not_or, not_not] at hseen
      split at h
      · cases h
      · next hfind =>
        obtain ⟨h1, h2⟩ := ih h (List.nodup_append'.mpr ⟨hn, List.nodup_singleton _,
          fun x hx hx' => hseen.1 (List.mem_singleton.mp hx' ▸ hx)⟩)
        refine ⟨h1, fun d => (h2 d).trans ?_⟩
        rw [List.mem_append, List.mem_singleton]
        constructor
        · rintro ((hd | rfl) | ⟨hb, hq⟩)
          · exact Or.inl hd
          · exact Or.inr ⟨hseen.2, Or.inl ⟨rfl, hfind⟩⟩
          · exact Or.inr ⟨hb, Or.inr hq⟩
        · rintro (hd | ⟨hb, ⟨rfl, -⟩ | hq⟩)
          · exact Or.inl (Or.inl hd)
          · exact Or.inl (Or.inr rfl)
          · exact Or.inr ⟨hb, hq⟩
      · next hfind =>
        obtain ⟨h1, h2⟩ := ih h hn
        refine ⟨h1, fun d => (h2 d).trans ?_⟩
        constructor
        · exact fun hd => hd.imp id fun ⟨hb, hq⟩ => ⟨hb, Or.inr hq⟩
        · rintro (hd | ⟨hb, ⟨rfl, hfind'⟩ | hq⟩)
          · exact Or.inl hd
          · exact absurd (hfind.symm.trans hfind') (by decide)
          · exact Or.inr ⟨hb, hq⟩

/-- A read joins the queue: the clients that it is in a deadlock with are found. -/
theorem queueReadCheckDeadlock_eq_some {found : List ClientId}
    (h : s.queueReadCheckDeadlock m name = some (found, s')) :
    ∃ od t blockedBy, s.databases name = some od ∧
      od.database.tree od.database.snapshot = some t ∧
      collectLockConflicts s.active m t od = some blockedBy ∧
      deadlocks s.active m t od blockedBy od.queuedReads [] = some found ∧
      s' = s.setDatabase name { od with queuedReads := od.queuedReads ++ [m] } := by
  unfold queueReadCheckDeadlock at h
  split at h
  · cases h
  · next od hod =>
    split at h
    · cases h
    · next t ht =>
      split at h
      · cases h
      · next blockedBy hblocked =>
        split at h
        · cases h
        · next found' hfound =>
          rw [Option.some.injEq, Prod.mk.injEq] at h
          obtain ⟨rfl, rfl⟩ := h
          exact ⟨od, t, blockedBy, hod, ht, hblocked, hfound, rfl⟩

/-- What is known of the victims: the read itself, or other clients that wait in its database. -/
structure FoundVictims (m : BlobsRead) (s : Server) (vs : List ClientId) (s₂ : Server) : Prop where
  queued : ∃ s₁ name od, TriedRead m s false s₁ ∧ s₁.getDatabase m.clientId m.databaseId = some name ∧
    s₁.databases name = some od ∧
    s₂ = s₁.setDatabase name { od with queuedReads := od.queuedReads ++ [m] } ∧
    (vs = [m.clientId] ∨ m.clientId ∉ vs ∧ vs.Nodup ∧ ∀ v ∈ vs, s.active v = true ∧
      ∃ q ∈ od.queuedReads, q.clientId = v ∧ ∃ t, od.database.tree od.database.snapshot = some t ∧
        findLockConflictWith s₁.active q t od m.clientId = some true)

/-- Looking for victims is one of the cases. -/
theorem foundVictims {vs : List ClientId} {s₂ : Server} (h : findVictims m s = some (vs, s₂)) :
    FoundVictims m s vs s₂ := by
  unfold findVictims at h
  split at h
  · next s₁ htry =>
    split_ifs at h
    split at h
    · cases h
    · next name hname =>
      obtain ⟨⟨found, s₂'⟩, hcheck, heq⟩ := Option.map_eq_some_iff.mp h
      rw [Prod.mk.injEq] at heq
      obtain ⟨hvs, rfl⟩ := heq
      obtain ⟨od, t, blockedBy, hod, ht, hblocked, hfound, rfl⟩ :=
        queueReadCheckDeadlock_eq_some hcheck
      refine ⟨s₁, name, od, triedRead htry, hname, hod, rfl, ?_⟩
      obtain ⟨h1, h2⟩ := deadlocks_eq_some hfound List.nodup_nil
      dsimp only at hvs
      split_ifs at hvs
      · exact Or.inl hvs.symm
      · subst hvs
        have hmem := fun d hd => ((h2 d).mp hd).resolve_left List.not_mem_nil
        refine Or.inr ⟨fun hm => ?_, h1, fun v hv => ⟨?_, ?_⟩⟩
        · exact (ne_of_mem_collectLockConflicts hblocked (hmem _ hm).1).1 rfl
        · have := (ne_of_mem_collectLockConflicts hblocked (hmem v hv).1).2
          rw [active, (tried htry).kept.clients] at this
          exact this
        · obtain ⟨q, hq, hqv, hfind⟩ := (hmem v hv).2
          exact ⟨q, hq, hqv, t, ht, hfind⟩
  · cases h

/-- A read is answered, times out at once, or waits, in which case it may have victims. -/
theorem handleBlobsRead_eq_some (h : s.handleBlobsRead m = some s') :
    TriedRead m s true s' ∨
      (∃ s₁, TriedRead m s false s₁ ∧ s' = s₁.sendError m.clientId .lockTimeout) ∨
      ∃ vs s₂, findVictims m s = some (vs, s₂) ∧ vs.foldlM abortVictim s₂ = some s' := by
  unfold handleBlobsRead at h
  split at h
  · cases h
  · next s₁ htry =>
    obtain rfl := Option.some.inj h
    exact Or.inl (triedRead htry)
  · next s₁ htry =>
    split_ifs at h with htimeout
    · obtain rfl := Option.some.inj h
      exact Or.inr (Or.inl ⟨s₁, triedRead htry, rfl⟩)
    · split at h
      · cases h
      · next name hname =>
        split at h
        · cases h
        · next found s₂ hcheck =>
          refine Or.inr (Or.inr ⟨if found.any fun c => (s₂.clients m.clientId).transactionPriority ≤
            (s₂.clients c).transactionPriority then [m.clientId] else found, s₂, ?_, ?_⟩)
          · rw [findVictims, htry]
            simp only [if_neg htimeout, hname, hcheck, Option.map_some]
          dsimp only at h
          cases found with
          | nil =>
            rw [List.isEmpty_nil, if_pos rfl] at h
            exact h
          | cons v vs =>
            rw [List.isEmpty_cons, if_neg (by simp)] at h
            split_ifs at h ⊢ with hany
            · rw [List.foldlM_cons, h]
              rfl
            · exact h

/-! ### Runs -/

/-- A read has to wait only in a transaction. -/
theorem active_of_triedRead (h : TriedRead m s false s') : s.active m.clientId = true := by
  cases h with
  | refused hread hdirty _ => exact hread.active.resolve_left (by simp [hdirty])

/-- A read that waits, before the transactions of its victims end. -/
theorem FoundVictims.waiting {vs : List ClientId} {s₂ : Server} (h : FoundVictims m s vs s₂)
    (hwf : UsersWF s) : UsersWF s₂ ∧ s₂.clients = s.clients ∧
      (∀ name, s₂.useCount name = s.useCount name) ∧ (∀ v ∈ vs, s.active v = true) := by
  obtain ⟨s₁, name, od, htry, hname, hod, rfl, hvs⟩ := h.queued
  have ht := htry.tried
  have hwf₁ := hwf.of_kept ht.kept ht.queue
  have hcount : ∀ name', (s₁.setDatabase name
      { od with queuedReads := od.queuedReads ++ [m] }).useCount name' = s₁.useCount name' := by
    refine (kept_setDatabase hod ?_).useCount
    rfl
  refine ⟨⟨hwf₁.nodup, fun name' n hn => hwf₁.users name' n (hcount name' ▸ hn),
    fun c name' hn => ?_, ?_⟩, ht.kept.clients, fun name' => (hcount name').trans
      (ht.kept.useCount name'), fun v hv => ?_⟩
  · rw [hcount]
    exact hwf₁.isOpen c name' hn
  · rintro c name' ⟨q, hq, rfl⟩
    by_cases hne : name' = name
    · subst hne
      rw [queue_setDatabase_self] at hq
      rcases List.mem_append.mp hq with hq | hq
      · exact hwf₁.waits _ _ ⟨q, by rwa [queue_of_some hod], rfl⟩
      · rw [List.mem_singleton.mp hq]
        exact mem_openNames_of_getDatabase hname
    · rw [queue_setDatabase_of_ne hne] at hq
      exact hwf₁.waits _ _ ⟨q, hq, rfl⟩
  · rcases hvs with rfl | ⟨-, -, hvs⟩
    · rw [List.mem_singleton.mp hv]
      exact active_of_triedRead htry
    · exact (hvs v hv).1

/-- What the end of a victim's transaction changes. -/
theorem abortVictim_ended (h : s.abortVictim c = some s') (hactive : s.active c = true) :
    Ended c (s.sendError c .deadlock) s' := ended_abortTransaction h hactive

/-- The end of a transaction ends no other. -/
theorem Ended.active_of_ne (h : Ended c s s') (hd : d ≠ c) : s'.active d = s.active d := by
  rw [Server.active, h.clients, Function.update_of_ne hd]
  rfl

/-- The end of a transaction changes no other client. -/
theorem Ended.clients_of_ne (h : Ended c s s') (hd : d ≠ c) : s'.clients d = s.clients d := by
  rw [h.clients, Function.update_of_ne hd]

theorem Ended.clients_self (h : Ended c s s') :
    s'.clients c = { s.clients c with hasTransaction := false } := by
  rw [h.clients, Function.update_self]

/-- The transactions of the victims end, and nothing else happens to the clients. -/
theorem foldlM_abortVictim {vs : List ClientId} (h : vs.foldlM abortVictim s = some s')
    (hn : vs.Nodup) (hactive : ∀ v ∈ vs, s.active v = true) (hwf : UsersWF s) :
    UsersWF s' ∧ (∀ d, d ∉ vs → s'.clients d = s.clients d) ∧
      ∀ d ∈ vs, s'.clients d = { s.clients d with hasTransaction := false } := by
  induction vs generalizing s with
  | nil =>
    obtain rfl := Option.some.inj h
    exact ⟨hwf, fun _ _ => rfl, fun d hd => nomatch hd⟩
  | cons v vs ih =>
    rw [List.foldlM_cons] at h
    obtain ⟨s₁, h₁, h₂⟩ := Option.bind_eq_some_iff.mp h
    obtain ⟨hv, hn⟩ := List.nodup_cons.mp hn
    have he := abortVictim_ended h₁ (hactive v List.mem_cons_self)
    have hne : ∀ d ∈ vs, d ≠ v := fun d hd hdv => hv (hdv ▸ hd)
    obtain ⟨h3, h4, h5⟩ := ih h₂ hn
      (fun d hd => (he.active_of_ne (hne d hd)).trans (hactive d (List.mem_cons_of_mem _ hd)))
      ((hwf.send _).ended he)
    refine ⟨h3, fun d hd => ?_, fun d hd => ?_⟩
    · rw [List.mem_cons, not_or] at hd
      rw [h4 d hd.2, he.clients_of_ne hd.1]
      rfl
    · rcases List.mem_cons.mp hd with rfl | hd
      · rw [h4 d hv, he.clients_self]
        rfl
      · rw [h5 d hd, he.clients_of_ne (hne d hd)]
        rfl

/-- No client is a victim twice. -/
theorem FoundVictims.nodup {vs : List ClientId} {s₂ : Server} (h : FoundVictims m s vs s₂) :
    vs.Nodup := by
  obtain ⟨_, _, _, -, -, -, -, rfl | ⟨-, hn, -⟩⟩ := h.queued
  · exact List.nodup_singleton _
  · exact hn

/-- What a read changes for the clients. -/
theorem handleBlobsRead_clients (h : s.handleBlobsRead m = some s') (hwf : UsersWF s) :
    UsersWF s' ∧ ∀ d, s'.clients d = s.clients d ∨
      (∃ vs s₂, findVictims m s = some (vs, s₂) ∧ d ∈ vs) ∧
        s'.clients d = { s.clients d with hasTransaction := false } := by
  rcases handleBlobsRead_eq_some h with htry | ⟨s₁, htry, rfl⟩ | ⟨vs, s₂, hvs, hfold⟩
  · have ht := htry.tried
    exact ⟨hwf.of_kept ht.kept ht.queue, fun d => Or.inl (by rw [ht.kept.clients])⟩
  · have ht := htry.tried
    exact ⟨(hwf.of_kept ht.kept ht.queue).send _, fun d => Or.inl (by
      rw [clients_sendError, ht.kept.clients])⟩
  · have hfound := foundVictims hvs
    obtain ⟨hwf₂, hclients, -, hactive⟩ := hfound.waiting hwf
    have hactive₂ : ∀ v ∈ vs, s₂.active v = true := fun v hv => by
      rw [active, hclients]
      exact hactive v hv
    obtain ⟨h1, h2, h3⟩ := foldlM_abortVictim hfold hfound.nodup hactive₂ hwf₂
    refine ⟨h1, fun d => ?_⟩
    by_cases hd : d ∈ vs
    · refine Or.inr ⟨⟨vs, s₂, hvs, hd⟩, ?_⟩
      rw [h3 d hd, hclients]
    · left
      rw [h2 d hd, hclients]

/-- The end of a transaction changes only the flag of its client. -/
theorem abortTransaction_clients {b : Bool} (h : s.abortTransaction c b = some s')
    (hwf : UsersWF s) : UsersWF s' ∧ s'.clients =
      Function.update s.clients c { s.clients c with hasTransaction := false } := by
  cases hactive : s.active c with
  | true =>
    have he := ended_abortTransaction h hactive
    exact ⟨hwf.ended he, he.clients⟩
  | false =>
    rw [abortTransaction, hactive] at h
    obtain rfl := Option.some.inj h
    refine ⟨hwf, (Function.update_eq_self_iff.mpr ?_).symm⟩
    unfold active at hactive
    rw [← hactive]

/-- Looking for timeouts takes reads off a queue, and changes neither clients nor use counts. -/
theorem checkForLockTimeouts_eq_some {due : BlobsRead → Bool}
    (h : s.checkForLockTimeouts name due = some s') :
    s'.clients = s.clients ∧ (∀ name, s'.useCount name = s.useCount name) ∧
      ∀ name, (s'.queue name).Sublist (s.queue name) := by
  unfold checkForLockTimeouts at h
  split at h
  · obtain rfl := Option.some.inj h
    exact ⟨rfl, fun _ => rfl, fun _ => List.Sublist.refl _⟩
  · next od hod =>
    obtain rfl := Option.some.inj h
    have hfold : ∀ (qs : List BlobsRead) (s : Server),
        (qs.foldl (fun s m => s.sendError m.clientId .lockTimeout) s).clients = s.clients ∧
        (qs.foldl (fun s m => s.sendError m.clientId .lockTimeout) s).databases = s.databases :=
      fun qs => by
        induction qs with
        | nil => exact fun s => ⟨rfl, rfl⟩
        | cons q qs ih => exact fun s => ih (s.sendError q.clientId .lockTimeout)
    obtain ⟨h1, h2⟩ := hfold (od.queuedReads.filter fun m => 0 < m.lockTimeoutMs && due m) s
    refine ⟨h1, fun name' => ?_, fun name' => ?_⟩
    · by_cases hne : name' = name
      · subst hne
        rw [useCount_of_some databases_setDatabase_self, useCount_of_some hod]
      · rw [useCount, databases_setDatabase_of_ne hne, h2, useCount]
    · by_cases hne : name' = name
      · subst hne
        rw [queue_setDatabase_self, queue_of_some hod]
        exact List.filter_sublist
      · rw [queue_setDatabase_of_ne hne, queue, h2, queue]

/-- The users are counted in every run. -/
theorem Step.usersWF {e : Event} (h : Step s e s') (hwf : UsersWF s) : UsersWF s' := by
  obtain ⟨-, h⟩ := h
  cases e with
  | connectionOpened c =>
    rw [handle] at h
    obtain rfl := Option.some.inj h
    refine (sameDatabases_setClient ?_).usersWF hwf
    rfl
  | connectionClosed c =>
    change s.handleConnectionClosed c = some s' at h
    unfold handleConnectionClosed at h
    split at h
    · cases h
    · next s₁ habort =>
      obtain ⟨s₂, hclose, rfl⟩ := Option.map_eq_some_iff.mp h
      obtain ⟨h1, -, -⟩ := closeAllDatabases_calm hclose (abortTransaction_clients habort hwf).1
      refine h1.setClient ?_
      rfl
  | databaseOpen c name mode mvcc => exact (handleDatabaseOpen_calm h hwf).1
  | databaseClose c id => exact (handleDatabaseClose_calm h hwf).1
  | blobsRead m => exact (handleBlobsRead_clients h hwf).1
  | transactionBegin c priority modes =>
    obtain ⟨s₁, r, locks, hbegun, rfl, -⟩ := handleTransactionBegin_begun h
    exact (hbegun.same.usersWF hwf).send _
  | transactionAbort c => exact (abortTransaction_clients h hwf).1
  | transactionCommit c m σ =>
    change s.handleTransactionCommit c m σ = some s' at h
    unfold handleTransactionCommit at h
    split_ifs at h with hactive hfollow
    · obtain rfl := Option.some.inj h
      exact hwf.send _
    · obtain rfl := Option.some.inj h
      refine hwf.setClient ?_
      rfl
    · obtain ⟨s₁, r, commits, hreplied, habort, -⟩ := finishCommit_eq_some h
      refine (abortTransaction_clients habort (hreplied.usersWF (hwf.setClient ?_))).1
      rfl
  | lockTimeouts name due =>
    obtain ⟨h1, h2, h3⟩ := checkForLockTimeouts_eq_some h
    exact hwf.of_sublist (fun _ => openNames_congr (by rw [h1])) (fun name => Or.inl (h2 name)) h3
  | delayedClose name =>
    rw [handle] at h
    split at h
    · obtain rfl := Option.some.inj h
      exact hwf
    · next od hod =>
      obtain rfl := Option.some.inj h
      split_ifs with hzero
      · exact (hwf.closeDatabase (c := 0) ((uses_of_some hod).trans hzero)).1
      · exact hwf

/-- A server starts without users. -/
theorem usersWF_start (files : DatabaseName → Option FileContent) (delay : ℕ) :
    UsersWF (start files delay) where
  nodup _ := List.nodup_nil
  users _ _ h := nomatch h
  isOpen _ _ h := nomatch h
  waits _ _ h := nomatch h.choose_spec.1

/-- The run of a list of events. -/
def run : List Event → Server → Option Server
  | [], s => some s
  | e :: es, s =>
    if e.sender.all fun c => (s.clients c).connected then
      match s.handle e with
      | none => none
      | some s' => run es s'
    else none

/-- In every run, the use counts are those of the clients. -/
theorem run_usersWF {es : List Event} (h : run es s = some s') (hwf : UsersWF s) : UsersWF s' := by
  induction es generalizing s with
  | nil =>
    obtain rfl := Option.some.inj h
    exact hwf
  | cons e es ih =>
    rw [run] at h
    split_ifs at h with hconnected
    split at h
    · cases h
    · next s₁ hs₁ =>
      refine ih h (Step.usersWF ⟨fun c hc => ?_, hs₁⟩ hwf)
      rw [Option.mem_def] at hc
      rwa [hc] at hconnected

/-! ### A client that does not wait -/

/-- The client waits in no database. -/
def Idle (s : Server) (c : ClientId) : Prop := ∀ name, ¬s.Waits c name

/-- A client stays idle when reads are only taken from the queues. -/
theorem Idle.of_sublist (h : s.Idle c) (hsub : ∀ name, (s'.queue name).Sublist (s.queue name)) :
    s'.Idle c := fun name hw => h name (hw.of_sublist (hsub name))

/-- Nothing happens to the client. -/
structure Untouched (c : ClientId) (s s' : Server) : Prop where
  active : s'.active c = s.active c
  sentTo : s'.sentTo c = s.sentTo c
  idle : s'.Idle c

theorem Untouched.trans {s'' : Server} (h : Untouched c s s') (h' : Untouched c s' s'') :
    Untouched c s s'' :=
  ⟨h'.active.trans h.active, h'.sentTo.trans h.sentTo, h'.idle⟩

/-- What happens to another client leaves an idle one alone. -/
theorem Calm.untouched (h : Calm d s s') (hc : c ≠ d) (hidle : s.Idle c) : Untouched c s s' :=
  ⟨by rw [Server.active, h.clients c hc, Server.active], h.sentTo c hc, hidle.of_sublist h.queue⟩

/-- The end of the transaction of another client leaves an idle one alone. -/
theorem Ended.untouched (h : Ended d s s') (hc : c ≠ d) (hidle : s.Idle c) : Untouched c s s' :=
  ⟨h.active_of_ne hc, h.sentTo_of_not_waits c hidle, hidle.of_sublist h.queue⟩

/-- A read of another client that is tried leaves an idle one alone. -/
theorem Tried.untouched (h : Tried m s b s') (hc : c ≠ m.clientId) (hidle : s.Idle c) :
    Untouched c s s' :=
  ⟨by rw [Server.active, h.kept.clients, Server.active], h.sentTo_of_ne c hc,
    hidle.of_sublist fun name => by rw [h.queue]⟩

/-- The end of a transaction of another client does not touch a client that does not wait. -/
theorem abortTransaction_untouched {b : Bool} (h : s.abortTransaction d b = some s') (hc : c ≠ d)
    (hidle : s.Idle c) : Untouched c s s' := by
  cases hactive : s.active d with
  | true => exact (ended_abortTransaction h hactive).untouched hc hidle
  | false =>
    rw [abortTransaction, hactive] at h
    obtain rfl := Option.some.inj h
    exact ⟨rfl, rfl, hidle⟩

theorem untouched_send (hc : c ≠ d) (hidle : s.Idle c) (r : Response) :
    Untouched c s (s.send d r) := ⟨rfl, sentTo_send_of_ne hc r, hidle⟩

theorem untouched_setClient (hc : c ≠ d) (hidle : s.Idle c) (client : Client) :
    Untouched c s (s.setClient d client) :=
  ⟨by rw [Server.active, clients_setClient_of_ne hc, Server.active], rfl, hidle⟩

/-- A read of another client does not touch a client that does not wait. -/
theorem handleBlobsRead_untouched (h : s.handleBlobsRead m = some s') (hc : c ≠ m.clientId)
    (hidle : s.Idle c) : Untouched c s s' := by
  rcases handleBlobsRead_eq_some h with htry | ⟨s₁, htry, rfl⟩ | ⟨vs, s₂, hvs, hfold⟩
  · exact htry.tried.untouched hc hidle
  · have hu := htry.tried.untouched hc hidle
    exact hu.trans (untouched_send hc hu.idle _)
  · obtain ⟨s₁, name, od, htry, -, hod, rfl, hvs'⟩ := (foundVictims hvs).queued
    have hu := htry.tried.untouched hc hidle
    have hidle₂ : (s₁.setDatabase name { od with queuedReads := od.queuedReads ++ [m] }).Idle c := by
      rintro name' ⟨q, hq, hqc⟩
      by_cases hne : name' = name
      · subst hne
        rw [queue_setDatabase_self] at hq
        rcases List.mem_append.mp hq with hq | hq
        · exact hu.idle _ ⟨q, by rwa [queue_of_some hod], hqc⟩
        · rw [List.mem_singleton.mp hq] at hqc
          exact hc hqc.symm
      · rw [queue_setDatabase_of_ne hne] at hq
        exact hu.idle _ ⟨q, hq, hqc⟩
    have hnot : ∀ v ∈ vs, c ≠ v := fun v hv hcv => by
      rcases hvs' with rfl | ⟨-, -, hvs'⟩
      · exact hc (hcv.trans (List.mem_singleton.mp hv))
      · obtain ⟨-, q, hq, hqv, -⟩ := hvs' v hv
        exact hu.idle name ⟨q, by rwa [queue_of_some hod], hqv.trans hcv.symm⟩
    refine foldlM_induction (P := fun s' => Untouched c s s') hfold
      (hu.trans ⟨rfl, rfl, hidle₂⟩) fun v hv s₃ s₄ hstep hu₃ => ?_
    have hsend := untouched_send (hnot v hv) hu₃.idle (.blobsRead (.createError .deadlock))
    exact hu₃.trans (hsend.trans (abortTransaction_untouched hstep (hnot v hv) hsend.idle))

/-- Timeouts do not touch a client that does not wait. -/
theorem checkForLockTimeouts_untouched {due : BlobsRead → Bool}
    (h : s.checkForLockTimeouts name due = some s') (hidle : s.Idle c) : Untouched c s s' := by
  obtain ⟨hclients, -, hsub⟩ := checkForLockTimeouts_eq_some h
  refine ⟨by rw [Server.active, hclients, Server.active], ?_, hidle.of_sublist hsub⟩
  unfold checkForLockTimeouts at h
  split at h
  · obtain rfl := Option.some.inj h
    rfl
  · next od hod =>
    obtain rfl := Option.some.inj h
    have hfold : ∀ (qs : List BlobsRead) (s : Server), (∀ q ∈ qs, q.clientId ≠ c) →
        (qs.foldl (fun s m => s.sendError m.clientId .lockTimeout) s).sentTo c = s.sentTo c :=
      fun qs => by
        induction qs with
        | nil => exact fun s _ => rfl
        | cons q qs ih =>
          intro s hq
          rw [List.foldl_cons, ih _ fun q' hq' => hq q' (List.mem_cons_of_mem _ hq')]
          exact sentTo_send_of_ne (hq q List.mem_cons_self).symm _
    refine hfold _ s fun q hq hc => hidle name ⟨q, ?_, hc⟩
    rw [queue_of_some hod]
    exact List.mem_of_mem_filter hq

/-- The events of others do not touch a client that does not wait. -/
theorem Step.untouched {e : Event} (h : Step s e s') (hwf : UsersWF s) (hidle : s.Idle c)
    (hsender : e.sender ≠ some c) (hopened : e ≠ .connectionOpened c) : Untouched c s s' := by
  obtain ⟨-, h⟩ := h
  cases e with
  | connectionOpened d =>
    rw [handle] at h
    obtain rfl := Option.some.inj h
    exact untouched_setClient (fun hcd => hopened (by rw [hcd])) hidle _
  | connectionClosed d =>
    have hc : c ≠ d := fun hcd => hsender (by rw [hcd]; rfl)
    change s.handleConnectionClosed d = some s' at h
    unfold handleConnectionClosed at h
    split at h
    · cases h
    · next s₁ habort =>
      obtain ⟨s₂, hclose, rfl⟩ := Option.map_eq_some_iff.mp h
      have hu := abortTransaction_untouched habort hc hidle
      obtain ⟨-, hcalm, -⟩ := closeAllDatabases_calm hclose (abortTransaction_clients habort hwf).1
      have hu₂ := hu.trans (hcalm.untouched hc hu.idle)
      exact hu₂.trans (untouched_setClient hc hu₂.idle _)
  | databaseOpen d name mode mvcc =>
    exact (handleDatabaseOpen_calm h hwf).2.1.untouched (fun hcd => hsender (by rw [hcd]; rfl)) hidle
  | databaseClose d id =>
    exact (handleDatabaseClose_calm h hwf).2.1.untouched (fun hcd => hsender (by rw [hcd]; rfl))
      hidle
  | blobsRead m =>
    exact handleBlobsRead_untouched h (fun hcm => hsender (by rw [hcm]; rfl)) hidle
  | transactionBegin d priority modes =>
    have hc : c ≠ d := fun hcd => hsender (by rw [hcd]; rfl)
    obtain ⟨s₁, r, locks, hbegun, rfl, -⟩ := handleTransactionBegin_begun h
    have hu : Untouched c s s₁ := by
      refine ⟨by rw [active, hbegun.clients c hc, active], ?_, ?_⟩
      · rw [sentTo, hbegun.same.sent, sentTo]
      · exact hidle.of_sublist fun name => by rw [hbegun.same.queue]
    exact hu.trans (untouched_send hc hu.idle _)
  | transactionAbort d =>
    exact abortTransaction_untouched h (fun hcd => hsender (by rw [hcd]; rfl)) hidle
  | transactionCommit d m σ =>
    have hc : c ≠ d := fun hcd => hsender (by rw [hcd]; rfl)
    change s.handleTransactionCommit d m σ = some s' at h
    unfold handleTransactionCommit at h
    split_ifs at h with hactive hfollow
    · obtain rfl := Option.some.inj h
      exact untouched_send hc hidle _
    · obtain rfl := Option.some.inj h
      exact untouched_setClient hc hidle _
    · obtain ⟨s₁, r, commits, hreplied, habort, -⟩ := finishCommit_eq_some h
      have hset := untouched_setClient hc hidle
        { s.clients d with commitMessages := (s.clients d).commitMessages ++ [m] }
      have hu : Untouched c _ s₁ :=
        ⟨hreplied.active c, hreplied.sentTo_of_ne hc,
          hset.idle.of_sublist fun name => by rw [hreplied.queue]⟩
      exact (hset.trans hu).trans (abortTransaction_untouched habort hc hu.idle)
  | lockTimeouts name due => exact checkForLockTimeouts_untouched h hidle
  | delayedClose name =>
    rw [handle] at h
    split at h
    · obtain rfl := Option.some.inj h
      exact ⟨rfl, rfl, hidle⟩
    · next od hod =>
      obtain rfl := Option.some.inj h
      split_ifs with hzero
      · refine ⟨by rw [active, closeDatabase_clients, active], by
          rw [sentTo, closeDatabase_sent, sentTo], ?_⟩
        exact hidle.of_sublist (hwf.closeDatabase (c := c) ((uses_of_some hod).trans hzero)).2.queue
      · exact ⟨rfl, rfl, hidle⟩

end Server

end BlobsDb
