import BlobsDb.Server.Waiting

/-!
# What the clients hold

The locks of a database agree with what is noted of its clients (`LockBook.Agrees`), and only
clients that have the database open hold some (`LocksWF`). All moves but commits keep that. A commit
is granted the locks of what it creates without a look at who has them, as nobody should; it keeps
`LocksWF` if they are free, and `GrantsFree` says so of an event.
-/

namespace BlobsDb

namespace Server

variable {s s' : Server} {c d : ClientId} {name name' : DatabaseName} {od od' : OpenDatabase}

structure LocksWF (s : Server) : Prop where
  agrees : ∀ name, (s.locks name).Agrees s.active
  isOpen : ∀ name c, ∀ l ∈ (s.locks name).held c, name ∈ s.openNames c

theorem locks_of_none (hnone : s.databases name = none) : s.locks name = .empty := by
  rw [locks, hnone]
  rfl

theorem locks_congr (h : s'.databases name = s.databases name) : s'.locks name = s.locks name := by
  rw [locks, h, locks]

theorem locksWF_start (files : DatabaseName → Option FileContent) (delay : ℕ) :
    LocksWF (start files delay) where
  agrees _ := .empty
  isOpen _ _ _ hl := nomatch hl

namespace LocksWF

theorem setDatabase (h : LocksWF s) (hagrees : od.locks.Agrees s.active)
    (hheld : ∀ c, ∀ l ∈ od.locks.held c, name ∈ s.openNames c) :
    LocksWF (s.setDatabase name od) := by
  have hlocks : ∀ name', (s.setDatabase name od).locks name' = od.locks ∧ name' = name ∨
      (s.setDatabase name od).locks name' = s.locks name' := fun name' => by
    by_cases hne : name' = name
    · subst hne
      exact Or.inl ⟨locks_setDatabase_self, rfl⟩
    · exact Or.inr (locks_setDatabase_of_ne hne)
  refine ⟨fun name' => ?_, fun name' c l hl => ?_⟩
  · rcases hlocks name' with ⟨heq, -⟩ | heq
    · rw [heq]
      exact hagrees
    · rw [heq]
      exact h.agrees name'
  · rcases hlocks name' with ⟨heq, rfl⟩ | heq
    · rw [heq] at hl
      exact hheld c l hl
    · rw [heq] at hl
      exact h.isOpen name' c l hl

/-- Clients come and go: a client that begins a transaction was told what it lost, and one that
leaves a database has nothing in it. -/
theorem of_clients (h : LocksWF s) (hdatabases : s'.databases = s.databases)
    (hactive : ∀ c, s'.active c = true → ∀ name, (s.locks name).revoked c = [])
    (hnames : ∀ name c, ∀ l ∈ (s.locks name).held c, name ∈ s.openNames c → name ∈ s'.openNames c) :
    LocksWF s' := by
  have hlocks : ∀ name, s'.locks name = s.locks name := fun name =>
    locks_congr (congrFun hdatabases name)
  refine ⟨fun name => ?_, fun name c l hl => ?_⟩
  · rw [hlocks]
    exact (h.agrees name).of_active fun c hc => hactive c hc name
  · rw [hlocks] at hl
    exact hnames name c l hl (h.isOpen name c l hl)

theorem of_setClient (h : LocksWF s) {client : Client}
    (hactive : client.hasTransaction = true → ∀ name, (s.locks name).revoked c = [])
    (hnames : ∀ name, ∀ l ∈ (s.locks name).held c, name ∈ s.openNames c →
      name ∈ client.openDatabases.filterMap DatabaseSlot.database) :
    LocksWF (s.setClient c client) := by
  refine h.of_clients rfl (fun d hd name => ?_) fun name d l hl hname => ?_
  · by_cases hdc : d = c
    · subst hdc
      rw [Server.active, clients_setClient_self] at hd
      exact hactive hd name
    · rw [Server.active, clients_setClient_of_ne hdc] at hd
      exact (h.agrees name).active d hd
  · by_cases hdc : d = c
    · subst hdc
      rw [openNames, clients_setClient_self]
      exact hnames name l hl hname
    · rw [openNames, clients_setClient_of_ne hdc]
      exact hname

end LocksWF

/-- What changes in a database apart from commits keeps the locks. -/
theorem LocksWF.change (h : LocksWF s) (hod : s.databases name = some od)
    (hchange : od.Change .noCommits s name od') : LocksWF (s.setDatabase name od') := by
  have hagrees := h.agrees name
  have hisOpen := h.isOpen name
  rw [locks_of_some hod] at hagrees hisOpen
  cases hchange with
  | granted _ hgrant =>
    refine h.setDatabase (hagrees.acquireLocks hgrant.active hgrant.canAcquire) fun d l hl => ?_
    rcases LockBook.mem_held_acquireLocks.mp hl with hl | ⟨rfl, -⟩
    · exact hisOpen d l hl
    · exact mem_openNames_of_getDatabase hgrant.getDatabase
  | gaveUp _ hactive hbook =>
    exact h.setDatabase (hagrees.releaseHeld (hagrees.active _ hactive) hbook) fun d l hl =>
      hisOpen d l (LockBook.mem_held_of_releaseHeld hbook hl)
  | released hactive hbook =>
    exact h.setDatabase (hagrees.releaseAll hbook) fun d l hl =>
      hisOpen d l (LockBook.mem_held_of_releaseAll hbook hl)
  | told hactive =>
    exact h.setDatabase (hagrees.applyRevokedLocks _) fun d l hl =>
      hisOpen d l (LockBook.mem_held_of_applyRevokedLocks hl)
  | committed _ _ hpermit => exact hpermit.elim
  | used | queued | looked | beganMVCC | endedMVCC => exact h.setDatabase hagrees hisOpen

theorem LocksWF.revoked_of_not_open (h : LocksWF s) (hn : name ∉ s.openNames c) :
    (s.locks name).revoked c = [] := by
  rw [List.eq_nil_iff_forall_not_mem]
  intro l hl
  exact hn (h.isOpen name c l ((h.agrees name).revoked_subset c hl))

theorem Move.locksWF (hmove : Move .noCommits s s') (h : LocksWF s) : LocksWF s' := by
  cases hmove with
  | send => exact ⟨h.agrees, h.isOpen⟩
  | client hopen htxn =>
    refine h.of_setClient (fun hactive name => ?_) fun name _ _ hname => ?_
    · rw [htxn] at hactive
      exact (h.agrees name).active _ hactive
    · rw [hopen]
      exact hname
  | mode mvcc hactive hname =>
    obtain ⟨slot, hslot, hslotname⟩ := getDatabase_eq_some_iff.mp hname
    refine h.of_setClient (fun htxn name => ?_) fun name' _ _ hname' => ?_
    · exact (h.agrees name).active _ htxn
    · rw [set_some_eq hslot hslotname.symm]
      exact hname'
  | @begun c priority hactive hrevoked =>
    -- a client begins once it was told of all locks it lost
    refine h.of_setClient (fun _ name => ?_) fun _ _ _ hname => hname
    by_cases hname : name ∈ s.openNames c
    · cases hod : s.databases name with
      | none =>
        rw [locks_of_none hod]
        rfl
      | some od =>
        rw [locks_of_some hod]
        exact hrevoked name hname od hod
    · exact h.revoked_of_not_open hname
  | ended => exact h.of_setClient (fun hactive => (nomatch hactive)) fun _ _ _ hname => hname
  | entered hnew hslots =>
    refine h.of_setClient (fun hactive name => (h.agrees name).active _ hactive)
      fun name' _ _ hname' => ?_
    exact (enterDatabase_perm hslots rfl).mem_iff.mpr (List.mem_cons_of_mem _ hname')
  | @left c id name mvcc hactive hname hlocks =>
    refine h.of_setClient (fun htxn name => (h.agrees name).active _ htxn)
      fun name' l hl hname' => ?_
    obtain ⟨slot, hslot, hslotname⟩ := getDatabase_eq_some_iff.mp hname
    -- the client holds no lock in the database it leaves
    have hperm : (s.openNames c).Perm (name ::
        ((s.clients c).openDatabases.set id ⟨none, mvcc⟩).filterMap DatabaseSlot.database) :=
      set_none_perm hslot hslotname rfl
    rcases List.mem_cons.mp (hperm.mem_iff.mp hname') with rfl | hmem
    · cases hod : s.databases name' with
      | none =>
        rw [locks_of_none hod] at hl
        cases hl
      | some od =>
        rw [locks_of_some hod, (hlocks od hod).1] at hl
        cases hl
    · exact hmem
  | opened => exact h.setDatabase .empty fun _ _ hl => (nomatch hl)
  | @closed name huse =>
    -- a database that is closed takes its locks along
    have hlocks : ∀ name', (s.closeDatabase name).locks name' = .empty ∨
        (s.closeDatabase name).locks name' = s.locks name' := fun name' => by
      by_cases hne : name' = name
      · subst hne
        left
        rw [locks, closeDatabase_databases, Function.update_self]
        rfl
      · right
        rw [locks, closeDatabase_databases, Function.update_of_ne hne, locks]
    have hactive : (s.closeDatabase name).active = s.active := by
      funext c
      rw [active, closeDatabase_clients, active]
    refine ⟨fun name' => ?_, fun name' c l hl => ?_⟩
    · rw [hactive]
      rcases hlocks name' with heq | heq
      · rw [heq]
        exact .empty
      · rw [heq]
        exact h.agrees name'
    · have hopen : (s.closeDatabase name).openNames c = s.openNames c :=
        openNames_congr (by rw [closeDatabase_clients])
      rw [hopen]
      rcases hlocks name' with heq | heq
      · rw [heq] at hl
        cases hl
      · rw [heq] at hl
        exact h.isOpen name' c l hl
  | database hod hchange => exact h.change hod hchange

theorem Moves.locksWF (hmoves : Moves .noCommits s s') (h : LocksWF s) : LocksWF s' := by
  induction hmoves with
  | refl => exact h
  | tail _ hmove ih => exact hmove.locksWF ih

/-! ### Commits -/

/-- A valid commit that is granted free locks. -/
theorem LocksWF.commitDatabase {us : List BlobData} {σ : Schedule} {ls : List BlobLocation}
    (h : LocksWF s) (hod : s.databases name = some od) (hactive : s.active c = true)
    (hname : name ∈ s.openNames c) (hfree : od.locks.Free s.active c ls)
    (hcommit : Server.commitDatabase c us σ ls od = some od') :
    LocksWF (s.setDatabase name od') := by
  obtain ⟨r, book, -, hbook, rfl⟩ := commitDatabase_eq_some hcommit
  have hagrees := h.agrees name
  rw [locks_of_some hod] at hagrees
  have hgranted := hagrees.acquireImplicitWriteLocks hactive hfree
  refine h.setDatabase (hgranted.releaseIf (hgranted.active c hactive) hbook) fun d l hl => ?_
  rcases LockBook.mem_held_acquireImplicitWriteLocks.mp
    (LockBook.mem_held_of_releaseIf hbook hl) with hl | ⟨rfl, -⟩
  · exact h.isOpen name d l (by rwa [locks_of_some hod])
  · exact hname

theorem LocksWF.commitDatabases {σ : DatabaseName → Schedule}
    {gs : List ((DatabaseId × List TransactionCommit) × List BlobLocation)}
    {commits : List (DatabaseId × CommitId)} (h : LocksWF s)
    (hcommits : Server.commitDatabases c σ gs s = some (commits, s'))
    (hactive : s.active c = true) (hwf : UsersWF s) (hn : (gs.map fun p => p.1.1).Nodup)
    (hfree : ∀ p ∈ gs, ∀ name, s.getDatabase c p.1.1 = some name →
      (s.locks name).Free s.active c p.2) : LocksWF s' := by
  induction gs generalizing s commits with
  | nil =>
    cases hcommits
    exact h
  | cons p gs ih =>
    obtain ⟨g, ls⟩ := p
    obtain ⟨hg, hn⟩ := List.nodup_cons.mp hn
    rw [Server.commitDatabases] at hcommits
    split at hcommits
    · cases hcommits
    · next name hname =>
      split at hcommits
      · cases hcommits
      · next od hod =>
        split at hcommits
        · cases hcommits
        · next od' hod' =>
          obtain ⟨⟨commits', s₁⟩, hr, heq⟩ := Option.map_eq_some_iff.mp hcommits
          cases heq
          obtain ⟨hu, hq⟩ := commitDatabase_keeps hod'
          have hfirst := hfree (g, ls) List.mem_cons_self name hname
          rw [locks_of_some hod] at hfirst
          refine ih (h.commitDatabase hod hactive (mem_openNames_of_getDatabase hname) hfirst hod')
            hr hactive ((sameDatabases_setDatabase hod hu hq).usersWF hwf) hn
            fun p hp name' hname' => ?_
          -- another group is about another database
          have hne : name' ≠ name := fun heq => by
            have hid : p.1.1 = g.1 := hwf.getDatabase_inj hname' (heq ▸ hname)
            exact hg (List.mem_map.mpr ⟨p, hp, hid⟩)
          rw [locks_setDatabase_of_ne hne]
          exact hfree p (List.mem_cons_of_mem _ hp) name' hname'

/-- The locks that a message is granted, if it finishes a commit and the commit is valid. -/
def granted (s : Server) : Event → List (ClientId × DatabaseId × List BlobLocation)
  | .transactionCommit c m _ =>
    if !s.active c || m.hasFollowMessage then []
    else
      let ms := (s.clients c).commitMessages ++ [m]
      match groupByDatabase [] ms with
      | none => []
      | some gs =>
        match validateCommitMessages c gs
          (s.setClient c { s.clients c with commitMessages := ms }) with
        | some (.success, ls, _) => ls.map fun e => (c, e)
        | _ => []
  | _ => []

/-- What an event is granted is free. -/
def GrantsFree (s : Server) (e : Event) : Prop :=
  ∀ g ∈ s.granted e, ∀ name ∈ s.getDatabase g.1 g.2.1, (s.locks name).Free s.active g.1 g.2.2

instance (s : Server) (e : Event) : Decidable (GrantsFree s e) :=
  inferInstanceAs (Decidable (∀ g ∈ s.granted e, ∀ name ∈ s.getDatabase g.1 g.2.1,
    (s.locks name).Free s.active g.1 g.2.2))

theorem LocksWF.finishCommit {σ : DatabaseName → Schedule} {ms : List TransactionCommit}
    (h : LocksWF s) (hfinish : s.finishCommit c σ ms = some s') (hactive : s.active c = true)
    (hwf : UsersWF s) (hs : Healthy s)
    (hfree : ∀ gs ls s₁, groupByDatabase [] ms = some gs →
      validateCommitMessages c gs s = some (.success, ls, s₁) → ∀ e ∈ ls, ∀ name,
        s.getDatabase c e.1 = some name → (s.locks name).Free s.active c e.2) : LocksWF s' := by
  -- a commit that is rejected moves no lock but those that the end of the transaction frees
  have hreject : ∀ (s₀ : Server) (r : TransactionCommitResponse.Result),
      Moves .noCommits s s₀ → UsersWF s₀ →
      ((s₀.send c (.transactionCommit r [])).setClient c
        { (s₀.send c (.transactionCommit r [])).clients c with commitMessages := [] }
          ).abortTransaction c true = some s' → LocksWF s' := by
    intro s₀ r hmoves hwf₀ habort
    have hwf₁ : UsersWF (s₀.send c (.transactionCommit r [])) := hwf₀.send _
    have hcleared : Moves .noCommits s ((s₀.send c (.transactionCommit r [])).setClient c
        { (s₀.send c (.transactionCommit r [])).clients c with commitMessages := [] }) :=
      .tail (.tail hmoves (.send c _)) (.client rfl rfl)
    have hmoves' : Moves .noCommits s s' := hcleared.trans
      (moves_abortTransaction habort (hwf₁.setClient rfl) (hcleared.healthy hs) trivial)
    exact hmoves'.locksWF h
  unfold Server.finishCommit at hfinish
  dsimp only at hfinish
  split at hfinish
  · exact hreject s _ .refl hwf hfinish
  · next gs hgs =>
    have hgroups : Groups ([] ++ ms) gs := groups_groupByDatabase groups_nil hgs
    split at hfinish
    · cases hfinish
    · next ls s₁ hvalid =>
      obtain ⟨h1, -, hpends⟩ : Moves .noCommits s s₁ ∧ _ ∧ _ :=
        moves_validateCommitMessages hvalid hwf hs hgroups.nodup
      obtain ⟨hsame, hclients⟩ := validateCommitMessages_same hvalid
      obtain ⟨hlocks, hmem⟩ := validateCommitMessages_locks hvalid
      split at hfinish
      · cases hfinish
      · next commits s₂ hcommit =>
        set s₁' := s₁.setClient c { s₁.clients c with commitMessages := [] } with hs₁'
        have hcleared : Moves .noCommits s s₁' := .tail h1 (.client rfl rfl)
        have hgetDatabase : ∀ i, s₁'.getDatabase c i = s.getDatabase c i := fun i => by
          rw [hs₁', getDatabase, clients_setClient_self, hclients, getDatabase]
        have hactives : s₁'.active = s.active := by
          have hsame₁ : s₁'.active = s₁.active := active_setClient_of_eq rfl
          rw [hsame₁]
          funext d
          rw [active, hclients, active]
        have hn : ((gs.zip (ls.map Prod.snd)).map fun p => p.1.1).Nodup := by
          have hzip := (map_fst_zip_sublist gs (ls.map Prod.snd)).map Prod.fst
          rw [List.map_map] at hzip
          exact hgroups.nodup.sublist hzip
        have hwf₁ : UsersWF s₁' := (hsame.usersWF hwf).setClient rfl
        have hactive₁ : s₁'.active c = true := hactives ▸ hactive
        -- the locks on what the commit creates are free, so granting them keeps the agreement
        have hl₂ : LocksWF s₂ := by
          refine (hcleared.locksWF h).commitDatabases hcommit hactive₁ hwf₁ hn fun p hp name hname => ?_
          have hsame₁ : s₁'.locks name = s₁.locks name := rfl
          rw [hactives, hsame₁, hlocks]
          exact hfree gs ls s₁ hgs hvalid _ (hmem rfl p hp) name (hgetDatabase _ ▸ hname)
        have hcommits : Moves .all s₁' s₂ := by
          refine moves_commitDatabases hcommit hactive₁ hwf₁ hn (fun p hp => ?_)
            fun _ _ _ _ _ _ => trivial
          obtain ⟨name, od, hname, hod, hrest⟩ := hpends rfl p hp
          refine ⟨name, od, ?_, hod, hrest⟩
          rw [hgetDatabase, ← hname, getDatabase, getDatabase, hclients]
        have hs₂ : Healthy (s₂.send c (.transactionCommit .success commits)) :=
          Moves.healthy (hcommits.tail (.send c _)) (hcleared.healthy hs)
        have hwf₂ : UsersWF (s₂.send c (.transactionCommit .success commits)) :=
          ((applies_commitDatabases hcommit).usersWF hwf₁).send _
        have hended : Moves .noCommits _ s' := moves_abortTransaction hfinish hwf₂ hs₂ trivial
        exact hended.locksWF ⟨hl₂.agrees, hl₂.isOpen⟩
    · next r ls s₁ hne hvalid =>
      obtain ⟨hsame, -⟩ := validateCommitMessages_same hvalid
      exact hreject s₁ r (moves_validateCommitMessages hvalid hwf hs hgroups.nodup).1
        (hsame.usersWF hwf) hfinish

/-- Steps keep the locks, if what they are granted is free. -/
theorem Step.locksWF {e : Event} (hstep : Step s e s') (hwf : UsersWF s) (hs : Healthy s)
    (hfree : GrantsFree s e) (h : LocksWF s) : LocksWF s' := by
  have hother : s.CommitsOrderly (fun _ _ => False) e → LocksWF s' := fun horderly =>
    (Step.moves (P := .noCommits) hstep hwf hs (fun _ => trivial) (fun _ => trivial)
      (fun _ => trivial) horderly).locksWF h
  cases e with
  | transactionCommit c m σ =>
    obtain ⟨-, hhandle⟩ := hstep
    change s.handleTransactionCommit c m σ = some s' at hhandle
    unfold handleTransactionCommit at hhandle
    split_ifs at hhandle with hactive hfollow
    · obtain rfl := Option.some.inj hhandle
      exact ⟨h.agrees, h.isOpen⟩
    · obtain rfl := Option.some.inj hhandle
      have hmove : Move .noCommits s (s.setClient c
          { s.clients c with commitMessages := (s.clients c).commitMessages ++ [m] }) :=
        .client rfl rfl
      exact hmove.locksWF h
    · rw [Bool.not_eq_true'] at hactive
      have hactive := Bool.of_not_eq_false hactive
      set s₀ := s.setClient c
        { s.clients c with commitMessages := (s.clients c).commitMessages ++ [m] } with hs₀
      have hmove : Move .noCommits s s₀ := .client rfl rfl
      have hactives : s₀.active = s.active := active_setClient_of_eq rfl
      refine (hmove.locksWF h).finishCommit hhandle (hactives ▸ hactive) (hwf.setClient rfl)
        (Moves.healthy (.single hmove) hs) fun gs ls s₁ hgs hvalid e he name hname => ?_
      rw [hactives]
      refine hfree (c, e) ?_ name ?_
      · rw [granted, if_neg (by simp [hactive, hfollow])]
        dsimp only
        rw [hgs]
        dsimp only
        rw [← hs₀, hvalid]
        exact List.mem_map_of_mem he
      · rw [hs₀, getDatabase, clients_setClient_self] at hname
        exact hname
  | _ => exact hother trivial

end Server

end BlobsDb
