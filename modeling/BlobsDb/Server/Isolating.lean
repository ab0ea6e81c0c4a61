import BlobsDb.Server.Closing
import BlobsDb.Server.NextFreeIds
import BlobsDb.Server.Untouched
import BlobsDb.Server.Upholding

/-!
# Transactions do not see each other

What a client has locked in its transaction is still locked, and what is found there is the same,
as long as the transaction goes on (`isolated_of_proper`): whatever a transaction has read is what
the database has when it commits. Validation makes sure of this for all locations but the lists of
blobs: that a client which deletes a blob has locked the list it is taken off is left to the client
(`LocksLists`).
-/

namespace BlobsDb

open DbTree (HasLocation)

namespace Server

variable {s s' s'' s₁ s₂ : Server} {c x : ClientId} {name : DatabaseName} {m : BlobsRead} {b : Bool}
  {od₀ od od' : OpenDatabase} {keeps keeps' : ClientId → Prop} {σ : Schedule} {l : BlobLocation}

/-- What is found at a location of a database. -/
def content (s : Server) (name : DatabaseName) (l : BlobLocation) : Option (List UInt8) :=
  (s.tree name).bind fun t => t.content l

/-- What some clients have locked in their transactions stays locked, and what is found there
stays. -/
def Isolates (keeps : ClientId → Prop) (s s' : Server) : Prop :=
  ∀ x, keeps x → s.active x = true → s'.active x = true ∧
    ∀ name l, (s.locks name).HeldBy l x →
      (s'.locks name).HeldBy l x ∧ s'.content name l = s.content name l

namespace Isolates

theorem refl (keeps : ClientId → Prop) (s : Server) : Isolates keeps s s :=
  fun _ _ hactive => ⟨hactive, fun _ _ hheld => ⟨hheld, rfl⟩⟩

theorem trans (h : Isolates keeps s s') (h' : Isolates keeps s' s'') : Isolates keeps s s'' :=
  fun x hx hactive => by
    obtain ⟨hactive', hkept⟩ := h x hx hactive
    obtain ⟨hactive'', hkept'⟩ := h' x hx hactive'
    refine ⟨hactive'', fun name l hheld => ?_⟩
    obtain ⟨hheld, hcontent⟩ := hkept name l hheld
    obtain ⟨hheld, hcontent'⟩ := hkept' name l hheld
    exact ⟨hheld, hcontent'.trans hcontent⟩

theorem mono (h : Isolates keeps s s') (hkeeps : ∀ x, keeps' x → keeps x) : Isolates keeps' s s' :=
  fun x hx => h x (hkeeps x hx)

/-- What is looked up stays the same. -/
theorem of_eq (hactive : s'.active = s.active) (hlocks : ∀ name, s'.locks name = s.locks name)
    (htree : ∀ name, s'.tree name = s.tree name) : Isolates keeps s s' := by
  intro x _ hx
  refine ⟨by rwa [hactive], fun name l hheld => ⟨by rwa [hlocks], ?_⟩⟩
  rw [content, htree, content]

end Isolates

/-- The locks that keep others from theirs are all that are held. -/
theorem Upholds.isolates (h : Upholds keeps s s') (hlocks : LocksWF s)
    (hactive : ∀ x, keeps x → s.active x = true → s'.active x = true) : Isolates keeps s s' := by
  intro x hx hx'
  refine ⟨hactive x hx hx', fun name l hheld => ?_⟩
  have hconflict : x ∈ (s.locks name).conflicts s.active x.other true l :=
    LockBook.mem_conflicts_of_heldBy (hlocks.agrees name).wf hheld hx' x.ne_other
  obtain ⟨htree, hconflict⟩ := h name _ _ l x hx hconflict
  refine ⟨LockBook.heldBy_of_mem_conflicts hconflict, ?_⟩
  rw [content, htree, content]

theorem abortTransaction_isolates (h : s.abortTransaction c b = some s') (hwf : UsersWF s)
    (hord : Ordered s) : Isolates (· ≠ c) s s' := by
  refine (abortTransaction_upholds h hwf hord.healthy).isolates hord.locksWF fun x hx hactive => ?_
  rwa [active, (abortTransaction_clients h hwf).2, Function.update_of_ne hx]

/-! ### Commits -/

/-- Blobs are deleted only by clients that have locked the lists they are taken off. Validation does
not ask for this. -/
def LocksList (s : Server) (c : ClientId) (g : DatabaseId × List TransactionCommit) : Prop :=
  ∀ name ∈ s.getDatabase c g.1, ∀ t ∈ s.tree name,
    ∀ u ∈ g.2.flatMap TransactionCommit.blobs, u.DeletesBlob u.toBlobLocation →
      HasLocation t ⟨u.segment, u.cluster, blobListId⟩ →
        (s.locks name).ownsWriteLock c ⟨u.segment, u.cluster, blobListId⟩ = true

/-- The commit that an event finishes has locked the lists that it takes blobs off. -/
def LocksLists (s : Server) : Event → Prop
  | .transactionCommit c m _ => m.hasFollowMessage = false →
    ∀ gs ∈ groupByDatabase [] ((s.clients c).commitMessages ++ [m]), ∀ g ∈ gs, s.LocksList c g
  | _ => True

/-- What others have locked is not changed by applying messages that are valid. -/
theorem Ordered.isolates_commitDatabase (h : Ordered s) (h₂ : Ordered s₂)
    {g : DatabaseId × List TransactionCommit} {ls : List BlobLocation}
    (hactive : s₂.active c = true) (hod : s₂.databases name = some od)
    (hv : Validates s c g ls name od₀ od) (hproper : s.PermitsCommit DbTree.Proper c g)
    (hlists : s.LocksList c g)
    (hcommit : Server.commitDatabase c (g.2.flatMap TransactionCommit.blobs) σ ls od = some od') :
    Isolates (· ≠ c) s₂ (s₂.setDatabase name od') := by
  obtain ⟨t, created, rfl, hpasses, ht, hproper, hinv₀⟩ := h.passes hv hproper
  have hlocks : od.locks = od₀.locks := by rw [hv.eq]
  have hagrees := h₂.locksWF.agrees name
  rw [locks_of_some hod] at hagrees
  have hinv := hpasses.ledger.inv
  have hlocated := h₂.located name od t hod hinv
  have hfree := h₂.free_implicitLocks hod hactive hpasses ht
  have hown : ∀ l, od₀.locks.ownsWriteLock c l = true → HasLocation t l := fun l ho => by
    rw [← hlocks] at ho
    exact (hlocated l c (LockBook.heldBy_of_ownsWriteLock ho)).1
  obtain ⟨r, book, hcommits, hbook, rfl⟩ := commitDatabase_eq_some hcommit
  obtain ⟨t', hinv', huntouched⟩ := hpasses.untouched
    (hpasses.admissible ht hproper.orderly.2) hown hproper.orderly.1 (fun u hu hdel hl => by
      have ho := hlists name hv.getDatabase t
        ((tree_of_some hv.databases).trans hinv₀.view) u hu hdel hl
      rwa [locks_of_some hv.databases] at ho) hcommits
  intro x hx hxactive
  refine ⟨hxactive, fun name' l hheld => ?_⟩
  by_cases hne : name' = name
  · subst hne
    rw [locks_of_some hod] at hheld
    have hnot : od₀.locks.ownsWriteLock c l = false := Bool.eq_false_iff.mpr fun ho => by
      rw [← hlocks] at ho
      exact hx (LockBook.eq_of_ownsWriteLock hagrees.wf ho hheld)
    obtain ⟨-, hcontent⟩ := huntouched l (hlocated l x hheld).1 hnot
    have hconflict := LockBook.mem_conflicts_of_heldBy hagrees.wf hheld hxactive
      x.ne_other
    have hgranted := LockBook.mem_conflicts_acquireLocks hfree.canAcquire hconflict
    rw [LockBook.conflicts_congr LockBook.locks_acquireLocks] at hgranted
    rw [locks_setDatabase_self]
    refine ⟨LockBook.heldBy_of_mem_conflicts
      (LockBook.mem_conflicts_releaseIf hbook hx hgranted), ?_⟩
    rw [content, tree_setDatabase_self, content, tree_of_some hod]
    rw [hinv'.view, hinv.view]
    exact hcontent
  · rw [content, tree_setDatabase_of_ne hne, locks_setDatabase_of_ne hne]
    exact ⟨hheld, rfl⟩

theorem finishCommit_isolates {σ : DatabaseName → Schedule} {ms : List TransactionCommit}
    (h : s.finishCommit c σ ms = some s') (hactive : s.active c = true) (hwf : UsersWF s)
    (hord : Ordered s)
    (hproper : s.PermitsCommits DbTree.Proper c ms)
    (hlists : ∀ gs ∈ groupByDatabase [] ms, ∀ g ∈ gs, s.LocksList c g) :
    Isolates (· ≠ c) s s' ∧ s'.active c = false := by
  obtain ⟨s₂, b, ⟨hisolates, hord₂⟩, hwf₂, -, habort⟩ :=
    finishCommit_applied (I := fun s₂ => Isolates (· ≠ c) s s₂ ∧ Ordered s₂) h hactive hwf
      hord.healthy
      (fun hprepares h₁ => ⟨h₁.1.trans (.of_eq hprepares.active hprepares.locks hprepares.tree),
        (hprepares.moves.mono (Permit.noBegins_le trivial)).ordered h₁.2⟩)
      (fun gs ls s₁ hgs hvalid p hp s₂ name od₀ od od' hactive₂ hopen hod hv hcommit h₂ => by
        have hmem := (List.of_mem_zip hp).1
        have hpermits := hproper gs hgs ls s₁ hvalid p.1 hmem
        have hactive₂ : s₂.active c = true := hactive₂ ▸ hactive
        refine ⟨h₂.1.trans (hord.isolates_commitDatabase h₂.2 hactive₂ hod hv hpermits
          (hlists gs hgs p.1 hmem) hcommit),
          hord.commitDatabase h₂.2 hactive₂ ?_ hod hv hpermits hcommit⟩
        rw [hopen]
        exact mem_openNames_of_getDatabase hv.getDatabase)
      ⟨.refl _ s, hord⟩
  exact ⟨hisolates.trans (abortTransaction_isolates habort hwf₂ hord₂),
    inactive_of_abortTransaction habort hwf₂⟩

/-! ### Victims of deadlocks -/

/-- The transactions of some clients end. -/
structure Spared (s s' : Server) : Prop where
  usersWF : UsersWF s'
  ordered : Ordered s'
  isolates : Isolates (fun x => s'.active x = true) s s'
  active : ∀ x, s'.active x = true → s.active x = true

theorem abortTransaction_spared (h : s.abortTransaction c b = some s') (hwf : UsersWF s)
    (hord : Ordered s) : Spared s s' := by
  obtain ⟨hwf', hclients⟩ := abortTransaction_clients h hwf
  have hmoves : Moves .noCommits s s' := moves_abortTransaction h hwf hord.healthy trivial
  have hne : ∀ x, s'.active x = true → x ≠ c := fun x hx hxc => by
    rw [hxc, inactive_of_abortTransaction h hwf] at hx
    cases hx
  refine ⟨hwf', hmoves.ordered hord, (abortTransaction_isolates h hwf hord).mono hne,
    fun x hx => ?_⟩
  have hx' := hx
  rwa [Server.active, hclients, Function.update_of_ne (hne x hx)] at hx'

namespace Spared

theorem trans (h : Spared s s') (h' : Spared s' s'') : Spared s s'' :=
  ⟨h'.usersWF, h'.ordered, (h.isolates.mono h'.active).trans h'.isolates,
    fun x hx => h.active x (h'.active x hx)⟩

theorem abortVictim (h : s.abortVictim c = some s') (hwf : UsersWF s) (hord : Ordered s) :
    Spared s s' := by
  have hsend : Moves .noCommits s (s.sendError c .deadlock) := .single (.send c _)
  have hspared := abortTransaction_spared h (hwf.send _) (hsend.ordered hord)
  exact ⟨hspared.usersWF, hspared.ordered,
    (Isolates.of_eq rfl (fun _ => rfl) fun _ => rfl).trans hspared.isolates, hspared.active⟩

theorem foldlM_abortVictim {vs : List ClientId} (h : vs.foldlM Server.abortVictim s = some s')
    (hwf : UsersWF s) (hord : Ordered s) : Spared s s' := by
  have hrefl : Spared s s := ⟨hwf, hord, .refl _ s, fun _ => id⟩
  exact foldlM_induction (P := Spared s) h hrefl fun _ _ _ _ hstep h1 =>
    h1.trans (abortVictim hstep h1.usersWF h1.ordered)

end Spared

theorem handleBlobsRead_isolates (h : s.handleBlobsRead m = some s') (hwf : UsersWF s)
    (hord : Ordered s) : Isolates (fun x => s'.active x = true) s s' := by
  cases htry : s.tryHandleBlobsRead m with
  | none =>
    rw [handleBlobsRead, htry] at h
    cases h
  | some r =>
    obtain ⟨b, s₁⟩ := r
    have hsteady : Steady s s₁ := (triedRead htry).steady hord.healthy
    have htried : ∀ keeps, Isolates keeps s s₁ := fun keeps =>
      (hsteady.upholds keeps).isolates hord.locksWF fun x _ hx => by rwa [hsteady.active]
    cases b with
    | true =>
      rw [handleBlobsRead, htry] at h
      exact Option.some.inj h ▸ htried _
    | false =>
      by_cases htimeout : m.lockTimeoutMs = 0
      · rw [handleBlobsRead, htry] at h
        dsimp only at h
        rw [if_pos htimeout] at h
        obtain rfl := Option.some.inj h
        exact (htried _).trans (.of_eq rfl (fun _ => rfl) fun _ => rfl)
      obtain ⟨name, hfits⟩ : ∃ name, s.Fits name m := by
        have ht := triedRead htry
        cases ht with
        | refused hread hdirty => exact ⟨_, hread.fits hdirty⟩
      obtain ⟨found, s₂, hjoined, -, hmoves, hwf₂, -, -, hcases⟩ :=
        handleBlobsRead_joins h hord.healthy hfits.getDatabase htry htimeout
      have hsame : Isolates (fun x => s'.active x = true) s s₂ := by
        refine .of_eq hjoined.active (fun name' => ?_) fun name' => ?_
        · by_cases hne : name' = name
          · rw [hne, hjoined.locks]
          · exact (hjoined.others name' hne).2.1
        · by_cases hne : name' = name
          · rw [hne, hjoined.tree]
          · exact (hjoined.others name' hne).1
      have hord₂ := hmoves.ordered hord
      have hspared : Spared s₂ s' := by
        rcases hcases with ⟨-, habort⟩ | ⟨-, hfold⟩
        · exact .abortVictim habort (hwf₂ hwf) hord₂
        · exact .foldlM_abortVictim hfold (hwf₂ hwf) hord₂
      exact hsame.trans hspared.isolates

/-! ### Runs -/

/-- What is locked is there. -/
theorem Ordered.exists_hasLocation (h : Ordered s) (hheld : (s.locks name).HeldBy l c) :
    ∃ t, s.tree name = some t ∧ HasLocation t l := by
  cases hod : s.databases name with
  | none =>
    rw [locks_of_none hod] at hheld
    obtain ⟨_, hlock, -⟩ := hheld
    cases hlock
  | some od =>
    rw [locks_of_some hod] at hheld
    obtain ⟨t, hinv, -⟩ := h.belowNextFree hod
    exact ⟨t, (tree_of_some hod).trans hinv.view, (h.located name od t hod hinv l c hheld).1⟩

/-- A step does not change what is locked by clients that stay in their transactions. -/
theorem Step.isolates {e : Event} (h : Step s e s') (hwf : UsersWF s) (hord : Ordered s)
    (hproper : s.CommitsOrderly DbTree.Proper e) (hlists : s.LocksLists e) :
    Isolates (fun x => s'.active x = true) s s' := by
  -- events that end no transaction take no lock away
  have hmoves : ¬e.Ends → s.CommitsOrderly (fun _ _ => False) e →
      Isolates (fun x => s'.active x = true) s s' := fun hends ho => by
    have hmoves : Moves .noEnds s s' := h.moves hwf hord.healthy (fun he => absurd he hends)
      (fun _ => trivial) (fun _ => trivial) ho
    exact (hmoves.upholds hord.healthy hord.locksWF).isolates hord.locksWF fun x hx _ => hx
  have hhandle := h.2
  cases e with
  | connectionClosed d =>
    change s.handleConnectionClosed d = some s' at hhandle
    unfold handleConnectionClosed at hhandle
    split at hhandle
    · cases hhandle
    · next s₁ habort =>
      obtain ⟨s₂, hclose, rfl⟩ := Option.map_eq_some_iff.mp hhandle
      have hinactive := inactive_of_abortTransaction habort hwf
      have hwf₁ := (abortTransaction_clients habort hwf).1
      have hspared := abortTransaction_spared habort hwf hord
      -- the transaction ends first, and then the databases are closed without it
      have hclosed : Moves .noEnds s₁ (s₂.setClient d { s₂.clients d with connected := false }) :=
        .tail (moves_closeAllDatabases hclose hinactive hwf₁) (.client rfl rfl)
      have hcalm := (closeAllDatabases_calm hclose hwf₁).2.1
      have hactive : (s₂.setClient d { s₂.clients d with connected := false }).active =
          s₁.active := by
        have hconnected : (s₂.setClient d { s₂.clients d with connected := false }).active =
            s₂.active := active_setClient_of_eq rfl
        refine hconnected.trans (funext fun x => ?_)
        by_cases hxd : x = d
        · rw [hxd]
          exact hcalm.hasTransaction
        · rw [active, hcalm.clients x hxd, active]
      rw [hactive]
      refine hspared.isolates.trans ?_
      refine (hclosed.upholds hspared.ordered.healthy hspared.ordered.locksWF).isolates
        hspared.ordered.locksWF fun x _ hx => ?_
      rwa [hactive]
  | blobsRead m => exact handleBlobsRead_isolates hhandle hwf hord
  | transactionAbort d => exact (abortTransaction_spared hhandle hwf hord).isolates
  | transactionCommit d m σ =>
    change s.handleTransactionCommit d m σ = some s' at hhandle
    unfold handleTransactionCommit at hhandle
    have hget : ∀ id, (s.setClient d
        { s.clients d with commitMessages := (s.clients d).commitMessages ++ [m] }).getDatabase d id =
          s.getDatabase d id := fun id => by rw [getDatabase, clients_setClient_self, getDatabase]
    set s₁ := s.setClient d { s.clients d with commitMessages := (s.clients d).commitMessages ++ [m] }
    have hactives : s₁.active = s.active := active_setClient_of_eq rfl
    have hgathers : ∀ keeps, Isolates keeps s s₁ := fun keeps =>
      .of_eq hactives (fun _ => rfl) fun _ => rfl
    split_ifs at hhandle with hactive hfollow
    · obtain rfl := Option.some.inj hhandle
      exact .of_eq rfl (fun _ => rfl) fun _ => rfl
    · exact Option.some.inj hhandle ▸ hgathers _
    · rw [Bool.not_eq_true'] at hactive
      have hgathered : Move .noCommits s s₁ := .client rfl rfl
      have hfollow := Bool.eq_false_iff.mpr hfollow
      obtain ⟨hisolates, hinactive⟩ := finishCommit_isolates hhandle
        (by rw [hactives, Bool.of_not_eq_false hactive]) (hwf.setClient rfl)
        (hgathered.ordered hord)
        (hproper (Bool.of_not_eq_false hactive) hfollow)
        fun gs hgs g hg name hname => hlists hfollow gs hgs g hg name (hget g.1 ▸ hname)
      refine (hgathers _).trans (hisolates.mono fun x hx hxd => ?_)
      rw [hxd, hinactive] at hx
      cases hx
  | _ => exact hmoves id trivial

theorem locksLists_createCluster {σ : DatabaseName → Schedule}
    (hmessages : (s.clients c).commitMessages = []) :
    s.LocksLists (.transactionCommit c ⟨false, 0, createCluster⟩ σ) := by
  intro _ gs hgs g hg _ _ _ _ u hu hdel _
  rw [hmessages] at hgs
  obtain rfl : [(0, [⟨false, 0, createCluster⟩])] = gs := Option.some.inj hgs
  obtain rfl := List.mem_singleton.mp hg
  have hsome : ∀ u ∈ createCluster, u.data ≠ none := by decide
  exact absurd hdel.2.2.1 (hsome u hu)

/-- As long as a transaction goes on, what it has locked is there and is not changed by others, if
commits are proper and blobs are taken only off lists that are locked. -/
theorem isolated_of_proper {files : DatabaseName → Option FileContent} {delay : ℕ}
    {es es' : List Event} (hfiles : ∀ name f, files name = some f →
      ∃ db : Database, db.Reachable Database.Keeps ∧ db.file = f)
    (hrun : GuardedRun step (fun s e => s.CommitsOrderly DbTree.Proper e) (start files delay) es s)
    (hrun' : GuardedRun step (fun s e => s.CommitsOrderly DbTree.Proper e ∧ s.LocksLists e ∧
      s.active c = true) s es' s')
    (hactive : s'.active c = true) (hheld : (s.locks name).HeldBy l c) :
    (s'.locks name).HeldBy l c ∧ ∃ t t', s.tree name = some t ∧ s'.tree name = some t' ∧
      HasLocation t l ∧ HasLocation t' l ∧ t'.content l = t.content l := by
  obtain ⟨hwf, hord⟩ := ordered_of_run hfiles hrun
  have hinvariant : UsersWF s' ∧ Ordered s' ∧ (s'.active c = true → (s'.locks name).HeldBy l c ∧
      s'.content name l = s.content name l) := by
    refine hrun'.invariant (I := fun _ s₁ => UsersWF s₁ ∧ Ordered s₁ ∧ (s₁.active c = true →
      (s₁.locks name).HeldBy l c ∧ s₁.content name l = s.content name l))
      ⟨hwf, hord, fun _ => ⟨hheld, rfl⟩⟩ fun _ s₁ e s₂ h hok hstep => ?_
    obtain ⟨hwf₁, hord₁, hkept⟩ := h
    obtain ⟨hproper, hlists, hactive₁⟩ := hok
    have hstep := step_eq_some_iff.mp hstep
    refine ⟨hstep.usersWF hwf₁, hstep.ordered hwf₁ hord₁ hproper, fun hactive₂ => ?_⟩
    obtain ⟨hheld₁, hcontent₁⟩ := hkept hactive₁
    obtain ⟨hheld₂, hcontent₂⟩ :=
      (hstep.isolates hwf₁ hord₁ hproper hlists c hactive₂ hactive₁).2 name l hheld₁
    exact ⟨hheld₂, hcontent₂.trans hcontent₁⟩
  obtain ⟨-, hord', hkept⟩ := hinvariant
  obtain ⟨hheld', hcontent⟩ := hkept hactive
  obtain ⟨t, ht, hl⟩ := hord.exists_hasLocation hheld
  obtain ⟨t', ht', hl'⟩ := hord'.exists_hasLocation hheld'
  rw [content, ht', content, ht] at hcontent
  exact ⟨hheld', t, t', ht, ht', hl, hl', hcontent⟩

/-- The client `1` creates a cluster while the client `2` has locked a blob of another one. -/
theorem isolated_of_proper_create : ∃ es s e s',
    GuardedRun step (fun s e => s.CommitsOrderly DbTree.Proper e) (start (fun _ => none) 0) es s ∧
      s.step e = some s' ∧ (∀ t ∈ s.tree (.mem 0), t.getCluster 0 1 = none) ∧
        (∃ t, s'.tree (.mem 0) = some t ∧ (t.getCluster 0 1).isSome) ∧
          (s'.locks (.mem 0)).HeldBy ⟨0, 0, 0⟩ 2 ∧ ∃ t t', s.tree (.mem 0) = some t ∧
            s'.tree (.mem 0) = some t' ∧ HasLocation t ⟨0, 0, 0⟩ ∧ HasLocation t' ⟨0, 0, 0⟩ ∧
              t'.content ⟨0, 0, 0⟩ = t.content ⟨0, 0, 0⟩ := by
  let σ : DatabaseName → Schedule := fun _ => ⟨[], [], .insertion, []⟩
  let es : List Event := beginAll [1, 2] ++
    [.blobsRead (wants 1 ⟨0, nextFreeClusterId, nextFreeBlobId⟩), .blobsRead (wants 2 ⟨0, 0, 0⟩)]
  let e : Event := .transactionCommit 1 ⟨false, 0, createCluster⟩ σ
  have hplay : ((GuardedRun.play step (fun _ e => e.IsCommit = false) es
      (start (fun _ => none) 0)).bind fun s => (s.step e).bind fun s' =>
        (s.tree (.mem 0)).bind fun t => (s'.tree (.mem 0)).map fun t' =>
          decide (t.nextClusterId 0 = 1 ∧ t.getCluster 0 1 = none ∧ (t'.getCluster 0 1).isSome ∧
            (s.clients 1).commitMessages = [] ∧ s.getDatabase 1 0 = some (.mem 0) ∧
            s.active 2 = true ∧ s'.active 2 = true ∧
            (s.locks (.mem 0)).ownsWriteLock 2 ⟨0, 0, 0⟩ = true)) = some true := by
    decide +kernel
  obtain ⟨s, hs, hplay⟩ := Option.bind_eq_some_iff.mp hplay
  obtain ⟨s', hs', hplay⟩ := Option.bind_eq_some_iff.mp hplay
  obtain ⟨t, ht, hplay⟩ := Option.bind_eq_some_iff.mp hplay
  obtain ⟨t', ht', hplay⟩ := Option.map_eq_some_iff.mp hplay
  obtain ⟨hnext, hnone, hcluster, hmessages, hname, hactive, hactive', howns⟩ :=
    of_decide_eq_true hplay
  have hrun : GuardedRun step (fun s e => s.CommitsOrderly DbTree.Proper e)
      (start (fun _ => none) 0) es s :=
    (GuardedRun.of_play hs).mono fun _ _ h => commitsOrderly_of_not_isCommit h _
  have hproper : s.CommitsOrderly DbTree.Proper e :=
    commitsOrderly_createCluster hmessages hname ht hnext
  refine ⟨es, s, e, s', hrun, hs', fun t₁ ht₁ => ?_, ⟨t', ht', hcluster⟩,
    isolated_of_proper (by rintro _ _ ⟨⟩) hrun
      (.snoc .nil ⟨hproper, locksLists_createCluster hmessages, hactive⟩ hs') hactive'
      (LockBook.heldBy_of_ownsWriteLock howns)⟩
  obtain rfl := Option.some.inj (ht.symm.trans ht₁)
  exact hnone

end Server

end BlobsDb
