import BlobsDb.Server.Closing
import BlobsDb.Server.Committing
import BlobsDb.Server.Cycles
import BlobsDb.Server.Upholding

/-!
# No read waits in vain

A read waits only as long as it is blocked: some other client in a transaction has a lock on one of
its locations (`AllBlocked`). The lock of such a client stays until its transaction ends, and then the
reads that wait in all databases of the client are tried again. A commit changes only databases of
its client, so the reads that wait elsewhere are as blocked as before.
-/

namespace BlobsDb

namespace Server

variable {s s' s₁ s₂ : Server} {c x : ClientId} {name : DatabaseName} {m q : BlobsRead} {b : Bool}

/-- What is requested is looked up, and found if it exists. -/
theorem exists_ensureRequestedBlobsExist {t v : Tree 3} {mode : LockMode} {as : List BlobAddress}
    {db : Database} (hinv : db.Inv v)
    (hfound : ∀ a ∈ as, (Database.requested mode t a.toBlobLocation).2 = none) :
    ∃ db', Database.ensureRequestedBlobsExist db.snapshot t mode as db = some (none, db') ∧
      db'.Inv v := by
  induction as generalizing db with
  | nil => exact ⟨db, rfl, hinv⟩
  | cons a as ih =>
    obtain ⟨hnone, hfound⟩ := List.forall_mem_cons.mp hfound
    obtain ⟨db₁, hload, hinv₁⟩ := exists_loads (Database.requested mode t a.toBlobLocation).1 db hinv
    have hsnapshot : db₁.snapshot = db.snapshot := by
      obtain ⟨g, -, rfl⟩ := Option.map_eq_some_iff.mp hload
      rfl
    obtain ⟨db₂, hexist, hinv₂⟩ := ih hinv₁ hfound
    refine ⟨db₂, ?_, hinv₂⟩
    rw [Database.ensureRequestedBlobsExist, hload, hnone, ← hsnapshot]
    exact hexist

/-- Trying a read that is blocked has it wait on. -/
theorem Blocked.exists_tried (h : s.Blocked name q) (hs : Healthy s) :
    ∃ s', s.tryHandleBlobsRead q = some (false, s') := by
  obtain ⟨t, ht, hfound⟩ := h.fits.exist
  obtain ⟨od, hod, htree⟩ := Option.bind_eq_some_iff.mp ht
  obtain ⟨v, hinv⟩ := hs.exists_inv hod
  obtain ⟨db, hexist, hinv₁⟩ := exists_ensureRequestedBlobsExist hinv hfound
  obtain ⟨ls, hls⟩ := Option.isSome_iff_exists.mp (isSome_forEachLockInMessage hfound)
  obtain ⟨b, od', hacquire⟩ : ∃ b od', acquireLocks s.active q t { od with database := db } =
      some (b, od') := exists_acquireLocks hinv₁ hls
  cases b with
  | false =>
    refine ⟨s.setDatabase name od', ?_⟩
    unfold tryHandleBlobsRead
    simp only [h.fits.getDatabase, h.fits.active, h.fits.isMVCC, h.fits.isDirtyRead, hod,
      Database.snapshotFor, htree, hexist, hacquire, Bool.not_true, Bool.and_false, Bool.false_and,
      Bool.or_false, Bool.false_eq_true, if_false]
  | true =>
    -- it would get its locks
    obtain ⟨-, x, t', ls', ht', hls', l, hl, hx⟩ := h
    obtain rfl := Option.some.inj (ht.symm.trans ht')
    obtain rfl := Option.some.inj (hls.symm.trans hls')
    obtain ⟨_, -, -, hgranted⟩ := acquireLocks_spec hacquire hinv₁
    obtain ⟨ls'', hls'', hcan, -⟩ := hgranted rfl
    obtain rfl := Option.some.inj (hls.symm.trans hls'')
    rw [locks_of_some hod] at hx
    exact absurd hx (LockBook.canAcquire_iff.mp (hcan l hl) x)

/-- All reads that wait are blocked. -/
def AllBlocked (s : Server) : Prop := ∀ name, ∀ q ∈ s.queue name, s.Blocked name q

theorem AllBlocked.upholds (h : AllBlocked s) (hupholds : Upholds (fun _ => True) s s')
    (hqueue : ∀ name, s'.queue name ⊆ s.queue name) (hfit : AllFit s') : AllBlocked s' :=
  fun name q hq => ⟨hfit name q hq,
    (h name q (hqueue name hq)).blockedBy.imp fun _ => hupholds.blockedBy trivial⟩

/-- A client that blocks a read has opened the database. -/
theorem BlockedBy.mem_openNames (h : s.BlockedBy name q x) (hlocks : LocksWF s) :
    name ∈ s.openNames x := by
  obtain ⟨t, ls, -, -, l, -, hconflict⟩ := h
  have hheld := ((hlocks.agrees name).heldBy l x).mp (LockBook.heldBy_of_mem_conflicts hconflict)
  exact hlocks.isOpen name x l hheld.1

/-! ### The end of a transaction -/

/-- The reads that wait in the databases of the client are tried again. Elsewhere it blocks
nobody. -/
theorem abortTransaction_allBlocked (h : s.abortTransaction c b = some s')
    (hactive : s.active c = true) (hwf : UsersWF s) (hs : Healthy s) (hfit : AllFit s')
    (hblocked : ∀ name, name ∉ s.openNames c → ∀ q ∈ s.queue name,
      ∃ x, x ≠ c ∧ s.BlockedBy name q x) : AllBlocked s' := by
  have hupholds := abortTransaction_upholds h hwf hs
  have hended := ended_abortTransaction h hactive
  intro name q hq
  by_cases hopen : name ∈ s.openNames c
  · rw [abortTransaction, if_pos hactive] at h
    split at h
    · cases h
    · next s₁ hs₁ =>
      have hmoves : Moves .noCommits s s₁ :=
        moves_clientAbortTransaction hs₁ hactive hwf hs trivial
      obtain ⟨hsteady, -, -, hretried⟩ :=
        foldlM_tryProcessQueuedReads_blocked h (hmoves.healthy hs)
      obtain ⟨s₀, hleave, rfl⟩ := Option.map_eq_some_iff.mp hs₁
      have hnames : (s₀.setClient c { s₀.clients c with hasTransaction := false }).openNames c =
          s.openNames c := by
        rw [openNames, clients_setClient_self, openNames, (foldlM_leaveDatabase hleave).1.clients]
      refine hretried name (hnames ▸ hopen) q hq name ?_
      rw [getDatabase, ← hsteady.clients]
      exact (hfit name q hq).getDatabase
  · obtain ⟨x, hx, hblocked⟩ := hblocked name hopen q ((hended.queue name).subset hq)
    exact ⟨hfit name q hq, x, hupholds.blockedBy hx hblocked⟩

/-- What holds in all runs in which what is granted is free. -/
structure Waking (s : Server) : Prop where
  usersWF : UsersWF s
  healthy : Healthy s
  locks : LocksWF s
  fit : AllFit s
  blocked : AllBlocked s

namespace Waking

theorem exists_ne (h : Waking s) (hname : name ∉ s.openNames c) (hq : q ∈ s.queue name) :
    ∃ x, x ≠ c ∧ s.BlockedBy name q x := by
  obtain ⟨x, hx⟩ := (h.blocked name q hq).blockedBy
  exact ⟨x, fun hxc => hname (hxc ▸ hx.mem_openNames h.locks), hx⟩

theorem moves (h : Waking s) (hmoves : Moves .noEnds s s') (hwf : UsersWF s')
    (hqueue : ∀ name, s'.queue name ⊆ s.queue name) : Waking s' := by
  have hmoves' : Moves .noCommits s s' :=
    Moves.mono hmoves ⟨fun _ _ => False.elim, False.elim, fun _ => trivial, id⟩
  have hfit := hmoves'.allFit h.healthy h.fit
  exact ⟨hwf, hmoves'.healthy h.healthy, hmoves'.locksWF h.locks, hfit,
    h.blocked.upholds (hmoves.upholds h.healthy h.locks) hqueue hfit⟩

theorem abortTransaction (h : Waking s) (habort : s.abortTransaction c b = some s') :
    Waking s' := by
  cases hactive : s.active c with
  | false =>
    rw [Server.abortTransaction, hactive] at habort
    obtain rfl := Option.some.inj habort
    exact h
  | true =>
    have hmoves : Moves .noCommits s s' :=
      moves_abortTransaction habort h.usersWF h.healthy trivial
    have hfit := hmoves.allFit h.healthy h.fit
    exact ⟨(abortTransaction_clients habort h.usersWF).1, hmoves.healthy h.healthy,
      hmoves.locksWF h.locks, hfit, abortTransaction_allBlocked habort hactive h.usersWF h.healthy
        hfit fun name hname q hq => h.exists_ne hname hq⟩

theorem abortVictim (h : Waking s) (habort : s.abortVictim c = some s') : Waking s' := by
  have hsent : Waking (s.sendError c .deadlock) :=
    h.moves (.single (.send c _)) (h.usersWF.send _) fun _ => List.Subset.refl _
  exact hsent.abortTransaction habort

theorem foldlM_abortVictim {vs : List ClientId} (h : Waking s)
    (hfold : vs.foldlM Server.abortVictim s = some s') : Waking s' :=
  foldlM_induction (P := Waking) hfold h fun _ _ _ _ hstep h1 => h1.abortVictim hstep

/-! ### Reads -/

theorem triedRead (h : Waking s) (htry : s.tryHandleBlobsRead m = some (b, s₁)) : Waking s₁ := by
  have ht := tried htry
  have hmoves : Moves .noCommits s s₁ := (Server.triedRead htry).moves h.healthy trivial
  have hfit := hmoves.allFit h.healthy h.fit
  refine ⟨?_, hmoves.healthy h.healthy, hmoves.locksWF h.locks, hfit,
    h.blocked.upholds (((Server.triedRead htry).steady h.healthy).upholds _) (fun name => ?_) hfit⟩
  · exact h.usersWF.of_sublist (fun c => openNames_congr (by rw [ht.kept.clients]))
      (fun name => Or.inl (ht.kept.useCount name)) fun name => by rw [ht.queue]
  · rw [ht.queue]
    exact List.Subset.refl _

theorem joined (h : Waking s) (hjoined : Joined name m s s₂) (hmoves : Moves .noCommits s s₂)
    (hwf : UsersWF s₂) (hblocked : s₂.Blocked name m) : Waking s₂ := by
  have hfit := hmoves.allFit h.healthy h.fit
  refine ⟨hwf, hmoves.healthy h.healthy, hmoves.locksWF h.locks, hfit, fun name' q hq => ?_⟩
  by_cases hne : name' = name
  · subst hne
    rw [hjoined.queue, List.mem_append, List.mem_singleton] at hq
    rcases hq with hq | rfl
    · exact ⟨hfit name' q (by rw [hjoined.queue]; exact List.mem_append_left _ hq),
        (h.blocked name' q hq).blockedBy.imp fun _ => hjoined.blockedBy.mpr⟩
    · exact hblocked
  · obtain ⟨htree, hlocks, hqueue⟩ := hjoined.others name' hne
    refine ⟨hfit name' q hq, (h.blocked name' q (hqueue ▸ hq)).blockedBy.imp fun x hx => ?_⟩
    rwa [BlockedBy, htree, hlocks, hjoined.active]

theorem handleBlobsRead (h : Waking s) (hread : s.handleBlobsRead m = some s') : Waking s' := by
  cases htry : s.tryHandleBlobsRead m with
  | none =>
    rw [Server.handleBlobsRead, htry] at hread
    cases hread
  | some r =>
    obtain ⟨b, s₁⟩ := r
    have h₁ := h.triedRead htry
    cases b with
    | true =>
      rw [Server.handleBlobsRead, htry] at hread
      exact Option.some.inj hread ▸ h₁
    | false =>
      by_cases htimeout : m.lockTimeoutMs = 0
      · rw [Server.handleBlobsRead, htry] at hread
        dsimp only at hread
        rw [if_pos htimeout] at hread
        obtain rfl := Option.some.inj hread
        exact h₁.moves (.single (.send _ _)) (h₁.usersWF.send _) fun _ => List.Subset.refl _
      obtain ⟨name, hfits⟩ : ∃ name, s.Fits name m := by
        have ht := Server.triedRead htry
        cases ht with
        | refused hread hdirty => exact ⟨_, hread.fits hdirty⟩
      obtain ⟨found, s₂, hjoined, hblocked, hmoves, hwf, -, -, hcases⟩ :=
        handleBlobsRead_joins hread h.healthy hfits.getDatabase htry htimeout
      have h₂ := h.joined hjoined hmoves (hwf h.usersWF) hblocked
      rcases hcases with ⟨-, habort⟩ | ⟨-, hfold⟩
      · exact h₂.abortVictim habort
      · exact h₂.foldlM_abortVictim hfold

/-! ### Commits -/

theorem prepares (h : Waking s) (hprepares : Prepares s s₁) (hwf : UsersWF s₁) : Waking s₁ := by
  have hmoves : Moves .noCommits s s₁ := hprepares.moves.mono (Permit.noBegins_le trivial)
  have hfit := hmoves.allFit h.healthy h.fit
  refine ⟨hwf, hmoves.healthy h.healthy, hmoves.locksWF h.locks, hfit, fun name q hq => ?_⟩
  rw [hprepares.queue] at hq
  refine ⟨hfit name q (by rwa [hprepares.queue]), ?_⟩
  simpa only [BlockedBy, hprepares.tree, hprepares.locks, hprepares.active] using
    (h.blocked name q hq).blockedBy

theorem finishCommit {σ : DatabaseName → Schedule} {ms : List TransactionCommit} (h : Waking s)
    (hfinish : s.finishCommit c σ ms = some s') (hactive : s.active c = true) (hfit : AllFit s') :
    AllBlocked s' := by
  rcases finishCommit_cases hfinish h.usersWF h.healthy with ⟨-, s₁, hprepares, hwf, habort⟩ |
    ⟨gs, ls, s₁, s₂, commits, -, -, happlied, habort⟩
  · exact ((h.prepares hprepares hwf).abortTransaction habort).blocked
  · have h₁ := h.prepares happlied.prepares happlied.usersWF
    have happlies := applies_commitDatabases happlied.applied
    have hactives := happlied.prepares.active
    set s₃ := s₁.setClient c { s₁.clients c with commitMessages := [] }
    have hactive₂ : s₂.active = s₃.active := funext fun d => by
      rw [active, happlies.clients, active]
    refine abortTransaction_allBlocked habort ?_ (happlied.usersWF_applied.send _)
      (Moves.healthy (P := .all) (.single (.send c _)) (happlied.healthy hactive h.healthy)) hfit
      fun name hname q hq => ?_
    · change s₂.active c = true
      rw [hactive₂, hactives, hactive]
    · -- the commit leaves the database alone
      have hnames : s₂.openNames c = s₃.openNames c := openNames_congr (by rw [happlies.clients])
      have hname₃ : name ∉ s₃.openNames c := hnames ▸ hname
      have hdatabases := happlies.databases name hname₃
      obtain ⟨x, hx, t, ls, ht, hls, l, hl, hconflict⟩ :=
        h₁.exists_ne hname₃ (happlies.queue name ▸ hq)
      refine ⟨x, hx, t, ls, ?_, hls, l, hl, ?_⟩
      · change s₂.tree name = some t
        rwa [tree, hdatabases]
      · change x ∈ (s₂.locks name).conflicts s₂.active _ _ _
        rwa [hactive₂, locks_congr hdatabases]

end Waking

/-! ### Runs -/

/-- After each step all reads that wait are blocked. -/
theorem Step.waking {e : Event} (h : Step s e s') (hwaking : Waking s) (hfree : GrantsFree s e) :
    Waking s' := by
  have hwf := h.usersWF hwaking.usersWF
  have hfit := h.allFit hwaking.usersWF hwaking.healthy hwaking.fit
  have hblocked : AllBlocked s' → Waking s' := fun hblocked =>
    ⟨hwf, h.healthy hwaking.usersWF hwaking.healthy,
      h.locksWF hwaking.usersWF hwaking.healthy hfree hwaking.locks, hfit, hblocked⟩
  have hmoves : ¬e.Ends → s.CommitsOrderly (fun _ _ => False) e → Waking s' := fun hends ho => by
    have hmoves : Moves .noEnds s s' := h.moves hwaking.usersWF hwaking.healthy
      (fun he => absurd he hends) (fun _ => trivial) (fun _ => trivial) ho
    exact hwaking.moves hmoves hwf fun name =>
      (hmoves.abates hwaking.healthy hwaking.fit).queue name
  have hhandle := h.2
  cases e with
  | connectionClosed d =>
    change s.handleConnectionClosed d = some s' at hhandle
    unfold handleConnectionClosed at hhandle
    split at hhandle
    · cases hhandle
    · next s₁ habort =>
      obtain ⟨s₂, hclose, rfl⟩ := Option.map_eq_some_iff.mp hhandle
      have h₁ := hwaking.abortTransaction habort
      have hclosed : Moves .noEnds s₁ (s₂.setClient d { s₂.clients d with connected := false }) :=
        .tail (moves_closeAllDatabases hclose (inactive_of_abortTransaction habort hwaking.usersWF)
          h₁.usersWF) (.client rfl rfl)
      exact h₁.moves hclosed hwf fun name => (hclosed.abates h₁.healthy h₁.fit).queue name
  | blobsRead m => exact hwaking.handleBlobsRead hhandle
  | transactionAbort d => exact hwaking.abortTransaction hhandle
  | transactionCommit d m σ =>
    change s.handleTransactionCommit d m σ = some s' at hhandle
    unfold handleTransactionCommit at hhandle
    have hgathered : Waking (s.setClient d
        { s.clients d with commitMessages := (s.clients d).commitMessages ++ [m] }) :=
      hwaking.moves (.single (.client rfl rfl)) (hwaking.usersWF.setClient rfl)
        fun _ => List.Subset.refl _
    split_ifs at hhandle with hactive hfollow
    · obtain rfl := Option.some.inj hhandle
      exact hwaking.moves (.single (.send d _)) hwf fun _ => List.Subset.refl _
    · exact Option.some.inj hhandle ▸ hgathered
    · refine hblocked (hgathered.finishCommit hhandle ?_ hfit)
      rw [Bool.not_eq_true'] at hactive
      have hactives : (s.setClient d { s.clients d with
          commitMessages := (s.clients d).commitMessages ++ [m] }).active = s.active :=
        active_setClient_of_eq rfl
      rw [hactives, Bool.of_not_eq_false hactive]
  | _ => exact hmoves id trivial

/-- As long as what is granted is free, no read waits in vain: each read in a queue asks for what
exists and is blocked by another client in a transaction, so that it would wait on if it were tried
again. -/
theorem blocked_of_grantsFree {files : DatabaseName → Option FileContent} {delay : ℕ}
    {es : List Event} (hstart : Healthy (start files delay))
    (hrun : GuardedRun step GrantsFree (start files delay) es s) :
    ∀ name, ∀ q ∈ s.queue name, s.Blocked name q ∧
      ∃ s', s.tryHandleBlobsRead q = some (false, s') := by
  have hwaking : Waking s := by
    refine hrun.invariant (I := fun _ s => Waking s) ⟨usersWF_start files delay, hstart,
      locksWF_start files delay, fun _ _ hq => absurd hq List.not_mem_nil,
      fun _ _ hq => absurd hq List.not_mem_nil⟩ fun _ s e s' hwaking hfree hstep => ?_
    exact (step_eq_some_iff.mp hstep).waking hwaking hfree
  intro name q hq
  have hblocked := hwaking.blocked name q hq
  exact ⟨hblocked, hblocked.exists_tried hwaking.healthy⟩

/-- Two clients wait for a third one. When its transaction ends, one of them is granted its lock, and
the other one waits on. -/
theorem blocked_of_grantsFree_handed : ∃ es s s',
    GuardedRun step GrantsFree (start (fun _ => none) 0) es s ∧
      s.queue (.mem 0) = [wants 3 ⟨0, 0, 0⟩] ∧ s.BlockedBy (.mem 0) (wants 3 ⟨0, 0, 0⟩) 2 ∧
      s.tryHandleBlobsRead (wants 3 ⟨0, 0, 0⟩) = some (false, s') := by
  let es : List Event := beginAll [1, 2, 3] ++ [.blobsRead (wants 1 ⟨0, 0, 0⟩),
    .blobsRead (wants 2 ⟨0, 0, 0⟩), .blobsRead (wants 3 ⟨0, 0, 0⟩), .transactionAbort 1]
  have hplay : (GuardedRun.play step GrantsFree es (start (fun _ => none) 0)).map (fun s =>
      decide (s.queue (.mem 0) = [wants 3 ⟨0, 0, 0⟩] ∧ (3, 2) ∈ s.waiters (.mem 0))) =
        some true := by
    decide +kernel
  obtain ⟨s, hs, hplay⟩ := Option.map_eq_some_iff.mp hplay
  obtain ⟨hqueue, hwaits⟩ := of_decide_eq_true hplay
  have hrun := GuardedRun.of_play hs
  obtain ⟨-, s', htry⟩ := blocked_of_grantsFree (healthy_start 0) hrun (.mem 0)
    (wants 3 ⟨0, 0, 0⟩) (by rw [hqueue]; exact List.mem_cons_self)
  obtain ⟨q, hq, -, hblocked⟩ := mem_waiters.mp hwaits
  rw [hqueue, List.mem_singleton] at hq
  exact ⟨es, s, s', hrun, hqueue, hq ▸ hblocked, htry⟩

end Server

end BlobsDb
