import BlobsDb.Server.Closing
import BlobsDb.Server.Located

/-!
# Ids and next free ids

The server checks what is written to the next free ids against the database as it was before the
commit, and applies the entries of the commit one after another. If a commit writes a next free id
more than once, or deletes what it goes on to write, ids may end up above the next free id
(`not_idsOrdered_of_written_twice`). If all commits are proper, ids stay in their range and below
the next free ids, and these never decrease (`idsOrdered_of_proper`).
-/

namespace BlobsDb

open DbTree (BelowNextFree Admissible)

namespace DbTree

variable {μ ν : Type} {t t' t₁ : DbTree μ 3} {us : List BlobData}

/-- All ids are in their range, and below the next free id of their parent. -/
structure IdsInRange (t : DbTree μ 3) : Prop where
  segment : ∀ s x, t.getSegment s = some x → s ≤ maxSegmentId ∧ s < t.info
  cluster : ∀ s c x y, t.getSegment s = some x → x.children.find c = some y →
    c ≤ maxClusterId ∧ c < x.info
  blob : ∀ s c b y z, t.getCluster s c = some y → y.children.find b = some z →
    b ≤ maxBlobId ∧ b < y.info

/-- No next free id decreases: not the one of the database, and not those of the segments and
clusters that are in both trees. -/
structure NextFreeGrows (t t' : DbTree μ 3) : Prop where
  segment : t.info ≤ t'.info
  cluster : ∀ s x x', t.getSegment s = some x → t'.getSegment s = some x' → x.info ≤ x'.info
  blob : ∀ s c y y', t.getCluster s c = some y → t'.getCluster s c = some y' → y.info ≤ y'.info

theorem le_of_lt_info {id info : UInt32} (h : id < info) (hle : info ≤ maxBlobId + 1) :
    id ≤ maxBlobId := by
  have hlt := lt_of_lt_of_le h hle
  rw [UInt32.lt_iff_toNat_lt, toNat_add_one (le_refl _)] at hlt
  exact UInt32.le_iff_toNat_le.mpr (Nat.le_of_lt_succ hlt)

theorem BelowNextFree.idsInRange (h : BelowNextFree t) : IdsInRange t where
  segment s x hx := ⟨le_of_lt_info (h.segment hx).1 h.1, (h.segment hx).1⟩
  cluster s c x y hx hy := by
    have hseg := (h.segment hx).2
    exact ⟨le_of_lt_info (hseg.2 c y hy).1 hseg.1, (hseg.2 c y hy).1⟩
  blob s c b y z hy hz := by
    have hcluster := (h.cluster hy).2
    exact ⟨le_of_lt_info (hcluster.2 b z hz).1 hcluster.1, (hcluster.2 b z hz).1⟩

theorem NextFreeGrows.refl (t : DbTree μ 3) : NextFreeGrows t t where
  segment := le_refl _
  cluster _ _ _ hx hx' := le_of_eq (congrArg _ (Option.some.inj (hx.symm.trans hx')))
  blob _ _ _ _ hy hy' := le_of_eq (congrArg _ (Option.some.inj (hy.symm.trans hy')))

/-- The entries of an admissible commit decrease no next free id. -/
theorem After.nextFreeGrows (h : After t us t₁) : NextFreeGrows t t₁ where
  segment := h.info.ge
  cluster s x x' hx hx' := by
    have hge := (h.segment s x' hx').ge
    rwa [nextClusterId, hx] at hge
  blob s c y y' hy hy' := by
    have hge := (h.cluster s c y' hy').ge
    rwa [nextBlobId, hy] at hge

theorem info_changeMark {n : ℕ} (g : μ → ν) (t : DbTree μ (n + 1)) :
    LevelTree.Inner.info (changeMark g t) = t.info := rfl

/-- The marks do not matter. -/
theorem NextFreeGrows.of_changeMark (g : μ → ν) (h : NextFreeGrows t t₁)
    (heq : changeMark g t' = changeMark g t₁) : NextFreeGrows t t' where
  segment := by
    rw [← info_changeMark g t', heq]
    exact h.segment
  cluster s x x' hx hx' := by
    have hchanged : (changeMark g t₁).getSegment s = some (changeMark g x') := by
      rw [← heq, getSegment_changeMark, hx']
      rfl
    rw [getSegment_changeMark] at hchanged
    obtain ⟨x₁, hx₁, hmark⟩ := Option.map_eq_some_iff.mp hchanged
    rw [← info_changeMark g x', ← hmark]
    exact h.cluster s x x₁ hx hx₁
  blob s c y y' hy hy' := by
    have hchanged : (changeMark g t₁).getCluster s c = some (changeMark g y') := by
      rw [← heq, getCluster_changeMark, hy']
      rfl
    rw [getCluster_changeMark] at hchanged
    obtain ⟨y₁, hy₁, hmark⟩ := Option.map_eq_some_iff.mp hchanged
    rw [← info_changeMark g y', ← hmark]
    exact h.blob s c y y₁ hy hy₁

end DbTree

namespace Server

open DbTree (IdsInRange NextFreeGrows)

variable {s s' : Server} {c : ClientId} {name : DatabaseName} {od₀ od od' : OpenDatabase}

/-- The ids of all databases that are open are in order. -/
def IdsOrdered (s : Server) : Prop := ∀ name, ∀ t ∈ s.tree name, IdsInRange t

/-- No next free id of a database that stays open decreases. -/
def NextFreeIdsGrow (s s' : Server) : Prop :=
  ∀ name, ∀ t ∈ s.tree name, ∀ t' ∈ s'.tree name, NextFreeGrows t t'

theorem NextFreeIdsGrow.of_tree (h : ∀ name, s'.tree name = s.tree name) :
    NextFreeIdsGrow s s' := fun name t ht t' ht' => by
  rw [h name] at ht'
  obtain rfl := Option.some.inj (ht.symm.trans ht')
  exact .refl t

theorem Ordered.idsOrdered (h : Ordered s) : IdsOrdered s := fun name t ht => by
  obtain ⟨od, hod, hview⟩ := Option.bind_eq_some_iff.mp ht
  obtain ⟨t', hinv, hbelow⟩ := h.belowNextFree hod
  obtain rfl := Option.some.inj (hinv.view.symm.trans hview)
  exact hbelow.idsInRange

/-- The end of a transaction keeps the trees. -/
theorem tree_abortTransaction {b : Bool} (h : s.abortTransaction c b = some s') (hwf : UsersWF s)
    (hs : Healthy s) (name : DatabaseName) : s'.tree name = s.tree name := by
  rw [abortTransaction] at h
  split_ifs at h with hactive
  · split at h
    · cases h
    · next s₁ hs₁ =>
      have hmoves : Moves .all s s₁ := moves_clientAbortTransaction hs₁ hactive hwf hs trivial
      obtain ⟨hsteady, -⟩ := foldlM_tryProcessQueuedReads_blocked h (hmoves.healthy hs)
      obtain ⟨s₀, hleave, rfl⟩ := Option.map_eq_some_iff.mp hs₁
      exact (hsteady.tree name).trans (tree_foldlM_leaveDatabase hleave name)
  · obtain rfl := Option.some.inj h
    rfl

/-- Applying the messages of a proper commit decreases no next free id. -/
theorem Ordered.nextFreeGrows (h : Ordered s) {g : DatabaseId × List TransactionCommit}
    {ls : List BlobLocation} {σ : Schedule} (hv : Validates s c g ls name od₀ od)
    (hproper : s.PermitsCommit DbTree.Proper c g)
    (hcommit : Server.commitDatabase c (g.2.flatMap TransactionCommit.blobs) σ ls od = some od') :
    ∀ t ∈ s.tree name, ∀ t' ∈ od'.database.tree od'.database.snapshot, NextFreeGrows t t' := by
  obtain ⟨t, created, -, hpasses, hbelow, hproper, hinv⟩ := h.passes hv hproper
  obtain ⟨r, book, hcommits, -, rfl⟩ := commitDatabase_eq_some hcommit
  have hadm := hpasses.admissible hbelow hproper.orderly.2
  obtain ⟨t', hinv', -, hlogical, -, -⟩ := hpasses.exists_commit hadm hcommits
  intro t₁ ht₁ t₁' ht₁'
  rw [tree_of_some hv.databases] at ht₁
  obtain rfl := Option.some.inj (hinv.view.symm.trans ht₁)
  obtain rfl := Option.some.inj (hinv'.view.symm.trans ht₁')
  -- the mark the entries of the commit leave in the tree
  let m : Mark := { t.mark with commitId := od.database.commitId + 1 }
  have hgrows : NextFreeGrows t
      (DbTree.updates m (g.2.flatMap TransactionCommit.blobs) t) := hadm.after.nextFreeGrows
  exact hgrows.of_changeMark Mark.commitId
    (hlogical.trans (DbTree.changeMark_updates Mark.commitId m _ t).symm)

theorem Ordered.nextFreeIdsGrow_finishCommit {σ : DatabaseName → Schedule}
    {ms : List TransactionCommit} (h : Ordered s) (hfinish : s.finishCommit c σ ms = some s')
    (hactive : s.active c = true) (hwf : UsersWF s)
    (hproper : s.PermitsCommits DbTree.Proper c ms) :
    NextFreeIdsGrow s s' := by
  have happlied : ∃ s₂ b, NextFreeIdsGrow s s₂ ∧ UsersWF s₂ ∧ Healthy s₂ ∧
      s₂.abortTransaction c b = some s' := by
    refine finishCommit_applied hfinish hactive hwf h.healthy
      (fun hprepares hgrow name t ht t' ht' => ?_) ?_ (.of_tree fun _ => rfl)
    · rw [hprepares.tree] at ht'
      exact hgrow name t ht t' ht'
    · intro gs ls s₁ hgs hvalid p hp s₂ name od₀ od od' _ _ _ hv hcommit hgrow name' t ht t' ht'
      by_cases hne : name' = name
      · subst hne
        rw [tree_setDatabase_self] at ht'
        exact h.nextFreeGrows hv (hproper gs hgs ls s₁ hvalid p.1 (List.of_mem_zip hp).1) hcommit t ht
          t' ht'
      · rw [tree_setDatabase_of_ne hne] at ht'
        exact hgrow name' t ht t' ht'
  obtain ⟨s₂, b, hgrow, hwf₂, hs₂, habort⟩ := happlied
  intro name t ht t' ht'
  rw [tree_abortTransaction habort hwf₂ hs₂] at ht'
  exact hgrow name t ht t' ht'

/-- A proper commit decreases no next free id. -/
theorem Ordered.nextFreeIdsGrow {m : TransactionCommit} {σ : DatabaseName → Schedule}
    (h : Ordered s) (hwf : UsersWF s) (hstep : Step s (.transactionCommit c m σ) s')
    (hproper : s.CommitsOrderly DbTree.Proper (.transactionCommit c m σ)) :
    NextFreeIdsGrow s s' := by
  obtain ⟨-, hhandle⟩ := hstep
  change s.handleTransactionCommit c m σ = some s' at hhandle
  unfold handleTransactionCommit at hhandle
  split_ifs at hhandle with hactive hfollow
  · obtain rfl := Option.some.inj hhandle
    exact .of_tree fun _ => rfl
  · obtain rfl := Option.some.inj hhandle
    exact .of_tree fun _ => rfl
  · rw [Bool.not_eq_true'] at hactive
    have hactive := Bool.of_not_eq_false hactive
    set s₀ := s.setClient c
      { s.clients c with commitMessages := (s.clients c).commitMessages ++ [m] } with hs₀
    have hmove : Move .noCommits s s₀ := .client rfl rfl
    have hactives : s₀.active = s.active := active_setClient_of_eq rfl
    have hgrow : NextFreeIdsGrow s₀ s' := by
      refine (hmove.ordered h).nextFreeIdsGrow_finishCommit hhandle ?_ (hwf.setClient rfl)
        (hproper hactive (Bool.eq_false_iff.mpr hfollow))
      rw [hactives, hactive]
    exact hgrow

/-! ### Runs -/

/-- The event is a message with a commit. -/
def Event.IsCommit : Event → Bool
  | .transactionCommit _ _ _ => true
  | _ => false

theorem ordered_of_run {files : DatabaseName → Option FileContent} {delay : ℕ} {es : List Event}
    (hfiles : ∀ name f, files name = some f →
      ∃ db : Database, db.Reachable Database.Keeps ∧ db.file = f)
    (hrun : GuardedRun step (CommitsOrderly DbTree.Proper) (start files delay) es s) :
    UsersWF s ∧ Ordered s := by
  refine hrun.invariant (I := fun _ s => UsersWF s ∧ Ordered s)
    ⟨usersWF_start files delay, ordered_start hfiles⟩
    fun _ s e s' ⟨hwf, hordered⟩ hproper hstep => ?_
  have hstep := step_eq_some_iff.mp hstep
  exact ⟨hstep.usersWF hwf, hstep.ordered hwf hordered hproper⟩

/-- As long as all commits are proper, ids are in their range and below the next free ids, and the
next commit, if it is proper, decreases no next free id. -/
theorem idsOrdered_of_proper {files : DatabaseName → Option FileContent} {delay : ℕ}
    {es : List Event} (hfiles : ∀ name f, files name = some f →
      ∃ db : Database, db.Reachable Database.Keeps ∧ db.file = f)
    (hrun : GuardedRun step (CommitsOrderly DbTree.Proper) (start files delay) es s) :
    IdsOrdered s ∧ ∀ c m σ s', s.step (.transactionCommit c m σ) = some s' →
      s.CommitsOrderly DbTree.Proper (.transactionCommit c m σ) →
      IdsOrdered s' ∧ NextFreeIdsGrow s s' := by
  obtain ⟨hwf, hordered⟩ := ordered_of_run hfiles hrun
  refine ⟨hordered.idsOrdered, fun c m σ s' hstep hproper => ?_⟩
  have hstep := step_eq_some_iff.mp hstep
  exact ⟨(hstep.ordered hwf hordered hproper).idsOrdered,
    hordered.nextFreeIdsGrow hwf hstep hproper⟩

/-- The entries that create the cluster 1 of the segment 0 and write its first blob. -/
def createCluster : List BlobData :=
  [⟨⟨0, nextFreeClusterId, nextFreeBlobId⟩, some [2, 0, 0, 0]⟩, ⟨⟨0, 1, 0⟩, some [7]⟩]

theorem proper_createCluster {t : Tree 3} (ht : t.nextClusterId 0 = 1) :
    DbTree.Proper t createCluster where
  orderly := by
    refine ⟨by decide, List.pairwise_pair.mpr fun hclash => ?_⟩
    cases hclash with
    | nextSegment he => exact absurd (show (0 : SegmentId) = nextFreeSegmentId from he) (by decide)
    | nextCluster _ hu => exact absurd hu.2.2 (by decide)
    | nextBlob _ hu => exact absurd hu.2.2.2 (by decide)
    | segment he => exact absurd he.2.2 (by decide)
    | cluster he =>
      rcases he with he | he
      · exact absurd he.2.2 (by decide)
      · exact absurd he.2.2.1 (by decide)
  uses := by
    have hsegment : ∀ s, ¬DbTree.SegmentCreated t createCluster s := by
      rintro s ⟨e, he, hw, -⟩
      have hnone : ∀ u ∈ createCluster, u.segment ≠ nextFreeSegmentId := by decide
      exact hnone e he hw
    refine ⟨fun s hs => absurd hs (hsegment s), ?_⟩
    rintro s c (⟨hs, -⟩ | ⟨e, he, hw, hge, hlt⟩)
    · exact absurd hs (hsegment s)
    · rcases List.mem_pair.mp he with rfl | rfl
      · obtain rfl : (0 : SegmentId) = s := hw.2.1
        have hlt : c < 2 := hlt
        rw [ht] at hge
        obtain rfl : c = 1 := by
          rw [← UInt32.toNat_inj]
          rw [UInt32.lt_iff_toNat_lt] at hlt
          rw [UInt32.le_iff_toNat_le] at hge
          exact le_antisymm (Nat.le_of_lt_succ hlt) hge
        exact Or.inl ⟨_, List.mem_cons_of_mem _ (List.mem_singleton_self _),
          ⟨⟨by decide, by decide⟩, by decide, by decide⟩, rfl, rfl⟩
      · exact absurd hw.2.2 (by decide)

theorem commitsOrderly_createCluster {σ : DatabaseName → Schedule} {t : Tree 3}
    (hmessages : (s.clients c).commitMessages = []) (hname : s.getDatabase c 0 = some name)
    (ht : s.tree name = some t) (hnext : t.nextClusterId 0 = 1) :
    s.CommitsOrderly DbTree.Proper (.transactionCommit c ⟨false, 0, createCluster⟩ σ) := by
  intro _ _ gs hgs _ _ _ g hg name' hname' t' ht'
  rw [hmessages] at hgs
  obtain rfl : [(0, [⟨false, 0, createCluster⟩])] = gs := Option.some.inj hgs
  obtain rfl := List.mem_singleton.mp hg
  rw [Option.mem_def, getDatabase, clients_setClient_self] at hname'
  obtain rfl := Option.some.inj (hname.symm.trans hname')
  obtain rfl := Option.some.inj (ht.symm.trans ht')
  exact proper_createCluster hnext

theorem commitsOrderly_of_not_isCommit {e : Event} (h : e.IsCommit = false)
    (orderly : Tree 3 → List BlobData → Prop) : s.CommitsOrderly orderly e := by
  cases e with
  | transactionCommit => cases h
  | _ => trivial

/-- The files after a run that has created a database. -/
def createdFiles (name : DatabaseName) : Option FileContent :=
  if name = .file 0 then some Database.initializeDatabaseFile else none

theorem reachable_createdFiles : ∀ name f, createdFiles name = some f →
    ∃ db : Database, db.Reachable Database.Keeps ∧ db.file = f := by
  intro name f hf
  rw [createdFiles] at hf
  split_ifs at hf
  obtain ⟨db, hopen, -, hs, -⟩ := Initial.exists_readInitialFileDatabaseData
  refine ⟨db, ⟨db, Or.inr hopen, .refl⟩, ?_⟩
  rw [Database.Inv.file_eq hs]
  exact Option.some.inj hf

/-- A client opens the database of an earlier run, creates a cluster and writes into it. -/
theorem idsOrdered_of_proper_create : ∃ es s m σ s',
    GuardedRun step (CommitsOrderly DbTree.Proper) (start createdFiles 0) es s ∧
      s.step (.transactionCommit 1 m σ) = some s' ∧
      (∀ t ∈ s'.tree (.file 0), (t.getCluster 0 1).isSome) ∧ IdsOrdered s' ∧
      NextFreeIdsGrow s s' := by
  let es : List Event := [.connectionOpened 1,
    .databaseOpen 1 (.file 0) .openFailIfNotExist false, .transactionBegin 1 0 [],
    .blobsRead ⟨1, 0, .write, 0, [⟨⟨0, nextFreeClusterId, nextFreeBlobId⟩, 0⟩]⟩]
  let σ (od : OpenDatabase) : DatabaseName → Schedule := fun _ => od.database.orderOf createCluster
  -- nothing is committed at first
  have hplay : ((GuardedRun.play step (fun _ e => e.IsCommit = false) es
      (start createdFiles 0)).bind fun s => (s.databases (.file 0)).bind fun od =>
        (s.step (.transactionCommit 1 ⟨false, 0, createCluster⟩ (σ od))).bind fun s' =>
          (s.tree (.file 0)).bind fun t => (s'.tree (.file 0)).map fun t' =>
            decide (t.nextClusterId 0 = 1 ∧ (t'.getCluster 0 1).isSome ∧
              (s.clients 1).commitMessages = [] ∧ s.getDatabase 1 0 = some (.file 0))) =
      some true := by
    decide +kernel
  obtain ⟨s, hs, hplay⟩ := Option.bind_eq_some_iff.mp hplay
  obtain ⟨od, -, hplay⟩ := Option.bind_eq_some_iff.mp hplay
  obtain ⟨s', hs', hplay⟩ := Option.bind_eq_some_iff.mp hplay
  obtain ⟨t, ht, hplay⟩ := Option.bind_eq_some_iff.mp hplay
  obtain ⟨t', ht', hplay⟩ := Option.map_eq_some_iff.mp hplay
  obtain ⟨hnext, hcluster, hmessages, hname⟩ := of_decide_eq_true hplay
  have hrun : GuardedRun step (CommitsOrderly DbTree.Proper) (start createdFiles 0) es s :=
    (GuardedRun.of_play hs).mono fun _ _ h => commitsOrderly_of_not_isCommit h _
  have hproper : s.CommitsOrderly DbTree.Proper
      (.transactionCommit 1 ⟨false, 0, createCluster⟩ (σ od)) :=
    commitsOrderly_createCluster hmessages hname ht hnext
  refine ⟨es, s, _, σ od, s', hrun, hs', fun t₁ ht₁ => ?_,
    (idsOrdered_of_proper reachable_createdFiles hrun).2 1 _ (σ od) s' hs' hproper⟩
  obtain rfl := Option.some.inj (ht'.symm.trans ht₁)
  exact hcluster

/-- A commit writes the next free cluster id twice. What it creates between the two ends up above the
next free id. -/
theorem not_idsOrdered_of_written_twice : ∃ es s,
    GuardedRun step (fun _ _ => True) (start (fun _ => none) 0) es s ∧ ¬IdsOrdered s := by
  let nextCluster : BlobLocation := ⟨0, nextFreeClusterId, nextFreeBlobId⟩
  let es : List Event := [.connectionOpened 1, .databaseOpen 1 (.mem 0) .createIfNotExist false,
    .transactionBegin 1 0 [], .blobsRead ⟨1, 0, .write, 0, [⟨nextCluster, 0⟩]⟩,
    .transactionCommit 1 ⟨false, 0, [⟨nextCluster, some [3, 0, 0, 0]⟩, ⟨⟨0, 2, 0⟩, some [7]⟩,
      ⟨nextCluster, some [2, 0, 0, 0]⟩]⟩ fun _ => ⟨[], [], .insertion, []⟩]
  have hplay : ((GuardedRun.play step (fun _ _ => True) es (start (fun _ => none) 0)).bind fun s =>
      (s.tree (.mem 0)).bind fun t => (t.getSegment 0).map fun x =>
        decide (x.info = 2 ∧ (x.children.find 2).isSome)) = some true := by
    decide +kernel
  obtain ⟨s, hs, hplay⟩ := Option.bind_eq_some_iff.mp hplay
  obtain ⟨t, ht, hplay⟩ := Option.bind_eq_some_iff.mp hplay
  obtain ⟨x, hx, hplay⟩ := Option.map_eq_some_iff.mp hplay
  obtain ⟨hinfo, hcluster⟩ := of_decide_eq_true hplay
  obtain ⟨y, hy⟩ := Option.isSome_iff_exists.mp hcluster
  refine ⟨es, s, GuardedRun.of_play hs, fun hids => ?_⟩
  have hlt := ((hids _ t ht).cluster 0 2 x y hx hy).2
  rw [hinfo] at hlt
  exact absurd hlt (lt_irrefl 2)

end Server

end BlobsDb
