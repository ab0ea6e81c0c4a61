import BlobsDb.Server.Committing
import BlobsDb.Server.Granting
import BlobsDb.Server.Holding
import BlobsDb.Storage.Loaded

/-!
# Locks are on locations

A client can only lock what exists, and what exists stays until it is deleted, which needs its
lock. So all locks are on locations of the database, and the objects on the way to them are loaded
(`Ordered`). That is why a commit does not copy what is not loaded: everything it writes to is
locked by the client, or created by the commit.

This depends on the commits. Each has to be `Proper`: its entries are orderly, and they put
something into what they create. Else locks would be granted for segments and clusters that do not
come into being, and could be used after what they are in was deleted.
-/

namespace BlobsDb

open DbTree (BelowNextFree HasLocation Uses Adds)

/-- The entries of a commit are orderly, and they use what they create. -/
structure DbTree.Proper {μ : Type} (t : DbTree μ 3) (us : List BlobData) : Prop where
  orderly : BlobData.Orderly us
  uses : Uses t us

/-- A location that is not one of the database itself is one of a segment or of a cluster. -/
theorem DbTree.HasLocation.of_segment_or_cluster {μ : Type} {t : DbTree μ 3} {l : BlobLocation}
    (h : HasLocation t l)
    (hnext : l.segment = BlobsDb.nextFreeSegmentId → l.cluster ≠ BlobsDb.nextFreeClusterId)
    (hlist : l.blob ≠ blobListId) : l.OfSegment ∧ (t.getSegment l.segment).isSome ∨
      (t.getCluster l.segment l.cluster).isSome := by
  cases h with
  | nextFreeSegmentId => exact absurd rfl (hnext rfl)
  | segmentList => exact absurd rfl hlist
  | nextFreeClusterId hs => exact Or.inl ⟨Or.inl rfl, hs⟩
  | segmentDelete hs => exact Or.inl ⟨Or.inr (Or.inl rfl), hs⟩
  | clusterList hs => exact Or.inl ⟨Or.inr (Or.inr rfl), hs⟩
  | nextFreeBlobId hc => exact Or.inr hc
  | clusterDelete hc => exact Or.inr hc
  | blobList hc => exact Or.inr hc
  | blob hc => exact Or.inr (by rw [hc]; rfl)

/-! ### What a read locks -/

namespace Database

variable {db : Database} {t : Tree 3} {l l' : BlobLocation} {ls : List BlobLocation}
  {mode : LockMode} {s : SegmentId} {c : ClusterId}

/-- The location exists, and the objects on the way to it are loaded. -/
def Located (db : Database) (t : Tree 3) (l : BlobLocation) : Prop :=
  HasLocation t l ∧ db.PathLoaded l

namespace Inv

variable (hinv : db.Inv t) (ht : BelowNextFree t)

include hinv ht

/-- Reserved ids are not there. -/
theorem clusterLoaded_of_reserved (hs : db.SegmentLoaded s) (hc : maxClusterId < c) :
    db.ClusterLoaded s c :=
  hinv.clusterLoaded_of_none hs (Option.not_isSome_iff_eq_none.mp fun hsome =>
    absurd (ht.cluster_le hsome) (not_le.mpr hc))

theorem pathLoaded_of_reserved (hs : maxSegmentId < l.segment) : db.PathLoaded l :=
  hinv.pathLoaded_of_none (Option.not_isSome_iff_eq_none.mp fun hsome =>
    absurd (ht.segment_le hsome) (not_le.mpr hs))

theorem located_segmentList : db.Located t ⟨segmentListId, clusterListId, blobListId⟩ :=
  ⟨.segmentList, hinv.pathLoaded_of_reserved ht (show maxSegmentId < segmentListId by decide)⟩

/-- The special locations of a loaded segment. -/
theorem located_segment (hsome : (t.getSegment s).isSome) (hs : db.SegmentLoaded s)
    (hseg : l.segment = s) (hl : l.OfSegment) : db.Located t l := by
  subst hseg
  exact ⟨.of_segment hsome hl, hs, hinv.clusterLoaded_of_reserved ht hs hl.cluster_lt⟩

omit hinv ht in
/-- The locations of a loaded cluster. -/
theorem located_cluster {x : Tree 1} (hx : t.getCluster s c = some x)
    (hloaded : db.SegmentLoaded s ∧ db.ClusterLoaded s c) :
    ∀ l ∈ ⟨s, c, clusterDeleteId⟩ :: clusterLocations s c x, db.Located t l := by
  have hsome : (t.getCluster s c).isSome := by
    rw [hx]
    rfl
  intro l hl
  simp only [clusterLocations, List.mem_cons, List.mem_map] at hl
  rcases hl with rfl | rfl | rfl | ⟨b, hb, rfl⟩
  · exact ⟨.clusterDelete hsome, hloaded⟩
  · exact ⟨.nextFreeBlobId hsome, hloaded⟩
  · exact ⟨.blobList hsome, hloaded⟩
  · exact ⟨.blob hx (FlatMap.mem_keys.mp hb), hloaded⟩

/-- What has to be locked to delete a segment. -/
theorem located_deleteSegment (hls : forEachLockForLocation t l = some ls)
    (hb : l.blob = clusterDeleteId) (hc : l.cluster = segmentDeleteId)
    (hpaths : ∀ path ∈ lockPaths t l, db.LoadedAlong path) : ∀ l' ∈ ls, db.Located t l' := by
  rw [forEachLockForLocation, if_pos hb, if_pos hc] at hls
  obtain ⟨seg, hs, rfl⟩ := Option.map_eq_some_iff.mp hls
  rw [lockPaths, if_pos hb, if_pos hc, hs] at hpaths
  have hsome : (t.getSegment l.segment).isSome := by
    rw [hs]
    rfl
  have hloaded : db.SegmentLoaded l.segment := (hpaths _ List.mem_cons_self).1
  have hclusters : ∀ e ∈ seg.children.entries, db.ClusterLoaded l.segment e.1 := fun e he => by
    refine (hpaths [l.segment, e.1] (List.mem_cons_of_mem _ ?_)).2 e.1 [] rfl
    exact List.mem_map_of_mem (List.mem_map_of_mem he)
  intro l' hl'
  simp only [List.mem_cons, List.mem_flatMap] at hl'
  rcases hl' with rfl | rfl | rfl | rfl | ⟨e, he, hl'⟩
  · refine hinv.located_segment ht hsome hloaded rfl (Or.inr (Or.inl ?_))
    rw [← hb, ← hc]
  · exact hinv.located_segment ht hsome hloaded rfl (Or.inl rfl)
  · exact hinv.located_segment ht hsome hloaded rfl (Or.inr (Or.inr rfl))
  · exact hinv.located_segmentList ht
  · have hx : t.getCluster l.segment e.1 = some e.2 :=
      DbTree.getCluster_eq_some_iff.mpr ⟨seg, hs, FlatMap.find_eq_some_iff.mpr he⟩
    exact located_cluster hx ⟨hloaded, hclusters e he⟩ l' (List.mem_cons.mpr hl')

/-- What has to be locked to delete a cluster. -/
theorem located_deleteCluster (hls : forEachLockForLocation t l = some ls)
    (hb : l.blob = clusterDeleteId) (hc : l.cluster ≠ segmentDeleteId)
    (hpaths : ∀ path ∈ lockPaths t l, db.LoadedAlong path) : ∀ l' ∈ ls, db.Located t l' := by
  rw [forEachLockForLocation, if_pos hb, if_neg hc] at hls
  obtain ⟨x, hx, rfl⟩ := Option.map_eq_some_iff.mp hls
  rw [lockPaths, if_pos hb, if_neg hc] at hpaths
  have hloaded := hpaths _ (List.mem_singleton_self _)
  have hcluster := located_cluster hx ⟨hloaded.1, hloaded.2 _ _ rfl⟩
  have hsome : (t.getSegment l.segment).isSome :=
    DbTree.isSome_getSegment_of_getCluster (by rw [hx]; rfl)
  intro l' hl'
  simp only [List.mem_cons] at hl'
  rcases hl' with rfl | rfl | rfl | rfl | hl'
  · exact hcluster _ (by rw [← hb]; exact List.mem_cons_self)
  · exact hcluster _ (by simp [clusterLocations])
  · exact hcluster _ (by simp [clusterLocations])
  · exact hinv.located_segment ht hsome hloaded.1 rfl (Or.inr (Or.inr rfl))
  · exact hcluster l' (by simp [clusterLocations, hl'])

/-- A location that a read asks for, unless it is for deleting something. -/
theorem located_requested (hb : l.blob ≠ clusterDeleteId) (hreq : (requested mode t l).2 = none)
    (hpath : db.LoadedAlong (requested mode t l).1) : db.Located t l := by
  obtain ⟨s, c, b⟩ := l
  simp only at hb
  simp only [requested, hb, false_and, and_false, if_false] at hreq hpath
  -- the lists exist with what they are lists of
  by_cases hlist : b = blobListId
  · subst hlist
    simp only [if_true] at hreq hpath
    by_cases hc : c = clusterListId
    · subst hc
      simp only [if_true] at hreq hpath
      by_cases hs : s = segmentListId
      · subst hs
        exact hinv.located_segmentList ht
      · simp only [if_neg hs] at hreq hpath
        split_ifs at hreq with hsome
        exact hinv.located_segment ht hsome hpath.1 rfl (Or.inr (Or.inr rfl))
    · simp only [if_neg hc] at hreq hpath
      split_ifs at hreq with hsome
      obtain ⟨x, hx⟩ := Option.isSome_iff_exists.mp hsome
      exact located_cluster hx ⟨hpath.1, hpath.2 c [] rfl⟩ _ (by simp [clusterLocations])
  · simp only [if_neg hlist] at hreq hpath
    split_ifs at hreq with hblob
    unfold DbTree.hasBlob at hblob
    unfold BlobLocation.path at hpath
    simp only at hblob hpath
    split_ifs at hblob hpath with hnext hsegment hcluster
    · -- the next free ids of the database, of a segment and of a cluster, and then blobs
      obtain ⟨rfl, rfl, rfl⟩ := hnext
      exact ⟨.nextFreeSegmentId,
        hinv.pathLoaded_of_reserved ht (show maxSegmentId < nextFreeSegmentId by decide)⟩
    · obtain ⟨rfl, rfl⟩ := hsegment
      split at hblob
      · cases hblob
      · next seg hs =>
        exact hinv.located_segment ht (by rw [hs]; rfl) hpath.1 rfl (Or.inl rfl)
    · subst hcluster
      split at hblob
      · cases hblob
      · next seg hs =>
        split at hblob
        · cases hblob
        · next x hx =>
          exact located_cluster (DbTree.getCluster_eq_some_iff.mpr ⟨seg, hs, hx⟩)
            ⟨hpath.1, hpath.2 c [] rfl⟩ _ (by simp [clusterLocations])
    · split at hblob
      · cases hblob
      · next seg hs =>
        split at hblob
        · cases hblob
        · next x hx =>
          rw [Bool.or_eq_true, decide_eq_true_eq] at hblob
          have hb := hblob.resolve_left hcluster
          exact ⟨.blob (DbTree.getCluster_eq_some_iff.mpr ⟨seg, hs, hx⟩) hb, hpath.1,
            hpath.2 c [b] rfl⟩

/-- What has to be locked for a location that a read asks for. -/
theorem located_forEachLock (hls : forEachLockForLocation t l = some ls)
    (hreq : (requested mode t l).2 = none) (hpaths : ∀ path ∈ (requested mode t l).1 ::
      lockPaths t l, db.LoadedAlong path) : ∀ l' ∈ ls, db.Located t l' := by
  obtain ⟨hpath, hpaths⟩ := List.forall_mem_cons.mp hpaths
  by_cases hb : l.blob = clusterDeleteId
  · by_cases hc : l.cluster = segmentDeleteId
    · exact hinv.located_deleteSegment ht hls hb hc hpaths
    · exact hinv.located_deleteCluster ht hls hb hc hpaths
  · have hself := hinv.located_requested ht hb hreq hpath
    rw [forEachLockForLocation, if_neg hb] at hls
    split_ifs at hls with hn hc hs
    · obtain rfl := Option.some.inj hls
      intro l' hl'
      rcases List.mem_cons.mp hl' with rfl | hl'
      · exact hself
      · exact List.mem_singleton.mp hl' ▸ hinv.located_segmentList ht
    · obtain rfl := Option.some.inj hls
      have hsome : (t.getSegment l.segment).isSome :=
        (hself.1.of_segment_or_cluster (absurd · hs) (hn ▸ by decide)).elim (·.2)
          DbTree.isSome_getSegment_of_getCluster
      intro l' hl'
      rcases List.mem_cons.mp hl' with rfl | hl'
      · exact hself
      · exact List.mem_singleton.mp hl' ▸
          hinv.located_segment ht hsome hself.2.1 rfl (Or.inr (Or.inr rfl))
    · obtain rfl := Option.some.inj hls
      have hsome : (t.getCluster l.segment l.cluster).isSome := by
        refine (hself.1.of_segment_or_cluster (fun _ => hc) (hn ▸ by decide)).resolve_left ?_
        rintro ⟨hl | hl | hl, -⟩
        · exact hc (congrArg BlobLocation.cluster hl)
        · exact absurd (hn.symm.trans (congrArg BlobLocation.blob hl))
            (show nextFreeBlobId ≠ clusterDeleteId by decide)
        · exact absurd (hn.symm.trans (congrArg BlobLocation.blob hl))
            (show nextFreeBlobId ≠ blobListId by decide)
      obtain ⟨x, hx⟩ := Option.isSome_iff_exists.mp hsome
      intro l' hl'
      rcases List.mem_cons.mp hl' with rfl | hl'
      · exact hself
      · exact List.mem_singleton.mp hl' ▸
          located_cluster hx hself.2 _ (by simp [clusterLocations])
    · obtain rfl := Option.some.inj hls
      intro l' hl'
      exact List.mem_singleton.mp hl' ▸ hself

end Inv

/-! ### Proper commits -/

/-- The commits that are applied as they mean it, and that keep the ids below the next free ids. -/
def Keeps (db : Database) (us : List BlobData) : Prop :=
  db.CopiesLoaded us ∧ ∀ t : Tree 3, db.Inv t → BelowNextFree t →
    ∀ m : Mark, BelowNextFree (DbTree.updates m us t)

theorem belowNextFree_logical {n : ℕ} {t : Tree n} :
    BelowNextFree (Tree.logical t) ↔ BelowNextFree t :=
  DbTree.belowNextFree_changeMark Mark.commitId

theorem belowNextFree_onFile {t : Tree 3} (ht : BelowNextFree t) : BelowNextFree t.onFile := by
  rw [← belowNextFree_logical, Tree.logical_onFile]
  exact belowNextFree_logical.mpr ht

theorem New.belowNextFree {db : Database} (h : New db) : ∃ t, db.Inv t ∧ BelowNextFree t := by
  rcases h with rfl | h
  · exact ⟨_, inv_initializeInMemory, DbTree.belowNextFree_created _ 3⟩
  · obtain ⟨db', h1, h2, -⟩ := Initial.exists_readInitialFileDatabaseData
    obtain rfl := Option.some.inj (h1.symm.trans h)
    refine ⟨_, h2, belowNextFree_onFile (belowNextFree_logical.mp ?_)⟩
    exact DbTree.belowNextFree_created (1 : CommitId) 3

/-- What a commit leaves keeps its ids below the next free ids. -/
theorem Keeps.belowNextFree {db : Database} {us : List BlobData} {t t' : Tree 3}
    (h : db.Keeps us) (hinv : db.Inv t) (ht : BelowNextFree t) {k : CommitId}
    (hlogical : Tree.logical t' = DbTree.updates k us (Tree.logical t)) : BelowNextFree t' := by
  -- any mark with this commit id will do
  let m : Mark := { t.mark with commitId := k }
  rw [← belowNextFree_logical, hlogical]
  have hupdates : DbTree.updates k us (Tree.logical t) = Tree.logical (DbTree.updates m us t) :=
    (DbTree.changeMark_updates Mark.commitId m us t).symm
  rw [hupdates, belowNextFree_logical]
  exact h.2 t hinv ht m

theorem Step.belowNextFree {db db' : Database} {t : Tree 3} (hstep : Step Keeps db db')
    (hinv : db.Inv t) (ht : BelowNextFree t) : ∃ t', db'.Inv t' ∧ BelowNextFree t' := by
  cases hstep with
  | load hn hk hload => exact ⟨t, hinv.loads (Heap.loads_of_ensureLoaded hinv.wf hn hk hload).1, ht⟩
  | beginMVCC => exact ⟨t, hinv.beginMVCC, ht⟩
  | endMVCC => exact ⟨t, hinv.endMVCC, ht⟩
  | commit ha hc =>
    obtain ⟨t', lost, hcommitted, hclean⟩ := hinv.commit hc.commitId hc.result hc.walks hc.endOffset
    exact ⟨t', hcommitted.inv, ha.belowNextFree hinv ht (hclean ha.1).1⟩
  | reopen hopen => exact ⟨_, (hinv.exists_reopen hopen).1, belowNextFree_onFile ht⟩
  | stop ha hc hg hopen =>
    obtain ⟨t', lost, hcommitted, hclean⟩ := hinv.commit hc.commitId hc.result hc.walks hc.endOffset
    obtain ⟨s, L, db'', hs, hL, h1, h2⟩ := hinv.exists_open_of_stop hcommitted hg
    obtain rfl := Option.some.inj (h1.symm.trans hopen)
    rcases h2 with ⟨hinv', -⟩ | ⟨hinv', -⟩
    · exact ⟨_, hinv', belowNextFree_onFile ht⟩
    · exact ⟨_, hinv', belowNextFree_onFile (ha.belowNextFree hinv ht (hclean ha.1).1)⟩

/-- In runs of such commits all ids are below the next free ids. -/
theorem Reachable.belowNextFree {db : Database} (h : Reachable Keeps db) :
    ∃ t, db.Inv t ∧ BelowNextFree t := by
  obtain ⟨db₀, hnew, hsteps⟩ := h
  induction hsteps with
  | refl => exact hnew.belowNextFree
  | tail _ hstep ih =>
    obtain ⟨t, hinv, ht⟩ := ih
    exact hstep.belowNextFree hinv ht

end Database

/-! ### The server -/

namespace Server

variable {s s' s₂ : Server} {c : ClientId} {name : DatabaseName} {od₀ od od' : OpenDatabase}

theorem located_forEachLockInMessage {db : Database} {t : Tree 3} (hinv : db.Inv t)
    (ht : BelowNextFree t) {mode : LockMode} {as : List BlobAddress} {ls : List BlobLocation}
    (hls : forEachLockInMessage t as = some ls)
    (hreq : ∀ a ∈ as, (Database.requested mode t a.toBlobLocation).2 = none)
    (hloaded : ∀ a ∈ as, ∀ path ∈ (Database.requested mode t a.toBlobLocation).1 ::
      lockPaths t a.toBlobLocation, db.LoadedAlong path) : ∀ l ∈ ls, db.Located t l := by
  induction as generalizing ls with
  | nil =>
    obtain rfl := Option.some.inj hls
    exact fun _ hl => nomatch hl
  | cons a as ih =>
    rw [forEachLockInMessage] at hls
    split at hls
    · next ls₁ ls₂ h1 h2 =>
      obtain rfl := Option.some.inj hls
      obtain ⟨hreq, hreqs⟩ := List.forall_mem_cons.mp hreq
      obtain ⟨hpath, hpaths⟩ := List.forall_mem_cons.mp hloaded
      intro l hl
      rcases List.mem_append.mp hl with hl | hl
      · exact hinv.located_forEachLock ht h1 hreq hpath l hl
      · exact ih h2 hreqs hpaths l hl
    · cases hls

/-- The databases are those of runs of proper commits, and all locks are on locations. -/
structure Ordered (s : Server) : Prop where
  locksWF : LocksWF s
  sound : Sound Database.Keeps s
  located : ∀ name od t, s.databases name = some od → od.database.Inv t →
    ∀ l c, od.locks.HeldBy l c → od.database.Located t l

namespace Ordered

theorem healthy (h : Ordered s) : Healthy s where
  databases name od hod := (h.sound.databases name od hod).mono fun _ _ _ => trivial
  files name f hf := by
    obtain ⟨db, hdb, heq⟩ := h.sound.files name f hf
    exact ⟨db, hdb.mono fun _ _ _ => trivial, heq⟩

theorem belowNextFree (h : Ordered s) (hod : s.databases name = some od) :
    ∃ t, od.database.Inv t ∧ BelowNextFree t := (h.sound.databases name od hod).belowNextFree

/-- A database that changes. -/
theorem setDatabase (h : Ordered s) (hlocks : LocksWF (s.setDatabase name od))
    (hreach : od.database.Reachable Database.Keeps)
    (hlocated : ∀ t, od.database.Inv t → ∀ l c, od.locks.HeldBy l c → od.database.Located t l) :
    Ordered (s.setDatabase name od) := by
  refine ⟨hlocks, h.sound.setDatabase hreach, fun name' od' t hod' hinv => ?_⟩
  by_cases hne : name' = name
  · subst hne
    rw [databases_setDatabase_self] at hod'
    obtain rfl := Option.some.inj hod'
    exact hlocated t hinv
  · rw [databases_setDatabase_of_ne hne] at hod'
    exact h.located name' od' t hod' hinv

/-- What changes in a database apart from commits. -/
theorem change (h : Ordered s) (hod : s.databases name = some od)
    (hchange : od.Change .noCommits s name od') : Ordered (s.setDatabase name od') := by
  have hreach : od'.database.Reachable Database.Keeps := reachable_of_change hchange hod
    (fun _ _ _ _ _ _ _ _ _ hpermit => False.elim hpermit) (h.sound.databases _ _ hod)
  refine h.setDatabase (h.locksWF.change hod hchange) hreach ?_
  obtain ⟨t, hinv, ht⟩ := h.belowNextFree hod
  have hlocated := h.located name od t hod hinv
  have hagrees := h.locksWF.agrees name
  rw [locks_of_some hod] at hagrees
  -- the same objects, with other books of locks
  have hsame : ∀ {db : Database} {book : LockBook BlobLocation ClientId}, db.Inv t →
      (∀ l, od.database.PathLoaded l → db.PathLoaded l) →
      (∀ l c, book.HeldBy l c → od.locks.HeldBy l c ∨ od.database.Located t l) →
      ∀ t', db.Inv t' → ∀ l c, book.HeldBy l c → db.Located t' l := by
    intro db book hdb hpath hbook t' hinv' l c hheld
    obtain rfl := Option.some.inj (hdb.view.symm.trans hinv'.view)
    have hl := (hbook l c hheld).elim (hlocated l c) id
    exact ⟨hl.1, hpath l hl.2⟩
  cases hchange with
  | used => exact hsame hinv (fun _ => id) fun _ _ => Or.inl
  | queued => exact hsame hinv (fun _ => id) fun _ _ => Or.inl
  | looked hp hl =>
    have hloads := hl.loads hinv.wf ((h.sound.databases _ _ hod).path_of_snapshotFor hp)
    exact hsame (hloads.inv hinv) (fun _ => hinv.pathLoaded hloads) fun _ _ => Or.inl
  | beganMVCC => exact hsame hinv.beginMVCC (fun _ => id) fun _ _ => Or.inl
  | endedMVCC => exact hsame hinv.endMVCC (fun _ => id) fun _ _ => Or.inl
  | granted _ hgrant =>
    refine hsame hinv (fun _ => id) fun l d hheld => ?_
    refine (LockBook.heldBy_of_acquireLocks hagrees.wf hheld).imp_right fun hl => ?_
    obtain rfl := Option.some.inj (hgrant.tree.symm.trans hinv.view)
    exact located_forEachLockInMessage hinv ht hgrant.locks hgrant.requested hgrant.loaded l hl.2
  | gaveUp _ _ hbook =>
    exact hsame hinv (fun _ => id) fun _ _ hheld => Or.inl (LockBook.heldBy_of_releaseHeld hbook hheld)
  | released _ hbook =>
    exact hsame hinv (fun _ => id) fun _ _ hheld => Or.inl (LockBook.heldBy_of_releaseAll hbook hheld)
  | told => exact hsame hinv (fun _ => id) fun _ _ => Or.inl
  | committed _ _ hpermit => exact False.elim hpermit

end Ordered

theorem Move.ordered (hmove : Move .noCommits s s') (h : Ordered s) : Ordered s' := by
  have hlocks := hmove.locksWF h.locksWF
  have hsound := hmove.sound (fun _ _ _ _ _ _ _ _ _ hpermit => False.elim hpermit) h.sound
  cases hmove with
  | opened hnone hdb =>
    refine h.setDatabase hlocks (hdb.reachable h.sound) fun t _ l c hheld => ?_
    obtain ⟨_, hlock, -⟩ := hheld
    cases hlock
  | @closed name huse =>
    refine ⟨hlocks, hsound, fun name' od t hod hinv => ?_⟩
    rw [closeDatabase_databases, Function.update_apply] at hod
    split_ifs at hod
    exact h.located name' od t hod hinv
  | database hod hchange => exact h.change hod hchange
  | _ => exact ⟨hlocks, hsound, h.located⟩

theorem Moves.ordered (hmoves : Moves .noCommits s s') (h : Ordered s) : Ordered s' := by
  induction hmoves with
  | refl => exact h
  | tail _ hmove ih => exact hmove.ordered ih

/-! ### Commits -/

namespace Ordered

/-- The messages of a proper commit that are valid for a database have passed. -/
theorem passes (h : Ordered s) {g : DatabaseId × List TransactionCommit} {ls : List BlobLocation}
    (hv : Validates s c g ls name od₀ od)
    (hproper : s.PermitsCommit DbTree.Proper c g) : ∃ t created,
      ls = BlobCreationRanges.implicitLocks (od₀.locks.ownsWriteLock c) created ∧
      Validation.Passes (od₀.locks.ownsWriteLock c) t (g.2.flatMap TransactionCommit.blobs)
        ⟨od.database, created⟩ ∧
      BelowNextFree t ∧ DbTree.Proper t (g.2.flatMap TransactionCommit.blobs) ∧
      od₀.database.Inv t := by
  obtain ⟨t, hinv, ht⟩ := h.belowNextFree hv.databases
  have hproper : DbTree.Proper t (g.2.flatMap TransactionCommit.blobs) := by
    refine hproper name hv.getDatabase t ?_
    rw [Option.mem_def, tree_of_some hv.databases]
    exact hinv.view
  have hown : ∀ l, od₀.locks.ownsWriteLock c l = true → od₀.database.Located t l := fun l ho =>
    h.located name od₀ t hv.databases hinv l c (LockBook.heldBy_of_ownsWriteLock ho)
  obtain ⟨created, hls, hpasses⟩ := hinv.passes ht hown hproper.orderly hv.validated
  exact ⟨t, created, hls, hpasses, ht, hproper, hinv⟩

/-- What is granted implicitly is not there yet, so nobody holds it. -/
theorem free_implicitLocks (h : Ordered s) {t : Tree 3} {us : List BlobData}
    {created : BlobCreationRanges} {own : BlobLocation → Bool} (hod : s.databases name = some od)
    (hactive : s.active c = true) (hpasses : Validation.Passes own t us ⟨od.database, created⟩)
    (ht : BelowNextFree t) : od.locks.Free s.active c (created.implicitLocks own) := by
  have hagrees := h.locksWF.agrees name
  rw [locks_of_some hod] at hagrees
  have hspec := hpasses.ledger.sound.implicitLocks_spec own
  refine hagrees.free hactive hspec.1 fun l hl d hheld => ?_
  exact (hpasses.ledger.sound.encompassed l ((hspec.2 l).mp hl).1).not_hasLocation ht
    (h.located name od t hod hpasses.ledger.inv l d hheld).1

/-- Applying such messages. -/
theorem commitDatabase (h : Ordered s) (h₂ : Ordered s₂)
    {g : DatabaseId × List TransactionCommit} {ls : List BlobLocation} {σ : Schedule}
    (hactive : s₂.active c = true) (hname : name ∈ s₂.openNames c)
    (hod : s₂.databases name = some od) (hv : Validates s c g ls name od₀ od)
    (hproper : s.PermitsCommit DbTree.Proper c g)
    (hcommit : Server.commitDatabase c (g.2.flatMap TransactionCommit.blobs) σ ls od = some od') :
    Ordered (s₂.setDatabase name od') := by
  obtain ⟨t, created, rfl, hpasses, ht, hproper, -⟩ := h.passes hv hproper
  have hlocks : od.locks = od₀.locks := by rw [hv.eq]
  have hagrees := h₂.locksWF.agrees name
  rw [locks_of_some hod] at hagrees
  have hinv := hpasses.ledger.inv
  have hadm := hpasses.admissible ht hproper.orderly.2
  have hspec := hpasses.ledger.sound.implicitLocks_spec (od₀.locks.ownsWriteLock c)
  have hlocated := h₂.located name od t hod hinv
  -- what is granted is not there yet, so nobody holds it
  have hgranted : ∀ l ∈ created.implicitLocks (od₀.locks.ownsWriteLock c),
      created.encompasses l = true ∧ l.Regular ∧ ¬HasLocation t l := fun l hl => by
    obtain ⟨hin, hregular, -⟩ := (hspec.2 l).mp hl
    exact ⟨hin, hregular, (hpasses.ledger.sound.encompassed l hin).not_hasLocation ht⟩
  have hfree := h₂.free_implicitLocks hod hactive hpasses ht
  have hlocksWF := h₂.locksWF.commitDatabase hod hactive hname hfree hcommit
  obtain ⟨r, book, hcommits, hbook, rfl⟩ := commitDatabase_eq_some hcommit
  obtain ⟨t', hinv', hdeleted, -, -, hlocations⟩ := hpasses.exists_commit hadm hcommits
  have hkeeps : od.database.Keeps (g.2.flatMap TransactionCommit.blobs) := by
    refine ⟨hpasses.copiesLoaded, fun t₁ hinv₁ _ m => ?_⟩
    obtain rfl := Option.some.inj (hinv.view.symm.trans hinv₁.view)
    exact hadm.after.below
  refine h₂.setDatabase hlocksWF ((h₂.sound.databases _ _ hod).step (.commit hkeeps hcommits)) ?_
  intro t'' hinv'' l d hheld
  obtain rfl := Option.some.inj (hinv'.view.symm.trans hinv''.view)
  have hbefore := LockBook.heldBy_of_acquireImplicitWriteLocks hagrees.wf
    (LockBook.heldBy_of_releaseIf hbook hheld)
  -- what the commit deletes is given up, as only this client had it
  have hnot : ∀ u ∈ g.2.flatMap TransactionCommit.blobs, ¬u.Deletes l := fun u hu hdel => by
    have hd : d = c := by
      rcases hbefore with hold | ⟨rfl, -⟩
      · have ho := hpasses.owned u hu l hdel (hlocated l d hold).1
        rw [← hlocks] at ho
        exact LockBook.eq_of_ownsWriteLock hagrees.wf ho hold
      · rfl
    subst hd
    have hgrants := hagrees.acquireImplicitWriteLocks hactive hfree
    refine hgrants.not_heldBy_of_releaseIf (hgrants.active d hactive) hbook ?_ hheld
    rw [hdeleted, BlobData.isDeleted_foldl_noted]
    exact Or.inr ⟨u, hu, hdel⟩
  have hexists : HasLocation (DbTree.updates t.mark (g.2.flatMap TransactionCommit.blobs) t) l ∧
      od.database.PathLoaded l := by
    rcases hbefore with hold | ⟨-, hl⟩
    · exact ⟨(hlocated l d hold).1.updates hnot, (hlocated l d hold).2⟩
    · obtain ⟨hin, hregular, hnone⟩ := hgranted l hl
      refine ⟨Adds.hasLocation ?_ ht hproper.uses hnot, hpasses.ledger.loaded l hin⟩
      refine (hpasses.encompasses_iff_adds hproper.orderly.1 (fun l ho => ?_) hnone).mp
        ⟨hin, hregular⟩
      rw [← hlocks] at ho
      exact (hlocated l c (LockBook.heldBy_of_ownsWriteLock ho)).1
  have hsegment := hinv.segmentLoaded_commit hcommits hexists.2.1
  exact ⟨(hlocations t.mark l).mpr hexists.1, hsegment,
    hinv.clusterLoaded_commit hcommits hexists.2.1 hexists.2.2⟩

theorem finishCommit {σ : DatabaseName → Schedule} {ms : List TransactionCommit} (h : Ordered s)
    (hfinish : s.finishCommit c σ ms = some s') (hactive : s.active c = true) (hwf : UsersWF s)
    (hproper : s.PermitsCommits DbTree.Proper c ms) :
    Ordered s' := by
  refine finishCommit_keeps hfinish hactive hwf h.healthy
    (fun hmoves => (hmoves.mono (Permit.noBegins_le trivial)).ordered) ?_ h
  intro gs ls s₁ hgs hvalid p hp s₂ name od₀ od od' hactive₂ hopen hod hv hcommit h₂
  refine h.commitDatabase h₂ (hactive₂ ▸ hactive) ?_ hod hv
    (hproper gs hgs ls s₁ hvalid p.1 (List.of_mem_zip hp).1) hcommit
  rw [hopen]
  exact mem_openNames_of_getDatabase hv.getDatabase

end Ordered

/-- Steps whose commits are proper keep the order. -/
theorem Step.ordered {e : Event} (hstep : Step s e s') (hwf : UsersWF s) (h : Ordered s)
    (hproper : s.CommitsOrderly DbTree.Proper e) : Ordered s' := by
  have hother : s.CommitsOrderly (fun _ _ => False) e → Ordered s' := fun hnone =>
    (Step.moves (P := .noCommits) hstep hwf h.healthy (fun _ => trivial) (fun _ => trivial)
      (fun _ => trivial) hnone).ordered h
  cases e with
  | transactionCommit c m σ =>
    obtain ⟨-, hhandle⟩ := hstep
    change s.handleTransactionCommit c m σ = some s' at hhandle
    unfold handleTransactionCommit at hhandle
    split_ifs at hhandle with hactive hfollow
    · obtain rfl := Option.some.inj hhandle
      exact (Move.send c _).ordered h
    · obtain rfl := Option.some.inj hhandle
      have hmove : Move .noCommits s (s.setClient c
          { s.clients c with commitMessages := (s.clients c).commitMessages ++ [m] }) :=
        .client rfl rfl
      exact hmove.ordered h
    · rw [Bool.not_eq_true'] at hactive
      have hactive := Bool.of_not_eq_false hactive
      have hmove : Move .noCommits s (s.setClient c
          { s.clients c with commitMessages := (s.clients c).commitMessages ++ [m] }) :=
        .client rfl rfl
      refine (hmove.ordered h).finishCommit hhandle ?_ (hwf.setClient rfl)
        (hproper hactive (Bool.eq_false_iff.mpr hfollow))
      have hactives : (s.setClient c { s.clients c with
          commitMessages := (s.clients c).commitMessages ++ [m] }).active = s.active :=
        active_setClient_of_eq rfl
      rw [hactives, hactive]
  | _ => exact hother trivial

theorem ordered_start {files : DatabaseName → Option FileContent} {delay : ℕ}
    (hfiles : ∀ name f, files name = some f →
      ∃ db : Database, db.Reachable Database.Keeps ∧ db.file = f) : Ordered (start files delay) where
  locksWF := locksWF_start files delay
  sound := ⟨fun _ _ hod => (nomatch hod), hfiles⟩
  located _ _ _ hod := nomatch hod

end Server

end BlobsDb
