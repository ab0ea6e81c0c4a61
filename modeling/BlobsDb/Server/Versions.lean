import BlobsDb.Server.Snapshots

/-!
# Versions

What is read comes with a commit id, and a client that has the content of this commit id already is
not sent it again. So the commit id has to tell the content. A commit gives the objects it makes its
own id, and shares all others (`Tree.RenewedBy`), so two reads of a location with the same commit id
find the same content (`content_eq_of_commitId_eq`), except for next free ids: the next free segment
id keeps its commit id when a commit writes it (`not_content_eq_of_commitId_eq`), and the commit ids
of the others are not in the file.
-/

namespace BlobsDb

/-- The location of the next free segment id. -/
def BlobLocation.IsNextFreeSegment (l : BlobLocation) : Prop :=
  l.segment = nextFreeSegmentId ∧ l.cluster = nextFreeClusterId ∧ l.blob = nextFreeBlobId

/-- The version of the location is stored in the file. -/
def BlobLocation.VersionStored (l : BlobLocation) : Prop :=
  l.blob = nextFreeBlobId → l.IsNextFreeSegment

namespace Tree

variable {t t' : Tree 3} {k k' : CommitId} {l : BlobLocation} {v : VersionedContent}
  {seen : Set VersionedContent} {segment : SegmentId} {cluster : ClusterId}

/-! ### Subtrees -/

/-- The subtree at a segment id is the segment. -/
theorem getSegment_of_sub {s : Tree 2} (h : t.Sub [segment] 2 s) :
    t.getSegment segment = some s := by
  obtain ⟨r, hr, hs⟩ := LevelTree.Sub.exists_parent (p := []) h
  rw [hr.eq_root] at hs
  exact hs

/-- The subtree at a cluster is the cluster. -/
theorem getCluster_of_sub {c : Tree 1} (h : t.Sub [segment, cluster] 1 c) :
    t.getCluster segment cluster = some c := by
  obtain ⟨s, hs, hc⟩ := LevelTree.Sub.exists_parent (p := [segment]) h
  rw [DbTree.getCluster, getSegment_of_sub hs]
  exact hc

theorem sub_of_getSegment {s : Tree 2} (h : t.getSegment segment = some s) :
    t.Sub [segment] 2 s := LevelTree.Sub.root.child h

theorem sub_of_getCluster {c : Tree 1} (h : t.getCluster segment cluster = some c) :
    t.Sub [segment, cluster] 1 c := by
  obtain ⟨s, hs, hc⟩ := DbTree.getCluster_eq_some_iff.mp h
  exact (sub_of_getSegment hs).child hc

/-! ### What is read -/

/-- The next free segment id is read with the id of the snapshot. -/
theorem readContent_of_isNextFreeSegment (hl : l.IsNextFreeSegment) (t : Tree 3) (k : CommitId) :
    t.readContent k l = some ⟨k, leBytes 4 (LevelTree.Inner.info t).toNat⟩ := by
  have hblob : l.blob ≠ blobListId := by
    rw [hl.2.2]
    decide
  exact (if_neg hblob).trans (if_pos hl)

/-- What is read at a location is told by one subtree, and has its version. -/
theorem exists_sub_of_readContent (hl : ¬l.IsNextFreeSegment) (hv : t.readContent k l = some v) :
    ∃ (path : List UInt32) (n : ℕ) (s : Tree n), t.Sub path n s ∧
      (v.commitId = s.mark.commitId ∨ v.commitId = s.mark.nextFreeIdCommit) ∧
      ∀ (t' : Tree 3) (k' : CommitId), t'.Sub path n s → t'.readContent k' l = some v := by
  unfold readContent at hv
  split_ifs at hv with hblob hcluster hsegment hnext hseg hclu
  · obtain rfl := Option.some.inj hv
    refine ⟨[], 3, t, .root, Or.inl rfl, fun t' k' ht' => ?_⟩
    rw [ht'.eq_root, readContent, if_pos hblob, if_pos hcluster, if_pos hsegment]
  · obtain ⟨s, hs, rfl⟩ := Option.map_eq_some_iff.mp hv
    refine ⟨[l.segment], 2, s, sub_of_getSegment hs, Or.inl rfl, fun t' k' ht' => ?_⟩
    rw [readContent, if_pos hblob, if_pos hcluster, if_neg hsegment, getSegment_of_sub ht']
    rfl
  · obtain ⟨c, hc, rfl⟩ := Option.map_eq_some_iff.mp hv
    refine ⟨_, 1, c, sub_of_getCluster hc, Or.inl rfl, fun t' k' ht' => ?_⟩
    rw [readContent, if_pos hblob, if_neg hcluster, getCluster_of_sub ht']
    rfl
  · exact absurd hnext hl
  · obtain ⟨s, hs, rfl⟩ := Option.map_eq_some_iff.mp hv
    refine ⟨[l.segment], 2, s, sub_of_getSegment hs, Or.inr rfl, fun t' k' ht' => ?_⟩
    rw [readContent, if_neg hblob, if_neg hnext, if_pos hseg, getSegment_of_sub ht']
    rfl
  · obtain ⟨c, hc, rfl⟩ := Option.map_eq_some_iff.mp hv
    refine ⟨_, 1, c, sub_of_getCluster hc, Or.inr rfl, fun t' k' ht' => ?_⟩
    rw [readContent, if_neg hblob, if_neg hnext, if_neg hseg, if_pos hclu, getCluster_of_sub ht']
    rfl
  · obtain ⟨c, hc, hv⟩ := Option.bind_eq_some_iff.mp hv
    obtain ⟨b, hb, rfl⟩ := Option.map_eq_some_iff.mp hv
    refine ⟨[l.segment, l.cluster] ++ [l.blob], 0, b, (sub_of_getCluster hc).child hb, Or.inl rfl,
      fun t' k' ht' => ?_⟩
    obtain ⟨c', hc', hb'⟩ := ht'.exists_parent
    rw [readContent, if_neg hblob, if_neg hnext, if_neg hseg, if_neg hclu, getCluster_of_sub hc',
      Option.bind_some, hb']
    rfl

/-- The version of the next free segment id does not matter elsewhere. -/
theorem readContent_eq_of_not (hl : ¬l.IsNextFreeSegment) (hv : t.readContent k l = some v)
    (k' : CommitId) : t.readContent k' l = some v := by
  obtain ⟨path, n, s, hs, -, hread⟩ := exists_sub_of_readContent hl hv
  exact hread t k' hs

/-- What is read after a commit was read before, or has the id of the commit. -/
theorem RenewedBy.readContent (h : t'.RenewedBy k t) (hl : ¬l.IsNextFreeSegment)
    (hv : t'.readContent k' l = some v) : v.commitId = k ∨ t.readContent k' l = some v := by
  obtain ⟨path, n, s, hs, hversion, hread⟩ := exists_sub_of_readContent hl hv
  rcases h path n s hs with hold | ⟨hcommit, horigin⟩
  · exact Or.inr (hread t k' hold)
  · refine Or.inl ?_
    rw [Mark.nextFreeIdCommit, horigin] at hversion
    exact hversion.elim (·.trans hcommit) (·.trans hcommit)

/-- What is read does not depend on where the nodes come from. -/
theorem readContent_onFile (hl : l.VersionStored) (t : Tree 3) (k : CommitId) :
    t.onFile.readContent k l = t.readContent k l := by
  by_cases hnext : l.IsNextFreeSegment
  · rw [readContent_of_isNextFreeSegment hnext, readContent_of_isNextFreeSegment hnext]
    rfl
  · have hblob : l.blob ≠ nextFreeBlobId := fun heq => hnext (hl heq)
    have hlist : ∀ {n : ℕ} (t : Tree (n + 1)),
        (⟨t.onFile.mark.commitId, idListContent t.onFile.children.keys⟩ : VersionedContent) =
          ⟨t.mark.commitId, idListContent t.children.keys⟩ := fun t => by
      rw [onFile, DbTree.children_changeMark, FlatMap.keys_map, DbTree.changeMark,
        LevelTree.mark_mapMark]
    have hsegment : ∀ s, t.onFile.getSegment s = (t.getSegment s).map onFile :=
      fun s => DbTree.getSegment_changeMark _ t
    have hcluster : ∀ s c, t.onFile.getCluster s c = (t.getCluster s c).map onFile :=
      fun s c => DbTree.getCluster_changeMark _ t
    unfold readContent
    rw [hsegment, hcluster]
    split_ifs with h1 h2 h3 h4 h5
    · exact congrArg some (hlist t)
    · rw [Option.map_map]
      exact congrArg (Option.map · _) (funext fun s => hlist s)
    · rw [Option.map_map]
      exact congrArg (Option.map · _) (funext fun c => hlist c)
    · exact absurd h4 hnext
    · exact absurd h5.2 hblob
    · rw [Option.bind_map]
      refine congrArg (Option.bind _) (funext fun c => ?_)
      rw [Function.comp_apply, onFile, DbTree.find_changeMark, Option.map_map]
      rfl

/-- The versions of a database are at most as young as its last commit. -/
theorem le_of_readContent (ht : t.AllMarks fun m => m.commitId ≤ k') (hl : ¬l.IsNextFreeSegment)
    (hv : t.readContent k l = some v) : v.commitId ≤ k' ∨ v.commitId = unknownCommitId := by
  obtain ⟨path, n, s, hs, hversion, -⟩ := exists_sub_of_readContent hl hv
  have hmark : s.mark.commitId ≤ k' := (hs.allMarks ht).mark
  rcases hversion with heq | heq
  · exact Or.inl (heq.trans_le hmark)
  · rw [Mark.nextFreeIdCommit] at heq
    cases horigin : s.mark.origin with
    | file =>
      rw [horigin] at heq
      exact Or.inr heq
    | commit j =>
      rw [horigin] at heq
      exact Or.inl (heq.trans_le hmark)

/-! ### What was seen -/

/-- What may be read at a location. -/
def reads (t : Tree 3) (l : BlobLocation) : Set VersionedContent :=
  {v | ∃ k, t.readContent k l = some v}

/-- The versions of what was seen at a location tell the content, and include what may be read now.
Unless it is the next free segment id that is read, none is younger than the tree. -/
structure Identifies (l : BlobLocation) (seen : Set VersionedContent) (t : Tree 3) : Prop where
  read : t.reads l ⊆ seen
  content : ∀ v ∈ seen, ∀ w ∈ seen, v.commitId = w.commitId → v.content = w.content
  next : l.IsNextFreeSegment → ∀ v ∈ seen, v.content = leBytes 4 (LevelTree.Inner.info t).toNat
  old : ¬l.IsNextFreeSegment → ∀ v ∈ seen,
    v.commitId ≤ t.mark.commitId ∨ v.commitId = unknownCommitId

theorem reads_of_isNextFreeSegment (hl : l.IsNextFreeSegment) (hv : v ∈ t.reads l) :
    v.content = leBytes 4 (LevelTree.Inner.info t).toNat := by
  obtain ⟨k, hk⟩ := hv
  rw [readContent_of_isNextFreeSegment hl] at hk
  rw [← Option.some.inj hk]

/-- A location other than the next free segment id is read in one version only. -/
theorem reads_unique (hl : ¬l.IsNextFreeSegment) {w : VersionedContent} (hv : v ∈ t.reads l)
    (hw : w ∈ t.reads l) : v = w := by
  obtain ⟨k, hv⟩ := hv
  obtain ⟨k', hw⟩ := hw
  exact Option.some.inj ((readContent_eq_of_not hl hv k').symm.trans hw)

/-- What is read for the first time. -/
theorem identifies_reads (ht : t.AllMarks fun m => m.commitId ≤ t.mark.commitId)
    (l : BlobLocation) : Identifies l (t.reads l) t where
  read := le_rfl
  content v hv w hw _ := by
    by_cases hl : l.IsNextFreeSegment
    · rw [reads_of_isNextFreeSegment hl hv, reads_of_isNextFreeSegment hl hw]
    · rw [reads_unique hl hv hw]
  next hl _ hv := reads_of_isNextFreeSegment hl hv
  old hl _ hv := by
    obtain ⟨k, hk⟩ := hv
    exact le_of_readContent ht hl hk

namespace Identifies

/-- A commit that leaves the next free segment id as it is, or does not matter to it. -/
theorem commit (h : Identifies l seen t) (hnew : t'.RenewedBy (t.mark.commitId + 1) t)
    (hlimit : t.mark.commitId + 1 < unknownCommitId)
    (hmark : t'.mark.commitId = t.mark.commitId + 1)
    (ht' : t'.AllMarks fun m => m.commitId ≤ t.mark.commitId + 1)
    (hnext : l.IsNextFreeSegment → LevelTree.Inner.info t' = LevelTree.Inner.info t) :
    Identifies l (seen ∪ t'.reads l) t' := by
  have hnexts : l.IsNextFreeSegment → ∀ v ∈ seen ∪ t'.reads l,
      v.content = leBytes 4 (LevelTree.Inner.info t').toNat := fun hl v hv => by
    rcases hv with hv | hv
    · rw [hnext hl]
      exact h.next hl v hv
    · exact reads_of_isNextFreeSegment hl hv
  -- what was not read before has the commit id of the commit
  have hcases : ¬l.IsNextFreeSegment → ∀ v ∈ seen ∪ t'.reads l,
      v ∈ seen ∨ v ∈ t'.reads l ∧ v.commitId = t.mark.commitId + 1 := fun hl v hv => by
    rcases hv with hv | hv
    · exact Or.inl hv
    · obtain ⟨k, hk⟩ := hv
      rcases hnew.readContent hl hk with hcommit | hold
      · exact Or.inr ⟨⟨k, hk⟩, hcommit⟩
      · exact Or.inl (h.read ⟨k, hold⟩)
  have hfresh : ¬l.IsNextFreeSegment → ∀ v ∈ seen, v.commitId ≠ t.mark.commitId + 1 :=
    fun hl v hv heq => by
      rcases h.old hl v hv with hle | hunknown
      · exact Nat.not_succ_le_self _ (heq ▸ hle)
      · exact hlimit.ne (heq.symm.trans hunknown)
  refine ⟨Set.subset_union_right, fun v hv w hw heq => ?_, hnexts, fun hl v hv => ?_⟩
  · by_cases hl : l.IsNextFreeSegment
    · rw [hnexts hl v hv, hnexts hl w hw]
    · rcases hcases hl v hv, hcases hl w hw with ⟨hv | ⟨hv, hvk⟩, hw | ⟨hw, hwk⟩⟩
      · exact h.content v hv w hw heq
      · exact absurd (heq.trans hwk) (hfresh hl v hv)
      · exact absurd (heq.symm.trans hvk) (hfresh hl w hw)
      · rw [reads_unique hl hv hw]
  · rw [hmark]
    rcases hv with hv | ⟨k, hk⟩
    · exact (h.old hl v hv).imp_left fun hle => hle.trans (Nat.le_succ _)
    · exact le_of_readContent ht' hl hk

/-- A file that is closed and opened again. -/
theorem onFile (h : Identifies l seen t) (hl : l.VersionStored) : Identifies l seen t.onFile where
  read v hv := by
    obtain ⟨k, hk⟩ := hv
    refine h.read ⟨k, ?_⟩
    rw [← hk, readContent_onFile hl]
  content := h.content
  next := h.next
  old hl v hv := by
    rw [Tree.onFile, DbTree.changeMark, LevelTree.mark_mapMark]
    exact h.old hl v hv

end Identifies

end Tree

/-- Entries that write the next free segment id as it is leave it. -/
theorem DbTree.info_updates {μ : Type} {m : μ} {us : List BlobData} {t : DbTree μ 3}
    (h : ∀ u ∈ us, u.WritesNextSegment → u.readId = t.info) : (updates m us t).info = t.info := by
  have hfold : ∀ t' : DbTree μ 3, t'.info = t.info →
      LevelTree.Inner.info (us.foldl (fun t u => update m u t) t') = t.info := by
    induction us with
    | nil => exact fun _ ht' => ht'
    | cons u us ih =>
      intro t' ht'
      refine ih (fun e he => h e (List.mem_cons_of_mem _ he)) _ ?_
      rw [info_update]
      split_ifs with hu
      · exact h u List.mem_cons_self hu
      · exact ht'
  exact hfold _ rfl

/-- The commit is a proper one, and if the location is that of the next free segment id, it leaves
this id as it is. -/
def BlobLocation.KeptBy (l : BlobLocation) {μ : Type} (t : DbTree μ 3) (us : List BlobData) :
    Prop :=
  DbTree.Proper t us ∧
    (l.IsNextFreeSegment → ∀ u ∈ us, u.WritesNextSegment → u.readId = t.info)

namespace Database

variable {db db' : Database} {p : Pointer} {t : Tree 3} {k : CommitId} {us : List BlobData}
  {σ : Schedule} {r : CommitResult} {l : BlobLocation} {seen : Set VersionedContent}

/-- What a read finds at a location of a snapshot. -/
def report (snapshot : Pointer) (l : BlobLocation) (db : Database) : Option VersionedContent :=
  (db.loadPath snapshot l.readPath).bind fun db => db.heap.readContent snapshot l

/-- What a read is answered for a location of a snapshot: nothing if the client has it. -/
def answer (snapshot : Pointer) (a : BlobAddress) (db : Database) :
    Option (Option VersionedContent) :=
  (db.loadPath snapshot a.readPath).bind fun db => db.heap.answerBlob snapshot .read a

/-- A database that shows a tree can load what a read needs, and then reads the tree. -/
theorem Shows.loadPath (h : db.Shows p t k) (l : BlobLocation) :
    ∃ db', db.loadPath p l.readPath = some db' ∧ db'.heap.readContent p l = t.readContent k l := by
  obtain ⟨g, hg⟩ := Heap.exists_loadPath h.wf h.level h.known h.loaded h.view l.readPath
  have hload : db.loadPath p l.readPath = some { db with heap := g } :=
    Option.map_eq_some_iff.mpr ⟨g, hg, rfl⟩
  have h' := h.loads (loads_of_loadPath h.wf h.path hload)
  refine ⟨_, hload, ?_⟩
  rw [Heap.readContent_eq h'.wf h'.path h'.view h'.loaded
    (Heap.loadedAlong_of_loadPath h.wf h.level h.known h.loaded hg), h'.nextFreeIdCommit]

/-- A database that shows a tree reports what the tree holds. -/
theorem Shows.report_eq (h : db.Shows p t k) (l : BlobLocation) :
    db.report p l = t.readContent k l := by
  obtain ⟨db', hload, hread⟩ := h.loadPath l
  rw [report, hload, Option.bind_some, hread]

/-- A client is told that it has the content if its commit id is the one that is found. -/
theorem Shows.answer_eq (h : db.Shows p t k) (a : BlobAddress) :
    db.answer p a = (db.report p a.toBlobLocation).map fun v =>
      if a.cacheCommitId = v.commitId then none else some v := by
  obtain ⟨db', hload, hread⟩ := h.loadPath a.toBlobLocation
  rw [answer, report, hload, Option.bind_some, Option.bind_some, Heap.answerBlob, hread,
    if_neg (by decide)]
  cases t.readContent k a.toBlobLocation <;> rfl

/-- No mark is younger than the root. -/
theorem Inv.allMarks_le (h : db.Inv t) : t.AllMarks fun m => m.commitId ≤ t.mark.commitId :=
  h.commitIds.imp fun m hm => by
    rw [h.mark_commitId]
    exact Nat.le_of_lt_succ hm

/-- A commit that is applied. -/
theorem Inv.identifies_commit (h : db.Inv t) (hseen : Tree.Identifies l seen t)
    (hc : db.Commits us σ r) (hcopies : db.CopiesLoaded us) (hkept : l.KeptBy t us) :
    ∃ t', (db.applyToDatabase r σ).Inv t' ∧ Tree.Identifies l (seen ∪ t'.reads l) t' := by
  obtain ⟨t', lost, hcommitted, hclean⟩ := h.commit hc.commitId hc.result hc.walks hc.endOffset
  obtain ⟨hlogical, -⟩ := hclean hcopies
  have hmark : t'.mark.commitId = t.mark.commitId + 1 := by
    rw [hcommitted.inv.mark_commitId, hcommitted.commitId, h.mark_commitId]
  refine ⟨t', hcommitted.inv, hseen.commit ?_ ?_ hmark ?_ fun hl => ?_⟩
  · rw [h.mark_commitId]
    exact hcommitted.renewed
  · rw [h.mark_commitId]
    exact hc.commitId
  · rw [← hmark]
    exact hcommitted.inv.allMarks_le
  · exact (congrArg LevelTree.Inner.info hlogical).trans (DbTree.info_updates (hkept.2 hl))

end Database

namespace Server

variable {s s' s₁ : Server} {c : ClientId} {name : DatabaseName} {od od' : OpenDatabase}
  {reopens : Prop} {l : BlobLocation} {seen : Set VersionedContent}

/-- What a read finds at a location, in the active snapshot of a database or in the kept one. -/
def report (s : Server) (name : DatabaseName) (mvcc : Bool) (l : BlobLocation) :
    Option VersionedContent :=
  (s.databases name).bind fun od => (od.database.snapshotFor mvcc).bind fun p =>
    od.database.report p l

/-- What a read is answered for a location: nothing if the client has what is found. -/
def answer (s : Server) (name : DatabaseName) (mvcc : Bool) (a : BlobAddress) :
    Option (Option VersionedContent) :=
  (s.databases name).bind fun od => (od.database.snapshotFor mvcc).bind fun p =>
    od.database.answer p a

/-- All commits are proper, and leave the next free segment id as it is if the location is that of
this id. The database is not created anew, and not opened again if the version of the location is
not stored in the file. -/
def KeepsVersions (name : DatabaseName) (l : BlobLocation) (s : Server) (e : Event) : Prop :=
  s.CommitsOrderly l.KeptBy e ∧ (s.opens name e = true →
    (∃ n, name = .file n) ∧ l.VersionStored ∧ s.creates name e = false)

/-- What was seen at a location has versions that tell its content, whatever snapshot it was seen
in. -/
structure Identifies (reopens : Prop) (l : BlobLocation) (seen : Set VersionedContent) (s : Server)
    (name : DatabaseName) : Prop where
  active : Persists reopens (Tree.Identifies l seen) s name
  kept : ∀ od, s.databases name = some od → 0 < od.database.mvccUseCount →
    ∃ db, od.database.Captures db ∧ ∀ v ∈ db.report db.snapshot l, v ∈ seen

/-- A weaker condition is asked of the same commits. -/
theorem CommitsOrderly.mono {R R' : Tree 3 → List BlobData → Prop} {e : Event}
    (h : s.CommitsOrderly R e) (hR : ∀ t us, R t us → R' t us) : s.CommitsOrderly R' e := by
  cases e with
  | transactionCommit c m σ =>
    exact fun hactive hlast gs hgs ls s₁ hvalid g hg name hname t ht =>
      hR _ _ (h hactive hlast gs hgs ls s₁ hvalid g hg name hname t ht)
  | _ => trivial

/-- What the active snapshot reports has been seen. -/
theorem report_active_mem {t : Tree 3} {db : Database} (hinv : db.Inv t)
    (ht : Tree.Identifies l seen t) : ∀ v ∈ db.report db.snapshot l, v ∈ seen := fun v hv => by
  rw [Option.mem_def, hinv.shows.report_eq] at hv
  exact ht.read ⟨_, hv⟩

/-- A snapshot that is read shows what was seen. -/
theorem Identifies.exists_shows (h : Identifies reopens l seen s name) (hord : Ordered s)
    (hod : s.databases name = some od) {mvcc : Bool} {p : Pointer}
    (hp : od.database.snapshotFor mvcc = some p) :
    ∃ t k, od.database.Shows p t k ∧ ∀ v ∈ t.readContent k l, v ∈ seen := by
  cases mvcc with
  | false =>
    obtain rfl := Option.some.inj hp
    obtain ⟨t, hinv, ht⟩ := h.active.opened od hod
    exact ⟨t, _, hinv.shows, fun v hv => ht.read ⟨_, hv⟩⟩
  | true =>
    have huse : 0 < od.database.mvccUseCount := by
      refine Nat.pos_of_ne_zero fun hzero => ?_
      have hnone := (hord.sound.databases name od hod).readersWF.2 hzero
      rw [show od.database.mvccSnapshot = some p from hp] at hnone
      cases hnone
    obtain ⟨db, hcaptures, hseen⟩ := h.kept od hod huse
    obtain ⟨t, k, q, hshows, hq, hshows'⟩ := hcaptures.shows
    obtain rfl := Option.some.inj (hq.symm.trans hp)
    refine ⟨t, k, hshows', fun v hv => hseen v ?_⟩
    rw [hshows.report_eq]
    exact hv

/-- What is reported was seen. -/
theorem Identifies.mem_of_report (h : Identifies reopens l seen s name) (hord : Ordered s)
    {mvcc : Bool} {v : VersionedContent} (hv : s.report name mvcc l = some v) : v ∈ seen := by
  obtain ⟨od, hod, hv⟩ := Option.bind_eq_some_iff.mp hv
  obtain ⟨p, hp, hv⟩ := Option.bind_eq_some_iff.mp hv
  obtain ⟨t, k, hshows, hseen⟩ := h.exists_shows hord hod hp
  rw [hshows.report_eq] at hv
  exact hseen v hv

/-- A client is told that it has the content only if its commit id is the one that is reported. -/
theorem Identifies.commitId_eq_of_answer (h : Identifies reopens l seen s name) (hord : Ordered s)
    {mvcc : Bool} {v : VersionedContent} {k : CommitId} (hv : s.report name mvcc l = some v)
    (hanswer : s.answer name mvcc ⟨l, k⟩ = some none) : k = v.commitId := by
  obtain ⟨od, hod, hv⟩ := Option.bind_eq_some_iff.mp hv
  obtain ⟨p, hp, hv⟩ := Option.bind_eq_some_iff.mp hv
  obtain ⟨t, k', hshows, -⟩ := h.exists_shows hord hod hp
  rw [Server.answer, hod, Option.bind_some, hp, Option.bind_some, hshows.answer_eq, hv] at hanswer
  by_contra hne
  rw [Option.map_some, if_neg hne] at hanswer
  cases hanswer

/-! ### Steps -/

/-- Commits are seen. -/
theorem Identifies.finishCommit {σ : DatabaseName → Schedule} {ms : List TransactionCommit}
    (hfile : reopens → ∃ n, name = .file n) (hl : reopens → l.VersionStored)
    (h : Persists reopens (Tree.Identifies l seen) s name) (hord : Ordered s)
    (hfinish : s.finishCommit c σ ms = some s') (hactive : s.active c = true) (hwf : UsersWF s)
    (hkept : s.PermitsCommits l.KeptBy c ms) :
    ∃ seen', seen ⊆ seen' ∧ Persists reopens (Tree.Identifies l seen') s' name := by
  refine (finishCommit_keeps (I := fun s₁ => Ordered s₁ ∧ ∃ seen', seen ⊆ seen' ∧
    Persists reopens (Tree.Identifies l seen') s₁ name) hfinish hactive hwf hord.healthy
    (fun hmoves ⟨hord₁, seen', hsub, h₁⟩ => ?_) ?_ ⟨hord, seen, le_rfl, h⟩).2
  · have hmoves' : Moves .noOpens _ _ := hmoves.mono (Permit.noBegins_le trivial)
    refine ⟨(hmoves.mono (Permit.noBegins_le trivial)).ordered hord₁, seen', hsub, ?_⟩
    exact h₁.moves hfile (fun hreopens _ ht => ht.onFile (hl hreopens)) hmoves' hord₁.healthy
  · intro gs ls s₁ hgs hvalid p hp s₂ name' od₀ od od' hactive₂ hopen hod hv hcommit
      ⟨hord₂, seen', hsub, h₂⟩
    have hpermit := hkept gs hgs ls s₁ hvalid p.1 (List.of_mem_zip hp).1
    have hproper : s.PermitsCommit DbTree.Proper c p.1 := fun name hname t ht =>
      (hpermit name hname t ht).1
    refine ⟨hord.commitDatabase hord₂ (hactive₂ ▸ hactive) ?_ hod hv hproper hcommit, ?_⟩
    · rw [hopen]
      exact mem_openNames_of_getDatabase hv.getDatabase
    · by_cases hne : name = name'
      · subst hne
        obtain ⟨t, created, -, hpasses, -, -, hinv₀⟩ := hord.passes hv hproper
        have hinv : od.database.Inv t := hpasses.ledger.inv
        have ht : t ∈ s.tree name := by
          rw [Option.mem_def, tree_of_some hv.databases]
          exact hinv₀.view
        obtain ⟨t₂, hinv₂, ht₂⟩ := h₂.opened od hod
        obtain rfl : t₂ = t := Option.some.inj (hinv₂.view.symm.trans hinv.view)
        have hstored := fun n hn => isSome_storage_commitDatabase hcommit (h₂.stored n hn od hod)
        obtain ⟨r, book, hcommits, -, rfl⟩ := commitDatabase_eq_some hcommit
        obtain ⟨t', hinv', ht'⟩ := hinv.identifies_commit ht₂ hcommits hpasses.copiesLoaded
          (hpermit name hv.getDatabase _ ht)
        exact ⟨_, hsub.trans Set.subset_union_left, .setDatabase hstored hinv' ht'⟩
      · exact ⟨seen', hsub, h₂.congr (databases_setDatabase_of_ne hne) rfl⟩

/-- Nobody reads from a database that is opened. -/
theorem mvccUses_of_opens {e : Event} (hopens : s.opens name e = true) (hwf : UsersWF s)
    (hm : MvccWF s) : s.mvccUses name = 0 := by
  cases hod : s.databases name with
  | none => rw [mvccUses, hod, Option.map_none, Option.getD_none]
  | some od =>
    cases e with
    | databaseOpen c name' mode mvcc =>
      simp only [opens, hod, Bool.and_eq_true, decide_eq_true_eq] at hopens
      exact mvccUses_eq_zero hm hwf ((uses_of_some hod).trans hopens.2.2)
    | _ => cases hopens

/-- A database that is opened anew is seen for the first time. -/
theorem Identifies.openDatabase {name' : DatabaseName} {mode : OpenMode}
    {r : DatabaseOpenResponse.Result} {mvcc : Bool} (hfile : reopens → ∃ n, name = .file n)
    (h : Persists reopens (Tree.Identifies l seen) s name) (hs' : Healthy s') (hwf : UsersWF s)
    (hm : MvccWF s) (hopen : s.openDatabase name' mode = some (r, s'))
    (hcreates : reopens → s.creates name (.databaseOpen c name' mode mvcc) = false) :
    ∃ seen', Persists reopens (Tree.Identifies l seen') s' name ∧
      (seen ⊆ seen' ∨ ¬reopens ∧ s.opens name (.databaseOpen c name' mode mvcc) = true ∧
        s.mvccUses name = 0) := by
  by_cases hnew : ¬reopens ∧ s.opens name (.databaseOpen c name' mode mvcc) = true
  · obtain ⟨hreopens, hopens⟩ := hnew
    obtain rfl : name' = name := by
      rw [opens, Bool.and_eq_true, decide_eq_true_eq] at hopens
      exact hopens.1
    have hstored : ∀ n, name' = .file n → ∀ od, s'.databases name' = some od →
        od.database.storage.isSome = true := by
      rintro n rfl od hod
      cases hcreates : s.creates (.file n) (.databaseOpen c (.file n) mode mvcc) with
      | true =>
        obtain ⟨s₁, db, hread, rfl⟩ := openDatabase_of_creates hopen hcreates
        rw [databases_setDatabase_self] at hod
        obtain rfl := Option.some.inj hod
        exact Database.isSome_storage_of_open hread
      | false =>
        rcases openDatabase_of_not_creates hopen hopens hcreates with rfl |
          ⟨f, db, -, -, hread, rfl⟩
        · exact h.stored n rfl od hod
        · rw [databases_setDatabase_self] at hod
          obtain rfl := Option.some.inj hod
          exact Database.isSome_storage_of_open hread
    have hzero := mvccUses_of_opens hopens hwf hm
    cases hod : s'.databases name' with
    | none =>
      refine ⟨seen, ⟨hstored, fun od hod' => ?_, fun h => absurd h hreopens⟩, Or.inl le_rfl⟩
      rw [hod] at hod'
      cases hod'
    | some od =>
      obtain ⟨t, hinv⟩ := hs'.exists_inv hod
      refine ⟨t.reads l, ⟨hstored, fun od' hod' => ?_, fun h => absurd h hreopens⟩,
        Or.inr ⟨hreopens, hopens, hzero⟩⟩
      obtain rfl := Option.some.inj (hod.symm.trans hod')
      exact ⟨t, hinv, Tree.identifies_reads hinv.allMarks_le l⟩
  · refine ⟨seen, h.openDatabase hfile hopen
      fun (hopens : s.opens name (.databaseOpen c name' mode mvcc) = true) => ?_, Or.inl le_rfl⟩
    have hreopens : reopens := by_contra fun hreopens => hnew ⟨hreopens, hopens⟩
    exact ⟨hreopens, hcreates hreopens⟩

/-- What is reported after a step was seen before, or has a version of its own, unless the database
was just opened. -/
theorem Identifies.step {e : Event} (hfile : reopens → ∃ n, name = .file n)
    (hl : reopens → l.VersionStored) (h : Identifies reopens l seen s name) (hord : Ordered s)
    (hwf : UsersWF s) (hm : MvccWF s) (hstep : Step s e s') (hkept : s.CommitsOrderly l.KeptBy e)
    (hcreates : reopens → s.creates name e = false) :
    ∃ seen', Identifies reopens l seen' s' name ∧
      (seen ⊆ seen' ∨ ¬reopens ∧ s.opens name e = true) := by
  have hs' : Healthy s' := hstep.healthy hwf hord.healthy
  have hstable : reopens → ∀ t, Tree.Identifies l seen t → Tree.Identifies l seen t.onFile :=
    fun hreopens _ ht => ht.onFile (hl hreopens)
  have hproper := hkept.mono fun _ _ h => h.1
  have hother : ¬e.Opens → s.CommitsOrderly (fun _ _ => False) e → ∃ seen',
      Persists reopens (Tree.Identifies l seen') s' name ∧ (seen ⊆ seen' ∨ ¬reopens ∧
        s.opens name e = true ∧ s.mvccUses name = 0) := fun hopens hnone =>
    ⟨seen, h.active.moves hfile hstable (hstep.moves (P := .noOpens) hwf hord.healthy (fun _ => trivial) hopens
      (fun _ => trivial) hnone) hord.healthy, Or.inl le_rfl⟩
  obtain ⟨seen', hactive, hseen⟩ : ∃ seen', Persists reopens (Tree.Identifies l seen') s' name ∧
      (seen ⊆ seen' ∨ ¬reopens ∧ s.opens name e = true ∧ s.mvccUses name = 0) := by
    cases e with
    | databaseOpen c name' mode mvcc =>
      obtain ⟨r, s₁, hopen, hmoves⟩ :=
        handleDatabaseOpen_moves (P := .noOpens) hstep.2 hwf trivial
      have hs₁ : Healthy s₁ :=
        (moves_openDatabase (P := .noCommits) hopen hwf trivial).healthy hord.healthy
      obtain ⟨seen', h₁, hseen⟩ :=
        openDatabase hfile h.active hs₁ hwf hm hopen hcreates
      exact ⟨seen', h₁.moves hfile (fun hreopens _ ht => ht.onFile (hl hreopens)) hmoves hs₁, hseen⟩
    | transactionCommit c m σ =>
      rcases handleTransactionCommit_cases hstep.2 hkept with ⟨hmove, -⟩ |
        ⟨s₀, ms, hmove, -, hwf₀, hactive, hkept₀, hfinish⟩
      · exact ⟨seen, h.active.move hfile hstable (hmove _) hord.healthy, Or.inl le_rfl⟩
      · obtain ⟨seen', hsub, h'⟩ := finishCommit hfile hl
          (h.active.move hfile hstable (hmove _) hord.healthy) ((hmove _).ordered hord) hfinish
          hactive (hwf₀ hwf) hkept₀
        exact ⟨seen', h', Or.inl hsub⟩
    | _ => exact hother id trivial
  refine ⟨seen', ⟨hactive, fun od' hod' huse => ?_⟩, hseen.imp_right fun h => ⟨h.1, h.2.1⟩⟩
  rcases hord.continues hstep hwf hm hproper name od' hod' huse with
    ⟨hpos, od, hod, hcaptures⟩ | ⟨-, hcaptures⟩
  · rw [mvccUses_of_some hod] at hpos
    obtain ⟨db, hdb, hreport⟩ := h.kept od hod hpos
    refine ⟨db, hcaptures db hdb, fun v hv => ?_⟩
    rcases hseen with hsub | ⟨-, -, hzero⟩
    · exact hsub (hreport v hv)
    · rw [mvccUses_of_some hod] at hzero
      exact absurd hzero hpos.ne'
  · obtain ⟨t, hinv, ht⟩ := hactive.opened od' hod'
    exact ⟨od'.database, hcaptures, report_active_mem hinv ht⟩

/-! ### Runs -/

/-- In every state there are versions that tell the content of what may be read. -/
theorem exists_identifies {files : DatabaseName → Option FileContent} {delay : ℕ}
    {es : List Event} (hfiles : ∀ name f, files name = some f →
      ∃ db : Database, db.Reachable Database.Keeps ∧ db.file = f)
    (hrun : GuardedRun step (CommitsOrderly l.KeptBy) (start files delay) es s)
    (name : DatabaseName) :
    UsersWF s ∧ Ordered s ∧ MvccWF s ∧ ∃ seen, Identifies False l seen s name := by
  refine hrun.invariant (I := fun _ s =>
    UsersWF s ∧ Ordered s ∧ MvccWF s ∧ ∃ seen, Identifies False l seen s name)
    ⟨usersWF_start files delay, ordered_start hfiles, mvccWF_start files delay, ∅, ?_⟩
    fun _ s e s' ⟨hwf, hord, hm, seen, h⟩ hkept hstep => ?_
  · exact ⟨⟨by rintro _ _ _ ⟨⟩, by rintro _ ⟨⟩, False.elim⟩, by rintro _ ⟨⟩⟩
  · have hstep := step_eq_some_iff.mp hstep
    obtain ⟨seen', h', -⟩ := h.step False.elim False.elim hord hwf hm hstep hkept False.elim
    exact ⟨hstep.usersWF hwf, hstep.ordered hwf hord (hkept.mono fun _ _ h => h.1),
      hstep.mvccWF hwf hm, seen', h'⟩

/-- As long as all commits are proper, a database is not created anew, and nothing happens to the
versions of next free ids, the commit id of what is reported for a location tells its content. Thus
a client is told that it has the content only if it has. -/
theorem content_eq_of_commitId_eq {files : DatabaseName → Option FileContent} {delay : ℕ}
    {es es' : List Event} {mvcc mvcc' : Bool} {v v' : VersionedContent}
    (hfiles : ∀ name f, files name = some f →
      ∃ db : Database, db.Reachable Database.Keeps ∧ db.file = f)
    (hrun : GuardedRun step (CommitsOrderly l.KeptBy) (start files delay) es s)
    (hrun' : GuardedRun step (KeepsVersions name l) s es' s')
    (hv : s.report name mvcc l = some v) (hv' : s'.report name mvcc' l = some v') :
    (v.commitId = v'.commitId → v.content = v'.content) ∧
      (s'.answer name mvcc' ⟨l, v.commitId⟩ = some none → v.content = v'.content) := by
  obtain ⟨hwf, hord, hm, seen, h⟩ := exists_identifies hfiles hrun name
  -- the database is open, so that there is nothing to ask of its file yet
  have hstart : Identifies ((∃ n, name = .file n) ∧ l.VersionStored) l seen s name := by
    refine ⟨⟨h.active.stored, h.active.opened, fun _ f db hnone => ?_⟩, h.kept⟩
    rw [report, hnone] at hv
    cases hv
  obtain ⟨-, hord', -, seen', hsub, h'⟩ := hrun'.invariant (I := fun _ s' =>
    UsersWF s' ∧ Ordered s' ∧ MvccWF s' ∧ ∃ seen', seen ⊆ seen' ∧
      Identifies ((∃ n, name = .file n) ∧ l.VersionStored) l seen' s' name)
    ⟨hwf, hord, hm, seen, le_rfl, hstart⟩
    fun _ s e s' ⟨hwf, hord, hm, seen', hsub, h'⟩ ⟨hkept, hopens⟩ hstep => by
      have hstep := step_eq_some_iff.mp hstep
      have hcreates : s.creates name e = false := by
        by_contra hcreates
        rw [Bool.not_eq_false] at hcreates
        have hnot := (hopens (opens_of_creates hcreates)).2.2
        rw [hcreates] at hnot
        cases hnot
      obtain ⟨seen'', h'', hseen⟩ := h'.step And.left And.right hord hwf hm hstep hkept
        fun _ => hcreates
      have hsub' : seen' ⊆ seen'' := hseen.resolve_right fun ⟨hnot, hopen⟩ =>
        hnot ⟨(hopens hopen).1, (hopens hopen).2.1⟩
      exact ⟨hstep.usersWF hwf, hstep.ordered hwf hord (hkept.mono fun _ _ h => h.1),
        hstep.mvccWF hwf hm, seen'', hsub.trans hsub', h''⟩
  have hcontent : v.commitId = v'.commitId → v.content = v'.content := fun heq => by
    obtain ⟨od, hod, -⟩ := Option.bind_eq_some_iff.mp hv'
    obtain ⟨t, -, ht⟩ := h'.active.opened od hod
    exact ht.content v (hsub (h.mem_of_report hord hv)) v' (h'.mem_of_report hord' hv') heq
  exact ⟨hcontent, fun hanswer => hcontent (h'.commitId_eq_of_answer hord' hv' hanswer)⟩

/-- A reader finds the next free cluster id of its snapshot, after a cluster was created. -/
theorem content_eq_of_commitId_eq_kept : ∃ (l : BlobLocation) (es es' : List Event) (s s' : Server)
    (v v' : VersionedContent),
    GuardedRun step (CommitsOrderly l.KeptBy) (start (fun _ => none) 0) es s ∧
    GuardedRun step (KeepsVersions (.file 0) l) s es' s' ∧
    s.report (.file 0) false l = some v ∧ s'.report (.file 0) true l = some v' ∧
    (v.commitId = v'.commitId ∧ s'.report (.file 0) false l ≠ some v) ∧
    ((v.commitId = v'.commitId → v.content = v'.content) ∧
      (s'.answer (.file 0) true ⟨l, v.commitId⟩ = some none → v.content = v'.content)) := by
  set l : BlobLocation := ⟨0, nextFreeClusterId, nextFreeBlobId⟩ with hl
  have hplay : ((GuardedRun.play step (fun _ e => e.IsCommit = false) (enters 1 ++ entersMVCC 2)
      (start (fun _ => none) 0)).bind fun s => (s.step (s.commits 1 createCluster)).bind fun s' =>
        (s.tree (.file 0)).bind fun t => (s.report (.file 0) false l).bind fun v =>
          (s'.report (.file 0) true l).map fun v' => decide (t.nextClusterId 0 = 1 ∧
            (v.commitId = v'.commitId ∧ s'.report (.file 0) false l ≠ some v) ∧
            (s.clients 1).commitMessages = [] ∧ s.getDatabase 1 0 = some (.file 0))) =
      some true := by
    decide +kernel
  obtain ⟨s, hs, hplay⟩ := Option.bind_eq_some_iff.mp hplay
  obtain ⟨s', hs', hplay⟩ := Option.bind_eq_some_iff.mp hplay
  obtain ⟨t, ht, hplay⟩ := Option.bind_eq_some_iff.mp hplay
  obtain ⟨v, hv, hplay⟩ := Option.bind_eq_some_iff.mp hplay
  obtain ⟨v', hv', hplay⟩ := Option.map_eq_some_iff.mp hplay
  obtain ⟨hnext, hversions, hmessages, hname⟩ := of_decide_eq_true hplay
  have hordinary : ¬l.IsNextFreeSegment := fun h => absurd h.1 (by decide)
  have hkept : s.CommitsOrderly l.KeptBy (s.commits 1 createCluster) :=
    (commitsOrderly_createCluster hmessages hname ht hnext).mono fun _ _ h =>
      ⟨h, fun h => absurd h hordinary⟩
  have hrun := (GuardedRun.of_play hs).mono fun s e h =>
    commitsOrderly_of_not_isCommit (s := s) h l.KeptBy
  have hrun' : GuardedRun step (KeepsVersions (.file 0) l) s _ s' :=
    .snoc .nil ⟨hkept, fun h => nomatch h⟩ hs'
  exact ⟨l, _, _, s, s', v, v', hrun, hrun', hv, hv', hversions,
    content_eq_of_commitId_eq (by rintro _ _ ⟨⟩) hrun hrun' hv hv'⟩

/-- Creates the segment 1 with its first cluster and blob. -/
def createsSegment : List BlobData :=
  [⟨⟨nextFreeSegmentId, nextFreeClusterId, nextFreeBlobId⟩, some [2, 0, 0, 0]⟩,
    ⟨⟨1, 0, nextFreeBlobId⟩, some [1, 0, 0, 0]⟩, ⟨⟨1, 0, 0⟩, some [7]⟩]

/-- The next free segment id keeps its commit id, so a client is told that it has the content after
it was written. -/
theorem not_content_eq_of_commitId_eq : ∃ (l : BlobLocation) (es es' : List Event) (s s' : Server)
    (v v' : VersionedContent),
    GuardedRun step (fun _ _ => True) (start (fun _ => none) 0) es s ∧
    GuardedRun step (fun _ _ => True) s es' s' ∧
    s.report (.mem 0) false l = some v ∧ s'.report (.mem 0) false l = some v' ∧
    v.commitId = v'.commitId ∧ s'.answer (.mem 0) false ⟨l, v.commitId⟩ = some none ∧
    v.content ≠ v'.content := by
  set l : BlobLocation := ⟨nextFreeSegmentId, nextFreeClusterId, nextFreeBlobId⟩ with hl
  have hplay : ((GuardedRun.play step (fun _ _ => True) [.connectionOpened 1,
      .databaseOpen 1 (.mem 0) .createIfNotExist false, .transactionBegin 1 0 [],
      .blobsRead ⟨1, 0, .write, 0, [⟨l, 0⟩]⟩] (start (fun _ => none) 0)).bind fun s =>
        (s.step (.transactionCommit 1 ⟨false, 0, createsSegment⟩
          fun _ => ⟨[], [], .insertion, []⟩)).bind fun s' =>
            (s.report (.mem 0) false l).bind fun v => (s'.report (.mem 0) false l).map fun v' =>
              decide (v.commitId = v'.commitId ∧
                s'.answer (.mem 0) false ⟨l, v.commitId⟩ = some none ∧ v.content ≠ v'.content)) =
      some true := by
    decide +kernel
  obtain ⟨s, hs, hplay⟩ := Option.bind_eq_some_iff.mp hplay
  obtain ⟨s', hs', hplay⟩ := Option.bind_eq_some_iff.mp hplay
  obtain ⟨v, hv, hplay⟩ := Option.bind_eq_some_iff.mp hplay
  obtain ⟨v', hv', hplay⟩ := Option.map_eq_some_iff.mp hplay
  exact ⟨l, _, _, s, s', v, v', .of_play hs, .snoc .nil trivial hs', hv, hv',
    of_decide_eq_true hplay⟩

end Server

end BlobsDb
