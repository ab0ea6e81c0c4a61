import BlobsDb.Server.Answering
import BlobsDb.Server.Lookup

/-!
# What is found at a location

Once the objects on the way to a location are loaded, what is read there is what the tree of the
snapshot has there (`Heap.readContent_eq`). Only the version of the next free segment id is not part
of the tree. Thus two snapshots that show the same answer all reads alike (`Shows.answerRead_eq`),
no matter which of their objects are loaded already.
-/

namespace BlobsDb

/-- The version of the next free id of a segment or cluster. It is not stored in the file. -/
def Mark.nextFreeIdCommit (m : Mark) : CommitId :=
  match m.origin with
  | .file => unknownCommitId
  | .commit _ => m.commitId

/-- What a tree has at a location. The version of the next free segment id is not part of it. -/
def Tree.readContent (t : Tree 3) (nextFreeIdCommit : CommitId) (l : BlobLocation) :
    Option VersionedContent :=
  let list {n : ℕ} (t : Tree (n + 1)) : VersionedContent :=
    ⟨t.mark.commitId, idListContent t.children.keys⟩
  let next {n : ℕ} (t : Tree (n + 1)) : VersionedContent :=
    ⟨t.mark.nextFreeIdCommit, leBytes 4 t.info.toNat⟩
  if l.blob = blobListId then
    if l.cluster = clusterListId then
      if l.segment = segmentListId then some (list t)
      else (t.getSegment l.segment).map list
    else (t.getCluster l.segment l.cluster).map list
  else if l.segment = nextFreeSegmentId ∧ l.cluster = nextFreeClusterId ∧ l.blob = nextFreeBlobId then
    some ⟨nextFreeIdCommit, leBytes 4 t.info.toNat⟩
  else if l.cluster = nextFreeClusterId ∧ l.blob = nextFreeBlobId then
    (t.getSegment l.segment).map next
  else if l.blob = nextFreeBlobId then
    (t.getCluster l.segment l.cluster).map next
  else
    (t.getCluster l.segment l.cluster).bind fun c =>
      (c.children.find l.blob).map fun b => ⟨b.mark.commitId, b.data⟩

/-- The ids of the objects that are loaded to read a location. -/
def BlobLocation.readPath (l : BlobLocation) : List UInt32 :=
  if l.blob = blobListId then
    if l.cluster = clusterListId then if l.segment = segmentListId then [] else [l.segment]
    else [l.segment, l.cluster]
  else l.path

theorem Database.requested_of_read {μ : Type} {mode : LockMode} (hmode : mode ≠ .delete)
    (t : DbTree μ 3) (l : BlobLocation) : (requested mode t l).1 = l.readPath := by
  unfold requested BlobLocation.readPath
  rw [if_neg fun h => hmode h.2.2, if_neg fun h => hmode h.2]
  split_ifs <;> rfl

namespace Heap

variable {f : FileContent} {h h' : Heap} {n : ℕ} {p : Pointer} {path : List UInt32} {id : UInt32}

/-! ### Loaded paths -/

/-- The objects on a path are loaded, as far as there are any. -/
def LoadedAlong (h : Heap) : ℕ → Pointer → List UInt32 → Prop
  | n + 1, p, id :: path => ∀ o, (h.directories p).children.find id = some o →
    h.status n (p.child id o) = .loaded ∧ h.LoadedAlong n (p.child id o) path
  | _, _, _ => True

theorem LoadedAlong.loads (hl : h.LoadedAlong n p path) (hh : Loads f h h') (hwf : h.WF)
    (hk : h.Known p) (hs : h.status n p = .loaded) : h'.LoadedAlong n p path := by
  induction path generalizing n p with
  | nil => cases n <;> trivial
  | cons id path ih =>
    cases n with
    | zero => trivial
    | succ n =>
      intro o ho
      rw [hh.directory p hk hs] at ho
      obtain ⟨h1, h2⟩ := hl o ho
      have hkc := hwf.known_child p id o ho
      exact ⟨hh.status hkc h1, ih h2 hkc h1⟩

theorem loadedAlong_of_loadPath (hwf : h.WF) (hn : p.path.length + n = 3) (hk : h.Known p)
    (hs : h.status n p = .loaded) (hload : loadPath f n p path h = some h') :
    h'.LoadedAlong n p path := by
  induction path generalizing n p h with
  | nil => cases n <;> trivial
  | cons id path ih =>
    cases n with
    | zero => trivial
    | succ n =>
      rw [loadPath] at hload
      intro o ho
      split at hload
      · cases hload
      · next g hg =>
        -- there is nothing on the path
        obtain ⟨hl, hr, -⟩ := loads_of_getLoadedChild hwf hn hg
        cases hload
        rw [hl.directory p hk hs, Option.map_eq_none_iff.mp hr.symm] at ho
        cases ho
      · next q g hg =>
        obtain ⟨hl, hr, hq⟩ := loads_of_getLoadedChild hwf hn hg
        obtain ⟨o', ho', rfl⟩ := Option.map_eq_some_iff.mp hr.symm
        have hn' := length_child hn id o'
        have hk' := hl.known _ (hwf.known_child p id o' ho')
        have hl' := loads_of_loadPath (hl.wf hwf) hn' hload
        rw [(hl.trans hl').directory p hk hs] at ho
        obtain rfl := Option.some.inj (ho'.symm.trans ho)
        exact ⟨hl'.status hk' (hq _ rfl), ih (hl.wf hwf) hn' hk' (hq _ rfl) hload⟩

/-! ### Objects and trees -/

theorem keys_of_view {t : Tree (n + 1)} (ht : h.view f (n + 1) p = some t)
    (hp : (h.directories p).status = .loaded) :
    (h.directories p).children.keys = t.children.keys :=
  (FlatMap.keys_traverse (FlatMap.traverse_eq_some_iff.mpr ((view_succ_of_loaded hp).mp ht).2.2)).symm

/-- The first step on a path whose objects are loaded. -/
theorem getObject_cons {t : Tree (n + 1)} (ht : h.view f (n + 1) p = some t)
    (hp : (h.directories p).status = .loaded) (hl : h.LoadedAlong (n + 1) p (id :: path)) :
    (t.children.find id = none ∧ h.getObject p (id :: path) = none) ∨
      ∃ o c, (h.directories p).children.find id = some o ∧ t.children.find id = some c ∧
        h.view f n (p.child id o) = some c ∧ h.status n (p.child id o) = .loaded ∧
        h.LoadedAlong n (p.child id o) path ∧
        h.getObject p (id :: path) = h.getObject (p.child id o) path := by
  rw [getObject]
  cases ho : (h.directories p).children.find id with
  | none => exact Or.inl ⟨(find_eq_none_iff_of_view ht hp id).mp ho, rfl⟩
  | some o =>
    obtain ⟨c, hc, hview⟩ := view_child ht hp ho
    exact Or.inr ⟨o, c, rfl, hc, hview, (hl o ho).1, (hl o ho).2, rfl⟩

/-- The version of the next free id of a child that is loaded. -/
theorem nextFreeIdCommit_child {o : Origin} {c : Tree (n + 1)} (hwf : h.WF)
    (hlength : p.path.length < 2) (ho : (h.directories p).children.find id = some o)
    (hc : h.view f (n + 1) (p.child id o) = some c)
    (hs : (h.directories (p.child id o)).status = .loaded) :
    (h.directories (p.child id o)).nextFreeIdCommit = c.mark.nextFreeIdCommit := by
  have horigin : c.mark.origin = o := (mark_of_view hwf hc).1
  rw [Mark.nextFreeIdCommit, horigin]
  cases o with
  | file => exact hwf.nextFreeIdCommit_file p id hlength ho
  | commit k =>
    have hcommitId : (h.directories (p.child id (.commit k))).commitId = c.mark.commitId :=
      commitId_of_view (n := n + 1) hc hs
    rw [← hcommitId]
    exact hwf.nextFreeIdCommit _ (fun heq => nomatch heq) (by simp)

/-- The segment at the end of a loaded path. -/
theorem getObject_segment {t : Tree 3} (hwf : h.WF) (hroot : p.path = [])
    (ht : h.view f 3 p = some t) (hp : (h.directories p).status = .loaded)
    (hl : h.LoadedAlong 3 p [id]) :
    (t.getSegment id = none ∧ h.getObject p [id] = none) ∨
      ∃ q c, t.getSegment id = some c ∧ h.view f 2 q = some c ∧
        (h.directories q).status = .loaded ∧ h.getObject p [id] = some q ∧
        (h.directories q).nextFreeIdCommit = c.mark.nextFreeIdCommit := by
  rcases getObject_cons ht hp hl with h1 | ⟨o, c, ho, h1, h2, h3, -, h5⟩
  · exact Or.inl h1
  · have hlength : p.path.length < 2 := by simp [hroot]
    exact Or.inr ⟨_, c, h1, h2, h3, h5, nextFreeIdCommit_child hwf hlength ho h2 h3⟩

/-- The cluster on a loaded path. -/
theorem getObject_cluster {t : Tree 3} {segment : SegmentId} {cluster : ClusterId} (hwf : h.WF)
    (hroot : p.path = []) (ht : h.view f 3 p = some t)
    (hp : (h.directories p).status = .loaded)
    (hl : h.LoadedAlong 3 p (segment :: cluster :: path)) :
    (t.getCluster segment cluster = none ∧ h.getObject p (segment :: cluster :: path) = none) ∨
      ∃ q c, t.getCluster segment cluster = some c ∧ h.view f 1 q = some c ∧
        (h.directories q).status = .loaded ∧ h.LoadedAlong 1 q path ∧
        h.getObject p (segment :: cluster :: path) = h.getObject q path ∧
        (h.directories q).nextFreeIdCommit = c.mark.nextFreeIdCommit := by
  rw [DbTree.getCluster, DbTree.getSegment]
  rcases getObject_cons ht hp hl with ⟨h1, h2⟩ | ⟨o, c, -, h1, h2, h3, h4, h5⟩
  · rw [h1]
    exact Or.inl ⟨rfl, h2⟩
  · rw [h1]
    rcases getObject_cons h2 h3 h4 with ⟨h6, h7⟩ | ⟨o', c', ho', h6, h7, h8, h9, h10⟩
    · exact Or.inl ⟨h6, h5.trans h7⟩
    · have hlength : (p.child segment o).path.length < 2 := by simp [hroot]
      exact Or.inr ⟨_, c', h6, h7, h8, h9, h5.trans h10,
        nextFreeIdCommit_child hwf hlength ho' h7 h8⟩

theorem list_of_view {t : Tree (n + 1)} (ht : h.view f (n + 1) p = some t)
    (hp : (h.directories p).status = .loaded) :
    (⟨(h.directories p).commitId, idListContent (h.directories p).children.keys⟩ :
      VersionedContent) = ⟨t.mark.commitId, idListContent t.children.keys⟩ := by
  rw [keys_of_view ht hp, ((view_succ_of_loaded hp).mp ht).1]

theorem nextFreeIdBlob_of_view {t : Tree (n + 1)} (ht : h.view f (n + 1) p = some t)
    (hp : (h.directories p).status = .loaded) :
    (⟨(h.directories p).nextFreeIdBlob.commitId, (h.directories p).nextFreeIdBlob.data⟩ :
      VersionedContent) = ⟨(h.directories p).nextFreeIdCommit, leBytes 4 t.info.toNat⟩ := by
  rw [((view_succ_of_loaded hp).mp ht).2.1]
  rfl

/-- What is read at a location, once the objects on the way to it are loaded. -/
theorem readContent_eq {t : Tree 3} {l : BlobLocation} (hwf : h.WF) (hroot : p.path = [])
    (ht : h.view f 3 p = some t) (hp : (h.directories p).status = .loaded)
    (hl : h.LoadedAlong 3 p l.readPath) :
    h.readContent p l = t.readContent (h.directories p).nextFreeIdCommit l := by
  unfold readContent Tree.readContent
  unfold BlobLocation.readPath at hl
  -- lists first, then the next free ids, then blobs
  split_ifs at hl ⊢ with hblob hcluster hsegment
  · exact congrArg some (list_of_view ht hp)
  · rcases getObject_segment hwf hroot ht hp hl with ⟨h1, h2⟩ | ⟨q, c, h1, h2, h3, h4, -⟩
    · rw [h1, h2]
      rfl
    · rw [h1, h4]
      exact congrArg some (list_of_view h2 h3)
  · rcases getObject_cluster hwf hroot ht hp hl with ⟨h1, h2⟩ | ⟨q, c, h1, h2, h3, -, h5, -⟩
    · rw [h1, h2]
      rfl
    · rw [h1, h5]
      exact congrArg some (list_of_view h2 h3)
  · next hsnapshot =>
    rw [getBlob, if_pos hsnapshot]
    exact congrArg some (nextFreeIdBlob_of_view ht hp)
  · next hsnapshot hseg =>
    rw [BlobLocation.path, if_neg hsnapshot, if_pos hseg] at hl
    rw [getBlob, if_neg hsnapshot, if_pos hseg]
    rcases getObject_segment hwf hroot ht hp hl with ⟨h1, h2⟩ | ⟨q, c, h1, h2, h3, h4, h5⟩
    · rw [h1, h2]
      rfl
    · rw [h1, h4]
      refine congrArg some ((nextFreeIdBlob_of_view h2 h3).trans ?_)
      exact congrArg (VersionedContent.mk · (leBytes 4 c.info.toNat)) h5
  · next hsnapshot hseg hclu =>
    rw [BlobLocation.path, if_neg hsnapshot, if_neg hseg, if_pos hclu] at hl
    rw [getBlob, if_neg hsnapshot, if_neg hseg, if_pos hclu]
    rcases getObject_cluster hwf hroot ht hp hl with ⟨h1, h2⟩ | ⟨q, c, h1, h2, h3, -, h5, h6⟩
    · rw [h1, h2]
      rfl
    · rw [h1, h5]
      refine congrArg some ((nextFreeIdBlob_of_view h2 h3).trans ?_)
      exact congrArg (VersionedContent.mk · (leBytes 4 c.info.toNat)) h6
  · next hsnapshot hseg hclu =>
    rw [BlobLocation.path, if_neg hsnapshot, if_neg hseg, if_neg hclu] at hl
    rw [getBlob, if_neg hsnapshot, if_neg hseg, if_neg hclu]
    rcases getObject_cluster hwf hroot ht hp hl with ⟨h1, h2⟩ | ⟨q, c, h1, h2, h3, h4, h5, -⟩
    · rw [h1, h2]
      rfl
    · rw [h1, h5]
      rcases getObject_cons h2 h3 h4 with ⟨h6, h7⟩ | ⟨o, b, -, h6, h7, h8, -, h9⟩
      · rw [h7, Option.bind_some, h6]
        rfl
      · rw [h9, Option.bind_some, h6]
        rw [view_zero_of_loaded h8] at h7
        obtain rfl := Option.some.inj h7
        rfl

/-- Where the same is read, the same is answered. -/
theorem answerBlobs_congr {q : Pointer} {mode : LockMode} {as : List BlobAddress}
    (hread : ∀ a ∈ as, h.readContent p a.toBlobLocation = h'.readContent q a.toBlobLocation) :
    h.answerBlobs p mode as = h'.answerBlobs q mode as := by
  induction as with
  | nil => rfl
  | cons a as ih =>
    rw [answerBlobs, answerBlobs, ih fun a' ha' => hread a' (List.mem_cons_of_mem _ ha'),
      answerBlob, answerBlob, hread a List.mem_cons_self]

end Heap

namespace Database

variable {db db' : Database} {p q : Pointer} {t : Tree 3} {k : CommitId}
  {m : BlobsRead}

/-- A snapshot shows a tree, whose next free segment id has some version. -/
structure Shows (db : Database) (p : Pointer) (t : Tree 3) (k : CommitId) : Prop where
  wf : db.heap.WF
  path : p.path = []
  loaded : (db.heap.directories p).status = .loaded
  view : db.tree p = some t
  nextFreeIdCommit : (db.heap.directories p).nextFreeIdCommit = k

namespace Shows

theorem level (h : db.Shows p t k) : p.path.length + 3 = 3 := by rw [h.path]; rfl

theorem known (h : db.Shows p t k) : db.heap.Known p := fun _ path hpre hne => by
  rw [h.path] at hpre hne
  exact absurd (List.prefix_nil.mp hpre) hne

theorem loads (h : db.Shows p t k) (hl : db.Loads db') : db'.Shows p t k where
  wf := hl.heap.wf h.wf
  path := h.path
  loaded := hl.heap.status (n := 3) h.known h.loaded
  view := by
    rw [tree, hl.file]
    exact (hl.heap.view h.wf 3 p h.level h.known).trans h.view
  nextFreeIdCommit := by
    rw [hl.heap.directory p h.known h.loaded]
    exact h.nextFreeIdCommit

/-- Whether all requested locations exist is told by the tree. -/
theorem ensureRequestedBlobsExist_eq (h : db.Shows p t k) (mode : LockMode)
    (as : List BlobAddress) : ∃ db', ensureRequestedBlobsExist p t mode as db =
      some (as.findSome? fun a => (requested mode t a.toBlobLocation).2, db') := by
  induction as generalizing db with
  | nil => exact ⟨db, rfl⟩
  | cons a as ih =>
    obtain ⟨g, hg⟩ := Heap.exists_loadPath h.wf h.level h.known h.loaded h.view
      (requested mode t a.toBlobLocation).1
    have hload : db.loadPath p (requested mode t a.toBlobLocation).1 = some { db with heap := g } :=
      Option.map_eq_some_iff.mpr ⟨g, hg, rfl⟩
    rw [ensureRequestedBlobsExist, hload, List.findSome?_cons]
    cases (requested mode t a.toBlobLocation).2 with
    | some error => exact ⟨_, rfl⟩
    | none => exact ih (h.loads (loads_of_loadPath h.wf h.path hload))

/-- What is read at a requested location is told by the tree and the version, also after more was
loaded. -/
theorem readContent_eq (h : db.Shows p t k) {mode : LockMode} {as : List BlobAddress}
    (hmode : mode ≠ .delete)
    (hexist : ensureRequestedBlobsExist p t mode as db = some (none, db')) {a : BlobAddress}
    (ha : a ∈ as) {db'' : Database} (hl : db'.Loads db'') :
    db''.heap.readContent p a.toBlobLocation = t.readContent k a.toBlobLocation := by
  obtain ⟨-, hloaded, -⟩ := ensureRequestedBlobsExist_spec hexist
  obtain ⟨-, db₁, db₂, h1, hload, h2⟩ := hloaded rfl a ha
  rw [requested_of_read hmode] at hload
  have h₁ := h.loads (h1.loads h.wf h.path)
  have h₂ := h₁.loads (loads_of_loadPath h₁.wf h₁.path hload)
  obtain ⟨g, hg, rfl⟩ := Option.map_eq_some_iff.mp hload
  have halong := Heap.loadedAlong_of_loadPath h₁.wf h₁.level h₁.known h₁.loaded hg
  have hl' := (h2.loads h₂.wf h₂.path).trans hl
  have h' := h₂.loads hl'
  rw [Heap.readContent_eq h'.wf h'.path h'.view h'.loaded
    (halong.loads hl'.heap h₂.wf h₂.known h₂.loaded), h'.nextFreeIdCommit]

end Shows

/-- What a read of a snapshot is answered. -/
def answerRead (snapshot : Pointer) (m : BlobsRead) (db : Database) :
    Option (List BlobsReadResponse) :=
  match db.tree snapshot with
  | none => none
  | some t =>
    match ensureRequestedBlobsExist snapshot t m.lockMode m.blobs db with
    | none => none
    | some (some error, _) => some [.createError error]
    | some (none, db) => buildBlobsReadResponse db.heap snapshot m

/-- Snapshots that show the same answer all reads alike. -/
theorem Shows.answerRead_eq (h : db.Shows p t k) (h' : db'.Shows q t k)
    (hmode : m.lockMode ≠ .delete) : db.answerRead p m = db'.answerRead q m := by
  obtain ⟨db₁, hdb₁⟩ := h.ensureRequestedBlobsExist_eq m.lockMode m.blobs
  obtain ⟨db₂, hdb₂⟩ := h'.ensureRequestedBlobsExist_eq m.lockMode m.blobs
  rw [answerRead, answerRead, h.view, h'.view]
  dsimp only
  rw [hdb₁, hdb₂]
  cases herror : m.blobs.findSome? fun a => (requested m.lockMode t a.toBlobLocation).2 with
  | some error => rfl
  | none =>
    rw [herror] at hdb₁ hdb₂
    dsimp only
    rw [buildBlobsReadResponse, buildBlobsReadResponse, Heap.answerBlobs_congr fun a ha => ?_]
    rw [h.readContent_eq hmode hdb₁ ha (Loads.refl _), h'.readContent_eq hmode hdb₂ ha (Loads.refl _)]

end Database

end BlobsDb
