import BlobsDb.Storage.Invariant

/-!
# Commits keep the invariant

A commit takes a database with the invariant to one with the invariant, for whatever entries and
in whatever order its sets of blocks are walked. No space is used twice, and the only space that
is lost is that of blocks below copies of objects that were not loaded. When the machine stops
while the commit is written, the file holds the database before or after it.
-/

namespace BlobsDb

open Heap (Beside)

/-- The tree with the commit ids of its nodes and nothing else about them. -/
def Tree.logical {n : ℕ} (t : Tree n) : DbTree CommitId n := DbTree.changeMark Mark.commitId t

theorem origin_placeMark (k : CommitId) (location : Pointer → BlockReference)
    (path : List UInt32) (m : Mark) : (placeMark k location path m).origin = m.origin := by
  unfold placeMark
  split_ifs <;> rfl

theorem commitId_placeMark (k : CommitId) (location : Pointer → BlockReference)
    (path : List UInt32) (m : Mark) : (placeMark k location path m).commitId = m.commitId := by
  unfold placeMark
  split_ifs <;> rfl

theorem Tree.logical_place {n : ℕ} (k : CommitId) (location : Pointer → BlockReference)
    (path : List UInt32) (t : Tree n) : Tree.logical (place k location path t) = Tree.logical t := by
  rw [Tree.logical, DbTree.changeMark, LevelTree.mapMark_of_const _ [] path, place,
    LevelTree.mapMark_mapMark]
  simp only [commitId_placeMark]
  exact LevelTree.mapMark_of_const _ path [] t

theorem Tree.Stored.sub {f : FileContent} {n : ℕ} {v : Tree 3} (hv : Tree.Stored f v)
    {path : List UInt32} {t : Tree n} (h : v.Sub path n t) : Tree.Stored f t := by
  induction h with
  | root => exact hv
  | child _ hc ih => exact (Tree.stored_succ_iff.mp ih).2 _ _ hc

theorem Tree.mem_extents_of_sub {n : ℕ} {v : Tree 3} {path : List UInt32} {t : Tree n}
    (h : v.Sub path n t) {e : Extent} (he : e ∈ Tree.extents t) : e ∈ Tree.extents v := by
  rw [Tree.extents_eq _ path] at he
  exact h.mem_collect he

/-- Everything below and at a node is as it was, or the node was made by the commit `k`. -/
def Tree.RenewedBy (v' : Tree 3) (k : CommitId) (v : Tree 3) : Prop :=
  ∀ (path : List UInt32) (n : ℕ) (t : Tree n), v'.Sub path n t →
    v.Sub path n t ∨ t.mark.commitId = k ∧ t.mark.origin = .commit k

/-- What a commit makes of a database with the tree `v`. -/
structure Committed (db : Database) (v : Tree 3) (us : List BlobData) (σ : Schedule)
    (r : CommitResult) (v' : Tree 3) (lost : List MemoryBlock) : Prop where
  inv : (db.applyToDatabase r σ).Inv v'
  commitId : (db.applyToDatabase r σ).commitId = db.commitId + 1
  deleted : r.deleted = us.foldl Deleted.noted .empty
  beside : Beside db.file (db.commitId + 1) [] db.heap r.heap
  space : ∀ s ∈ db.storage, ∀ L ∈ r.freeList, ∀ x, spaceCount v' L x +
    coverage (lost.map MemoryBlock.fileLocation) x = spaceCount v s.freeList x
  stops : ∀ s ∈ db.storage, ∀ L ∈ r.freeList, ∀ g, s.StopsWith r L σ g →
    OnDisk g s.fileHeader s.freeList v ∨ OnDisk g (s.newHeader r L) L v'
  blocks : db.storage.isSome = true → ∀ b ∈ Tree.blocks [] v, b ∈ Tree.blocks [] v' ∨ b ∈ lost ∨
    ∃ δ ∈ r.delta, b ∈ δ.releasedBlocks
  keeps : ∀ e ∈ Tree.extents v, ∀ bytes, db.file.readIntoMemory e = some bytes →
    (db.applyToDatabase r σ).file.readIntoMemory e = some bytes
  renewed : v'.RenewedBy (db.commitId + 1) v

namespace Database.Inv

variable {db : Database} {v t : Tree 3} {tracked : Prop} {st : CommitState}
  {lost : List MemoryBlock} (hlimit : db.commitId + 1 < unknownCommitId)

/-- The tree a commit builds has the properties the invariant asks for. -/
theorem building_spec (h : db.Inv v)
    (hb : Building (db.commitId + 1) (fun path n t => v.Sub path n t) [] 3 t) :
    (t.AllMarks fun m => m.origin.Before (db.commitId + 1 + 1)) ∧
      (t.AllMarks fun m => m.commitId < db.commitId + 1 + 1) ∧
      t.AllKeys (· ≠ nextFreeBlobId) ∧
      t.AllMarks fun m => m.commitId = db.commitId + 1 → m.origin = .commit (db.commitId + 1) := by
  refine ⟨hb.allMarks (Nat.lt_succ_self _) fun hs => (hs.allMarks h.origin).imp fun m hm => ?_,
    hb.allMarks (Nat.lt_succ_self _) fun hs => (hs.allMarks h.commitIds).imp fun m hm =>
      Nat.lt_succ_of_lt hm,
    hb.allKeys (fun _ => id) fun hs => hs.allKeys h.keys,
    hb.allMarks (fun _ => rfl) fun hs => (hs.allMarks h.commitIds).imp fun m hm heq =>
      absurd heq hm.ne⟩
  cases ho : m.origin with
  | file => trivial
  | commit j =>
    rw [ho] at hm
    exact Nat.lt_succ_of_lt hm

theorem renewedBy_of_building (h : db.Inv v)
    (hb : Building (db.commitId + 1) (fun path n t => v.Sub path n t) [] 3 t) :
    t.RenewedBy (db.commitId + 1) v := fun path n s hs => by
  rcases (hb.sub h.isOld hs).cases with hnew | hold
  · exact Or.inr (by rw [hnew]; exact ⟨rfl, rfl⟩)
  · exact Or.inl hold

theorem renewedBy_place (h : db.Inv v) {location : Pointer → BlockReference}
    (hnew : t.RenewedBy (db.commitId + 1) v) :
    (place (db.commitId + 1) location [] t).RenewedBy (db.commitId + 1) v := fun path n s hs => by
  obtain ⟨s, hsub, rfl⟩ := hs.of_mapMark
  rcases hnew path n s hsub with hold | ⟨hid, horigin⟩
  · rw [show s.mapMark _ path = s from
      place_of_old ((hold.allMarks h.commitIds).imp fun m hm => hm.ne)]
    exact Or.inl hold
  · rw [LevelTree.mark_mapMark, placeMark, if_pos hid]
    exact Or.inr ⟨hid, horigin⟩

/-- A database in memory. -/
theorem commit_of_none (h : db.Inv v) {us : List BlobData} {σ : Schedule} {r : CommitResult}
    (hst : db.updates us = some st) (hs : db.storage = none)
    (hsite : Site (h.context hlimit tracked) [db.newSnapshot] lost st 3 db.newSnapshot t)
    (hbeside : Beside db.file (db.commitId + 1) [] db.heap st.heap)
    (hdel : st.deleted = us.foldl Deleted.noted .empty)
    (hr : db.calculateCommitResult us σ = some r) :
    Committed db v us σ r t lost ∧ r.heap = st.heap ∧ r.delta = st.delta := by
  rw [Database.calculateCommitResult, hst, hs] at hr
  obtain rfl := Option.some.inj hr
  have hfile : ∀ r, (db.applyToDatabase r σ).file = db.file := fun r => by
    simp only [Database.file, Database.applyToDatabase, hs]
  have hcommit : (db.applyToDatabase ⟨st.heap, db.newSnapshot, none, st.delta, st.deleted⟩
      σ).commitId = db.commitId + 1 := hsite.commitId
  obtain ⟨h1, h2, h3, -⟩ := h.building_spec hsite.building
  refine ⟨⟨⟨hsite.wf, rfl, hsite.status, ?_, ?_, ?_, h3, fun s hs' => ?_⟩, hcommit, hdel, hbeside,
    fun s hs' => ?_, fun s hs' => ?_, fun hs' => ?_, fun e _ bytes hread => ?_,
    h.renewedBy_of_building hsite.building⟩, rfl, rfl⟩
  · rw [Database.tree, hfile]
    exact hsite.view
  · rw [hcommit]
    exact h1
  · rw [hcommit]
    exact h2
  · simp only [Database.applyToDatabase, hs] at hs'
    cases hs'
  · rw [hs] at hs'
    cases hs'
  · rw [hs] at hs'
    cases hs'
  · rw [hs] at hs'
    cases hs'
  · rw [hfile]
    exact hread

/-- What the delta of a commit says: the objects of the commit are allocated, and each old block is
kept, lost or released. -/
theorem delta_of_site (h : db.Inv v)
    (hsite : Site (h.context hlimit tracked) [db.newSnapshot] lost st 3 db.newSnapshot t)
    {δ : MemoryBlockDelta} (hδ : st.delta = some δ) :
    δ.allocatedBlocks.Perm (newPointers (db.commitId + 1) [] t) ∧
      (Tree.blocks [] v).Perm
        (oldBlocks (db.commitId + 1) [] t ++ lost ++ δ.releasedBlocks) := by
  obtain ⟨hallocated, hblocks⟩ := hsite.books δ hδ
  have hmark : t.mark = newMark (db.commitId + 1) := hsite.mark
  rw [newPointers_of_new hmark, oldBlocks_of_new hmark]
  exact ⟨hallocated.trans (List.perm_append_singleton _ _), hblocks⟩

/-- A commit that is built and has found places is prepared to be written. -/
theorem prepared_of_site (h : db.Inv v) {s : Storage} (hs : db.storage = some s)
    (hsite : Site (h.context hlimit tracked) [db.newSnapshot] lost st 3 db.newSnapshot t)
    {δ : MemoryBlockDelta} (hδ : st.delta = some δ) {σ : Schedule} (hσ : σ.Walks δ)
    (hend : (s.freeList.allocateAndApplyDelta st.heap δ σ).2.endOffset < 2 ^ 64) :
    Prepared s.file s.fileHeader s.freeList v (db.commitId + 1) (fun path n t => v.Sub path n t)
      lost δ db.newSnapshot st.heap (s.freeList.allocateAndApplyDelta st.heap δ σ).1 t
      (s.freeList.allocateAndApplyDelta st.heap δ σ).2 := by
  obtain ⟨hallocated, hblocks⟩ := h.delta_of_site hlimit hsite hδ
  exact
    { onDisk := h.onDisk s hs
      isOld := (h.context hlimit tracked).isOld
      stored := fun hsub => ⟨(h.onDisk s hs).stored.sub hsub, fun _ => Tree.mem_extents_of_sub hsub⟩
      path := rfl
      origin := rfl
      wf := hsite.wf
      view := file_eq hs ▸ hsite.view
      building := hsite.building
      mark := hsite.mark
      allocated := hallocated
      blocks := hblocks
      allocation := allocation_of_allocateAndApplyDelta hσ
        (hallocated.nodup_iff.mpr (LevelTree.nodup_collect (q := Pointer.path)
          (fun p m => by unfold newPointer; split_ifs <;> simp)
          (fun p m b hb => by rw [(mem_newPointer.mp hb).2]) [] t))
        fun p hp => origin_of_mem_newPointers (hallocated.subset hp)
      commitId := hlimit.trans (by decide)
      endOffset := hend }

/-- The tree with the places has the properties the invariant asks for. -/
theorem place_spec (h : db.Inv v)
    (hb : Building (db.commitId + 1) (fun path n t => v.Sub path n t) [] 3 t)
    (location : Pointer → BlockReference) :
    ((place (db.commitId + 1) location [] t).AllMarks fun m =>
        m.origin.Before (db.commitId + 1 + 1)) ∧
      ((place (db.commitId + 1) location [] t).AllMarks fun m =>
        m.commitId < db.commitId + 1 + 1) ∧
      (place (db.commitId + 1) location [] t).AllKeys (· ≠ nextFreeBlobId) := by
  obtain ⟨h1, h2, h3, -⟩ := h.building_spec hb
  refine ⟨LevelTree.allMarks_mapMark (h1.imp fun m hm p => ?_),
    LevelTree.allMarks_mapMark (h2.imp fun m hm p => ?_), LevelTree.allKeys_mapMark h3⟩
  · rw [origin_placeMark]
    exact hm
  · rw [commitId_placeMark]
    exact hm

/-- A database with a file. -/
theorem commit_of_some (h : db.Inv v) {us : List BlobData} {σ : Schedule} {r : CommitResult}
    {s : Storage} (hst : db.updates us = some st) (hs : db.storage = some s)
    (hsite : Site (h.context hlimit tracked) [db.newSnapshot] lost st 3 db.newSnapshot t)
    (hbeside : Beside db.file (db.commitId + 1) [] db.heap st.heap)
    (hdel : st.deleted = us.foldl Deleted.noted .empty)
    (hr : db.calculateCommitResult us σ = some r) (hσ : ∀ δ ∈ r.delta, σ.Walks δ)
    (hend : ∀ L ∈ r.freeList, L.endOffset < 2 ^ 64) :
    Committed db v us σ r (place (db.commitId + 1) r.heap.locations [] t) lost ∧
      Placed (db.commitId + 1) st.heap r.heap ∧ r.delta = st.delta := by
  obtain ⟨δ, hδ⟩ : ∃ δ, st.delta = some δ := by
    refine Option.isSome_iff_exists.mp ?_
    rw [CommitState.isSome_delta_applyUpdates hst, Database.beginCommit, hs]
    rfl
  rw [Database.calculateCommitResult, hst, hs] at hr
  simp only [hδ] at hr
  obtain rfl := Option.some.inj hr
  have hp := h.prepared_of_site hlimit hs hsite hδ (hσ δ rfl) (hend _ rfl)
  obtain ⟨-, hblocks⟩ := h.delta_of_site hlimit hsite hδ
  set a := s.freeList.allocateAndApplyDelta st.heap δ σ with ha
  have hplaced := hp.allocation.placed
  have hstored := (hσ δ rfl).stored
  set db' := db.applyToDatabase ⟨a.1, db.newSnapshot, some a.2, some δ, st.deleted⟩ σ with hdb'
  have hstorage : db'.storage = some (s.afterCommit
      ⟨a.1, db.newSnapshot, some a.2, some δ, st.deleted⟩ a.2 σ) := by
    simp only [hdb', Database.applyToDatabase, hs]
  have hfile' : db'.file = (s.file.writeAll (storeMemoryBlocks a.1 a.2 σ.storedOrder [])).writeFromMemory
      (headerWrite (s.fileHeader.switchRoot
        ⟨a.1.fileLocation 3 db.newSnapshot, a.2.fileLocation⟩)) := file_eq hstorage
  have hdisk : OnDisk db'.file (s.fileHeader.switchRoot
        ⟨a.1.fileLocation 3 db.newSnapshot, a.2.fileLocation⟩) a.2
      (place (db.commitId + 1) a.1.locations [] t) := by
    rw [hfile']
    exact hp.onDisk_new hstored
  have hbeside' : Beside db.file (db.commitId + 1) [] db.heap a.1 := by
    refine hbeside.trans hsite.wf (Beside.of_agree fun q hq => hplaced.old q fun heq => ?_)
    rw [heq] at hq
    exact hq.elim (Nat.lt_irrefl _) fun hn => hn List.nil_prefix
  have hkeeps : ∀ e ∈ Tree.extents v, ∀ bytes, s.file.readIntoMemory e = some bytes →
      db'.file.readIntoMemory e = some bytes := fun e he bytes hread => by
    rw [hfile']
    exact hp.readIntoMemory_new hstored he hread
  obtain ⟨h1, h2, h3⟩ := h.place_spec hsite.building a.1.locations
  obtain ⟨-, -, -, h4⟩ := h.building_spec hsite.building
  have hcommit : db'.commitId = db.commitId + 1 := by
    have := hsite.commitId
    change (a.1.directories db.newSnapshot).commitId = db.commitId + 1
    rw [hplaced.directory]
    exact this
  refine ⟨⟨⟨hplaced.wf hsite.wf, rfl, (hplaced.status 3 _).trans hsite.status, ?_, hcommit ▸ h1,
    hcommit ▸ h2, h3, fun s' hs' => ?_⟩, hcommit, hdel, hbeside', ?_, ?_,
    fun _ b hb => ?_, ?_, h.renewedBy_place
      (h.renewedBy_of_building hsite.building)⟩, hplaced, hδ.symm⟩
  · -- an object of the tree is one of the commit, or lies where the old tree has it
    refine view_of_file (hplaced.wf hsite.wf) rfl hp.view_place fun b hb => ?_
    rcases mem_blocks_place h4 hb with hnew | hold
    · refine Or.inl ⟨Heap.known_of_origin (by rw [hnew]; rintro ⟨⟩), ?_⟩
      exact Heap.status_of_origin (hplaced.wf hsite.wf) (by rw [hnew]; rintro ⟨⟩)
    · refine Or.inr (hkeeps _ ?_)
      rw [← Tree.map_blocks []]
      exact List.mem_map_of_mem (hblocks.symm.subset
        (List.mem_append_left _ (List.mem_append_left _ hold)))
  · rw [hstorage] at hs'
    obtain rfl := Option.some.inj hs'
    rw [file_eq hstorage] at hdisk
    exact hdisk
  · rintro s' hs' L hL x
    rw [hs] at hs'
    obtain rfl := Option.some.inj hs'
    obtain rfl := Option.some.inj hL
    exact hp.spaceCount_place x
  · rintro s' hs' L hL g hg
    rw [hs] at hs'
    obtain rfl := Option.some.inj hs'
    obtain rfl := Option.some.inj hL
    exact hp.onDisk_of_stop hstored hg
  · rcases List.mem_append.mp (hblocks.subset hb) with hb | hb
    · rcases List.mem_append.mp hb with hb | hb
      · exact Or.inl (mem_blocks_place_of_old hb)
      · exact Or.inr (Or.inl hb)
    · exact Or.inr (Or.inr ⟨δ, rfl, hb⟩)
  · rw [file_eq hs]
    exact hkeeps

end Database.Inv

end BlobsDb
