import BlobsDb.Storage.Entries
import BlobsDb.Storage.Layout

/-!
# The invariant of a database

`db.Inv v` says that the active snapshot of the database is loaded and has the tree `v`, of nodes
that are at most as young as the snapshot, and that the file, if there is one, holds this tree.
Loading keeps the invariant with the same tree, a commit takes it to a new tree, and opening a
file establishes it.
-/

namespace BlobsDb

open Heap (Beside)

/-- What holds of a database whose active snapshot has the tree `v`. -/
structure Database.Inv (db : Database) (v : Tree 3) : Prop where
  wf : db.heap.WF
  path : db.snapshot.path = []
  loaded : (db.heap.directories db.snapshot).status = .loaded
  view : db.tree db.snapshot = some v
  origin : v.AllMarks fun m => m.origin.Before (db.commitId + 1)
  commitIds : v.AllMarks fun m => m.commitId < db.commitId + 1
  keys : v.AllKeys (· ≠ nextFreeBlobId)
  onDisk : ∀ s ∈ db.storage, OnDisk s.file s.fileHeader s.freeList v

namespace Database.Inv

variable {db : Database} {v : Tree 3} {tracked : Prop}

theorem level (h : db.Inv v) : db.snapshot.path.length + 3 = 3 := by rw [h.path]; rfl

theorem known (h : db.Inv v) : db.heap.Known db.snapshot := fun _ path hpre hne => by
  rw [h.path] at hpre hne
  exact absurd (List.prefix_nil.mp hpre) hne

theorem file_eq {s : Storage} (hs : db.storage = some s) : db.file = s.file := by
  rw [Database.file, hs]

theorem isOld (h : db.Inv v) :
    IsOld (db.commitId + 1) fun path n t => v.Sub path n t where
  commitId hs := (hs.allMarks h.commitIds).mark
  before hs := (hs.allMarks h.origin).mark
  child hs _ _ hc := ⟨(hs.allKeys h.keys _ _ hc).1, hs.child hc⟩

/-- What the next commit starts from. -/
def context (h : db.Inv v) (hlimit : db.commitId + 1 < unknownCommitId) (tracked : Prop) :
    CommitContext where
  file := db.file
  commitId := db.commitId + 1
  old := fun path n t => v.Sub path n t
  blocks := Tree.blocks [] v
  tracked := tracked
  isOld := h.isOld
  commitId_ne := hlimit.ne
  nodup := Tree.nodup_blocks [] v

variable (hlimit : db.commitId + 1 < unknownCommitId)

theorem mark_commitId (h : db.Inv v) : v.mark.commitId = db.commitId :=
  (Heap.commitId_of_view h.view (n := 3) h.loaded).symm

theorem newSnapshot_ne (h : db.Inv v) : db.newSnapshot ≠ db.snapshot := fun heq => by
  have hbefore := h.origin.mark
  rw [(Heap.mark_of_view h.wf h.view).1, ← heq] at hbefore
  exact Nat.lt_irrefl _ hbefore

variable (tracked) in
/-- The state a commit starts from is at a copy of the snapshot. -/
theorem beginCommit (h : db.Inv v) :
    Site (h.context hlimit tracked) [db.newSnapshot] [] db.beginCommit 3 db.newSnapshot
        (v.setMark (newMark (db.commitId + 1))) ∧
      Beside db.file (db.commitId + 1) [] db.heap db.beginCommit.heap := by
  set d := db.heap.directories db.snapshot with hd
  have hbeside : Beside db.file (db.commitId + 1) [] db.heap db.beginCommit.heap :=
    Beside.setDirectory _ _ rfl List.nil_prefix
  have horigin : ∀ j, (Origin.commit (db.commitId + 1)).Before j → db.snapshot.origin.Before j := fun j hj => by
    have hbefore := h.origin.mark
    rw [(Heap.mark_of_view h.wf h.view).1] at hbefore
    cases ho : db.snapshot.origin with
    | file => trivial
    | commit i =>
      rw [ho] at hbefore
      exact lt_trans (show i < db.commitId + 1 from hbefore) hj
  -- the new snapshot has the path of the old one, so their children are the same objects
  have hchild : ∀ id o, db.snapshot.child id o = db.newSnapshot.child id o := fun id o => by
    rw [Pointer.child, Pointer.child, h.path]
    rfl
  have hwf : db.beginCommit.heap.WF := by
    refine h.wf.setDirectory (by rintro ⟨⟩) rfl (fun id o ho => ⟨fun j hj => ?_, ?_⟩)
      (fun hpath => absurd rfl hpath) fun hlength id ho => ?_
    · exact h.wf.before_child j db.snapshot id o (horigin j hj) ho
    · rw [← hchild]
      exact h.wf.known_child db.snapshot id o ho
    · rw [← hchild]
      exact h.wf.nextFreeIdCommit_file db.snapshot id (h.path ▸ hlength) ho
  have hdir : db.beginCommit.heap.directories db.newSnapshot = Snapshot.copy d :=
    Heap.directories_setDirectory_self _ _ _
  have hs : (db.beginCommit.heap.directories db.newSnapshot).status = .loaded := by
    rw [hdir]
    rfl
  obtain ⟨h1, h2, h3⟩ := (Heap.view_succ_of_loaded h.loaded).mp h.view
  have hold : v.Sub [] 3 v := LevelTree.Sub.root
  refine ⟨⟨hwf, rfl, rfl, (Heap.view_succ_of_loaded hs).mpr ⟨?_, ?_, fun id => ?_⟩,
    (Building.of_old hold).setMark (h.context hlimit tracked).isOld, ?_, fun q hq => ?_,
    fun htr => ?_⟩, hbeside⟩
  · rw [hdir]
    rfl
  · rw [hdir]
    exact h2
  · rw [hdir]
    refine Eq.trans ?_ (h3 id)
    refine congrArg (Option.map · _) (funext fun o => ?_)
    rw [← hchild]
    exact Heap.view_setDirectory_of_not_prefix _ _ fun hpre => by
      simpa [Database.newSnapshot] using hpre.length_le
  · -- the delta lists the new snapshot, and the block of the old one
    rintro δ hδ
    obtain ⟨s, hs, rfl⟩ := Option.map_eq_some_iff.mp hδ
    obtain ⟨horigin, hloc⟩ := Heap.mark_of_view h.wf h.view
    have hne : db.snapshot ∉ ([db.newSnapshot] : List Pointer) := fun hmem =>
      h.newSnapshot_ne (List.mem_singleton.mp hmem).symm
    have hblocks : oldBlocks (db.commitId + 1) [] v = Tree.blocks [] v :=
      oldBlocks_eq_blocks (h.commitIds.imp fun m hm => hm.ne)
    rw [oldBlocks_of_old (h.commitIds.mark.ne), horigin, hloc] at hblocks
    have hsnapshot : (⟨[], db.snapshot.origin⟩ : Pointer) = db.snapshot := by rw [← h.path]
    simp only [MemoryBlockDelta.empty, MemoryBlockDelta.allocated, MemoryBlockDelta.released,
      List.not_mem_nil, if_false, hne, List.map_nil]
    refine ⟨?_, ?_⟩
    · have hnil : newBelow (db.commitId + 1) [] v = [] :=
        newBelow_of_old (h.context hlimit tracked).isOld hold
      rw [newBelow_setMark]
      change List.Perm _ (newBelow (db.commitId + 1) [] v ++ [db.newSnapshot])
      rw [hnil]
      exact List.Perm.refl _
    · rw [oldBelow_setMark, List.append_nil]
      change (Tree.blocks [] v).Perm _
      rw [← hblocks, hsnapshot]
      exact (List.perm_append_singleton _ _).symm
  · rw [List.mem_singleton.mp hq]
    exact ⟨rfl, fun id hpre => by simpa using hpre.length_le⟩
  · rintro δ hδ b hb
    obtain ⟨s, hs, rfl⟩ := Option.map_eq_some_iff.mp hδ
    have hne : db.snapshot ∉ ([db.newSnapshot] : List Pointer) := fun hmem =>
      h.newSnapshot_ne (List.mem_singleton.mp hmem).symm
    simp only [MemoryBlockDelta.empty, MemoryBlockDelta.allocated, MemoryBlockDelta.released,
      List.not_mem_nil, if_false, hne, List.map_nil] at hb
    rw [List.mem_singleton.mp hb]
    have hbefore := h.origin.mark
    rw [(Heap.mark_of_view h.wf h.view).1] at hbefore
    have hlevel : db.snapshot.level = 3 := by rw [Pointer.level, h.path]; rfl
    refine ⟨hbefore, hbeside.known _ h.known, ?_⟩
    change db.beginCommit.heap.status db.snapshot.level db.snapshot = .loaded
    rw [hlevel]
    exact hbeside.status (n := 3) h.known (Or.inl hbefore) h.loaded

/-- The entries of a commit build a tree, whatever they are. -/
theorem updates (h : db.Inv v) (us : List BlobData)
    (hmvcc : tracked → db.mvccSnapshot.isSome = true)
    (hload : tracked → (h.context hlimit tracked).AllAddressedLoaded db.heap us
      (v.setMark (newMark (db.commitId + 1)))) :
    ∃ st t lost, db.updates us = some st ∧
      Site (h.context hlimit tracked) [db.newSnapshot] lost st 3 db.newSnapshot t ∧
      Beside db.file (db.commitId + 1) [] db.heap st.heap ∧
      st.deleted = us.foldl Deleted.noted .empty ∧
      ((h.context hlimit tracked).AllAddressedLoaded db.heap us
        (v.setMark (newMark (db.commitId + 1))) →
        t = DbTree.updates (newMark (db.commitId + 1)) us v ∧ lost = []) := by
  obtain ⟨hsite, hbeside⟩ := h.beginCommit tracked hlimit
  obtain ⟨st, t, lost, h1, h2, h3, h4, h5⟩ := hsite.applyUpdates us hmvcc
    fun htr => (hload htr).beside hbeside
  rw [List.append_nil] at h2
  exact ⟨st, t, lost, h1, h2, hbeside.trans hsite.wf h3, h4, fun hl => h5 (hl.beside hbeside)⟩

end Database.Inv

end BlobsDb
