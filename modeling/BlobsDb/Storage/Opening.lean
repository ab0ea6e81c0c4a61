import BlobsDb.Storage.Copying

/-!
# Opening databases

Opening a file that holds a database gives a database with the invariant, whose tree is the one
in the file. New database files hold a database, and databases in memory start with the
invariant.
-/

namespace BlobsDb

open Heap (Beside)

variable {f : FileContent} {header : FileHeader} {L : FreeList} {v : Tree 3}

/-! ### Reading the root -/

/-- Entering children does not depend on their parent. -/
theorem foldl_delayLoad_congr {n : ℕ} {p : Pointer} {h g : Heap}
    (hd : ∀ q, q ≠ p → h.directories q = g.directories q) (hb : h.blobs = g.blobs)
    (l : List (UInt32 × BlockReference)) :
    (∀ q, q ≠ p → (l.foldl (Heap.delayLoad n p) h).directories q =
      (l.foldl (Heap.delayLoad n p) g).directories q) ∧
      (l.foldl (Heap.delayLoad n p) h).blobs = (l.foldl (Heap.delayLoad n p) g).blobs := by
  induction l generalizing h g with
  | nil => exact ⟨hd, hb⟩
  | cons e l ih =>
    refine ih (h := Heap.delayLoad n p h e) (g := Heap.delayLoad n p g e) (fun q hq => ?_) ?_
    · cases n with
      | zero => exact hd q hq
      | succ n =>
        by_cases hqe : q = p.child e.1 .file
        · rw [hqe, Heap.delayLoad, Heap.delayLoad, Heap.directories_setDirectory_self,
            Heap.directories_setDirectory_self]
        · rw [Heap.delayLoad, Heap.delayLoad, Heap.directories_setDirectory_of_ne _ _ hqe,
            Heap.directories_setDirectory_of_ne _ _ hqe]
          exact hd q hq
    · cases n with
      | zero => simp only [Heap.delayLoad, Heap.setBlob, hb]
      | succ n => exact hb

theorem wf_default : (default : Heap).WF :=
  ⟨fun _ _ _ _ _ ho => (nomatch ho), fun _ _ _ ho => (nomatch ho), fun _ hp => (nomatch hp),
    fun _ hp => (nomatch hp), fun _ _ _ => rfl, fun _ _ _ ho => (nomatch ho)⟩

/-- The heap of a database that was just opened is one where only the snapshot was loaded. -/
theorem load_snapshot {r : BlockReference} {bytes : List UInt8} {d : DirectoryBlock}
    (hbytes : f.readIntoMemory r = some bytes) (hd : decodeDirectory bytes = some d) :
    ∃ h₀ : Heap, h₀.WF ∧ h₀.status 3 Database.fileSnapshot = .notLoaded ∧
      h₀.fileLocation 3 Database.fileSnapshot = r ∧
      Heap.load f 3 h₀ Database.fileSnapshot =
        some ((d.children.entries.foldl (Heap.delayLoad 2 Database.fileSnapshot)
          default).setDirectory Database.fileSnapshot
          ({ Directory.new 0 d.commitId with fileLocation := r }.loadedWith d)) := by
  set p := Database.fileSnapshot with hp
  set d₀ : Directory := { Directory.delayed 0 r with nextFreeIdCommit := d.commitId } with hd₀
  have hdir : ((default : Heap).setDirectory p d₀).directories p = d₀ :=
    Heap.directories_setDirectory_self _ _ _
  have hne : ∀ q, q ≠ p → ((default : Heap).setDirectory p d₀).directories q =
      (default : Heap).directories q := fun q hq => Heap.directories_setDirectory_of_ne _ _ hq
  have hchildren : ∀ q id o,
      (((default : Heap).setDirectory p d₀).directories q).children.find id ≠ some o := by
    intro q id o ho
    by_cases hqp : q = p
    · rw [hqp, hdir] at ho
      cases ho
    · rw [hne q hqp] at ho
      cases ho
  refine ⟨(default : Heap).setDirectory p d₀, ⟨fun k q id o _ ho => absurd ho (hchildren q id o),
    fun q id o ho => absurd ho (hchildren q id o), fun q hq => ?_, fun q hq => (nomatch hq),
    fun q hq _ => ?_, fun q id _ ho => absurd ho (hchildren q id _)⟩, ?_, ?_, ?_⟩
  · by_cases hqp : q = p
    · rw [hqp, hdir]
      exact ⟨rfl, rfl, rfl, rfl⟩
    · rw [hne q hqp] at hq
      cases hq
  · rw [hne q fun hqp => hq (by rw [hqp]; rfl)]
    rfl
  · rw [Heap.status, hdir]
    rfl
  · rw [Heap.fileLocation, hdir]
    rfl
  · simp only [Heap.load, hdir]
    rw [show d₀.fileLocation = r from rfl, hbytes]
    simp only [hd]
    obtain ⟨h1, h2⟩ := foldl_delayLoad_congr (n := 2) (p := p)
      (h := (default : Heap).setDirectory p d₀) (g := default) hne rfl d.children.entries
    refine congrArg some ?_
    simp only [Heap.setDirectory, Heap.mk.injEq]
    refine ⟨funext fun q => ?_, h2⟩
    by_cases hqp : q = p
    · rw [hqp, Function.update_self, Function.update_self]
      rfl
    · rw [Function.update_of_ne hqp, Function.update_of_ne hqp]
      exact h1 q hqp

/-- Opening a file that holds a database. -/
theorem Database.exists_readInitialFileDatabaseData (h : OnDisk f header L v)
    (hkeys : v.AllKeys (· ≠ nextFreeBlobId))
    (hids : v.AllMarks fun m => m.commitId < v.mark.commitId + 1) :
    ∃ db, Database.readInitialFileDatabaseData f = some db ∧ db.Inv v.onFile ∧
      db.storage = some ⟨f, header, L⟩ ∧ db.commitId = v.mark.commitId ∧
      db.mvccSnapshot = none ∧ db.mvccUseCount = 0 := by
  obtain ⟨⟨bytes, hbytes, hd⟩, -⟩ := Tree.stored_succ_iff.mp h.stored
  obtain ⟨lbytes, hlbytes, hl⟩ := h.freeListBlock
  obtain ⟨h₀, hwf, hnot, hloc, hload⟩ := load_snapshot hbytes hd
  have hk : h₀.Known Database.fileSnapshot := fun _ path hpre hne =>
    absurd (List.prefix_nil.mp hpre) hne
  obtain ⟨hloads, hstatus⟩ := Heap.loads_of_load_succ (n := 2) hwf rfl hk hnot hload
  set heap := (FlatMap.entries (v.children.map fun c : Tree 2 => c.mark.fileLocation)).foldl
    (Heap.delayLoad 2 Database.fileSnapshot) default with hheap
  refine ⟨⟨heap.setDirectory Database.fileSnapshot
      ({ Directory.new 0 v.mark.commitId with fileLocation := v.mark.fileLocation }.loadedWith
        ⟨v.mark.commitId, v.info, v.children.map fun c : Tree 2 => c.mark.fileLocation⟩),
    Database.fileSnapshot, none, 0, some ⟨f, header, L⟩⟩, ?_, ?_, rfl, ?_, rfl, rfl⟩
  · unfold Database.readInitialFileDatabaseData
    rw [h.headerBlock]
    simp only [decodeHeader_encodeHeader h.fits, h.root, hbytes, hd, hlbytes, hl]
    rfl
  · have hview := hloads.view hwf 3 Database.fileSnapshot rfl hk
    rw [Heap.view_of_notLoaded hnot, hloc, h.stored] at hview
    have hcommit : Heap.commitId 3 (heap.setDirectory Database.fileSnapshot
        ({ Directory.new 0 v.mark.commitId with fileLocation := v.mark.fileLocation }.loadedWith
          ⟨v.mark.commitId, v.info, v.children.map fun c : Tree 2 => c.mark.fileLocation⟩))
        Database.fileSnapshot = v.mark.commitId := by
      rw [Heap.commitId, Heap.directories_setDirectory_self]
      rfl
    refine ⟨hloads.wf hwf, rfl, hstatus, hview, ?_, ?_, ?_, fun s hs => ?_⟩
    · exact Tree.allMarks_onFile (hids.imp fun m hm => trivial)
    · exact Tree.allMarks_onFile (hids.imp fun m hm =>
        hm.trans_eq (congrArg (· + 1) hcommit.symm))
    · exact LevelTree.allKeys_mapMark hkeys
    · obtain rfl := Option.some.inj hs
      exact h.onFile
  · rw [Database.commitId, Heap.directories_setDirectory_self]
    rfl

/-! ### New files -/

namespace Initial

/-- The root of a new file. -/
def fileHeader : FileHeader := ⟨0, ![⟨⟨80, 40⟩, ⟨208, 32⟩⟩, default]⟩

/-- The free list of a new file. -/
def freeList : FreeList := ⟨1024, [⟨240, 784⟩], ⟨208, 32⟩⟩

/-- The tree of a new file. -/
def tree : Tree 3 :=
  LevelTree.node ⟨.file, ⟨80, 40⟩, 1⟩ 1 <| FlatMap.empty.insert 0 <|
    LevelTree.node ⟨.file, ⟨120, 40⟩, 1⟩ 1 <| FlatMap.empty.insert 0 <|
      LevelTree.node ⟨.file, ⟨160, 40⟩, 1⟩ 1 <| FlatMap.empty.insert 0 <|
        LevelTree.leaf ⟨.file, ⟨200, 8⟩, 1⟩ []

/-- The block with one child. -/
def directoryBlock (r : BlockReference) : DirectoryBlock := ⟨1, 1, FlatMap.empty.insert 0 r⟩

def directoryBytes (r : BlockReference) : List UInt8 :=
  encodeDirectory [0, 0, 0, 0] (directoryBlock r)

theorem length_directoryBytes (r : BlockReference) : (directoryBytes r).length = 40 :=
  length_encodeDirectory rfl _

theorem decodeDirectory_directoryBytes {r : BlockReference} (hr : FitsReference r) :
    decodeDirectory (directoryBytes r) = some (directoryBlock r) := by
  refine decodeDirectory_encodeDirectory rfl ⟨show 1 < 2 ^ 64 by decide, fun id r' h => ?_, show 1 < 2 ^ 32 by decide⟩
  obtain ⟨-, rfl⟩ := FlatMap.find_insert_empty_eq_some.mp h
  exact hr

theorem fits_roots (i : Fin 2) : (fileHeader.roots i).Fits := by
  rcases Fin.exists_fin_two.mp ⟨i, rfl⟩ with rfl | rfl <;>
    exact ⟨⟨by decide, by decide⟩, ⟨by decide, by decide⟩⟩

theorem initialContent_eq : Database.initialContent =
    encodeHeader fileHeader ++ (directoryBytes ⟨120, 40⟩ ++ (directoryBytes ⟨160, 40⟩ ++
      (directoryBytes ⟨200, 8⟩ ++ (encodeBlob ⟨1, []⟩ ++
        (encodeFreeList ⟨1024, [⟨240, 784⟩]⟩ ++ List.replicate 784 0))))) := rfl

/-- A part of the content of a new file. -/
theorem read_part {a b c : List UInt8} {i j : ℕ} (ha : a.length = i) (hb : b.length = j)
    (hj : 0 < j) (hcontent : Database.initialContent = a ++ (b ++ c)) :
    Database.initializeDatabaseFile.readIntoMemory ⟨i, j⟩ = some b := by
  subst ha hb
  rw [Database.initializeDatabaseFile, hcontent]
  exact FileContent.readIntoMemory_writeFromMemory_append _ a b c (List.length_pos_iff.mp hj)

/-- A snapshot, segment or cluster of a new file. -/
theorem stored_node {n : ℕ} {r s : BlockReference} {c : Tree n}
    (hr : Database.initializeDatabaseFile.readIntoMemory r = some (directoryBytes s))
    (hfits : FitsReference s) (hm : c.mark.fileLocation = s)
    (hc : Tree.Stored Database.initializeDatabaseFile c) :
    Tree.Stored Database.initializeDatabaseFile
      (LevelTree.node ⟨.file, r, 1⟩ 1 (FlatMap.empty.insert 0 c) : Tree (n + 1)) := by
  subst hm
  refine Tree.stored_succ_iff.mpr ⟨⟨_, hr, decodeDirectory_directoryBytes hfits⟩, fun k c' hk => ?_⟩
  obtain ⟨-, rfl⟩ := FlatMap.find_insert_empty_eq_some.mp hk
  exact hc

theorem stored : Tree.Stored Database.initializeDatabaseFile tree := by
  have hheader := length_encodeHeader fileHeader
  have hdir := length_directoryBytes
  refine stored_node (s := ⟨120, 40⟩) (read_part hheader (hdir _) (by decide) initialContent_eq)
    ⟨by decide, by decide⟩ rfl ?_
  refine stored_node (s := ⟨160, 40⟩)
    (read_part (a := encodeHeader fileHeader ++ directoryBytes ⟨120, 40⟩)
    (by simp only [List.length_append, hheader, hdir]) (hdir _) (by decide)
    (initialContent_eq.trans (by simp only [List.append_assoc]; rfl)))
    ⟨by decide, by decide⟩ rfl ?_
  refine stored_node (s := ⟨200, 8⟩) (read_part
    (a := encodeHeader fileHeader ++ (directoryBytes ⟨120, 40⟩ ++ directoryBytes ⟨160, 40⟩))
    (by simp only [List.length_append, hheader, hdir]) (hdir _) (by decide)
    (initialContent_eq.trans (by simp only [List.append_assoc]; rfl)))
    ⟨by decide, by decide⟩ rfl ?_
  refine Tree.stored_zero_iff.mpr ⟨encodeBlob ⟨1, []⟩, read_part
    (a := encodeHeader fileHeader ++ (directoryBytes ⟨120, 40⟩ ++ (directoryBytes ⟨160, 40⟩ ++
      directoryBytes ⟨200, 8⟩)))
    (by simp only [List.length_append, hheader, hdir]) (length_encodeBlob _) (by decide)
    (initialContent_eq.trans (by simp only [List.append_assoc]; rfl)),
    decodeBlob_encodeBlob (by decide)⟩

theorem allKeys_tree : tree.AllKeys (· ≠ nextFreeBlobId) := by
  have hchild : ∀ {n : ℕ} {m : Mark} {c : Tree n}, c.AllKeys (· ≠ nextFreeBlobId) →
      (LevelTree.node m 1 (FlatMap.empty.insert 0 c) : Tree (n + 1)).AllKeys
        (· ≠ nextFreeBlobId) := fun hc k c' hk => by
    obtain ⟨rfl, rfl⟩ := FlatMap.find_insert_empty_eq_some.mp hk
    exact ⟨by decide, hc⟩
  exact hchild (hchild (hchild trivial))

theorem allMarks_tree : tree.AllMarks fun m => m.commitId = 1 := by
  have hchild : ∀ {n : ℕ} {m : Mark} {c : Tree n}, m.commitId = 1 →
      c.AllMarks (fun m => m.commitId = 1) →
      (LevelTree.node m 1 (FlatMap.empty.insert 0 c) : Tree (n + 1)).AllMarks
        fun m => m.commitId = 1 := fun hm hc => ⟨hm, fun k c' hk => by
    obtain ⟨-, rfl⟩ := FlatMap.find_insert_empty_eq_some.mp hk
    exact hc⟩
  exact hchild rfl (hchild rfl (hchild rfl rfl))

theorem usedExtents_eq : usedExtents tree freeList =
    [⟨0, 80⟩, ⟨80, 40⟩, ⟨120, 40⟩, ⟨160, 40⟩, ⟨200, 8⟩, ⟨208, 32⟩] := rfl

/-- The blocks of a new file and its free space cover every position once. -/
theorem spaceCount_eq (x : ℕ) : spaceCount tree freeList x = 1 := by
  have hfree : freeList.free x =
      (⟨240, 784⟩ : Extent).covers x + if 1024 ≤ x then 1 else 0 := rfl
  simp only [spaceCount, usedExtents_eq, hfree, coverage_cons, coverage_nil, Extent.covers]
  split_ifs <;> omega

/-- A new file holds the database with the empty blob. -/
theorem onDisk : OnDisk Database.initializeDatabaseFile fileHeader freeList tree where
  headerBlock := read_part (a := []) rfl (length_encodeHeader fileHeader) (by decide) initialContent_eq
  fits := fits_roots
  root := rfl
  stored := stored
  freeListBlock := by
    refine ⟨encodeFreeList ⟨1024, [⟨240, 784⟩]⟩, read_part
      (a := encodeHeader fileHeader ++ (directoryBytes ⟨120, 40⟩ ++ (directoryBytes ⟨160, 40⟩ ++
        (directoryBytes ⟨200, 8⟩ ++ encodeBlob ⟨1, []⟩)))) ?_ rfl (by decide)
      (initialContent_eq.trans (by simp only [List.append_assoc]; rfl)), ?_⟩
    · simp only [List.length_append, length_encodeHeader, length_directoryBytes, length_encodeBlob]
      rfl
    · refine (congrArg decodeFreeList (List.append_nil _).symm).trans
        (decodeFreeList_encodeFreeList_append (by decide) (by decide) (fun r hr => ?_) [])
      rw [List.mem_singleton.mp hr]
      exact ⟨by decide, by decide⟩
  space x := (spaceCount_eq x).le
  within b hb := by
    rw [List.mem_singleton.mp hb]
    exact Nat.le_refl 1024
  location := by decide
  endOffset := by decide

/-- Opening a new file. -/
theorem exists_readInitialFileDatabaseData : ∃ db,
    Database.readInitialFileDatabaseData Database.initializeDatabaseFile = some db ∧
      db.Inv tree.onFile ∧ db.storage = some ⟨Database.initializeDatabaseFile, fileHeader, freeList⟩ ∧
      db.commitId = 1 ∧ db.mvccSnapshot = none ∧ db.mvccUseCount = 0 :=
  Database.exists_readInitialFileDatabaseData onDisk allKeys_tree
    (allMarks_tree.imp fun m hm => hm.trans_lt (show 1 < 2 by decide))

end Initial

/-! ### Databases in memory -/

/-- What the snapshot of a database in memory is made from. -/
def initialContext : CommitContext where
  file := ⟨0, fun _ => 0⟩
  commitId := 1
  old _ _ _ := False
  blocks := []
  tracked := False
  isOld := ⟨fun h => h.elim, fun h => h.elim, fun h => h.elim⟩
  commitId_ne := by decide
  nodup := List.nodup_nil

/-- The tree of a database in memory before its first commit. -/
def initialTree : Tree 3 := DbTree.created (newMark 1) 3

/-- A database in memory whose snapshot was made by one commit. -/
theorem Database.inv_of_site {st : CommitState} {t : Tree 3}
    (h : Site initialContext [] [] st 3 ⟨[], .commit 1⟩ t) :
    (⟨st.heap, ⟨[], .commit 1⟩, none, 0, none⟩ : Database).Inv t := by
  have hcommit : (⟨st.heap, ⟨[], .commit 1⟩, none, 0, none⟩ : Database).commitId = 1 := h.commitId
  refine ⟨h.wf, rfl, h.status, h.view, ?_, ?_, ?_, fun s hs => nomatch hs⟩
  · rw [hcommit]
    exact h.building.allMarks (show 1 < 2 by decide) fun h => False.elim h
  · rw [hcommit]
    exact h.building.allMarks (show 1 < 2 by decide) fun h => False.elim h
  · exact h.building.allKeys (fun _ => id) fun h => False.elim h

/-- Databases in memory start with the invariant. -/
theorem Database.inv_initializeInMemory : Database.initializeInMemory.Inv initialTree := by
  have hwf : ((default : Heap).setDirectory ⟨[], .commit 1⟩ (.new 0 1)).WF :=
    wf_default.setDirectory (fun heq => nomatch heq) rfl (fun _ _ ho => nomatch ho) (fun _ => rfl)
      fun _ _ ho => nomatch ho
  have hsite : Site initialContext [] []
      ⟨(default : Heap).setDirectory ⟨[], .commit 1⟩ (.new 0 1), none, .empty⟩ 3
      ⟨[], .commit 1⟩ (LevelTree.node (newMark 1) 0 FlatMap.empty) :=
    { wf := hwf
      level := rfl
      origin := rfl
      view := Site.view_new rfl
      building := Or.inl ⟨rfl, fun _ _ hc => nomatch hc⟩
      books := fun _ hδ => nomatch hδ
      apart := fun _ hq => nomatch hq
      freed := fun htr => False.elim htr }
  have hload : (⟨(default : Heap).setDirectory ⟨[], .commit 1⟩ (.new 0 1), none,
      .empty⟩ : CommitState).ChildLoaded 2 ⟨[], .commit 1⟩ 0 := fun o ho => by
    rw [Heap.directories_setDirectory_self] at ho
    cases ho
  obtain ⟨-, -, -, -, w, L, hsite₁, hclean⟩ := hsite.updateDirectory
    createsFirst_cluster (by decide) (fun _ => hload) Prod.mk.eta.symm
  obtain ⟨rfl, rfl⟩ := hclean hload
  exact Database.inv_of_site (hsite₁.setNextFreeId 1).1

end BlobsDb
