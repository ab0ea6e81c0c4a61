import BlobsDb.Storage.Writing

/-!
# The layout of a database file

`OnDisk f header L v` says that a file holds a database with the tree `v` and the free list `L`:
the header leads to both, and no position of the file is used or free twice.
-/

namespace BlobsDb

variable {f g : FileContent} {header : FileHeader} {L : FreeList} {v : Tree 3} {e : Extent}

/-- The blocks of a file that are in use: the header, those of the tree, and the one of the free
list. -/
def usedExtents (v : Tree 3) (L : FreeList) : List Extent :=
  ⟨0, 80⟩ :: (Tree.extents v ++ [L.fileLocation])

/-- How often a position of the file is used or free. -/
def spaceCount (v : Tree 3) (L : FreeList) (x : ℕ) : ℕ := coverage (usedExtents v L) x + L.free x

/-- The file holds the database with the tree `v` and the free list `L`. -/
structure OnDisk (f : FileContent) (header : FileHeader) (L : FreeList) (v : Tree 3) : Prop where
  headerBlock : f.readIntoMemory ⟨0, 80⟩ = some (encodeHeader header)
  fits : ∀ i, (header.roots i).Fits
  root : header.roots header.rootIndex = ⟨v.mark.fileLocation, L.fileLocation⟩
  stored : Tree.Stored f v
  freeListBlock : ∃ bytes, f.readIntoMemory L.fileLocation = some bytes ∧
    decodeFreeList bytes = some ⟨L.endOffset, L.entries⟩
  space : ∀ x, spaceCount v L x ≤ 1
  within : L.Within
  location : L.fileLocation.endOffset ≤ L.endOffset
  endOffset : L.endOffset < 2 ^ 64

theorem mem_usedExtents : e ∈ usedExtents v L ↔
    e = ⟨0, 80⟩ ∨ e ∈ Tree.extents v ∨ e = L.fileLocation := by
  simp [usedExtents]

/-- Blocks in use end before the end offset. -/
theorem endOffset_le_of_mem (hspace : ∀ x, spaceCount v L x ≤ 1) (he : e ∈ usedExtents v L)
    (hpos : 0 < e.size) : e.endOffset ≤ L.endOffset := by
  by_contra hlt
  have hx : e.endOffset - 1 ∈ e.positions := by
    rw [Extent.mem_positions, Extent.endOffset]
    omega
  have h1 := coverage_pos_of_mem he hx
  have h2 := hspace (e.endOffset - 1)
  rw [spaceCount, FreeList.free, if_pos (by omega)] at h2
  omega

theorem fitsReference_of_mem (hspace : ∀ x, spaceCount v L x ≤ 1) (he : e ∈ usedExtents v L)
    (hpos : 0 < e.size) (hend : L.endOffset < 2 ^ 64) : FitsReference e := by
  have := endOffset_le_of_mem hspace he hpos
  rw [Extent.endOffset] at this
  exact ⟨by omega, by omega⟩

/-- The blocks in use do not meet. -/
theorem pairwise_usedExtents (hspace : ∀ x, spaceCount v L x ≤ 1) :
    (usedExtents v L).Pairwise fun a b => Disjoint a.positions b.positions :=
  pairwise_disjoint_iff.mpr fun x => (Nat.le_add_right _ _).trans (hspace x)

/-- The header meets no other block in use. -/
theorem disjoint_header (hspace : ∀ x, spaceCount v L x ≤ 1)
    (he : e ∈ Tree.extents v ∨ e = L.fileLocation) :
    Disjoint (⟨0, 80⟩ : Extent).positions e.positions :=
  (List.pairwise_cons.mp (pairwise_usedExtents hspace)).1 e (by simpa using he)

/-- The layout depends on the blocks in use only. -/
theorem OnDisk.congr (h : OnDisk f header L v)
    (hfg : ∀ e ∈ usedExtents v L, ∀ l, f.readIntoMemory e = some l →
      g.readIntoMemory e = some l) : OnDisk g header L v where
  headerBlock := hfg _ (mem_usedExtents.mpr (Or.inl rfl)) _ h.headerBlock
  fits := h.fits
  root := h.root
  stored := h.stored.congr fun e he => hfg e (mem_usedExtents.mpr (Or.inr (Or.inl he)))
  freeListBlock := by
    obtain ⟨bytes, hbytes, hdecode⟩ := h.freeListBlock
    exact ⟨bytes, hfg _ (mem_usedExtents.mpr (Or.inr (Or.inr rfl))) _ hbytes, hdecode⟩
  space := h.space
  within := h.within
  location := h.location
  endOffset := h.endOffset

/-- The layout does not depend on where objects come from. -/
theorem OnDisk.onFile (h : OnDisk f header L v) : OnDisk f header L v.onFile where
  headerBlock := h.headerBlock
  fits := h.fits
  root := by
    rw [Tree.mark_onFile]
    exact h.root
  stored := by
    rw [Tree.Stored, Tree.mark_onFile, Tree.onFile_onFile]
    exact h.stored
  freeListBlock := h.freeListBlock
  space x := by
    rw [spaceCount, usedExtents, Tree.extents_onFile]
    exact h.space x
  within := h.within
  location := h.location
  endOffset := h.endOffset

/-! ### Writing a commit to the file -/

variable {k : CommitId} {S : List UInt32 → ∀ n, Tree n → Prop} {h h' : Heap}
  {δ : MemoryBlockDelta} {L' : FreeList} {t : Tree 3} {p : Pointer} {lost : List MemoryBlock}
  {l : List (Option Pointer)} {buffer : List UInt8}

/-- A commit that has built its tree `t` and has found places for it. -/
structure Prepared (f : FileContent) (header : FileHeader) (L : FreeList) (v : Tree 3)
    (k : CommitId) (S : List UInt32 → ∀ n, Tree n → Prop) (lost : List MemoryBlock)
    (δ : MemoryBlockDelta) (p : Pointer) (h h' : Heap) (t : Tree 3) (L' : FreeList) : Prop where
  onDisk : OnDisk f header L v
  isOld : IsOld k S
  stored : ∀ {path n} {t : Tree n}, S path n t → Tree.Stored f t ∧
    ∀ e ∈ Tree.extents t, e ∈ Tree.extents v
  path : p.path = []
  origin : p.origin = .commit k
  wf : h.WF
  view : h.view f 3 p = some t
  building : Building k S [] 3 t
  mark : t.mark = newMark k
  allocated : δ.allocatedBlocks.Perm (newPointers k [] t)
  blocks : (Tree.blocks [] v).Perm (oldBlocks k [] t ++ lost ++ δ.releasedBlocks)
  allocation : Allocation k L h δ h' L'
  commitId : k < 2 ^ 64
  endOffset : L'.endOffset < 2 ^ 64

namespace Prepared

variable (hp : Prepared f header L v k S lost δ p h h' t L')

include hp

/-- The new tree, with the places. -/
theorem view_place : h'.view f 3 p = some (place k h'.locations [] t) := by
  have := hp.allocation.placed.view hp.isOld hp.wf (n := 3) (p := p) (by rw [hp.path]; rfl)
    hp.view (by rw [hp.path]; exact hp.building)
  rw [hp.path] at this
  exact this

/-- No space is lost but that of lost blocks. -/
theorem spaceCount_place (x : ℕ) :
    spaceCount (place k h'.locations [] t) L' x +
      coverage (lost.map MemoryBlock.fileLocation) x = spaceCount v L x := by
  obtain ⟨free, h1, h2⟩ := hp.allocation.count
  have hv := coverage_perm (hp.blocks.map MemoryBlock.fileLocation) x
  rw [Tree.map_blocks, List.map_append, List.map_append, coverage_append, coverage_append] at hv
  have hnew := coverage_perm (hp.allocated.map h'.locations) x
  have h1 := h1 x
  have h2 := h2 x
  simp only [spaceCount, usedExtents, coverage_cons, coverage_append, coverage_nil,
    coverage_extents_place]
  omega

theorem space_place (x : ℕ) : spaceCount (place k h'.locations [] t) L' x ≤ 1 :=
  (Nat.le_add_right _ _).trans ((hp.spaceCount_place x).trans_le (hp.onDisk.space x))

/-- The blocks to write meet neither each other nor a block in use. -/
theorem pairwise_writes : (usedExtents v L ++ (L'.fileLocation ::
    δ.allocatedBlocks.map h'.locations)).Pairwise fun a b => Disjoint a.positions b.positions := by
  refine pairwise_disjoint_iff.mpr fun x => ?_
  obtain ⟨free, h1, -⟩ := hp.allocation.count
  have h1 := h1 x
  have h2 := hp.onDisk.space x
  rw [spaceCount] at h2
  rw [coverage_append, coverage_cons]
  omega

/-- No write meets a block in use. -/
theorem disjoint_writes (hl : l.Perm (none :: δ.allocatedBlocks.map some))
    {w : FileWrite} (hw : w ∈ storeMemoryBlocks h' L' l buffer) (he : e ∈ usedExtents v L) :
    Disjoint w.extent.positions e.positions := by
  have hmem := (hp.allocation.extents_writes hl buffer).subset (List.mem_map_of_mem (f := FileWrite.extent) hw)
  exact ((List.pairwise_append.mp hp.pairwise_writes).2.2 e he _ hmem).symm

/-- A commit releases blocks of the old tree. -/
theorem releases : L.Releases δ where
  count x := by
    have hspace := hp.onDisk.space x
    have hv := coverage_perm (hp.blocks.map MemoryBlock.fileLocation) x
    rw [Tree.map_blocks, List.map_append, coverage_append] at hv
    simp only [spaceCount, usedExtents, coverage_cons, coverage_append, coverage_nil] at hspace
    omega
  within := hp.onDisk.within
  location := hp.onDisk.location
  released b hb := by
    have hmem : b.fileLocation ∈ Tree.extents v := by
      rw [← Tree.map_blocks []]
      exact List.mem_map_of_mem (hp.blocks.symm.subset (List.mem_append_right _ hb))
    exact endOffset_le_of_mem hp.onDisk.space (mem_usedExtents.mpr (Or.inr (Or.inl hmem)))
      (hp.onDisk.stored.size_pos _ hmem)

/-- The places found lie in the managed part of the file. -/
theorem within : L'.Within ∧ L'.fileLocation.endOffset ≤ L'.endOffset ∧
    L.endOffset ≤ L'.endOffset ∧
    ∀ q ∈ δ.allocatedBlocks, (h'.locations q).endOffset ≤ L'.endOffset :=
  hp.allocation.within hp.releases.within hp.releases.location hp.releases.released

/-- Until the header is written, the file holds the old database. -/
theorem onDisk_old (hl : l.Perm (none :: δ.allocatedBlocks.map some))
    (hg : f.Persists (storeMemoryBlocks h' L' l buffer) g) : OnDisk g header L v :=
  hp.onDisk.congr fun _ he _ hread =>
    hg.readIntoMemory hread fun _ hw => hp.disjoint_writes hl hw he

/-- The blocks of the new database have a size. -/
theorem size_pos (he : e ∈ Tree.extents (place k h'.locations [] t)) : 0 < e.size := by
  rcases mem_extents_place.mp he with ⟨q, hq, rfl⟩ | ⟨b, hb, rfl⟩
  · rw [hp.allocation.size q (hp.allocated.symm.subset hq), Heap.calculateRequiredSize]
    split
    · omega
    · rw [directorySize]
      omega
  · refine hp.onDisk.stored.size_pos _ ?_
    rw [← Tree.map_blocks []]
    exact List.mem_map_of_mem (hp.blocks.symm.subset
      (List.mem_append_left _ (List.mem_append_left _ hb)))

theorem fitsReference (he : e ∈ Tree.extents (place k h'.locations [] t)) : FitsReference e :=
  fitsReference_of_mem hp.space_place (mem_usedExtents.mpr (Or.inr (Or.inl he))) (hp.size_pos he)
    hp.endOffset

/-- The new objects can be stored. -/
theorem storable {q : Pointer} (hq : q ∈ δ.allocatedBlocks) : Storable h' q := by
  have hq' := hp.allocated.subset hq
  have hplaced := hp.allocation.placed
  obtain ⟨m, c, hm, hvc, hmark, hbc, hnew, hold⟩ := exists_view_of_mem_newPointers hp.isOld hp.wf
    (p := p) (n := 3) (by rw [hp.path]; rfl) hp.view (by rw [hp.path]; exact hp.building)
    (by rw [hp.path]; exact hq')
  obtain ⟨-, hs⟩ := placeMark_new h' hp.wf hm hvc hmark
  have hs' : h'.status m q = .loaded := (hplaced.status m q).trans hs
  have hvc' := hplaced.view hp.isOld hp.wf hm hvc hbc
  have hcommit : h'.commitId m q = k := by
    rw [Heap.commitId_of_view hvc' hs', place, LevelTree.mark_mapMark, hmark, placeMark]
    split_ifs <;> rfl
  unfold Storable
  rw [level_eq hm]
  cases m with
  | zero =>
    change (h'.blobs q).commitId < 2 ^ 64
    exact (show (h'.blobs q).commitId = k from hcommit).trans_lt hp.commitId
  | succ m =>
    refine ⟨?_, fun id r hr => ?_, ?_⟩
    · exact (show (h'.directories q).commitId = k from hcommit).trans_lt hp.commitId
    · obtain ⟨o, ho, hr⟩ := Option.map_eq_some_iff.mp ((FlatMap.find_mapWithKey _ _ _).symm.trans hr)
      obtain ⟨d, hd, hvd⟩ := Heap.view_child hvc' hs' ho
      rw [level_eq (Heap.length_child hm id o)] at hr
      rw [← hr, ← (Heap.mark_of_view (hplaced.wf hp.wf) hvd).2]
      refine hp.fitsReference ?_
      have hmem := Tree.mem_extents_of_find hd (Tree.mem_extents_self d)
      rcases mem_extents_place.mp hmem with ⟨q', hq', hloc⟩ | ⟨b, hb, hloc⟩
      · exact mem_extents_place.mpr (Or.inl ⟨q', hp.path ▸ hnew q' hq', hloc⟩)
      · exact mem_extents_place.mpr (Or.inr ⟨b, hp.path ▸ hold b hb, hloc⟩)
    · refine size_lt_of_find_none (k := nextFreeBlobId) ?_
      refine (FlatMap.find_mapWithKey _ _ _).trans ?_
      rw [hplaced.directory]
      cases ho : (h.directories q).children.find nextFreeBlobId with
      | none => rfl
      | some o =>
        obtain ⟨d, hd, -⟩ := Heap.view_child hvc hs ho
        exact absurd rfl (hbc.child hp.isOld hd).1

/-- After the writes, the new objects are in the file. -/
theorem written (hl : l.Perm (none :: δ.allocatedBlocks.map some)) {q : Pointer}
    (hq : q ∈ δ.allocatedBlocks) :
    Written (f.writeAll (storeMemoryBlocks h' L' l buffer)) h' q := by
  have hfit := hp.allocation.blockFits (some q) (List.mem_cons_of_mem _ (List.mem_map_of_mem hq))
  obtain ⟨buffer', hw⟩ := exists_mem_storeMemoryBlocks (h := h') (L := L') buffer
    (hl.symm.subset (List.mem_cons_of_mem _ (List.mem_map_of_mem (f := some) hq)))
  refine written_of_read (L := L') hfit (hp.storable hq) buffer' ?_
  have := hp.allocation.read_written (f := f) hp.releases.free_le hl hw
  rw [extent_block hfit] at this
  exact this

/-- The header with the new root. -/
theorem fits_switchRoot (i : Fin 2) :
    ((header.switchRoot ⟨h'.fileLocation 3 p, L'.fileLocation⟩).roots i).Fits := by
  rw [FileHeader.switchRoot]
  by_cases hi : i = 1 - header.rootIndex
  · rw [hi]
    simp only [Function.update_self]
    obtain ⟨-, hlocation, -, -⟩ := hp.within
    have hend := hp.endOffset
    rw [Extent.endOffset] at hlocation
    refine ⟨?_, ⟨?_, ?_⟩⟩
    · rw [← (Heap.mark_of_view (hp.allocation.placed.wf hp.wf) hp.view_place).2]
      exact hp.fitsReference (Tree.mem_extents_self _)
    · exact (show L'.fileLocation.offset < 2 ^ 64 by omega)
    · exact (show L'.fileLocation.size < 2 ^ 64 by omega)
  · simp only [Function.update_of_ne hi]
    exact hp.onDisk.fits i

/-- Neither the blocks nor the header are written over blocks of the old tree. -/
theorem readIntoMemory_new (hl : l.Perm (none :: δ.allocatedBlocks.map some))
    {header' : FileHeader} {e : Extent} (he : e ∈ Tree.extents v) {bytes : List UInt8}
    (hread : f.readIntoMemory e = some bytes) :
    ((f.writeAll (storeMemoryBlocks h' L' l buffer)).writeFromMemory
      (headerWrite header')).readIntoMemory e = some bytes := by
  refine FileContent.readIntoMemory_writeFromMemory_of_apart
    (FileContent.readIntoMemory_writeAll_of_apart hread fun w hw =>
      hp.disjoint_writes hl hw (mem_usedExtents.mpr (Or.inr (Or.inl he)))) ?_
  rw [headerWrite, FileWrite.extent, length_encodeHeader]
  exact disjoint_header hp.onDisk.space (Or.inl he)

/-- After the header is written, the file holds the new database. -/
theorem onDisk_new (hl : l.Perm (none :: δ.allocatedBlocks.map some)) :
    OnDisk ((f.writeAll (storeMemoryBlocks h' L' l buffer)).writeFromMemory
        (headerWrite (header.switchRoot ⟨h'.fileLocation 3 p, L'.fileLocation⟩)))
      (header.switchRoot ⟨h'.fileLocation 3 p, L'.fileLocation⟩) L'
      (place k h'.locations [] t) := by
  set ws := storeMemoryBlocks h' L' l buffer with hws
  set header' := header.switchRoot ⟨h'.fileLocation 3 p, L'.fileLocation⟩ with hheader'
  have hextent : (headerWrite header').extent = ⟨0, 80⟩ := by
    rw [headerWrite, FileWrite.extent, length_encodeHeader]
  -- the header meets nothing else that is in use
  have hkeep : ∀ e, e ∈ Tree.extents (place k h'.locations [] t) ∨ e = L'.fileLocation →
      ∀ bytes, (f.writeAll ws).readIntoMemory e = some bytes →
        ((f.writeAll ws).writeFromMemory (headerWrite header')).readIntoMemory e = some bytes :=
    fun e he bytes hread => FileContent.readIntoMemory_writeFromMemory_of_apart hread
      (by rw [hextent]; exact disjoint_header hp.space_place he)
  obtain ⟨hwithin, hlocation, -, -⟩ := hp.within
  refine ⟨?_, hp.fits_switchRoot, ?_, ?_, ?_, hp.space_place, hwithin, hlocation, hp.endOffset⟩
  · have := FileContent.readIntoMemory_writeFromMemory (f.writeAll ws) (headerWrite header')
      (fun hnil => by
        have := length_encodeHeader header'
        rw [show encodeHeader header' = [] from hnil] at this
        cases this)
    rw [hextent] at this
    exact this
  · rw [hheader', FileHeader.switchRoot]
    simp only [Function.update_self]
    rw [(Heap.mark_of_view (hp.allocation.placed.wf hp.wf) hp.view_place).2]
  · have := stored_place (g := f.writeAll ws) hp.isOld hp.wf hp.allocation.placed (p := p) (n := 3)
      (by rw [hp.path]; rfl) hp.view (by rw [hp.path]; exact hp.building)
      (fun hs => (hp.stored hs).1.congr fun e he bytes hread =>
        FileContent.readIntoMemory_writeAll_of_apart hread fun w hw =>
          hp.disjoint_writes hl hw (mem_usedExtents.mpr (Or.inr (Or.inl ((hp.stored hs).2 e he)))))
      (fun q hq => hp.written hl (hp.allocated.symm.subset (hp.path ▸ hq)))
    rw [hp.path] at this
    exact this.congr fun e he => hkeep e (Or.inl he)
  · obtain ⟨bytes, hread, hdecode⟩ :=
      hp.allocation.freeListBlock (f := f) hp.releases.free_le hwithin hlocation hp.endOffset hl buffer
    exact ⟨bytes, hkeep _ (Or.inr rfl) _ hread, hdecode⟩

/-- A stop while the commit is written leaves the old database or the new one. -/
theorem onDisk_of_stop (hl : l.Perm (none :: δ.allocatedBlocks.map some))
    (hg : f.Persists (storeMemoryBlocks h' L' l buffer) g ∨
      (f.writeAll (storeMemoryBlocks h' L' l buffer)).Persists
        [headerWrite (header.switchRoot ⟨h'.fileLocation 3 p, L'.fileLocation⟩)] g) :
    OnDisk g header L v ∨
      OnDisk g (header.switchRoot ⟨h'.fileLocation 3 p, L'.fileLocation⟩) L'
        (place k h'.locations [] t) := by
  rcases hg with hg | ⟨ws, hsub, rfl⟩
  · exact Or.inl (hp.onDisk_old hl hg)
  · cases ws with
    | nil =>
      exact Or.inl (hp.onDisk_old hl ⟨_, List.Subperm.refl _, rfl⟩)
    | cons w ws =>
      have hlen := hsub.length_le
      have hnil : ws = [] := List.length_eq_zero_iff.mp (by
        rw [List.length_cons, List.length_singleton] at hlen
        omega)
      obtain rfl := hnil
      rw [List.mem_singleton.mp (hsub.subset List.mem_cons_self)]
      exact Or.inr (hp.onDisk_new hl)

end Prepared

end BlobsDb
