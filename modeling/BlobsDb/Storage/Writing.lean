import BlobsDb.Storage.Placing
import BlobsDb.Storage.Reorganizing

/-!
# Writing a commit

The writes of a commit go to the places of its new objects and of the free list. When these do
not meet each other nor any block in use, the new tree and the list can be read from the file
after the writes, and everything that was in use before can be read while they are still under
way.
-/

namespace BlobsDb

variable {f g : FileContent} {k : CommitId} {n : ℕ} {p q : Pointer} {h h' : Heap}
  {L : FreeList}

/-! ### The bytes of a block -/

@[simp]
theorem length_resize (n : ℕ) (l : List UInt8) : (resize n l).length = n := by
  simp only [resize, List.length_append, List.length_take, List.length_replicate]
  omega

theorem contiguousBlocks_map {υ ω : Type*} (g : UInt32 → υ → ω) (lastId : Option UInt32)
    (m : List (UInt32 × υ)) :
    contiguousBlocks lastId (m.map fun e => (e.1, g e.1 e.2)) = contiguousBlocks lastId m := by
  induction m generalizing lastId with
  | nil => rfl
  | cons e m ih => simp only [List.map_cons, contiguousBlocks, ih]

theorem directorySize_mapWithKey {υ ω : Type*} (g : UInt32 → υ → ω) (m : FlatMap UInt32 υ) :
    directorySize (m.mapWithKey g) = directorySize m := by
  simp only [directorySize, FlatMap.mapWithKey, contiguousBlocks_map, List.length_map]

/-- The place of an object, or of the free list. -/
def blockLocation (h : Heap) (L : FreeList) : Option Pointer → BlockReference
  | none => L.fileLocation
  | some p => h.locations p

/-- The place is as large as what is stored there. -/
def BlockFits (h : Heap) (L : FreeList) : Option Pointer → Prop
  | none => L.calculateRequiredSize ≤ L.fileLocation.size
  | some p => (h.locations p).size = h.calculateRequiredSize p

theorem length_encodeFreeList (l : FreeListBlock) :
    (encodeFreeList l).length = 16 + 16 * l.entries.length := by
  have hrefs : ∀ l : List BlockReference,
      (l.flatMap encodeReference).length = 16 * l.length := fun l => by
    induction l with
    | nil => rfl
    | cons r l ih =>
      rw [List.flatMap_cons, List.length_append, length_encodeReference, ih, List.length_cons]
      ring
  simp only [encodeFreeList, List.length_append, length_leBytes, hrefs]
  ring

theorem length_own (hp : (h.locations p).size = h.calculateRequiredSize p) (hl : p.level ≠ 0)
    (buffer : List UInt8) :
    (((resize (h.directories p).fileLocation.size buffer).drop 12).take 4).length = 4 := by
  have hsize : 16 ≤ (h.directories p).fileLocation.size := by
    cases hlevel : p.level with
    | zero => exact absurd hlevel hl
    | succ n =>
      simp only [Heap.locations, Heap.fileLocation, Heap.calculateRequiredSize, hlevel] at hp
      rw [hp, directorySize]
      omega
  simp only [List.length_take, List.length_drop, length_resize]
  omega

/-- A block is as long as its place. -/
theorem length_serializeIntoBuffer {b : Option Pointer} (hb : BlockFits h L b)
    (buffer : List UInt8) :
    (serializeIntoBuffer h L buffer b).length = (blockLocation h L b).size := by
  cases b with
  | none =>
    have hb : L.calculateRequiredSize ≤ L.fileLocation.size := hb
    simp only [serializeIntoBuffer, List.length_append, length_encodeFreeList, List.length_drop,
      length_resize, blockLocation]
    rw [FreeList.calculateRequiredSize] at hb ⊢
    omega
  | some p =>
    have hb : (h.locations p).size = h.calculateRequiredSize p := hb
    have hdir : ∀ own : List UInt8, own.length = 4 → p.level ≠ 0 →
        (encodeDirectory own (h.directoryBlock p)).length = (h.locations p).size :=
      fun own hown hl => by
        rw [length_encodeDirectory hown, Heap.directoryBlock, directorySize_mapWithKey, hb,
          Heap.calculateRequiredSize]
        split
        · next h0 => exact absurd h0 hl
        · rfl
    simp only [serializeIntoBuffer, blockLocation]
    split
    · next h0 =>
      rw [length_encodeBlob, hb, Heap.calculateRequiredSize, h0]
    · next h3 => exact hdir _ (length_own hb (by omega) buffer) (by omega)
    · next h0 h3 => exact hdir _ (length_leBytes 4 _) h0

theorem mem_storeMemoryBlocks {l : List (Option Pointer)} {buffer : List UInt8} {w : FileWrite}
    (hw : w ∈ storeMemoryBlocks h L l buffer) :
    ∃ b ∈ l, ∃ buffer, w = ⟨blockOffset h L b, serializeIntoBuffer h L buffer b⟩ := by
  induction l generalizing buffer with
  | nil => cases hw
  | cons b l ih =>
    rw [storeMemoryBlocks] at hw
    rcases List.mem_cons.mp hw with rfl | hw
    · exact ⟨b, List.mem_cons_self, buffer, rfl⟩
    · obtain ⟨b', hb', hw⟩ := ih hw
      exact ⟨b', List.mem_cons_of_mem _ hb', hw⟩

theorem exists_mem_storeMemoryBlocks {l : List (Option Pointer)} (buffer : List UInt8)
    {b : Option Pointer} (hb : b ∈ l) :
    ∃ buffer', (⟨blockOffset h L b, serializeIntoBuffer h L buffer' b⟩ : FileWrite) ∈
      storeMemoryBlocks h L l buffer := by
  induction l generalizing buffer with
  | nil => cases hb
  | cons b' l ih =>
    rw [storeMemoryBlocks]
    rcases List.mem_cons.mp hb with rfl | hb
    · exact ⟨buffer, List.mem_cons_self⟩
    · obtain ⟨buffer', hw⟩ := ih (serializeIntoBuffer h L buffer b') hb
      exact ⟨buffer', List.mem_cons_of_mem _ hw⟩

theorem blockOffset_eq (h : Heap) (L : FreeList) (b : Option Pointer) :
    blockOffset h L b = (blockLocation h L b).offset := by
  cases b <;> rfl

theorem extent_block {b : Option Pointer} (hb : BlockFits h L b) (buffer : List UInt8) :
    FileWrite.extent ⟨blockOffset h L b, serializeIntoBuffer h L buffer b⟩ =
      blockLocation h L b := by
  rw [FileWrite.extent, blockOffset_eq, length_serializeIntoBuffer hb]

/-- The writes cover the places of the blocks. -/
theorem map_extent_storeMemoryBlocks {l : List (Option Pointer)}
    (hl : ∀ b ∈ l, BlockFits h L b) (buffer : List UInt8) :
    (storeMemoryBlocks h L l buffer).map FileWrite.extent = l.map (blockLocation h L) := by
  induction l generalizing buffer with
  | nil => rfl
  | cons b l ih =>
    rw [storeMemoryBlocks, List.map_cons, List.map_cons,
      extent_block (hl b List.mem_cons_self),
      ih fun b hb => hl b (List.mem_cons_of_mem _ hb)]

/-! ### Reading back -/

/-- The file has the block of an object at the object's place. -/
def Written (f : FileContent) (h : Heap) (p : Pointer) : Prop :=
  ∃ bytes, f.readIntoMemory (h.locations p) = some bytes ∧
    match p.level with
    | 0 => decodeBlob bytes = some ⟨(h.blobs p).commitId, (h.blobs p).data⟩
    | _ + 1 => decodeDirectory bytes = some (h.directoryBlock p)

/-- The object can be stored. -/
def Storable (h : Heap) (p : Pointer) : Prop :=
  match p.level with
  | 0 => (h.blobs p).commitId < 2 ^ 64
  | _ + 1 => (h.directoryBlock p).Storable

/-- The bytes of a block tell what the object has. -/
theorem decode_serializeIntoBuffer (hp : (h.locations p).size = h.calculateRequiredSize p)
    (hs : Storable h p) (buffer : List UInt8) :
    match p.level with
    | 0 => decodeBlob (serializeIntoBuffer h L buffer (some p)) =
        some ⟨(h.blobs p).commitId, (h.blobs p).data⟩
    | _ + 1 => decodeDirectory (serializeIntoBuffer h L buffer (some p)) =
        some (h.directoryBlock p) := by
  unfold Storable at hs
  cases hl : p.level with
  | zero =>
    simp only [serializeIntoBuffer, hl] at hs ⊢
    exact decodeBlob_encodeBlob hs
  | succ n =>
    simp only [serializeIntoBuffer, hl] at hs ⊢
    have hown := length_own hp (by omega) buffer
    match n with
    | 0 => exact decodeDirectory_encodeDirectory (length_leBytes 4 _) hs
    | 1 => exact decodeDirectory_encodeDirectory (length_leBytes 4 _) hs
    | 2 => exact decodeDirectory_encodeDirectory hown hs
    | n + 3 => exact decodeDirectory_encodeDirectory (length_leBytes 4 _) hs

theorem written_of_read (hp : (h.locations p).size = h.calculateRequiredSize p)
    (hs : Storable h p) (buffer : List UInt8)
    (hread : f.readIntoMemory (h.locations p) = some (serializeIntoBuffer h L buffer (some p))) :
    Written f h p :=
  ⟨_, hread, decode_serializeIntoBuffer hp hs buffer⟩

theorem level_eq (hn : p.path.length + n = 3) : p.level = n := by
  rw [Pointer.level]
  omega

/-- The block of a blob tells its tree. -/
theorem Written.blob (hwf : h.WF) (hw : Written g h p) (hn : p.path.length + 0 = 3) {t : Tree 0}
    (hv : h.view f 0 p = some t) (hs : h.status 0 p = .loaded) : Tree.Stored g t := by
  obtain ⟨bytes, hbytes, hdecode⟩ := hw
  rw [Heap.locations, level_eq hn, ← (Heap.mark_of_view hwf hv).2] at hbytes
  rw [level_eq hn] at hdecode
  refine Tree.stored_zero_iff.mpr ⟨bytes, hbytes, ?_⟩
  rw [Heap.view_zero_of_loaded hs] at hv
  rw [← Option.some.inj hv]
  exact hdecode

/-- The block of a snapshot, segment or cluster tells its tree up to the children. -/
theorem Written.directory (hwf : h.WF) (hw : Written g h p) (hn : p.path.length + (n + 1) = 3)
    {t : Tree (n + 1)} (hv : h.view f (n + 1) p = some t)
    (hs : h.status (n + 1) p = .loaded) :
    ∃ bytes, g.readIntoMemory t.mark.fileLocation = some bytes ∧ decodeDirectory bytes =
      some ⟨t.mark.commitId, t.info, t.children.map fun c => c.mark.fileLocation⟩ := by
  obtain ⟨bytes, hbytes, hdecode⟩ := hw
  rw [Heap.locations, level_eq hn, ← (Heap.mark_of_view hwf hv).2] at hbytes
  rw [level_eq hn] at hdecode
  obtain ⟨h1, h2, h3⟩ := (Heap.view_succ_of_loaded hs).mp hv
  refine ⟨bytes, hbytes, hdecode.trans ?_⟩
  rw [h1, h2]
  refine congrArg some (congrArg (DirectoryBlock.mk _ _) (FlatMap.ext_find fun id => ?_))
  have hid := h3 id
  rw [FlatMap.find_map]
  refine (FlatMap.find_mapWithKey _ _ _).trans ?_
  cases ho : (h.directories p).children.find id with
  | none =>
    cases hc : t.children.find id with
    | none => rfl
    | some c => simp [ho, hc] at hid
  | some o =>
    cases hc : t.children.find id with
    | none => simp [ho, hc] at hid
    | some c =>
      rw [ho, hc] at hid
      have hvc : h.view f n (p.child id o) = some c := Option.some.inj hid
      refine congrArg some ?_
      change h.fileLocation (p.child id o).level (p.child id o) = c.mark.fileLocation
      rw [level_eq (Heap.length_child hn id o)]
      exact (Heap.mark_of_view hwf hvc).2.symm

/-- New nodes that are written above old trees that are stored make a stored tree. -/
theorem stored_place {S : List UInt32 → ∀ n, Tree n → Prop} (hS : IsOld k S) (hwf : h.WF)
    (hh : Placed k h h') (hn : p.path.length + n = 3) {t : Tree n} (hv : h.view f n p = some t)
    (hb : Building k S p.path n t)
    (hold : ∀ {path n} {t : Tree n}, S path n t → Tree.Stored g t)
    (hnew : ∀ q ∈ newPointers k p.path t, Written g h' q) :
    Tree.Stored g (place k h'.locations p.path t) := by
  induction n generalizing p with
  | zero =>
    rcases hb.cases with hm | hs
    · obtain ⟨-, hs⟩ := placeMark_new h' hwf hn hv hm
      have hp : p ∈ newPointers k p.path t := by
        rw [newPointers_of_new hm, ← show p.origin = .commit k by
          rw [← (Heap.mark_of_view hwf hv).1, hm]; rfl]
        exact List.mem_cons_self
      exact (hnew p hp).blob (hh.wf hwf) hn (hh.view hS hwf hn hv hb) ((hh.status 0 p).trans hs)
    · rw [place_of_old (allMarks_of_old hS hs)]
      exact hold hs
  | succ n ih =>
    rcases hb.cases with hm | hs
    · obtain ⟨-, hs⟩ := placeMark_new h' hwf hn hv hm
      have hp : p ∈ newPointers k p.path t := by
        rw [newPointers_of_new hm, ← show p.origin = .commit k by
          rw [← (Heap.mark_of_view hwf hv).1, hm]; rfl]
        exact List.mem_cons_self
      refine Tree.stored_succ_iff.mpr ⟨(hnew p hp).directory (hh.wf hwf) hn
        (hh.view hS hwf hn hv hb) ((hh.status (n + 1) p).trans hs), fun id c' hc' => ?_⟩
      rw [show (place k h'.locations p.path t).children =
        t.children.mapWithKey fun id c => place k h'.locations (p.path ++ [id]) c from rfl,
        FlatMap.find_mapWithKey, Option.map_eq_some_iff] at hc'
      obtain ⟨c, hc, rfl⟩ := hc'
      obtain ⟨o, -, hvc⟩ := Heap.find_of_view hv hs hc
      exact ih (p := p.child id o) (Heap.length_child hn id o) hvc (hb.child hS hc).2 fun q hq =>
        hnew q (by
          rw [newPointers_of_new hm]
          exact List.mem_cons_of_mem _ (mem_newBelow.mpr ⟨id, c, hc, hq⟩))
    · rw [place_of_old (allMarks_of_old hS hs)]
      exact hold hs

/-! ### Views and the file -/

/-- What an object needs from the file to keep its view in another file: the blocks that are
still to be loaded. -/
def Keeps (h : Heap) (f g : FileContent) (b : MemoryBlock) : Prop :=
  (h.Known b.pointer ∧ h.status b.pointer.level b.pointer = .loaded) ∨
    ∀ l, f.readIntoMemory b.fileLocation = some l → g.readIntoMemory b.fileLocation = some l

/-- Nothing at or below an object that is not loaded is in use and loaded. -/
theorem view_of_file_of_notLoaded (hwf : h.WF) (hn : p.path.length + n = 3) {t : Tree n}
    (hv : h.view f n p = some t) (hs : h.status n p = .notLoaded)
    (hfg : ∀ b ∈ Tree.blocks p.path t, Keeps h f g b) : h.view g n p = some t := by
  rw [Heap.view_of_notLoaded hs] at hv ⊢
  have hfile := Tree.allMarks_of_readTree hv
  have hp := Heap.notLoaded_origin hwf hs
  have hkeep : ∀ e ∈ Tree.extents t, ∀ l, f.readIntoMemory e = some l →
      g.readIntoMemory e = some l := by
    intro e he
    rw [← Tree.map_blocks p.path] at he
    obtain ⟨b, hb, rfl⟩ := List.mem_map.mp he
    refine (hfg b hb).resolve_left fun ⟨hkb, hsb⟩ => ?_
    have hborigin := Tree.origin_of_mem_blocks (P := fun o => o = .file) hfile hb
    by_cases hpath : p.path = b.pointer.path
    · have hbp : b.pointer = p := by
        rw [show b.pointer = ⟨b.pointer.path, b.pointer.origin⟩ from rfl, hborigin, ← hpath, ← hp]
      rw [hbp, level_eq hn, hs] at hsb
      cases hsb
    · cases n with
      | zero =>
        rw [List.mem_singleton.mp hb] at hpath
        exact hpath rfl
      | succ n =>
        have := hkb hborigin p.path (Tree.prefix_of_mem_blocks hb) hpath
        rw [← hp, show (h.directories p).status = .notLoaded from hs] at this
        cases this
  have := (Tree.stored_of_readTree hv).congr hkeep
  rw [Tree.Stored, (Tree.mark_of_readTree hv).2, Tree.onFile_of_allMarks hfile] at this
  exact this

/-- A view does not change with the file when the blocks that are still to be loaded do not. -/
theorem view_of_file (hwf : h.WF) (hn : p.path.length + n = 3) {t : Tree n}
    (hv : h.view f n p = some t) (hfg : ∀ b ∈ Tree.blocks p.path t, Keeps h f g b) :
    h.view g n p = some t := by
  induction n generalizing p with
  | zero =>
    cases hs : h.status 0 p with
    | notLoaded => exact view_of_file_of_notLoaded hwf hn hv hs hfg
    | loaded => rw [← hv, Heap.view_zero_of_loaded hs, Heap.view_zero_of_loaded hs]
  | succ n ih =>
    cases hs : h.status (n + 1) p with
    | notLoaded => exact view_of_file_of_notLoaded hwf hn hv hs hfg
    | loaded =>
      obtain ⟨h1, h2, h3⟩ := (Heap.view_succ_of_loaded hs).mp hv
      refine (Heap.view_succ_of_loaded hs).mpr ⟨h1, h2, fun id => ?_⟩
      rw [← h3 id]
      cases ho : (h.directories p).children.find id with
      | none => rfl
      | some o =>
        obtain ⟨c, hc, hvc⟩ := Heap.view_child hv hs ho
        refine congrArg some ?_
        change h.view g n (p.child id o) = h.view f n (p.child id o)
        rw [hvc]
        exact ih (Heap.length_child hn id o) hvc fun b hb => hfg b
          (LevelTree.mem_collect.mpr (Or.inr ⟨id, c, hc, hb⟩))

/-! ### Writing an allocation -/

namespace Allocation

variable {δ : MemoryBlockDelta} {L' : FreeList} {l : List (Option Pointer)} {buffer : List UInt8}
  (ha : Allocation k L h δ h' L')

include ha

theorem blockFits (b : Option Pointer) (hb : b ∈ none :: δ.allocatedBlocks.map some) :
    BlockFits h' L' b := by
  rcases List.mem_cons.mp hb with rfl | hb
  · exact ha.listSize
  · obtain ⟨q, hq, rfl⟩ := List.mem_map.mp hb
    exact (ha.size q hq).trans (ha.placed.calculateRequiredSize q).symm

/-- The positions the writes go to. -/
theorem extents_writes (hl : l.Perm (none :: δ.allocatedBlocks.map some)) (buffer : List UInt8) :
    ((storeMemoryBlocks h' L' l buffer).map FileWrite.extent).Perm
      (L'.fileLocation :: δ.allocatedBlocks.map h'.locations) := by
  rw [map_extent_storeMemoryBlocks fun b hb => ha.blockFits b (hl.subset hb)]
  refine (hl.map _).trans ?_
  rw [List.map_cons, List.map_map]
  exact List.Perm.refl _

/-- The blocks of the list and of the new objects are cut out of free space. -/
theorem coverage_locations_le (x : ℕ) :
    coverage (L'.fileLocation :: δ.allocatedBlocks.map h'.locations) x ≤ L.free x := by
  obtain ⟨free, h1, -⟩ := ha.count
  have h1 := h1 x
  rw [coverage_cons]
  omega

/-- Where no space was free twice, each block reads back as it was written. -/
theorem read_written (hfree : ∀ x, L.free x ≤ 1)
    (hl : l.Perm (none :: δ.allocatedBlocks.map some)) {w : FileWrite}
    (hw : w ∈ storeMemoryBlocks h' L' l buffer) :
    (f.writeAll (storeMemoryBlocks h' L' l buffer)).readIntoMemory w.extent = some w.bytes := by
  have hd := pairwise_disjoint_iff.mpr fun x => (ha.coverage_locations_le x).trans (hfree x)
  have hd := ((ha.extents_writes hl buffer).pairwise_iff (fun hab => hab.symm)).mpr hd
  refine FileContent.readIntoMemory_writeAll_of_mem (fun w hw => ?_)
    ((List.pairwise_map (R := fun a b : Extent => Disjoint a.positions b.positions)).mp hd) hw
  obtain ⟨b, hb, buffer', rfl⟩ := mem_storeMemoryBlocks hw
  have hfit := ha.blockFits b (hl.subset hb)
  refine List.length_pos_iff.mp ?_
  rw [length_serializeIntoBuffer hfit]
  cases b with
  | none => exact Nat.lt_of_lt_of_le (by rw [FreeList.calculateRequiredSize]; omega) hfit
  | some q =>
    rw [blockLocation, show (h'.locations q).size = h'.calculateRequiredSize q from hfit,
      Heap.calculateRequiredSize]
    split
    · omega
    · rw [directorySize]
      omega

/-- Where no space was free twice, the new list can be read from its block. -/
theorem freeListBlock (hfree : ∀ x, L.free x ≤ 1) (hwithin : L'.Within)
    (hlocation : L'.fileLocation.endOffset ≤ L'.endOffset) (hend : L'.endOffset < 2 ^ 64)
    (hl : l.Perm (none :: δ.allocatedBlocks.map some)) (buffer : List UInt8) :
    ∃ bytes, (f.writeAll (storeMemoryBlocks h' L' l buffer)).readIntoMemory L'.fileLocation =
      some bytes ∧ decodeFreeList bytes = some ⟨L'.endOffset, L'.entries⟩ := by
  have hfit := ha.blockFits none List.mem_cons_self
  obtain ⟨buffer', hw⟩ := exists_mem_storeMemoryBlocks (h := h') (L := L') buffer
    (hl.symm.subset List.mem_cons_self)
  have hread := ha.read_written (f := f) hfree hl hw
  rw [extent_block hfit] at hread
  refine ⟨_, hread, ?_⟩
  have hsize := ha.listSize
  rw [FreeList.calculateRequiredSize] at hsize
  rw [Extent.endOffset] at hlocation
  refine decodeFreeList_encodeFreeList_append hend (show L'.entries.length < 2 ^ 64 by omega)
    (fun b hb => ?_) _
  have := hwithin b hb
  rw [Extent.endOffset] at this
  exact ⟨by omega, by omega⟩

end Allocation

/-- A delta releases blocks in use: what it releases, and the block of the list itself, is neither
free nor released twice, and lies in the managed part of the file. -/
structure FreeList.Releases (L : FreeList) (δ : MemoryBlockDelta) : Prop where
  count : ∀ x, coverage (δ.releasedBlocks.map MemoryBlock.fileLocation) x +
    L.fileLocation.covers x + L.free x ≤ 1
  within : L.Within
  location : L.fileLocation.endOffset ≤ L.endOffset
  released : ∀ b ∈ δ.releasedBlocks, b.fileLocation.endOffset ≤ L.endOffset

/-- No space is free twice. -/
theorem FreeList.Releases.free_le {δ : MemoryBlockDelta} (hL : L.Releases δ) (x : ℕ) :
    L.free x ≤ 1 :=
  (Nat.le_add_left _ _).trans (hL.count x)

/-- The free list fits into the block that is reserved for it before the delta's blocks are
released. The block meets neither free space nor a block of the delta, and the list can be read
from it once all blocks are written. -/
theorem FreeList.allocateAndApplyDelta_fits {δ : MemoryBlockDelta} {σ : Schedule}
    (hσ : σ.Walks δ) (hδ : δ.allocatedBlocks.Nodup)
    (hnew : ∀ p ∈ δ.allocatedBlocks, p.origin = .commit k) (hL : L.Releases δ)
    (hend : (L.allocateAndApplyDelta h δ σ).2.endOffset < 2 ^ 64) (f : FileContent)
    (buffer : List UInt8) :
    let r := L.allocateAndApplyDelta h δ σ
    r.2.calculateRequiredSize ≤ r.2.fileLocation.size ∧
      (∀ e ∈ r.2.entries, Disjoint r.2.fileLocation.positions e.positions) ∧
      (∀ p ∈ δ.allocatedBlocks,
        Disjoint r.2.fileLocation.positions (r.1.locations p).positions) ∧
      ∃ bytes, (f.writeAll (storeMemoryBlocks r.1 r.2 σ.storedOrder buffer)).readIntoMemory
        r.2.fileLocation = some bytes ∧
        decodeFreeList bytes = some ⟨r.2.endOffset, r.2.entries⟩ := by
  intro r
  have ha : Allocation k L h δ r.1 r.2 := allocation_of_allocateAndApplyDelta hσ hδ hnew
  have hfree : ∀ x, L.free x ≤ 1 := hL.free_le
  obtain ⟨hwithin, hlocation, -, -⟩ := ha.within hL.within hL.location hL.released
  obtain ⟨free, h1, h2⟩ := ha.count
  have hentries : (r.2.fileLocation :: r.2.entries).Pairwise
      fun a b => Disjoint a.positions b.positions := by
    refine pairwise_disjoint_iff.mpr fun x => ?_
    have h1 := h1 x
    have h2 := h2 x
    have h3 := hL.count x
    rw [FreeList.free] at h2
    rw [coverage_cons]
    omega
  have hblocks : (r.2.fileLocation :: δ.allocatedBlocks.map r.1.locations).Pairwise
      fun a b => Disjoint a.positions b.positions :=
    pairwise_disjoint_iff.mpr fun x => (ha.coverage_locations_le x).trans (hfree x)
  refine ⟨ha.listSize, (List.pairwise_cons.mp hentries).1, fun p hp => ?_, ?_⟩
  · exact (List.pairwise_cons.mp hblocks).1 _ (List.mem_map_of_mem hp)
  · exact ha.freeListBlock hfree hwithin hlocation hend hσ.stored buffer

/-- A commit that has written an empty blob and releases its old block. -/
theorem FreeList.allocateAndApplyDelta_fits_oneBlob :
    let p : Pointer := ⟨[0, 0, 0], .commit 1⟩
    let δ : MemoryBlockDelta := ⟨[p], [⟨⟨[0, 0, 0], .file⟩, ⟨120, 30⟩⟩]⟩
    let σ : Schedule := ⟨δ.allocatedBlocks, δ.releasedBlocks, .lastFirst, [none, some p]⟩
    let r := (⟨150, [⟨100, 20⟩], ⟨80, 20⟩⟩ : FreeList).allocateAndApplyDelta default δ σ
    ∃ bytes, ((⟨0, fun _ => 0⟩ : FileContent).writeAll
      (storeMemoryBlocks r.1 r.2 σ.storedOrder [])).readIntoMemory r.2.fileLocation = some bytes ∧
      decodeFreeList bytes = some ⟨214, [⟨80, 20⟩, ⟨108, 42⟩]⟩ :=
  (allocateAndApplyDelta_fits (k := 1) ⟨.refl _, .refl _, .refl _⟩ (by decide) (by decide)
    ⟨fun x => by
      simp only [FreeList.free, List.map_cons, List.map_nil, coverage_cons, coverage_nil,
        Extent.covers]
      split_ifs <;> omega, by
      unfold FreeList.Within
      decide, by decide, by decide⟩ (by decide) _ _).2.2.2

end BlobsDb
