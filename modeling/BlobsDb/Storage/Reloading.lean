import BlobsDb.Storage.Loading
import BlobsDb.Storage.Writing

/-!
# Reading back what was serialized

The size of a block is counted by one loop, its bytes are written by another, and a third one
walks them when the block is loaded. They agree for every object whose numbers fit their fields
(`serializeIntoBuffer_restores`): ids above the largest one are reserved, so that neither the
number of ranges nor the past end id of a range overflows.
-/

namespace BlobsDb

variable {f : FileContent} {h g : Heap} {p q : Pointer} {n : ℕ}

/-- The largest id of the children of an object of a level. -/
def maxChildId : ℕ → UInt32
  | 1 => maxBlobId
  | 2 => maxClusterId
  | _ => maxSegmentId

theorem maxChildId_eq (n : ℕ) : maxChildId n = 0xffffffff - 0x100 := by
  unfold maxChildId
  split <;> rfl

/-- The numbers of an object fit the fields they are stored in. -/
structure Heap.Fits (h : Heap) (p : Pointer) : Prop where
  commitId : h.commitId p.level p < 2 ^ 64
  children : ∀ id o, p.level ≠ 0 → (h.directories p).children.find id = some o →
    id ≤ maxChildId p.level ∧ FitsReference (h.locations (p.child id o))

/-- The object `q` of the heap `g` has what the block of the object `p` of the heap `h` stores. -/
def Heap.Restores (h : Heap) (p : Pointer) (g : Heap) (q : Pointer) : Prop :=
  match p.level with
  | 0 => (g.blobs q).commitId = (h.blobs p).commitId ∧ (g.blobs q).data = (h.blobs p).data
  | _ + 1 => g.directoryBlock q = h.directoryBlock p

/-! ### Ranges are counted without overflow -/

/-- There is a gap before each range. -/
theorem two_mul_contiguousBlocks {υ : Type*} {last top : UInt32} {m : List (UInt32 × υ)}
    (hm : m.Pairwise fun a b => a.1 < b.1) (hlast : ∀ e ∈ m, last < e.1)
    (htop : ∀ e ∈ m, e.1 ≤ top) (hle : last ≤ top) (hmax : top.toNat + 1 < 2 ^ 32) :
    2 * contiguousBlocks (some last) m + last.toNat ≤ top.toNat := by
  induction m generalizing last with
  | nil =>
    rw [contiguousBlocks, Nat.mul_zero, Nat.zero_add]
    exact UInt32.le_iff_toNat_le.mp hle
  | cons e m ih =>
    obtain ⟨he, hm⟩ := List.pairwise_cons.mp hm
    have htope := htop e List.mem_cons_self
    have ih := ih hm he (fun e' he' => htop e' (List.mem_cons_of_mem _ he')) htope
    have hlt := UInt32.lt_iff_toNat_lt.mp (hlast e List.mem_cons_self)
    have htop' := UInt32.le_iff_toNat_le.mp htope
    rw [contiguousBlocks]
    split_ifs with hne
    · -- the ids do not follow each other, so that one lies between them
      have hsucc : last.toNat + 1 ≠ e.1.toNat := fun heq => by
        refine hne (UInt32.toNat_inj.mp ?_)
        rw [UInt32.toNat_add, ← heq]
        exact (Nat.mod_eq_of_lt (by omega)).symm
      omega
    · omega

/-- The number of ranges is an `int`. -/
theorem contiguousBlocks_lt {υ : Type*} {m : FlatMap UInt32 υ}
    (hids : ∀ id v, m.find id = some v → id ≤ 0xffffffff - 0x100) :
    contiguousBlocks none m.entries < 2 ^ 31 := by
  have hmem : ∀ e ∈ m.entries, e.1 ≤ 0xffffffff - 0x100 := fun e he =>
    hids e.1 e.2 (FlatMap.find_eq_some_iff.mpr he)
  have hsorted := m.sorted
  generalize m.entries = l at hmem hsorted
  cases l with
  | nil => exact Nat.zero_lt_of_ne_zero (by norm_num)
  | cons e l =>
    obtain ⟨he, hl⟩ := List.pairwise_cons.mp hsorted
    have h := two_mul_contiguousBlocks hl he (fun e' he' => hmem e' (List.mem_cons_of_mem _ he'))
      (hmem e List.mem_cons_self) (by decide)
    have htop : (0xffffffff - 0x100 : UInt32).toNat = 4294967039 := by decide
    rw [contiguousBlocks]
    omega

/-! ### Loading -/

/-- The children are entered where the block says. -/
theorem directoryBlock_delayLoad (hq : q.level = n + 1) (d : Directory) (b : DirectoryBlock) :
    ((b.children.entries.foldl (Heap.delayLoad n q) g).setDirectory q
      (d.loadedWith b)).directoryBlock q = b := by
  rw [Heap.directoryBlock, Heap.directories_setDirectory_self]
  refine congrArg (DirectoryBlock.mk _ _) (FlatMap.ext_find fun id => ?_)
  rw [FlatMap.find_mapWithKey]
  change ((b.children.map fun _ => Origin.file).find id).map _ = _
  rw [FlatMap.find_map]
  cases hr : b.children.find id with
  | none => rfl
  | some r =>
    have hlevel : (q.child id .file).level = n := by
      rw [Pointer.level, Pointer.path_child, List.length_append, List.length_singleton]
      rw [Pointer.level] at hq
      omega
    have hne : q.child id .file ≠ q := fun heq => by
      have := congrArg (fun p : Pointer => p.path.length) heq
      simp at this
    refine congrArg some ?_
    dsimp only
    rw [hlevel, Heap.fileLocation_congr (Heap.directories_setDirectory_of_ne _ _ hne) rfl]
    exact (Heap.foldl_delayLoad_of_mem b.children.sorted (FlatMap.find_eq_some_iff.mp hr)).2

theorem Heap.Fits.storable (hp : h.Fits p) : Storable h p := by
  rw [Storable]
  split
  · next h0 =>
    have hcommit := hp.commitId
    rwa [h0] at hcommit
  · next n hn =>
    have hfind : ∀ id r, (h.directoryBlock p).children.find id = some r →
        id ≤ maxChildId p.level ∧ FitsReference r := fun id r hr => by
      obtain ⟨o, ho, rfl⟩ := Option.map_eq_some_iff.mp ((FlatMap.find_mapWithKey _ _ _).symm.trans hr)
      exact hp.children id o (by omega) ho
    refine ⟨?_, fun id r hr => (hfind id r hr).2, ?_⟩
    · have hcommit := hp.commitId
      rwa [hn] at hcommit
    · -- the id after the largest one is not in use
      refine size_lt_of_find_none (k := 0xffffffff) ?_
      by_contra hne
      obtain ⟨r, hr⟩ := Option.ne_none_iff_exists'.mp hne
      have hle := (hfind _ r hr).1
      rw [maxChildId_eq] at hle
      exact absurd hle (by decide)

theorem load_zero_of_decode {bytes : List UInt8} {b : BlobBlock}
    (hread : f.readIntoMemory (g.blobs q).fileLocation = some bytes)
    (hdecode : decodeBlob bytes = some b) :
    g.load f 0 q = some (g.setBlob q ((g.blobs q).loadedWith b)) := by
  rw [Heap.load, hread]
  dsimp only
  rw [hdecode]

theorem load_succ_of_decode {bytes : List UInt8} {d : DirectoryBlock}
    (hread : f.readIntoMemory (g.directories q).fileLocation = some bytes)
    (hdecode : decodeDirectory bytes = some d) :
    g.load f (n + 1) q = some ((d.children.entries.foldl (Heap.delayLoad n q) g).setDirectory q
      ((g.directories q).loadedWith d)) := by
  rw [Heap.load, hread]
  dsimp only
  rw [hdecode]

/-- The snapshot of the active root is the one its block tells. -/
theorem readInitialFileDatabaseData_of_decode {header : FileHeader} {l : FreeListBlock}
    {d : DirectoryBlock} {hbytes bytes lbytes : List UInt8}
    (hheader : f.readIntoMemory ⟨0, 80⟩ = some hbytes) (hh : decodeHeader hbytes = some header)
    (hread : f.readIntoMemory (header.roots header.rootIndex).snapshot = some bytes)
    (hdecode : decodeDirectory bytes = some d)
    (hlist : f.readIntoMemory (header.roots header.rootIndex).freeList = some lbytes)
    (hl : decodeFreeList lbytes = some l) :
    ∃ db, Database.readInitialFileDatabaseData f = some db ∧ db.heap.directoryBlock db.snapshot = d := by
  rw [Database.readInitialFileDatabaseData, hheader]
  dsimp only
  rw [hh]
  dsimp only
  rw [hread]
  dsimp only
  rw [hdecode]
  dsimp only
  rw [hlist]
  dsimp only
  rw [hl]
  exact ⟨_, rfl, directoryBlock_delayLoad rfl _ _⟩

/-- The block of an object has the size that was calculated for it, and loading an object from
the block restores the commit id, the next free id and the children with their places, or the
commit id and the content of a blob; so does opening a file whose active root has the block of a
snapshot. -/
theorem serializeIntoBuffer_restores {L : FreeList}
    (hsize : (h.locations p).size = h.calculateRequiredSize p) (hfits : h.Fits p)
    (buffer : List UInt8) :
    (p.level ≠ 0 → contiguousBlocks none (h.directories p).children.entries < 2 ^ 31) ∧
      (serializeIntoBuffer h L buffer (some p)).length = h.calculateRequiredSize p ∧
      (∀ (f : FileContent) (g : Heap) (q : Pointer), q.level = p.level →
        f.readIntoMemory (g.locations q) = some (serializeIntoBuffer h L buffer (some p)) →
        ∃ g', g.load f p.level q = some g' ∧ h.Restores p g' q) ∧
      ∀ (f : FileContent) (header : FileHeader) (l : FreeListBlock) (hbytes lbytes : List UInt8),
        p.level = Database.fileSnapshot.level → f.readIntoMemory ⟨0, 80⟩ = some hbytes →
        decodeHeader hbytes = some header →
        f.readIntoMemory (header.roots header.rootIndex).snapshot =
          some (serializeIntoBuffer h L buffer (some p)) →
        f.readIntoMemory (header.roots header.rootIndex).freeList = some lbytes →
        decodeFreeList lbytes = some l →
        ∃ db, Database.readInitialFileDatabaseData f = some db ∧ h.Restores p db.heap db.snapshot := by
  have hdecode := decode_serializeIntoBuffer (L := L) hsize hfits.storable buffer
  refine ⟨fun hl => contiguousBlocks_lt fun id o ho => ?_, ?_, fun f g q hq hread => ?_,
    fun f header l hbytes lbytes hl hheader hh hread hlist hdl => ?_⟩
  · rw [← maxChildId_eq p.level]
    exact (hfits.children id o hl ho).1
  · rw [length_serializeIntoBuffer (show BlockFits h L (some p) from hsize), ← hsize]
    rfl
  · rw [Heap.locations, hq] at hread
    unfold Heap.Restores
    generalize p.level = n at hdecode hread hq
    cases n with
    | zero =>
      refine ⟨_, load_zero_of_decode hread hdecode, ?_⟩
      simp only [Heap.blobs_setBlob_self, Blob.loadedWith, and_self]
    | succ n =>
      exact ⟨_, load_succ_of_decode hread hdecode, directoryBlock_delayLoad hq _ _⟩
  · rw [show Database.fileSnapshot.level = 3 from rfl] at hl
    unfold Heap.Restores
    rw [hl] at hdecode ⊢
    exact readInitialFileDatabaseData_of_decode hheader hh hread hdecode hlist hdl

/-- A snapshot with a hole between its segments. -/
def holedSnapshot : Heap :=
  (default : Heap).setDirectory ⟨[], .file⟩
    { Directory.new 0 7 with
      nextFreeId := 6
      children := .ofList [(0, .file), (1, .file), (5, .file)]
      fileLocation := ⟨200, 80⟩ }

theorem fits_holedSnapshot : holedSnapshot.Fits ⟨[], .file⟩ where
  commitId := show (7 : ℕ) < 2 ^ 64 by decide
  children id o _ ho := by
    have hkeys : ∀ e ∈ (FlatMap.ofList [((0 : UInt32), Origin.file), (1, .file), (5, .file)]).entries,
        e.1 ≤ 0xffffffff - 0x100 := by
      decide
    refine ⟨hkeys (id, o) (FlatMap.find_eq_some_iff.mp ho), ?_⟩
    -- the segments have no place yet
    rw [Heap.locations, holedSnapshot, Heap.fileLocation_congr
      (Heap.directories_setDirectory_of_ne _ _ fun heq => by simp [Pointer.child] at heq) rfl]
    exact ⟨show (0 : ℕ) < 2 ^ 64 by norm_num, show (0 : ℕ) < 2 ^ 64 by norm_num⟩

theorem serializeIntoBuffer_restores_holed :
    (serializeIntoBuffer holedSnapshot ⟨0, [], ⟨0, 0⟩⟩ [] (some ⟨[], .file⟩)).length = 80 ∧
      ∃ f g', Heap.load f 3 ((default : Heap).setDirectory ⟨[], .file⟩ (.delayed 0 ⟨200, 80⟩))
          ⟨[], .file⟩ = some g' ∧
        g'.directoryBlock ⟨[], .file⟩ = holedSnapshot.directoryBlock ⟨[], .file⟩ := by
  have h := serializeIntoBuffer_restores (h := holedSnapshot) (p := ⟨[], .file⟩)
    (L := ⟨0, [], ⟨0, 0⟩⟩) rfl fits_holedSnapshot []
  have hlen : (serializeIntoBuffer holedSnapshot ⟨0, [], ⟨0, 0⟩⟩ []
      (some ⟨[], .file⟩)).length = 80 := h.2.1
  -- the block is written where the snapshot says it is
  have hread := FileContent.readIntoMemory_writeFromMemory ⟨0, fun _ => 0⟩
    ⟨200, serializeIntoBuffer holedSnapshot ⟨0, [], ⟨0, 0⟩⟩ [] (some ⟨[], .file⟩)⟩
    (List.ne_nil_of_length_pos (by rw [hlen]; norm_num))
  rw [FileWrite.extent, hlen] at hread
  exact ⟨hlen, _, h.2.2.1 _ ((default : Heap).setDirectory ⟨[], .file⟩ (.delayed 0 ⟨200, 80⟩))
    ⟨[], .file⟩ rfl hread⟩

end BlobsDb
