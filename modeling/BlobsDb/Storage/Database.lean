import BlobsDb.Storage.Commit

/-!
# Databases

A `Database` has its active snapshot, the snapshot kept for readers while there are any, and,
unless it lives in memory only, a file. A commit is calculated first (`calculateCommitResult`)
and then written (`applyToDatabase`): all new blocks, a flush, the header, and a flush.

The blocks a commit allocates and releases are kept in unordered sets; a `Schedule` says in which
order a commit walks them.
-/

namespace BlobsDb

namespace Heap

/-- `CalculateRequiredSize` of the object of a pointer. -/
def calculateRequiredSize (h : Heap) (p : Pointer) : ℕ :=
  match p.level with
  | 0 => 8 + (h.blobs p).data.length
  | _ + 1 => directorySize (h.directories p).children

def setFileLocation (h : Heap) (p : Pointer) (r : BlockReference) : Heap :=
  match p.level with
  | 0 => h.setBlob p { h.blobs p with fileLocation := r }
  | _ + 1 => h.setDirectory p { h.directories p with fileLocation := r }

/-- What the block of a snapshot, segment or cluster stores. -/
def directoryBlock (h : Heap) (p : Pointer) : DirectoryBlock where
  commitId := (h.directories p).commitId
  nextFreeId := (h.directories p).nextFreeId
  children := (h.directories p).children.mapWithKey fun id o =>
    h.fileLocation (p.child id o).level (p.child id o)

end Heap

/-- The orders in which a commit walks the sets of blocks, and the sorting of the free list.
When the blocks are stored the free list is among them, as `none`. -/
structure Schedule where
  allocatedOrder : List Pointer
  releasedOrder : List MemoryBlock
  sort : OffsetSort
  storedOrder : List (Option Pointer)

/-- The orders visit the sets of the delta. -/
structure Schedule.Walks (σ : Schedule) (δ : MemoryBlockDelta) : Prop where
  allocated : σ.allocatedOrder.Perm δ.allocatedBlocks
  released : σ.releasedOrder.Perm δ.releasedBlocks
  stored : σ.storedOrder.Perm (none :: δ.allocatedBlocks.map some)

namespace FreeList

/-- Finds a place for an object and notes it. -/
def allocateBlock (s : Heap × FreeList) (p : Pointer) : Heap × FreeList :=
  let size := s.1.calculateRequiredSize p
  (s.1.setFileLocation p ⟨(s.2.allocateMemoryBlock size).1, size⟩, (s.2.allocateMemoryBlock size).2)

/-- The first part of `AllocateAndApplyDelta`: places for all new objects, and for the list. -/
def allocateAll (L : FreeList) (h : Heap) (δ : MemoryBlockDelta) (σ : Schedule) :
    Heap × FreeList :=
  let s := σ.allocatedOrder.foldl allocateBlock (h, L)
  let size := s.2.estimateRequiredSize (δ.releasedBlocks.length + 1)
  (s.1, { (s.2.allocateMemoryBlock size).2 with
    fileLocation := ⟨(s.2.allocateMemoryBlock size).1, size⟩ })

/-- `AllocateAndApplyDelta`: only when everything has a place is the space of the released
blocks and of the previous list given back. -/
def allocateAndApplyDelta (L : FreeList) (h : Heap) (δ : MemoryBlockDelta) (σ : Schedule) :
    Heap × FreeList :=
  let s := L.allocateAll h δ σ
  let freed := σ.releasedOrder.foldl (fun L b => L.freeMemoryBlock b.fileLocation) s.2
  (s.1, (freed.freeMemoryBlock L.fileLocation).reorganize σ.sort)

end FreeList

/-- The file of a database, its header and the free list. -/
structure Storage where
  file : FileContent
  fileHeader : FileHeader
  freeList : FreeList

structure Database where
  heap : Heap
  snapshot : Pointer
  mvccSnapshot : Option Pointer
  mvccUseCount : ℕ
  storage : Option Storage

/-- The result of a commit, before it is written. -/
structure CommitResult where
  heap : Heap
  snapshot : Pointer
  freeList : Option FreeList
  delta : Option MemoryBlockDelta
  deleted : Deleted

/-- Fits the buffer to a size. -/
def resize (n : ℕ) (l : List UInt8) : List UInt8 := l.take n ++ List.replicate (n - l.length) 0

/-- `SerializeIntoBuffer` of an object, or of the free list: the buffer after it. -/
def serializeIntoBuffer (h : Heap) (L : FreeList) (buffer : List UInt8) :
    Option Pointer → List UInt8
  | none =>
    encodeFreeList ⟨L.endOffset, L.entries⟩ ++
      (resize L.fileLocation.size buffer).drop L.calculateRequiredSize
  | some p =>
    match p.level with
    | 0 => encodeBlob ⟨(h.blobs p).commitId, (h.blobs p).data⟩
    | 3 =>
      encodeDirectory (((resize (h.directories p).fileLocation.size buffer).drop 12).take 4)
        (h.directoryBlock p)
    | _ => encodeDirectory (leBytes 4 (h.directories p).id.toNat) (h.directoryBlock p)

/-- The place of an object, or of the free list. -/
def blockOffset (h : Heap) (L : FreeList) : Option Pointer → ℕ
  | none => L.fileLocation.offset
  | some p => (h.fileLocation p.level p).offset

/-- `StoreMemoryBlock` for one block after the other, through one buffer. -/
def storeMemoryBlocks (h : Heap) (L : FreeList) :
    List (Option Pointer) → List UInt8 → List FileWrite
  | [], _ => []
  | b :: l, buffer =>
    let buffer := serializeIntoBuffer h L buffer b
    ⟨blockOffset h L b, buffer⟩ :: storeMemoryBlocks h L l buffer

/-- The header with the other root made active and set to the snapshot and the free list. -/
def FileHeader.switchRoot (header : FileHeader) (root : Root) : FileHeader where
  rootIndex := 1 - header.rootIndex
  roots := Function.update header.roots (1 - header.rootIndex) root

/-- The write of the header. -/
def headerWrite (header : FileHeader) : FileWrite := ⟨0, encodeHeader header⟩

namespace Storage

variable (s : Storage) (r : CommitResult) (L : FreeList) (σ : Schedule)

/-- The block writes of a commit. -/
def blockWrites : List FileWrite := storeMemoryBlocks r.heap L σ.storedOrder []

/-- The header a commit writes. -/
def newHeader : FileHeader :=
  s.fileHeader.switchRoot ⟨r.heap.fileLocation 3 r.snapshot, L.fileLocation⟩

/-- The storage after a commit. -/
def afterCommit : Storage where
  file := (s.file.writeAll (blockWrites r L σ)).writeFromMemory (headerWrite (s.newHeader r L))
  fileHeader := s.newHeader r L
  freeList := L

/-- The disk may hold `g` when the machine stops while the commit is written: before the first
flush is completed any of the block writes may be missing, after it only the header write. -/
def StopsWith (g : FileContent) : Prop :=
  s.file.Persists (blockWrites r L σ) g ∨
    (s.file.writeAll (blockWrites r L σ)).Persists [headerWrite (s.newHeader r L)] g

end Storage

namespace Database

/-- The file objects are loaded from. A database in memory never opened one, and nothing can be
read from it. -/
def file (db : Database) : FileContent :=
  match db.storage with
  | none => ⟨0, fun _ => 0⟩
  | some s => s.file

def commitId (db : Database) : CommitId := (db.heap.directories db.snapshot).commitId

/-- The pointer to the snapshot the next commit builds. -/
def newSnapshot (db : Database) : Pointer := ⟨[], .commit (db.commitId + 1)⟩

/-- The state a commit starts from: a copy of the snapshot, which replaces the active one. -/
def beginCommit (db : Database) : CommitState where
  heap := db.heap.setDirectory db.newSnapshot (Snapshot.copy (db.heap.directories db.snapshot))
  delta := db.storage.map fun _ =>
    (MemoryBlockDelta.empty.allocated db.newSnapshot).released
      ⟨db.snapshot, db.heap.fileLocation 3 db.snapshot⟩
  deleted := .empty

/-- The objects after the entries of a commit. -/
def updates (db : Database) (us : List BlobData) : Option CommitState :=
  CommitState.applyUpdates db.file db.mvccSnapshot.isSome db.newSnapshot us db.beginCommit

/-- `CalculateCommitResult` -/
def calculateCommitResult (db : Database) (us : List BlobData) (σ : Schedule) :
    Option CommitResult :=
  match db.updates us with
  | none => none
  | some st =>
    match db.storage, st.delta with
    | some s, some δ =>
      let a := s.freeList.allocateAndApplyDelta st.heap δ σ
      some ⟨a.1, db.newSnapshot, some a.2, some δ, st.deleted⟩
    | _, _ => some ⟨st.heap, db.newSnapshot, none, st.delta, st.deleted⟩

/-- `ApplyToDatabase` -/
def applyToDatabase (db : Database) (r : CommitResult) (σ : Schedule) : Database :=
  { db with
    heap := r.heap
    snapshot := r.snapshot
    storage :=
      match db.storage, r.freeList with
      | some s, some L => some (s.afterCommit r L σ)
      | storage, _ => storage }

/-- `BeginMVCC` -/
def beginMVCC (db : Database) : Database :=
  { db with
    mvccUseCount := db.mvccUseCount + 1
    mvccSnapshot := if db.mvccUseCount = 0 then some db.snapshot else db.mvccSnapshot }

/-- `EndMVCC` -/
def endMVCC (db : Database) : Database :=
  { db with
    mvccUseCount := db.mvccUseCount - 1
    mvccSnapshot := if db.mvccUseCount - 1 = 0 then none else db.mvccSnapshot }

/-- `InitializeInMemory` -/
def initializeInMemory : Database :=
  let snapshot : Pointer := ⟨[], .commit 1⟩
  let st : CommitState := ⟨(default : Heap).setDirectory snapshot (.new 0 1), none, .empty⟩
  let st := (CommitState.updateSegment snapshot 0 st).2
  ⟨(st.setNextFreeId snapshot 1).heap, snapshot, none, 0, none⟩

/-- The pointer to the snapshot read from a file. -/
def fileSnapshot : Pointer := ⟨[], .file⟩

/-- `ReadInitialFileDatabaseData`: the snapshot and the free list of the active root. -/
def readInitialFileDatabaseData (f : FileContent) : Option Database :=
  match f.readIntoMemory ⟨0, 80⟩ with
  | none => none
  | some bytes =>
    match decodeHeader bytes with
    | none => none
    | some header =>
      let root := header.roots header.rootIndex
      match f.readIntoMemory root.snapshot with
      | none => none
      | some bytes =>
        match decodeDirectory bytes with
        | none => none
        | some d =>
          match f.readIntoMemory root.freeList with
          | none => none
          | some bytes =>
            match decodeFreeList bytes with
            | none => none
            | some l =>
              let heap := d.children.entries.foldl (Heap.delayLoad 2 fileSnapshot) default
              some {
                heap := heap.setDirectory fileSnapshot
                  ({ Directory.new 0 d.commitId with fileLocation := root.snapshot }.loadedWith d)
                snapshot := fileSnapshot
                mvccSnapshot := none
                mvccUseCount := 0
                storage := some ⟨f, header, l.endOffset, l.entries, root.freeList⟩ }

/-- The content `InitializeDatabaseFile` writes: the empty blob `0` in the cluster `0` of the
segment `0`, and the rest of the file as one free block. -/
def initialContent : List UInt8 :=
  let snapshot : BlockReference := ⟨80, 40⟩
  let segment : BlockReference := ⟨snapshot.endOffset, 40⟩
  let cluster : BlockReference := ⟨segment.endOffset, 40⟩
  let blob : BlockReference := ⟨cluster.endOffset, 8⟩
  let freeList : BlockReference := ⟨blob.endOffset, 32⟩
  encodeHeader ⟨0, ![⟨snapshot, freeList⟩, default]⟩ ++
    (encodeDirectory [0, 0, 0, 0] ⟨1, 1, FlatMap.empty.insert 0 segment⟩ ++
    (encodeDirectory (leBytes 4 0) ⟨1, 1, FlatMap.empty.insert 0 cluster⟩ ++
    (encodeDirectory (leBytes 4 0) ⟨1, 1, FlatMap.empty.insert 0 blob⟩ ++
    (encodeBlob ⟨1, []⟩ ++
    (encodeFreeList ⟨1024, [⟨freeList.endOffset, 1024 - freeList.endOffset⟩]⟩ ++
      List.replicate (1024 - freeList.endOffset) 0)))))

/-- The file after `InitializeDatabaseFile`. -/
def initializeDatabaseFile : FileContent :=
  (⟨0, fun _ => 0⟩ : FileContent).writeFromMemory ⟨0, initialContent⟩

/-- The tree of a snapshot. -/
def tree (db : Database) (snapshot : Pointer) : Option (Tree 3) := db.heap.view db.file 3 snapshot

end Database

end BlobsDb
