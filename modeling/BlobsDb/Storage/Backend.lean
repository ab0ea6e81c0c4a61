import BlobsDb.Storage.Opening

/-!
# Reading from a file that is too short

The file backend reads a block with as many calls as it takes. A call at or past the end of the
file succeeds and delivers nothing, so the loop goes on forever when the file ends before the
block does. The loop is modelled with a number of calls after which it is stopped; a load has no
result if it is.

A load that ends gives data or an error, or it has used bytes that are not part of the block,
because the content of the block is not what is expected there. `loadFromFile_finishes_iff` says
for which files opening, and loading an object later, ends with data or an error.
-/

namespace BlobsDb

variable {f : FileContent} {fuel position bytes : ℕ} {α : Type}

/-- How a load ends. -/
inductive LoadOutcome (α : Type)
  | data (a : α)
  | error
  | outOfBounds

/-- The load ended with the data or with an error. -/
def LoadOutcome.Finished : LoadOutcome α → Prop
  | data _ => True
  | error => True
  | outOfBounds => False

namespace FileContent

/-! ### The read loop -/

/-- The bytes of the file from a position on. -/
def bytesFrom (f : FileContent) (position bytes : ℕ) : List UInt8 :=
  (List.range bytes).map fun i => f.byte (position + i)

theorem bytesFrom_add (f : FileContent) (position m n : ℕ) :
    f.bytesFrom position (m + n) = f.bytesFrom position m ++ f.bytesFrom (position + m) n := by
  simp only [bytesFrom, List.range_add, List.map_append, List.map_map]
  refine congrArg _ (List.map_congr_left fun i _ => ?_)
  rw [Function.comp_apply, Nat.add_assoc]

@[simp]
theorem length_bytesFrom (f : FileContent) (position bytes : ℕ) :
    (f.bytesFrom position bytes).length = bytes := by
  simp [bytesFrom]

/-- `ReadFile`: the bytes there are, none at or past the end of the file. -/
def readFile (f : FileContent) (position bytes : ℕ) : List UInt8 :=
  f.bytesFrom position (min bytes (f.size - position))

/-- `ReadIntoMemory`, stopped after some calls of `ReadFile`. -/
def readLoop (f : FileContent) : ℕ → ℕ → ℕ → Option (List UInt8)
  | _, _, 0 => some []
  | 0, _, _ + 1 => none
  | fuel + 1, position, bytes + 1 =>
    let chunk := f.readFile position (min 0xffffffff (bytes + 1))
    (readLoop f fuel (position + chunk.length) (bytes + 1 - chunk.length)).map (chunk ++ ·)

/-- The bytes are part of the file. -/
def Contains (f : FileContent) (position bytes : ℕ) : Prop :=
  bytes = 0 ∨ position + bytes ≤ f.size

/-- The loop only ends when all bytes are part of the file. -/
theorem contains_of_readLoop {l : List UInt8} (h : f.readLoop fuel position bytes = some l) :
    f.Contains position bytes ∧ l = f.bytesFrom position bytes := by
  induction fuel generalizing position bytes l with
  | zero =>
    cases bytes with
    | zero =>
      cases h
      exact ⟨Or.inl rfl, rfl⟩
    | succ bytes => cases h
  | succ fuel ih =>
    cases bytes with
    | zero =>
      cases h
      exact ⟨Or.inl rfl, rfl⟩
    | succ bytes =>
      rw [readLoop] at h
      obtain ⟨rest, hrest, rfl⟩ := Option.map_eq_some_iff.mp h
      obtain ⟨hcontains, rfl⟩ := ih hrest
      rw [readFile, length_bytesFrom] at hcontains ⊢
      set k := min (min 0xffffffff (bytes + 1)) (f.size - position) with hk
      have hle : k ≤ bytes + 1 := (Nat.min_le_left _ _).trans (Nat.min_le_right _ _)
      refine ⟨Or.inr ?_, ?_⟩
      · rcases hcontains with hzero | hsize
        · have : k ≤ f.size - position := Nat.min_le_right _ _
          omega
        · omega
      · rw [← bytesFrom_add, Nat.add_sub_cancel' hle]

/-- The loop ends when all bytes are part of the file: each call delivers one at least. -/
theorem readLoop_of_contains (h : f.Contains position bytes) (hfuel : bytes ≤ fuel) :
    f.readLoop fuel position bytes = some (f.bytesFrom position bytes) := by
  induction fuel generalizing position bytes with
  | zero =>
    obtain rfl := Nat.le_zero.mp hfuel
    rfl
  | succ fuel ih =>
    cases bytes with
    | zero => rfl
    | succ bytes =>
      rw [Contains] at h
      rw [readLoop, readFile, length_bytesFrom]
      set k := min (min 0xffffffff (bytes + 1)) (f.size - position) with hk
      have hle : k ≤ bytes + 1 := (Nat.min_le_left _ _).trans (Nat.min_le_right _ _)
      have hpos : 1 ≤ k := by omega
      rw [ih (by rw [Contains]; omega) (by omega), Option.map_some, ← bytesFrom_add,
        Nat.add_sub_cancel' hle]

/-! ### Loading a block -/

/-- `SetFilePosition`: positions that are negative as 64 bit numbers are refused, and the file
stays where it was. -/
def setFilePosition (position offset : ℕ) : ℕ := if offset < 2 ^ 63 then offset else position

/-- `LoadMemoryBlock`, and what is made of the bytes. The memory for the block may not be
available. -/
def loadMemoryBlock (f : FileContent) (allocates : ℕ → Bool) (fuel position : ℕ)
    (decode : List UInt8 → Option α) (r : BlockReference) : Option (LoadOutcome α) :=
  if allocates r.size then
    (f.readLoop fuel (setFilePosition position r.offset) r.size).map fun bytes =>
      match decode bytes with
      | none => .outOfBounds
      | some a => .data a
  else some .error

/-- The block is in the file and has the content that is expected there, or there is no memory
for it. -/
def Loadable (f : FileContent) (allocates : ℕ → Bool) (position : ℕ)
    (decode : List UInt8 → Option α) (r : BlockReference) : Prop :=
  allocates r.size = true → f.Contains (setFilePosition position r.offset) r.size ∧
    (decode (f.bytesFrom (setFilePosition position r.offset) r.size)).isSome = true

variable {allocates : ℕ → Bool} {decode : List UInt8 → Option α} {r : BlockReference}

/-- Only a lack of memory is reported as an error. -/
theorem allocates_of_error
    (h : f.loadMemoryBlock allocates fuel position decode r = some .error) :
    allocates r.size = false := by
  by_contra hallocates
  rw [loadMemoryBlock, if_pos (by simpa using hallocates)] at h
  obtain ⟨l, -, hl⟩ := Option.map_eq_some_iff.mp h
  split at hl <;> cases hl

/-- A load that ends without using other bytes is one of a loadable block. -/
theorem loadable_of_loadMemoryBlock {o : LoadOutcome α}
    (h : f.loadMemoryBlock allocates fuel position decode r = some o) (ho : o.Finished) :
    f.Loadable allocates position decode r := by
  intro hallocates
  rw [loadMemoryBlock, if_pos hallocates] at h
  obtain ⟨l, hl, rfl⟩ := Option.map_eq_some_iff.mp h
  obtain ⟨hcontains, rfl⟩ := contains_of_readLoop hl
  refine ⟨hcontains, ?_⟩
  split at ho
  · cases ho
  · next a ha =>
    rw [ha]
    rfl

/-- The load of a loadable block ends: with the data if there is memory for it. -/
theorem loadMemoryBlock_of_loadable (h : f.Loadable allocates position decode r)
    (hfuel : r.size ≤ fuel) :
    if allocates r.size then ∃ a, f.loadMemoryBlock allocates fuel position decode r = some (.data a)
    else f.loadMemoryBlock allocates fuel position decode r = some .error := by
  split_ifs with hallocates
  · obtain ⟨hcontains, hdecode⟩ := h hallocates
    obtain ⟨a, ha⟩ := Option.isSome_iff_exists.mp hdecode
    refine ⟨a, ?_⟩
    rw [loadMemoryBlock, if_pos hallocates, readLoop_of_contains hcontains hfuel, Option.map_some,
      ha]
  · rw [loadMemoryBlock, if_neg hallocates]

end FileContent

/-! ### Opening -/

/-- The database with the snapshot and the free list of the active root. -/
def Database.ofBlocks (f : FileContent) (header : FileHeader) (d : DirectoryBlock)
    (l : FreeListBlock) : Database :=
  let root := header.roots header.rootIndex
  let heap := d.children.entries.foldl (Heap.delayLoad 2 fileSnapshot) default
  { heap := heap.setDirectory fileSnapshot
      ({ Directory.new 0 d.commitId with fileLocation := root.snapshot }.loadedWith d)
    snapshot := fileSnapshot
    mvccSnapshot := none
    mvccUseCount := 0
    storage := some ⟨f, header, l.endOffset, l.entries, root.freeList⟩ }

/-- The place of the file after the snapshot of a root was read. -/
def Root.positionAfter (root : Root) : ℕ :=
  FileContent.setFilePosition 80 root.snapshot.offset + root.snapshot.size

/-- `LoadFromFile`, for a file that exists. -/
def loadFromFile (f : FileContent) (allocates : ℕ → Bool) (fuel : ℕ) :
    Option (LoadOutcome Database) :=
  match f.readLoop fuel 0 80 with
  | none => none
  | some bytes =>
    if bytes.take 13 ≠ headerBytes then some .error
    else
      match decodeHeader bytes with
      | none => some .outOfBounds
      | some header =>
        let root := header.roots header.rootIndex
        match f.loadMemoryBlock allocates fuel 80 decodeDirectory root.snapshot with
        | none => none
        | some .error => some .error
        | some .outOfBounds => some .outOfBounds
        | some (.data d) =>
          match f.loadMemoryBlock allocates fuel root.positionAfter decodeFreeList root.freeList with
          | none => none
          | some .error => some .error
          | some .outOfBounds => some .outOfBounds
          | some (.data l) => some (.data (.ofBlocks f header d l))

/-- The file has a whole header. If this is the header of a database, its index names a root, whose
snapshot can be loaded, and then its free list can be loaded. -/
def OpensProperly (f : FileContent) (allocates : ℕ → Bool) : Prop :=
  80 ≤ f.size ∧ ((f.bytesFrom 0 80).take 13 = headerBytes →
    ∃ header, decodeHeader (f.bytesFrom 0 80) = some header ∧
      f.Loadable allocates 80 decodeDirectory (header.roots header.rootIndex).snapshot ∧
      (allocates (header.roots header.rootIndex).snapshot.size = true →
        f.Loadable allocates (header.roots header.rootIndex).positionAfter decodeFreeList
          (header.roots header.rootIndex).freeList))

/-- What the block of an object of a level has to contain. -/
def decodeObject (n : ℕ) (l : List UInt8) : Option (BlobBlock ⊕ DirectoryBlock) :=
  match n with
  | 0 => (decodeBlob l).map .inl
  | _ + 1 => (decodeDirectory l).map .inr

/-- `LoadFrom` of an object of a level, up to what is made of the content. -/
def loadObject (f : FileContent) (allocates : ℕ → Bool) (fuel position n : ℕ)
    (r : BlockReference) : Option (LoadOutcome (BlobBlock ⊕ DirectoryBlock)) :=
  f.loadMemoryBlock allocates fuel position (decodeObject n) r

variable {allocates : ℕ → Bool}

theorem opensProperly_of_loadFromFile {o : LoadOutcome Database}
    (h : loadFromFile f allocates fuel = some o) (ho : o.Finished) : OpensProperly f allocates := by
  unfold loadFromFile at h
  split at h
  · cases h
  · next l hl =>
    obtain ⟨hcontains, rfl⟩ := FileContent.contains_of_readLoop hl
    have hsize : 80 ≤ f.size := by
      rw [FileContent.Contains] at hcontains
      omega
    refine ⟨hsize, fun hvalid => ?_⟩
    rw [if_neg (not_not.mpr hvalid)] at h
    split at h
    · obtain rfl := Option.some.inj h
      cases ho
    · next header hheader =>
      refine ⟨header, hheader, ?_⟩
      dsimp only at h
      split at h
      · cases h
      · next hsnapshot =>
        -- there is no memory for the snapshot
        have hloadable := FileContent.loadable_of_loadMemoryBlock hsnapshot trivial
        refine ⟨hloadable, fun hallocates => ?_⟩
        rw [FileContent.allocates_of_error hsnapshot] at hallocates
        cases hallocates
      · obtain rfl := Option.some.inj h
        cases ho
      · next d hsnapshot =>
        refine ⟨FileContent.loadable_of_loadMemoryBlock hsnapshot trivial, fun _ => ?_⟩
        split at h
        · cases h
        · next hlist => exact FileContent.loadable_of_loadMemoryBlock hlist trivial
        · obtain rfl := Option.some.inj h
          cases ho
        · next l hlist => exact FileContent.loadable_of_loadMemoryBlock hlist trivial

theorem exists_loadFromFile (h : OpensProperly f allocates) :
    ∃ fuel o, loadFromFile f allocates fuel = some o ∧ o.Finished := by
  obtain ⟨hsize, hheader⟩ := h
  have hread : ∀ {fuel}, 80 ≤ fuel → f.readLoop fuel 0 80 = some (f.bytesFrom 0 80) :=
    FileContent.readLoop_of_contains (Or.inr (by omega))
  by_cases hvalid : (f.bytesFrom 0 80).take 13 = headerBytes
  · obtain ⟨header, hdecode, hsnapshot, hlist⟩ := hheader hvalid
    set root := header.roots header.rootIndex with hroot
    set n := 80 + root.snapshot.size + root.freeList.size with hn
    refine ⟨n, ?_⟩
    have hsnapshot := FileContent.loadMemoryBlock_of_loadable hsnapshot
      (show root.snapshot.size ≤ n by omega)
    unfold loadFromFile
    rw [hread (by omega)]
    dsimp only
    rw [if_neg (not_not.mpr hvalid), hdecode]
    dsimp only
    split_ifs at hsnapshot with hallocates
    · obtain ⟨d, hd⟩ := hsnapshot
      rw [← hroot, hd]
      have hlist := FileContent.loadMemoryBlock_of_loadable (hlist hallocates)
        (show root.freeList.size ≤ n by omega)
      dsimp only
      split_ifs at hlist
      · obtain ⟨l, hl⟩ := hlist
        rw [hl]
        exact ⟨_, rfl, trivial⟩
      · rw [hlist]
        exact ⟨_, rfl, trivial⟩
    · rw [← hroot, hsnapshot]
      exact ⟨_, rfl, trivial⟩
  · refine ⟨80, .error, ?_, trivial⟩
    unfold loadFromFile
    rw [hread le_rfl]
    exact if_pos hvalid

/-- Opening a file, and loading an object from a block of it, end with data or an error when what
they read is in the file, and only then. -/
theorem loadFromFile_finishes_iff (f : FileContent) (allocates : ℕ → Bool) :
    ((∃ fuel o, loadFromFile f allocates fuel = some o ∧ o.Finished) ↔
      OpensProperly f allocates) ∧
    ∀ position n r, (∃ fuel o, loadObject f allocates fuel position n r = some o ∧ o.Finished) ↔
      f.Loadable allocates position (decodeObject n) r := by
  refine ⟨⟨fun ⟨_, _, h, ho⟩ => opensProperly_of_loadFromFile h ho, exists_loadFromFile⟩,
    fun position n r => ⟨fun ⟨_, _, h, ho⟩ => FileContent.loadable_of_loadMemoryBlock h ho,
      fun h => ⟨r.size, ?_⟩⟩⟩
  have hload := FileContent.loadMemoryBlock_of_loadable h le_rfl
  split_ifs at hload
  · obtain ⟨a, ha⟩ := hload
    exact ⟨_, ha, trivial⟩
  · exact ⟨_, hload, trivial⟩

/-- An empty file is there after a stop between the creation of the file and the write of its
initial content. Opening it never ends. -/
theorem not_finishes_empty : ¬∃ fuel o,
    loadFromFile ⟨0, fun _ => 0⟩ (fun _ => true) fuel = some o := by
  rintro ⟨fuel, o, h⟩
  unfold loadFromFile at h
  split at h
  · cases h
  · next l hl =>
    have hcontains : (0 + 80 ≤ 0) := (FileContent.contains_of_readLoop hl).1.resolve_left (by decide)
    omega

/-! ### Files that can be opened -/

/-- A block that can be read is loaded after finitely many calls. -/
theorem FileContent.loadMemoryBlock_of_readIntoMemory {decode : List UInt8 → Option α}
    {r : BlockReference} {l : List UInt8} {a : α} (hread : f.readIntoMemory r = some l)
    (hdecode : decode l = some a) (hsize : f.size < 2 ^ 63) (position : ℕ) (hfuel : r.size ≤ fuel) :
    f.loadMemoryBlock (fun _ => true) fuel position decode r = some (.data a) := by
  unfold FileContent.readIntoMemory at hread
  split_ifs at hread with hend
  obtain rfl := Option.some.inj hread
  rw [Extent.endOffset] at hend
  have hposition : setFilePosition position r.offset = r.offset := if_pos (by omega)
  rw [loadMemoryBlock, if_pos rfl, hposition, readLoop_of_contains (Or.inr hend) hfuel,
    Option.map_some, bytesFrom, hdecode]

/-- What the server opens is opened after finitely many calls. -/
theorem loadFromFile_of_readInitialFileDatabaseData {db : Database}
    (h : Database.readInitialFileDatabaseData f = some db) (hsize : f.size < 2 ^ 63) :
    ∃ fuel, loadFromFile f (fun _ => true) fuel = some (.data db) := by
  unfold Database.readInitialFileDatabaseData at h
  split at h
  · cases h
  · next bytes hbytes =>
    split at h
    · cases h
    · next header hheader =>
      dsimp only at h
      split at h
      · cases h
      · next sbytes hsbytes =>
        split at h
        · cases h
        · next d hd =>
          split at h
          · cases h
          · next lbytes hlbytes =>
            split at h
            · cases h
            · next l hl =>
              obtain rfl := Option.some.inj h
              set root := header.roots header.rootIndex with hroot
              -- the loop reads each block at once, so its bytes are enough rounds
              refine ⟨80 + root.snapshot.size + root.freeList.size, ?_⟩
              have hvalid : bytes.take 13 = headerBytes := by
                by_contra hne
                rw [decodeHeader, if_pos hne] at hheader
                cases hheader
              unfold FileContent.readIntoMemory at hbytes
              split_ifs at hbytes with hend
              obtain rfl := Option.some.inj hbytes
              have hread : f.readLoop (80 + root.snapshot.size + root.freeList.size) 0 80 =
                  some (f.bytesFrom 0 80) :=
                FileContent.readLoop_of_contains (Or.inr hend) (by omega)
              have hsnapshot := FileContent.loadMemoryBlock_of_readIntoMemory hsbytes hd hsize 80
                (show root.snapshot.size ≤ 80 + root.snapshot.size + root.freeList.size by omega)
              have hlist := FileContent.loadMemoryBlock_of_readIntoMemory hlbytes hl hsize
                root.positionAfter
                (show root.freeList.size ≤ 80 + root.snapshot.size + root.freeList.size by omega)
              unfold loadFromFile
              rw [hread]
              dsimp only
              have hvalid : (f.bytesFrom 0 80).take 13 = headerBytes := hvalid
              rw [if_neg (not_not.mpr hvalid), show decodeHeader (f.bytesFrom 0 80) = some header
                from hheader]
              dsimp only
              rw [← hroot, hsnapshot]
              dsimp only
              rw [hlist]
              rfl

end BlobsDb
