import BlobsDb.Config
import BlobsDb.ForMathlib.FlatMap
import BlobsDb.ForMathlib.LittleEndian
import BlobsDb.Storage.File
import Mathlib.Data.Fintype.Card
import Mathlib.Data.Fin.VecNotation
import Mathlib.Tactic.Ring

/-!
# The blocks of a database file

Snapshots, segments and clusters are stored alike: commit id, next free id, own id, and then the
references to the children. Children with contiguous ids form a range, which stores its first
and its past end id and then one reference for each child. A snapshot has no id of its own; the
four bytes are alignment, which nothing writes.

Blocks are written through one buffer that is resized but never cleared, so the bytes nothing
writes are left over from the block written before.
-/

namespace BlobsDb

/-! ### References and ranges -/

/-- The stored form of a block reference. -/
def encodeReference (r : BlockReference) : List UInt8 := leBytes 8 r.offset ++ leBytes 8 r.size

def takeReference (l : List UInt8) : Option (BlockReference × List UInt8) :=
  match takeNat 8 l with
  | none => none
  | some (offset, l) =>
    match takeNat 8 l with
    | none => none
    | some (size, l) => some (⟨offset, size⟩, l)

/-- The offset and the size of the block are 64 bit numbers. -/
def FitsReference (r : BlockReference) : Prop := r.offset < 2 ^ 64 ∧ r.size < 2 ^ 64

@[simp]
theorem length_encodeReference (r : BlockReference) : (encodeReference r).length = 16 := by
  simp [encodeReference]

/-- A reference is read back as it was written. -/
theorem takeReference_encodeReference_append {r : BlockReference} (h : FitsReference r)
    (l : List UInt8) : takeReference (encodeReference r ++ l) = some (r, l) := by
  have h1 : r.offset < 256 ^ 8 := h.1.trans_eq (by norm_num)
  have h2 : r.size < 256 ^ 8 := h.2.trans_eq (by norm_num)
  rw [takeReference, encodeReference, List.append_assoc, takeNat_leBytes_append h1]
  simp only [takeNat_leBytes_append h2]

/-- A range of children with contiguous ids: the first id, the past end id and the references. -/
structure IdRange where
  startId : UInt32
  endId : UInt32
  references : List BlockReference

/-- The entries of a child list after the open range `r`, cut into ranges: an entry joins the
range when its id is the past end id of the range. -/
def groupRanges (r : IdRange) : List (UInt32 × BlockReference) → List IdRange
  | [] => [r]
  | e :: m =>
    if e.1 = r.endId then groupRanges ⟨r.startId, r.endId + 1, r.references ++ [e.2]⟩ m
    else r :: groupRanges ⟨e.1, e.1 + 1, [e.2]⟩ m

/-- The entries of a child list cut into ranges of contiguous ids. -/
def idRanges : List (UInt32 × BlockReference) → List IdRange
  | [] => []
  | e :: m => groupRanges ⟨e.1, e.1 + 1, [e.2]⟩ m

def encodeRange (r : IdRange) : List UInt8 :=
  leBytes 4 r.startId.toNat ++ leBytes 4 r.endId.toNat ++ r.references.flatMap encodeReference

/-- The first `n` references and what follows them. -/
def takeReferences : ℕ → List UInt8 → Option (List BlockReference × List UInt8)
  | 0, l => some ([], l)
  | n + 1, l =>
    match takeReference l with
    | none => none
    | some (r, l) =>
      match takeReferences n l with
      | none => none
      | some (rs, l) => some (r :: rs, l)

/-- References numbered from `id` on. -/
def rangeEntries : UInt32 → List BlockReference → List (UInt32 × BlockReference)
  | _, [] => []
  | id, r :: l => (id, r) :: rangeEntries (id + 1) l

/-- The entries of the ranges that fill the bytes. A last range that does not end with the
bytes would be read past the block, which has no answer. The first argument bounds the number
of ranges. -/
def decodeRanges : ℕ → List UInt8 → Option (List (UInt32 × BlockReference))
  | _, [] => some []
  | 0, _ :: _ => none
  | n + 1, b :: l =>
    match takeNat 4 (b :: l) with
    | none => none
    | some (startId, l) =>
      match takeNat 4 l with
      | none => none
      | some (endId, l) =>
        match takeReferences (UInt32.ofNat endId - UInt32.ofNat startId).toNat l with
        | none => none
        | some (rs, l) =>
          match decodeRanges n l with
          | none => none
          | some m => some (rangeEntries (UInt32.ofNat startId) rs ++ m)

theorem rangeEntries_append (id : UInt32) (l l' : List BlockReference) :
    rangeEntries id (l ++ l') = rangeEntries id l ++ rangeEntries (id + .ofNat l.length) l' := by
  induction l generalizing id with
  | nil => simp [rangeEntries]
  | cons r l ih =>
    simp only [List.cons_append, rangeEntries, ih, List.length_cons]
    rw [UInt32.ofNat_add, UInt32.add_comm (UInt32.ofNat l.length), ← UInt32.add_assoc]
    rfl

/-- References are read back as they were written. -/
theorem takeReferences_append {l : List BlockReference} (h : ∀ r ∈ l, FitsReference r)
    (l' : List UInt8) :
    takeReferences l.length (l.flatMap encodeReference ++ l') = some (l, l') := by
  induction l with
  | nil => rfl
  | cons r l ih =>
    simp only [List.length_cons, takeReferences, List.flatMap_cons, List.append_assoc,
      takeReference_encodeReference_append (h r List.mem_cons_self),
      ih fun r hr => h r (List.mem_cons_of_mem _ hr)]

/-- A range is consistent when its past end id is its first id advanced by the number of its
references, which do not go around all ids. -/
def IdRange.Consistent (r : IdRange) : Prop :=
  r.endId = r.startId + .ofNat r.references.length ∧ r.references.length < 2 ^ 32 ∧
    ∀ e ∈ r.references, FitsReference e

theorem IdRange.Consistent.toNat_sub {r : IdRange} (h : r.Consistent) :
    (r.endId - r.startId).toNat = r.references.length := by
  rw [h.1, UInt32.add_comm, UInt32.add_sub_cancel]
  exact UInt32.toNat_ofNat_of_lt' h.2.1

/-- Ranges are read back as the entries they stand for. -/
theorem decodeRanges_flatMap_encodeRange {l : List IdRange} (h : ∀ r ∈ l, r.Consistent) {n : ℕ}
    (hn : l.length ≤ n) :
    decodeRanges n (l.flatMap encodeRange) =
      some (l.flatMap fun r => rangeEntries r.startId r.references) := by
  induction l generalizing n with
  | nil => cases n <;> rfl
  | cons r l ih =>
    obtain ⟨n, rfl⟩ : ∃ m, n = m + 1 := ⟨n - 1, by simp at hn; omega⟩
    have hr := h r List.mem_cons_self
    have hs : r.startId.toNat < 256 ^ 4 := r.startId.toNat_lt
    have he : r.endId.toNat < 256 ^ 4 := r.endId.toNat_lt
    have ih := ih (fun r hr => h r (List.mem_cons_of_mem _ hr)) (n := n) (by simpa using hn)
    have hlist : (r :: l).flatMap encodeRange =
        leBytes 4 r.startId.toNat ++ (leBytes 4 r.endId.toNat ++
          (r.references.flatMap encodeReference ++ l.flatMap encodeRange)) := by
      simp [encodeRange]
    have htake := takeNat_leBytes_append hs (leBytes 4 r.endId.toNat ++
          (r.references.flatMap encodeReference ++ l.flatMap encodeRange))
    rw [hlist]
    cases hb : leBytes 4 r.startId.toNat ++ (leBytes 4 r.endId.toNat ++
        (r.references.flatMap encodeReference ++ l.flatMap encodeRange)) with
    | nil => simp [leBytes] at hb
    | cons b bs =>
      rw [hb] at htake
      rw [decodeRanges, htake]
      simp only [takeNat_leBytes_append he, UInt32.ofNat_toNat, hr.toNat_sub,
        takeReferences_append hr.2.2, ih, List.flatMap_cons]

theorem length_le_flatMap_encodeRange (l : List IdRange) :
    l.length ≤ (l.flatMap encodeRange).length := by
  induction l with
  | nil => exact Nat.le_refl 0
  | cons r l ih =>
    simp only [List.flatMap_cons, List.length_append, List.length_cons, encodeRange,
      length_leBytes]
    omega

/-- Cutting a child list into ranges loses nothing. -/
theorem groupRanges_spec {r : IdRange} (hr : r.Consistent) {m : List (UInt32 × BlockReference)}
    (hm : ∀ e ∈ m, FitsReference e.2) (hlen : r.references.length + m.length < 2 ^ 32) :
    (∀ r' ∈ groupRanges r m, r'.Consistent) ∧
      ((groupRanges r m).flatMap fun r' => rangeEntries r'.startId r'.references) =
        rangeEntries r.startId r.references ++ m := by
  induction m generalizing r with
  | nil => simpa [groupRanges] using hr
  | cons e m ih =>
    have he : FitsReference e.2 := hm e List.mem_cons_self
    have hm' : ∀ e ∈ m, FitsReference e.2 := fun e he => hm e (List.mem_cons_of_mem _ he)
    simp only [List.length_cons] at hlen
    rw [groupRanges]
    split_ifs with h
    · have hr' : IdRange.Consistent ⟨r.startId, r.endId + 1, r.references ++ [e.2]⟩ := by
        refine ⟨?_, by simp; omega, ?_⟩
        · rw [List.length_append, UInt32.ofNat_add, ← UInt32.add_assoc, ← hr.1]
          rfl
        · simp only [List.mem_append, List.mem_singleton]
          rintro x (hx | rfl)
          · exact hr.2.2 x hx
          · exact he
      obtain ⟨h1, h2⟩ := ih hr' hm' (by simp; omega)
      refine ⟨h1, ?_⟩
      rw [h2, rangeEntries_append, ← hr.1, ← h]
      simp [rangeEntries]
    · have hr' : IdRange.Consistent ⟨e.1, e.1 + 1, [e.2]⟩ :=
        ⟨rfl, by simp, by simpa using he⟩
      obtain ⟨h1, h2⟩ := ih hr' hm' (by simp; omega)
      refine ⟨?_, ?_⟩
      · simp only [List.mem_cons]
        rintro x (rfl | hx)
        · exact hr
        · exact h1 x hx
      · rw [List.flatMap_cons, h2]
        simp [rangeEntries]

/-- A child list is read back from its ranges. -/
theorem decodeRanges_idRanges {m : List (UInt32 × BlockReference)}
    (hm : ∀ e ∈ m, FitsReference e.2) (hlen : m.length < 2 ^ 32) {n : ℕ}
    (hn : (idRanges m).length ≤ n) :
    decodeRanges n ((idRanges m).flatMap encodeRange) = some m := by
  have hspec : (∀ r ∈ idRanges m, r.Consistent) ∧
      ((idRanges m).flatMap fun r => rangeEntries r.startId r.references) = m := by
    cases m with
    | nil => simp [idRanges]
    | cons e m =>
      have hr : IdRange.Consistent ⟨e.1, e.1 + 1, [e.2]⟩ :=
        ⟨rfl, by simp, by simpa using hm e List.mem_cons_self⟩
      exact groupRanges_spec hr (fun e he => hm e (List.mem_cons_of_mem _ he))
        (by simpa [Nat.add_comm] using hlen)
  rw [decodeRanges_flatMap_encodeRange hspec.1 hn, hspec.2]

/-! ### Snapshots, segments and clusters

The size of a block is computed before it is written, by counting how often an id does not
follow the id before it. -/

/-- How many ranges the entries add after an entry with id `lastId`. -/
def contiguousBlocks {υ : Type*} (lastId : Option UInt32) : List (UInt32 × υ) → ℕ
  | [] => 0
  | e :: m =>
    (match lastId with
      | none => 1
      | some id => if e.1 ≠ id + 1 then 1 else 0) + contiguousBlocks (some e.1) m

/-- The size of a block with these children: the fixed fields, a pair of ids for each range and
a reference for each child. -/
def directorySize {υ : Type*} (m : FlatMap UInt32 υ) : ℕ :=
  16 + 8 * contiguousBlocks none m.entries + 16 * m.entries.length

/-- What the block of a snapshot, a segment or a cluster stores. -/
structure DirectoryBlock where
  commitId : CommitId
  nextFreeId : UInt32
  children : FlatMap UInt32 BlockReference

/-- The stored form of a block; `own` are the four bytes of the own id. -/
def encodeDirectory (own : List UInt8) (d : DirectoryBlock) : List UInt8 :=
  leBytes 8 d.commitId ++ (leBytes 4 d.nextFreeId.toNat ++
    (own ++ (idRanges d.children.entries).flatMap encodeRange))

def decodeDirectory (l : List UInt8) : Option DirectoryBlock :=
  match takeNat 8 l with
  | none => none
  | some (commitId, l) =>
    match takeNat 4 l with
    | none => none
    | some (nextFreeId, l) =>
      match takeNat 4 l with
      | none => none
      | some (_, l) =>
        match decodeRanges l.length l with
        | none => none
        | some m => some ⟨commitId, .ofNat nextFreeId, FlatMap.ofList m⟩

/-- The bytes of grouped ranges: a head for each range and a reference for each entry. -/
theorem length_groupRanges {r : IdRange} {a : UInt32} (hr : r.endId = a + 1)
    (m : List (UInt32 × BlockReference)) :
    ((groupRanges r m).flatMap encodeRange).length =
      8 + 16 * r.references.length + 8 * contiguousBlocks (some a) m + 16 * m.length := by
  have hrefs : ∀ l : List BlockReference,
      (l.flatMap encodeReference).length = 16 * l.length := fun l => by
    induction l with
    | nil => rfl
    | cons r l ih => simp [ih]; ring
  induction m generalizing r a with
  | nil =>
    simp [groupRanges, contiguousBlocks, encodeRange, hrefs]
    ring
  | cons e m ih =>
    rw [groupRanges, contiguousBlocks]
    by_cases h : e.1 = r.endId
    · rw [if_pos h, ih (a := e.1) (by rw [h])]
      simp [h, hr]
      ring
    · rw [if_neg h, List.flatMap_cons, List.length_append, ih (a := e.1) rfl]
      simp [← hr, h, encodeRange, hrefs]
      ring

/-- Blocks have the size computed for them. -/
theorem length_encodeDirectory {own : List UInt8} (hown : own.length = 4) (d : DirectoryBlock) :
    (encodeDirectory own d).length = directorySize d.children := by
  have hranges : ((idRanges d.children.entries).flatMap encodeRange).length =
      8 * contiguousBlocks none d.children.entries + 16 * d.children.entries.length := by
    cases d.children.entries with
    | nil => rfl
    | cons e m =>
      rw [idRanges, length_groupRanges rfl, contiguousBlocks]
      simp
      ring
  simp only [encodeDirectory, List.length_append, length_leBytes, hown, hranges, directorySize]
  omega

/-- The block can be stored: its numbers fit their fields, and no range goes around all ids. -/
structure DirectoryBlock.Storable (d : DirectoryBlock) : Prop where
  commitId : d.commitId < 2 ^ 64
  children : ∀ id r, d.children.find id = some r → FitsReference r
  size : d.children.size < 2 ^ 32

/-- An id that is not in use bounds the number of children. -/
theorem size_lt_of_find_none {υ : Type*} {m : FlatMap UInt32 υ} {k : UInt32}
    (h : m.find k = none) : m.size < 2 ^ 32 := by
  have hnodup : (k :: m.keys).Nodup := by
    refine List.nodup_cons.mpr ⟨fun hmem => ?_, ?_⟩
    · have := FlatMap.mem_keys.mp hmem
      rw [h] at this
      cases this
    · exact (List.pairwise_map.mpr m.sorted).imp ne_of_lt
  have hlen := (hnodup.map (f := UInt32.toFin) fun a b hab =>
    UInt32.toNat_inj.mp (congrArg Fin.val hab)).length_le_card
  rw [Fintype.card_fin, List.length_map, List.length_cons, FlatMap.keys, List.length_map] at hlen
  exact hlen

/-- A snapshot, segment or cluster is read back as it was written. -/
theorem decodeDirectory_encodeDirectory {own : List UInt8} (hown : own.length = 4)
    {d : DirectoryBlock} (hd : d.Storable) : decodeDirectory (encodeDirectory own d) = some d := by
  have hcommit : d.commitId < 256 ^ 8 := hd.commitId.trans_eq (by norm_num)
  have hfree : d.nextFreeId.toNat < 256 ^ 4 := d.nextFreeId.toNat_lt
  have hownTake : ∀ l, takeNat 4 (own ++ l) = some (leNat own, l) := fun l => by
    rw [takeNat, if_pos (by simp [hown]), List.take_left' hown, List.drop_left' hown]
  have hranges := decodeRanges_idRanges (m := d.children.entries)
    (fun e he => hd.children e.1 e.2 (FlatMap.find_eq_some_iff.mpr he)) hd.size
    (length_le_flatMap_encodeRange _)
  rw [decodeDirectory, encodeDirectory, takeNat_leBytes_append hcommit]
  simp only [takeNat_leBytes_append hfree, hownTake, hranges, FlatMap.ofList_entries,
    UInt32.ofNat_toNat]

/-! ### Blobs, free lists and the header -/

/-- What the block of a blob stores. -/
structure BlobBlock where
  commitId : CommitId
  data : List UInt8

def encodeBlob (b : BlobBlock) : List UInt8 := leBytes 8 b.commitId ++ b.data

def decodeBlob (l : List UInt8) : Option BlobBlock :=
  match takeNat 8 l with
  | none => none
  | some (commitId, data) => some ⟨commitId, data⟩

@[simp]
theorem length_encodeBlob (b : BlobBlock) : (encodeBlob b).length = 8 + b.data.length := by
  simp [encodeBlob]

/-- A blob is read back as it was written. -/
theorem decodeBlob_encodeBlob {b : BlobBlock} (hb : b.commitId < 2 ^ 64) :
    decodeBlob (encodeBlob b) = some b := by
  have h : b.commitId < 256 ^ 8 := hb.trans_eq (by norm_num)
  rw [decodeBlob, encodeBlob, takeNat_leBytes_append h]

/-- What the block of a free list stores: where the managed part of the file ends, and the free
blocks. The block may be longer than that. -/
structure FreeListBlock where
  endOffset : ℕ
  entries : List BlockReference

def encodeFreeList (l : FreeListBlock) : List UInt8 :=
  leBytes 8 l.endOffset ++ (leBytes 8 l.entries.length ++ l.entries.flatMap encodeReference)

def decodeFreeList (l : List UInt8) : Option FreeListBlock :=
  match takeNat 8 l with
  | none => none
  | some (endOffset, l) =>
    match takeNat 8 l with
    | none => none
    | some (entryCount, l) =>
      match takeReferences entryCount l with
      | none => none
      | some (entries, _) => some ⟨endOffset, entries⟩

/-- A free list is read back as it was written, whatever follows it in its block. -/
theorem decodeFreeList_encodeFreeList_append {l : FreeListBlock} (hend : l.endOffset < 2 ^ 64)
    (hlen : l.entries.length < 2 ^ 64) (hl : ∀ r ∈ l.entries, FitsReference r)
    (rest : List UInt8) : decodeFreeList (encodeFreeList l ++ rest) = some l := by
  have h1 : l.endOffset < 256 ^ 8 := hend.trans_eq (by norm_num)
  have h2 : l.entries.length < 256 ^ 8 := hlen.trans_eq (by norm_num)
  rw [decodeFreeList, encodeFreeList, List.append_assoc, takeNat_leBytes_append h1]
  simp only [List.append_assoc, takeNat_leBytes_append h2, takeReferences_append hl]

/-- One of the two roots of a file. -/
structure Root where
  snapshot : BlockReference
  freeList : BlockReference
  deriving DecidableEq, Inhabited

/-- A file has two roots. -/
instance neZero_roots : NeZero 2 := ⟨by decide⟩

/-- The structure at the start of the file: which root is active, and the roots. -/
structure FileHeader where
  rootIndex : Fin 2
  roots : Fin 2 → Root

/-- The bytes `blobs.db` and the sizes of the configured types, by which a database file is
recognised. -/
def headerBytes : List UInt8 := [98, 108, 111, 98, 115, 46, 100, 98] ++ [4, 4, 4, 4, 8]

def encodeRoot (r : Root) : List UInt8 :=
  encodeReference r.snapshot ++ encodeReference r.freeList

def encodeHeader (h : FileHeader) : List UInt8 :=
  headerBytes ++ (leBytes 1 h.rootIndex ++ ([0, 0] ++
    (encodeRoot (h.roots 0) ++ encodeRoot (h.roots 1))))

def takeRoot (l : List UInt8) : Option (Root × List UInt8) :=
  match takeReference l with
  | none => none
  | some (snapshot, l) =>
    match takeReference l with
    | none => none
    | some (freeList, l) => some (⟨snapshot, freeList⟩, l)

/-- The header, when its first bytes are the expected ones. The index of a root that does not
exist has no answer. -/
def decodeHeader (l : List UInt8) : Option FileHeader :=
  if l.take 13 ≠ headerBytes then none
  else
    match takeNat 1 (l.drop 13) with
    | none => none
    | some (rootIndex, l) =>
      match takeRoot (l.drop 2) with
      | none => none
      | some (root0, l) =>
        match takeRoot l with
        | none => none
        | some (root1, _) =>
          if h : rootIndex < 2 then some ⟨⟨rootIndex, h⟩, ![root0, root1]⟩ else none

/-- The numbers of the root fit their fields. -/
def Root.Fits (r : Root) : Prop := FitsReference r.snapshot ∧ FitsReference r.freeList

/-- A root is read back as it was written. -/
theorem takeRoot_encodeRoot_append {r : Root} (h : r.Fits) (l : List UInt8) :
    takeRoot (encodeRoot r ++ l) = some (r, l) := by
  rw [takeRoot, encodeRoot, List.append_assoc, takeReference_encodeReference_append h.1]
  simp only [takeReference_encodeReference_append h.2]

@[simp]
theorem length_encodeHeader (h : FileHeader) : (encodeHeader h).length = 80 := by
  simp [encodeHeader, headerBytes, encodeRoot]

/-- The header is read back as it was written. -/
theorem decodeHeader_encodeHeader {h : FileHeader} (hr : ∀ i, (h.roots i).Fits) :
    decodeHeader (encodeHeader h) = some h := by
  have hi : (h.rootIndex : ℕ) < 256 ^ 1 := by omega
  have hnil := takeRoot_encodeRoot_append (hr 1) []
  rw [List.append_nil] at hnil
  have hbytes : headerBytes.length = 13 := rfl
  rw [decodeHeader, encodeHeader, List.take_left' hbytes, if_neg (by simp),
    List.drop_left' hbytes, takeNat_leBytes_append hi]
  simp only [List.cons_append, List.nil_append, List.drop_succ_cons, List.drop_zero,
    takeRoot_encodeRoot_append (hr 0), hnil, h.rootIndex.isLt, dite_true]
  obtain ⟨i, roots⟩ := h
  refine congrArg some (congrArg (FileHeader.mk i) (funext fun j => ?_))
  match j with
  | 0 => rfl
  | 1 => rfl

end BlobsDb
