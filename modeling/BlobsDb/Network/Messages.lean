import BlobsDb.ForMathlib.LittleEndian
import BlobsDb.ForMathlib.RecordBuffer
import BlobsDb.Server.Messages

/-!
# The bytes of messages with blobs

A `TransactionCommit` and a `BlobsReadResponse` have the same form: twelve bytes of header, a
record for each blob, and then the data of the blobs. A record that deletes a blob has a size that
no blob has, and no data. Both messages are allocated with their final size and then filled in; the
bytes that nothing writes are what was in the memory before (`raw`).
-/

namespace BlobsDb

/-- The largest size of a blob, so that each message has room for a blob at least. -/
def maxBlobSize : ℕ := 0xffffffff - 0x100

/-- The size that deletes a blob. -/
def deleteBlobSize : ℕ := maxBlobSize + 1

/-! ### Locations -/

def encodeLocation (l : BlobLocation) : List UInt8 :=
  leBytes 4 l.segment.toNat ++ leBytes 4 l.cluster.toNat ++ leBytes 4 l.blob.toNat

/-- The location at the front of some bytes. -/
def decodeLocation (bytes : List UInt8) : BlobLocation where
  segment := .ofNat (leNat (bytes.take 4))
  cluster := .ofNat (leNat ((bytes.drop 4).take 4))
  blob := .ofNat (leNat ((bytes.drop 8).take 4))

@[simp]
theorem length_encodeLocation (l : BlobLocation) : (encodeLocation l).length = 12 := by
  simp [encodeLocation]

theorem ofNat_leNat_leBytes (i : UInt32) : UInt32.ofNat (leNat (leBytes 4 i.toNat)) = i := by
  rw [leNat_leBytes_of_lt (i.toNat_lt.trans_eq (by norm_num)), UInt32.ofNat_toNat]

/-- A location is read back from its bytes, whatever follows. -/
theorem decodeLocation_encodeLocation_append (l : BlobLocation) (bytes : List UInt8) :
    decodeLocation (encodeLocation l ++ bytes) = l := by
  have h4 : ∀ i : UInt32, (leBytes 4 i.toNat).length = 4 := fun i => length_leBytes 4 _
  simp only [decodeLocation, encodeLocation, List.append_assoc]
  rw [List.take_left' (h4 _), List.drop_left' (h4 _), List.take_left' (h4 _),
    show (8 : ℕ) = 4 + 4 from rfl, ← List.drop_drop, List.drop_left' (h4 _),
    List.drop_left' (h4 _), List.take_left' (h4 _)]
  simp only [ofNat_leNat_leBytes]

/-! ### Messages in memory -/

/-- Memory that was allocated and not written yet. -/
def allocated (raw : ℕ → UInt8) (n : ℕ) : List UInt8 := (List.range n).map raw

@[simp]
theorem length_allocated (raw : ℕ → UInt8) (n : ℕ) : (allocated raw n).length = n := by
  simp [allocated]

/-- `Message`: the size, the type, a byte of alignment and the client. -/
def messageHeader (raw : ℕ → UInt8) (size type : ℕ) : List UInt8 :=
  leBytes 4 size ++ [.ofNat type, raw 5] ++ leBytes 2 0

@[simp]
theorem length_messageHeader (raw : ℕ → UInt8) (size type : ℕ) :
    (messageHeader raw size type).length = 8 := by
  simp [messageHeader]

/-- A message starts with its size. -/
theorem take_messageHeader (raw : ℕ → UInt8) (size type : ℕ) (bytes : List UInt8) :
    (messageHeader raw size type ++ bytes).take 4 = leBytes 4 size := by
  rw [messageHeader, List.append_assoc, List.append_assoc, List.take_left' (length_leBytes 4 size)]

def ofBool (b : Bool) : UInt8 := if b then 1 else 0

theorem ofBool_bne (b : Bool) : (ofBool b != 0) = b := by
  cases b <;> rfl

/-! ### Commits -/

namespace TransactionCommit

/-- The number of bytes that are sent for a blob. -/
def dataLength (record : List UInt8) : ℕ :=
  if leNat ((record.drop 12).take 4) = deleteBlobSize then 0
  else leNat ((record.drop 12).take 4)

/-- `BlobDataIterator` -/
def blobFormat : RecordFormat := ⟨16, dataLength⟩

/-- The size in the record of a write. -/
def recordSize (u : BlobData) : ℕ := (u.data.map List.length).getD deleteBlobSize

def record (u : BlobData) : RecordFormat.Record :=
  (encodeLocation u.toBlobLocation ++ leBytes 4 (recordSize u), u.data.getD [])

def ofRecord (r : RecordFormat.Record) : BlobData :=
  ⟨decodeLocation r.1, if leNat ((r.1.drop 12).take 4) = deleteBlobSize then none else some r.2⟩

/-- `CalculateMessageSize` -/
def calculateMessageSize (totalBlobsSize nBlobsCommitted : ℕ) : ℕ :=
  if 0xffff < nBlobsCommitted then 0
  else if 12 + nBlobsCommitted * 16 + totalBlobsSize ≤ 0xffffffff then
    12 + nBlobsCommitted * 16 + totalBlobsSize
  else 0

/-- The fixed fields. -/
def header (raw : ℕ → UInt8) (databaseId : DatabaseId) (size nBlobs : ℕ) (follow : Bool) :
    List UInt8 :=
  messageHeader raw size 9 ++ ([ofBool follow] ++ ([.ofNat databaseId] ++ leBytes 2 nBlobs))

/-- `Create` -/
def create (raw : ℕ → UInt8) (databaseId : DatabaseId) (totalBlobsSize nBlobs : ℕ) : List UInt8 :=
  let size := calculateMessageSize totalBlobsSize nBlobs
  header raw databaseId size nBlobs false ++ allocated (fun i => raw (12 + i)) (size - 12)

/-- `begin` -/
def first (nBlobs : ℕ) : RecordFormat.Cursor := ⟨12, 12 + nBlobs * 16⟩

/-- Sets the field `hasFollowMessage`. -/
def setHasFollowMessage (b : List UInt8) (follow : Bool) : Option (List UInt8) :=
  writeBytes b 8 [ofBool follow]

/-- What a reader that goes from the first blob to the last one finds. -/
def decode (b : List UInt8) : Option TransactionCommit :=
  match b.drop 8 with
  | follow :: databaseId :: l =>
    let nBlobsCommitted := leNat (l.take 2)
    (blobFormat.readAll b nBlobsCommitted (first nBlobsCommitted)).map fun rs =>
      ⟨follow != 0, databaseId.toNat, rs.map ofRecord⟩
  | _ => none

variable {u : BlobData} {us : List BlobData} {raw : ℕ → UInt8} {databaseId : DatabaseId}

/-- A write that a message has room for. -/
def Sendable (u : BlobData) : Prop := ∀ data, u.data = some data → data.length ≤ maxBlobSize

/-- The size of a blob fits its field. -/
theorem recordSize_lt (hu : Sendable u) : recordSize u < 2 ^ 32 := by
  rw [recordSize]
  cases hdata : u.data with
  | none => exact show deleteBlobSize < 2 ^ 32 by decide
  | some data => exact (hu data hdata).trans_lt (by decide)

/-- The size of a blob is read back. -/
theorem size_record (hu : Sendable u) : leNat (((record u).1.drop 12).take 4) = recordSize u := by
  rw [record, List.drop_left' (length_encodeLocation _), List.take_of_length_le (by simp),
    leNat_leBytes_of_lt ((recordSize_lt hu).trans_eq (by norm_num))]

/-- A deletion is told from all contents by the size that is sent for it. -/
theorem recordSize_eq_iff (hu : Sendable u) : recordSize u = deleteBlobSize ↔ u.data = none := by
  rw [recordSize]
  cases hdata : u.data with
  | none => simp
  | some data =>
    have hle := hu data hdata
    have hne : data.length ≠ deleteBlobSize := by
      rw [deleteBlobSize]
      omega
    simpa using hne

theorem fits_record (hu : Sendable u) : blobFormat.Fits (record u) := by
  refine ⟨by simp [record, blobFormat], ?_⟩
  show dataLength (record u).1 = (record u).2.length
  rw [dataLength, size_record hu]
  simp only [recordSize_eq_iff hu]
  rw [recordSize, record]
  cases u.data <;> rfl

/-- A write is read as it was written. -/
theorem ofRecord_record (hu : Sendable u) : ofRecord (record u) = u := by
  rw [ofRecord, size_record hu]
  simp only [recordSize_eq_iff hu, record, decodeLocation_encodeLocation_append]
  cases u with
  | mk l data => cases data <;> rfl

/-- The blobs are written one after the other. The source asserts that the end is reached. -/
def writeBlobs (b : List UInt8) (us : List BlobData) : Option (List UInt8) :=
  (blobFormat.writeAll b (first us.length) (us.map record)).bind fun r =>
    if r.2.header = 12 + us.length * 16 then some r.1 else none

/-- The bytes of a message. -/
def encode (raw : ℕ → UInt8) (m : TransactionCommit) : List UInt8 :=
  header raw m.databaseId (12 + m.blobs.length * 16 + ((m.blobs.map record).flatMap Prod.snd).length)
    m.blobs.length m.hasFollowMessage ++ (m.blobs.map record).flatMap Prod.fst ++
    (m.blobs.map record).flatMap Prod.snd

@[simp]
theorem length_header (raw : ℕ → UInt8) (databaseId : DatabaseId) (size n : ℕ) (follow : Bool) :
    (header raw databaseId size n follow).length = 12 := by
  simp [header]

/-- The records of a message fit their fields. -/
theorem fits_map_record (hus : ∀ u ∈ us, Sendable u) :
    ∀ r ∈ us.map record, blobFormat.Fits r := by
  intro r hr
  obtain ⟨u, hu, rfl⟩ := List.mem_map.mp hr
  exact fits_record (hus u hu)

theorem length_records (hus : ∀ u ∈ us, Sendable u) :
    ((us.map record).flatMap Prod.fst).length = us.length * 16 := by
  rw [RecordFormat.length_flatMap_header (fits_map_record hus), List.length_map, Nat.mul_comm]
  rfl

/-- What is written into a message of the right size. -/
theorem writeBlobs_create (raw : ℕ → UInt8) (databaseId : DatabaseId)
    (hus : ∀ u ∈ us, Sendable u) (hn : us.length ≤ 0xffff)
    (hsize : 12 + us.length * 16 + ((us.map record).flatMap Prod.snd).length ≤ 0xffffffff) :
    writeBlobs (create raw databaseId ((us.map record).flatMap Prod.snd).length us.length) us =
      some (encode raw ⟨false, databaseId, us⟩) := by
  set total := ((us.map record).flatMap Prod.snd).length with htotal
  have hcalculate : calculateMessageSize total us.length = 12 + us.length * 16 + total := by
    rw [calculateMessageSize, if_neg (by omega), if_pos hsize]
  -- the memory has a place for the records and one for the data
  set memory := allocated (fun i => raw (12 + i)) (us.length * 16 + total) with hmemory
  have hcreate : create raw databaseId total us.length =
      header raw databaseId (12 + us.length * 16 + total) us.length false ++
        memory.take (us.length * 16) ++ [] ++ memory.drop (us.length * 16) ++ [] := by
    rw [create, hcalculate, List.append_nil, List.append_nil, List.append_assoc,
      List.take_append_drop, hmemory]
    congr 2
    omega
  have htake : (memory.take (us.length * 16)).length = us.length * 16 := by
    rw [hmemory, List.length_take, length_allocated]
    omega
  have h := RecordFormat.writeAll_append (F := blobFormat)
    (P := header raw databaseId (12 + us.length * 16 + total) us.length false) (S := [])
    (H := memory.take (us.length * 16)) (D := []) (B := memory.drop (us.length * 16))
    (c := first us.length) (fits_map_record hus)
    (by rw [htake, List.length_map, Nat.mul_comm]; rfl)
    (by rw [List.length_drop, hmemory, length_allocated, ← htotal]; omega)
    (by rw [List.append_nil, List.length_append, htake, length_header]; rfl)
  rw [writeBlobs, hcreate, h, Option.bind_some, if_pos (by
    rw [List.length_append, htake, length_header])]
  rw [encode, List.append_nil, List.append_nil]

theorem setHasFollowMessage_encode (m : TransactionCommit) (follow : Bool) :
    setHasFollowMessage (encode raw m) follow =
      some (encode raw { m with hasFollowMessage := follow }) := by
  rw [setHasFollowMessage, encode, encode, header, header]
  set size := 12 + m.blobs.length * 16 + ((m.blobs.map record).flatMap Prod.snd).length
  set S := [.ofNat m.databaseId] ++ leBytes 2 m.blobs.length ++
      (m.blobs.map record).flatMap Prod.fst ++ (m.blobs.map record).flatMap Prod.snd with hS
  have hwrite : writeBytes (messageHeader raw size 9 ++ [ofBool m.hasFollowMessage] ++ S) 8
      [ofBool follow] = some (messageHeader raw size 9 ++ [ofBool follow] ++ S) :=
    writeBytes_append' (length_messageHeader _ _ _) rfl
  rw [hS] at hwrite
  simp only [List.append_assoc] at hwrite ⊢
  exact hwrite

/-- The size of a message is the one in its first field. -/
theorem length_encode (raw : ℕ → UInt8) {m : TransactionCommit} (hus : ∀ u ∈ m.blobs, Sendable u)
    (hsize : 12 + m.blobs.length * 16 + ((m.blobs.map record).flatMap Prod.snd).length < 2 ^ 32) :
    (encode raw m).length =
        12 + m.blobs.length * 16 + ((m.blobs.map record).flatMap Prod.snd).length ∧
      leNat ((encode raw m).take 4) = (encode raw m).length := by
  have hlength : (encode raw m).length =
      12 + m.blobs.length * 16 + ((m.blobs.map record).flatMap Prod.snd).length := by
    rw [encode, List.length_append, List.length_append, length_records hus, length_header]
  refine ⟨hlength, ?_⟩
  rw [hlength, encode, header, List.append_assoc, List.append_assoc, take_messageHeader,
    leNat_leBytes_of_lt (hsize.trans_eq (by norm_num))]

/-- A message is read as it was written. -/
theorem decode_encode {m : TransactionCommit} (hus : ∀ u ∈ m.blobs, Sendable u)
    (hid : m.databaseId < 256) (hn : m.blobs.length ≤ 0xffff) :
    decode (encode raw m) = some m := by
  set size := 12 + m.blobs.length * 16 + ((m.blobs.map record).flatMap Prod.snd).length with hsize
  set P := header raw m.databaseId size m.blobs.length m.hasFollowMessage with hP
  have hdrop : (encode raw m).drop 8 = ofBool m.hasFollowMessage :: .ofNat m.databaseId ::
      (leBytes 2 m.blobs.length ++ ((m.blobs.map record).flatMap Prod.fst ++
        (m.blobs.map record).flatMap Prod.snd)) := by
    rw [encode, header, List.append_assoc, List.append_assoc,
      List.drop_left' (length_messageHeader _ _ _)]
    simp only [List.append_assoc]
    rfl
  have hnBlobs : leNat ((leBytes 2 m.blobs.length ++ ((m.blobs.map record).flatMap Prod.fst ++
      (m.blobs.map record).flatMap Prod.snd)).take 2) = m.blobs.length := by
    rw [List.take_left' (length_leBytes _ _), leNat_leBytes_of_lt (by omega)]
  have hread := RecordFormat.readAll_append (F := blobFormat) (P := P) (D := []) (S := [])
    (c := first m.blobs.length) (fits_map_record hus)
    (by rw [List.append_nil, List.length_append, length_records hus, length_header]; rfl)
  rw [List.append_nil, List.append_nil, List.length_map] at hread
  have hrecords : (m.blobs.map record).map ofRecord = m.blobs := by
    rw [List.map_map]
    exact (List.map_congr_left fun u hu => ofRecord_record (hus u hu)).trans (List.map_id _)
  rw [decode, hdrop]
  dsimp only
  rw [hnBlobs, encode, ← hsize, ← hP, hread, Option.map_some, hrecords, ofBool_bne]
  have hdatabase : (UInt8.ofNat m.databaseId).toNat = m.databaseId :=
    UInt8.toNat_ofNat_of_lt' hid
  rw [hdatabase]

end TransactionCommit

/-! ### Answers to reads -/

namespace BlobsReadResponse

/-- `Iterator` -/
def blobFormat : RecordFormat := ⟨24, fun record => leNat ((record.drop 12).take 4)⟩

/-- What `SetBlob` writes. -/
def record (b : BlobsReadResponse.BlobData) : RecordFormat.Record :=
  (encodeLocation b.toBlobLocation ++ leBytes 4 b.content.length ++ leBytes 8 b.commitId, b.content)

def ofRecord (r : RecordFormat.Record) : BlobsReadResponse.BlobData :=
  ⟨decodeLocation r.1, leNat ((r.1.drop 16).take 8), r.2⟩

/-- The fixed fields of a message with result `SUCCESS`. -/
def header (raw : ℕ → UInt8) (size nBlobs : ℕ) (follow : Bool) : List UInt8 :=
  messageHeader raw size 5 ++ [0, .ofNat nBlobs, ofBool follow, raw 11]

/-- `Create` -/
def create (raw : ℕ → UInt8) (totalBlobsSize nBlobs : ℕ) : List UInt8 :=
  header raw (12 + 24 * nBlobs + totalBlobsSize) nBlobs false ++
    allocated (fun i => raw (12 + i)) (24 * nBlobs + totalBlobsSize)

/-- `begin` -/
def first (nBlobs : ℕ) : RecordFormat.Cursor := ⟨12, 12 + 24 * nBlobs⟩

/-- Sets the field `hasFollowMessage`. -/
def setHasFollowMessage (b : List UInt8) (follow : Bool) : Option (List UInt8) :=
  writeBytes b 10 [ofBool follow]

/-- What a reader that goes from the first blob to the last one finds in a message with result
`SUCCESS`; others are not read. -/
def decode (b : List UInt8) : Option BlobsReadResponse :=
  match b.drop 8 with
  | result :: nBlobs :: follow :: _ =>
    if result = 0 then
      (blobFormat.readAll b nBlobs.toNat (first nBlobs.toNat)).map fun rs =>
        ⟨.success, rs.map ofRecord, follow != 0⟩
    else none
  | _ => none

variable {b : BlobsReadResponse.BlobData} {bs : List BlobsReadResponse.BlobData} {raw : ℕ → UInt8}

/-- A blob that a message has room for. -/
def Sendable (b : BlobsReadResponse.BlobData) : Prop :=
  b.content.length ≤ maxBlobSize ∧ b.commitId < 2 ^ 64

theorem fits_record (hb : Sendable b) : blobFormat.Fits (record b) := by
  refine ⟨by simp [record, blobFormat], ?_⟩
  show leNat (((record b).1.drop 12).take 4) = b.content.length
  have hlt : b.content.length < 256 ^ 4 := hb.1.trans_lt (by decide)
  rw [record, List.append_assoc, List.drop_left' (length_encodeLocation _),
    List.take_left' (length_leBytes _ _), leNat_leBytes_of_lt hlt]

/-- A blob is read as it was written. -/
theorem ofRecord_record (hb : Sendable b) : ofRecord (record b) = b := by
  have hcommit : b.commitId < 256 ^ 8 := hb.2.trans_eq (by norm_num)
  have hdrop : (record b).1.drop 16 = leBytes 8 b.commitId :=
    List.drop_left' (by simp)
  rw [ofRecord, hdrop, List.take_of_length_le (by simp), leNat_leBytes_of_lt hcommit, record]
  dsimp only
  rw [List.append_assoc, decodeLocation_encodeLocation_append]

/-- The blobs are written one after the other. -/
def writeBlobs (m : List UInt8) (bs : List BlobsReadResponse.BlobData) : Option (List UInt8) :=
  (blobFormat.writeAll m (first bs.length) (bs.map record)).map Prod.fst

/-- The bytes of a message with result `SUCCESS`. -/
def encode (raw : ℕ → UInt8) (m : BlobsReadResponse) : List UInt8 :=
  header raw (12 + 24 * m.blobs.length + ((m.blobs.map record).flatMap Prod.snd).length)
    m.blobs.length m.hasFollowMessage ++ (m.blobs.map record).flatMap Prod.fst ++
    (m.blobs.map record).flatMap Prod.snd

@[simp]
theorem length_header (raw : ℕ → UInt8) (size n : ℕ) (follow : Bool) :
    (header raw size n follow).length = 12 := by
  simp [header]

theorem fits_map_record (hbs : ∀ b ∈ bs, Sendable b) :
    ∀ r ∈ bs.map record, blobFormat.Fits r := by
  intro r hr
  obtain ⟨b, hb, rfl⟩ := List.mem_map.mp hr
  exact fits_record (hbs b hb)

theorem length_records (hbs : ∀ b ∈ bs, Sendable b) :
    ((bs.map record).flatMap Prod.fst).length = 24 * bs.length := by
  rw [RecordFormat.length_flatMap_header (fits_map_record hbs), List.length_map]
  rfl

/-- What is written into a message of the right size. -/
theorem writeBlobs_create (raw : ℕ → UInt8) (hbs : ∀ b ∈ bs, Sendable b) :
    writeBlobs (create raw ((bs.map record).flatMap Prod.snd).length bs.length) bs =
      some (encode raw ⟨.success, bs, false⟩) := by
  set total := ((bs.map record).flatMap Prod.snd).length with htotal
  set memory := allocated (fun i => raw (12 + i)) (24 * bs.length + total) with hmemory
  -- the memory has a place for the records and one for the data
  have hcreate : create raw total bs.length = header raw (12 + 24 * bs.length + total) bs.length
      false ++ memory.take (24 * bs.length) ++ [] ++ memory.drop (24 * bs.length) ++ [] := by
    rw [create, List.append_nil, List.append_nil, List.append_assoc, List.take_append_drop]
  have htake : (memory.take (24 * bs.length)).length = 24 * bs.length := by
    rw [hmemory, List.length_take, length_allocated]
    omega
  have h := RecordFormat.writeAll_append (F := blobFormat)
    (P := header raw (12 + 24 * bs.length + total) bs.length false) (S := [])
    (H := memory.take (24 * bs.length)) (D := []) (B := memory.drop (24 * bs.length))
    (c := first bs.length) (fits_map_record hbs)
    (by rw [htake, List.length_map]; rfl)
    (by rw [List.length_drop, hmemory, length_allocated, ← htotal]; omega)
    (by rw [List.append_nil, List.length_append, htake, length_header]; rfl)
  rw [writeBlobs, hcreate, h, Option.map_some, encode, List.append_nil, List.append_nil]

theorem setHasFollowMessage_encode (m : BlobsReadResponse) (follow : Bool) :
    setHasFollowMessage (encode raw m) follow =
      some (encode raw { m with hasFollowMessage := follow }) := by
  rw [setHasFollowMessage, encode, encode, header, header]
  set size := 12 + 24 * m.blobs.length + ((m.blobs.map record).flatMap Prod.snd).length
  set P := messageHeader raw size 5 ++ [0, .ofNat m.blobs.length] with hP
  set S := [raw 11] ++ (m.blobs.map record).flatMap Prod.fst ++
    (m.blobs.map record).flatMap Prod.snd with hS
  have hwrite : writeBytes (P ++ [ofBool m.hasFollowMessage] ++ S) 10 [ofBool follow] =
      some (P ++ [ofBool follow] ++ S) :=
    writeBytes_append' (by simp [hP]) rfl
  rw [hP, hS] at hwrite
  simp only [List.append_assoc] at hwrite ⊢
  exact hwrite

/-- The size of a message is the one in its first field. -/
theorem length_encode (raw : ℕ → UInt8) {m : BlobsReadResponse} (hbs : ∀ b ∈ m.blobs, Sendable b)
    (hsize : 12 + 24 * m.blobs.length + ((m.blobs.map record).flatMap Prod.snd).length < 2 ^ 32) :
    (encode raw m).length =
        12 + 24 * m.blobs.length + ((m.blobs.map record).flatMap Prod.snd).length ∧
      leNat ((encode raw m).take 4) = (encode raw m).length := by
  have hlength : (encode raw m).length =
      12 + 24 * m.blobs.length + ((m.blobs.map record).flatMap Prod.snd).length := by
    rw [encode, List.length_append, List.length_append, length_records hbs, length_header]
  refine ⟨hlength, ?_⟩
  rw [hlength, encode, header, List.append_assoc, List.append_assoc, take_messageHeader,
    leNat_leBytes_of_lt (hsize.trans_eq (by norm_num))]

/-- A message is read as it was written. -/
theorem decode_encode {m : BlobsReadResponse} (hresult : m.result = .success)
    (hbs : ∀ b ∈ m.blobs, Sendable b) (hn : m.blobs.length < 256) :
    decode (encode raw m) = some m := by
  set size := 12 + 24 * m.blobs.length + ((m.blobs.map record).flatMap Prod.snd).length with hsize
  set P := header raw size m.blobs.length m.hasFollowMessage with hP
  have hdrop : (encode raw m).drop 8 = 0 :: .ofNat m.blobs.length :: ofBool m.hasFollowMessage ::
      raw 11 :: ((m.blobs.map record).flatMap Prod.fst ++
        (m.blobs.map record).flatMap Prod.snd) := by
    rw [encode, header, List.append_assoc, List.append_assoc,
      List.drop_left' (length_messageHeader _ _ _)]
    rfl
  have hnBlobs : (UInt8.ofNat m.blobs.length).toNat = m.blobs.length :=
    UInt8.toNat_ofNat_of_lt' hn
  have hread := RecordFormat.readAll_append (F := blobFormat) (P := P) (D := []) (S := [])
    (c := first m.blobs.length) (fits_map_record hbs)
    (by rw [List.append_nil, List.length_append, length_records hbs, length_header]; rfl)
  rw [List.append_nil, List.append_nil, List.length_map] at hread
  have hrecords : (m.blobs.map record).map ofRecord = m.blobs := by
    rw [List.map_map]
    exact (List.map_congr_left fun b hb => ofRecord_record (hbs b hb)).trans (List.map_id _)
  rw [decode, hdrop]
  dsimp only
  rw [if_pos rfl, hnBlobs, encode, ← hsize, ← hP, hread, Option.map_some, hrecords, ofBool_bne,
    ← hresult]

end BlobsReadResponse

end BlobsDb
