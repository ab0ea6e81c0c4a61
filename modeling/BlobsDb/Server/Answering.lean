import BlobsDb.Server.Reading

/-!
# Answering a read

The answer to a read has one entry for each requested location: the content of a blob, an id
list as ranges, or nothing when the client holds the current version or only wants to delete.
The entries are sent in as many messages as it takes, each as full as it can be. The messages are
built if and only if each entry fits into a message of its own (`exists_buildResponses`,
`fitsAlone_of_buildResponses`); otherwise the loop that fills them goes on forever.
-/

namespace BlobsDb

/-- `intoIdRanges` from the current range on. -/
def intoIdRangesFrom (r : UInt32 × UInt32) : List UInt32 → List (UInt32 × UInt32)
  | [] => [r]
  | id :: ids =>
    if id = r.2 then intoIdRangesFrom (r.1, r.2 + 1) ids else r :: intoIdRangesFrom (id, id + 1) ids

/-- `intoIdRanges`: the ranges of an ascending list of ids, each with its first id and the one
after its last. -/
def intoIdRanges : List UInt32 → List (UInt32 × UInt32)
  | [] => []
  | id :: ids => intoIdRangesFrom (id, id + 1) ids

/-- The content of an id list. -/
def idListContent (ids : List UInt32) : List UInt8 :=
  (intoIdRanges ids).flatMap fun r => leBytes 4 r.1.toNat ++ leBytes 4 r.2.toNat

/-- `Server::BlobData`, without the location. -/
structure VersionedContent where
  commitId : CommitId
  content : List UInt8
  deriving DecidableEq

namespace Heap

variable (h : Heap) (snapshot : Pointer)

/-- What can be read at a location of a snapshot whose objects are loaded: the id lists, which
have the version of the object they list, or a blob. -/
def readContent (l : BlobLocation) : Option VersionedContent :=
  let list (p : Pointer) : VersionedContent :=
    ⟨(h.directories p).commitId, idListContent (h.directories p).children.keys⟩
  if l.blob = blobListId then
    if l.cluster = clusterListId then
      if l.segment = segmentListId then some (list snapshot)
      else (h.getObject snapshot [l.segment]).map list
    else (h.getObject snapshot [l.segment, l.cluster]).map list
  else (h.getBlob snapshot l).map fun b => ⟨b.commitId, b.data⟩

/-- The entry for a location: none if the client's version is the current one, or if it only
wants to delete. There is no answer if the object is missing. -/
def answerBlob (mode : LockMode) (a : BlobAddress) : Option (Option VersionedContent) :=
  if mode = .delete then some none
  else
    match h.readContent snapshot a.toBlobLocation with
    | none => none
    | some c => some (if a.cacheCommitId = c.commitId then none else some c)

/-- The entries for all locations. -/
def answerBlobs (mode : LockMode) : List BlobAddress →
    Option (List (BlobAddress × Option VersionedContent))
  | [] => some []
  | a :: as =>
    match h.answerBlob snapshot mode a, answerBlobs mode as with
    | some c, some cs => some ((a, c) :: cs)
    | _, _ => none

end Heap

/-! ### Splitting an answer into messages -/

/-- `BlobSize` -/
def blobSize (c : Option VersionedContent) : ℕ := (c.map fun c => c.content.length).getD 0

/-- The entries that fit into one message that has some of a size, and those that are left. -/
def takeChunk (chunkSize n : ℕ) : List (BlobAddress × Option VersionedContent) →
    List (BlobAddress × Option VersionedContent) × List (BlobAddress × Option VersionedContent)
  | [] => ([], [])
  | e :: es =>
    if BlobsReadResponse.fitsIntoMessage (chunkSize + blobSize e.2) (n + 1) then
      let (chunk, rest) := takeChunk (chunkSize + blobSize e.2) (n + 1) es
      (e :: chunk, rest)
    else ([], e :: es)

/-- `SetBlob`: without content an entry repeats the version of the client. -/
def setBlob (e : BlobAddress × Option VersionedContent) : BlobsReadResponse.BlobData :=
  match e.2 with
  | none => ⟨e.1.toBlobLocation, e.1.cacheCommitId, []⟩
  | some c => ⟨e.1.toBlobLocation, c.commitId, c.content⟩

/-- The messages of an answer; the loop ends after at most one message for each entry, or never,
when an entry does not fit into any message. -/
def buildResponses : ℕ → List (BlobAddress × Option VersionedContent) →
    Option (List BlobsReadResponse)
  | _, [] => some []
  | 0, _ :: _ => none
  | fuel + 1, es =>
    match takeChunk 0 0 es with
    | ([], _) => none
    | (chunk, rest) =>
      match buildResponses fuel rest with
      | none => none
      | some rs => some (⟨.success, chunk.map setBlob, !rest.isEmpty⟩ :: rs)

/-- `BuildAndSendBlobsReadResponse` -/
def buildBlobsReadResponse (h : Heap) (snapshot : Pointer) (m : BlobsRead) :
    Option (List BlobsReadResponse) :=
  match h.answerBlobs snapshot m.lockMode m.blobs with
  | none => none
  | some es => buildResponses es.length es

/-! ### Which entries fit -/

section Chunks

variable {e : BlobAddress × Option VersionedContent}
  {es : List (BlobAddress × Option VersionedContent)} {chunkSize fuel n : ℕ}

/-- The size of a message is at most what its header can say. -/
theorem fitsIntoMessage_iff {total n : ℕ} :
    BlobsReadResponse.fitsIntoMessage total n = true ↔ 12 + 24 * n + total ≤ 0xffffffff := by
  rw [BlobsReadResponse.fitsIntoMessage, decide_eq_true_iff]

/-- A single content fits up to this size, which is above `MaxBlobSize`. -/
theorem fitsIntoMessage_one_iff {n : ℕ} :
    BlobsReadResponse.fitsIntoMessage n 1 = true ↔ n ≤ 0xffffffff - 36 := by
  rw [fitsIntoMessage_iff]
  omega

/-- No entry is lost, and the order is kept. -/
theorem takeChunk_append (chunkSize n : ℕ) (es : List (BlobAddress × Option VersionedContent)) :
    (takeChunk chunkSize n es).1 ++ (takeChunk chunkSize n es).2 = es := by
  induction es generalizing chunkSize n with
  | nil => rfl
  | cons e es ih =>
    rw [takeChunk]
    split_ifs
    · exact congrArg (e :: ·) (ih _ _)
    · rfl

/-- What was taken fits into the message. -/
theorem fitsIntoMessage_takeChunk
    (hfits : BlobsReadResponse.fitsIntoMessage chunkSize n = true)
    (es : List (BlobAddress × Option VersionedContent)) :
    BlobsReadResponse.fitsIntoMessage
      (chunkSize + ((takeChunk chunkSize n es).1.map fun e => blobSize e.2).sum)
      (n + (takeChunk chunkSize n es).1.length) = true := by
  induction es generalizing chunkSize n with
  | nil => exact hfits
  | cons e es ih =>
    rw [takeChunk]
    split_ifs with hnext
    · have h := ih hnext
      rw [Nat.add_assoc, Nat.add_assoc, Nat.add_comm 1] at h
      exact h
    · exact hfits

/-- The entry fits into a message of its own. -/
def FitsAlone (e : BlobAddress × Option VersionedContent) : Prop :=
  BlobsReadResponse.fitsIntoMessage (blobSize e.2) 1 = true

theorem fitsAlone_some_iff {a : BlobAddress} {v : VersionedContent} :
    FitsAlone (a, some v) ↔ v.content.length ≤ 0xffffffff - 36 :=
  fitsIntoMessage_one_iff

/-- Only entries that fit into a message of their own are taken, whatever is in the message. -/
theorem fitsAlone_of_mem_takeChunk (h : e ∈ (takeChunk chunkSize n es).1) : FitsAlone e := by
  induction es generalizing chunkSize n with
  | nil => cases h
  | cons e' es ih =>
    rw [takeChunk] at h
    split_ifs at h with hnext
    · rcases List.mem_cons.mp h with rfl | h
      · rw [fitsIntoMessage_iff] at hnext
        rw [FitsAlone, fitsIntoMessage_iff]
        omega
      · exact ih h
    · cases h

/-- A chunk is not empty when its first entry fits into a message of its own. -/
theorem exists_takeChunk_cons (he : FitsAlone e)
    (es : List (BlobAddress × Option VersionedContent)) :
    ∃ chunk rest, takeChunk 0 0 (e :: es) = (chunk, rest) ∧ chunk ≠ [] ∧ chunk ++ rest = e :: es ∧
      12 + 24 * chunk.length + (chunk.map fun e => blobSize e.2).sum ≤ 0xffffffff := by
  have hfirst : BlobsReadResponse.fitsIntoMessage (0 + blobSize e.2) (0 + 1) = true := by
    rwa [Nat.zero_add]
  have htake : takeChunk 0 0 (e :: es) = (e :: (takeChunk (0 + blobSize e.2) (0 + 1) es).1,
      (takeChunk (0 + blobSize e.2) (0 + 1) es).2) := by
    rw [takeChunk, if_pos hfirst]
  have h := fitsIntoMessage_iff.mp (fitsIntoMessage_takeChunk hfirst es)
  refine ⟨_, _, htake, List.cons_ne_nil _ _, ?_, ?_⟩
  · rw [List.cons_append, takeChunk_append]
  · rw [List.length_cons, List.map_cons, List.sum_cons]
    omega

/-- The messages are built when each entry fits into one of its own. -/
theorem exists_buildResponses (hes : ∀ e ∈ es, FitsAlone e) (hn : es.length ≤ fuel) :
    ∃ rs, buildResponses fuel es = some rs := by
  induction fuel generalizing es with
  | zero =>
    obtain rfl := List.length_eq_zero_iff.mp (Nat.le_zero.mp hn)
    exact ⟨[], rfl⟩
  | succ fuel ih =>
    cases es with
    | nil => exact ⟨[], rfl⟩
    | cons e es =>
      obtain ⟨chunk, rest, htake, hchunk, happend, -⟩ :=
        exists_takeChunk_cons (hes e List.mem_cons_self) es
      have hlength := congrArg List.length happend
      have hpos := List.length_pos_of_ne_nil hchunk
      rw [List.length_append] at hlength
      have hrest : ∀ e' ∈ rest, FitsAlone e' := fun e' he' =>
        hes e' (happend ▸ List.mem_append_right _ he')
      obtain ⟨rs, hrs⟩ := ih hrest (by omega)
      obtain ⟨e', chunk, rfl⟩ := List.exists_cons_of_ne_nil hchunk
      refine ⟨⟨.success, (e' :: chunk).map setBlob, !rest.isEmpty⟩ :: rs, ?_⟩
      rw [buildResponses, htake]
      · dsimp only
        rw [hrs]
      · exact List.cons_ne_nil e es

/-- An entry that fits into no message is never taken, and those before it only delay the round that
takes nothing. -/
theorem fitsAlone_of_buildResponses {rs : List BlobsReadResponse}
    (h : buildResponses fuel es = some rs) : ∀ e ∈ es, FitsAlone e := by
  induction fuel generalizing es rs with
  | zero =>
    cases es with
    | nil => exact fun e he => nomatch he
    | cons e es => cases h
  | succ fuel ih =>
    cases es with
    | nil => exact fun e he => nomatch he
    | cons e es =>
      simp only [buildResponses] at h
      split at h
      · cases h
      · next chunk rest htake =>
        split at h
        · cases h
        · next rs' hrs =>
          intro e' he'
          have happend := takeChunk_append 0 0 (e :: es)
          rw [← happend, List.mem_append] at he'
          rcases he' with he' | he'
          · exact fitsAlone_of_mem_takeChunk he'
          · rw [htake] at he'
            exact ih hrs e' he'

end Chunks

namespace Heap

variable {h : Heap} {snapshot : Pointer} {mode : LockMode} {as : List BlobAddress}
  {es : List (BlobAddress × Option VersionedContent)}

/-- The server answers each request by what it is. -/
theorem answerBlobs_eq_some (hes : h.answerBlobs snapshot mode as = some es) :
    es.map Prod.fst = as ∧ ∀ e ∈ es, h.answerBlob snapshot mode e.1 = some e.2 := by
  induction as generalizing es with
  | nil =>
    obtain rfl := Option.some_inj.mp hes
    exact ⟨rfl, fun e he => nomatch he⟩
  | cons a as ih =>
    rw [Heap.answerBlobs] at hes
    split at hes
    · next c cs hc hcs =>
      obtain rfl := Option.some_inj.mp hes
      obtain ⟨hmap, hall⟩ := ih hcs
      refine ⟨congrArg (a :: ·) hmap, fun e he => ?_⟩
      rcases List.mem_cons.mp he with rfl | he
      · exact hc
      · exact hall e he
    · cases hes

theorem exists_answerBlobs (h' : ∀ a ∈ as, (h.answerBlob snapshot mode a).isSome) :
    ∃ es, h.answerBlobs snapshot mode as = some es := by
  induction as with
  | nil => exact ⟨[], rfl⟩
  | cons a as ih =>
    obtain ⟨c, hc⟩ := Option.isSome_iff_exists.mp (h' a List.mem_cons_self)
    obtain ⟨es, hes⟩ := ih fun a' ha' => h' a' (List.mem_cons_of_mem _ ha')
    exact ⟨(a, c) :: es, by rw [answerBlobs, hc, hes]⟩

end Heap

end BlobsDb
