import BlobsDb.ClientLib.Creating
import BlobsDb.ClientLib.Merging

/-!
# Calls of the client library

`View.Does` says what each call of the client library means for a database, apart from transactions,
locks and caches. A call that succeeds in a transaction does this to what the client sees there, and
one that fails leaves it as it is (`ensures_perform`).
-/

namespace BlobsDb

namespace ClientLib

/-- `Lock` -/
inductive Lock
  | none
  | read
  | write
  deriving DecidableEq

def Lock.mode : Lock → LockMode
  | .none => .none
  | .read => .read
  | .write => .write

/-- The functions of a database that its users call in a transaction. -/
inductive Call
  | readBlob (l : BlobLocation) (lock : Lock)
  | readBlobs (ls : List BlobLocation) (lock : Lock)
  | writeBlob (l : BlobLocation) (data : List UInt8)
  | writeBlobs (es : List (BlobLocation × List UInt8))
  | createBlob (s : SegmentId) (c : ClusterId) (data : List UInt8)
  | createBlobAt (l : BlobLocation) (data : List UInt8)
  | createCluster (s : SegmentId)
  | createSegment
  | deleteBlob (l : BlobLocation)
  | deleteCluster (s : SegmentId) (c : ClusterId)
  | deleteSegment (s : SegmentId)
  | getAllBlobs (s : SegmentId) (c : ClusterId) (lock : Lock)
  | getAllClusters (s : SegmentId) (lock : Lock)
  | getAllSegments (lock : Lock)
  deriving DecidableEq

/-- What calls return. -/
inductive Reply
  | done
  | blobs (datas : List (List UInt8))
  | id (id : UInt32)
  | ids (ids : List UInt32)
  deriving DecidableEq

def Call.perform (server : Replies) : Call → Access Reply
  | readBlob l lock => do
    let data ← Access.readBlob server l lock.mode
    pure (.blobs [data])
  | readBlobs ls lock => do
    let datas ← Access.readBlobs server ls lock.mode
    pure (.blobs datas)
  | writeBlob l data => do
    Access.writeBlob server l data
    pure .done
  | writeBlobs es => do
    Access.writeBlobs server es
    pure .done
  | createBlob s c data => do
    let blob ← Access.createBlob server s c data
    pure (.id blob)
  | createBlobAt l data => do
    Access.createBlobAt server l data
    pure .done
  | createCluster s => do
    let cluster ← Access.createCluster server s
    pure (.id cluster)
  | createSegment => do
    let segment ← Access.createSegment server
    pure (.id segment)
  | deleteBlob l => do
    Access.deleteBlob server l
    pure .done
  | deleteCluster s c => do
    Access.deleteCluster server s c
    pure .done
  | deleteSegment s => do
    Access.deleteSegment server s
    pure .done
  | getAllBlobs s c lock => do
    let ids ← Access.getAllBlobs server s c lock.mode
    pure (.ids ids)
  | getAllClusters s lock => do
    let ids ← Access.getAllClusters server s lock.mode
    pure (.ids ids)
  | getAllSegments lock => do
    let ids ← Access.getAllSegments server lock.mode
    pure (.ids ids)

end ClientLib

namespace View

open ClientLib (Call Reply Lock)

/-- The ids in an ascending list are those with the property. -/
def Lists (p : UInt32 → Prop) (ids : List UInt32) : Prop := ids.Pairwise (· < ·) ∧ ∀ id, id ∈ ids ↔ p id

/-- What a call that succeeds does to a database. Without a lock what it returns may be outdated. Lists
of blobs lack some of the blobs that are `missed`, which can be created once more. -/
inductive Does (missed : BlobLocation → Prop) (v : View) : Call → Reply → View → Prop
  | readBlob {l : BlobLocation} {lock : Lock} {data : List UInt8}
    (h : lock ≠ .none → v.blob l = some data) :
    Does missed v (.readBlob l lock) (.blobs [data]) v
  | readBlobs {ls : List BlobLocation} {lock : Lock} {datas : List (List UInt8)}
    (h : lock ≠ .none → ls.map v.blob = datas.map some) :
    Does missed v (.readBlobs ls lock) (.blobs datas) v
  | writeBlob {l : BlobLocation} {data : List UInt8} (h : (v.blob l).isSome) :
    Does missed v (.writeBlob l data) .done (v.setBlob l (some data))
  | writeBlobs {es : List (BlobLocation × List UInt8)} (h : ∀ e ∈ es, (v.blob e.1).isSome) :
    Does missed v (.writeBlobs es) .done (es.foldl (fun v e => v.setBlob e.1 (some e.2)) v)
  | createBlob {s : SegmentId} {c : ClusterId} {data : List UInt8} {b : BlobId}
    (h : v.cluster s c = some b) (hb : b ≤ maxBlobId) :
    Does missed v (.createBlob s c data) (.id b)
      ((v.setNextBlob s c (b + 1)).setBlob ⟨s, c, b⟩ (some data))
  | createBlobAt {l : BlobLocation} {data : List UInt8} {n : BlobId}
    (h : v.cluster l.segment l.cluster = some n) (hb : l.blob ≤ maxBlobId)
    (hnew : v.blob l = none ∨ missed l) :
    Does missed v (.createBlobAt l data) .done
      ((v.setNextBlob l.segment l.cluster (max n (l.blob + 1))).setBlob l (some data))
  | createCluster {s : SegmentId} {c : ClusterId} (h : v.segment s = some c) (hc : c ≤ maxClusterId) :
    Does missed v (.createCluster s) (.id c) ((v.setNextCluster s (c + 1)).addCluster s c)
  | createSegment (h : v.nextSegment ≤ maxSegmentId) :
    Does missed v .createSegment (.id v.nextSegment)
      ((v.setNextSegment (v.nextSegment + 1)).addSegment v.nextSegment)
  | deleteBlob {l : BlobLocation} (h : (v.blob l).isSome) :
    Does missed v (.deleteBlob l) .done (v.setBlob l none)
  | deleteCluster {s : SegmentId} {c : ClusterId} (h : (v.cluster s c).isSome) :
    Does missed v (.deleteCluster s c) .done (v.deleteCluster s c)
  | deleteSegment {s : SegmentId} (h : (v.segment s).isSome) :
    Does missed v (.deleteSegment s) .done (v.deleteSegment s)
  | getAllBlobs {s : SegmentId} {c : ClusterId} {lock : Lock} {ids : List BlobId}
    (h : lock ≠ .none → ids.Pairwise (· < ·) ∧ (∀ b ∈ ids, (v.blob ⟨s, c, b⟩).isSome) ∧
      ∀ b, (v.blob ⟨s, c, b⟩).isSome → b ∈ ids ∨ missed ⟨s, c, b⟩) :
    Does missed v (.getAllBlobs s c lock) (.ids ids) v
  | getAllClusters {s : SegmentId} {lock : Lock} {ids : List ClusterId}
    (h : lock ≠ .none → Lists (fun c => (v.cluster s c).isSome) ids) :
    Does missed v (.getAllClusters s lock) (.ids ids) v
  | getAllSegments {lock : Lock} {ids : List SegmentId}
    (h : lock ≠ .none → Lists (fun s => (v.segment s).isSome) ids) :
    Does missed v (.getAllSegments lock) (.ids ids) v

/-- The clusters and segments that are new have had a blob or a cluster. -/
structure Settled (v₀ v : View) : Prop where
  segment : ∀ s n, v₀.segment s = none → v.segment s = some n → 0 < n
  cluster : ∀ s c n, v₀.cluster s c = none → v.cluster s c = some n → 0 < n

theorem succ_pos {n : UInt32} (h : n ≤ maxBlobId) : 0 < n + 1 :=
  (lt_succ_iff h).mpr UInt32.zero_le

/-- What is settled stays settled when next free ids are only set to ids above zero. -/
theorem Settled.of {v₀ v v' : View} (h : Settled v₀ v)
    (hs : ∀ s n, v'.segment s = some n → v.segment s = some n ∨ 0 < n)
    (hc : ∀ s c n, v'.cluster s c = some n → v.cluster s c = some n ∨ 0 < n) : Settled v₀ v' :=
  ⟨fun s n hn hn' => (hs s n hn').elim (h.segment s n hn) id,
    fun s c n hn hn' => (hc s c n hn').elim (h.cluster s c n hn) id⟩

/-- Writing blobs leaves the next free ids. -/
theorem foldl_setBlob (es : List (BlobLocation × List UInt8)) (v : View) :
    (es.foldl (fun v e => v.setBlob e.1 (some e.2)) v).segment = v.segment ∧
      (es.foldl (fun v e => v.setBlob e.1 (some e.2)) v).cluster = v.cluster := by
  induction es generalizing v with
  | nil => exact ⟨rfl, rfl⟩
  | cons e es ih => exact ih (v.setBlob e.1 (some e.2))

theorem eq_or_pos_of_ite {p : Prop} [Decidable p] {n k : UInt32} {o : Option UInt32} (hk : 0 < k)
    (h : (if p then some k else o) = some n) : o = some n ∨ 0 < n := by
  split_ifs at h
  · exact Or.inr (Option.some.inj h ▸ hk)
  · exact Or.inl h

theorem eq_or_pos_of_ite_none {p : Prop} [Decidable p] {n : UInt32} {o : Option UInt32}
    (h : (if p then none else o) = some n) : o = some n ∨ 0 < n := by
  split_ifs at h
  exact Or.inl h

/-- No call leaves a new segment or cluster without a first cluster or blob. -/
theorem Does.settled {missed : BlobLocation → Prop} {v₀ v v' : View} {call : Call} {reply : Reply}
    (h : v.Does missed call reply v') (hv : Settled v₀ v) : Settled v₀ v' := by
  cases h with
  | readBlob _ => exact hv
  | readBlobs _ => exact hv
  | writeBlob _ => exact ⟨hv.segment, hv.cluster⟩
  | @writeBlobs es _ =>
    obtain ⟨hs, hc⟩ := foldl_setBlob es v
    exact ⟨by rw [hs]; exact hv.segment, by rw [hc]; exact hv.cluster⟩
  | createBlob _ hb =>
    exact hv.of (fun _ _ => Or.inl) fun _ _ _ => eq_or_pos_of_ite (succ_pos hb)
  | createBlobAt _ hb _ =>
    exact hv.of (fun _ _ => Or.inl) fun _ _ _ =>
      eq_or_pos_of_ite (lt_of_lt_of_le (succ_pos hb) (le_max_right _ _))
  | createCluster _ hc =>
    exact hv.of (fun _ _ => eq_or_pos_of_ite (succ_pos hc)) fun _ _ _ => eq_or_pos_of_ite (by decide)
  | createSegment _ =>
    refine hv.of (fun _ _ => eq_or_pos_of_ite (by decide)) fun s c n hn => ?_
    simp only [addSegment, setNextSegment] at hn
    split_ifs at hn
    · exact Or.inr (Option.some.inj hn ▸ by decide)
    · exact Or.inl hn
  | deleteBlob _ => exact ⟨hv.segment, hv.cluster⟩
  | deleteCluster _ => exact hv.of (fun _ _ => Or.inl) fun _ _ _ => eq_or_pos_of_ite_none
  | deleteSegment _ =>
    exact hv.of (fun _ _ => eq_or_pos_of_ite_none) fun _ _ _ => eq_or_pos_of_ite_none
  | getAllBlobs _ => exact hv
  | getAllClusters _ => exact hv
  | getAllSegments _ => exact hv

end View

namespace ClientLib

open DbTree (HasLocation)
open Access (idOf idData)
open View (Does Settled)

variable {μ : Type} {t : DbTree μ 3} {version : BlobLocation → CommitId} {server : Replies}
  {db db' : DatabaseTransaction} {v v' : View} {l l' : BlobLocation} {s : SegmentId} {c : ClusterId}
  {lock : LockMode} {n n' : UInt32} {data : List UInt8} {missed : BlobLocation → Prop}

namespace Access

open DatabaseTransaction (Sees Continues)
open EStateM (Ensures ensures_bind ensures_get ensures_pure ensures_throw ensures_modify)

/-! ### Reading and writing -/

/-- What is read without the server is seen. -/
theorem reads_of_readLocally (h : Sees missed t version v db)
    (hdata : db.readLocally lock l = some data) : db.state.Reads t l data := by
  rcases DatabaseTransaction.readLocally_eq_some.mp hdata with hdata | ⟨hnone, copy, hcopy, -, rfl⟩
  · exact Or.inl hdata
  · exact Or.inr ⟨hnone, h.current l copy hcopy⟩

/-- Blobs are written that are there and locked. -/
theorem ensures_writeEach {es : List (BlobLocation × List UInt8)} (h : Sees missed t version v db)
    (hsome : ∀ e ∈ es, (v.blob e.1).isSome) (hlock : ∀ e ∈ es, db.lockType e.1 = .write) :
    Ensures (es.forM fun e => note fun state => state.writeBlob e.1 e.2) db
      (fun _ db' => Sees missed t version (es.foldl (fun v e => v.setBlob e.1 (some e.2)) v) db')
      fun _ _ => False := by
  induction es generalizing v db with
  | nil => exact h
  | cons e es ih =>
    obtain ⟨hfirst, hrest⟩ := List.forall_mem_cons.mp hsome
    obtain ⟨hlockFirst, hlockRest⟩ := List.forall_mem_cons.mp hlock
    exact ih (h.writeBlob hfirst hlockFirst) (fun e he => View.isSome_blob_setBlob (hrest e he))
      hlockRest

/-- All locations of a list are checked before the first one is changed. -/
theorem ensures_ensureBlobsNotDeleted (ls : List BlobLocation) :
    Ensures (ls.forM ensureBlobNotDeleted) db
      (fun _ db' => db' = db ∧ ∀ l ∈ ls, db.state.isBlobDeleted l = false) fun _ db' => db' = db := by
  refine Ensures.forM rfl fun l _ db' hdb' => ?_
  rw [hdb']
  exact ensures_ensureBlobNotDeleted.mono (fun _ _ => id) fun _ _ => And.left

section

variable (ha : Answers t version server)
include ha

/-- A blob that is read with a lock is the one that is seen. -/
theorem ensures_readBlob (h : Sees missed t version v db) (hlock : lock = .read ∨ lock = .write) :
    (readBlob server l lock).Ensures db
      (fun data db' => v.blob l = some data ∧ Sees missed t version v db')
      fun _ db' => Sees missed t version v db' := by
  refine ((ensures_checkIds _).mono (fun _ _ => id) fun _ db' hdb' => ?_).bind fun _ db' hdb' => ?_
  · rw [hdb'.1]
    exact h
  obtain ⟨rfl, hids⟩ := hdb'
  have hb : l.blob ≤ maxBlobId := hids (checkBlob l.blob) (by simp)
  refine (ensures_readBlobInternal ha h hlock).mono (fun data db' hdb' => ?_) fun _ db' hdb' => ?_
  · obtain ⟨hcontinues, hlive, hreads, -⟩ := hdb'
    exact ⟨h.tracks.blob_of_reads hb hlive hreads, hcontinues.sees⟩
  · rw [hdb']
    exact h

/-- Blobs that are read with a lock are those that are seen. -/
theorem ensures_readBlobs {ls : List BlobLocation} (h : Sees missed t version v db)
    (hlock : lock = .read ∨ lock = .write) :
    (readBlobs server ls lock).Ensures db
      (fun datas db' => ls.map v.blob = datas.map some ∧ Sees missed t version v db')
      fun _ db' => Sees missed t version v db' := by
  have hnone : lock ≠ .none := by rcases hlock with rfl | rfl <;> decide
  rw [readBlobs]
  split
  · exact h
  have hcheck : Ensures (ls.forM fun l =>
      checkIds [checkSegment l.segment, checkCluster l.cluster, checkBlob l.blob]) db
      (fun _ db' => db' = db ∧ ∀ l ∈ ls, l.blob ≤ maxBlobId)
      fun _ db' => Sees missed t version v db' := by
    refine Ensures.forM rfl fun l _ db' hdb' => (ensures_checkIds _).mono (fun _ db'' hdb'' => ?_)
      fun _ db'' hdb'' => ?_
    · exact ⟨hdb''.1.trans hdb', hdb''.2 (checkBlob l.blob) (by simp)⟩
    · rw [hdb''.1, hdb']
      exact h
  refine hcheck.bind fun _ db' hdb' => ?_
  obtain ⟨rfl, hids⟩ := hdb'
  rw [ensures_bind, ensures_get]
  split
  · exact h
  refine ((ensures_ensureBlobsNotDeleted ls).mono (fun _ _ => id) fun _ db'' hdb'' => ?_).bind
    fun _ db'' hdb'' => ?_
  · rw [hdb'']
    exact h
  obtain ⟨rfl, hlive⟩ := hdb''
  -- what is read is what is seen, at each location
  have hread : ∀ f : BlobLocation → List UInt8, (∀ l ∈ ls, db''.readLocally lock l = none →
      t.content l = some (f l)) → ls.map v.blob =
        (ls.map fun l => (db''.readLocally lock l).getD (f l)).map some := fun f hrequested => by
    rw [List.map_map]
    refine List.map_congr_left fun l hl => ?_
    change v.blob l = some ((db''.readLocally lock l).getD (f l))
    refine h.tracks.blob_of_reads (hids l hl) (hlive l hl) ?_
    cases hlocal : db''.readLocally lock l with
    | some data => exact reads_of_readLocally h hlocal
    | none =>
      exact Or.inr ⟨(DatabaseTransaction.readLocally_eq_none.mp hlocal).1, hrequested l hl hlocal⟩
  dsimp only
  split
  · next hempty =>
    refine ⟨hread (fun _ => []) fun l hl hlocal => ?_, h⟩
    have hmem : l ∈ ls.filter fun l => (db''.readLocally lock l).isNone :=
      List.mem_filter.mpr ⟨hl, by rw [hlocal]; rfl⟩
    rw [List.isEmpty_iff.mp hempty] at hmem
    cases hmem
  · refine ((ensures_requestBlobs ha h hlock).mono (fun _ _ => id) fun _ db₁ hdb₁ => ?_).bind
      fun _ db₁ hdb₁ => ?_
    · rw [hdb₁]
      exact h
    · obtain ⟨hcontinues, hcontent, -⟩ := hdb₁
      exact ⟨hread db₁.cachedData fun l hl hlocal =>
        hcontent l (List.mem_filter.mpr ⟨hl, by rw [hlocal]; rfl⟩), hcontinues.sees⟩

/-- Only a blob that is there is written. -/
theorem ensures_writeBlob (h : Sees missed t version v db) : (writeBlob server l data).Ensures db
    (fun _ db' => (v.blob l).isSome ∧ Sees missed t version (v.setBlob l (some data)) db')
    fun _ db' => Sees missed t version v db' := by
  refine ((ensures_checkIds _).mono (fun _ _ => id) fun _ db' hdb' => ?_).bind fun _ db' hdb' => ?_
  · rw [hdb'.1]
    exact h
  obtain ⟨rfl, hids⟩ := hdb'
  have hb : l.blob ≤ maxBlobId := hids (checkBlob l.blob) (by simp)
  split
  · exact h
  refine (ensures_writeBlobInternal ha h).mono (fun _ db'' hdb'' => ?_) fun _ db'' hdb'' => ?_
  · obtain ⟨db₁, hcontinues, hlock, hlive, rfl⟩ := hdb''
    have hsome := (hcontinues.sees.locked l hlock hlive).isSome_blob hb
    exact ⟨hsome, hcontinues.sees.writeBlob hsome hlock⟩
  · rw [hdb'']
    exact h

/-- Only blobs that are there are written. -/
theorem ensures_writeBlobs {es : List (BlobLocation × List UInt8)} (h : Sees missed t version v db) :
    (writeBlobs server es).Ensures db
      (fun _ db' => (∀ e ∈ es, (v.blob e.1).isSome) ∧
        Sees missed t version (es.foldl (fun v e => v.setBlob e.1 (some e.2)) v) db')
      fun _ db' => Sees missed t version v db' := by
  rw [writeBlobs]
  split
  · exact h
  have hcheck : Ensures (es.forM fun e => do
      checkIds [checkSegment e.1.segment, checkCluster e.1.cluster, checkBlob e.1.blob]
      if maxBlobSize < e.2.length then throw (.blobTooLarge e.2.length) else pure ()) db
      (fun _ db' => db' = db ∧ ∀ e ∈ es, e.1.blob ≤ maxBlobId)
      fun _ db' => Sees missed t version v db' := by
    refine Ensures.forM rfl fun e _ db' hdb' => ?_
    refine ((ensures_checkIds _).mono (fun _ _ => id) fun _ db'' hdb'' => ?_).bind
      fun _ db'' hdb'' => ?_
    · rw [hdb''.1, hdb']
      exact h
    · obtain ⟨rfl, hids⟩ := hdb''
      split
      · rw [hdb']
        exact h
      · exact ⟨hdb', hids (checkBlob e.1.blob) (by simp)⟩
  refine hcheck.bind fun _ db' hdb' => ?_
  obtain ⟨rfl, hids⟩ := hdb'
  rw [ensures_bind, ensures_get]
  split
  · exact h
  have hensure : Ensures (es.forM fun e => ensureBlobNotDeleted e.1) db'
      (fun _ db'' => db'' = db' ∧ ∀ e ∈ es, db'.state.isBlobDeleted e.1 = false)
      fun _ db'' => Sees missed t version v db'' := by
    refine Ensures.forM rfl fun e _ db'' hdb'' => ?_
    rw [hdb'']
    refine ensures_ensureBlobNotDeleted.mono (fun _ _ => id) fun _ db₁ hdb₁ => ?_
    rw [hdb₁.1]
    exact h
  refine hensure.bind fun _ db'' hdb'' => ?_
  obtain ⟨rfl, hlive⟩ := hdb''
  -- once all locks are there
  have hwrite : ∀ db₁, Continues missed t version v db'' db₁ →
      (∀ e ∈ es, db₁.lockType e.1 = .write) →
      Ensures (es.forM fun e => note fun state => state.writeBlob e.1 e.2) db₁
        (fun _ db₂ => (∀ e ∈ es, (v.blob e.1).isSome) ∧
          Sees missed t version (es.foldl (fun v e => v.setBlob e.1 (some e.2)) v) db₂)
        fun _ db₂ => Sees missed t version v db₂ := fun db₁ hcontinues hlocks => by
    have hsome : ∀ e ∈ es, (v.blob e.1).isSome := fun e he => by
      refine (hcontinues.sees.locked e.1 (hlocks e he) ?_).isSome_blob (hids e he)
      rw [hcontinues.isBlobDeleted]
      exact hlive e he
    exact (ensures_writeEach hcontinues.sees hsome hlocks).mono (fun _ _ hdb₂ => ⟨hsome, hdb₂⟩)
      fun _ _ => False.elim
  dsimp only
  split
  · next hempty =>
    refine hwrite db'' h.refl fun e he => ?_
    by_contra hlock
    have hmem : e.1 ∈ (es.map Prod.fst).filter fun l => db''.lockType l ≠ .write :=
      List.mem_filter.mpr ⟨List.mem_map_of_mem he, decide_eq_true hlock⟩
    rw [List.isEmpty_iff.mp hempty] at hmem
    cases hmem
  · refine ((ensures_acquireWriteLocks ha h).mono (fun _ _ => id) fun _ db₁ hdb₁ => ?_).bind
      fun _ db₁ hdb₁ => ?_
    · rw [hdb₁]
      exact h
    · obtain ⟨hcontinues, hlocks⟩ := hdb₁
      refine hwrite db₁ hcontinues fun e he => ?_
      by_cases hlock : db''.lockType e.1 = .write
      · exact hcontinues.locked e.1 hlock
      · exact (hlocks e.1 (List.mem_filter.mpr ⟨List.mem_map_of_mem he, decide_eq_true hlock⟩)).1

/-! ### Creating -/

/-- The next free blob id is read with a write lock, and is what the view says. -/
theorem ensures_readNextFreeBlobId (h : Sees missed t version v db) (hc : c ≤ maxClusterId) :
    (readBlobInternal server ⟨s, c, nextFreeBlobId⟩ .write).Ensures db
      (fun data db' => Continues missed t version v db db' ∧ v.cluster s c = some (idOf data) ∧
        db'.lockType ⟨s, c, nextFreeBlobId⟩ = .write)
      fun _ db' => db' = db := by
  refine (ensures_readBlobInternal ha h (Or.inr rfl)).mono (fun data db' hdb' => ?_) fun _ _ => id
  obtain ⟨hcontinues, hlive, hreads, hlocked⟩ := hdb'
  exact ⟨hcontinues, h.tracks.cluster_of_reads hc hlive hreads, (hlocked rfl).1⟩

/-- A new blob gets the next free id of its cluster. -/
theorem ensures_createBlob_of_sees (h : Sees missed t version v db) :
    (createBlob server s c data).Ensures db
      (fun b db' => v.cluster s c = some b ∧ b ≤ maxBlobId ∧
        Sees missed t version ((v.setNextBlob s c (b + 1)).setBlob ⟨s, c, b⟩ (some data)) db')
      fun _ db' => Sees missed t version v db' := by
  refine (ensures_createBlob fun hc => ensures_readNextFreeBlobId ha h hc).mono
    (fun b db' hdb' => ⟨hdb'.1, hdb'.2.1, hdb'.2.2.2⟩) fun _ db' hdb' => ?_
  rcases hdb' with rfl | ⟨rfl, -⟩ | ⟨hcontinues, -⟩
  · exact h
  · exact h
  · exact hcontinues.sees

/-- A new cluster gets the next free id of its segment. -/
theorem ensures_createCluster_of_sees (h : Sees missed t version v db) :
    (createCluster server s).Ensures db
      (fun c db' => v.segment s = some c ∧ c ≤ maxClusterId ∧
        Sees missed t version ((v.setNextCluster s (c + 1)).addCluster s c) db')
      fun _ db' => Sees missed t version v db' := by
  have hread : s ≤ maxSegmentId →
      (readBlobInternal server ⟨s, nextFreeClusterId, nextFreeBlobId⟩ .write).Ensures db
        (fun data db' => Continues missed t version v db db' ∧ v.segment s = some (idOf data) ∧
          db'.lockType ⟨s, nextFreeClusterId, nextFreeBlobId⟩ = .write ∧ db'.isMVCC = false)
        fun _ db' => db' = db := fun hs => by
    refine (ensures_readBlobInternal ha h (Or.inr rfl)).mono (fun data db' hdb' => ?_) fun _ _ => id
    obtain ⟨hcontinues, hlive, hreads, hlocked⟩ := hdb'
    exact ⟨hcontinues, h.tracks.segment_of_reads hs hlive hreads, hlocked rfl⟩
  refine (ensures_createCluster hread).mono (fun _ _ => id) fun _ db' hdb' => ?_
  rcases hdb' with rfl | ⟨rfl, -⟩ | ⟨hcontinues, -⟩
  · exact h
  · exact h
  · exact hcontinues.sees

/-- A new segment gets the next free id of the database. -/
theorem ensures_createSegment (h : Sees missed t version v db) : (createSegment server).Ensures db
    (fun s db' => v.nextSegment = s ∧ s ≤ maxSegmentId ∧
      Sees missed t version ((v.setNextSegment (s + 1)).addSegment s) db')
    fun _ db' => Sees missed t version v db' := by
  refine ((ensures_readBlobInternal ha h (Or.inr rfl)).mono (fun _ _ => id) fun _ db' hdb' => ?_).bind
    fun data db₁ hdb₁ => ?_
  · rw [hdb']
    exact h
  obtain ⟨hcontinues, hlive, hreads, hlocked⟩ := hdb₁
  obtain ⟨hlock, hmvcc⟩ := hlocked rfl
  have hn := h.tracks.nextSegment_of_reads hreads
  have hacquired := hcontinues.sees.acquired (l := ⟨segmentListId, clusterListId, blobListId⟩)
    fun _ => .segmentList
  rw [ensures_bind, acquiredLock, ensures_modify]
  split
  · exact hacquired.sees
  · next hfull =>
    have hlive' : (db₁.acquired .write ⟨segmentListId, clusterListId, blobListId⟩).state.isBlobDeleted
        DatabaseState.nextSegmentLocation = false := by
      rw [hacquired.isBlobDeleted, hcontinues.isBlobDeleted]
      exact hlive
    refine ((ensures_newSegment hacquired.sees hn (not_lt.mp hfull) hmvcc (hacquired.locked _ hlock)
      hlive').mono (fun _ _ => id) fun _ _ => False.elim).bind fun _ db₂ hdb₂ => ?_
    exact ⟨hn, not_lt.mp hfull, hdb₂⟩

/-! ### Lists -/

/-- The list of blobs is that of the view, apart from blobs it no longer shows. -/
theorem ensures_getAllBlobs (h : Sees missed t version v db) (hlock : lock = .read ∨ lock = .write) :
    (getAllBlobs server s c lock).Ensures db
      (fun ids db' => Continues missed t version v db db' ∧ ids.Pairwise (· < ·) ∧
        (∀ b ∈ ids, (v.blob ⟨s, c, b⟩).isSome) ∧ ∀ b, (v.blob ⟨s, c, b⟩).isSome →
          b ∈ ids ∨ (View.of t).blob ⟨s, c, b⟩ = none ∧ missed ⟨s, c, b⟩)
      fun _ db' => Sees missed t version v db' := by
  have hnone : lock ≠ .none := by rcases hlock with rfl | rfl <;> decide
  refine ((ensures_checkIds _).mono (fun _ _ => id) fun _ db' hdb' => ?_).bind fun _ db' hdb' => ?_
  · rw [hdb'.1]
    exact h
  obtain ⟨rfl, hids⟩ := hdb'
  have hc : c ≤ maxClusterId := hids (checkCluster c) (by simp)
  rw [if_neg hnone, ensures_bind, ensures_get]
  split
  · next hcreated =>
    have hcluster : (View.of t).cluster s c = none := by
      rcases Bool.or_eq_true_iff.mp hcreated with hcreated | hcreated
      · exact ((h.tracks.createdClusters s c).mp hcreated).1
      · by_contra hcon
        obtain ⟨n, hn⟩ := Option.ne_none_iff_exists'.mp hcon
        obtain ⟨k, hk, -⟩ := h.tracks.found.exists_segment hn
        cases ((h.tracks.createdSegments s).mp hcreated).1.symm.trans hk
    have hblob : ∀ b, b ∈ ([] : List BlobId) ↔ ((View.of t).blob ⟨s, c, b⟩).isSome := fun b => by
      refine iff_of_false List.not_mem_nil fun hb => ?_
      obtain ⟨d, hd⟩ := Option.isSome_iff_exists.mp hb
      obtain ⟨n, hn, -⟩ := h.tracks.found.blob _ d hd
      cases hcluster.symm.trans hn
    exact ⟨h.refl, h.tracks.mem_mergeBlobIdList (fun hne => absurd rfl hne) List.Pairwise.nil hblob⟩
  · refine ((ensures_readBlobInternal ha h hlock).mono (fun _ _ => id) fun _ db'' hdb'' => ?_).bind
      fun data db'' hdb'' => ?_
    · rw [hdb'']
      exact h
    obtain ⟨hcontinues, hlive, hreads, -⟩ := hdb''
    obtain ⟨hsorted, hmem⟩ := blobs_of_content h.tracks.found hc
      (h.tracks.content_of_reads rfl hreads)
    have hcluster : db''.state.isClusterDeleted s c = false := by
      rw [← hcontinues.isBlobDeleted] at hlive
      exact (DatabaseState.isBlobDeleted_eq_false_iff.mp hlive).1
    exact ⟨hcontinues, hcontinues.sees.tracks.mem_mergeBlobIdList (fun _ => hcluster) hsorted hmem⟩

/-- The list of clusters is that of the view. -/
theorem ensures_getAllClusters (h : Sees missed t version v db)
    (hlock : lock = .read ∨ lock = .write) : (getAllClusters server s lock).Ensures db
      (fun ids db' => View.Lists (fun c => (v.cluster s c).isSome) ids ∧ Sees missed t version v db')
      fun _ db' => Sees missed t version v db' := by
  have hnone : lock ≠ .none := by rcases hlock with rfl | rfl <;> decide
  refine ((ensures_checkIds _).mono (fun _ _ => id) fun _ db' hdb' => ?_).bind fun _ db' hdb' => ?_
  · rw [hdb'.1]
    exact h
  obtain ⟨rfl, hids⟩ := hdb'
  have hs : s ≤ maxSegmentId := hids (checkSegment s) (by simp)
  rw [if_neg hnone, ensures_bind, ensures_get]
  split
  · next hcreated =>
    obtain ⟨hfound, hsome⟩ := (h.tracks.createdSegments s).mp hcreated
    obtain ⟨k, hk⟩ := Option.isSome_iff_exists.mp hsome
    have hcluster : ∀ c, c ∈ ([] : List ClusterId) ↔ ((View.of t).cluster s c).isSome := fun c => by
      refine iff_of_false List.not_mem_nil fun hc => ?_
      obtain ⟨n, hn⟩ := Option.isSome_iff_exists.mp hc
      obtain ⟨k, hk, -⟩ := h.tracks.found.exists_segment hn
      cases hfound.symm.trans hk
    exact ⟨h.tracks.mem_mergeClusterIdList (h.tracks.live_of_segment hk).2 List.Pairwise.nil hcluster,
      h⟩
  · refine ((ensures_readBlobInternal ha h hlock).mono (fun _ _ => id) fun _ db'' hdb'' => ?_).bind
      fun data db'' hdb'' => ?_
    · rw [hdb'']
      exact h
    obtain ⟨hcontinues, hlive, hreads, -⟩ := hdb''
    obtain ⟨hsorted, hmem⟩ := clusters_of_content h.tracks.found hs
      (h.tracks.content_of_reads rfl hreads)
    have hsegment : db''.state.isSegmentDeleted s = false := by
      rw [← hcontinues.isBlobDeleted] at hlive
      exact (DatabaseState.isClusterDeleted_eq_false_iff.mp
        (DatabaseState.isBlobDeleted_eq_false_iff.mp hlive).1).1
    exact ⟨hcontinues.sees.tracks.mem_mergeClusterIdList hsegment hsorted hmem, hcontinues.sees⟩

/-- The list of segments is that of the view. -/
theorem ensures_getAllSegments (h : Sees missed t version v db)
    (hlock : lock = .read ∨ lock = .write) : (getAllSegments server lock).Ensures db
      (fun ids db' => View.Lists (fun s => (v.segment s).isSome) ids ∧ Sees missed t version v db')
      fun _ db' => Sees missed t version v db' := by
  have hnone : lock ≠ .none := by rcases hlock with rfl | rfl <;> decide
  refine ((ensures_readBlobInternal ha h hlock).mono (fun _ _ => id) fun _ db' hdb' => ?_).bind
    fun data db' hdb' => ?_
  · rw [hdb']
    exact h
  obtain ⟨hcontinues, -, hreads, -⟩ := hdb'
  obtain ⟨hsorted, hmem⟩ := segments_of_content h.tracks.found
    (h.tracks.content_of_reads rfl hreads)
  rw [if_neg hnone, ensures_bind, ensures_get]
  exact ⟨hcontinues.sees.tracks.mem_mergeSegmentIdList hsorted hmem, hcontinues.sees⟩

/-! ### Creating at a location -/

theorem ensures_createBlobInternalAt (h : Sees missed t version v db) (hb : l.blob ≤ maxBlobId)
    (hc : l.cluster ≤ maxClusterId) : (createBlobInternalAt server l).Ensures db
      (fun _ db' => ∃ n db₁, Continues missed t version v db db₁ ∧
        v.cluster l.segment l.cluster = some n ∧ (v.blob l = none ∨ missed l) ∧
        (db₁.state.deletedBlobs.find l = none → (View.of t).blob l = none) ∧
        db₁.lockType ⟨l.segment, l.cluster, nextFreeBlobId⟩ = .write ∧
        db' = db₁.created l (max n (l.blob + 1)))
      fun _ db' => Sees missed t version v db' := by
  refine ((ensures_readNextFreeBlobId ha h hc).mono (fun _ _ => id) fun _ db' hdb' => ?_).bind
    fun data db₁ hdb₁ => ?_
  · rw [hdb']
    exact h
  obtain ⟨hcontinues, hn, hlock⟩ := hdb₁
  have hacquired := hcontinues.trans (hcontinues.sees.acquired (l := ⟨l.segment, l.cluster, blobListId⟩)
    fun _ => .blobList (by rw [hn]; rfl))
  have hlock' : (db₁.acquired .write ⟨l.segment, l.cluster, blobListId⟩).lockType
      ⟨l.segment, l.cluster, nextFreeBlobId⟩ = .write :=
    (DatabaseTransaction.lockType_acquired _ _ _).mpr (Or.inr hlock)
  have hlt : l.blob < l.blob + 1 := (View.lt_succ_iff hb).mpr le_rfl
  rw [ensures_bind, acquiredLock, ensures_modify]
  split
  · next hle =>
    have hlive := hacquired.sees.tracks.isBlobDeleted_nextFreeBlobId hn
    refine (ensures_newBlob hlock' hlive).mono (fun _ db₂ hdb₂ => ?_) fun _ _ => False.elim
    have hmax : max (idOf data) (l.blob + 1) = l.blob + 1 := max_eq_right (hle.trans hlt.le)
    refine ⟨idOf data, _, hacquired, hn, Or.inl ?_,
      fun _ => (h.tracks.new_of_le hn hle).1, hlock', by rw [hmax]; exact hdb₂⟩
    by_contra hcon
    obtain ⟨d, hd⟩ := Option.ne_none_iff_exists'.mp hcon
    obtain ⟨k, hk, hlt'⟩ := h.tracks.seen.blob l d hd
    obtain rfl := Option.some.inj (hn.symm.trans hk)
    exact absurd (lt_of_lt_of_le hlt' hle) (lt_irrefl _)
  · next hle =>
    refine (ensures_getAllBlobs ha hacquired.sees (Or.inl rfl)).bind fun ids db₂ hdb₂ => ?_
    obtain ⟨hlisted, hsorted, -, hmem⟩ := hdb₂
    split
    · exact hlisted.sees
    · next hfind =>
      have hnot : l.blob ∉ ids := fun hmem => hfind (find?_eq_some_of_mem hsorted hmem)
      have hcontinues₂ := hacquired.trans hlisted
      have hlock₂ := hlisted.locked _ hlock'
      have hlive := hcontinues₂.sees.tracks.isBlobDeleted_nextFreeBlobId hn
      refine (ensures_newBlob hlock₂ hlive).mono (fun _ db₃ hdb₃ => ?_) fun _ _ => False.elim
      have hmax : max (idOf data) (l.blob + 1) = idOf data :=
        max_eq_left (not_lt.mp fun hcon => hle ((View.lt_succ_iff hb).mp hcon))
      refine ⟨idOf data, db₂, hcontinues₂, hn, ?_, fun hnone => ?_, hlock₂, by rw [hmax]; exact hdb₃⟩
      · by_cases hblob : v.blob l = none
        · exact Or.inl hblob
        · have hsome : (v.blob l).isSome := Option.isSome_iff_ne_none.mpr hblob
          exact Or.inr ((hmem l.blob hsome).resolve_left hnot).2
      · by_contra hcon
        have hlive' : db₂.state.isBlobDeleted l = false := by
          rw [DatabaseState.isBlobDeleted, (hcontinues₂.sees.tracks.live_of_cluster hn).2, hnone]
          rfl
        have hsome := hcontinues₂.sees.tracks.isSome_blob (Option.isSome_iff_ne_none.mpr hcon) hlive'
        exact hcon ((hmem l.blob hsome).resolve_left hnot).1

theorem ensures_createBlobAt (h : Sees missed t version v db) (hsettled : (View.of t).Settled v)
    (hmissed : (db.state.deletedBlobs.find l).isSome → (View.of t).blob l = none → missed l) :
    (createBlobAt server l data).Ensures db
      (fun _ db' => ∃ n, v.cluster l.segment l.cluster = some n ∧ l.blob ≤ maxBlobId ∧
        (v.blob l = none ∨ missed l) ∧ Sees missed t version
          ((v.setNextBlob l.segment l.cluster (max n (l.blob + 1))).setBlob l (some data)) db')
      fun _ db' => Sees missed t version v db' := by
  rw [createBlobAt]
  split
  · exact h
  refine ((ensures_checkIds _).mono (fun _ _ => id) fun _ db' hdb' => ?_).bind fun _ db' hdb' => ?_
  · rw [hdb'.1]
    exact h
  obtain ⟨rfl, hids⟩ := hdb'
  have hb : l.blob ≤ maxBlobId := hids (checkBlob l.blob) (by simp)
  have hc : l.cluster ≤ maxClusterId := hids (checkCluster l.cluster) (by simp)
  refine (ensures_createBlobInternalAt ha h hb hc).bind fun _ db₂ hdb₂ => ?_
  obtain ⟨n, db₁, hcontinues, hn, hnew, hfound, hlock, rfl⟩ := hdb₂
  have hlt : l.blob < max n (l.blob + 1) :=
    lt_of_lt_of_le ((View.lt_succ_iff hb).mpr le_rfl) (le_max_right _ _)
  have hlock' : (db₁.created l (max n (l.blob + 1))).lockType l = .write :=
    (DatabaseTransaction.lockType_created _ _ _ _).mpr (Or.inl rfl)
  have hlive : (db₁.created l (max n (l.blob + 1))).state.isBlobDeleted l = false :=
    (DatabaseTransaction.isBlobDeleted_created (hcontinues.sees.tracks.live_of_cluster hn).2 _ l).trans
      (if_pos rfl)
  refine (ensures_writeBlobInternal_of_locked hlock' hlive).mono (fun _ db₃ hdb₃ => ?_)
    fun _ _ => False.elim
  rw [hdb₃]
  refine ⟨n, hn, hb, hnew, hcontinues.sees.createBlob hn (le_max_left _ _)
    (max_le (hcontinues.sees.tracks.seen.cluster _ _ n hn).2 (View.succ_le hb)) hlt hfound
    (fun hsome => hmissed (by rwa [hcontinues.deletedBlobs] at hsome))
    (fun hnone => Or.inl (hsettled.cluster _ _ n hnone hn)) hlock⟩

/-! ### Deleting -/

/-- A blob that is deleted was there, and is gone from the view. -/
theorem ensures_deleteBlob (h : Sees missed t version v db) (hl : l.blob ≤ maxBlobId) :
    (deleteBlob server l).Ensures db
      (fun _ db' => (v.blob l).isSome ∧ Sees missed t version (v.setBlob l none) db')
      fun _ db' => Sees missed t version v db' := by
  refine ((ensures_ensureWriteLock ha h).mono (fun _ _ => id) fun _ db' hdb' => ?_).bind
    fun _ db₁ hdb₁ => ?_
  · rw [hdb']
    exact h
  refine ((ensures_ensureWriteLock ha hdb₁.1.sees).mono (fun _ _ => id) fun _ db' hdb' => ?_).bind
    fun _ db₂ hdb₂ => ?_
  · rw [hdb']
    exact hdb₁.1.sees
  obtain ⟨hcontinues, hlock⟩ := hdb₂
  refine (ensures_ensureBlobNotDeleted.mono (fun _ _ => id) fun _ db' hdb' => ?_).bind
    fun _ db₃ hdb₃ => ?_
  · rw [hdb'.1]
    exact hcontinues.sees
  obtain ⟨rfl, hlive⟩ := hdb₃
  have hsome := (hcontinues.sees.locked l hlock hlive).isSome_blob hl
  exact ⟨hsome, hcontinues.sees.deleteBlob hl hsome⟩

/-- A cluster that is deleted was there, and is gone from the view with its blobs. -/
theorem ensures_deleteCluster (h : Sees missed t version v db) (hc : c ≤ maxClusterId) :
    (deleteCluster server s c).Ensures db
      (fun _ db' => (v.cluster s c).isSome ∧ Sees missed t version (v.deleteCluster s c) db')
      fun _ db' => Sees missed t version v db' := by
  have hdelete : ∀ db₁, Sees missed t version v db₁ →
      db₁.lockType ⟨s, c, clusterDeleteId⟩ = .write → Ensures (do
        ensureClusterNotDeleted s c
        note fun state => state.deleteCluster s c
        modify fun db =>
          { db with cache := db.cache.filterKeys fun l => !(l.segment = s && l.cluster = c) } :
            Access Unit) db₁
        (fun _ db' => (v.cluster s c).isSome ∧ Sees missed t version (v.deleteCluster s c) db')
        fun _ db' => Sees missed t version v db' := fun db₁ h₁ hlock => by
    refine (ensures_ensureClusterNotDeleted.mono (fun _ _ => id) fun _ db' hdb' => ?_).bind
      fun _ db₂ hdb₂ => ?_
    · rw [hdb'.1]
      exact h₁
    obtain ⟨rfl, hlive⟩ := hdb₂
    have hlive' : db₂.state.isBlobDeleted ⟨s, c, clusterDeleteId⟩ = false :=
      (h₁.tracks.isBlobDeleted_of_lt (show maxBlobId < clusterDeleteId by decide)).trans hlive
    have hsome := (h₁.locked _ hlock hlive').isSome_cluster h₁.tracks.seen rfl hc
    obtain ⟨n, hn⟩ := Option.isSome_iff_exists.mp hsome
    exact ⟨hsome, h₁.deleteCluster hc hn⟩
  change Ensures (get >>= fun db => _) db _ _
  rw [ensures_bind, ensures_get]
  split
  · refine ((ensures_writeLockNoContent ha h).mono (fun _ _ => id) fun _ db' hdb' => ?_).bind
      fun _ db₁ hdb₁ => ?_
    · rw [hdb']
      exact h
    obtain ⟨hcontinues, hlock, -, hl⟩ := hdb₁
    have hcluster := (View.has_of hl).isSome_cluster h.tracks.found rfl hc
    obtain ⟨n, hn⟩ := Option.isSome_iff_exists.mp hcluster
    obtain ⟨k, hk, -⟩ := h.tracks.found.exists_segment hn
    have hacquired := hcontinues.sees.acquired (l := ⟨s, clusterListId, blobListId⟩)
      (hcontinues.sees.tracks.has_of_found (.clusterList (by rw [hk]; rfl)))
    rw [ensures_bind, acquiredLock, ensures_modify]
    exact hdelete _ hacquired.sees (hacquired.locked _ hlock)
  · next hlock => exact hdelete db h (not_not.mp hlock)

/-- A segment that is deleted was there, and is gone from the view with all that is in it. -/
theorem ensures_deleteSegment (h : Sees missed t version v db) : (deleteSegment server s).Ensures db
    (fun _ db' => (v.segment s).isSome ∧ Sees missed t version (v.deleteSegment s) db')
    fun _ db' => Sees missed t version v db' := by
  have hdelete : ∀ db₁, Sees missed t version v db₁ →
      db₁.lockType ⟨s, segmentDeleteId, clusterDeleteId⟩ = .write → Ensures (do
        ensureSegmentNotDeleted s
        note fun state => state.deleteSegment s
        modify fun db => { db with cache := db.cache.filterKeys fun l => !(l.segment = s) } :
          Access Unit) db₁
        (fun _ db' => (v.segment s).isSome ∧ Sees missed t version (v.deleteSegment s) db')
        fun _ db' => Sees missed t version v db' := fun db₁ h₁ hlock => by
    refine (ensures_ensureSegmentNotDeleted.mono (fun _ _ => id) fun _ db' hdb' => ?_).bind
      fun _ db₂ hdb₂ => ?_
    · rw [hdb'.1]
      exact h₁
    obtain ⟨rfl, hlive⟩ := hdb₂
    have hlive' : db₂.state.isBlobDeleted ⟨s, segmentDeleteId, clusterDeleteId⟩ = false :=
      (h₁.tracks.isBlobDeleted_of_lt (show maxBlobId < clusterDeleteId by decide)).trans
        ((h₁.tracks.isClusterDeleted_of_lt (show maxClusterId < segmentDeleteId by decide)).trans hlive)
    have hsome := (h₁.locked _ hlock hlive').isSome_segment h₁.tracks.seen rfl rfl
    obtain ⟨n, hn⟩ := Option.isSome_iff_exists.mp hsome
    exact ⟨hsome, h₁.deleteSegment (h₁.tracks.seen.segment_le hn) hn⟩
  change Ensures (get >>= fun db => _) db _ _
  rw [ensures_bind, ensures_get]
  split
  · refine ((ensures_writeLockNoContent ha h).mono (fun _ _ => id) fun _ db' hdb' => ?_).bind
      fun _ db₁ hdb₁ => ?_
    · rw [hdb']
      exact h
    obtain ⟨hcontinues, hlock, -, -⟩ := hdb₁
    have hacquired := hcontinues.sees.acquired (l := ⟨segmentListId, clusterListId, blobListId⟩)
      fun _ => .segmentList
    rw [ensures_bind, acquiredLock, ensures_modify]
    exact hdelete _ hacquired.sees (hacquired.locked _ hlock)
  · next hlock => exact hdelete db h (not_not.mp hlock)

end

/-! ### Dirty reads -/

/-- A read without a lock may see anything, and keeps what the transaction sees. -/
theorem ensures_readBlob_none (h : Sees missed t version v db) : (readBlob server l .none).Ensures db
    (fun _ db' => Sees missed t version v db') fun _ db' => Sees missed t version v db' := by
  refine ((ensures_checkIds _).mono (fun _ _ => id) fun _ db' hdb' => ?_).bind fun _ db' hdb' => ?_
  · rw [hdb'.1]
    exact h
  obtain ⟨rfl, -⟩ := hdb'
  refine ensures_readBlobInternal_none.mono (fun _ db'' hdb'' => ?_) fun _ db'' hdb'' => ?_
  all_goals
    rw [hdb'']
    exact h

theorem ensures_readBlobs_none {ls : List BlobLocation} (h : Sees missed t version v db) :
    (readBlobs server ls .none).Ensures db
      (fun _ db' => Sees missed t version v db') fun _ db' => Sees missed t version v db' := by
  rw [readBlobs]
  split
  · exact h
  have hcheck : Ensures (ls.forM fun l =>
      checkIds [checkSegment l.segment, checkCluster l.cluster, checkBlob l.blob]) db
      (fun _ db' => db' = db ∧ ∀ l ∈ ls, True) fun _ db' => Sees missed t version v db' := by
    refine Ensures.forM rfl fun l _ db' hdb' => (ensures_checkIds _).mono (fun _ db'' hdb'' => ?_)
      fun _ db'' hdb'' => ?_
    · exact ⟨hdb''.1.trans hdb', trivial⟩
    · rw [hdb''.1, hdb']
      exact h
  refine hcheck.bind fun _ db' hdb' => ?_
  obtain ⟨rfl, -⟩ := hdb'
  rw [ensures_bind, ensures_get]
  split
  · exact h
  rw [if_pos rfl]
  split
  · exact h
  · split <;> exact h

theorem ensures_getAllBlobs_none (h : Sees missed t version v db) :
    (getAllBlobs server s c .none).Ensures db
      (fun _ db' => Sees missed t version v db') fun _ db' => Sees missed t version v db' := by
  refine ((ensures_checkIds _).mono (fun _ _ => id) fun _ db' hdb' => ?_).bind fun _ db' hdb' => ?_
  · rw [hdb'.1]
    exact h
  obtain ⟨rfl, -⟩ := hdb'
  refine (ensures_readBlobInternal_none.mono (fun _ _ => id) fun _ db'' hdb'' => ?_).bind
    fun _ db'' hdb'' => ?_
  all_goals
    rw [hdb'']
    exact h

theorem ensures_getAllClusters_none (h : Sees missed t version v db) :
    (getAllClusters server s .none).Ensures db
      (fun _ db' => Sees missed t version v db') fun _ db' => Sees missed t version v db' := by
  refine ((ensures_checkIds _).mono (fun _ _ => id) fun _ db' hdb' => ?_).bind fun _ db' hdb' => ?_
  · rw [hdb'.1]
    exact h
  obtain ⟨rfl, -⟩ := hdb'
  refine (ensures_readBlobInternal_none.mono (fun _ _ => id) fun _ db'' hdb'' => ?_).bind
    fun _ db'' hdb'' => ?_
  all_goals
    rw [hdb'']
    exact h

theorem ensures_getAllSegments_none (h : Sees missed t version v db) :
    (getAllSegments server .none).Ensures db
      (fun _ db' => Sees missed t version v db') fun _ db' => Sees missed t version v db' := by
  refine (ensures_readBlobInternal_none.mono (fun _ _ => id) fun _ db'' hdb'' => ?_).bind
    fun _ db'' hdb'' => ?_
  all_goals
    rw [hdb'']
    exact h

end Access

/-! ### All calls -/

/-- What the library relies on: only ids of blobs and clusters are deleted. A blob that the transaction
created and deleted may be `missed` once it is created again at its old location. -/
def Call.Allowed (missed : BlobLocation → Prop) (t : DbTree μ 3) (db : DatabaseTransaction) :
    Call → Prop
  | .createBlobAt l _ =>
    (db.state.deletedBlobs.find l).isSome → (View.of t).blob l = none → missed l
  | .deleteBlob l => l.blob ≤ maxBlobId
  | .deleteCluster _ c => c ≤ maxClusterId
  | _ => True

open DatabaseTransaction (Sees)
open Access

/-- A call that succeeds does to what the client sees what it means, one that fails nothing. -/
theorem ensures_perform (ha : Answers t version server) (h : Sees missed t version v db)
    (hsettled : (View.of t).Settled v) {call : Call} (hallowed : call.Allowed missed t db) :
    (call.perform server).Ensures db
      (fun reply db' => ∃ v', v.Does missed call reply v' ∧ Sees missed t version v' db')
      fun _ db' => Sees missed t version v db' := by
  cases call with
  | readBlob l lock =>
    have hlocked : ∀ lock : Lock, lock.mode = .read ∨ lock.mode = .write →
        (Call.perform server (.readBlob l lock)).Ensures db
          (fun reply db' => ∃ v', v.Does missed (.readBlob l lock) reply v' ∧
            Sees missed t version v' db')
          fun _ db' => Sees missed t version v db' := fun lock hlock =>
      (ensures_readBlob ha h hlock).bind fun _ _ h' => ⟨v, .readBlob fun _ => h'.1, h'.2⟩
    cases lock with
    | none =>
      exact (ensures_readBlob_none h).bind fun _ _ h' => ⟨v, .readBlob fun hne => absurd rfl hne, h'⟩
    | read => exact hlocked .read (Or.inl rfl)
    | write => exact hlocked .write (Or.inr rfl)
  | readBlobs ls lock =>
    have hlocked : ∀ lock : Lock, lock.mode = .read ∨ lock.mode = .write →
        (Call.perform server (.readBlobs ls lock)).Ensures db
          (fun reply db' => ∃ v', v.Does missed (.readBlobs ls lock) reply v' ∧
            Sees missed t version v' db')
          fun _ db' => Sees missed t version v db' := fun lock hlock =>
      (ensures_readBlobs ha h hlock).bind fun _ _ h' => ⟨v, .readBlobs fun _ => h'.1, h'.2⟩
    cases lock with
    | none =>
      exact (ensures_readBlobs_none h).bind fun _ _ h' => ⟨v, .readBlobs fun hne => absurd rfl hne, h'⟩
    | read => exact hlocked .read (Or.inl rfl)
    | write => exact hlocked .write (Or.inr rfl)
  | writeBlob l data => exact (ensures_writeBlob ha h).bind fun _ _ h' => ⟨_, .writeBlob h'.1, h'.2⟩
  | writeBlobs es => exact (ensures_writeBlobs ha h).bind fun _ _ h' => ⟨_, .writeBlobs h'.1, h'.2⟩
  | createBlob s c data =>
    exact (ensures_createBlob_of_sees ha h).bind fun _ _ h' => ⟨_, .createBlob h'.1 h'.2.1, h'.2.2⟩
  | createBlobAt l data =>
    refine (ensures_createBlobAt ha h hsettled hallowed).bind fun _ _ h' => ?_
    obtain ⟨n, hn, hb, hnew, h'⟩ := h'
    exact ⟨_, .createBlobAt hn hb hnew, h'⟩
  | createCluster s =>
    exact (ensures_createCluster_of_sees ha h).bind fun _ _ h' =>
      ⟨_, .createCluster h'.1 h'.2.1, h'.2.2⟩
  | createSegment =>
    refine (ensures_createSegment ha h).bind fun _ _ h' => ?_
    obtain ⟨rfl, hs, h'⟩ := h'
    exact ⟨_, .createSegment hs, h'⟩
  | deleteBlob l =>
    exact (ensures_deleteBlob ha h hallowed).bind fun _ _ h' => ⟨_, .deleteBlob h'.1, h'.2⟩
  | deleteCluster s c =>
    exact (ensures_deleteCluster ha h hallowed).bind fun _ _ h' => ⟨_, .deleteCluster h'.1, h'.2⟩
  | deleteSegment s =>
    exact (ensures_deleteSegment ha h).bind fun _ _ h' => ⟨_, .deleteSegment h'.1, h'.2⟩
  | getAllBlobs s c lock =>
    have hlocked : ∀ lock : Lock, lock.mode = .read ∨ lock.mode = .write →
        (Call.perform server (.getAllBlobs s c lock)).Ensures db
          (fun reply db' => ∃ v', v.Does missed (.getAllBlobs s c lock) reply v' ∧
            Sees missed t version v' db')
          fun _ db' => Sees missed t version v db' := fun lock hlock =>
      (ensures_getAllBlobs ha h hlock).bind fun _ _ h' => ⟨v, .getAllBlobs fun _ => ⟨h'.2.1, h'.2.2.1,
        fun b hb => (h'.2.2.2 b hb).imp_right And.right⟩, h'.1.sees⟩
    cases lock with
    | none =>
      exact (ensures_getAllBlobs_none h).bind fun _ _ h' =>
        ⟨v, .getAllBlobs fun hne => absurd rfl hne, h'⟩
    | read => exact hlocked .read (Or.inl rfl)
    | write => exact hlocked .write (Or.inr rfl)
  | getAllClusters s lock =>
    have hlocked : ∀ lock : Lock, lock.mode = .read ∨ lock.mode = .write →
        (Call.perform server (.getAllClusters s lock)).Ensures db
          (fun reply db' => ∃ v', v.Does missed (.getAllClusters s lock) reply v' ∧
            Sees missed t version v' db')
          fun _ db' => Sees missed t version v db' := fun lock hlock =>
      (ensures_getAllClusters ha h hlock).bind fun _ _ h' => ⟨v, .getAllClusters fun _ => h'.1, h'.2⟩
    cases lock with
    | none =>
      exact (ensures_getAllClusters_none h).bind fun _ _ h' =>
        ⟨v, .getAllClusters fun hne => absurd rfl hne, h'⟩
    | read => exact hlocked .read (Or.inl rfl)
    | write => exact hlocked .write (Or.inr rfl)
  | getAllSegments lock =>
    have hlocked : ∀ lock : Lock, lock.mode = .read ∨ lock.mode = .write →
        (Call.perform server (.getAllSegments lock)).Ensures db
          (fun reply db' => ∃ v', v.Does missed (.getAllSegments lock) reply v' ∧
            Sees missed t version v' db')
          fun _ db' => Sees missed t version v db' := fun lock hlock =>
      (ensures_getAllSegments ha h hlock).bind fun _ _ h' => ⟨v, .getAllSegments fun _ => h'.1, h'.2⟩
    cases lock with
    | none =>
      exact (ensures_getAllSegments_none h).bind fun _ _ h' =>
        ⟨v, .getAllSegments fun hne => absurd rfl hne, h'⟩
    | read => exact hlocked .read (Or.inl rfl)
    | write => exact hlocked .write (Or.inr rfl)

end ClientLib

end BlobsDb
