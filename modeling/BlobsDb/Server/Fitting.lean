import BlobsDb.Server.Contents

/-!
# Answers that fit

A commit may write a content that is too long for a message of an answer: the size of a content is
never compared with `MaxBlobSize`. The loop that fills the messages then goes on forever. A read of
what exists is answered if and only if each content that is sent for it fits into a message of its
own (`Shows.exists_buildBlobsReadResponse_iff`), which can be told from the tree it reads.
-/

namespace BlobsDb

/-- The answer to a read of a tree fits: each content it asks for fits into a message of its own,
unless the client has it. -/
def Tree.AnswerFits (t : Tree 3) (m : BlobsRead) : Prop :=
  m.lockMode ≠ .delete →
    (∀ a ∈ m.blobs, (Database.requested m.lockMode t a.toBlobLocation).2 = none) →
    ∀ a ∈ m.blobs, ∀ k v, t.readContent k a.toBlobLocation = some v →
      a.cacheCommitId = v.commitId ∨
        BlobsReadResponse.fitsIntoMessage v.content.length 1 = true

/-- What exists can be read. -/
theorem Tree.exists_readContent {t : Tree 3} {mode : LockMode} {l : BlobLocation} (k : CommitId)
    (hmode : mode ≠ .delete) (h : (Database.requested mode t l).2 = none) :
    ∃ v, t.readContent k l = some v := by
  unfold Database.requested at h
  unfold Tree.readContent
  rw [if_neg fun h => hmode h.2.2, if_neg fun h => hmode h.2] at h
  by_cases hlist : l.blob = blobListId
  · rw [if_pos hlist] at h ⊢
    split_ifs at h ⊢
    · exact ⟨_, rfl⟩
    · next hs =>
      obtain ⟨s, hs⟩ := Option.isSome_iff_exists.mp hs
      rw [hs]
      exact ⟨_, rfl⟩
    · next hc =>
      obtain ⟨c, hc⟩ := Option.isSome_iff_exists.mp hc
      rw [hc]
      exact ⟨_, rfl⟩
  · rw [if_neg hlist] at h ⊢
    have hblob : t.hasBlob l = true := by
      by_contra hblob
      rw [if_neg hblob] at h
      cases h
    unfold DbTree.hasBlob at hblob
    by_cases hnext : l.segment = nextFreeSegmentId ∧ l.cluster = nextFreeClusterId ∧
        l.blob = nextFreeBlobId
    · rw [if_pos hnext]
      exact ⟨_, rfl⟩
    rw [if_neg hnext] at hblob ⊢
    split at hblob
    · cases hblob
    · next s hs =>
      by_cases hfree : l.cluster = nextFreeClusterId ∧ l.blob = nextFreeBlobId
      · rw [if_pos hfree, hs]
        exact ⟨_, rfl⟩
      rw [if_neg hfree] at hblob ⊢
      split at hblob
      · cases hblob
      · next c hc =>
        have hcluster : t.getCluster l.segment l.cluster = some c := by
          rw [DbTree.getCluster, hs]
          exact hc
        rw [hcluster]
        by_cases hfirst : l.blob = nextFreeBlobId
        · rw [if_pos hfirst]
          exact ⟨_, rfl⟩
        · rw [decide_eq_false hfirst, Bool.false_or] at hblob
          obtain ⟨b, hb⟩ := Option.isSome_iff_exists.mp hblob
          rw [if_neg hfirst, Option.bind_some, hb]
          exact ⟨_, rfl⟩

/-- Only the version of the next free segment id is not part of the tree, and that id always
fits. -/
theorem Tree.readContent_congr {t : Tree 3} {k : CommitId} (k' : CommitId) {l : BlobLocation}
    {v : VersionedContent} (h : t.readContent k l = some v) :
    t.readContent k' l = some v ∨ v.content.length = 4 := by
  unfold Tree.readContent at h ⊢
  by_cases hlist : l.blob = blobListId
  · rw [if_pos hlist] at h ⊢
    exact Or.inl h
  rw [if_neg hlist] at h ⊢
  by_cases hnext : l.segment = nextFreeSegmentId ∧ l.cluster = nextFreeClusterId ∧
      l.blob = nextFreeBlobId
  · rw [if_pos hnext] at h
    obtain rfl := Option.some.inj h
    exact Or.inr (length_leBytes _ _)
  · rw [if_neg hnext] at h ⊢
    exact Or.inl h

namespace Database

variable {db db' : Database} {p : Pointer} {t : Tree 3} {k : CommitId} {m : BlobsRead}

/-- A read of what exists is answered if and only if the answer fits; otherwise the loop that fills
the messages goes on forever. -/
theorem Shows.exists_buildBlobsReadResponse_iff (h : db.Shows p t k)
    (hexist : ensureRequestedBlobsExist p t m.lockMode m.blobs db = some (none, db'))
    {db'' : Database} (hl : db'.Loads db'') :
    (∃ rs, buildBlobsReadResponse db''.heap p m = some rs) ↔ t.AnswerFits m := by
  have hfound : ∀ a ∈ m.blobs, (requested m.lockMode t a.toBlobLocation).2 = none := fun a ha =>
    ((ensureRequestedBlobsExist_spec hexist).2.1 rfl a ha).1
  have hread : m.lockMode ≠ .delete → ∀ a ∈ m.blobs,
      db''.heap.readContent p a.toBlobLocation = t.readContent k a.toBlobLocation :=
    fun hmode a ha => h.readContent_eq hmode hexist ha hl
  obtain ⟨es, hes⟩ : ∃ es, db''.heap.answerBlobs p m.lockMode m.blobs = some es := by
    refine Heap.exists_answerBlobs fun a ha => ?_
    rw [Heap.answerBlob]
    split_ifs with hmode
    · rfl
    · obtain ⟨v, hv⟩ := Tree.exists_readContent k hmode (hfound a ha)
      rw [hread hmode a ha, hv]
      rfl
  -- messages can be built if and only if each entry fits one alone
  have hbuild : (∃ rs, buildBlobsReadResponse db''.heap p m = some rs) ↔ ∀ e ∈ es, FitsAlone e := by
    rw [buildBlobsReadResponse, hes]
    constructor
    · rintro ⟨rs, hrs⟩
      exact fitsAlone_of_buildResponses hrs
    · exact fun hall => exists_buildResponses hall le_rfl
  obtain ⟨hmap, hanswer⟩ := Heap.answerBlobs_eq_some hes
  rw [hbuild]
  constructor
  · intro hall hmode _ a ha k' v hv
    rw [← hmap] at ha
    obtain ⟨e, he, rfl⟩ := List.mem_map.mp ha
    -- the content depends on the version for the next free segment id only, which is short
    rcases Tree.readContent_congr k hv with hk | hlength
    · have := hanswer e he
      rw [Heap.answerBlob, if_neg hmode, hread hmode _ (hmap ▸ List.mem_map_of_mem he), hk] at this
      by_cases hcached : e.1.cacheCommitId = v.commitId
      · exact Or.inl hcached
      · have hfits := hall e he
        dsimp only at this
        rw [if_neg hcached, Option.some.injEq] at this
        rw [FitsAlone, ← this] at hfits
        exact Or.inr hfits
    · refine Or.inr (fitsIntoMessage_iff.mpr ?_)
      omega
  · intro hfits e he
    have := hanswer e he
    rw [Heap.answerBlob] at this
    have hnone : FitsAlone (e.1, none) := by
      rw [FitsAlone, fitsIntoMessage_iff]
      exact Nat.le_of_ble_eq_true rfl
    have he' : e.1 ∈ m.blobs := hmap ▸ List.mem_map_of_mem he
    split_ifs at this with hmode
    · rw [Option.some.injEq] at this
      rwa [FitsAlone, ← this]
    · obtain ⟨v, hv⟩ := Tree.exists_readContent k hmode (hfound e.1 he')
      rw [hread hmode _ he', hv] at this
      dsimp only at this
      rw [Option.some.injEq] at this
      split_ifs at this with hcached
      · rwa [FitsAlone, ← this]
      · rw [FitsAlone, ← this]
        exact (hfits hmode hfound e.1 he' k v hv).resolve_left hcached

end Database

end BlobsDb
