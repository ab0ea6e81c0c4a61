import BlobsDb.Server.Accepted
import BlobsDb.Server.Accepting
import BlobsDb.Server.Locations

/-!
# What a commit is granted

The entries of a commit that is accepted have passed one after another (`Passes`). What validation
has noted in the end is what the commit creates, so that the locks that are granted implicitly,
less those that are given up with what the commit deletes, are those of the locations that the
database has after the commit and did not have before.
-/

namespace BlobsDb

open DbTree (SegmentCreated ClusterCreated HasCluster Allowed BelowNextFree HasLocation HasBlob
  Admissible Uses Adds)

/-- The locks of all ranges are what is in them, each once, without those the client has. -/
theorem BlobCreationRanges.Sound.implicitLocks_spec {t : Tree 3} {us : List BlobData}
    {S : BlobLocation → Prop} {b : BlobCreationRanges} (h : Sound t us S b)
    (own : BlobLocation → Bool) : (b.implicitLocks own).Nodup ∧ ∀ l, l ∈ b.implicitLocks own ↔
      b.encompasses l = true ∧ l.Regular ∧ own l = false := by
  refine ⟨List.nodup_flatMap.mpr ⟨fun r hr => (h.kinds r hr).implicitLocks_spec.1.filter _, ?_⟩,
    fun l => ?_⟩
  · refine (List.Pairwise.and_mem.mp h.apart).imp fun {r r'} hr l hl hl' => ?_
    obtain ⟨hr, hr', hapart⟩ := hr
    have h1 := (((h.kinds r hr).implicitLocks_spec.2 l).mp (List.mem_filter.mp hl).1).1
    have h2 := (((h.kinds r' hr').implicitLocks_spec.2 l).mp (List.mem_filter.mp hl').1).1
    rw [hapart l h1] at h2
    cases h2
  · rw [implicitLocks, List.mem_flatMap, BlobCreationRanges.encompasses_iff]
    constructor
    · rintro ⟨r, hr, hl⟩
      obtain ⟨hl, ho⟩ := List.mem_filter.mp hl
      obtain ⟨hin, hregular⟩ := ((h.kinds r hr).implicitLocks_spec.2 l).mp hl
      exact ⟨⟨r, hr, hin⟩, hregular, by simpa using ho⟩
    · rintro ⟨⟨r, hr, hin⟩, hregular, ho⟩
      exact ⟨r, hr, List.mem_filter.mpr
        ⟨((h.kinds r hr).implicitLocks_spec.2 l).mpr ⟨hin, hregular⟩, by simpa using ho⟩⟩

/-- What is there was not deleted, if no location is written twice. -/
theorem DbTree.Admissible.not_deletes {μ : Type} {m : μ} {t : DbTree μ 3} {us : List BlobData}
    {l : BlobLocation} (h : Admissible t us) (hrange : ∀ u ∈ us, u.InRange)
    (hn : (us.map BlobData.toBlobLocation).Nodup) (hl : HasLocation (updates m us t) l)
    (ht : ¬HasLocation t l) : ∀ u ∈ us, ¬u.Deletes l := by
  intro u hu hdel
  have hcopied : u.CopiesCluster → u.cluster ≤ maxClusterId ∧
      (u.blob = nextFreeBlobId ∨ u.blob ≤ maxBlobId) := fun hc => by
    have hcases := (((hrange u hu).resolve_left hc.1.1).2.resolve_left hc.2.1).resolve_left hc.1.2
    exact ⟨hcases.1, hcases.2.imp_right fun hb => hb.resolve_left hc.2.2⟩
  -- a deletion of the segment, of the cluster, or of the location itself
  have hsegment : ∀ s, (∃ x, (updates m us t).getSegment s = some x) → ¬u.DeletesSegment s :=
    fun s ⟨x, hx⟩ hd => by
      rw [h.getSegment_of_deletes ⟨u, hu, hd⟩] at hx
      cases hx
  have hcluster : ∀ s c, (∃ x, (updates m us t).getCluster s c = some x) → ¬u.DeletesCluster s c :=
    fun s c ⟨x, hx⟩ hd => by
      rw [h.getCluster_of_deletes ⟨u, hu, hd⟩] at hx
      cases hx
  rcases hdel with hd | hd
  · cases hl with
    | nextFreeSegmentId => exact ht .nextFreeSegmentId
    | segmentList => exact ht .segmentList
    | nextFreeClusterId hs =>
      rcases hd with hd | ⟨-, hn, -, -, hc⟩
      · exact hsegment _ (Option.isSome_iff_exists.mp hs) hd
      · exact hn hc
    | segmentDelete hs =>
      rcases hd with hd | ⟨hcopies, -, -, -, hc⟩
      · exact hsegment _ (Option.isSome_iff_exists.mp hs) hd
      · exact hcopies.2 hc
    | clusterList hs =>
      rcases hd with hd | ⟨hcopies, hn, -, -, hc⟩
      · exact hsegment _ (Option.isSome_iff_exists.mp hs) hd
      · have hcases := ((hrange u hu).resolve_left hcopies.1).2.resolve_left hn
        have hle := (hcases.resolve_left hcopies.2).1
        rw [show u.cluster = clusterListId from hc] at hle
        exact absurd hle (by decide)
    | nextFreeBlobId hc => exact hcluster _ _ (Option.isSome_iff_exists.mp hc) hd
    | clusterDelete hc => exact hcluster _ _ (Option.isSome_iff_exists.mp hc) hd
    | blobList hc => exact hcluster _ _ (Option.isSome_iff_exists.mp hc) hd
    | blob hc => exact hcluster _ _ ⟨_, hc⟩ hd
  · obtain ⟨hcopies, hb, -, hloc⟩ := id hd
    obtain ⟨hc, hle⟩ := hcopied hcopies
    replace hle := hle.resolve_left hb
    rw [show u.cluster = l.cluster from congrArg BlobLocation.cluster hloc] at hc
    rw [show u.blob = l.blob from congrArg BlobLocation.blob hloc] at hle
    cases hl with
    | nextFreeSegmentId => exact ht .nextFreeSegmentId
    | segmentList => exact ht .segmentList
    | nextFreeClusterId => exact absurd hc (show ¬nextFreeClusterId ≤ maxClusterId by decide)
    | segmentDelete => exact absurd hc (show ¬segmentDeleteId ≤ maxClusterId by decide)
    | clusterList => exact absurd hc (show ¬clusterListId ≤ maxClusterId by decide)
    | nextFreeBlobId => exact absurd hle (show ¬nextFreeBlobId ≤ maxBlobId by decide)
    | clusterDelete => exact absurd hle (show ¬clusterDeleteId ≤ maxBlobId by decide)
    | blobList => exact absurd hle (show ¬blobListId ≤ maxBlobId by decide)
    | blob hx hblob => exact h.not_hasBlob_of_deletes hn ⟨u, hu, hd⟩ ⟨_, hx, hblob⟩

namespace Validation

variable {own : BlobLocation → Bool} {t : Tree 3} {us us' : List BlobData} {u : BlobData}
  {v v' : Validation}

/-! ### The locks of an entry -/

/-- An entry that has passed after the entries `us` is at a place that can be written, and the
locations to lock for it that exist are locked, unless it deletes what `us` create. -/
structure Locked (own : BlobLocation → Bool) (t : Tree 3) (us : List BlobData) (u : BlobData) :
    Prop where
  nextSegment : u.WritesNextSegment →
    u.toBlobLocation = ⟨nextFreeSegmentId, nextFreeClusterId, nextFreeBlobId⟩
  nextCluster : ∀ s, u.WritesNextCluster s →
    u.toBlobLocation = ⟨s, nextFreeClusterId, nextFreeBlobId⟩
  segmentDelete : u.DeletesSegment u.segment → u.blob = clusterDeleteId
  locks : (u.blob = clusterDeleteId ∧ (u.cluster = segmentDeleteId ∧ SegmentCreated t us u.segment ∨
      u.cluster ≠ segmentDeleteId ∧ ClusterCreated t us u.segment u.cluster)) ∨
    ∃ ls, forEachLockForLocation t u.toBlobLocation = some ls ∧
      ∀ l ∈ ls, HasLocation t l → own l = true

theorem Ledger.locked_of_validateBlob {ws : List BlobLocation} (h : Ledger own t us ws v)
    (ht : BelowNextFree t) (hmem : u.toBlobLocation ∈ ws)
    (hu : Validation.validateBlob own t u v = some (.success, v')) : Locked own t us u := by
  unfold Validation.validateBlob at hu
  split at hu
  · cases hu
  · cases hu
  · next v₁ hlocks =>
    obtain ⟨h₁, -, hcases⟩ := h.allLocks ht hmem hlocks
    refine ⟨fun hs => ?_, fun s hc => ?_, fun hdel => ?_, hcases.imp_right fun hls => ?_⟩
    · have hs' : u.segment = nextFreeSegmentId := hs
      split_ifs at hu
      · cases hu
      · cases hu
      · unfold nextFreeSegmentIdWritten at hu
        split_ifs at hu with hplace
        · cases hu
        · rw [not_or, not_not, not_not] at hplace
          rw [← hs', ← hplace.1, ← hplace.2]
    · obtain ⟨hcopies, rfl, hcluster⟩ := hc
      have hb : u.blob = nextFreeBlobId := by
        by_contra hb
        unfold nextFreeClusterIdWritten at hu
        rw [if_pos hb] at hu
        split_ifs at hu <;> first | exact absurd ‹_› hcopies.1 | cases hu
      rw [← hcluster, ← hb]
    · by_contra hb
      rw [if_pos (show u.cluster = segmentDeleteId ∧ u.blob ≠ clusterDeleteId from
        ⟨hdel.2.2, hb⟩)] at hu
      split_ifs at hu
      · cases hu
      · cases hu
    · obtain ⟨ls, hls, hmay⟩ := hls
      exact ⟨ls, hls, fun l hl hlocation => (hmay l hl).resolve_right fun hin =>
        (h₁.sound.encompassed l hin).not_hasLocation ht hlocation⟩

/-! ### All entries -/

/-- What is known of entries that have passed, one after another. -/
structure Passes (own : BlobLocation → Bool) (t : Tree 3) (us : List BlobData)
    (v : Validation) : Prop where
  ledger : Ledger own t us (us.map BlobData.toBlobLocation) v
  allowed : ∀ us₁ u us₂, us = us₁ ++ u :: us₂ → Allowed t us₁ u ∧ Locked own t us₁ u
  loaded : ∀ u ∈ us, u.CopiesSegment → v.database.PathLoaded u.toBlobLocation
  owned : ∀ u ∈ us, ∀ l, u.Deletes l → HasLocation t l → own l = true
  noted : ∀ u ∈ us, u.CopiesCluster → u.blob ≠ nextFreeBlobId →
    own u.toBlobLocation = true ∨ v.created.encompasses u.toBlobLocation = true

namespace Passes

open NextFree (forall_mem_concat)

theorem nil {db : Database} (hinv : db.Inv t) (hown : ∀ l, own l = true → db.PathLoaded l) :
    Passes own t [] ⟨db, .empty⟩ where
  ledger :=
    { inv := hinv
      owned := hown
      loaded := fun _ hl => nomatch hl
      sound := .empty
      parent := fun s c hc => by simp [ClusterCreated, SegmentCreated] at hc
      segment := fun s hs => by simp [SegmentCreated] at hs
      cluster := fun s c hc => by simp [ClusterCreated, SegmentCreated] at hc
      committed := fun _ he => nomatch he }
  allowed us₁ u us₂ h := by simp at h
  loaded _ hu := nomatch hu
  owned _ hu := nomatch hu
  noted _ hu := nomatch hu

variable (h : Passes own t us v) (ht : BelowNextFree t)
  (hown : ∀ l, own l = true → HasLocation t l)

include h ht hown

theorem concat (hrange : u.InRange) (hclash : ∀ e ∈ us, ¬e.Clashes u)
    (hu : validateBlob own t u v = some (.success, v')) : Passes own t (us ++ [u]) v' := by
  obtain ⟨hpassed, hledger, hextends⟩ := h.ledger.validateBlob ht hown hrange hclash hu
  have hlocked : Locked own t us u := by
    have hsub : us.map BlobData.toBlobLocation ⊆ (us ++ [u]).map BlobData.toBlobLocation :=
      List.map_subset _ (List.subset_append_left _ _)
    refine (h.ledger.mono hsub).locked_of_validateBlob ht ?_ hu
    exact List.mem_map_of_mem (List.mem_append_right _ (List.mem_singleton_self u))
  have hgoes := goes_of_validateBlob hu
  have hloads : v.database.Loads v'.database := hgoes.loads h.ledger.inv.wf h.ledger.inv.path
  refine ⟨hledger, fun us₁ e us₂ heq => ?_, forall_mem_concat.mpr ⟨fun e he hcopies => ?_,
    hpassed.loaded⟩, forall_mem_concat.mpr ⟨h.owned, hpassed.owned⟩,
    forall_mem_concat.mpr ⟨fun e he hcopies hb => ?_, hpassed.noted⟩⟩
  · rcases List.eq_nil_or_concat' us₂ with rfl | ⟨us₂, e', rfl⟩
    · obtain ⟨rfl, heq'⟩ := List.append_inj' heq rfl
      exact List.singleton_inj.mp heq' ▸ ⟨hpassed.allowed, hlocked⟩
    · rw [← List.cons_append, ← List.append_assoc] at heq
      exact h.allowed us₁ e us₂ (List.append_inj' heq rfl).1
  · exact h.ledger.inv.pathLoaded hloads (h.loaded e he hcopies)
  · exact (h.noted e he hcopies hb).imp_right (hextends.encompasses _)

theorem validateBlobs (hrange : ∀ u ∈ us', u.InRange)
    (hclash : (us ++ us').Pairwise fun e u => ¬e.Clashes u)
    (hus : Validation.validateBlobs own t us' v = some (.success, v')) :
    Passes own t (us ++ us') v' := by
  induction us' generalizing us v with
  | nil =>
    cases hus
    rwa [List.append_nil]
  | cons u us' ih =>
    obtain ⟨hu, hrange⟩ := List.forall_mem_cons.mp hrange
    rw [List.append_cons] at hclash ⊢
    rw [Validation.validateBlobs] at hus
    split at hus
    · cases hus
    · next v₁ hv₁ =>
      have hfirst := (List.pairwise_append.mp (List.pairwise_append.mp hclash).1).2.2
      exact ih (h.concat ht hown hu (fun e he => hfirst e he u (List.mem_singleton_self u)) hv₁)
        hrange hclash hus
    · next r hne _ =>
      exact (hne v' (Option.some.inj hus)).elim

theorem validateMessages {isMVCC : Bool} {ms : List TransactionCommit}
    (hrange : ∀ u ∈ ms.flatMap TransactionCommit.blobs, u.InRange)
    (hclash : (us ++ ms.flatMap TransactionCommit.blobs).Pairwise fun e u => ¬e.Clashes u)
    (hms : Validation.validateMessages own t isMVCC ms v = some (.success, v')) :
    Passes own t (us ++ ms.flatMap TransactionCommit.blobs) v' := by
  induction ms generalizing us v with
  | nil =>
    cases hms
    simpa using h
  | cons m ms ih =>
    rw [List.flatMap_cons] at hrange hclash ⊢
    rw [← List.append_assoc] at hclash ⊢
    rw [Validation.validateMessages] at hms
    split_ifs at hms
    · cases hms
    split at hms
    · cases hms
    · next v₁ hv₁ =>
      have hfirst := h.validateBlobs ht hown (fun u hu => hrange u (List.mem_append_left _ hu))
        (List.pairwise_append.mp hclash).1 hv₁
      exact ih hfirst (fun u hu => hrange u (List.mem_append_right _ hu)) hclash hms
    · next r hne _ =>
      exact (hne v' (Option.some.inj hms)).elim

omit ht hown in
theorem admissible (ht : BelowNextFree t) (hclash : us.Pairwise fun e u => ¬e.Clashes u) :
    Admissible t us := ⟨ht, fun us₁ u us₂ heq => (h.allowed us₁ u us₂ heq).1, hclash⟩

omit ht hown in
/-- What is noted as created is what the entries add. -/
theorem encompasses_iff_adds (hrange : ∀ u ∈ us, u.InRange)
    (hown : ∀ l, own l = true → HasLocation t l) {l : BlobLocation} (hl : ¬HasLocation t l) :
    v.created.encompasses l = true ∧ l.Regular ↔ Adds t us l := by
  have hledger := h.ledger
  constructor
  · rintro ⟨hin, hregular⟩
    have hcluster : l.cluster ≤ maxClusterId → l.OfCluster ∨ l.blob ≤ maxBlobId := fun hc =>
      (hregular.resolve_left fun hs => absurd hc (not_le.mpr hs.cluster_lt)).2
    cases hledger.sound.encompassed l hin with
    | first hs hc hcreated hb => exact .cluster hcreated (Or.inr hb)
    | reserved hs hc hcreated hb =>
      exact .cluster hcreated (Or.inl ((hcluster hc).resolve_right (not_le.mpr hb)))
    | reservedCluster hs hcreated hc =>
      exact .segment hcreated (hregular.resolve_right fun hle => absurd hle.1 (not_le.mpr hc))
    | blob hs hc hb _ _ _ hmem =>
      obtain ⟨u, hu, rfl⟩ := List.mem_map.mp hmem
      refine .blob u hu ⟨⟨fun h => ?_, fun h => ?_⟩, fun h => ?_, fun h => ?_⟩ (fun h => ?_) rfl
      · rw [show u.segment = nextFreeSegmentId from h] at hs
        exact absurd hs (by decide)
      · rw [show u.cluster = segmentDeleteId from h] at hc
        exact absurd hc (by decide)
      · rw [show u.cluster = nextFreeClusterId from h] at hc
        exact absurd hc (by decide)
      · rw [show u.blob = clusterDeleteId from h] at hb
        exact absurd hb (by decide)
      · rw [show u.blob = nextFreeBlobId from h] at hb
        exact absurd hb (by decide)
  · rintro (⟨hcreated, hspecial⟩ | ⟨hcreated, hspecial⟩ | ⟨u, hu, hcopies, hb, rfl⟩)
    · obtain ⟨-, -, hin⟩ := hledger.segment _ hcreated
      exact ⟨hin l (Or.inr ⟨rfl, hspecial.cluster_lt⟩), Or.inl hspecial⟩
    · obtain ⟨-, hc, -, hin⟩ := hledger.cluster _ _ hcreated
      refine ⟨hin l ⟨rfl, rfl, hspecial.symm.imp_right fun hs => hs.blob_lt⟩, Or.inr ⟨hc, ?_⟩⟩
      exact hspecial.imp_right fun hb => (le_of_eq hb).trans UInt32.zero_le
    · have hcases := (((hrange u hu).resolve_left hcopies.1.1).2.resolve_left
        hcopies.2.1).resolve_left hcopies.1.2
      refine ⟨(h.noted u hu hcopies hb).resolve_left fun ho => hl (hown _ ho), Or.inr ⟨hcases.1, ?_⟩⟩
      exact Or.inr ((hcases.2.resolve_left hb).resolve_left hcopies.2.2)

omit ht hown in
/-- What is granted implicitly and not deleted is what is there after the commit and was not there
before. -/
theorem mem_implicitLocks_iff {m : Mark} (hadm : Admissible t us) (hrange : ∀ u ∈ us, u.InRange)
    (hn : (us.map BlobData.toBlobLocation).Nodup) (huses : Uses t us)
    (hown : ∀ l, own l = true → HasLocation t l) {l : BlobLocation} :
    (l ∈ v.created.implicitLocks own ∧ ∀ u ∈ us, ¬u.Deletes l) ↔
      HasLocation (DbTree.updates m us t) l ∧ ¬HasLocation t l := by
  rw [(h.ledger.sound.implicitLocks_spec own).2]
  constructor
  · rintro ⟨⟨hin, hregular, -⟩, hd⟩
    have ht := (h.ledger.sound.encompassed l hin).not_hasLocation hadm.below
    have hadds := (h.encompasses_iff_adds hrange hown ht).mp ⟨hin, hregular⟩
    exact ⟨hadds.hasLocation hadm.below huses hd, ht⟩
  · rintro ⟨hl, ht⟩
    have hadds := (hadm.hasLocation hl).resolve_left ht
    obtain ⟨hin, hregular⟩ := (h.encompasses_iff_adds hrange hown ht).mpr hadds
    exact ⟨⟨hin, hregular, Bool.eq_false_iff.mpr fun ho => ht (hown l ho)⟩,
      hadm.not_deletes hrange hn hl ht⟩

omit ht hown in
/-- What the entries copy is loaded. -/
theorem copiesLoaded : v.database.CopiesLoaded us := by
  intro us₁ u us₂ heq
  have hu : u ∈ us := heq ▸ List.mem_append_right us₁ List.mem_cons_self
  exact ⟨fun hcopies => Or.inr (h.loaded u hu hcopies).1,
    fun hcopies => Or.inr (h.loaded u hu hcopies.1).2⟩

omit ht hown in
/-- The database after the commit. -/
theorem exists_commit (hadm : Admissible t us) {σ : Schedule} {r : CommitResult}
    (hc : v.database.Commits us σ r) : ∃ t', (v.database.applyToDatabase r σ).Inv t' ∧
      r.deleted = us.foldl Deleted.noted .empty ∧
      Tree.logical t' = DbTree.updates (v.database.commitId + 1) us (Tree.logical t) ∧
      BelowNextFree t' ∧
      ∀ m : Mark, ∀ l, HasLocation t' l ↔ HasLocation (DbTree.updates m us t) l := by
  obtain ⟨t', lost, hcommitted, hclean⟩ :=
    h.ledger.inv.commit hc.commitId hc.result hc.walks hc.endOffset
  obtain ⟨hlogical, -, -⟩ := hclean h.copiesLoaded
  -- the mark the entries of the commit leave in the tree
  let m₀ : Mark := { t.mark with commitId := v.database.commitId + 1 }
  have hupdates : Tree.logical t' = Tree.logical (DbTree.updates m₀ us t) :=
    hlogical.trans (DbTree.changeMark_updates Mark.commitId m₀ us t).symm
  refine ⟨t', hcommitted.inv, hcommitted.deleted, hlogical, ?_, fun m l => ?_⟩
  · rw [← DbTree.belowNextFree_changeMark Mark.commitId,
      show DbTree.changeMark Mark.commitId t' = _ from hupdates]
    exact (DbTree.belowNextFree_changeMark Mark.commitId).mpr hadm.after.below
  · rw [← DbTree.hasLocation_changeMark Mark.commitId,
      show DbTree.changeMark Mark.commitId t' = _ from hupdates]
    exact (DbTree.hasLocation_changeMark Mark.commitId).trans
      (DbTree.hasLocation_updates_congr m₀ m)

end Passes

end Validation

/-- The entries of a commit are in range, and none clashes with one before it. -/
def BlobData.Orderly (us : List BlobData) : Prop :=
  (∀ u ∈ us, u.InRange) ∧ us.Pairwise fun e u => ¬e.Clashes u

/-- The entries of an orderly commit that is accepted have passed. -/
theorem Database.Inv.passes {db db' : Database} {t : Tree 3} {own : BlobLocation → Bool}
    {isMVCC : Bool} {ms : List TransactionCommit} {ls : List BlobLocation} (hinv : db.Inv t)
    (ht : BelowNextFree t) (hown : ∀ l, own l = true → HasLocation t l ∧ db.PathLoaded l)
    (horderly : BlobData.Orderly (ms.flatMap TransactionCommit.blobs))
    (h : db.validateCommitMessages own isMVCC ms = some (.success, db', ls)) :
    ∃ created : BlobCreationRanges, ls = created.implicitLocks own ∧
      Validation.Passes own t (ms.flatMap TransactionCommit.blobs) ⟨db', created⟩ := by
  unfold validateCommitMessages at h
  rw [hinv.view] at h
  dsimp only at h
  split at h
  · cases h
  · next result v hv =>
    cases h
    have hnil := Validation.Passes.nil hinv fun l hl => (hown l hl).2
    exact ⟨v.created, rfl, hnil.validateMessages ht (fun l hl => (hown l hl).1) horderly.1
      horderly.2 hv⟩

end BlobsDb
