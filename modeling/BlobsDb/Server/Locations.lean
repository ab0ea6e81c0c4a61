import BlobsDb.Server.Ledger

/-!
# The locations after a commit

What is in the tree that the entries of a commit lead to was there before or is created by the
entries (`After.hasCluster`, `After.hasBlob`), and what was there or is written stays, unless one
of the entries deletes it.
-/

namespace BlobsDb

namespace DbTree

variable {μ : Type} {t t₁ : DbTree μ 3} {us : List BlobData} {u : BlobData} {s : SegmentId}
  {c : ClusterId} {b : BlobId} {l : BlobLocation} {m : μ}

/-- The blob exists. -/
def HasBlob (t : DbTree μ 3) (s : SegmentId) (c : ClusterId) (b : BlobId) : Prop :=
  ∃ x, t.getCluster s c = some x ∧ (x.children.find b).isSome

/-! ### One entry -/

/-- An entry that changes nothing in a segment. -/
theorem getSegment_update_of_not (h : u.segment = nextFreeSegmentId ∨ s ≠ u.segment) :
    (update m u t).getSegment s = t.getSegment s := by
  rw [getSegment_update, if_pos h]

theorem getCluster_update_of_not (h : u.segment = nextFreeSegmentId ∨ s ≠ u.segment) :
    (update m u t).getCluster s c = t.getCluster s c := by
  rw [getCluster, getCluster, getSegment_update_of_not h]

/-- A segment that is there after an entry was there before, or it is copied. -/
theorem isSome_getSegment_of_update (h : ((update m u t).getSegment s).isSome) :
    (t.getSegment s).isSome ∨ u.CopiesSegment ∧ u.segment = s := by
  rw [getSegment_update] at h
  split_ifs at h with hnot hdel
  · exact Or.inl h
  · cases h
  · rw [not_or, not_not] at hnot
    exact Or.inr ⟨⟨hnot.1, hdel⟩, hnot.2.symm⟩

/-- A cluster that is there after an entry was there before, or it is copied, or it is the first
cluster of a new segment. -/
theorem isSome_getCluster_of_update (h : ((update m u t).getCluster s c).isSome) :
    (t.getCluster s c).isSome ∨ u.CopiesCluster ∧ u.segment = s ∧ u.cluster = c ∨
      u.CopiesSegment ∧ u.segment = s ∧ t.getSegment s = none ∧ c = 0 := by
  by_cases hnot : u.segment = nextFreeSegmentId ∨ s ≠ u.segment
  · rw [getCluster_update_of_not hnot] at h
    exact Or.inl h
  rw [not_or, not_not] at hnot
  obtain ⟨hnext, rfl⟩ := hnot
  by_cases hdel : u.cluster = segmentDeleteId
  · rw [getCluster, getSegment_update, if_neg (by simp [hnext]), if_pos hdel] at h
    cases h
  have hcopies : u.CopiesSegment := ⟨hnext, hdel⟩
  rw [getCluster_update_of_copies hcopies, find_updateSegment] at h
  split_ifs at h with hother hgone
  · cases hs : t.getSegment u.segment with
    | none =>
      rw [hs, find_touch_none] at h
      split_ifs at h with hzero
      · exact Or.inr (Or.inr ⟨hcopies, rfl, rfl, hzero⟩)
      · cases h
    | some seg =>
      rw [hs, find_touch_some] at h
      left
      rw [getCluster, hs]
      exact h
  · cases h
  · rw [not_or, not_not] at hother
    exact Or.inr (Or.inl ⟨⟨hcopies, hother.1, hgone⟩, rfl, hother.2.symm⟩)

/-- What is in a cluster that an entry copies. -/
theorem getCluster_update_self (hu : u.CopiesCluster) :
    (update m u t).getCluster u.segment u.cluster = some (updateCluster m u
      (touch m ((touch m (t.getSegment u.segment)).children.find u.cluster))) := by
  rw [getCluster_update_of_copies hu.1, find_updateSegment, if_neg (by simp [hu.2.1]),
    if_neg hu.2.2]

/-- What is found in an object that is touched was there before, or the object is new. -/
theorem find_touch_of_some {n : ℕ} {o : Option (DbTree μ (n + 1))} {id : UInt32}
    {x : DbTree μ n} (h : (touch m o).children.find id = some x) :
    (∃ y, o = some y ∧ y.children.find id = some x) ∨ o = none ∧ id = 0 ∧ x = created m n := by
  cases o with
  | none =>
    rw [find_touch_none] at h
    split_ifs at h with hzero
    · exact Or.inr ⟨rfl, hzero, (Option.some.inj h).symm⟩
  | some y => exact Or.inl ⟨y, rfl, h⟩

/-- A blob that is there after an entry was there before, or it is the first blob of a new cluster,
or it is written. -/
theorem hasBlob_of_update (h : HasBlob (update m u t) s c b) :
    HasBlob t s c b ∨ t.getCluster s c = none ∧ b = 0 ∨
      u.CopiesCluster ∧ u.blob ≠ nextFreeBlobId ∧ u.toBlobLocation = ⟨s, c, b⟩ := by
  obtain ⟨x, hx, hb⟩ := h
  by_cases hnot : u.segment = nextFreeSegmentId ∨ s ≠ u.segment
  · rw [getCluster_update_of_not hnot] at hx
    exact Or.inl ⟨x, hx, hb⟩
  rw [not_or, not_not] at hnot
  obtain ⟨hnext, rfl⟩ := hnot
  by_cases hdel : u.cluster = segmentDeleteId
  · rw [getCluster, getSegment_update, if_neg (by simp [hnext]), if_pos hdel] at hx
    cases hx
  have hcopies : u.CopiesSegment := ⟨hnext, hdel⟩
  -- the clusters of the segment before its own entry is looked at
  have hfirst : ∀ y, (touch m (t.getSegment u.segment)).children.find c = some y →
      (y.children.find b).isSome → HasBlob t u.segment c b ∨
        t.getCluster u.segment c = none ∧ b = 0 := fun y hy hyb => by
    rcases find_touch_of_some hy with ⟨seg, hs, hfind⟩ | ⟨hs, -, rfl⟩
    · exact Or.inl ⟨y, getCluster_eq_some_iff.mpr ⟨seg, hs, hfind⟩, hyb⟩
    · have hnone : t.getCluster u.segment c = none := by rw [getCluster, hs]
      refine Or.inr ⟨hnone, ?_⟩
      obtain ⟨z, hz⟩ := Option.isSome_iff_exists.mp hyb
      exact (FlatMap.find_insert_empty_eq_some.mp hz).1
  rw [getCluster_update_of_copies hcopies, find_updateSegment] at hx
  split_ifs at hx with hother hgone
  · exact (hfirst x hx hb).imp_right Or.inl
  · rw [not_or, not_not] at hother
    obtain ⟨hn, rfl⟩ := hother
    obtain rfl := Option.some.inj hx
    rw [find_updateCluster] at hb
    split_ifs at hb with hblob
    · obtain ⟨z, hz⟩ := Option.isSome_iff_exists.mp hb
      rcases find_touch_of_some hz with ⟨y, hy, hyb⟩ | ⟨hnone, rfl, -⟩
      · exact (hfirst y hy (by rw [hyb]; rfl)).imp_right Or.inl
      · refine Or.inr (Or.inl ⟨?_, rfl⟩)
        cases hs : t.getSegment u.segment with
        | none => rw [getCluster, hs]
        | some seg =>
          rw [hs, find_touch_some] at hnone
          rw [getCluster, hs]
          exact hnone
    · rw [not_or, not_not] at hblob
      exact Or.inr (Or.inr ⟨⟨hcopies, hn, hgone⟩, hblob.1, by rw [hblob.2]⟩)

/-- A blob stays, unless an entry deletes it. -/
theorem HasBlob.update (h : HasBlob t s c b) (hd : ¬u.Deletes ⟨s, c, b⟩) :
    HasBlob (DbTree.update m u t) s c b := by
  obtain ⟨x, hx, hb⟩ := h
  obtain ⟨seg, hs, hfind⟩ := getCluster_eq_some_iff.mp hx
  by_cases hnot : u.segment = nextFreeSegmentId ∨ s ≠ u.segment
  · exact ⟨x, (getCluster_update_of_not hnot).trans hx, hb⟩
  rw [not_or, not_not] at hnot
  obtain ⟨hnext, rfl⟩ := hnot
  have hcopies : u.CopiesSegment := ⟨hnext, fun hdel => hd (Or.inl (Or.inl ⟨rfl, hnext, hdel⟩))⟩
  have hfirst : (touch m (t.getSegment u.segment)).children.find c = some x := by
    rw [hs]
    exact hfind
  by_cases hother : u.cluster = nextFreeClusterId ∨ c ≠ u.cluster
  · refine ⟨x, ?_, hb⟩
    rw [getCluster_update_of_copies hcopies, find_updateSegment, if_pos hother, hfirst]
  rw [not_or, not_not] at hother
  obtain ⟨hn, rfl⟩ := hother
  have hcopiesCluster : u.CopiesCluster := ⟨hcopies, hn, fun hdel =>
    hd (Or.inl (Or.inr ⟨hcopies, hn, hdel, rfl, rfl⟩))⟩
  refine ⟨_, getCluster_update_self hcopiesCluster, ?_⟩
  rw [hfirst, find_updateCluster]
  split_ifs with hblob
  · exact hb
  · rw [not_or, not_not] at hblob
    cases hdata : u.data with
    | none => exact absurd (Or.inr ⟨hcopiesCluster, hblob.1, hdata, by rw [hblob.2]⟩) hd
    | some data => rfl

/-- A blob that is written is there. -/
theorem hasBlob_update_self (hu : u.CopiesCluster) (hb : u.blob ≠ nextFreeBlobId)
    (hdata : u.data ≠ none) : HasBlob (update m u t) u.segment u.cluster u.blob := by
  refine ⟨_, getCluster_update_self hu, ?_⟩
  rw [find_updateCluster, if_neg (by simp [hb])]
  cases hd : u.data with
  | none => exact absurd hd hdata
  | some data => rfl

/-- A cluster that an entry creates has its first blob, unless this is deleted. -/
theorem hasBlob_update_zero (hnone : t.getCluster s c = none)
    (hsome : ((update m u t).getCluster s c).isSome) (hd : ¬u.Deletes ⟨s, c, 0⟩) :
    HasBlob (update m u t) s c 0 := by
  by_cases hnot : u.segment = nextFreeSegmentId ∨ s ≠ u.segment
  · rw [getCluster_update_of_not hnot, hnone] at hsome
    cases hsome
  rw [not_or, not_not] at hnot
  obtain ⟨hnext, rfl⟩ := hnot
  have hcopies : u.CopiesSegment := ⟨hnext, fun hdel => hd (Or.inl (Or.inl ⟨rfl, hnext, hdel⟩))⟩
  -- a cluster that is there when the segment is touched is new
  have hfirst : ∀ y, (touch m (t.getSegment u.segment)).children.find c = some y →
      (y.children.find 0).isSome := fun y hy => by
    rcases find_touch_of_some hy with ⟨seg, hs, hfind⟩ | ⟨-, -, rfl⟩
    · rw [getCluster_eq_some_iff.mpr ⟨seg, hs, hfind⟩] at hnone
      cases hnone
    · rfl
  obtain ⟨x, hx⟩ := Option.isSome_iff_exists.mp hsome
  by_cases hother : u.cluster = nextFreeClusterId ∨ c ≠ u.cluster
  · refine ⟨x, hx, hfirst x ?_⟩
    rwa [getCluster_update_of_copies hcopies, find_updateSegment, if_pos hother] at hx
  rw [not_or, not_not] at hother
  obtain ⟨hn, rfl⟩ := hother
  have hcopiesCluster : u.CopiesCluster := ⟨hcopies, hn, fun hdel =>
    hd (Or.inl (Or.inr ⟨hcopies, hn, hdel, rfl, rfl⟩))⟩
  refine ⟨_, getCluster_update_self hcopiesCluster, ?_⟩
  rw [find_updateCluster]
  split_ifs with hblob
  · cases hfind : (touch m (t.getSegment u.segment)).children.find u.cluster with
    | none => rfl
    | some y => exact hfirst y hfind
  · rw [not_or, not_not] at hblob
    cases hdata : u.data with
    | none => exact absurd (Or.inr ⟨hcopiesCluster, hblob.1, hdata, by rw [hblob.2]⟩) hd
    | some data => rfl

/-! ### What is there after the entries -/

/-- The segment exists or is created by the entries. -/
def HasSegment (t : DbTree μ 3) (us : List BlobData) (s : SegmentId) : Prop :=
  (t.getSegment s).isSome ∨ SegmentCreated t us s

/-- Clusters are created in segments that exist or are created. -/
def ParentsExist (t : DbTree μ 3) (us : List BlobData) : Prop :=
  ∀ s c, ClusterCreated t us s c → HasSegment t us s

theorem HasCluster.hasSegment (h : HasCluster t us s c) (hparent : ParentsExist t us) :
    HasSegment t us s := by
  rcases h with h | h
  · obtain ⟨x, hx⟩ := Option.isSome_iff_exists.mp h
    obtain ⟨seg, hs, -⟩ := getCluster_eq_some_iff.mp hx
    exact Or.inl (by rw [hs]; rfl)
  · exact hparent s c h

/-- An entry changes something in a segment that exists or is created. -/
theorem Allowed.hasSegment (h : Allowed t us u) (hparent : ParentsExist t us)
    (hu : u.CopiesSegment) : HasSegment t us u.segment := by
  cases h with
  | nextSegment hs => exact absurd hs hu.1
  | nextCluster _ hs => exact hs
  | nextBlob _ hc => exact hc.hasSegment hparent
  | deleteSegment hd => exact absurd hd.2.2 hu.2
  | deleteCluster _ _ _ hc => exact hc.hasSegment hparent
  | blob _ _ hc => exact hc.hasSegment hparent

/-- An entry changes something in a cluster that exists or is created. -/
theorem Allowed.hasCluster (h : Allowed t us u) (hu : u.CopiesCluster) :
    HasCluster t us u.segment u.cluster := by
  cases h with
  | nextSegment hs => exact absurd hs hu.1.1
  | nextCluster hn => exact absurd hn.2.2 hu.2.1
  | nextBlob _ hc => exact hc
  | deleteSegment hd => exact absurd hd.2.2 hu.1.2
  | deleteCluster _ _ hd => exact absurd hd hu.2.2
  | blob _ _ hc => exact hc

/-- The entries of an orderly commit that validation lets pass. -/
structure Admissible (t : DbTree μ 3) (us : List BlobData) : Prop where
  below : BelowNextFree t
  allowed : ∀ us₁ u us₂, us = us₁ ++ u :: us₂ → Allowed t us₁ u
  clash : us.Pairwise fun e u => ¬e.Clashes u

namespace Admissible

theorem nil (ht : BelowNextFree t) : Admissible t [] := ⟨ht, fun _ _ _ h => by simp at h, .nil⟩

/-- Entries come one after another. -/
theorem of_concat (h : Admissible t (us ++ [u])) :
    Admissible t us ∧ Allowed t us u ∧ ∀ e ∈ us, ¬e.Clashes u := by
  obtain ⟨h1, -, h2⟩ := List.pairwise_append.mp h.clash
  refine ⟨⟨h.below, fun us₁ e us₂ heq => h.allowed us₁ e (us₂ ++ [u]) ?_, h1⟩,
    h.allowed us u [] rfl, fun e he => h2 e he u (List.mem_singleton_self u)⟩
  rw [heq, List.append_assoc]
  rfl

theorem after (h : Admissible t us) : After t us (updates m us t) :=
  After.updates h.below h.allowed h.clash

variable (h : Admissible t us)

include h

theorem parentsExist : ParentsExist t us := by
  rintro s c (⟨hs, -⟩ | ⟨e, he, hw, -⟩)
  · exact Or.inr hs
  · obtain ⟨us₁, us₂, rfl⟩ := List.append_of_mem he
    have hsub : us₁ ⊆ us₁ ++ e :: us₂ := List.subset_append_left _ _
    cases h.allowed us₁ e us₂ rfl with
    | nextSegment hs => exact absurd hs hw.1.1
    | nextCluster _ hs => exact hw.2.1 ▸ hs.imp_right fun hs => hs.mono hsub
    | nextBlob hu => exact absurd hw.2.2 hu.1.2.1
    | deleteSegment hd => exact absurd hd.2.2 hw.1.2
    | deleteCluster _ hn => exact absurd hw.2.2 hn
    | blob hu => exact absurd hw.2.2 hu.2.1

/-- A segment that is there is one that was there, or it is created. -/
theorem hasSegment (hs : ((updates m us t).getSegment s).isSome) : HasSegment t us s := by
  induction us using List.reverseRecOn with
  | nil => exact Or.inl hs
  | append_singleton us u ih =>
    have hsub : us ⊆ us ++ [u] := List.subset_append_left _ _
    obtain ⟨hus, hu, -⟩ := h.of_concat
    rw [updates, List.foldl_append] at hs
    rcases isSome_getSegment_of_update hs with hs | ⟨hcopies, rfl⟩
    · exact (ih hus hs).imp_right fun hs => hs.mono hsub
    · exact (hu.hasSegment hus.parentsExist hcopies).imp_right fun hs => hs.mono hsub

/-- A cluster that is there is one that was there, or it is created. -/
theorem hasCluster (hc : ((updates m us t).getCluster s c).isSome) : HasCluster t us s c := by
  induction us using List.reverseRecOn with
  | nil => exact Or.inl hc
  | append_singleton us u ih =>
    have hsub : us ⊆ us ++ [u] := List.subset_append_left _ _
    obtain ⟨hus, hu, hclash⟩ := h.of_concat
    rw [updates, List.foldl_append] at hc
    rcases isSome_getCluster_of_update hc with hc | ⟨hcopies, rfl, rfl⟩ | ⟨hcopies, rfl, hnone, rfl⟩
    · exact (ih hus hc).mono hsub
    · exact (hu.hasCluster hcopies).mono hsub
    · -- the segment was not deleted, so it is new
      rcases hus.after.segment_none _ hnone with ⟨e, he, hdel⟩ | ⟨hnone, -⟩
      · exact absurd (.segment hdel hcopies) (hclash e he)
      · refine HasCluster.mono (Or.inr (Or.inl ⟨?_, rfl⟩)) hsub
        refine (hu.hasSegment hus.parentsExist hcopies).resolve_left fun hs => ?_
        rw [hnone] at hs
        cases hs

/-- A blob that is there was there, or it is the first blob of a created cluster, or it is
written. -/
theorem hasBlob (hb : HasBlob (updates m us t) s c b) : HasBlob t s c b ∨
    ClusterCreated t us s c ∧ b = 0 ∨
      ∃ u ∈ us, u.CopiesCluster ∧ u.blob ≠ nextFreeBlobId ∧ u.toBlobLocation = ⟨s, c, b⟩ := by
  induction us using List.reverseRecOn with
  | nil => exact Or.inl hb
  | append_singleton us u ih =>
    have hsub : us ⊆ us ++ [u] := List.subset_append_left _ _
    obtain ⟨hus, hu, hclash⟩ := h.of_concat
    obtain ⟨x, hx, -⟩ := id hb
    have hcluster : HasCluster t (us ++ [u]) s c := h.hasCluster (by rw [hx]; rfl)
    rw [updates, List.foldl_append] at hb hx
    rcases hasBlob_of_update hb with hb | ⟨hnone, rfl⟩ | hwrites
    · rcases ih hus hb with hb | ⟨hc, rfl⟩ | ⟨e, he, hwrites⟩
      · exact Or.inl hb
      · exact Or.inr (Or.inl ⟨hc.mono hsub, rfl⟩)
      · exact Or.inr (Or.inr ⟨e, hsub he, hwrites⟩)
    · refine Or.inr (Or.inl ⟨hcluster.resolve_left fun hc => ?_, rfl⟩)
      -- the cluster was there and is not now, so an entry deleted it
      rcases hus.after.cluster_none _ _ hnone with ⟨e, he, hdel⟩ | ⟨hnone', -⟩
      · have hcopy := isSome_getCluster_of_update (t := updates m us t) (u := u) (by
          rw [show (update m u (updates m us t)).getCluster s c = some x from hx]; rfl)
        rcases hcopy with hsome | ⟨hcopies, rfl, rfl⟩ | ⟨hcopies, rfl, hseg, rfl⟩
        · rw [show (updates m us t).getCluster s c = none from hnone] at hsome
          cases hsome
        · exact hclash e he (.cluster hdel hcopies)
        · rcases hus.after.segment_none _ hseg with ⟨d, hd, hdeletes⟩ | ⟨hseg', -⟩
          · exact hclash d hd (.segment hdeletes hcopies)
          · rw [getCluster, hseg'] at hc
            cases hc
      · rw [hnone'] at hc
        cases hc
    · exact Or.inr (Or.inr ⟨u, List.mem_append_right _ (List.mem_singleton_self u), hwrites⟩)

end Admissible

/-! ### What stays -/

theorem updates_concat : updates m (us ++ [u]) t = update m u (updates m us t) := by
  rw [updates, List.foldl_append]
  rfl

/-- Segments that are there, or that entries change something in, stay until they are deleted. -/
theorem isSome_getSegment_updates
    (hs : (t.getSegment s).isSome ∨ ∃ u ∈ us, u.CopiesSegment ∧ u.segment = s)
    (hd : ∀ u ∈ us, ¬u.DeletesSegment s) : ((updates m us t).getSegment s).isSome := by
  induction us using List.reverseRecOn with
  | nil => exact hs.resolve_right fun ⟨_, hu, _⟩ => nomatch hu
  | append_singleton us u ih =>
    obtain ⟨hd, hdu⟩ := NextFree.forall_mem_concat.mp hd
    rw [updates_concat]
    by_cases hu : u.CopiesSegment ∧ u.segment = s
    · exact hu.2 ▸ isSome_getSegment_of_copies hu.1
    · refine isSome_getSegment_update (ih (hs.imp_right fun ⟨e, he, hcopies⟩ => ⟨e, ?_, hcopies⟩) hd) hdu
      exact (List.mem_append.mp he).resolve_right fun he => hu (List.mem_singleton.mp he ▸ hcopies)

/-- Clusters that are there, or that entries change something in, stay until they are deleted. -/
theorem isSome_getCluster_updates (hc : (t.getCluster s c).isSome ∨
      ∃ u ∈ us, u.CopiesCluster ∧ u.segment = s ∧ u.cluster = c)
    (hd : ∀ u ∈ us, ¬u.DeletesCluster s c) : ((updates m us t).getCluster s c).isSome := by
  induction us using List.reverseRecOn with
  | nil => exact hc.resolve_right fun ⟨_, hu, _⟩ => nomatch hu
  | append_singleton us u ih =>
    obtain ⟨hd, hdu⟩ := NextFree.forall_mem_concat.mp hd
    rw [updates_concat]
    by_cases hu : u.CopiesCluster ∧ u.segment = s ∧ u.cluster = c
    · obtain ⟨hcopies, rfl, rfl⟩ := hu
      exact isSome_getCluster_of_copies hcopies
    · refine isSome_getCluster_update (ih (hc.imp_right fun ⟨e, he, hcopies⟩ => ⟨e, ?_, hcopies⟩) hd) hdu
      exact (List.mem_append.mp he).resolve_right fun he => hu (List.mem_singleton.mp he ▸ hcopies)

/-- Entries that change nothing in a segment do not create it. -/
theorem getSegment_updates_of_not (hs : t.getSegment s = none)
    (hnot : ∀ u ∈ us, u.CopiesSegment → u.segment ≠ s) : (updates m us t).getSegment s = none := by
  induction us using List.reverseRecOn with
  | nil => exact hs
  | append_singleton us u ih =>
    obtain ⟨hnot, hu⟩ := NextFree.forall_mem_concat.mp hnot
    rw [updates_concat]
    refine Option.not_isSome_iff_eq_none.mp fun hsome => ?_
    rcases isSome_getSegment_of_update hsome with hsome | ⟨hcopies, hseg⟩
    · rw [ih hnot] at hsome
      cases hsome
    · exact hu hcopies hseg

/-- Blobs that are there stay until they are deleted. -/
theorem HasBlob.updates (h : HasBlob t s c b) (hd : ∀ u ∈ us, ¬u.Deletes ⟨s, c, b⟩) :
    HasBlob (DbTree.updates m us t) s c b := by
  induction us using List.reverseRecOn with
  | nil => exact h
  | append_singleton us u ih =>
    obtain ⟨hd, hdu⟩ := NextFree.forall_mem_concat.mp hd
    rw [updates_concat]
    exact (ih hd).update hdu

/-- Blobs that entries write stay until they are deleted. -/
theorem hasBlob_updates_of_written (hu : u ∈ us) (hcopies : u.CopiesCluster)
    (hb : u.blob ≠ nextFreeBlobId) (hd : ∀ e ∈ us, ¬e.Deletes u.toBlobLocation) :
    HasBlob (updates m us t) u.segment u.cluster u.blob := by
  induction us using List.reverseRecOn with
  | nil => cases hu
  | append_singleton us e ih =>
    obtain ⟨hd, hde⟩ := NextFree.forall_mem_concat.mp hd
    rw [updates_concat]
    rcases List.mem_append.mp hu with hu | hu
    · exact (ih hu hd).update hde
    · obtain rfl := List.mem_singleton.mp hu
      exact hasBlob_update_self hcopies hb fun hdata => hde (Or.inr ⟨hcopies, hb, hdata, rfl⟩)

/-- The first blob of a cluster that entries create stays until it is deleted. -/
theorem hasBlob_zero_updates (hnone : t.getCluster s c = none)
    (hsome : ((updates m us t).getCluster s c).isSome) (hd : ∀ u ∈ us, ¬u.Deletes ⟨s, c, 0⟩) :
    HasBlob (updates m us t) s c 0 := by
  induction us using List.reverseRecOn with
  | nil =>
    rw [show (updates m [] t).getCluster s c = none from hnone] at hsome
    cases hsome
  | append_singleton us u ih =>
    obtain ⟨hd, hdu⟩ := NextFree.forall_mem_concat.mp hd
    rw [updates_concat] at hsome ⊢
    cases hbefore : (updates m us t).getCluster s c with
    | none => exact hasBlob_update_zero hbefore hsome hdu
    | some x => exact (ih (by rw [hbefore]; rfl) hd).update hdu

/-! ### Locations -/

section

variable {ν : Type} (g : μ → ν)

theorem getSegment_changeMark (t : DbTree μ 3) :
    (changeMark g t).getSegment s = (t.getSegment s).map (changeMark g) := find_changeMark g t s

theorem getCluster_changeMark (t : DbTree μ 3) :
    (changeMark g t).getCluster s c = (t.getCluster s c).map (changeMark g) := by
  rw [getCluster, getCluster, getSegment_changeMark]
  cases t.getSegment s with
  | none => rfl
  | some seg => exact find_changeMark g seg c

/-- The marks do not matter. -/
theorem hasLocation_changeMark : HasLocation (changeMark g t) l ↔ HasLocation t l := by
  have hs : ∀ s, ((changeMark g t).getSegment s).isSome = (t.getSegment s).isSome := fun s => by
    rw [getSegment_changeMark, Option.isSome_map]
  have hc : ∀ s c, ((changeMark g t).getCluster s c).isSome = (t.getCluster s c).isSome :=
    fun s c => by rw [getCluster_changeMark, Option.isSome_map]
  constructor
  · intro h
    cases h with
    | nextFreeSegmentId => exact .nextFreeSegmentId
    | segmentList => exact .segmentList
    | nextFreeClusterId h => exact .nextFreeClusterId (hs _ ▸ h)
    | segmentDelete h => exact .segmentDelete (hs _ ▸ h)
    | clusterList h => exact .clusterList (hs _ ▸ h)
    | nextFreeBlobId h => exact .nextFreeBlobId (hc _ _ ▸ h)
    | clusterDelete h => exact .clusterDelete (hc _ _ ▸ h)
    | blobList h => exact .blobList (hc _ _ ▸ h)
    | blob hx hb =>
      rw [getCluster_changeMark] at hx
      obtain ⟨y, hy, rfl⟩ := Option.map_eq_some_iff.mp hx
      rw [find_changeMark, Option.isSome_map] at hb
      exact .blob hy hb
  · intro h
    cases h with
    | nextFreeSegmentId => exact .nextFreeSegmentId
    | segmentList => exact .segmentList
    | nextFreeClusterId h => exact .nextFreeClusterId (hs _ ▸ h)
    | segmentDelete h => exact .segmentDelete (hs _ ▸ h)
    | clusterList h => exact .clusterList (hs _ ▸ h)
    | nextFreeBlobId h => exact .nextFreeBlobId (hc _ _ ▸ h)
    | clusterDelete h => exact .clusterDelete (hc _ _ ▸ h)
    | blobList h => exact .blobList (hc _ _ ▸ h)
    | @blob s c b x hx hb =>
      have hx' : (changeMark g t).getCluster s c = some (changeMark g x) := by
        rw [getCluster_changeMark, hx]
        rfl
      exact .blob hx' (by rw [find_changeMark, Option.isSome_map]; exact hb)

/-- The marks that the entries leave do not matter either. -/
theorem hasLocation_updates_congr (m m' : μ) :
    HasLocation (updates m us t) l ↔ HasLocation (updates m' us t) l := by
  rw [← hasLocation_changeMark (fun _ => ()), ← hasLocation_changeMark (fun _ : μ => ()),
    changeMark_updates, changeMark_updates]

end

/-- Locations stay until they are deleted. -/
theorem HasLocation.updates (h : HasLocation t l) (hd : ∀ u ∈ us, ¬u.Deletes l) :
    HasLocation (DbTree.updates m us t) l := by
  have hcluster : ∀ s c, ⟨s, c⟩ = (l.segment, l.cluster) → (t.getCluster s c).isSome →
      ((DbTree.updates m us t).getCluster s c).isSome := fun s c heq hc => by
    obtain ⟨rfl, rfl⟩ := Prod.mk.inj heq
    exact isSome_getCluster_updates (Or.inl hc) fun u hu hdel => hd u hu (Or.inl hdel)
  have hsegment : ∀ s, s = l.segment → (t.getSegment s).isSome →
      ((DbTree.updates m us t).getSegment s).isSome := fun s heq hs => by
    subst heq
    exact isSome_getSegment_updates (Or.inl hs) fun u hu hdel => hd u hu (Or.inl (Or.inl hdel))
  cases h with
  | nextFreeSegmentId => exact .nextFreeSegmentId
  | segmentList => exact .segmentList
  | nextFreeClusterId hs => exact .nextFreeClusterId (hsegment _ rfl hs)
  | segmentDelete hs => exact .segmentDelete (hsegment _ rfl hs)
  | clusterList hs => exact .clusterList (hsegment _ rfl hs)
  | nextFreeBlobId hc => exact .nextFreeBlobId (hcluster _ _ rfl hc)
  | clusterDelete hc => exact .clusterDelete (hcluster _ _ rfl hc)
  | blobList hc => exact .blobList (hcluster _ _ rfl hc)
  | blob hc hb =>
    obtain ⟨x, hx, hb⟩ := HasBlob.updates (m := m) ⟨_, hc, hb⟩ hd
    exact .blob hx hb

theorem HasLocation.of_segment (hs : (t.getSegment l.segment).isSome) (hl : l.OfSegment) :
    HasLocation t l := by
  rcases hl with hl | hl | hl
  · exact hl ▸ .nextFreeClusterId hs
  · exact hl ▸ .segmentDelete hs
  · exact hl ▸ .clusterList hs

theorem HasLocation.of_cluster (hc : (t.getCluster l.segment l.cluster).isSome)
    (hl : l.OfCluster) : HasLocation t l := by
  obtain ⟨s, c, b⟩ := l
  rcases hl with rfl | rfl | rfl
  · exact .nextFreeBlobId hc
  · exact .clusterDelete hc
  · exact .blobList hc

/-- The locations that a commit adds. -/
inductive Adds (t : DbTree μ 3) (us : List BlobData) (l : BlobLocation) : Prop
  | segment (hcreated : SegmentCreated t us l.segment) (hl : l.OfSegment)
  | cluster (hcreated : ClusterCreated t us l.segment l.cluster) (hl : l.OfCluster ∨ l.blob = 0)
  | blob (u : BlobData) (hu : u ∈ us) (hcopies : u.CopiesCluster)
      (hb : u.blob ≠ BlobsDb.nextFreeBlobId) (hl : u.toBlobLocation = l)

/-- A location that is there was there, or it is added. -/
theorem Admissible.hasLocation (h : Admissible t us) (hl : HasLocation (DbTree.updates m us t) l) :
    HasLocation t l ∨ Adds t us l := by
  cases hl with
  | nextFreeSegmentId => exact Or.inl .nextFreeSegmentId
  | segmentList => exact Or.inl .segmentList
  | nextFreeClusterId hs =>
    exact (h.hasSegment hs).imp .nextFreeClusterId fun hs => .segment hs (Or.inl rfl)
  | segmentDelete hs =>
    exact (h.hasSegment hs).imp .segmentDelete fun hs => .segment hs (Or.inr (Or.inl rfl))
  | clusterList hs =>
    exact (h.hasSegment hs).imp .clusterList fun hs => .segment hs (Or.inr (Or.inr rfl))
  | nextFreeBlobId hc =>
    exact (h.hasCluster hc).imp .nextFreeBlobId fun hc => .cluster hc (Or.inl (Or.inl rfl))
  | clusterDelete hc =>
    exact (h.hasCluster hc).imp .clusterDelete fun hc =>
      .cluster hc (Or.inl (Or.inr (Or.inl rfl)))
  | blobList hc =>
    exact (h.hasCluster hc).imp .blobList fun hc => .cluster hc (Or.inl (Or.inr (Or.inr rfl)))
  | blob hc hb =>
    rcases h.hasBlob ⟨_, hc, hb⟩ with ⟨x, hx, hb⟩ | ⟨hc, rfl⟩ | ⟨u, hu, hcopies, hblob, hl⟩
    · exact Or.inl (.blob hx hb)
    · exact Or.inr (.cluster hc (Or.inr rfl))
    · exact Or.inr (.blob u hu hcopies hblob hl)

/-- What an entry deletes is not there after it. -/
theorem getCluster_update_of_deletes (hd : u.DeletesCluster s c) :
    (update m u t).getCluster s c = none := by
  rcases hd with ⟨rfl, hnext, hdel⟩ | ⟨hcopies, hn, hdel, rfl, rfl⟩
  · rw [getCluster, getSegment_update, if_neg (by simp [hnext]), if_pos hdel]
  · rw [getCluster_update_of_copies hcopies, find_updateSegment, if_neg (by simp [hn]), if_pos hdel]

theorem not_hasBlob_update (hd : u.DeletesBlob ⟨s, c, b⟩) : ¬HasBlob (update m u t) s c b := by
  obtain ⟨hcopies, hn, hdata, hl⟩ := hd
  obtain rfl : u.segment = s := congrArg BlobLocation.segment hl
  obtain rfl : u.cluster = c := congrArg BlobLocation.cluster hl
  obtain rfl : u.blob = b := congrArg BlobLocation.blob hl
  rintro ⟨x, hx, hb⟩
  obtain rfl := Option.some.inj ((getCluster_update_self hcopies).symm.trans hx)
  rw [find_updateCluster, if_neg (by simp [hn]), hdata] at hb
  cases hb

/-- The entries change something in each segment and cluster that they create, or delete it. -/
structure Uses (t : DbTree μ 3) (us : List BlobData) : Prop where
  segment : ∀ s, SegmentCreated t us s →
    (∃ u ∈ us, u.CopiesSegment ∧ u.segment = s) ∨ ∃ u ∈ us, u.DeletesSegment s
  cluster : ∀ s c, ClusterCreated t us s c →
    (∃ u ∈ us, u.CopiesCluster ∧ u.segment = s ∧ u.cluster = c) ∨ ∃ u ∈ us, u.DeletesCluster s c

/-- What a commit adds stays until it is deleted. -/
theorem Adds.hasLocation (h : Adds t us l) (ht : BelowNextFree t) (huses : Uses t us)
    (hd : ∀ u ∈ us, ¬u.Deletes l) : HasLocation (DbTree.updates m us t) l := by
  cases h with
  | segment hcreated hl =>
    refine .of_segment (isSome_getSegment_updates (Or.inr ?_) fun u hu hdel =>
      hd u hu (Or.inl (Or.inl hdel))) hl
    exact (huses.segment _ hcreated).resolve_right fun ⟨u, hu, hdel⟩ => hd u hu (Or.inl (Or.inl hdel))
  | cluster hcreated hl =>
    have hsome : ((DbTree.updates m us t).getCluster l.segment l.cluster).isSome :=
      isSome_getCluster_updates (Or.inr ((huses.cluster _ _ hcreated).resolve_right
        fun ⟨u, hu, hdel⟩ => hd u hu (Or.inl hdel))) fun u hu hdel => hd u hu (Or.inl hdel)
    rcases hl with hl | hl
    · exact .of_cluster hsome hl
    · obtain ⟨s, c, b⟩ := l
      obtain rfl : b = 0 := hl
      obtain ⟨x, hx, hb⟩ := hasBlob_zero_updates (hcreated.getCluster ht) hsome hd
      exact .blob hx hb
  | blob u hu hcopies hb hl =>
    subst hl
    obtain ⟨x, hx, hb⟩ := hasBlob_updates_of_written (m := m) (t := t) hu hcopies hb hd
    exact .blob hx hb

namespace Admissible

variable (h : Admissible t us)

include h

/-- A cluster that is deleted is not there. -/
theorem getCluster_of_deletes (hd : ∃ e ∈ us, e.DeletesCluster s c) :
    (updates m us t).getCluster s c = none := by
  induction us using List.reverseRecOn with
  | nil =>
    obtain ⟨_, he, _⟩ := hd
    cases he
  | append_singleton us u ih =>
    obtain ⟨hus, hu, hclash⟩ := h.of_concat
    rw [updates_concat]
    obtain ⟨e, he, hdel⟩ := hd
    rcases List.mem_append.mp he with he | he
    · refine Option.not_isSome_iff_eq_none.mp fun hsome => ?_
      rcases isSome_getCluster_of_update hsome with hsome | ⟨hcopies, rfl, rfl⟩ |
        ⟨hcopies, rfl, hnone, -⟩
      · rw [ih hus ⟨e, he, hdel⟩] at hsome
        cases hsome
      · exact hclash e he (.cluster hdel hcopies)
      · rcases hdel with hdel | ⟨hcopies', -, -, hseg, -⟩
        · exact hclash e he (.segment hdel hcopies)
        · -- the entry changed something in the segment, so that another one deleted it
          refine Option.not_isSome_iff_eq_none.mpr hnone ?_
          exact isSome_getSegment_updates (Or.inr ⟨e, he, hcopies', hseg⟩) fun d hd hdel =>
            hclash d hd (.segment hdel hcopies)
    · exact List.mem_singleton.mp he ▸ getCluster_update_of_deletes hdel

/-- A segment that is deleted is not there. -/
theorem getSegment_of_deletes (hd : ∃ e ∈ us, e.DeletesSegment s) :
    (updates m us t).getSegment s = none := by
  induction us using List.reverseRecOn with
  | nil =>
    obtain ⟨_, he, _⟩ := hd
    cases he
  | append_singleton us u ih =>
    obtain ⟨hus, hu, hclash⟩ := h.of_concat
    rw [updates_concat]
    obtain ⟨e, he, hdel⟩ := hd
    rcases List.mem_append.mp he with he | he
    · refine Option.not_isSome_iff_eq_none.mp fun hsome => ?_
      rcases isSome_getSegment_of_update hsome with hsome | ⟨hcopies, rfl⟩
      · rw [ih hus ⟨e, he, hdel⟩] at hsome
        cases hsome
      · exact hclash e he (.segment hdel hcopies)
    · obtain rfl := List.mem_singleton.mp he
      obtain ⟨rfl, hnext, hdel⟩ := hdel
      rw [getSegment_update, if_neg (by simp [hnext]), if_pos hdel]

/-- A blob that is deleted is not there, if no location is written twice. -/
theorem not_hasBlob_of_deletes (hn : (us.map BlobData.toBlobLocation).Nodup)
    (hd : ∃ e ∈ us, e.DeletesBlob ⟨s, c, b⟩) : ¬HasBlob (updates m us t) s c b := by
  induction us using List.reverseRecOn with
  | nil =>
    obtain ⟨_, he, _⟩ := hd
    cases he
  | append_singleton us u ih =>
    obtain ⟨hus, hu, hclash⟩ := h.of_concat
    rw [List.map_append, List.nodup_append'] at hn
    rw [updates_concat]
    obtain ⟨e, he, hdel⟩ := hd
    rcases List.mem_append.mp he with he | he
    · intro hb
      have hsegment : e.segment = s := congrArg BlobLocation.segment hdel.2.2.2
      have hcluster : e.cluster = c := congrArg BlobLocation.cluster hdel.2.2.2
      obtain ⟨x, hx, -⟩ := id hb
      rcases hasBlob_of_update hb with hb | ⟨hnone, -⟩ | ⟨-, -, hl⟩
      · exact ih hus hn.1 ⟨e, he, hdel⟩ hb
      · -- the cluster was there after the entry, so that another one deleted it
        have hgone : ∃ d ∈ us, d.DeletesCluster s c := by
          by_contra hnot
          push Not at hnot
          refine Option.not_isSome_iff_eq_none.mpr hnone ?_
          exact isSome_getCluster_updates (Or.inr ⟨e, he, hdel.1, hsegment, hcluster⟩) hnot
        have hdeleted := h.getCluster_of_deletes (m := m) (NextFree.exists_mem_concat hgone)
        rw [updates_concat, hx] at hdeleted
        cases hdeleted
      · refine @hn.2.2 ⟨s, c, b⟩ (List.mem_map.mpr ⟨e, he, hdel.2.2.2⟩) ?_
        exact List.mem_singleton.mpr hl.symm
    · exact List.mem_singleton.mp he ▸ not_hasBlob_update hdel

end Admissible

end DbTree

end BlobsDb
