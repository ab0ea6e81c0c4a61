import BlobsDb.Storage.Committing

/-!
# Commits that copy loaded objects only

An entry of a commit that changes something in a segment or cluster has it copied first, unless
the commit did so before. `db.CopiesLoaded us` says that every segment and every cluster copied
in this way is loaded when the commit starts. Only what the commit deletes itself before it is
created anew is exempt.

Under this condition a commit is what `DbTree.updates` says, no space is lost, and readers of an
older snapshot keep what they need.
-/

namespace BlobsDb

namespace BlobData

/-- The entry changes something in a segment. -/
def CopiesSegment (u : BlobData) : Prop :=
  u.segment ≠ nextFreeSegmentId ∧ u.cluster ≠ segmentDeleteId

/-- The entry changes something in a cluster. -/
def CopiesCluster (u : BlobData) : Prop :=
  u.CopiesSegment ∧ u.cluster ≠ nextFreeClusterId ∧ u.blob ≠ clusterDeleteId

/-- The entry deletes the segment. -/
def DeletesSegment (u : BlobData) (segment : SegmentId) : Prop :=
  u.segment = segment ∧ u.segment ≠ nextFreeSegmentId ∧ u.cluster = segmentDeleteId

/-- The entry deletes the cluster, or the segment it is in. -/
def DeletesCluster (u : BlobData) (segment : SegmentId) (cluster : ClusterId) : Prop :=
  u.DeletesSegment segment ∨ u.CopiesSegment ∧ u.cluster ≠ nextFreeClusterId ∧
    u.blob = clusterDeleteId ∧ u.segment = segment ∧ u.cluster = cluster

end BlobData

namespace Database

/-- The segment is loaded, if it exists. -/
def SegmentLoaded (db : Database) (segment : SegmentId) : Prop :=
  ∀ o, (db.heap.directories db.snapshot).children.find segment = some o →
    (db.heap.directories (db.snapshot.child segment o)).status = .loaded

/-- The cluster is loaded, if it exists and its segment is loaded. -/
def ClusterLoaded (db : Database) (segment : SegmentId) (cluster : ClusterId) : Prop :=
  ∀ o, (db.heap.directories db.snapshot).children.find segment = some o →
    ∀ o', (db.heap.directories (db.snapshot.child segment o)).children.find cluster = some o' →
      (db.heap.directories ((db.snapshot.child segment o).child cluster o')).status = .loaded

/-- All segments and clusters that a commit of the entries copies are loaded. -/
def CopiesLoaded (db : Database) (us : List BlobData) : Prop :=
  ∀ us₁ u us₂, us = us₁ ++ u :: us₂ →
    (u.CopiesSegment → (∃ d ∈ us₁, d.DeletesSegment u.segment) ∨ db.SegmentLoaded u.segment) ∧
    (u.CopiesCluster → (∃ d ∈ us₁, d.DeletesCluster u.segment u.cluster) ∨
      db.ClusterLoaded u.segment u.cluster)

end Database

/-! ### What is left of the old tree -/

section

variable {k : CommitId} {n : ℕ} {path : List UInt32} {b : MemoryBlock}

theorem prefix_of_mem_oldBlocks {t : Tree n} (hb : b ∈ oldBlocks k path t) :
    path <+: b.pointer.path :=
  LevelTree.mem_collect_mono (Q := fun b : MemoryBlock => path <+: b.pointer.path)
    (fun p' m hp b hb => by
      unfold oldBlock at hb
      split_ifs at hb
      · cases hb
      · rw [List.mem_singleton.mp hb]
        exact hp) b hb

theorem mem_oldBlocks_self {t : Tree n} (ht : t.mark.commitId ≠ k) :
    (⟨⟨path, t.mark.origin⟩, t.mark.fileLocation⟩ : MemoryBlock) ∈ oldBlocks k path t := by
  rw [oldBlocks_of_old ht]
  exact List.mem_cons_self

theorem mem_oldBlocks_child {t : Tree (n + 1)} {id : UInt32} {c : Tree n}
    (hc : t.children.find id = some c) (hb : b ∈ oldBlocks k (path ++ [id]) c) :
    b ∈ oldBlocks k path t :=
  LevelTree.mem_collect.mpr (Or.inr ⟨id, c, hc, hb⟩)

/-- Where the blocks of a tree with another child come from. -/
theorem mem_oldBlocks_setChild {t : Tree (n + 1)} {id : UInt32} {c : Tree n}
    (hb : b ∈ oldBlocks k path (DbTree.setChild t id c)) :
    b ∈ oldBlocks k (path ++ [id]) c ∨
      b ∈ oldBlocks k path t ∧ ¬path ++ [id] <+: b.pointer.path := by
  rcases LevelTree.mem_collect.mp hb with hb | ⟨id', c', hc', hb⟩
  · refine Or.inr ⟨LevelTree.mem_collect.mpr (Or.inl hb), fun hpre => ?_⟩
    unfold oldBlock at hb
    split_ifs at hb
    · cases hb
    · rw [List.mem_singleton.mp hb] at hpre
      simpa using hpre.length_le
  · simp only [DbTree.setChild, LevelTree.children_setChildren, FlatMap.find_insert] at hc'
    split_ifs at hc' with hid
    · cases hc'
      exact Or.inl (hid ▸ hb)
    · refine Or.inr ⟨mem_oldBlocks_child hc' hb, fun hpre => hid ?_⟩
      obtain ⟨s, hs⟩ := hpre
      obtain ⟨s', hs'⟩ := prefix_of_mem_oldBlocks hb
      rw [← hs', List.append_assoc, List.append_assoc] at hs
      exact (List.cons_eq_cons.mp (List.append_cancel_left hs)).1.symm

theorem mem_oldBlocks_eraseChild {t : Tree (n + 1)} {id : UInt32}
    (hb : b ∈ oldBlocks k path (DbTree.eraseChild t id)) :
    b ∈ oldBlocks k path t ∧ ¬path ++ [id] <+: b.pointer.path := by
  rcases LevelTree.mem_collect.mp hb with hb | ⟨id', c', hc', hb⟩
  · refine ⟨LevelTree.mem_collect.mpr (Or.inl hb), fun hpre => ?_⟩
    unfold oldBlock at hb
    split_ifs at hb
    · cases hb
    · rw [List.mem_singleton.mp hb] at hpre
      simpa using hpre.length_le
  · simp only [DbTree.eraseChild, LevelTree.children_setChildren, FlatMap.find_erase] at hc'
    split_ifs at hc' with hid
    refine ⟨mem_oldBlocks_child hc' hb, fun hpre => hid ?_⟩
    obtain ⟨s, hs⟩ := hpre
    obtain ⟨s', hs'⟩ := prefix_of_mem_oldBlocks hb
    rw [← hs', List.append_assoc, List.append_assoc] at hs
    exact (List.cons_eq_cons.mp (List.append_cancel_left hs)).1.symm

theorem oldBlocks_created (n : ℕ) : oldBlocks k path (DbTree.created (newMark k) n) = [] := by
  induction n generalizing path with
  | zero => exact if_pos rfl
  | succ n ih =>
    rw [List.eq_nil_iff_forall_not_mem]
    intro b hb
    rcases LevelTree.mem_collect.mp hb with hb | ⟨id, c, hc, hb⟩
    · rw [DbTree.mark_created, show oldBlock k path (newMark k) = [] from if_pos rfl] at hb
      cases hb
    · obtain ⟨-, rfl⟩ := FlatMap.find_insert_empty_eq_some.mp hc
      rw [show LevelTree.collect (oldBlock k) (path ++ [id])
        (DbTree.created (newMark k) n) = [] from ih] at hb
      cases hb

/-- The object to change has no other old blocks below it than the one there was. -/
theorem mem_oldBlocks_touch {t : Tree (n + 1)} {id : UInt32}
    (hb : b ∈ oldBlocks k (path ++ [id]) (DbTree.touch (newMark k) (t.children.find id))) :
    b ∈ oldBlocks k path t := by
  cases hc : t.children.find id with
  | none =>
    rw [hc, DbTree.touch, oldBlocks_created] at hb
    cases hb
  | some c =>
    rw [hc, DbTree.touch, oldBlocks_of_new (LevelTree.mark_setMark _ _), oldBelow_setMark] at hb
    refine mem_oldBlocks_child hc ?_
    rw [oldBlocks, LevelTree.collect_eq]
    exact List.mem_append_right _ hb

theorem mem_oldBlocks_updateCluster {t : Tree 1} {u : BlobData}
    (hb : b ∈ oldBlocks k path (DbTree.updateCluster (newMark k) u t)) :
    b ∈ oldBlocks k path t := by
  unfold DbTree.updateCluster at hb
  split_ifs at hb
  · exact hb
  · cases hu : u.data with
    | none =>
      rw [hu] at hb
      exact (mem_oldBlocks_eraseChild hb).1
    | some data =>
      rw [hu] at hb
      rcases mem_oldBlocks_setChild hb with hb | hb
      · rw [oldBlocks_of_new (t := (LevelTree.leaf (newMark k) data : Tree 0)) rfl] at hb
        cases hb
      · exact hb.1

theorem mem_oldBlocks_updateSegment {t : Tree 2} {u : BlobData}
    (hb : b ∈ oldBlocks k path (DbTree.updateSegment (newMark k) u t)) :
    b ∈ oldBlocks k path t ∧ (u.cluster ≠ nextFreeClusterId → u.blob = clusterDeleteId →
      ¬path ++ [u.cluster] <+: b.pointer.path) := by
  unfold DbTree.updateSegment at hb
  split_ifs at hb with hc hd
  · exact ⟨hb, fun hc' => absurd hc hc'⟩
  · exact ⟨(mem_oldBlocks_eraseChild hb).1, fun _ _ => (mem_oldBlocks_eraseChild hb).2⟩
  · refine ⟨?_, fun _ hd' => absurd hd' hd⟩
    rcases mem_oldBlocks_setChild hb with hb | hb
    · exact mem_oldBlocks_touch (mem_oldBlocks_updateCluster hb)
    · exact hb.1

/-- An entry makes no old blocks, and takes away those of what it deletes. -/
theorem mem_oldBlocks_update {t : Tree 3} {u : BlobData}
    (hb : b ∈ oldBlocks k [] (DbTree.update (newMark k) u t)) :
    b ∈ oldBlocks k [] t ∧ (∀ s, u.DeletesSegment s → ¬[s] <+: b.pointer.path) ∧
      ∀ s c, u.DeletesCluster s c → ¬[s, c] <+: b.pointer.path := by
  unfold DbTree.update at hb
  split_ifs at hb with hs hd
  · refine ⟨hb, fun s h => absurd hs h.2.1, fun s c h => ?_⟩
    rcases h with h | h
    · exact absurd hs h.2.1
    · exact absurd hs h.1.1
  · obtain ⟨h1, h2⟩ := mem_oldBlocks_eraseChild hb
    have hsegment : ∀ s, u.DeletesSegment s → ¬[s] <+: b.pointer.path := by
      rintro s ⟨rfl, -⟩
      exact h2
    refine ⟨h1, hsegment, fun s c h hpre => ?_⟩
    rcases h with h | h
    · exact hsegment s h ((List.prefix_append [s] [c]).trans hpre)
    · exact absurd hd h.1.2
  · have hnot : ∀ s, ¬u.DeletesSegment s := fun s h => absurd h.2.2 hd
    rcases mem_oldBlocks_setChild hb with hb | hb
    · obtain ⟨h1, h2⟩ := mem_oldBlocks_updateSegment hb
      refine ⟨mem_oldBlocks_touch h1, fun s h => absurd h (hnot s), ?_⟩
      rintro s c (h | ⟨-, hnext, hdel, rfl, rfl⟩)
      · exact absurd h (hnot s)
      · exact h2 hnext hdel
    · refine ⟨hb.1, fun s h => absurd h (hnot s), ?_⟩
      rintro s c (h | ⟨-, -, -, rfl, rfl⟩) hpre
      · exact absurd h (hnot s)
      · exact hb.2 ((List.prefix_append [u.segment] [u.cluster]).trans hpre)

end

namespace Database.Inv

variable {db : Database} {v : Tree 3} {tracked : Prop}
  (hlimit : db.commitId + 1 < unknownCommitId)

/-- The object of an old segment. -/
theorem segment_of_sub (h : db.Inv v) {segment : SegmentId} {c : Tree 2}
    (hsub : v.Sub [segment] 2 c) :
    ∃ o, (db.heap.directories db.snapshot).children.find segment = some o ∧
      db.heap.view db.file 2 (db.snapshot.child segment o) = some c ∧
      (⟨[segment], c.mark.origin⟩ : Pointer) = db.snapshot.child segment o := by
  obtain ⟨s, hs, hc⟩ := LevelTree.Sub.exists_parent (p := []) (k := segment) hsub
  rw [hs.eq_root] at hc
  obtain ⟨o, ho, hv⟩ := Heap.find_of_view h.view h.loaded hc
  refine ⟨o, ho, hv, ?_⟩
  rw [(Heap.mark_of_view h.wf hv).1, Pointer.child, h.path]
  rfl

/-- The segments and clusters that are still old when an entry copies them are loaded. -/
theorem allAddressedLoaded (h : db.Inv v) {us : List BlobData} (hus : db.CopiesLoaded us) :
    (h.context hlimit tracked).AllAddressedLoaded db.heap us
      (v.setMark (newMark (db.commitId + 1))) := by
  have hmem : ∀ {n : ℕ} {path : List UInt32} {c : Tree n}, v.Sub path n c →
      (⟨⟨path, c.mark.origin⟩, c.mark.fileLocation⟩ : MemoryBlock) ∈
        oldBlocks (db.commitId + 1) path c :=
    fun hsub => mem_oldBlocks_self (hsub.allMarks h.commitIds).mark.ne
  -- `us₁` was applied, and nothing old is left below what it deleted
  have hgen : ∀ us₂ us₁ t, us = us₁ ++ us₂ →
      (∀ b ∈ oldBlocks (db.commitId + 1) [] t,
        (∀ d ∈ us₁, ∀ s, d.DeletesSegment s → ¬[s] <+: b.pointer.path) ∧
        ∀ d ∈ us₁, ∀ s c, d.DeletesCluster s c → ¬[s, c] <+: b.pointer.path) →
      (h.context hlimit tracked).AllAddressedLoaded db.heap us₂ t := fun us₂ => by
    induction us₂ with
    | nil => exact fun _ _ _ _ => trivial
    | cons u us₂ ih =>
      intro us₁ t heq hgone
      obtain ⟨hcopiesSegment, hcopiesCluster⟩ := hus us₁ u us₂ heq
      refine ⟨fun hs hd c hc => ⟨fun hold => ?_, fun hnext hdel d hd' hold => ?_⟩, ?_⟩
      · obtain ⟨o, ho, -, hpointer⟩ := h.segment_of_sub hold
        rw [hpointer]
        refine ⟨h.wf.known_child _ _ _ ho, ?_⟩
        rcases hcopiesSegment ⟨hs, hd⟩ with ⟨e, he, hdeletes⟩ | hloaded
        · exact absurd (List.prefix_refl _)
            ((hgone _ (mem_oldBlocks_child hc (hmem hold))).1 e he _ hdeletes)
        · exact hloaded o ho
      · have hb := mem_oldBlocks_child hc (mem_oldBlocks_child hd'
          (hmem (show v.Sub ([] ++ [u.segment] ++ [u.cluster]) 1 d from hold)))
        obtain ⟨s, hsub, hfind⟩ :=
          LevelTree.Sub.exists_parent (p := [u.segment]) (k := u.cluster) hold
        obtain ⟨o, ho, hv, -⟩ := h.segment_of_sub hsub
        rcases hcopiesSegment ⟨hs, hd⟩ with ⟨e, he, hdeletes⟩ | hloaded
        · exact absurd (List.prefix_append [u.segment] [u.cluster])
            ((hgone _ hb).1 e he _ hdeletes)
        obtain ⟨o', ho', hv'⟩ := Heap.find_of_view hv (hloaded o ho) hfind
        have hpointer : (⟨[u.segment, u.cluster], d.mark.origin⟩ : Pointer) =
            (db.snapshot.child u.segment o).child u.cluster o' := by
          rw [(Heap.mark_of_view h.wf hv').1, Pointer.child, Pointer.child, h.path]
          rfl
        rw [hpointer]
        refine ⟨h.wf.known_child _ _ _ ho', ?_⟩
        rcases hcopiesCluster ⟨⟨hs, hd⟩, hnext, hdel⟩ with ⟨e, he, hdeletes⟩ | hloaded'
        · exact absurd (List.prefix_refl _) ((hgone _ hb).2 e he _ _ hdeletes)
        · exact hloaded' o ho o' ho'
      · refine ih (us₁ ++ [u]) _ (by rw [heq, List.append_assoc]; rfl) fun b hb => ?_
        obtain ⟨h1, h2, h3⟩ := mem_oldBlocks_update hb
        obtain ⟨h4, h5⟩ := hgone b h1
        refine ⟨fun d hd => ?_, fun d hd => ?_⟩
        · rcases List.mem_append.mp hd with hd | hd
          · exact h4 d hd
          · rw [List.mem_singleton.mp hd]
            exact h2
        · rcases List.mem_append.mp hd with hd | hd
          · exact h5 d hd
          · rw [List.mem_singleton.mp hd]
            exact h3
  exact hgen us [] _ rfl fun b _ => ⟨fun d hd => absurd hd List.not_mem_nil, fun d hd => absurd hd List.not_mem_nil⟩

/-- Without a file nothing can be loaded, so what can be seen is in memory. -/
theorem status_of_none (hs : db.storage = none) {n : ℕ} {p : Pointer} {t : Tree n}
    (hv : db.heap.view db.file n p = some t) : db.heap.status n p = .loaded := by
  have hread : ∀ n r, readTree db.file n r = none := fun n r => by
    have hfile : db.file = ⟨0, fun _ => 0⟩ := by rw [Database.file, hs]
    have hempty : ∀ bytes, db.file.readIntoMemory r = some bytes → bytes = [] := fun bytes hb => by
      refine List.length_eq_zero_iff.mp ?_
      rw [FileContent.length_readIntoMemory hb]
      rw [hfile, FileContent.readIntoMemory] at hb
      split_ifs at hb with hend
      change r.offset + r.size ≤ 0 at hend
      omega
    cases n with
    | zero =>
      rw [readTree]
      split
      · rfl
      · next bytes hb => rw [hempty bytes hb]; rfl
    | succ n =>
      rw [readTree]
      split
      · rfl
      · next bytes hb => rw [hempty bytes hb]; rfl
  cases hst : db.heap.status n p with
  | loaded => rfl
  | notLoaded =>
    rw [Heap.view_of_notLoaded hst, hread] at hv
    cases hv

/-- In a database without a file everything is loaded. -/
theorem loaded_of_none (h : db.Inv v) (hs : db.storage = none) (segment : SegmentId)
    (cluster : ClusterId) : db.SegmentLoaded segment ∧ db.ClusterLoaded segment cluster := by
  refine ⟨fun o ho => ?_, fun o ho o' ho' => ?_⟩
  · obtain ⟨c, -, hv⟩ := Heap.view_child h.view h.loaded ho
    exact status_of_none hs (n := 2) hv
  · obtain ⟨c, -, hv⟩ := Heap.view_child h.view h.loaded ho
    obtain ⟨d, -, hv'⟩ := Heap.view_child hv (status_of_none hs (n := 2) hv) ho'
    exact status_of_none hs (n := 1) hv'

theorem copiesLoaded_of_none (h : db.Inv v) (hs : db.storage = none) (us : List BlobData) :
    db.CopiesLoaded us := fun _ u _ _ =>
  ⟨fun _ => Or.inr (h.loaded_of_none hs u.segment u.cluster).1,
    fun _ => Or.inr (h.loaded_of_none hs u.segment u.cluster).2⟩

/-- A commit always has a result. -/
theorem exists_calculateCommitResult (h : db.Inv v)
    (hlimit : db.commitId + 1 < unknownCommitId) (us : List BlobData) (σ : Schedule) :
    ∃ r, db.calculateCommitResult us σ = some r := by
  obtain ⟨st, t, lost, hst, -⟩ := h.updates hlimit us (fun h : False => h.elim)
    fun h => h.elim
  rw [Database.calculateCommitResult, hst]
  split
  · next heq => cases heq
  · split <;> exact ⟨_, rfl⟩

/-- Commits keep the invariant. -/
theorem commit (h : db.Inv v) {us : List BlobData} {σ : Schedule} {r : CommitResult}
    (hlimit : db.commitId + 1 < unknownCommitId) (hr : db.calculateCommitResult us σ = some r)
    (hσ : ∀ δ ∈ r.delta, σ.Walks δ) (hend : ∀ L ∈ r.freeList, L.endOffset < 2 ^ 64) :
    ∃ v' lost, Committed db v us σ r v' lost ∧ (db.CopiesLoaded us →
      Tree.logical v' = DbTree.updates (db.commitId + 1) us (Tree.logical v) ∧ lost = [] ∧
        (db.mvccSnapshot.isSome = true → Freed (db.commitId + 1) r.heap r.delta)) := by
  obtain ⟨st, t, lost, hst, hsite, hbeside, hdel, hclean⟩ := h.updates hlimit us
    (fun htr : db.mvccSnapshot.isSome = true ∧ db.CopiesLoaded us => htr.1)
    fun htr => h.allAddressedLoaded hlimit htr.2
  have hlogical : db.CopiesLoaded us →
      Tree.logical t = DbTree.updates (db.commitId + 1) us (Tree.logical v) ∧ lost = [] :=
    fun hus => by
      obtain ⟨rfl, rfl⟩ := hclean (h.allAddressedLoaded hlimit hus)
      exact ⟨DbTree.changeMark_updates _ _ _ _, rfl⟩
  cases hs : db.storage with
  | none =>
    obtain ⟨hcommitted, hheap, hdelta⟩ := h.commit_of_none hlimit hst hs hsite hbeside hdel hr
    refine ⟨t, lost, hcommitted, fun hus => ⟨(hlogical hus).1, (hlogical hus).2, fun hm => ?_⟩⟩
    rw [hheap, hdelta]
    exact hsite.freed ⟨hm, hus⟩
  | some s =>
    obtain ⟨hcommitted, hplaced, hdelta⟩ :=
      h.commit_of_some hlimit hst hs hsite hbeside hdel hr hσ hend
    refine ⟨_, lost, hcommitted, fun hus => ⟨?_, (hlogical hus).2, fun hm => ?_⟩⟩
    · rw [Tree.logical_place]
      exact (hlogical hus).1
    · rw [hdelta]
      refine fun δ hδ b hb => ?_
      obtain ⟨h1, h2, h3⟩ := hsite.freed ⟨hm, hus⟩ δ hδ b hb
      exact ⟨h1, hplaced.known h2, (hplaced.status _ _).trans h3⟩

end Database.Inv

end BlobsDb
