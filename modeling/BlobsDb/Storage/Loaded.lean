import BlobsDb.Storage.Running

/-!
# Commits keep what is loaded

The objects a commit makes are loaded. All others were there before, and as the commit leaves them
alone, they are loaded if they were.
-/

namespace BlobsDb

namespace Database

variable {db : Database} {v v' : Tree 3} {us : List BlobData} {σ : Schedule} {r : CommitResult}
  {segment : SegmentId} {cluster : ClusterId}

namespace Inv

/-- The blocks of the tree after a commit are new or those of the tree before. -/
theorem blocks_of_commit (h : db.Inv v) {s : Storage} (hs : db.storage = some s)
    (hc : db.Commits us σ r) : ∃ v', (db.applyToDatabase r σ).Inv v' ∧ ∀ b ∈ Tree.blocks [] v',
      b.pointer.origin = .commit (db.commitId + 1) ∨ b ∈ Tree.blocks [] v := by
  obtain ⟨st, t, lost, hst, hsite, hbeside, hdel, -⟩ :=
    h.updates hc.commitId us (fun h : False => h.elim) fun h => h.elim
  obtain ⟨hcommitted, -, hdelta⟩ := h.commit_of_some hc.commitId hst hs hsite hbeside hdel
    hc.result hc.walks hc.endOffset
  obtain ⟨-, -, -, h4⟩ := h.building_spec hsite.building
  refine ⟨_, hcommitted.inv, fun b hb => ?_⟩
  refine (mem_blocks_place h4 hb).imp id fun hold => ?_
  obtain ⟨δ, hδ⟩ : ∃ δ, st.delta = some δ := by
    refine Option.isSome_iff_exists.mp ?_
    rw [CommitState.isSome_delta_applyUpdates hst, Database.beginCommit, hs]
    rfl
  have hblocks := (hsite.books δ hδ).2
  rw [← oldBlocks_of_new hsite.mark] at hblocks
  exact hblocks.symm.subset (List.mem_append_left _ (List.mem_append_left _ hold))

/-- An object of the file on a path below the snapshot is an older one. -/
theorem file_of_commit (h : db.Inv v) {s : Storage} (hs : db.storage = some s)
    (hc : db.Commits us σ r) {v' : Tree 3} {path : List UInt32} {n : ℕ} {c : Tree n}
    (hinv : (db.applyToDatabase r σ).Inv v') (hsub : v'.Sub path n c)
    (ho : c.mark.origin = .file) : ∃ c' : Tree n, v.Sub path n c' ∧ c'.mark.origin = .file := by
  obtain ⟨v'', hinv', hblocks⟩ := h.blocks_of_commit hs hc
  obtain rfl := Option.some.inj (hinv'.view.symm.trans hinv.view)
  have hb : (⟨⟨path, c.mark.origin⟩, c.mark.fileLocation⟩ : MemoryBlock) ∈ Tree.blocks [] v'' := by
    refine hsub.mem_collect ?_
    rw [LevelTree.collect_eq]
    exact List.mem_append_left _ (List.mem_singleton_self _)
  rcases hblocks _ hb with hnew | hold
  · rw [ho] at hnew
    cases hnew
  · obtain ⟨q, l, c', hsub', -, hmem⟩ :=
      LevelTree.exists_sub_of_mem_collect (LevelTree.Sub.root (v := v)) hold
    obtain ⟨hpointer, -⟩ := MemoryBlock.mk.inj (List.mem_singleton.mp hmem)
    obtain ⟨rfl, horigin⟩ := Pointer.mk.inj hpointer
    obtain rfl : l = n := by
      have h1 := hsub.length
      have h2 := hsub'.length
      omega
    exact ⟨c', hsub', horigin.symm.trans ho⟩

theorem storage_applyToDatabase_of_none (hs : db.storage = none) :
    (db.applyToDatabase r σ).storage = none := by
  simp only [applyToDatabase, hs]

/-- The object of an old segment or cluster is as it was. -/
theorem status_of_commit (h : db.Inv v) (hc : db.Commits us σ r) {q : Pointer} {n : ℕ}
    (hk : db.heap.Known q) (hq : q.origin = .file) (hst : db.heap.status n q = .loaded) :
    r.heap.status n q = .loaded := by
  obtain ⟨v', lost, hcommitted, -⟩ := h.commit hc.commitId hc.result hc.walks hc.endOffset
  refine hcommitted.beside.status hk (Or.inl ?_) hst
  rw [hq]
  trivial

/-- A commit leaves a loaded segment loaded. -/
theorem segmentLoaded_commit (h : db.Inv v) (hc : db.Commits us σ r)
    (hl : db.SegmentLoaded segment) : (db.applyToDatabase r σ).SegmentLoaded segment := by
  obtain ⟨v', lost, hcommitted, -⟩ := h.commit hc.commitId hc.result hc.walks hc.endOffset
  have hinv := hcommitted.inv
  cases hs : db.storage with
  | none =>
    exact (hinv.loaded_of_none (storage_applyToDatabase_of_none hs) segment 0).1
  | some s =>
    intro o ho
    cases o with
    | commit j => exact Heap.status_of_origin (n := 1) hinv.wf nofun
    | file =>
      obtain ⟨c, hc', hv⟩ := Heap.view_child hinv.view hinv.loaded ho
      obtain ⟨c', hsub, horigin⟩ := h.file_of_commit hs hc hinv (LevelTree.Sub.root.child hc')
        (Heap.mark_of_view hinv.wf hv).1
      obtain ⟨o', ho', -, hpointer⟩ := h.segment_of_sub hsub
      obtain rfl : Origin.file = o' := horigin.symm.trans (congrArg Pointer.origin hpointer)
      have hpath : (db.applyToDatabase r σ).snapshot.child segment .file =
          db.snapshot.child segment .file := by
        rw [Pointer.child, Pointer.child, hinv.path, h.path]
      rw [hpath]
      exact h.status_of_commit hc (n := 2) (h.wf.known_child _ _ _ ho') rfl (hl _ ho')

/-- A commit leaves a loaded cluster of a loaded segment loaded. -/
theorem clusterLoaded_commit (h : db.Inv v) (hc : db.Commits us σ r)
    (hl : db.SegmentLoaded segment) (hl' : db.ClusterLoaded segment cluster) :
    (db.applyToDatabase r σ).ClusterLoaded segment cluster := by
  obtain ⟨v', lost, hcommitted, -⟩ := h.commit hc.commitId hc.result hc.walks hc.endOffset
  have hinv := hcommitted.inv
  have hsegment := h.segmentLoaded_commit hc hl
  cases hs : db.storage with
  | none =>
    exact (hinv.loaded_of_none (storage_applyToDatabase_of_none hs) segment cluster).2
  | some s =>
    intro o ho o' ho'
    cases o' with
    | commit j => exact Heap.status_of_origin (n := 1) hinv.wf nofun
    | file =>
      obtain ⟨c, hfind, hv⟩ := Heap.view_child hinv.view hinv.loaded ho
      obtain ⟨d, hfind', hv'⟩ := Heap.view_child hv (hsegment o ho) ho'
      obtain ⟨d', hsub, horigin⟩ := h.file_of_commit hs hc hinv
        ((LevelTree.Sub.root.child hfind).child hfind') (Heap.mark_of_view hinv.wf hv').1
      -- the object of the old tree
      obtain ⟨e, hsub', hfind''⟩ := LevelTree.Sub.exists_parent (p := [segment]) (k := cluster) hsub
      obtain ⟨o₁, ho₁, hv₁, -⟩ := h.segment_of_sub hsub'
      obtain ⟨o₂, ho₂, hv₂⟩ := Heap.find_of_view hv₁ (hl o₁ ho₁) hfind''
      obtain rfl : Origin.file = o₂ := horigin.symm.trans (Heap.mark_of_view h.wf hv₂).1
      have hpath : ((db.applyToDatabase r σ).snapshot.child segment o).child cluster .file =
          (db.snapshot.child segment o₁).child cluster .file := by
        simp only [Pointer.child, hinv.path, h.path]
      rw [hpath]
      exact h.status_of_commit hc (n := 1) (h.wf.known_child _ _ _ ho₂) rfl (hl' _ ho₁ _ ho₂)

end Inv

end Database

end BlobsDb
