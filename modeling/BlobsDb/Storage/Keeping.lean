import BlobsDb.Storage.Running

/-!
# Space and snapshots under clean commits

A commit is clean when the segments and clusters it copies are loaded (`CopiesLoaded`). Clean
commits mean what their entries say, they lose no space, and they keep what the readers of an
older snapshot see: the blocks of that snapshot that are not loaded are blocks of the active
snapshot as well, because a block is only given back after its object was loaded.
-/

namespace BlobsDb

open Heap (Beside)

namespace Database

variable {db db' : Database} {v v' v₀ : Tree 3} {p : Pointer} {us : List BlobData} {σ : Schedule}
  {r : CommitResult} {lost : List MemoryBlock}

/-! ### Space -/

/-- Every position of the file up to the end offset has exactly one use. -/
def SpaceExact (db : Database) : Prop :=
  ∀ s ∈ db.storage, ∃ v, db.tree db.snapshot = some v ∧
    Partitions (usedExtents v s.freeList ++ s.freeList.entries) s.freeList.endOffset

/-- The invariant together with the count of all space. -/
def Counted (db : Database) (v : Tree 3) : Prop :=
  db.Inv v ∧ ∀ L ∈ db.storage.map Storage.freeList, ∀ x, spaceCount v L x = 1

theorem Counted.spaceExact (h : db.Counted v) : db.SpaceExact := fun s hs => by
  refine ⟨v, h.1.view, partitions_iff.mpr fun x => ?_⟩
  have := h.2 s.freeList (Option.mem_map_of_mem _ hs) x
  rw [spaceCount, FreeList.free] at this
  rw [coverage_append]
  split_ifs at this ⊢ <;> omega

theorem spaceCount_onFile (v : Tree 3) (L : FreeList) (x : ℕ) :
    spaceCount v.onFile L x = spaceCount v L x := by
  rw [spaceCount, usedExtents, Tree.extents_onFile]
  rfl

/-- A commit that loses no blocks counts all space. -/
theorem Counted.commit (h : db.Counted v) (hc : Committed db v us σ r v' []) {s : Storage}
    {L : FreeList} (hs : db.storage = some s) (hL : r.freeList = some L) (x : ℕ) :
    spaceCount v' L x = 1 := by
  have := hc.space s hs L hL x
  rw [h.2 s.freeList (Option.mem_map_of_mem _ hs) x] at this
  exact this

/-- A commit of a file database has a free list. -/
theorem isSome_freeList (h : db.Inv v) (hc : db.Commits us σ r) :
    r.freeList.isSome = db.storage.isSome := by
  have hr := hc.result
  obtain ⟨st, t, lost, hst, -⟩ := h.updates hc.commitId us (fun h : False => h.elim)
    fun h => h.elim
  rw [calculateCommitResult, hst] at hr
  have hdelta : st.delta.isSome = db.storage.isSome := by
    rw [CommitState.isSome_delta_applyUpdates hst, beginCommit, Option.isSome_map]
  cases hs : db.storage with
  | none =>
    rw [hs] at hr
    obtain rfl := Option.some.inj hr
    rfl
  | some s =>
    obtain ⟨δ, hδ⟩ := Option.isSome_iff_exists.mp (hdelta.trans (by rw [hs]; rfl))
    rw [hs] at hr
    simp only [hδ] at hr
    obtain rfl := Option.some.inj hr
    rfl

/-- One step with a clean commit keeps all space counted. -/
theorem Step.exists_counted (hstep : Step CopiesLoaded db db') (h : db.Counted v) :
    ∃ v', db'.Counted v' := by
  cases hstep with
  | load hn hk hload =>
    exact ⟨v, h.1.loads (Heap.loads_of_ensureLoaded h.1.wf hn hk hload).1, h.2⟩
  | beginMVCC => exact ⟨v, h.1.beginMVCC, h.2⟩
  | endMVCC => exact ⟨v, h.1.endMVCC, h.2⟩
  | commit ha hc =>
    obtain ⟨v', lost, hcommitted, hclean⟩ := h.1.commit hc.commitId hc.result hc.walks hc.endOffset
    obtain ⟨-, rfl, -⟩ := hclean ha
    refine ⟨v', hcommitted.inv, fun L hL => ?_⟩
    have hsome := isSome_freeList h.1 hc
    cases hs : db.storage with
    | none =>
      rw [Option.mem_def] at hL
      simp only [applyToDatabase, hs] at hL
      cases hL
    | some s =>
      obtain ⟨L', hL'⟩ := Option.isSome_iff_exists.mp (hsome.trans (by rw [hs]; rfl))
      rw [freeList_applyToDatabase hs hL'] at hL
      obtain rfl := Option.some.inj hL
      exact h.commit hcommitted hs hL'
  | reopen hopen =>
    obtain ⟨hinv, hstorage, -⟩ := h.1.exists_reopen hopen
    refine ⟨_, hinv, fun L hL x => ?_⟩
    rw [hstorage] at hL
    rw [spaceCount_onFile]
    exact h.2 L hL x
  | stop ha hc hg hopen =>
    obtain ⟨v', lost, hcommitted, hclean⟩ := h.1.commit hc.commitId hc.result hc.walks hc.endOffset
    obtain ⟨-, rfl, -⟩ := hclean ha
    obtain ⟨s, L, db'', hs, hL, h1, h2⟩ := h.1.exists_open_of_stop hcommitted hg
    obtain rfl := Option.some.inj (h1.symm.trans hopen)
    rcases h2 with ⟨hinv, hlist⟩ | ⟨hinv, hlist⟩
    · refine ⟨_, hinv, fun L' hL' x => ?_⟩
      rw [hlist] at hL'
      obtain rfl := Option.some.inj hL'
      rw [spaceCount_onFile]
      exact h.2 _ (Option.mem_map_of_mem _ hs) x
    · refine ⟨_, hinv, fun L' hL' x => ?_⟩
      rw [hlist] at hL'
      obtain rfl := Option.some.inj hL'
      rw [spaceCount_onFile]
      exact h.commit hcommitted hs hL x

theorem New.exists_counted (h : New db) : ∃ v, db.Counted v := by
  rcases h with rfl | h
  · exact ⟨_, inv_initializeInMemory, fun L hL => nomatch hL⟩
  · obtain ⟨db', h1, h2, h3, -⟩ := Initial.exists_readInitialFileDatabaseData
    obtain rfl := Option.some.inj (h1.symm.trans h)
    refine ⟨_, h2, fun L hL x => ?_⟩
    rw [h3] at hL
    obtain rfl := Option.some.inj hL
    rw [spaceCount_onFile]
    exact Initial.spaceCount_eq x

/-- In runs of clean commits, with reopens and stops in between, no byte of the file is used
twice and none is lost. -/
theorem Reachable.spaceExact (h : Reachable CopiesLoaded db) : db.SpaceExact := by
  obtain ⟨db₀, hnew, hsteps⟩ := h
  suffices ∃ v, db.Counted v from this.elim fun v hv => hv.spaceExact
  induction hsteps with
  | refl => exact hnew.exists_counted
  | tail _ hstep ih => exact hstep.exists_counted ih.choose_spec

/-! ### Snapshots -/

/-- The snapshot `p` still has the tree `v₀`: its blocks are in memory, or they are blocks of the
active snapshot, which has the tree `v`. -/
structure Kept (db : Database) (v v₀ : Tree 3) (p : Pointer) : Prop where
  path : p.path = []
  loaded : (db.heap.directories p).status = .loaded
  view : db.tree p = some v₀
  origin : v₀.AllMarks fun m => m.origin.Before (db.commitId + 1)
  blocks : db.storage.isSome = true → ∀ b ∈ Tree.blocks [] v₀,
    (db.heap.Known b.pointer ∧ db.heap.status b.pointer.level b.pointer = .loaded) ∨
      b ∈ Tree.blocks [] v

namespace Kept

theorem level (h : db.Kept v v₀ p) : p.path.length + 3 = 3 := by rw [h.path]; rfl

theorem known (h : db.Kept v v₀ p) : db.heap.Known p := fun _ path hpre hne => by
  rw [h.path] at hpre hne
  exact absurd (List.prefix_nil.mp hpre) hne

/-- A snapshot that was just captured. -/
theorem capture (h : db.Inv v) : db.Kept v v db.snapshot :=
  ⟨h.path, h.loaded, h.view, h.origin, fun _ _ hb => Or.inr hb⟩

/-- Loading keeps snapshots. -/
theorem loads (hinv : db.Inv v) (h : db.Kept v v₀ p) {g : Heap}
    (hl : Heap.Loads db.file db.heap g) : ({ db with heap := g } : Database).Kept v v₀ p := by
  have hcommit : ({ db with heap := g } : Database).commitId = db.commitId :=
    congrArg Directory.commitId (hl.directory db.snapshot hinv.known hinv.loaded)
  refine ⟨h.path, hl.status (n := 3) h.known h.loaded,
    (hl.view hinv.wf 3 p h.level h.known).trans h.view, hcommit.symm ▸ h.origin, fun hs b hb => ?_⟩
  exact (h.blocks hs b hb).imp_left fun hb => ⟨hl.known _ hb.1, hl.status hb.1 hb.2⟩

/-- Clean commits keep snapshots. -/
theorem commit (hinv : db.Inv v) (h : db.Kept v v₀ p) (hc : Committed db v us σ r v' [])
    (hfreed : Freed (db.commitId + 1) r.heap r.delta) :
    (db.applyToDatabase r σ).Kept v' v₀ p := by
  have hwf : r.heap.WF := hc.inv.wf
  have hbefore : ∀ b ∈ Tree.blocks [] v₀, b.pointer.origin.Before (db.commitId + 1) :=
    fun b hb => Tree.origin_of_mem_blocks h.origin hb
  have hp : p.origin.Before (db.commitId + 1) := by
    have := h.origin.mark
    rwa [(Heap.mark_of_view hinv.wf h.view).1] at this
  have hview : r.heap.view db.file 3 p = some v₀ :=
    (hc.beside.view hinv.wf 3 p h.level h.known (Or.inl hp)).trans h.view
  -- what is loaded stays loaded while the commit is built
  have hloaded : ∀ b ∈ Tree.blocks [] v₀,
      db.heap.Known b.pointer ∧ db.heap.status b.pointer.level b.pointer = .loaded →
      r.heap.Known b.pointer ∧ r.heap.status b.pointer.level b.pointer = .loaded :=
    fun b hb hl => ⟨hc.beside.known _ hl.1,
      hc.beside.status hl.1 (Or.inl (hbefore b hb)) hl.2⟩
  have hstorage : (db.applyToDatabase r σ).storage.isSome = true → db.storage.isSome = true := by
    intro hs
    cases hdb : db.storage with
    | none =>
      simp only [applyToDatabase, hdb] at hs
      exact hs
    | some s => rfl
  refine ⟨h.path, hc.beside.status (n := 3) h.known (Or.inl hp) h.loaded, ?_, ?_,
    fun hs b hb => ?_⟩
  · cases hdb : db.storage with
    | none =>
      have hfile : (db.applyToDatabase r σ).file = db.file := by
        simp only [file, applyToDatabase, hdb]
      rw [tree, hfile]
      exact hview
    | some s =>
      -- a block that is still read from the file is not written over
      refine view_of_file hwf h.level hview fun b hb => ?_
      rw [h.path] at hb
      rcases h.blocks (by rw [hdb]; rfl) b hb with hl | hb'
      · exact Or.inl (hloaded b hb hl)
      · refine Or.inr (hc.keeps _ ?_)
        rw [← Tree.map_blocks []]
        exact List.mem_map_of_mem hb'
  · rw [hc.commitId]
    refine h.origin.imp fun m hm => ?_
    cases ho : m.origin with
    | file => trivial
    | commit j =>
      rw [ho] at hm
      exact Nat.lt_succ_of_lt hm
  · rcases h.blocks (hstorage hs) b hb with hl | hb'
    · exact Or.inl (hloaded b hb hl)
    · rcases hc.blocks (hstorage hs) b hb' with hb' | hb' | ⟨δ, hδ, hb'⟩
      · exact Or.inr hb'
      · cases hb'
      · obtain ⟨-, h2, h3⟩ := hfreed δ hδ b hb'
        exact Or.inl ⟨h2, h3⟩

end Kept

theorem mvcc_of_open {f : FileContent} (h : readInitialFileDatabaseData f = some db) :
    db.mvccSnapshot = none ∧ db.mvccUseCount = 0 := by
  unfold readInitialFileDatabaseData at h
  dsimp only at h
  repeat' split at h
  all_goals cases h
  exact ⟨rfl, rfl⟩

/-- The readers' snapshot is in use and has the tree `v₀`. -/
def Holds (db : Database) (v₀ : Tree 3) : Prop :=
  0 < db.mvccUseCount ∧ ∃ v p, db.Inv v ∧ db.mvccSnapshot = some p ∧ db.Kept v v₀ p

/-- A step that does not end the last reader's transaction keeps the readers' snapshot. -/
theorem Step.holds (hstep : Step CopiesLoaded db db') (h : db.Holds v₀)
    (huse : 0 < db'.mvccUseCount) : db'.Holds v₀ := by
  obtain ⟨hpos, v, p, hinv, hp, hk⟩ := h
  refine ⟨huse, ?_⟩
  cases hstep with
  | load hn hk' hload =>
    have hl := (Heap.loads_of_ensureLoaded hinv.wf hn hk' hload).1
    exact ⟨v, p, hinv.loads hl, hp, hk.loads hinv hl⟩
  | beginMVCC =>
    refine ⟨v, p, hinv.beginMVCC, ?_, { hk with }⟩
    simp only [Database.beginMVCC, if_neg hpos.ne', hp]
  | endMVCC =>
    refine ⟨v, p, hinv.endMVCC, ?_, { hk with }⟩
    simp only [Database.endMVCC, hp]
    exact if_neg (Nat.pos_iff_ne_zero.mp huse)
  | commit ha hc =>
    obtain ⟨v', lost, hcommitted, hclean⟩ := hinv.commit hc.commitId hc.result hc.walks hc.endOffset
    obtain ⟨-, rfl, hfreed⟩ := hclean ha
    exact ⟨v', p, hcommitted.inv, hp, hk.commit hinv hcommitted (hfreed (by rw [hp]; rfl))⟩
  | reopen hopen =>
    rw [(mvcc_of_open hopen).2] at huse
    exact absurd huse (Nat.lt_irrefl 0)
  | stop ha hc hg hopen =>
    rw [(mvcc_of_open hopen).2] at huse
    exact absurd huse (Nat.lt_irrefl 0)

end Database

end BlobsDb
