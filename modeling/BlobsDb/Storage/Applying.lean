import BlobsDb.Storage.Site

/-!
# What the entries of a commit do

Writing next free ids and blobs, copying and creating segments and clusters, and deleting, as
steps from site to site. `applyUpdates` comes out as `DbTree.updates` on the tree of the new
snapshot, provided that no segment or cluster is copied that is not loaded.
-/

namespace BlobsDb

open Heap (Beside)

variable {C : CommitContext} {O L : List MemoryBlock} {N : List Pointer} {n : ℕ}
  {st st' : CommitState} {this p : Pointer} {id : UInt32}

theorem not_prefix_child {this : Pointer} {id id' : UInt32} (hne : id' ≠ id) :
    ¬this.path ++ [id'] <+: this.path ++ [id] := by
  intro hpre
  have := (List.prefix_append_right_inj this.path).mp hpre
  exact hne (List.cons_prefix_cons.mp this).1

/-- The child with an id is loaded, if there is one. -/
def CommitState.ChildLoaded (st : CommitState) (n : ℕ) (this : Pointer) (id : UInt32) : Prop :=
  ∀ o, (st.heap.directories this).children.find id = some o →
    st.heap.status n (this.child id o) = .loaded

/-- What creating the first child of a new object is to do. -/
def CreatesFirst (C : CommitContext) (n : ℕ)
    (createFirst : Pointer → CommitState → CommitState) : Prop :=
  ∀ N O st p (w : Tree (n + 1)), Site C N O st (n + 1) p w → w.children.find 0 = none →
    Site C N O (createFirst p st) (n + 1) p
        (DbTree.setChild w 0 (DbTree.created (newMark C.commitId) n)) ∧
      Beside C.file C.commitId p.path st.heap (createFirst p st).heap ∧
      (createFirst p st).deleted = st.deleted

namespace Site

theorem setNextFreeId {t : Tree (n + 1)} (h : Site C N O st (n + 1) this t) (id : UInt32) :
    Site C N O (st.setNextFreeId this id) (n + 1) this (DbTree.setNextFreeId t id) ∧
      Beside C.file C.commitId this.path st.heap (st.setNextFreeId this id).heap := by
  have hdir : (st.setNextFreeId this id).heap.directories this =
      { st.heap.directories this with nextFreeId := id } :=
    Heap.directories_setDirectory_self _ _ _
  have hbeside : Beside C.file C.commitId this.path st.heap (st.setNextFreeId this id).heap :=
    Beside.setDirectory _ _ h.origin (List.prefix_refl _)
  refine ⟨⟨?_, h.level, h.origin, ?_, h.building.setNextFreeId C.isOld h.mark id, h.books,
    h.apart, fun htr => (h.freed htr).beside hbeside⟩, hbeside⟩
  · exact h.wf.setDirectory h.origin_ne h.status
      (fun id' o ho => ⟨fun j hj => h.wf.before_child j this id' o hj ho,
        h.wf.known_child this id' o ho⟩)
      (h.wf.nextFreeIdCommit this h.origin_ne)
      fun hlength id' ho => h.wf.nextFreeIdCommit_file this id' hlength ho
  · have hs : ((st.setNextFreeId this id).heap.directories this).status = .loaded := by
      rw [hdir]
      exact h.status
    obtain ⟨h1, h2, h3⟩ := (Heap.view_succ_of_loaded h.status).mp h.view
    refine (Heap.view_succ_of_loaded hs).mpr ⟨by rw [hdir]; exact h1, by rw [hdir]; rfl, ?_⟩
    intro id'
    rw [hdir]
    refine Eq.trans ?_ (h3 id')
    exact congrArg (Option.map · _) (funext fun o =>
      Heap.view_setDirectory_of_not_prefix _ _ fun hpre => by simpa using hpre.length_le)

/-! ### Entering a child -/

theorem wf_enterChild {t : Tree (n + 1)} (h : Site C N O st (n + 1) this t) {g : Heap}
    (hg : g.WF) : (g.setDirectory this { g.directories this with
      children := (g.directories this).children.insert id (.commit C.commitId) }).WF := by
  refine hg.setDirectory h.origin_ne (Heap.status_of_origin (n := 1) hg h.origin_ne)
    (fun id' o ho => ?_) (hg.nextFreeIdCommit this h.origin_ne) fun hlength id' ho => ?_
  · simp only [FlatMap.find_insert] at ho
    split_ifs at ho with hid'
    · cases ho
      exact ⟨fun j hj => by rw [h.origin] at hj; exact hj,
        Heap.known_of_origin fun heq => (nomatch heq)⟩
    · exact ⟨fun j hj => hg.before_child j this id' o hj ho, hg.known_child this id' o ho⟩
  · simp only [FlatMap.find_insert] at ho
    split_ifs at ho with hid'
    · cases ho
    · exact hg.nextFreeIdCommit_file this id' hlength ho

/-- An object the commit made, in `g`, becomes the child with an id. -/
theorem enterChild {t : Tree (n + 1)} (h : Site C N O st (n + 1) this t)
    (hid : id ≠ nextFreeBlobId) {g : Heap} (hg : g.WF)
    (hbeside : Beside C.file C.commitId (this.path ++ [id]) st.heap g)
    (hheap : st'.heap = g.setDirectory this { st.heap.directories this with
      children := (st.heap.directories this).children.insert id (.commit C.commitId) })
    {w : Tree n} (hw : g.view C.file n (this.child id (.commit C.commitId)) = some w)
    (hb : Building C.commitId C.old (this.path ++ [id]) n w)
    (hbooks : Books C.blocks st'.delta
      (newBelow C.commitId (this.path ++ [id]) w ++
        this.child id (.commit C.commitId) :: C.newBeside N this t id)
      (oldBelow C.commitId (this.path ++ [id]) w ++ (L ++ C.oldBeside O this t id)))
    (hfreed : C.tracked → Freed C.commitId g st'.delta) :
    Site C N (L ++ O) st' (n + 1) this (DbTree.setChild t id w) ∧
      Beside C.file C.commitId this.path st.heap st'.heap := by
  have hthis : g.directories this = st.heap.directories this :=
    hbeside.directory this h.known h.status (Or.inr fun hpre => by simpa using hpre.length_le)
  have hlast : Beside C.file C.commitId this.path g st'.heap := by
    rw [hheap]
    exact Beside.setDirectory _ _ h.origin (List.prefix_refl _)
  have hchild : ∀ id' o, st'.heap.view C.file n (this.child id' o) =
      g.view C.file n (this.child id' o) := fun id' o => by
    rw [hheap]
    exact Heap.view_setDirectory_of_not_prefix _ _ fun hpre => by simpa using hpre.length_le
  refine ⟨h.replaceChild hid (by rw [hheap]; exact Heap.directories_setDirectory_self _ _ _)
    (fun id' o hne ho => ?_) ⟨?_, h.level_child _ _, rfl, (hchild _ _).trans hw, hb, hbooks,
      fun q hq => ?_, fun htr => (hfreed htr).beside hlast⟩,
    (hbeside.mono (List.prefix_append _ _)).trans hg hlast⟩
  · rw [hchild]
    exact hbeside.view h.wf n _ (h.level_child _ _) (h.wf.known_child _ _ _ ho)
      (Or.inr ⟨not_prefix_child hne.symm, not_prefix_child hne⟩)
  · rw [hheap, ← hthis]
    exact h.wf_enterChild hg
  · rcases List.mem_cons.mp hq with rfl | hq
    · exact ⟨rfl, fun id' hpre => by simpa using hpre.length_le⟩
    · exact h.apart_newBeside id _ q hq

/-! ### Blobs -/

/-- Writing a blob. -/
theorem updateBlob {t : Tree 1} (h : Site C N O st 1 this t) (hid : id ≠ nextFreeBlobId)
    (hload : C.tracked → ∀ o, (st.heap.directories this).children.find id = some o →
      st.heap.status 0 (this.child id o) = .loaded) (data : List UInt8)
    (hst' : st' = ((CommitState.updateBlob this id st).2.setBlob
      (CommitState.updateBlob this id st).1
      { (CommitState.updateBlob this id st).2.heap.blobs (CommitState.updateBlob this id st).1
        with data := data })) :
    Site C N O st' 1 this (DbTree.setChild t id (LevelTree.leaf (newMark C.commitId) data)) ∧
      Beside C.file C.commitId this.path st.heap st'.heap ∧ st'.deleted = st.deleted := by
  set p := this.child id (.commit C.commitId) with hp
  set w : Tree 0 := LevelTree.leaf (newMark C.commitId) data with hw
  set b : Blob := { Blob.new id C.commitId with data := data } with hb
  have hg : (st.heap.setBlob p b).WF := h.wf.setBlob rfl
  have hbeside : Beside C.file C.commitId (this.path ++ [id]) st.heap (st.heap.setBlob p b) :=
    Beside.setBlob _ _ rfl (List.prefix_refl _)
  have hview : (st.heap.setBlob p b).view C.file 0 p = some w := by
    rw [Heap.view_zero_of_loaded (by rw [Heap.blobs_setBlob_self]; rfl), Heap.blobs_setBlob_self]
    rfl
  -- a new blob takes the place of the one there was, if there was one
  have henter : ∀ st₁ : CommitState, st₁.heap = st.heap → st₁.deleted = st.deleted →
      Books C.blocks st₁.delta (C.newBeside N this t id) (C.oldBeside O this t id) →
      (C.tracked → Freed C.commitId st.heap st₁.delta) →
      st' = ((((st₁.setBlob p (.new id C.commitId)).enterChild this id
        (.commit C.commitId)).allocated p).setBlob p b) →
      Site C N O st' 1 this (DbTree.setChild t id w) ∧
        Beside C.file C.commitId this.path st.heap st'.heap ∧ st'.deleted = st.deleted := by
    rintro st₁ hheap hdel hbooks hfreed rfl
    have hentered : ((((st₁.setBlob p (.new id C.commitId)).enterChild this id
        (.commit C.commitId)).allocated p).setBlob p b).heap =
        (st.heap.setBlob p b).setDirectory this { st.heap.directories this with
          children := (st.heap.directories this).children.insert id (.commit C.commitId) } := by
      simp only [CommitState.setBlob, CommitState.allocated, CommitState.enterChild,
        CommitState.setDirectory, Heap.setBlob, Heap.setDirectory, hheap, Function.update_idem]
    have := h.enterChild (L := []) hid hg hbeside hentered hview (Or.inl rfl)
      (hbooks.allocated (h.not_mem_newBeside id _))
      fun htr => ((hfreed htr).beside hbeside).allocated
    exact ⟨this.1, this.2, hdel⟩
  unfold CommitState.updateBlob at hst'
  simp only [h.commitId] at hst'
  cases ho : (st.heap.directories this).children.find id with
  | none =>
    rw [ho] at hst'
    refine henter st rfl rfl (h.books_of_find_none ((h.find_eq_none_iff id).mp ho)) h.freed ?_
    rw [hst']
    simp only [CommitState.setBlob, CommitState.allocated, CommitState.enterChild,
      CommitState.setDirectory, Heap.blobs_setDirectory, Heap.blobs_setBlob_self, hb, hp]
  | some o =>
    rw [ho] at hst'
    obtain ⟨c, hc, hv, -, hbuild, ⟨rfl, hm⟩ | ⟨hbefore, hold⟩⟩ := h.child_cases ho
    · -- the commit made the blob and changes it in place
      have hid' : ((st.heap.blobs p).commitId ≠ C.commitId) = False :=
        eq_false (not_not_intro (commitId_eq_of_new (n := 0) h.wf hv rfl hm))
      simp only [← hp, hid', if_false] at hst'
      obtain ⟨c', hc', hchild⟩ := h.toChild ho
      have hbes : Beside C.file C.commitId (this.path ++ [id]) st.heap st'.heap := by
        rw [hst']
        exact Beside.setBlob _ _ rfl (List.prefix_refl _)
      have hm' := Heap.view_zero_of_loaded (f := C.file) (p := p)
        (h := (st.setBlob p { st.heap.blobs p with data := data }).heap)
        (by rw [CommitState.setBlob, Heap.blobs_setBlob_self]; exact hchild.status)
      have hv' := Heap.view_zero_of_loaded (f := C.file) hchild.status
      have hmark := hchild.mark
      rw [hchild.view] at hv'
      rw [Option.some.inj hv'] at hmark
      have := h.ofChild (L := []) ho hbes (c := w) ⟨?_, hchild.level, hchild.origin, ?_,
        Or.inl rfl, ?_, hchild.apart, fun htr => ?_⟩
      · exact ⟨this, hbes.mono (List.prefix_append _ _), by rw [hst']; rfl⟩
      · rw [hst']
        exact h.wf.setBlob hchild.status
      · rw [hst', hm', CommitState.setBlob, Heap.blobs_setBlob_self]
        exact congrArg (fun m => some (LevelTree.leaf m data)) hmark
      · rw [hst']
        exact hchild.books
      · have := (h.freed htr).beside hbes
        rw [hst'] at this ⊢
        exact this
    · -- an older blob gives way to a new one
      have hid' : ((st.heap.blobs (this.child id o)).commitId ≠ C.commitId) = True :=
        eq_true (commitId_ne_of_old C (n := 0) h.wf hv hold)
      simp only [hid', if_true] at hst'
      have hbooks := h.books_of_find hc
      refine henter (st.released 0 (this.child id o)) rfl rfl ?_ (fun htr => ?_) ?_
      · exact books_released h.wf hv hbuild (fun q hq => (h.apart_newBeside id o q hq).1) hbooks
      · exact freed_released h.wf (h.level_child _ _) hv hbuild hbooks
          (h.wf.known_child _ _ _ ho) (hload htr o ho) (h.freed htr)
      · rw [hst']
        simp only [CommitState.setBlob, CommitState.allocated, CommitState.enterChild,
          CommitState.setDirectory, Heap.blobs_setDirectory, Heap.blobs_setBlob_self, hb, hp]

/-! ### Segments and clusters -/

/-- A child the commit made is entered under its own name. -/
theorem find_of_mark {t : Tree (n + 1)} (h : Site C N O st (n + 1) this t) {w : Tree n}
    (hw : t.children.find id = some w) (hm : w.mark = newMark C.commitId) :
    (st.heap.directories this).children.find id = some (.commit C.commitId) := by
  obtain ⟨o, ho, hv⟩ := Heap.find_of_view h.view h.status hw
  have := (Heap.mark_of_view h.wf hv).1
  rw [hm] at this
  rw [ho, ← show (newMark C.commitId).origin = o from this]
  rfl

/-- A new object without children. -/
theorem view_new {f : FileContent} {h : Heap} {k : CommitId}
    (hp : p.origin = .commit k) :
    (h.setDirectory p (.new id k)).view f (n + 1) p =
      some (LevelTree.node (newMark k) 0 FlatMap.empty) := by
  refine (Heap.view_succ_of_loaded ?_).mpr ?_
  · rw [Heap.directories_setDirectory_self]
    rfl
  · rw [Heap.directories_setDirectory_self, hp]
    exact ⟨rfl, rfl, fun _ => rfl⟩

/-- Copying an older object that is loaded, or one that is not. -/
theorem exists_view_copy {t : Tree (n + 2)} (h : Site C N O st (n + 2) this t) {o : Origin}
    {c : Tree (n + 1)} (hv : st.heap.view C.file (n + 1) (this.child id o) = some c)
    (hold : C.old (this.path ++ [id]) (n + 1) c) :
    ∃ w, (st.heap.setDirectory (this.child id (.commit C.commitId))
        ((st.heap.directories (this.child id o)).copy C.commitId)).view C.file (n + 1)
        (this.child id (.commit C.commitId)) = some w ∧
      Building C.commitId C.old (this.path ++ [id]) (n + 1) w ∧ newBelow C.commitId
        (this.path ++ [id]) w = [] ∧
      (∃ L, oldBelow C.commitId (this.path ++ [id]) c =
          oldBelow C.commitId (this.path ++ [id]) w ++ L ∧
        (st.heap.status (n + 1) (this.child id o) = .loaded → w = c.setMark (newMark C.commitId) ∧
          L = [])) := by
  set q := this.child id (.commit C.commitId) with hq
  set d := (st.heap.directories (this.child id o)).copy C.commitId with hd
  have hdir : (st.heap.setDirectory q d).directories q = d := Heap.directories_setDirectory_self _ _ _
  have hs : ((st.heap.setDirectory q d).directories q).status = .loaded := by rw [hdir]; rfl
  cases hst : st.heap.status (n + 1) (this.child id o) with
  | loaded =>
    obtain ⟨h1, h2, h3⟩ := (Heap.view_succ_of_loaded hst).mp hv
    refine ⟨c.setMark (newMark C.commitId), (Heap.view_succ_of_loaded hs).mpr ⟨?_, ?_, ?_⟩,
      (Building.of_old hold).setMark C.isOld, ?_, [], ?_, fun _ => ⟨rfl, rfl⟩⟩
    · rw [hdir]
      rfl
    · rw [hdir]
      exact h2
    · intro id'
      rw [hdir]
      refine Eq.trans ?_ (h3 id')
      refine congrArg (Option.map · _) (funext fun o' => ?_)
      exact Heap.view_setDirectory_of_not_prefix (q := q.child id' o') _ _
        fun hpre => by simpa using hpre.length_le
    · rw [newBelow_setMark, newBelow_of_old C.isOld hold]
    · rw [oldBelow_setMark, List.append_nil]
  | notLoaded =>
    obtain ⟨-, hempty, hnext, -⟩ := h.wf.notLoaded _ hst
    refine ⟨LevelTree.node (newMark C.commitId) 0 FlatMap.empty,
      (Heap.view_succ_of_loaded hs).mpr ⟨?_, ?_, ?_⟩,
      Or.inl ⟨rfl, fun _ _ hc => nomatch hc⟩, rfl, _, rfl, fun hs => nomatch hs⟩
    · rw [hdir]
      rfl
    · rw [hdir]
      exact hnext.symm
    · intro id'
      rw [hdir, hd, Directory.copy, hempty]
      rfl

/-- Copying a segment or a cluster. A copy of an object that is not loaded loses the blocks
below it. -/
theorem copyDirectory {t : Tree (n + 2)} (h : Site C N O st (n + 2) this t)
    {o : Origin} (ho : (st.heap.directories this).children.find id = some o)
    (hid : id ≠ nextFreeBlobId)
    (hload : C.tracked → st.heap.status (n + 1) (this.child id o) = .loaded)
    (hbefore : o.Before C.commitId) {c : Tree (n + 1)} (hc : t.children.find id = some c)
    (hv : st.heap.view C.file (n + 1) (this.child id o) = some c)
    (hold : C.old (this.path ++ [id]) (n + 1) c)
    (hst' : st' = (((st.released (n + 1) (this.child id o)).setDirectory
      (this.child id (.commit C.commitId))
      ((st.heap.directories (this.child id o)).copy C.commitId)).enterChild this id
        (.commit C.commitId)).allocated (this.child id (.commit C.commitId))) :
    Beside C.file C.commitId this.path st.heap st'.heap ∧
      ∃ w L, Site C N (L ++ O) st' (n + 2) this (DbTree.setChild t id w) ∧
        w.mark = newMark C.commitId ∧
        (st.heap.status (n + 1) (this.child id o) = .loaded →
          w = c.setMark (newMark C.commitId) ∧ L = []) := by
  set q := this.child id (.commit C.commitId) with hq
  set d := (st.heap.directories (this.child id o)).copy C.commitId with hd
  obtain ⟨w, hw, hb, hnew, L, hL, hclean⟩ := h.exists_view_copy hv hold
  have hne : this ≠ q := fun heq => by
    simpa [hq] using congrArg (List.length ∘ Pointer.path) heq
  -- the copy has the children of the old object, which are older than the commit
  have hg : (st.heap.setDirectory q d).WF := by
    refine h.wf.setDirectory (fun heq => nomatch heq) rfl
      (fun id' o' ho' => ⟨fun j hj => ?_, ?_⟩) (fun _ => rfl)
      fun hlength id' ho' => h.wf.nextFreeIdCommit_file (this.child id o) id' hlength ho'
    · refine h.wf.before_child j (this.child id o) id' o' ?_ ho'
      cases o with
      | file => trivial
      | commit i => exact lt_trans (show i < C.commitId from hbefore) hj
    · exact h.wf.known_child (this.child id o) id' o' ho'
  -- the block of the old object is released, and its children stay in use
  have hbooks := books_released (p := this.child id o) h.wf hv (Building.of_old hold)
    (fun r hr => (h.apart_newBeside id o r hr).1) (h.books_of_find hc)
  rw [Pointer.path_child, newBelow_of_old C.isOld hold, List.nil_append] at hbooks
  have hbeside : Beside C.file C.commitId (this.path ++ [id]) st.heap (st.heap.setDirectory q d) :=
    Beside.setDirectory _ _ rfl (List.prefix_refl _)
  have hheap : st'.heap = (st.heap.setDirectory q d).setDirectory this
      { st.heap.directories this with
        children := (st.heap.directories this).children.insert id (.commit C.commitId) } := by
    rw [hst']
    simp only [CommitState.allocated, CommitState.enterChild, CommitState.setDirectory,
      CommitState.released, Heap.directories_setDirectory_of_ne _ _ hne]
  have hmain := h.enterChild (L := L) hid hg hbeside hheap hw hb ?_ fun htr => ?_
  · refine ⟨hmain.2, w, L, hmain.1, ?_, hclean⟩
    obtain ⟨h1, -⟩ := (Heap.view_succ_of_loaded (by
      rw [Heap.directories_setDirectory_self]; rfl)).mp hw
    rw [h1, Heap.directories_setDirectory_self]
    rfl
  · rw [hst', hnew]
    refine (hbooks.allocated (p := q) (h.not_mem_newBeside id _)).perm (List.Perm.refl _) ?_
    · rw [← List.append_assoc]
      exact List.Perm.append_right _ (List.Perm.of_eq hL)
  · rw [hst']
    refine Freed.allocated (Freed.beside ?_ hbeside)
    exact freed_released h.wf (h.level_child _ _) hv (Building.of_old hold) (h.books_of_find hc)
      (h.wf.known_child _ _ _ ho) (hload htr) (h.freed htr)

/-- Creating a segment or a cluster. -/
theorem createDirectory {createFirst : Pointer → CommitState → CommitState} {t : Tree (n + 2)}
    (hfirst : CreatesFirst C n createFirst) (h : Site C N O st (n + 2) this t)
    (hid : id ≠ nextFreeBlobId) (hc : t.children.find id = none)
    (hst' : st' = ((createFirst (this.child id (.commit C.commitId))
      ((st.setDirectory (this.child id (.commit C.commitId)) (.new id C.commitId)).enterChild this id
        (.commit C.commitId))).setNextFreeId (this.child id (.commit C.commitId)) 1).allocated
      (this.child id (.commit C.commitId))) :
    Site C N O st' (n + 2) this
        (DbTree.setChild t id (DbTree.created (newMark C.commitId) (n + 1))) ∧
      Beside C.file C.commitId this.path st.heap st'.heap ∧ st'.deleted = st.deleted := by
  set q := this.child id (.commit C.commitId) with hq
  have hne : this ≠ q := fun heq => by
    simpa [hq] using congrArg (List.length ∘ Pointer.path) heq
  set g := st.heap.setDirectory q (.new id C.commitId) with hgdef
  set st₁ := (st.setDirectory q (.new id C.commitId)).enterChild this id (.commit C.commitId)
    with hst₁
  have hg : g.WF := h.wf.setDirectory (fun heq => nomatch heq) rfl (fun _ _ ho => nomatch ho)
    (fun _ => rfl) fun _ _ ho => nomatch ho
  have hgthis : g.directories this = st.heap.directories this :=
    Heap.directories_setDirectory_of_ne _ _ hne
  have hheap : st₁.heap = g.setDirectory this { g.directories this with
      children := (g.directories this).children.insert id (.commit C.commitId) } := rfl
  have hbeside₁ : Beside C.file C.commitId this.path st.heap st₁.heap :=
    (Beside.setDirectory _ _ rfl (List.prefix_append _ _)).trans hg
      (Beside.setDirectory _ _ h.origin (List.prefix_refl _))
  -- the new object, before its first child is created
  have hchild : Site C (C.newBeside N this t id) (C.oldBeside O this t id) st₁ (n + 1) q
      (LevelTree.node (newMark C.commitId) 0 FlatMap.empty) := by
    refine ⟨?_, h.level_child _ _, rfl, ?_, Or.inl ⟨rfl, fun _ _ hc => nomatch hc⟩,
      h.books_of_find_none hc, h.apart_newBeside id _, fun htr => (h.freed htr).beside hbeside₁⟩
    · rw [hheap]
      exact h.wf_enterChild hg
    · rw [hheap, Heap.view_setDirectory_of_not_prefix _ _ fun hpre => by
        simpa [hq] using hpre.length_le]
      exact view_new rfl
  obtain ⟨hfirst, hbeside₂, hdel⟩ := hfirst _ _ _ _ _ hchild rfl
  obtain ⟨hnext, hbeside₃⟩ := hfirst.setNextFreeId 1
  have hlast := hnext.allocated (h.not_mem_newBeside id _)
  have hbeside := hbeside₂.trans hfirst.wf hbeside₃
  have hthis₁ : st₁.heap.directories this = { st.heap.directories this with
      children := (st.heap.directories this).children.insert id (.commit C.commitId) } := by
    rw [hheap, Heap.directories_setDirectory_self, hgthis]
  have hpre : ¬q.path <+: this.path := fun hpre => by simpa [hq] using hpre.length_le
  rw [hst']
  refine ⟨h.replaceChild (L := []) hid ?_ (fun id' o hne' ho' => ?_) hlast,
    hbeside₁.trans hchild.wf (hbeside.mono (List.prefix_append _ _)), hdel⟩
  · refine Eq.trans ?_ hthis₁
    exact hbeside.directory this (Heap.known_of_origin h.origin_ne)
      (by rw [hthis₁]; exact h.status) (Or.inr hpre)
  · have hk := h.wf.known_child _ _ _ ho'
    refine (hbeside.view hchild.wf (n + 1) _ (h.level_child _ _) (hbeside₁.known _ hk)
      (Or.inr ⟨not_prefix_child hne'.symm, not_prefix_child hne'⟩)).trans ?_
    rw [hheap, Heap.view_setDirectory_of_not_prefix _ _ fun hpre => by
      simpa using hpre.length_le]
    exact Heap.view_setDirectory_of_not_prefix _ _ (not_prefix_child hne')

/-- Copying or creating a segment or a cluster. A copy of an object that is not loaded loses the
blocks below it. -/
theorem updateDirectory {createFirst : Pointer → CommitState → CommitState} {t : Tree (n + 2)}
    (hfirst : CreatesFirst C n createFirst) (h : Site C N O st (n + 2) this t)
    (hid : id ≠ nextFreeBlobId) (hload : C.tracked → st.ChildLoaded (n + 1) this id)
    (hr : CommitState.updateDirectory (n + 1) createFirst this id st = (p, st')) :
    p = this.child id (.commit C.commitId) ∧
      (st'.heap.directories this).children.find id = some (.commit C.commitId) ∧
      Beside C.file C.commitId this.path st.heap st'.heap ∧ st'.deleted = st.deleted ∧
      ∃ w L, Site C N (L ++ O) st' (n + 2) this (DbTree.setChild t id w) ∧
        (st.ChildLoaded (n + 1) this id →
          w = DbTree.touch (newMark C.commitId) (t.children.find id) ∧ L = []) := by
  set q := this.child id (.commit C.commitId) with hq
  have hne : q ≠ this := fun heq => by
    simpa [hq] using congrArg (List.length ∘ Pointer.path) heq
  -- the objects the commit makes for the child are entered in one way
  suffices hmain : ∃ w L, Site C N (L ++ O) st' (n + 2) this (DbTree.setChild t id w) ∧
      w.mark = newMark C.commitId ∧ p = q ∧
      Beside C.file C.commitId this.path st.heap st'.heap ∧ st'.deleted = st.deleted ∧
      (st.ChildLoaded (n + 1) this id →
          w = DbTree.touch (newMark C.commitId) (t.children.find id) ∧ L = []) by
    obtain ⟨w, L, hsite, hm, hp, hbes, hdel, hclean⟩ := hmain
    refine ⟨hp, hsite.find_of_mark ?_ hm, hbes, hdel, w, L, hsite, hclean⟩
    rw [DbTree.setChild, LevelTree.children_setChildren, FlatMap.find_insert, if_pos rfl]
  unfold CommitState.updateDirectory at hr
  simp only [h.commitId] at hr
  cases ho : (st.heap.directories this).children.find id with
  | none =>
    have hnone := (h.find_eq_none_iff id).mp ho
    rw [ho] at hr
    obtain ⟨rfl, rfl⟩ := Prod.mk.inj hr
    obtain ⟨hsite, hbes, hdel⟩ := h.createDirectory hfirst hid hnone rfl
    refine ⟨_, [], hsite, DbTree.mark_created _ _, rfl, hbes, hdel, fun _ => ⟨?_, rfl⟩⟩
    rw [hnone]
    rfl
  | some o =>
    rw [ho] at hr
    obtain ⟨c, hc, hv, -, hbuild, ⟨rfl, hm⟩ | ⟨hbefore, hold⟩⟩ := h.child_cases ho
    · -- the commit made the child and changes it in place
      have hid' : ((st.heap.directories q).commitId ≠ C.commitId) = False :=
        eq_false (not_not_intro (commitId_eq_of_new (n := n + 1) h.wf hv rfl hm))
      simp only [← hq, hid', if_false] at hr
      obtain ⟨rfl, rfl⟩ := Prod.mk.inj hr
      refine ⟨c, [], ?_, hm, rfl, Beside.refl _ _ _ _, rfl, fun _ => ⟨?_, rfl⟩⟩
      · rw [show DbTree.setChild t id c = t from
          LevelTree.ext_succ rfl rfl (FlatMap.insert_find hc)]
        exact h
      · rw [hc, DbTree.touch, ← hm, LevelTree.setMark_mark]
    · -- an older child gives way to a copy
      have hid' : ((st.heap.directories (this.child id o)).commitId ≠ C.commitId) = True :=
        eq_true (commitId_ne_of_old C (n := n + 1) h.wf hv hold)
      simp only [hid', if_true] at hr
      obtain ⟨rfl, rfl⟩ := Prod.mk.inj hr
      obtain ⟨hbes, w, L, hsite, hm, hclean⟩ := h.copyDirectory ho hid
        (fun htr => hload htr o ho) hbefore hc hv hold rfl
      refine ⟨w, L, hsite, hm, rfl, hbes, rfl, fun hl => ?_⟩
      rw [hc]
      exact hclean (hl o ho)

end Site

/-! ### Deleting -/

/-- Releasing a tree takes all its objects and blocks off the lists. -/
theorem releaseTree_spec {c : Tree n} (hwf : st.heap.WF) (hn : p.path.length + n = 3)
    (hk : st.heap.Known p) (hv : st.heap.view C.file n p = some c)
    (hb : Building C.commitId C.old p.path n c) (hN : ∀ q ∈ N, q.origin = .commit C.commitId)
    (hbooks : Books C.blocks st.delta (newPointers C.commitId p.path c ++ N)
      (oldBlocks C.commitId p.path c ++ O))
    (hdirs : st.heap.DirectoriesLoaded n p)
    (hload : C.tracked → st.heap.status n p = .loaded ∧ st.heap.LoadedBelow n p)
    (hfreed : C.tracked → Freed C.commitId st.heap st.delta) :
    (CommitState.releaseTree n p st).heap = st.heap ∧
      (CommitState.releaseTree n p st).deleted = st.deleted ∧
      Books C.blocks (CommitState.releaseTree n p st).delta N O ∧
      (C.tracked → Freed C.commitId st.heap (CommitState.releaseTree n p st).delta) := by
  induction n generalizing p st N O with
  | zero =>
    refine ⟨rfl, rfl, ?_, fun htr => freed_released hwf hn hv hb hbooks hk (hload htr).1
      (hfreed htr)⟩
    exact books_released hwf hv hb hN hbooks
  | succ n ih =>
    have hbooks' := books_released hwf hv hb hN hbooks
    have hfreed' := fun htr => freed_released hwf hn hv hb hbooks hk (hload htr).1 (hfreed htr)
    set k := C.commitId with hkdef
    set d := st.heap.directories p with hd
    -- the children in the rest `l` of the list are those of `m`
    have hfold : ∀ (l : List (UInt32 × Origin)) (m : FlatMap UInt32 (Tree n)) (st₁ : CommitState),
        l.Pairwise (fun a b => a.1 < b.1) → (∀ e ∈ l, e ∈ d.children.entries) →
        (∀ id, m.find id = if id ∈ l.map Prod.fst then c.children.find id else none) →
        st₁.heap = st.heap → st₁.deleted = st.deleted →
        Books C.blocks st₁.delta
          ((m.flatMapBy fun id c => newPointers k (p.path ++ [id]) c) ++ N)
          ((m.flatMapBy fun id c => oldBlocks k (p.path ++ [id]) c) ++ O) →
        (C.tracked → Freed k st.heap st₁.delta) →
        ∀ st₂, st₂ = l.foldl (fun st e => CommitState.releaseTree n (p.child e.1 e.2) st) st₁ →
        st₂.heap = st.heap ∧ st₂.deleted = st.deleted ∧ Books C.blocks st₂.delta N O ∧
          (C.tracked → Freed k st.heap st₂.delta) := fun l => by
      induction l with
      | nil =>
        rintro m st₁ - - hm hheap hdel hbooks hfreed st₂ rfl
        obtain rfl : m = FlatMap.empty := FlatMap.ext_find fun id => by rw [hm id]; rfl
        exact ⟨hheap, hdel, hbooks, hfreed⟩
      | cons e l ihl =>
        rintro m st₁ hsorted hsub hm hheap hdel hbooks hfreed st₂ rfl
        obtain ⟨he, hsorted⟩ := List.pairwise_cons.mp hsorted
        have ho : d.children.find e.1 = some e.2 :=
          FlatMap.find_eq_some_iff.mpr (hsub e List.mem_cons_self)
        obtain ⟨ce, hce, hve⟩ := Heap.view_child hv hdirs.1 ho
        have hme : m.find e.1 = some ce := by
          rw [hm, if_pos (by simp), hce]
        have hchild := ih (p := p.child e.1 e.2) (c := ce)
          (N := ((m.erase e.1).flatMapBy fun id c => newPointers k (p.path ++ [id]) c) ++ N)
          (O := ((m.erase e.1).flatMapBy fun id c => oldBlocks k (p.path ++ [id]) c) ++ O)
          (hheap ▸ hwf) (Heap.length_child hn _ _) (hheap ▸ hwf.known_child _ _ _ ho)
          (hheap ▸ hve) (hb.child C.isOld hce).2 ?_ ?_ (hheap ▸ hdirs.2 _ _ ho)
          (fun htr => hheap ▸ (hload htr).2 _ _ ho) (fun htr => hheap ▸ hfreed htr)
        · obtain ⟨h1, h2, h3, h4⟩ := hchild
          refine ihl (m.erase e.1) _ hsorted (fun e' he' => hsub e' (List.mem_cons_of_mem _ he'))
            (fun id => ?_) (h1.trans hheap) (h2.trans hdel) h3 (fun htr => hheap ▸ h4 htr) _ rfl
          rw [FlatMap.find_erase, hm]
          by_cases hid : id = e.1
          · have hnot : id ∉ l.map Prod.fst := fun hmem => by
              obtain ⟨e', he', rfl⟩ := List.mem_map.mp hmem
              exact absurd (he e' he') (by rw [hid]; exact lt_irrefl _)
            rw [if_pos hid, if_neg hnot]
          · rw [if_neg hid]
            exact if_congr (by rw [List.map_cons, List.mem_cons, or_iff_right hid]) rfl rfl
        · intro q hq
          rcases List.mem_append.mp hq with hq | hq
          · obtain ⟨_, _, -, hq⟩ := FlatMap.mem_flatMapBy.mp hq
            exact origin_of_mem_newPointers hq
          · exact hN q hq
        · refine hbooks.perm ?_ ?_
          · rw [← List.append_assoc]
            exact (FlatMap.flatMapBy_perm_of_find
              (g := fun id c => newPointers k (p.path ++ [id]) c) hme).append_right N
          · rw [← List.append_assoc]
            exact (FlatMap.flatMapBy_perm_of_find
              (g := fun id c => oldBlocks k (p.path ++ [id]) c) hme).append_right O
    refine hfold d.children.entries c.children (st.released (n + 1) p) d.children.sorted
      (fun _ => id) (fun id => ?_) rfl rfl hbooks' hfreed' _ rfl
    split_ifs with hmem
    · rfl
    · refine (Heap.find_eq_none_iff_of_view hv hdirs.1 id).mp ?_
      cases ho : (st.heap.directories p).children.find id with
      | none => rfl
      | some o =>
        exact absurd (FlatMap.mem_keys.mpr (by rw [← hd] at ho; rw [ho]; rfl)) hmem

/-- Deleting a child. -/
theorem Site.deleteChild {t : Tree (n + 1)} (h : Site C N O st (n + 1) this t)
    (hdirs : ∀ o, (st.heap.directories this).children.find id = some o →
      st.heap.DirectoriesLoaded n (this.child id o))
    (hload : C.tracked → ∀ o, (st.heap.directories this).children.find id = some o →
      st.heap.status n (this.child id o) = .loaded ∧ st.heap.LoadedBelow n (this.child id o))
    (hst' : st' = CommitState.deleteChild n this id st) :
    Site C N O st' (n + 1) this (DbTree.eraseChild t id) ∧
      Beside C.file C.commitId this.path st.heap st'.heap ∧ st'.deleted = st.deleted := by
  unfold CommitState.deleteChild at hst'
  cases ho : (st.heap.directories this).children.find id with
  | none =>
    rw [ho] at hst'
    obtain rfl := hst'
    rw [eraseChild_of_find_none ((h.find_eq_none_iff id).mp ho)]
    exact ⟨h, Beside.refl _ _ _ _, rfl⟩
  | some o =>
    rw [ho] at hst'
    obtain ⟨c, hc, hv, -, hb, -⟩ := h.child_cases ho
    -- the blocks of the child and of all below it are released
    obtain ⟨h1, h2, h3, h4⟩ := releaseTree_spec h.wf (h.level_child id o)
      (h.wf.known_child _ _ _ ho) hv hb (fun q hq => (h.apart_newBeside id o q hq).1)
      (h.books_of_find hc) (hdirs o ho) (fun htr => hload htr o ho) h.freed
    have hheap : st'.heap = st.heap.setDirectory this { st.heap.directories this with
        children := (st.heap.directories this).children.erase id } := by
      simp only [hst', CommitState.eraseChild, CommitState.setDirectory, h1]
    have hdir : st'.heap.directories this = { st.heap.directories this with
        children := (st.heap.directories this).children.erase id } := by
      rw [hheap, Heap.directories_setDirectory_self]
    have hbeside : Beside C.file C.commitId this.path st.heap st'.heap := by
      rw [hheap]
      exact Beside.setDirectory _ _ h.origin (List.prefix_refl _)
    have hdelta : st'.delta = (CommitState.releaseTree n (this.child id o) st).delta := by
      rw [hst']
      rfl
    refine ⟨⟨?_, h.level, h.origin, ?_, h.building.eraseChild C.isOld h.mark id, ?_, h.apart,
      fun htr => ?_⟩, hbeside, ?_⟩
    · rw [hheap]
      have hfind : ∀ id' o', ((st.heap.directories this).children.erase id).find id' = some o' →
          (st.heap.directories this).children.find id' = some o' := fun id' o' ho' => by
        rw [FlatMap.find_erase] at ho'
        split_ifs at ho'
        exact ho'
      exact h.wf.setDirectory h.origin_ne h.status
        (fun id' o' ho' => ⟨fun j hj => h.wf.before_child j this id' o' hj (hfind id' o' ho'),
          h.wf.known_child this id' o' (hfind id' o' ho')⟩)
        (h.wf.nextFreeIdCommit this h.origin_ne)
        fun hlength id' ho' => h.wf.nextFreeIdCommit_file this id' hlength (hfind id' _ ho')
    · -- the children that stay look as before
      have hs : (st'.heap.directories this).status = .loaded := by
        rw [hdir]
        exact h.status
      obtain ⟨hm, hi, hch⟩ := (Heap.view_succ_of_loaded h.status).mp h.view
      refine (Heap.view_succ_of_loaded hs).mpr
        ⟨by rw [hdir]; exact hm, by rw [hdir]; exact hi, fun id' => ?_⟩
      rw [hdir]
      simp only [DbTree.eraseChild, LevelTree.children_setChildren, FlatMap.find_erase]
      split_ifs
      · rfl
      · rw [← hch id', hheap]
        exact congrArg (Option.map · _) (funext fun o' =>
          Heap.view_setDirectory_of_not_prefix _ _ fun hpre => by simpa using hpre.length_le)
    · rw [hdelta]
      exact h3
    · rw [hdelta]
      exact (h4 htr).beside hbeside
    · rw [hst']
      exact h2

end BlobsDb
