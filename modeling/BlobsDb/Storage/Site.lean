import BlobsDb.Storage.Building

/-!
# Working on an object of a commit

A commit works its way down: it changes an object it made itself, at some place in the new
snapshot. `Site` says what holds there: the object has a tree of new nodes above old trees, and
the books are right, where `N` and `O` stand for the new objects and the old blocks elsewhere.

Each function of the commit is shown to take a site to a site with the tree the function is to
build, to change nothing beside it, and to keep `N` and `O`, up to blocks that are lost.
-/

namespace BlobsDb

open Heap (Beside)

/-- What a commit starts from: the file, its own id, the trees it finds, and the blocks of the
database before it, which belong to distinct objects. `tracked` says whether the released blocks
are to be those of loaded objects only. -/
structure CommitContext where
  file : FileContent
  commitId : CommitId
  old : List UInt32 → ∀ n, Tree n → Prop
  blocks : List MemoryBlock
  tracked : Prop
  isOld : IsOld commitId old
  commitId_ne : commitId ≠ unknownCommitId
  nodup : (blocks.map MemoryBlock.pointer).Nodup

variable {C : CommitContext} {O L : List MemoryBlock} {N : List Pointer} {n : ℕ}
  {st st' st'' : CommitState} {this p : Pointer} {id : UInt32}

namespace CommitContext

/-- The new objects beside a child. -/
def newBeside (C : CommitContext) (N : List Pointer) (this : Pointer) (t : Tree (n + 1))
    (id : UInt32) : List Pointer :=
  newBelow C.commitId this.path (DbTree.eraseChild t id) ++ N

/-- The old blocks beside a child. -/
def oldBeside (C : CommitContext) (O : List MemoryBlock) (this : Pointer) (t : Tree (n + 1))
    (id : UInt32) : List MemoryBlock :=
  oldBelow C.commitId this.path (DbTree.eraseChild t id) ++ O

end CommitContext

/-- The state of the commit at an object it made. -/
structure Site (C : CommitContext) (N : List Pointer) (O : List MemoryBlock) (st : CommitState)
    (n : ℕ) (this : Pointer) (t : Tree n) : Prop where
  wf : st.heap.WF
  level : this.path.length + n = 3
  origin : this.origin = .commit C.commitId
  view : st.heap.view C.file n this = some t
  building : Building C.commitId C.old this.path n t
  books : Books C.blocks st.delta (newBelow C.commitId this.path t ++ N)
    (oldBelow C.commitId this.path t ++ O)
  apart : ∀ q ∈ N, q.origin = .commit C.commitId ∧ ∀ id, ¬this.path ++ [id] <+: q.path
  freed : C.tracked → Freed C.commitId st.heap st.delta

/-- The commit id of an object that is older than the commit, loaded or not. -/
theorem commitId_ne_of_old (C : CommitContext) {h : Heap} (hwf : h.WF) {c : Tree n}
    (hv : h.view C.file n p = some c) (hs : C.old p.path n c) :
    h.commitId n p ≠ C.commitId := by
  cases hst : h.status n p with
  | loaded =>
    rw [Heap.commitId_of_view hv hst]
    exact (C.isOld.commitId hs).ne
  | notLoaded =>
    have : h.commitId n p = unknownCommitId := by
      cases n with
      | zero => exact (hwf.blob_notLoaded p hst).2
      | succ n => exact (hwf.notLoaded p hst).2.2.2
    rw [this]
    exact C.commitId_ne.symm

theorem commitId_eq_of_new {k : CommitId} {f : FileContent} {h : Heap} (hwf : h.WF) {c : Tree n}
    (hv : h.view f n p = some c) (hp : p.origin = .commit k) (hm : c.mark = newMark k) :
    h.commitId n p = k := by
  rw [Heap.commitId_of_view hv (Heap.status_of_origin hwf (by rw [hp]; exact fun h => nomatch h)),
    hm]
  rfl

/-- Releasing an object takes it, or its block, off the lists. -/
theorem books_released {c : Tree n} (hwf : st.heap.WF)
    (hv : st.heap.view C.file n p = some c) (hb : Building C.commitId C.old p.path n c)
    (hN : ∀ q ∈ N, q.origin = .commit C.commitId)
    (hbooks : Books C.blocks st.delta (newPointers C.commitId p.path c ++ N)
      (oldBlocks C.commitId p.path c ++ O)) :
    Books C.blocks (st.released n p).delta (newBelow C.commitId p.path c ++ N)
      (oldBelow C.commitId p.path c ++ O) := by
  obtain ⟨horigin, hloc⟩ := Heap.mark_of_view hwf hv
  rcases hb.cases with hm | hs
  · rw [newPointers_of_new hm, oldBlocks_of_new hm] at hbooks
    have hp : p = ⟨p.path, .commit C.commitId⟩ := by
      rw [hm] at horigin
      exact congrArg (Pointer.mk p.path) horigin.symm
    rw [← hp] at hbooks
    exact hbooks.released_new
  · rw [newPointers_of_old C.isOld hs, oldBlocks_of_old (C.isOld.commitId hs).ne, horigin,
      hloc] at hbooks
    rw [newBelow_of_old C.isOld hs]
    refine hbooks.released_old C.nodup fun hmem => ?_
    have hbefore := C.isOld.before hs
    rw [horigin, hN _ hmem] at hbefore
    exact absurd hbefore (Nat.lt_irrefl _)

theorem freed_released {c : Tree n} (hwf : st.heap.WF) (hn : p.path.length + n = 3)
    (hv : st.heap.view C.file n p = some c) (hb : Building C.commitId C.old p.path n c)
    (hbooks : Books C.blocks st.delta (newPointers C.commitId p.path c ++ N)
      (oldBlocks C.commitId p.path c ++ O))
    (hk : st.heap.Known p) (hs : st.heap.status n p = .loaded)
    (hf : Freed C.commitId st.heap st.delta) :
    Freed C.commitId st.heap (st.released n p).delta := by
  obtain ⟨horigin, hloc⟩ := Heap.mark_of_view hwf hv
  rcases hb.cases with hm | hold
  · rw [newPointers_of_new hm] at hbooks
    have hp : p = ⟨p.path, .commit C.commitId⟩ := by
      rw [hm] at horigin
      exact congrArg (Pointer.mk p.path) horigin.symm
    rw [← hp] at hbooks
    exact hf.released_new hbooks
  · refine hf.released ⟨horigin ▸ C.isOld.before hold, hk, ?_⟩
    rw [show p.level = n by rw [Pointer.level]; omega]
    exact hs

namespace Site

variable {t : Tree n}

theorem origin_ne (h : Site C N O st n this t) : this.origin ≠ .file := by
  rw [h.origin]
  exact fun heq => (nomatch heq)

theorem status (h : Site C N O st n this t) : st.heap.status n this = .loaded :=
  Heap.status_of_origin h.wf h.origin_ne

theorem mark (h : Site C N O st n this t) : t.mark = newMark C.commitId := by
  rcases h.building.cases with hm | hs
  · exact hm
  · have := C.isOld.before hs
    rw [(Heap.mark_of_view h.wf h.view).1, h.origin] at this
    exact absurd this (Nat.lt_irrefl _)

theorem known (h : Site C N O st n this t) : st.heap.Known this :=
  Heap.known_of_origin h.origin_ne

theorem level_child {t : Tree (n + 1)} (h : Site C N O st (n + 1) this t) (id : UInt32)
    (o : Origin) : (this.child id o).path.length + n = 3 :=
  Heap.length_child h.level id o

theorem commitId {t : Tree (n + 1)} (h : Site C N O st (n + 1) this t) :
    (st.heap.directories this).commitId = C.commitId := by
  have := Heap.commitId_of_view h.view h.status
  rw [h.mark] at this
  exact this

theorem find_eq_none_iff {t : Tree (n + 1)} (h : Site C N O st (n + 1) this t) (id : UInt32) :
    (st.heap.directories this).children.find id = none ↔ t.children.find id = none :=
  Heap.find_eq_none_iff_of_view h.view h.status id

/-- Loading does not disturb a commit. -/
theorem loads {h' : Heap} (h : Site C N O st n this t) (hl : Heap.Loads C.file st.heap h') :
    Site C N O { st with heap := h' } n this t where
  wf := hl.wf h.wf
  level := h.level
  origin := h.origin
  view := (hl.view h.wf n this h.level h.known).trans h.view
  building := h.building
  books := h.books
  apart := h.apart
  freed htr := (h.freed htr).beside (hl.beside C.commitId [])

theorem noted (h : Site C N O st n this t) (d : Deleted) :
    Site C N O { st with deleted := d } n this t :=
  ⟨h.wf, h.level, h.origin, h.view, h.building, h.books, h.apart, h.freed⟩

/-- The object is noted as allocated. -/
theorem allocated (h : Site C N O st n this t) (hthis : this ∉ N) :
    Site C (this :: N) O (st.allocated this) n this t where
  wf := h.wf
  level := h.level
  origin := h.origin
  view := h.view
  building := h.building
  books := by
    refine (h.books.allocated (p := this) ?_).perm List.perm_middle.symm (List.Perm.refl _)
    intro hmem
    rcases List.mem_append.mp hmem with hmem | hmem
    · cases n with
      | zero => cases hmem
      | succ n =>
        obtain ⟨id, c, -, hmem⟩ := mem_newBelow.mp hmem
        simpa using (prefix_of_mem_newPointers hmem).length_le
    · exact hthis hmem
  apart q hq := by
    rcases List.mem_cons.mp hq with rfl | hq
    · exact ⟨h.origin, fun id hpre => by simpa using hpre.length_le⟩
    · exact h.apart q hq
  freed htr := (h.freed htr).allocated

/-! ### Children -/

/-- The child of an object: it is not there, it is old, or the commit made it. -/
theorem child_cases {t : Tree (n + 1)} (h : Site C N O st (n + 1) this t) {o : Origin}
    (ho : (st.heap.directories this).children.find id = some o) :
    ∃ c, t.children.find id = some c ∧ st.heap.view C.file n (this.child id o) = some c ∧
      id ≠ nextFreeBlobId ∧ Building C.commitId C.old (this.path ++ [id]) n c ∧
      ((o = .commit C.commitId ∧ c.mark = newMark C.commitId) ∨
        (o.Before C.commitId ∧ C.old (this.path ++ [id]) n c)) := by
  obtain ⟨c, hc, hv⟩ := Heap.view_child h.view h.status ho
  obtain ⟨hid, hb⟩ := h.building.child C.isOld hc
  refine ⟨c, hc, hv, hid, hb, ?_⟩
  have horigin := (Heap.mark_of_view h.wf hv).1
  rcases hb.cases with hm | hs
  · rw [hm] at horigin
    exact Or.inl ⟨horigin.symm, hm⟩
  · have := C.isOld.before hs
    rw [horigin] at this
    exact Or.inr ⟨this, hs⟩

/-- A place where the commit made no object yet. -/
theorem not_mem_newBeside {t : Tree (n + 1)} (h : Site C N O st (n + 1) this t) (id : UInt32)
    (o : Origin) : this.child id o ∉ C.newBeside N this t id := by
  intro hmem
  rcases List.mem_append.mp hmem with hmem | hmem
  · exact not_prefix_of_mem_eraseChild hmem (List.prefix_refl _)
  · exact (h.apart _ hmem).2 id (List.prefix_refl _)

theorem apart_newBeside {t : Tree (n + 1)} (h : Site C N O st (n + 1) this t) (id : UInt32)
    (o : Origin) : ∀ q ∈ C.newBeside N this t id, q.origin = .commit C.commitId ∧
      ∀ id', ¬(this.child id o).path ++ [id'] <+: q.path := by
  intro q hq
  rcases List.mem_append.mp hq with hq | hq
  · obtain ⟨_, _, -, hmem⟩ := mem_newBelow.mp hq
    exact ⟨origin_of_mem_newPointers hmem, fun id' hpre =>
      not_prefix_of_mem_eraseChild hq ((List.prefix_append _ _).trans hpre)⟩
  · exact ⟨(h.apart q hq).1, fun id' hpre =>
      (h.apart q hq).2 id ((List.prefix_append _ _).trans hpre)⟩

/-- The books at an object, seen from one of its children. -/
theorem books_of_find {t : Tree (n + 1)} (h : Site C N O st (n + 1) this t) {c : Tree n}
    (hc : t.children.find id = some c) :
    Books C.blocks st.delta
      (newPointers C.commitId (this.path ++ [id]) c ++ C.newBeside N this t id)
      (oldBlocks C.commitId (this.path ++ [id]) c ++ C.oldBeside O this t id) := by
  refine h.books.perm ?_ ?_
  · rw [CommitContext.newBeside, ← List.append_assoc]
    exact (newBelow_of_find hc).append_right N
  · rw [CommitContext.oldBeside, ← List.append_assoc]
    exact (oldBelow_of_find hc).append_right O

theorem books_of_find_none {t : Tree (n + 1)} (h : Site C N O st (n + 1) this t)
    (hc : t.children.find id = none) :
    Books C.blocks st.delta (C.newBeside N this t id) (C.oldBeside O this t id) := by
  rw [CommitContext.newBeside, CommitContext.oldBeside, eraseChild_of_find_none hc]
  exact h.books

/-- Going down to a child the commit made. -/
theorem toChild {t : Tree (n + 1)} (h : Site C N O st (n + 1) this t)
    (ho : (st.heap.directories this).children.find id = some (.commit C.commitId)) :
    ∃ c, t.children.find id = some c ∧
      Site C (this.child id (.commit C.commitId) :: C.newBeside N this t id)
        (C.oldBeside O this t id) st n (this.child id (.commit C.commitId)) c := by
  obtain ⟨c, hc, hv, _, hb, ⟨-, hm⟩ | ⟨hbefore, -⟩⟩ := h.child_cases ho
  · refine ⟨c, hc, h.wf, h.level_child _ _, rfl, hv, hb, ?_, fun q hq => ?_, h.freed⟩
    · have := h.books_of_find hc
      rw [newPointers_of_new hm, oldBlocks_of_new hm] at this
      exact this.perm List.perm_middle.symm (List.Perm.refl _)
    · rcases List.mem_cons.mp hq with rfl | hq
      · exact ⟨rfl, fun id' hpre => by simpa using hpre.length_le⟩
      · exact h.apart_newBeside id _ q hq
  · exact absurd hbefore (Nat.lt_irrefl _)

/-- A child replaced by one the commit made, seen from the parent. -/
theorem replaceChild {t : Tree (n + 1)} (h : Site C N O st (n + 1) this t)
    (hid : id ≠ nextFreeBlobId)
    (hdir : st'.heap.directories this = { st.heap.directories this with
      children := (st.heap.directories this).children.insert id (.commit C.commitId) })
    (hview : ∀ id' o, id' ≠ id → (st.heap.directories this).children.find id' = some o →
      st'.heap.view C.file n (this.child id' o) = st.heap.view C.file n (this.child id' o))
    {c : Tree n}
    (hc : Site C (this.child id (.commit C.commitId) :: C.newBeside N this t id)
      (L ++ C.oldBeside O this t id) st' n (this.child id (.commit C.commitId)) c) :
    Site C N (L ++ O) st' (n + 1) this (DbTree.setChild t id c) where
  wf := hc.wf
  level := h.level
  origin := h.origin
  view := by
    have hs : (st'.heap.directories this).status = .loaded := by rw [hdir]; exact h.status
    obtain ⟨h1, h2, h3⟩ := (Heap.view_succ_of_loaded h.status).mp h.view
    refine (Heap.view_succ_of_loaded hs).mpr ⟨by rw [hdir]; exact h1, by rw [hdir]; exact h2, ?_⟩
    intro id'
    rw [hdir]
    simp only [FlatMap.find_insert, DbTree.setChild, LevelTree.children_setChildren]
    split_ifs with heq
    · rw [heq]
      exact congrArg some hc.view
    · rw [← h3 id']
      cases ho : (st.heap.directories this).children.find id' with
      | none => rfl
      | some o => exact congrArg some (hview id' o heq ho)
  building := h.building.setChild C.isOld h.mark hid hc.building
  books := by
    refine hc.books.perm ?_ ?_
    · refine List.perm_middle.trans ?_
      rw [CommitContext.newBeside, ← List.append_assoc, ← List.cons_append]
      refine List.Perm.append_right N ?_
      refine List.Perm.trans ?_ (newBelow_setChild t id c).symm
      rw [newPointers_of_new hc.mark]
      exact List.Perm.refl _
    · rw [CommitContext.oldBeside]
      refine (List.Perm.append_left _ (List.perm_append_comm_assoc _ _ _)).trans ?_
      rw [← List.append_assoc]
      refine List.Perm.append_right _ ?_
      refine List.Perm.trans ?_ (oldBelow_setChild t id c).symm
      rw [oldBlocks_of_new hc.mark]
      exact List.Perm.refl _
  apart := h.apart
  freed := hc.freed

/-- Coming back up from a child the commit made. -/
theorem ofChild {t : Tree (n + 1)} (h : Site C N O st (n + 1) this t)
    (ho : (st.heap.directories this).children.find id = some (.commit C.commitId))
    (hbeside : Beside C.file C.commitId (this.path ++ [id]) st.heap st'.heap) {c : Tree n}
    (hc : Site C (this.child id (.commit C.commitId) :: C.newBeside N this t id)
      (L ++ C.oldBeside O this t id) st' n (this.child id (.commit C.commitId)) c) :
    Site C N (L ++ O) st' (n + 1) this (DbTree.setChild t id c) := by
  have hthis : st'.heap.directories this = st.heap.directories this :=
    hbeside.directory this h.known h.status (Or.inr fun hpre => by simpa using hpre.length_le)
  obtain ⟨_, _, _, hid, _⟩ := h.child_cases ho
  refine h.replaceChild hid ?_ (fun id' o hne ho' => ?_) hc
  · rw [hthis, FlatMap.insert_find ho]
  · refine hbeside.view h.wf n _ (h.level_child _ _) (h.wf.known_child _ _ _ ho')
      (Or.inr ⟨?_, ?_⟩)
    · rintro ⟨s, hs⟩
      rw [Pointer.path_child, List.append_assoc] at hs
      exact hne (List.cons_eq_cons.mp (List.append_cancel_left hs)).1.symm
    · rintro ⟨s, hs⟩
      rw [Pointer.path_child, List.append_assoc] at hs
      exact hne (List.cons_eq_cons.mp (List.append_cancel_left hs)).1

end Site

end BlobsDb
