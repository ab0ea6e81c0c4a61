import BlobsDb.Storage.Commit
import BlobsDb.Storage.Loading

/-!
# The snapshot a commit builds

While the commit `k` is applied, the tree of its snapshot consists of new nodes, which carry the
mark `newMark k`, above whole subtrees of older snapshots (`Building`). The delta keeps book of
this tree (`Books`): the allocated objects are its new nodes, and the blocks of the database
before the commit are those of its old nodes, the released ones, and those that were lost by
copying an object that was not loaded.
-/

namespace BlobsDb

/-- The mark of the nodes the commit `k` makes; they have no place in the file yet. -/
def newMark (k : CommitId) : Mark := ⟨.commit k, ⟨0, 0⟩, k⟩

/-- A property of the trees, by their paths, that a commit `k` finds and does not change: it
passes to children, implies that the nodes are older than the commit, and no child has the id
reserved for reading next free ids. -/
structure IsOld (k : CommitId) (S : List UInt32 → ∀ n, Tree n → Prop) : Prop where
  commitId : ∀ {path n} {t : Tree n}, S path n t → t.mark.commitId < k
  before : ∀ {path n} {t : Tree n}, S path n t → t.mark.origin.Before k
  child : ∀ {path n} {t : Tree (n + 1)}, S path (n + 1) t → ∀ {id c},
    t.children.find id = some c → id ≠ nextFreeBlobId ∧ S (path ++ [id]) n c

/-- New nodes above old trees. -/
def Building (k : CommitId) (S : List UInt32 → ∀ n, Tree n → Prop) :
    List UInt32 → (n : ℕ) → Tree n → Prop
  | path, 0, t => t.mark = newMark k ∨ S path 0 t
  | path, n + 1, t => (t.mark = newMark k ∧ ∀ id c, t.children.find id = some c →
      id ≠ nextFreeBlobId ∧ Building k S (path ++ [id]) n c) ∨ S path (n + 1) t

/-- The block of a node that was there before the commit `k`. -/
def oldBlock (k : CommitId) (path : List UInt32) (m : Mark) : List MemoryBlock :=
  if m.commitId = k then [] else [⟨⟨path, m.origin⟩, m.fileLocation⟩]

/-- The object of a node the commit `k` made. -/
def newPointer (k : CommitId) (path : List UInt32) (m : Mark) : List Pointer :=
  if m.commitId = k then [⟨path, .commit k⟩] else []

/-- The blocks of the nodes that were there before the commit `k`. -/
def oldBlocks (k : CommitId) {n : ℕ} (path : List UInt32) (t : Tree n) : List MemoryBlock :=
  t.collect (oldBlock k) path

/-- The objects the commit `k` made. -/
def newPointers (k : CommitId) {n : ℕ} (path : List UInt32) (t : Tree n) : List Pointer :=
  t.collect (newPointer k) path

/-- The blocks of the nodes below a node that were there before the commit `k`. -/
def oldBelow (k : CommitId) {n : ℕ} (path : List UInt32) (t : Tree n) : List MemoryBlock :=
  t.below (oldBlock k) path

/-- The objects below an object that the commit `k` made. -/
def newBelow (k : CommitId) {n : ℕ} (path : List UInt32) (t : Tree n) : List Pointer :=
  t.below (newPointer k) path

section

variable {k : CommitId} {S : List UInt32 → ∀ n, Tree n → Prop} {n : ℕ} {path : List UInt32}

/-- A node is new, or stands for a whole subtree of the old tree. -/
theorem Building.cases {t : Tree n} (h : Building k S path n t) :
    t.mark = newMark k ∨ S path n t := by
  cases n with
  | zero => exact h
  | succ n => exact h.imp And.left id

/-- An old subtree is a tree being built. -/
theorem Building.of_old {t : Tree n} (h : S path n t) : Building k S path n t := by
  cases n with
  | zero => exact Or.inr h
  | succ n => exact Or.inr h

/-- The children of a tree being built are being built. -/
theorem Building.child (hS : IsOld k S) {t : Tree (n + 1)} (h : Building k S path (n + 1) t)
    {id : UInt32} {c : Tree n} (hc : t.children.find id = some c) :
    id ≠ nextFreeBlobId ∧ Building k S (path ++ [id]) n c := by
  rcases h with ⟨_, h⟩ | h
  · exact h id c hc
  · exact ⟨(hS.child h hc).1, Building.of_old (hS.child h hc).2⟩

/-- So are its subtrees. -/
theorem Building.sub (hS : IsOld k S) {m : ℕ} {v : Tree m} (h : Building k S [] m v) {t : Tree n}
    (ht : v.Sub path n t) : Building k S path n t := by
  induction ht with
  | root => exact h
  | child _ hc ih => exact (ih.child hS hc).2

/-- A new node may get a child that is being built. -/
theorem Building.setChild (hS : IsOld k S) {t : Tree (n + 1)} (h : Building k S path (n + 1) t)
    (hm : t.mark = newMark k) {id : UInt32} (hid : id ≠ nextFreeBlobId) {c : Tree n}
    (hc : Building k S (path ++ [id]) n c) :
    Building k S path (n + 1) (DbTree.setChild t id c) := by
  refine Or.inl ⟨hm, fun id' c' hc' => ?_⟩
  simp only [DbTree.setChild, LevelTree.children_setChildren, FlatMap.find_insert] at hc'
  split_ifs at hc' with hid'
  · cases hc'
    exact ⟨hid' ▸ hid, hid' ▸ hc⟩
  · exact h.child hS hc'

/-- A new node may lose a child. -/
theorem Building.eraseChild (hS : IsOld k S) {t : Tree (n + 1)}
    (h : Building k S path (n + 1) t) (hm : t.mark = newMark k) (id : UInt32) :
    Building k S path (n + 1) (DbTree.eraseChild t id) := by
  refine Or.inl ⟨hm, fun id' c' hc' => ?_⟩
  simp only [DbTree.eraseChild, LevelTree.children_setChildren, FlatMap.find_erase] at hc'
  split_ifs at hc'
  exact h.child hS hc'

/-- An old node that is copied becomes a new one. -/
theorem Building.setMark (hS : IsOld k S) {t : Tree n} (h : Building k S path n t) :
    Building k S path n (t.setMark (newMark k)) := by
  cases n with
  | zero => exact Or.inl (LevelTree.mark_setMark _ _)
  | succ n => exact Or.inl ⟨LevelTree.mark_setMark _ _, fun id c hc => h.child hS hc⟩

/-- A new node may get another next free id. -/
theorem Building.setNextFreeId (hS : IsOld k S) {t : Tree (n + 1)}
    (h : Building k S path (n + 1) t) (hm : t.mark = newMark k) (id : UInt32) :
    Building k S path (n + 1) (DbTree.setNextFreeId t id) :=
  Or.inl ⟨hm, fun _ _ hc => h.child hS hc⟩

/-- Marks have what the new mark and those of the old tree have. -/
theorem Building.allMarks {P : Mark → Prop} (hP : P (newMark k))
    (hS : ∀ {path n} {t : Tree n}, S path n t → t.AllMarks P) {t : Tree n}
    (h : Building k S path n t) : t.AllMarks P := by
  induction n generalizing path with
  | zero =>
    rcases h with h | h
    · exact (congrArg P h).mpr hP
    · exact hS h
  | succ n ih =>
    rcases h with ⟨hm, h⟩ | h
    · exact ⟨(congrArg P hm).mpr hP, fun id c hc => ih (h id c hc).2⟩
    · exact hS h

/-- Keys have what ids of children and those of the old tree have. -/
theorem Building.allKeys {P : UInt32 → Prop} (hP : ∀ id, id ≠ nextFreeBlobId → P id)
    (hS : ∀ {path n} {t : Tree n}, S path n t → t.AllKeys P) {t : Tree n}
    (h : Building k S path n t) : t.AllKeys P := by
  induction n generalizing path with
  | zero => trivial
  | succ n ih =>
    rcases h with ⟨-, h⟩ | h
    · exact fun id c hc => ⟨hP id (h id c hc).1, ih (h id c hc).2⟩
    · exact hS h

/-! ### Lists of nodes -/

/-- A new node stands for the object of the commit at its path. -/
theorem mem_newPointer {m : Mark} {p : Pointer} :
    p ∈ newPointer k path m ↔ m.commitId = k ∧ p = ⟨path, .commit k⟩ := by
  unfold newPointer
  split_ifs with h <;> simp [h]

/-- New objects are objects of the commit. -/
theorem origin_of_mem_newPointers {t : Tree n} {p : Pointer} (h : p ∈ newPointers k path t) :
    p.origin = .commit k :=
  LevelTree.mem_collect_mono (Q := fun p => p.origin = .commit k)
    (fun p' m _ b hb => by rw [(mem_newPointer.mp hb).2]) p h

/-- New objects lie below the node they are collected from. -/
theorem prefix_of_mem_newPointers {t : Tree n} {p : Pointer} (h : p ∈ newPointers k path t) :
    path <+: p.path :=
  LevelTree.mem_collect_mono (Q := fun p => path <+: p.path)
    (fun p' m hp b hb => by rw [(mem_newPointer.mp hb).2]; exact hp) p h

/-- An old tree has no new nodes. -/
theorem newPointers_of_old (hS : IsOld k S) {t : Tree n} (h : S path n t) :
    newPointers k path t = [] := by
  have hall : ∀ {n : ℕ} {path : List UInt32} {t : Tree n}, S path n t →
      t.AllMarks fun m => m.commitId ≠ k := fun {n} => by
    induction n with
    | zero => exact fun h => (hS.commitId h).ne
    | succ n ih => exact fun h => ⟨(hS.commitId h).ne, fun id c hc => ih (hS.child h hc).2⟩
  exact LevelTree.collect_eq_nil (hall h) fun p m hm => if_neg hm

/-- Below an old node nothing is new. -/
theorem newBelow_of_old (hS : IsOld k S) {t : Tree n} (h : S path n t) :
    newBelow k path t = [] := by
  have := newPointers_of_old hS h
  rw [newPointers, LevelTree.collect_eq] at this
  exact (List.append_eq_nil_iff.mp this).2

/-- The nodes of a new tree: itself, and those below it. -/
theorem newPointers_of_new {t : Tree n} (h : t.mark = newMark k) :
    newPointers k path t = ⟨path, .commit k⟩ :: newBelow k path t := by
  rw [newPointers, LevelTree.collect_eq, h, newPointer, newMark, if_pos rfl]
  rfl

/-- A new node keeps no block of its own. -/
theorem oldBlocks_of_new {t : Tree n} (h : t.mark = newMark k) :
    oldBlocks k path t = oldBelow k path t := by
  rw [oldBlocks, LevelTree.collect_eq, h, oldBlock, newMark, if_pos rfl]
  rfl

/-- The blocks of an old tree: its own, and those below it. -/
theorem oldBlocks_of_old {t : Tree n} (h : t.mark.commitId ≠ k) :
    oldBlocks k path t = ⟨⟨path, t.mark.origin⟩, t.mark.fileLocation⟩ :: oldBelow k path t := by
  rw [oldBlocks, LevelTree.collect_eq, oldBlock, if_neg h]
  rfl

theorem newBelow_setMark (m : Mark) (t : Tree n) :
    newBelow k path (t.setMark m) = newBelow k path t := by
  cases n <;> rfl

theorem oldBelow_setMark (m : Mark) (t : Tree n) :
    oldBelow k path (t.setMark m) = oldBelow k path t := by
  cases n <;> rfl

/-- What is new below a node after a child was set: what is new in the child, and in the others. -/
theorem newBelow_setChild (t : Tree (n + 1)) (id : UInt32) (c : Tree n) :
    (newBelow k path (DbTree.setChild t id c)).Perm
      (newPointers k (path ++ [id]) c ++ newBelow k path (DbTree.eraseChild t id)) :=
  LevelTree.below_insert_perm _ _ _ _ _

/-- What is old below a node after a child was set. -/
theorem oldBelow_setChild (t : Tree (n + 1)) (id : UInt32) (c : Tree n) :
    (oldBelow k path (DbTree.setChild t id c)).Perm
      (oldBlocks k (path ++ [id]) c ++ oldBelow k path (DbTree.eraseChild t id)) :=
  LevelTree.below_insert_perm _ _ _ _ _

/-- What is new below a node comes apart at a child. -/
theorem newBelow_of_find {t : Tree (n + 1)} {id : UInt32} {c : Tree n}
    (h : t.children.find id = some c) :
    (newBelow k path t).Perm
      (newPointers k (path ++ [id]) c ++ newBelow k path (DbTree.eraseChild t id)) :=
  LevelTree.below_perm_of_find h

/-- What is old below a node comes apart at a child. -/
theorem oldBelow_of_find {t : Tree (n + 1)} {id : UInt32} {c : Tree n}
    (h : t.children.find id = some c) :
    (oldBelow k path t).Perm
      (oldBlocks k (path ++ [id]) c ++ oldBelow k path (DbTree.eraseChild t id)) :=
  LevelTree.below_perm_of_find h

theorem eraseChild_of_find_none {t : Tree (n + 1)} {id : UInt32}
    (h : t.children.find id = none) : DbTree.eraseChild t id = t :=
  LevelTree.ext_succ rfl rfl (FlatMap.erase_of_find_none h)

/-- What is new below a node is new in one of the children. -/
theorem mem_newBelow {t : Tree (n + 1)} {p : Pointer} :
    p ∈ newBelow k path t ↔
      ∃ id c, t.children.find id = some c ∧ p ∈ newPointers k (path ++ [id]) c :=
  LevelTree.mem_below

/-- What is new beside a child does not lie below it. -/
theorem not_prefix_of_mem_eraseChild {t : Tree (n + 1)} {id : UInt32} {p : Pointer}
    (h : p ∈ newBelow k path (DbTree.eraseChild t id)) : ¬path ++ [id] <+: p.path := by
  rintro hpre
  obtain ⟨id', c, hc, h⟩ := mem_newBelow.mp h
  have hpre' := prefix_of_mem_newPointers h
  simp only [DbTree.eraseChild, LevelTree.children_setChildren, FlatMap.find_erase] at hc
  split_ifs at hc with hid
  obtain ⟨s, hs⟩ := hpre
  obtain ⟨s', hs'⟩ := hpre'
  rw [← hs', List.append_assoc, List.append_assoc] at hs
  exact hid (List.cons_eq_cons.mp (List.append_cancel_left hs)).1.symm

end

/-! ### The books -/

/-- The allocated objects are `new`, and the blocks `B` of the database before the commit are
`old` and the released ones. -/
def Books (B : List MemoryBlock) (delta : Option MemoryBlockDelta) (new : List Pointer)
    (old : List MemoryBlock) : Prop :=
  ∀ δ ∈ delta, δ.allocatedBlocks.Perm new ∧ B.Perm (old ++ δ.releasedBlocks)

namespace Books

variable {B old old' : List MemoryBlock} {delta : Option MemoryBlockDelta} {new new' : List Pointer}

/-- The books do not depend on the order of what they list. -/
theorem perm (h : Books B delta new old) (hnew : new.Perm new') (hold : old.Perm old') :
    Books B delta new' old' := fun δ hδ =>
  ⟨(h δ hδ).1.trans hnew, (h δ hδ).2.trans (hold.append_right _)⟩

/-- A new object is entered in the books. -/
theorem allocated {p : Pointer} (h : Books B delta new old) (hp : p ∉ new) :
    Books B (delta.map fun δ => δ.allocated p) (p :: new) old := by
  rintro _ hδ'
  obtain ⟨δ, hδ, rfl⟩ := Option.map_eq_some_iff.mp hδ'
  obtain ⟨h1, h2⟩ := h δ hδ
  have hp' : p ∉ δ.allocatedBlocks := fun hmem => hp (h1.subset hmem)
  simp only [MemoryBlockDelta.allocated, if_neg hp']
  exact ⟨h1.cons p, h2⟩

/-- Releasing a block of the database before the commit moves it to the released ones. -/
theorem released_old {b : MemoryBlock} (h : Books B delta new (b :: old))
    (hB : (B.map MemoryBlock.pointer).Nodup) (hb : b.pointer ∉ new) :
    Books B (delta.map fun δ => δ.released b) new old := by
  rintro _ hδ'
  obtain ⟨δ, hδ, rfl⟩ := Option.map_eq_some_iff.mp hδ'
  obtain ⟨h1, h2⟩ := h δ hδ
  have hb1 : b.pointer ∉ δ.allocatedBlocks := fun hmem => hb (h1.subset hmem)
  have hb2 : b.pointer ∉ δ.releasedBlocks.map MemoryBlock.pointer := fun hmem => by
    have hnd := (h2.map MemoryBlock.pointer).nodup_iff.mp hB
    rw [List.map_append, List.map_cons, List.cons_append, List.nodup_cons] at hnd
    exact hnd.1 (List.mem_append_right _ hmem)
  simp only [MemoryBlockDelta.released, if_neg hb1, if_neg hb2]
  exact ⟨h1, h2.trans List.perm_middle.symm⟩

/-- Releasing an object the commit made forgets it. -/
theorem released_new {p : Pointer} {r : BlockReference} (h : Books B delta (p :: new) old) :
    Books B (delta.map fun δ => δ.released ⟨p, r⟩) new old := by
  rintro _ hδ'
  obtain ⟨δ, hδ, rfl⟩ := Option.map_eq_some_iff.mp hδ'
  obtain ⟨h1, h2⟩ := h δ hδ
  have hp : p ∈ δ.allocatedBlocks := h1.symm.subset List.mem_cons_self
  simp only [MemoryBlockDelta.released, if_pos hp]
  exact ⟨by simpa using h1.erase p, h2⟩

end Books

/-- The released blocks are those of older objects in use that are loaded. -/
def Freed (k : CommitId) (h : Heap) (delta : Option MemoryBlockDelta) : Prop :=
  ∀ δ ∈ delta, ∀ b ∈ δ.releasedBlocks, b.pointer.origin.Before k ∧ h.Known b.pointer ∧
    h.status b.pointer.level b.pointer = .loaded

/-- What was freed stays freed in a heap that differs below other objects. -/
theorem Freed.beside {f : FileContent} {k : CommitId} {path : List UInt32} {h h' : Heap}
    {delta : Option MemoryBlockDelta} (hf : Freed k h delta)
    (hh : Heap.Beside f k path h h') : Freed k h' delta := fun δ hδ b hb => by
  obtain ⟨h1, h2, h3⟩ := hf δ hδ b hb
  exact ⟨h1, hh.known _ h2, hh.status h2 (Or.inl h1) h3⟩

/-- An allocation frees nothing. -/
theorem Freed.allocated {k : CommitId} {h : Heap} {delta : Option MemoryBlockDelta} {p : Pointer}
    (hf : Freed k h delta) : Freed k h (delta.map fun δ => δ.allocated p) := by
  rintro _ hδ' b hb
  obtain ⟨δ, hδ, rfl⟩ := Option.map_eq_some_iff.mp hδ'
  refine hf δ hδ b ?_
  unfold MemoryBlockDelta.allocated at hb
  split_ifs at hb <;> exact hb

/-- A released block of an object that is loaded and in use is freed. -/
theorem Freed.released {k : CommitId} {h : Heap} {delta : Option MemoryBlockDelta}
    {b : MemoryBlock} (hf : Freed k h delta)
    (hb : b.pointer.origin.Before k ∧ h.Known b.pointer ∧
      h.status b.pointer.level b.pointer = .loaded) :
    Freed k h (delta.map fun δ => δ.released b) := by
  rintro _ hδ' b' hb'
  obtain ⟨δ, hδ, rfl⟩ := Option.map_eq_some_iff.mp hδ'
  unfold MemoryBlockDelta.released at hb'
  split_ifs at hb'
  · exact hf δ hδ b' hb'
  · exact hf δ hδ b' hb'
  · rcases List.mem_cons.mp hb' with rfl | hb'
    · exact hb
    · exact hf δ hδ b' hb'

/-- Forgetting a new object does not release a block. -/
theorem Freed.released_new {k : CommitId} {h : Heap} {delta : Option MemoryBlockDelta}
    {B old : List MemoryBlock} {new : List Pointer} {p : Pointer} {r : BlockReference}
    (hf : Freed k h delta) (hbooks : Books B delta (p :: new) old) :
    Freed k h (delta.map fun δ => δ.released ⟨p, r⟩) := by
  rintro _ hδ' b hb
  obtain ⟨δ, hδ, rfl⟩ := Option.map_eq_some_iff.mp hδ'
  have hp : p ∈ δ.allocatedBlocks := (hbooks δ hδ).1.symm.subset List.mem_cons_self
  simp only [MemoryBlockDelta.released, if_pos hp] at hb
  exact hf δ hδ b hb

end BlobsDb
