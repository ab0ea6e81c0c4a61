import BlobsDb.Storage.Building
import BlobsDb.Storage.Database

/-!
# Places for new objects

Before a commit is written, its new objects get places in the file. This changes nothing but the
places (`Placed`): the tree of the new snapshot is the one that was built, with the places in the
marks of the new nodes (`place`).

The space is accounted for by counting: what was covered by the blocks of the database, the list
and the free space before the commit is covered by them after it, but for lost blocks.
-/

namespace BlobsDb

variable {f : FileContent} {k : CommitId} {n : ℕ} {p q : Pointer} {h h' h'' : Heap}

/-- `h'` is `h` with other places for objects of the commit `k`. -/
structure Placed (k : CommitId) (h h' : Heap) : Prop where
  directory : ∀ q, h'.directories q =
    { h.directories q with fileLocation := (h'.directories q).fileLocation }
  blob : ∀ q, h'.blobs q = { h.blobs q with fileLocation := (h'.blobs q).fileLocation }
  old : ∀ q, q.origin ≠ .commit k →
    h'.directories q = h.directories q ∧ h'.blobs q = h.blobs q

namespace Placed

theorem refl (k : CommitId) (h : Heap) : Placed k h h :=
  ⟨fun _ => rfl, fun _ => rfl, fun _ _ => ⟨rfl, rfl⟩⟩

theorem trans (hh : Placed k h h') (hh' : Placed k h' h'') : Placed k h h'' where
  directory q := by
    rw [hh'.directory q, hh.directory q]
  blob q := by
    rw [hh'.blob q, hh.blob q]
  old q hq := ⟨(hh'.old q hq).1.trans (hh.old q hq).1, (hh'.old q hq).2.trans (hh.old q hq).2⟩

/-- An object of the commit gets its place. -/
theorem setFileLocation (h : Heap) (hp : p.origin = .commit k) (r : BlockReference) :
    Placed k h (h.setFileLocation p r) := by
  unfold Heap.setFileLocation
  split
  · refine ⟨fun _ => rfl, fun q => ?_, fun q hq => ⟨rfl, ?_⟩⟩
    · by_cases hqp : q = p
      · rw [hqp, Heap.blobs_setBlob_self]
      · rw [Heap.blobs_setBlob_of_ne _ _ hqp]
    · exact Heap.blobs_setBlob_of_ne _ _ fun hqp => hq (hqp ▸ hp)
  · refine ⟨fun q => ?_, fun _ => rfl, fun q hq => ⟨?_, rfl⟩⟩
    · by_cases hqp : q = p
      · rw [hqp, Heap.directories_setDirectory_self]
      · rw [Heap.directories_setDirectory_of_ne _ _ hqp]
    · exact Heap.directories_setDirectory_of_ne _ _ fun hqp => hq (hqp ▸ hp)

/-- The size of an object does not depend on where it is. -/
theorem calculateRequiredSize (hh : Placed k h h') (p : Pointer) :
    h'.calculateRequiredSize p = h.calculateRequiredSize p := by
  unfold Heap.calculateRequiredSize
  split
  · rw [hh.blob p]
  · rw [hh.directory p]

/-- Placing adds no pointers to a heap. -/
theorem known (hh : Placed k h h') (hp : h.Known p) : h'.Known p := fun hfile path hpre hne => by
  rw [hh.directory]
  exact hp hfile path hpre hne

/-- Placing loads nothing. -/
theorem status (hh : Placed k h h') (n : ℕ) (p : Pointer) : h'.status n p = h.status n p := by
  cases n with
  | zero =>
    change (h'.blobs p).status = (h.blobs p).status
    rw [hh.blob]
  | succ n =>
    change (h'.directories p).status = (h.directories p).status
    rw [hh.directory]

/-- Placing keeps a heap well formed: no object changes its children. -/
theorem wf (hh : Placed k h h') (hwf : h.WF) : h'.WF where
  before_child j p id o hj ho := by
    rw [hh.directory] at ho
    exact hwf.before_child j p id o hj ho
  known_child p id o ho := by
    rw [hh.directory] at ho
    exact hh.known (hwf.known_child p id o ho)
  notLoaded p hp := by
    rw [hh.directory] at hp ⊢
    exact hwf.notLoaded p hp
  blob_notLoaded p hp := by
    rw [hh.blob] at hp ⊢
    exact hwf.blob_notLoaded p hp
  nextFreeIdCommit p hp hpath := by
    rw [hh.directory]
    exact hwf.nextFreeIdCommit p hp hpath
  nextFreeIdCommit_file p id hlength ho := by
    rw [hh.directory] at ho ⊢
    exact hwf.nextFreeIdCommit_file p id hlength ho

end Placed

/-- The mark of a node, with the place of the object if the commit `k` made it. -/
def placeMark (k : CommitId) (location : Pointer → BlockReference) (path : List UInt32)
    (m : Mark) : Mark :=
  if m.commitId = k then { m with fileLocation := location ⟨path, .commit k⟩ } else m

/-- The tree with the places of the objects the commit `k` made. -/
def place (k : CommitId) (location : Pointer → BlockReference) (path : List UInt32)
    (t : Tree n) : Tree n :=
  t.mapMark (placeMark k location) path

/-- The places of all objects. -/
def Heap.locations (h : Heap) (p : Pointer) : BlockReference := h.fileLocation p.level p

/-- The blocks of all nodes. -/
def Tree.blocks (path : List UInt32) (t : Tree n) : List MemoryBlock :=
  t.collect (fun path m => [⟨⟨path, m.origin⟩, m.fileLocation⟩]) path

/-- The blocks of a tree are the extents it takes in the file. -/
theorem Tree.map_blocks (path : List UInt32) (t : Tree n) :
    (Tree.blocks path t).map MemoryBlock.fileLocation = Tree.extents t := by
  rw [Tree.blocks, LevelTree.map_collect, Tree.extents_eq t path]
  rfl

/-- Each object of a tree has one block. -/
theorem Tree.nodup_blocks (path : List UInt32) (t : Tree n) :
    ((Tree.blocks path t).map MemoryBlock.pointer).Nodup := by
  rw [Tree.blocks, LevelTree.map_collect]
  exact LevelTree.nodup_collect (q := Pointer.path) (fun _ _ => List.nodup_singleton _)
    (fun _ _ b hb => by rw [List.mem_singleton.mp hb]) path t

/-- The blocks of a tree lie below its path. -/
theorem Tree.prefix_of_mem_blocks {path : List UInt32} {t : Tree n} {b : MemoryBlock}
    (hb : b ∈ Tree.blocks path t) : path <+: b.pointer.path :=
  LevelTree.mem_collect_mono (Q := fun b : MemoryBlock => path <+: b.pointer.path)
    (fun p' m hp b hb => by rw [List.mem_singleton.mp hb]; exact hp) b hb

/-- What holds of the origins of a tree holds of the origins of its blocks. -/
theorem Tree.origin_of_mem_blocks {path : List UInt32} {t : Tree n} {P : Origin → Prop}
    (ht : t.AllMarks fun m => P m.origin) {b : MemoryBlock} (hb : b ∈ Tree.blocks path t) :
    P b.pointer.origin :=
  LevelTree.mem_collect_of_allMarks (Q := fun b : MemoryBlock => P b.pointer.origin) ht
    (fun _ _ hm b hb => by rw [List.mem_singleton.mp hb]; exact hm) b hb

/-- All blocks of a tree are old if none is of the commit. -/
theorem oldBlocks_eq_blocks {path : List UInt32} {t : Tree n}
    (ht : t.AllMarks fun m => m.commitId ≠ k) : oldBlocks k path t = Tree.blocks path t :=
  LevelTree.collect_congr ht fun _ _ hm => if_neg hm

/-- What was there before keeps its place. -/
theorem place_of_old {location : Pointer → BlockReference} {path : List UInt32} {t : Tree n}
    (ht : t.AllMarks fun m => m.commitId ≠ k) : place k location path t = t :=
  LevelTree.mapMark_id ht fun _ _ hm => if_neg hm

/-- In an old tree no object is of the commit. -/
theorem allMarks_of_old {S : List UInt32 → ∀ n, Tree n → Prop} (hS : IsOld k S)
    {path : List UInt32} {t : Tree n} (h : S path n t) : t.AllMarks fun m => m.commitId ≠ k := by
  induction n generalizing path with
  | zero => exact (hS.commitId h).ne
  | succ n ih => exact ⟨(hS.commitId h).ne, fun id c hc => ih (hS.child h hc).2⟩

/-- Older objects keep their views. -/
theorem Placed.view_of_before (hwf : h.WF) (hh : Placed k h h') (hp : p.origin.Before k) :
    h'.view f n p = h.view f n p := by
  have hne : ∀ q : Pointer, q.origin.Before k → q.origin ≠ .commit k := fun q hq heq => by
    rw [heq] at hq
    exact Nat.lt_irrefl k hq
  exact Heap.view_congr_of_before hwf (fun q hq => (hh.old q (hne q hq)).1)
    (fun q hq => (hh.old q (hne q hq)).2) hp

variable (h') in
/-- The mark of a new node, with its place. -/
theorem placeMark_new (hwf : h.WF) (hn : p.path.length + n = 3) {t : Tree n}
    (hv : h.view f n p = some t) (hm : t.mark = newMark k) :
    placeMark k h'.locations p.path t.mark = ⟨p.origin, h'.fileLocation n p, k⟩ ∧
      h.status n p = .loaded := by
  have horigin : p.origin = .commit k := by
    rw [← (Heap.mark_of_view hwf hv).1, hm]
    rfl
  have hlevel : p.level = n := by
    rw [Pointer.level]
    omega
  refine ⟨?_, Heap.status_of_origin hwf (by rw [horigin]; exact fun heq => nomatch heq)⟩
  rw [hm, horigin]
  simp only [placeMark, newMark, if_pos, Heap.locations]
  rw [← horigin, show (⟨p.path, p.origin⟩ : Pointer) = p from rfl, hlevel]

/-- With the places, the view has the places. -/
theorem Placed.view {S : List UInt32 → ∀ n, Tree n → Prop} (hS : IsOld k S) (hwf : h.WF)
    (hh : Placed k h h') (hn : p.path.length + n = 3) {t : Tree n} (hv : h.view f n p = some t)
    (hb : Building k S p.path n t) :
    h'.view f n p = some (place k h'.locations p.path t) := by
  -- a new node gets its place; an old one stays, with all below it
  by_cases hm : t.mark = newMark k
  · obtain ⟨hmark, hs⟩ := placeMark_new h' hwf hn hv hm
    induction n generalizing p with
    | zero =>
      have hv₁ := Heap.view_zero_of_loaded (f := f) hs
      rw [hv] at hv₁
      rw [Heap.view_zero_of_loaded ((hh.status 0 p).trans hs), hh.blob]
      have hk := congrArg (fun t => (LevelTree.mark t).commitId) (Option.some.inj hv₁)
      rw [hm] at hk
      refine congrArg some (LevelTree.ext_zero (Eq.trans ?_ hmark.symm) ?_)
      · exact congrArg (Mark.mk _ _) hk.symm
      · exact (congrArg LevelTree.Leaf.data (Option.some.inj hv₁)).symm
    | succ n ih =>
      obtain ⟨h1, h2, h3⟩ := (Heap.view_succ_of_loaded hs).mp hv
      rw [hm] at h1
      have hk : (h.directories p).commitId = k := (congrArg Mark.commitId h1).symm
      refine (Heap.view_succ_of_loaded ((hh.status (n + 1) p).trans hs)).mpr ⟨?_, ?_, fun id => ?_⟩
      · refine (LevelTree.mark_mapMark _ _ _).trans (hmark.trans ?_)
        rw [hh.directory, hk]
        rfl
      · rw [hh.directory]
        exact h2
      · refine Eq.trans ?_ (congrArg (Option.map some) (FlatMap.find_mapWithKey _ _ _).symm)
        have hid := h3 id
        rw [hh.directory]
        cases ho : (h.directories p).children.find id with
        | none =>
          cases hc : t.children.find id with
          | none => rfl
          | some c => simp [ho, hc] at hid
        | some o =>
          cases hc : t.children.find id with
          | none => simp [ho, hc] at hid
          | some c =>
            rw [ho, hc] at hid
            have hvc : h.view f n (p.child id o) = some c := Option.some.inj hid
            have hbc := (hb.child hS hc).2
            have hnc := Heap.length_child hn id o
            refine congrArg some ?_
            change h'.view f n (p.child id o) = some (place k h'.locations (p.path ++ [id]) c)
            by_cases hmc : c.mark = newMark k
            · obtain ⟨hmark, hs⟩ := placeMark_new h' hwf hnc hvc hmc
              exact ih hnc hvc hbc hmc hmark hs
            · have hs := hbc.cases.resolve_left hmc
              have hbefore := hS.before hs
              rw [(Heap.mark_of_view hwf hvc).1] at hbefore
              rw [hh.view_of_before hwf hbefore]
              exact hvc.trans (congrArg some (place_of_old (allMarks_of_old hS hs)).symm)
  · have hs := hb.cases.resolve_left hm
    have hbefore := hS.before hs
    rw [(Heap.mark_of_view hwf hv).1] at hbefore
    rw [hh.view_of_before hwf hbefore, place_of_old (allMarks_of_old hS hs), hv]

/-! ### Space -/

/-- The blocks of the new tree are the places of the new objects and the old blocks. -/
theorem extents_place_perm (location : Pointer → BlockReference) (path : List UInt32)
    (t : Tree n) : (Tree.extents (place k location path t)).Perm
      ((newPointers k path t).map location ++
        (oldBlocks k path t).map MemoryBlock.fileLocation) := by
  have hmarks : ∀ path m, [(placeMark k location path m).fileLocation] =
      (newPointer k path m).map location ++ (oldBlock k path m).map MemoryBlock.fileLocation :=
    fun path m => by
      unfold placeMark newPointer oldBlock
      split_ifs <;> rfl
  rw [Tree.extents_eq _ path, place, LevelTree.collect_mapMark, newPointers, oldBlocks,
    LevelTree.map_collect, LevelTree.map_collect]
  simp only [hmarks]
  exact LevelTree.collect_append_perm _ _ _ _

/-- After placing, a tree takes the places of its new objects and the blocks it had. -/
theorem mem_extents_place {location : Pointer → BlockReference} {path : List UInt32} {t : Tree n}
    {e : Extent} : e ∈ Tree.extents (place k location path t) ↔
      (∃ q ∈ newPointers k path t, location q = e) ∨
        ∃ b ∈ oldBlocks k path t, b.fileLocation = e := by
  rw [(extents_place_perm location path t).mem_iff, List.mem_append, List.mem_map, List.mem_map]

/-- A block of the new tree is that of a new object or an old block. -/
theorem mem_blocks_place {location : Pointer → BlockReference} {path : List UInt32} {t : Tree n}
    (ht : t.AllMarks fun m => m.commitId = k → m.origin = .commit k) {b : MemoryBlock}
    (hb : b ∈ Tree.blocks path (place k location path t)) :
    b.pointer.origin = .commit k ∨ b ∈ oldBlocks k path t := by
  have hmarks : ∀ path m, [(⟨⟨path, (placeMark k location path m).origin⟩,
      (placeMark k location path m).fileLocation⟩ : MemoryBlock)] =
      (if m.commitId = k then [⟨⟨path, m.origin⟩, location ⟨path, .commit k⟩⟩] else []) ++
        oldBlock k path m := fun path m => by
    unfold placeMark oldBlock
    split_ifs <;> rfl
  rw [Tree.blocks, place, LevelTree.collect_mapMark] at hb
  simp only [hmarks] at hb
  rcases List.mem_append.mp ((LevelTree.collect_append_perm _ _ _ _).subset hb) with hb | hb
  · refine Or.inl (LevelTree.mem_collect_of_allMarks
      (Q := fun b : MemoryBlock => b.pointer.origin = .commit k) ht (fun _ m hm b hb => ?_) b hb)
    split_ifs at hb with hk
    · rw [List.mem_singleton.mp hb]
      exact hm hk
    · cases hb
  · exact Or.inr hb

/-- Old blocks stay where they are. -/
theorem mem_blocks_place_of_old {location : Pointer → BlockReference} {path : List UInt32}
    {t : Tree n} {b : MemoryBlock} (hb : b ∈ oldBlocks k path t) :
    b ∈ Tree.blocks path (place k location path t) := by
  have hmarks : ∀ path m, [(⟨⟨path, (placeMark k location path m).origin⟩,
      (placeMark k location path m).fileLocation⟩ : MemoryBlock)] =
      (if m.commitId = k then [⟨⟨path, m.origin⟩, location ⟨path, .commit k⟩⟩] else []) ++
        oldBlock k path m := fun path m => by
    unfold placeMark oldBlock
    split_ifs <;> rfl
  rw [Tree.blocks, place, LevelTree.collect_mapMark]
  simp only [hmarks]
  exact (LevelTree.collect_append_perm _ _ _ _).symm.subset (List.mem_append_right _ hb)

/-- The object of a new node, where the tree was built. -/
theorem exists_view_of_mem_newPointers {S : List UInt32 → ∀ n, Tree n → Prop} (hS : IsOld k S)
    (hwf : h.WF) (hn : p.path.length + n = 3) {t : Tree n} (hv : h.view f n p = some t)
    (hb : Building k S p.path n t) (hq : q ∈ newPointers k p.path t) :
    ∃ (m : ℕ) (c : Tree m), q.path.length + m = 3 ∧ h.view f m q = some c ∧
      c.mark = newMark k ∧ Building k S q.path m c ∧
      (∀ r ∈ newPointers k q.path c, r ∈ newPointers k p.path t) ∧
      ∀ b ∈ oldBlocks k q.path c, b ∈ oldBlocks k p.path t := by
  have hroot : ∀ {n : ℕ} {p : Pointer} {t : Tree n}, h.view f n p = some t →
      t.mark = newMark k → (⟨p.path, .commit k⟩ : Pointer) = p := fun hv hm => by
    rw [show (.commit k : Origin) = (newMark k).origin from rfl, ← hm, (Heap.mark_of_view hwf hv).1]
  induction n generalizing p with
  | zero =>
    rcases hb.cases with hm | hs
    · rw [newPointers_of_new hm, hroot hv hm] at hq
      obtain rfl := List.mem_singleton.mp hq
      exact ⟨0, t, hn, hv, hm, hb, fun _ => id, fun _ => id⟩
    · rw [newPointers_of_old hS hs] at hq
      cases hq
  | succ n ih =>
    rcases hb.cases with hm | hs
    · rw [newPointers_of_new hm, hroot hv hm] at hq
      rcases List.mem_cons.mp hq with rfl | hq
      · exact ⟨n + 1, t, hn, hv, hm, hb, fun _ => id, fun _ => id⟩
      · obtain ⟨id, c, hc, hq⟩ := mem_newBelow.mp hq
        obtain ⟨-, hs⟩ := placeMark_new h hwf hn hv hm
        obtain ⟨o, -, hvc⟩ := Heap.find_of_view hv hs hc
        obtain ⟨m, d, h1, h2, h3, h4, h5, h6⟩ := ih (p := p.child id o) (Heap.length_child hn id o)
          hvc (hb.child hS hc).2 hq
        exact ⟨m, d, h1, h2, h3, h4,
          fun r hr => LevelTree.mem_collect.mpr (Or.inr ⟨id, c, hc, h5 r hr⟩),
          fun b hb => LevelTree.mem_collect.mpr (Or.inr ⟨id, c, hc, h6 b hb⟩)⟩
    · rw [newPointers_of_old hS hs] at hq
      cases hq

/-- Each position is covered as often as by the places of the new objects and the old blocks
together. -/
theorem coverage_extents_place (location : Pointer → BlockReference) (t : Tree n) (x : ℕ) :
    coverage (Tree.extents (place k location [] t)) x =
      coverage ((newPointers k [] t).map location) x +
        coverage ((oldBlocks k [] t).map MemoryBlock.fileLocation) x := by
  rw [coverage_perm (extents_place_perm location [] t), coverage_append]

namespace FreeList

/-- Finding places for distinct objects. -/
theorem foldl_allocateBlock {l : List Pointer} (hl : l.Nodup)
    (hnew : ∀ p ∈ l, p.origin = .commit k) {s s' : Heap × FreeList}
    (hs : s' = l.foldl allocateBlock s) :
    Placed k s.1 s'.1 ∧
      (∀ p ∉ l, s'.1.locations p = s.1.locations p) ∧
      (∀ p ∈ l, (s'.1.locations p).size = s.1.calculateRequiredSize p) ∧
      (∀ x, coverage (l.map s'.1.locations) x + s'.2.free x = s.2.free x) ∧
      s'.2.entries.length = s.2.entries.length ∧ s.2.endOffset ≤ s'.2.endOffset ∧
      (s.2.Within → s'.2.Within ∧ ∀ p ∈ l, (s'.1.locations p).endOffset ≤ s'.2.endOffset) := by
  induction l generalizing s with
  | nil =>
    obtain rfl := hs
    exact ⟨Placed.refl k _, fun _ _ => rfl, fun p hp => (nomatch hp), fun x => by simp, rfl,
      Nat.le_refl _, fun h => ⟨h, fun p hp => (nomatch hp)⟩⟩
  | cons p l ih =>
    obtain ⟨hp, hl⟩ := List.nodup_cons.mp hl
    have hpnew := hnew p List.mem_cons_self
    set size := s.1.calculateRequiredSize p with hsize
    set s₁ := allocateBlock s p with hs₁
    have hlocation : s₁.1.locations p = ⟨(s.2.allocateMemoryBlock size).1, size⟩ := by
      simp only [hs₁, allocateBlock, Heap.locations, Heap.setFileLocation]
      cases p.level with
      | zero => simp [Heap.fileLocation, hsize]
      | succ n => simp [Heap.fileLocation, hsize]
    have hother : ∀ q, q ≠ p → s₁.1.locations q = s.1.locations q := fun q hq => by
      simp only [hs₁, allocateBlock, Heap.setFileLocation, Heap.locations]
      split
      · exact Heap.fileLocation_congr rfl (Heap.blobs_setBlob_of_ne _ _ hq)
      · exact Heap.fileLocation_congr (Heap.directories_setDirectory_of_ne _ _ hq) rfl
    have hplaced : Placed k s.1 s₁.1 := Placed.setFileLocation _ hpnew _
    obtain ⟨h1, h2, h3, h4, h5, h6, h7⟩ := ih hl (fun q hq => hnew q (List.mem_cons_of_mem _ hq)) hs
    refine ⟨hplaced.trans h1, fun q hq => ?_, fun q hq => ?_, fun x => ?_, ?_, ?_, fun hw => ?_⟩
    · rw [h2 q fun hmem => hq (List.mem_cons_of_mem _ hmem),
        hother q fun heq => hq (heq ▸ List.mem_cons_self)]
    · rcases List.mem_cons.mp hq with rfl | hq
      · rw [h2 q hp, hlocation]
      · rw [h3 q hq, hplaced.calculateRequiredSize]
    · rw [List.map_cons, coverage_cons, h2 p hp, hlocation, Nat.add_assoc, h4]
      exact free_allocateMemoryBlock _ _ _
    · rw [h5]
      exact length_allocateMemoryBlock _ _
    · exact (endOffset_le_allocateMemoryBlock _ _).trans h6
    · obtain ⟨hend, hw₁⟩ := hw.allocateMemoryBlock size
      obtain ⟨h8, h9⟩ := h7 hw₁
      refine ⟨h8, fun q hq => ?_⟩
      rcases List.mem_cons.mp hq with rfl | hq
      · rw [h2 q hp, hlocation]
        exact hend.trans h6
      · exact h9 q hq

/-- Giving back blocks. -/
theorem foldl_freeMemoryBlock (l : List MemoryBlock) (L : FreeList) :
    (∀ x, (l.foldl (fun L b => L.freeMemoryBlock b.fileLocation) L).free x =
      coverage (l.map MemoryBlock.fileLocation) x + L.free x) ∧
      (l.foldl (fun L b => L.freeMemoryBlock b.fileLocation) L).endOffset = L.endOffset ∧
      (l.foldl (fun L b => L.freeMemoryBlock b.fileLocation) L).fileLocation = L.fileLocation ∧
      (l.foldl (fun L b => L.freeMemoryBlock b.fileLocation) L).entries.length =
        L.entries.length + l.length ∧
      (L.Within → (∀ b ∈ l, b.fileLocation.endOffset ≤ L.endOffset) →
        (l.foldl (fun L b => L.freeMemoryBlock b.fileLocation) L).Within) := by
  induction l generalizing L with
  | nil => exact ⟨fun x => (Nat.zero_add _).symm, rfl, rfl, rfl, fun h _ => h⟩
  | cons b l ih =>
    obtain ⟨h1, h2, h3, h4, h5⟩ := ih (L.freeMemoryBlock b.fileLocation)
    refine ⟨fun x => ?_, h2, h3, ?_, fun hw hb => ?_⟩
    · rw [List.foldl_cons, h1, free_freeMemoryBlock, List.map_cons, coverage_cons]
      omega
    · rw [List.foldl_cons, h4, List.length_cons]
      simp only [freeMemoryBlock, List.length_append, List.length_singleton]
      omega
    · exact h5 (hw.freeMemoryBlock (hb b List.mem_cons_self))
        fun b' hb' => hb b' (List.mem_cons_of_mem _ hb')

end FreeList

/-- What `allocateAndApplyDelta` makes of the objects and the list. `free` counts the positions
that are free when all places were found, before any space is given back. -/
structure Allocation (k : CommitId) (L : FreeList) (h : Heap) (δ : MemoryBlockDelta)
    (h' : Heap) (L' : FreeList) : Prop where
  placed : Placed k h h'
  size : ∀ p ∈ δ.allocatedBlocks, (h'.locations p).size = h.calculateRequiredSize p
  listSize : L'.calculateRequiredSize ≤ L'.fileLocation.size
  count : ∃ free : ℕ → ℕ,
    (∀ x, coverage (δ.allocatedBlocks.map h'.locations) x + L'.fileLocation.covers x + free x =
      L.free x) ∧
    ∀ x, L'.free x = coverage (δ.releasedBlocks.map MemoryBlock.fileLocation) x +
      L.fileLocation.covers x + free x
  within : L.Within → L.fileLocation.endOffset ≤ L.endOffset →
    (∀ b ∈ δ.releasedBlocks, b.fileLocation.endOffset ≤ L.endOffset) → L'.Within ∧
      L'.fileLocation.endOffset ≤ L'.endOffset ∧ L.endOffset ≤ L'.endOffset ∧
      ∀ p ∈ δ.allocatedBlocks, (h'.locations p).endOffset ≤ L'.endOffset

/-- What the free list hands out is an allocation for the commit, in whatever order the delta is
walked. -/
theorem allocation_of_allocateAndApplyDelta {L : FreeList} {δ : MemoryBlockDelta} {σ : Schedule}
    (hσ : σ.Walks δ) (hδ : δ.allocatedBlocks.Nodup)
    (hnew : ∀ p ∈ δ.allocatedBlocks, p.origin = .commit k) :
    Allocation k L h δ (L.allocateAndApplyDelta h δ σ).1 (L.allocateAndApplyDelta h δ σ).2 := by
  obtain ⟨h1, -, h3, h4, h5, h6, h7⟩ := FreeList.foldl_allocateBlock (k := k)
    (hσ.allocated.nodup_iff.mpr hδ) (fun p hp => hnew p (hσ.allocated.subset hp))
    (s := (h, L)) rfl
  set s := σ.allocatedOrder.foldl FreeList.allocateBlock (h, L) with hs
  -- the place of the new free list is found after those of the objects
  set size := s.2.estimateRequiredSize (δ.releasedBlocks.length + 1) with hsize
  set L₁ : FreeList := { (s.2.allocateMemoryBlock size).2 with
    fileLocation := ⟨(s.2.allocateMemoryBlock size).1, size⟩ } with hL₁
  obtain ⟨g1, g2, g3, g4, g5⟩ := FreeList.foldl_freeMemoryBlock σ.releasedOrder L₁
  -- released blocks are freed last, so nothing new is placed in them
  set L₂ := σ.releasedOrder.foldl (fun L b => L.freeMemoryBlock b.fileLocation) L₁ with hL₂
  have hresult : L.allocateAndApplyDelta h δ σ =
      (s.1, (L₂.freeMemoryBlock L.fileLocation).reorganize σ.sort) := rfl
  have hloc : ((L₂.freeMemoryBlock L.fileLocation).reorganize σ.sort).fileLocation =
      ⟨(s.2.allocateMemoryBlock size).1, size⟩ := by
    rw [FreeList.fileLocation_reorganize]
    exact g3
  have hend : ((L₂.freeMemoryBlock L.fileLocation).reorganize σ.sort).endOffset =
      (s.2.allocateMemoryBlock size).2.endOffset := by
    rw [FreeList.endOffset_reorganize]
    exact g2
  rw [hresult]
  refine ⟨h1, fun p hp => h3 p (hσ.allocated.symm.subset hp), ?_, ⟨L₁.free, fun x => ?_, fun x => ?_⟩,
    fun hw hloc' hreleased => ?_⟩
  · have hlen := FreeList.length_reorganize_le (L₂.freeMemoryBlock L.fileLocation) σ.sort
    have hfree : (L₂.freeMemoryBlock L.fileLocation).entries.length =
        s.2.entries.length + σ.releasedOrder.length + 1 := by
      rw [← FreeList.length_allocateMemoryBlock s.2 size]
      exact (List.length_append).trans (congrArg (· + 1) g4)
    rw [hfree, hσ.released.length_eq] at hlen
    change FreeList.calculateRequiredSize
      ((L₂.freeMemoryBlock L.fileLocation).reorganize σ.sort) ≤ _
    rw [hloc, FreeList.calculateRequiredSize]
    change _ ≤ 16 + 16 * s.2.entries.length + 16 * (δ.releasedBlocks.length + 1)
    omega
  · rw [hloc, ← coverage_perm (hσ.allocated.map _), ← h4 x, Nat.add_assoc]
    exact congrArg _ (FreeList.free_allocateMemoryBlock s.2 size x)
  · rw [FreeList.free_reorganize, FreeList.free_freeMemoryBlock, g1,
      coverage_perm (hσ.released.map _)]
    omega
  · obtain ⟨hw₁, hp₁⟩ := h7 hw
    obtain ⟨hblock, hw₂⟩ := hw₁.allocateMemoryBlock size
    have hmono := FreeList.endOffset_le_allocateMemoryBlock s.2 size
    have hle : L.endOffset ≤ (s.2.allocateMemoryBlock size).2.endOffset := h6.trans hmono
    have hw₃ : L₂.Within := g5 hw₂ fun b hb =>
      (hreleased b (hσ.released.subset hb)).trans hle
    refine ⟨(hw₃.freeMemoryBlock ?_).reorganize σ.sort, ?_, ?_, fun p hp => ?_⟩
    · rw [g2]
      exact hloc'.trans hle
    · rw [hloc, hend]
      exact hblock
    · rw [hend]
      exact hle
    · rw [hend]
      exact (hp₁ p (hσ.allocated.symm.subset hp)).trans hmono

end BlobsDb
