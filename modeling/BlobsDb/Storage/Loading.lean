import BlobsDb.Storage.Heap

/-!
# Loading keeps views

`Heap.WF` is the shape all heaps have, and `Heap.Loads f h h'` says that `h'` is `h` with more
objects loaded from `f`: every object in use has the same view, and what was loaded is
untouched. Each way of loading gives such a pair, and every object that has a view can be loaded.
-/

namespace BlobsDb

namespace Heap

variable {f : FileContent} {h h' h'' : Heap} {n : ℕ} {p q : Pointer}

/-! ### Well formed heaps -/

/-- The object is not below an object that is still to be loaded: if it was created for a block
of the file, the objects of the file on the way to it are loaded. -/
def Known (h : Heap) (p : Pointer) : Prop :=
  p.origin = .file → ∀ path, path <+: p.path → path ≠ p.path →
    (h.directories ⟨path, .file⟩).status = .loaded

/-- Children are at most as young as their parents, children from the file have a loaded parent
from the file, and what is not loaded comes from the file and has no children. The next free id
of a segment or cluster has the version of its object if a commit made it, and none otherwise. -/
structure WF (h : Heap) : Prop where
  before_child : ∀ k p id o, p.origin.Before k →
    (h.directories p).children.find id = some o → o.Before k
  known_child : ∀ p id o, (h.directories p).children.find id = some o → h.Known (p.child id o)
  notLoaded : ∀ p, (h.directories p).status = .notLoaded →
    p.origin = .file ∧ (h.directories p).children = .empty ∧
      (h.directories p).nextFreeId = 0 ∧ (h.directories p).commitId = unknownCommitId
  blob_notLoaded : ∀ p, (h.blobs p).status = .notLoaded →
    p.origin = .file ∧ (h.blobs p).commitId = unknownCommitId
  nextFreeIdCommit : ∀ p, p.origin ≠ .file → p.path ≠ [] →
    (h.directories p).nextFreeIdCommit = (h.directories p).commitId
  nextFreeIdCommit_file : ∀ p id, p.path.length < 2 →
    (h.directories p).children.find id = some .file →
      (h.directories (p.child id .file)).nextFreeIdCommit = unknownCommitId

/-- `h'` is `h` with more objects loaded. -/
structure Loads (f : FileContent) (h h' : Heap) : Prop where
  wf : h.WF → h'.WF
  known : ∀ p, h.Known p → h'.Known p
  view : h.WF → ∀ n p, p.path.length + n = 3 → h.Known p → h'.view f n p = h.view f n p
  directory : ∀ p, h.Known p → (h.directories p).status = .loaded →
    h'.directories p = h.directories p
  blob : ∀ p, h.Known p → (h.blobs p).status = .loaded → h'.blobs p = h.blobs p
  fileLocation : ∀ n p, h.Known p → h'.fileLocation n p = h.fileLocation n p

theorem Loads.refl (f : FileContent) (h : Heap) : Loads f h h :=
  ⟨id, fun _ => id, fun _ _ _ _ _ => rfl, fun _ _ _ => rfl, fun _ _ _ => rfl, fun _ _ _ => rfl⟩

theorem Loads.trans (hh : Loads f h h') (hh' : Loads f h' h'') : Loads f h h'' where
  wf hwf := hh'.wf (hh.wf hwf)
  known p hp := hh'.known p (hh.known p hp)
  view hwf n p hn hp :=
    (hh'.view (hh.wf hwf) n p hn (hh.known p hp)).trans (hh.view hwf n p hn hp)
  directory p hp hl := by
    have := hh.directory p hp hl
    rw [hh'.directory p (hh.known p hp) (by rw [this, hl]), this]
  blob p hp hl := by
    have := hh.blob p hp hl
    rw [hh'.blob p (hh.known p hp) (by rw [this, hl]), this]
  fileLocation n p hp := (hh'.fileLocation n p (hh.known p hp)).trans (hh.fileLocation n p hp)

/-- What is loaded stays loaded. -/
theorem Loads.status (hh : Loads f h h') (hp : h.Known p) (hl : h.status n p = .loaded) :
    h'.status n p = .loaded := by
  cases n with
  | zero => exact (congrArg Blob.status (hh.blob p hp hl)).trans hl
  | succ n => exact (congrArg Directory.status (hh.directory p hp hl)).trans hl

/-- Objects of commits are always known. -/
theorem known_of_origin (hp : p.origin ≠ .file) : h.Known p := fun hfile => absurd hfile hp

/-- Only objects of the file may be not loaded. -/
theorem notLoaded_origin (hwf : h.WF) (hp : h.status n p = .notLoaded) : p.origin = .file := by
  cases n with
  | zero => exact (hwf.blob_notLoaded p hp).1
  | succ n => exact (hwf.notLoaded p hp).1

/-- Objects of commits are loaded. -/
theorem status_of_origin (hwf : h.WF) (hp : p.origin ≠ .file) : h.status n p = .loaded := by
  cases hs : h.status n p with
  | loaded => rfl
  | notLoaded => exact absurd (notLoaded_origin hwf hs) hp

/-- The mark of a view tells the origin and the place of the object. -/
theorem mark_of_view (hwf : h.WF) {t : Tree n} (ht : h.view f n p = some t) :
    t.mark.origin = p.origin ∧ t.mark.fileLocation = h.fileLocation n p := by
  cases hs : h.status n p with
  | notLoaded =>
    rw [view_of_notLoaded hs] at ht
    have := Tree.mark_of_readTree ht
    exact ⟨this.1.trans (notLoaded_origin hwf hs).symm, this.2⟩
  | loaded =>
    cases n with
    | zero =>
      rw [view_zero_of_loaded hs] at ht
      cases ht
      exact ⟨rfl, rfl⟩
    | succ n =>
      rw [((view_succ_of_loaded hs).mp ht).1]
      exact ⟨rfl, rfl⟩

/-- The commit id of a loaded object is the one the tree shows. -/
theorem commitId_of_view {t : Tree n} (ht : h.view f n p = some t)
    (hs : h.status n p = .loaded) : h.commitId n p = t.mark.commitId := by
  cases n with
  | zero =>
    rw [view_zero_of_loaded hs] at ht
    cases ht
    rfl
  | succ n =>
    rw [((view_succ_of_loaded hs).mp ht).1]
    rfl

/-! ### Loading keeps views -/

/-- Preparing children to be loaded affects no other objects. -/
theorem foldl_delayLoad_of_ne {l : List (UInt32 × BlockReference)}
    (hq : ∀ e ∈ l, q ≠ p.child e.1 .file) :
    (l.foldl (delayLoad n p) h).directories q = h.directories q ∧
      (l.foldl (delayLoad n p) h).blobs q = h.blobs q := by
  induction l generalizing h with
  | nil => exact ⟨rfl, rfl⟩
  | cons e l ih =>
    obtain ⟨h1, h2⟩ := ih (h := delayLoad n p h e) fun e he => hq e (List.mem_cons_of_mem _ he)
    have hne := hq e List.mem_cons_self
    rw [List.foldl_cons, h1, h2]
    cases n with
    | zero => exact ⟨rfl, blobs_setBlob_of_ne h _ hne⟩
    | succ n => exact ⟨directories_setDirectory_of_ne h _ hne, rfl⟩

/-- Only objects for blocks of the file are entered. -/
theorem foldl_delayLoad_directories (l : List (UInt32 × BlockReference)) (q : Pointer) :
    (l.foldl (delayLoad n p) h).directories q = h.directories q ∨
      q.origin = .file ∧
        ∃ id r, (l.foldl (delayLoad n p) h).directories q = Directory.delayed id r := by
  induction l generalizing h with
  | nil => exact Or.inl rfl
  | cons e l ih =>
    rw [List.foldl_cons]
    rcases ih (h := delayLoad n p h e) with heq | hnew
    · rw [heq]
      cases n with
      | zero => exact Or.inl rfl
      | succ n =>
        by_cases hq : q = p.child e.1 .file
        · exact Or.inr ⟨by rw [hq]; rfl, e.1, e.2, by simp [delayLoad, hq]⟩
        · exact Or.inl (directories_setDirectory_of_ne h _ hq)
    · exact Or.inr hnew

/-- Only blobs for blocks of the file are entered. -/
theorem foldl_delayLoad_blobs (l : List (UInt32 × BlockReference)) (q : Pointer) :
    (l.foldl (delayLoad n p) h).blobs q = h.blobs q ∨
      q.origin = .file ∧ ∃ id r, (l.foldl (delayLoad n p) h).blobs q = Blob.delayed id r := by
  induction l generalizing h with
  | nil => exact Or.inl rfl
  | cons e l ih =>
    rw [List.foldl_cons]
    rcases ih (h := delayLoad n p h e) with heq | hnew
    · rw [heq]
      cases n with
      | zero =>
        by_cases hq : q = p.child e.1 .file
        · exact Or.inr ⟨by rw [hq]; rfl, e.1, e.2, by simp [delayLoad, hq]⟩
        · exact Or.inl (blobs_setBlob_of_ne h _ hq)
      | succ n => exact Or.inl rfl
    · exact Or.inr hnew

/-- The children an object gets when it is loaded are not loaded and lie where its block says. -/
theorem foldl_delayLoad_of_mem {l : List (UInt32 × BlockReference)}
    (hl : l.Pairwise fun a b => a.1 < b.1) {id : UInt32} {r : BlockReference}
    (hr : (id, r) ∈ l) :
    (l.foldl (delayLoad n p) h).status n (p.child id .file) = .notLoaded ∧
      (l.foldl (delayLoad n p) h).fileLocation n (p.child id .file) = r := by
  induction l generalizing h with
  | nil => cases hr
  | cons e l ih =>
    obtain ⟨he, hl⟩ := List.pairwise_cons.mp hl
    rw [List.foldl_cons]
    rcases List.mem_cons.mp hr with rfl | hr
    · have hne : ∀ e ∈ l, p.child id .file ≠ p.child e.1 .file := fun e' he' heq => by
        have : id = e'.1 := by simpa [Pointer.child] using heq
        exact absurd (he e' he') (by rw [← this]; exact lt_irrefl _)
      obtain ⟨h1, h2⟩ := foldl_delayLoad_of_ne (n := n) (h := delayLoad n p h (id, r)) hne
      rw [status_congr h1 h2, fileLocation_congr h1 h2]
      cases n with
      | zero => simp [status, fileLocation, delayLoad, Blob.delayed]
      | succ n => simp [status, fileLocation, delayLoad, Directory.delayed]
    · exact ih hl hr

/-- A child that is not a blob is entered without content. -/
theorem foldl_delayLoad_delayed {l : List (UInt32 × BlockReference)} {id : UInt32}
    (hid : ∃ r, (id, r) ∈ l) : ∃ r,
      (l.foldl (delayLoad (n + 1) p) h).directories (p.child id .file) = Directory.delayed id r := by
  induction l generalizing h with
  | nil =>
    obtain ⟨r, hr⟩ := hid
    cases hr
  | cons e l ih =>
    rw [List.foldl_cons]
    by_cases hlater : ∃ r, (id, r) ∈ l
    · exact ih hlater
    · have hne : ∀ e' ∈ l, p.child id .file ≠ p.child e'.1 .file := fun e' he' heq => by
        have hid' : id = e'.1 := by simpa [Pointer.child] using heq
        exact hlater ⟨e'.2, by rw [hid']; exact he'⟩
      obtain ⟨r, hr⟩ := hid
      obtain rfl := (List.mem_cons.mp hr).resolve_right fun hr => hlater ⟨r, hr⟩
      rw [(foldl_delayLoad_of_ne (n := n + 1) (h := delayLoad (n + 1) p h (id, r)) hne).1]
      exact ⟨r, directories_setDirectory_self _ _ _⟩

/-- Views agree when at each pointer in use the objects or the views do. -/
theorem view_eq_of_objects (hwf : h.WF)
    (hobj : ∀ n q, q.path.length + n = 3 → h.Known q →
      (h'.directories q = h.directories q ∧ h'.blobs q = h.blobs q) ∨
        h'.view f n q = h.view f n q)
    (n : ℕ) (q : Pointer) (hn : q.path.length + n = 3) (hq : h.Known q) :
    h'.view f n q = h.view f n q := by
  induction n generalizing q with
  | zero =>
    rcases hobj 0 q hn hq with ⟨-, hb⟩ | hv
    · rw [view, view, hb]
    · exact hv
  | succ n ih =>
    rcases hobj (n + 1) q hn hq with ⟨hd, -⟩ | hv
    · have hchild : ((h.directories q).children.traverse fun id o =>
          h'.view f n (q.child id o)) =
          (h.directories q).children.traverse fun id o => h.view f n (q.child id o) :=
        FlatMap.traverse_congr fun id o ho =>
          ih (q.child id o) (by simp only [Pointer.path_child, List.length_append,
            List.length_singleton]; omega) (hwf.known_child q id o ho)
      rw [view, view, hd]
      cases (h.directories q).status with
      | notLoaded => rfl
      | loaded =>
        simp only [viewLoaded]
        rw [hchild]
    · exact hv

/-- Loading a blob. -/
theorem loads_of_load_zero (hwf : h.WF) (hn : p.path.length = 3)
    (hp : h.status 0 p = .notLoaded) (hload : load f 0 h p = some h') :
    Loads f h h' ∧ h'.status 0 p = .loaded := by
  obtain ⟨bytes, b, hbytes, hb, rfl⟩ : ∃ bytes b,
      f.readIntoMemory (h.blobs p).fileLocation = some bytes ∧ decodeBlob bytes = some b ∧
        h' = h.setBlob p ((h.blobs p).loadedWith b) := by
    simp only [load] at hload
    split at hload
    · cases hload
    · next bytes hbytes =>
      split at hload
      · cases hload
      · next b hb => exact ⟨bytes, b, hbytes, hb, (Option.some.inj hload).symm⟩
  set b' := (h.blobs p).loadedWith b with hb'
  have hsame : ∀ q, q ≠ p → (h.setBlob p b').blobs q = h.blobs q := fun q hq =>
    blobs_setBlob_of_ne h _ hq
  refine ⟨⟨fun _ => ⟨hwf.before_child, hwf.known_child, hwf.notLoaded, fun q hq => ?_,
      hwf.nextFreeIdCommit, hwf.nextFreeIdCommit_file⟩, fun _ => id, fun _ => view_eq_of_objects hwf fun n q hn' _ => ?_, fun _ _ _ => rfl,
    fun q _ hq => hsame q ?_, fun n q _ => ?_⟩, by simp [status, hb', Blob.loadedWith]⟩
  · by_cases hqp : q = p
    · rw [hqp, blobs_setBlob_self] at hq
      cases hq
    · rw [hsame q hqp] at hq ⊢
      exact hwf.blob_notLoaded q hq
  · by_cases hqp : q = p
    · subst hqp
      obtain rfl : n = 0 := by omega
      refine Or.inr ?_
      rw [view_of_notLoaded hp, view_zero_of_loaded (by simp [hb', Blob.loadedWith]),
        blobs_setBlob_self, (hwf.blob_notLoaded q hp).1]
      exact (Tree.readTree_zero_eq_some_iff (t := LevelTree.leaf ⟨_, _, b.commitId⟩ b.data).mpr
        ⟨bytes, hbytes, hb, rfl⟩).symm
    · exact Or.inl ⟨rfl, hsame q hqp⟩
  · rintro rfl
    rw [show (h.blobs q).status = .notLoaded from hp] at hq
    cases hq
  · by_cases hqp : q = p
    · cases n with
      | zero => simp [fileLocation, hqp, hb', Blob.loadedWith]
      | succ n => rfl
    · exact fileLocation_congr rfl (hsame q hqp)

/-- What loading a snapshot, segment or cluster leaves: its children are entered to be loaded
later, and its content is that of its block. -/
def loadWith (n : ℕ) (p : Pointer) (h : Heap) (d : DirectoryBlock) : Heap :=
  (d.children.entries.foldl (delayLoad n p) h).setDirectory p ((h.directories p).loadedWith d)

section

variable {d : DirectoryBlock} {id : UInt32}

/-- Loading reads the block of the object and enters its children. -/
theorem load_succ_eq_some (hload : load f (n + 1) h p = some h') : ∃ bytes d,
    f.readIntoMemory (h.directories p).fileLocation = some bytes ∧
      decodeDirectory bytes = some d ∧ h' = loadWith n p h d := by
  simp only [load] at hload
  split at hload
  · cases hload
  · next bytes hbytes =>
    split at hload
    · cases hload
    · next d hd => exact ⟨bytes, d, hbytes, hd, (Option.some.inj hload).symm⟩

@[simp] theorem directories_loadWith_self :
    (loadWith n p h d).directories p = (h.directories p).loadedWith d :=
  directories_setDirectory_self _ _ _

/-- The children of an object that was loaded are those its block lists, from the file. -/
theorem find_children_loadedWith {dir : Directory} {o : Origin}
    (ho : (dir.loadedWith d).children.find id = some o) :
    o = .file ∧ ∃ r, d.children.find id = some r := by
  simp only [Directory.loadedWith, FlatMap.find_map, Option.map_eq_some_iff] at ho
  obtain ⟨r, hr, rfl⟩ := ho
  exact ⟨rfl, r, hr⟩

/-- Another directory stays, or is entered to be loaded later. -/
theorem directories_loadWith (hqp : q ≠ p) :
    (loadWith n p h d).directories q = h.directories q ∨
      q.origin = .file ∧ ∃ id r, (loadWith n p h d).directories q = Directory.delayed id r := by
  rw [loadWith, directories_setDirectory_of_ne _ _ hqp]
  exact foldl_delayLoad_directories _ q

/-- The same for a blob. -/
theorem blobs_loadWith (q : Pointer) :
    (loadWith n p h d).blobs q = h.blobs q ∨
      q.origin = .file ∧ ∃ id r, (loadWith n p h d).blobs q = Blob.delayed id r := by
  rw [loadWith, blobs_setDirectory]
  exact foldl_delayLoad_blobs _ q

/-- An object that is not loaded is one of the file. -/
theorem eq_file_of_notLoaded (hwf : h.WF) (hp : h.status (n + 1) p = .notLoaded) :
    p = ⟨p.path, .file⟩ := by
  rw [← notLoaded_origin hwf hp]

theorem ne_of_loaded (hp : h.status (n + 1) p = .notLoaded)
    (hq : (h.directories q).status = .loaded) : q ≠ p := by
  rintro rfl
  rw [show (h.directories q).status = .notLoaded from hp] at hq
  cases hq

/-- An object in use is no child of one that is still to be loaded. -/
theorem ne_child_of_known (hwf : h.WF) (hp : h.status (n + 1) p = .notLoaded) (hq : h.Known q) :
    q ≠ p.child id .file := by
  rintro rfl
  have hl := hq rfl p.path (List.prefix_append _ _) (by simp)
  rw [← eq_file_of_notLoaded hwf hp] at hl
  exact ne_of_loaded hp hl rfl

/-- Objects in use stay as they are, but for the content of the one that is loaded. -/
theorem loadWith_of_known (hwf : h.WF) (hp : h.status (n + 1) p = .notLoaded) (hq : h.Known q) :
    (q ≠ p → (loadWith n p h d).directories q = h.directories q) ∧
      (loadWith n p h d).blobs q = h.blobs q := by
  obtain ⟨hdir, hb⟩ := foldl_delayLoad_of_ne (n := n) (p := p) (h := h) (l := d.children.entries)
    fun _ _ => ne_child_of_known hwf hp hq
  exact ⟨fun hqp => (directories_setDirectory_of_ne _ _ hqp).trans hdir, hb⟩

/-- Objects in use stay in use. -/
theorem known_loadWith (hwf : h.WF) (hp : h.status (n + 1) p = .notLoaded) (hq : h.Known q) :
    (loadWith n p h d).Known q := fun hqf path hpre hpath => by
  have hl := hq hqf path hpre hpath
  have hk : h.Known ⟨path, .file⟩ := fun _ path' hpre' hpath' =>
    hq hqf path' (hpre'.trans hpre) fun heq => hpath' (hpre'.eq_of_length
      (Nat.le_antisymm hpre'.length_le (heq ▸ hpre.length_le)))
  rw [(loadWith_of_known hwf hp hk).1 (ne_of_loaded hp hl), hl]

/-- The children of the loaded object are in use from now on. -/
theorem known_child_loadWith (hwf : h.WF) (hk : h.Known p)
    (hp : h.status (n + 1) p = .notLoaded) : (loadWith n p h d).Known (p.child id .file) := by
  intro _ path hpre hpath
  by_cases hpp : path = p.path
  · rw [hpp, ← eq_file_of_notLoaded hwf hp, directories_loadWith_self]
    rfl
  · have hpre : path <+: p.path := (List.prefix_concat_iff.mp hpre).resolve_left hpath
    exact known_loadWith hwf hp hk (notLoaded_origin hwf hp) path hpre hpp

theorem child_ne_self : p.child id .file ≠ p := fun heq => by
  simpa using congrArg (List.length ∘ Pointer.path) heq

/-- The children of the file have no version of their next free id, whether they were there
before or are entered for the loaded object. -/
theorem nextFreeIdCommit_file_loadWith (hwf : h.WF) (hn : p.path.length + (n + 1) = 3)
    (hp : h.status (n + 1) p = .notLoaded) (hlength : q.path.length < 2)
    (ho : ((loadWith n p h d).directories q).children.find id = some .file) :
    ((loadWith n p h d).directories (q.child id .file)).nextFreeIdCommit = unknownCommitId := by
  by_cases hqp : q = p
  · subst hqp
    rw [directories_loadWith_self] at ho
    obtain ⟨-, r, hr⟩ := find_children_loadedWith ho
    obtain ⟨m, rfl⟩ : ∃ m, n = m + 1 := ⟨n - 1, by omega⟩
    obtain ⟨r', hr'⟩ := foldl_delayLoad_delayed (n := m) (p := q) (h := h)
      ⟨r, FlatMap.find_eq_some_iff.mp hr⟩
    rw [loadWith, directories_setDirectory_of_ne _ _ child_ne_self, hr']
    rfl
  · rcases directories_loadWith (n := n) (h := h) (d := d) hqp with heq | ⟨-, _, _, hdel⟩
    · rw [heq] at ho
      have hunknown := hwf.nextFreeIdCommit_file q id hlength ho
      by_cases hcp : q.child id .file = p
      · rw [hcp] at hunknown ⊢
        rw [directories_loadWith_self]
        exact hunknown
      · rcases directories_loadWith (n := n) (h := h) (d := d) hcp with heq | ⟨-, _, _, hdel⟩
        · rw [heq]
          exact hunknown
        · rw [hdel]
          rfl
    · rw [hdel] at ho
      cases ho

/-- Loading keeps the shape: entered children have no children, and come from the file. -/
theorem wf_loadWith (hwf : h.WF) (hn : p.path.length + (n + 1) = 3) (hk : h.Known p)
    (hp : h.status (n + 1) p = .notLoaded) : (loadWith n p h d).WF where
  before_child k q id o hqk ho := by
    by_cases hqp : q = p
    · rw [hqp, directories_loadWith_self] at ho
      obtain ⟨rfl, -⟩ := find_children_loadedWith ho
      trivial
    · rcases directories_loadWith (n := n) (h := h) (d := d) hqp with heq | ⟨-, _, _, hdel⟩
      · rw [heq] at ho
        exact hwf.before_child k q id o hqk ho
      · rw [hdel] at ho
        cases ho
  known_child q id o ho := by
    by_cases hqp : q = p
    · rw [hqp, directories_loadWith_self] at ho
      obtain ⟨rfl, -⟩ := find_children_loadedWith ho
      rw [hqp]
      exact known_child_loadWith hwf hk hp
    · rcases directories_loadWith (n := n) (h := h) (d := d) hqp with heq | ⟨-, _, _, hdel⟩
      · rw [heq] at ho
        exact known_loadWith hwf hp (hwf.known_child q id o ho)
      · rw [hdel] at ho
        cases ho
  notLoaded q hq := by
    by_cases hqp : q = p
    · rw [hqp, directories_loadWith_self] at hq
      cases hq
    · rcases directories_loadWith (n := n) (h := h) (d := d) hqp with heq | ⟨hfile, _, _, hdel⟩
      · rw [heq] at hq ⊢
        exact hwf.notLoaded q hq
      · rw [hdel]
        exact ⟨hfile, rfl, rfl, rfl⟩
  blob_notLoaded q hq := by
    rcases blobs_loadWith (n := n) (p := p) (h := h) (d := d) q with heq | ⟨hfile, _, _, hdel⟩
    · rw [heq] at hq ⊢
      exact hwf.blob_notLoaded q hq
    · rw [hdel]
      exact ⟨hfile, rfl⟩
  nextFreeIdCommit q hq hpath := by
    have hqp : q ≠ p := fun heq => hq (heq ▸ notLoaded_origin hwf hp)
    rcases directories_loadWith (n := n) (h := h) (d := d) hqp with heq | ⟨hqf, -⟩
    · rw [heq]
      exact hwf.nextFreeIdCommit q hq hpath
    · exact absurd hqf hq
  nextFreeIdCommit_file q id hlength ho :=
    nextFreeIdCommit_file_loadWith hwf hn hp hlength ho

/-- The children of the loaded object are read from where its block says. -/
theorem view_child_loadWith {r : BlockReference} (hr : d.children.find id = some r) :
    (loadWith n p h d).view f n (p.child id .file) = readTree f n r := by
  obtain ⟨h1, h2⟩ := foldl_delayLoad_of_mem (n := n) (p := p) (h := h) d.children.sorted
    (FlatMap.find_eq_some_iff.mp hr)
  have hdir : (loadWith n p h d).directories (p.child id .file) =
      (d.children.entries.foldl (delayLoad n p) h).directories (p.child id .file) :=
    directories_setDirectory_of_ne _ _ child_ne_self
  rw [view_of_notLoaded ((status_congr hdir rfl).trans h1), fileLocation_congr hdir rfl, h2]

/-- The object that is loaded shows what its block says, as it did before. -/
theorem view_loadWith_self (hwf : h.WF) (hp : h.status (n + 1) p = .notLoaded)
    {bytes : List UInt8} (hbytes : f.readIntoMemory (h.directories p).fileLocation = some bytes)
    (hd : decodeDirectory bytes = some d) :
    (loadWith n p h d).view f (n + 1) p = h.view f (n + 1) p := by
  have hread : readTree f (n + 1) (h.fileLocation (n + 1) p) =
      viewLoaded (fun r => view f (loadWith n p h d) n r) ((h.directories p).loadedWith d) p := by
    rw [readTree, show f.readIntoMemory (h.fileLocation (n + 1) p) = some bytes from hbytes]
    simp only [hd, viewLoaded]
    rw [show ((h.directories p).loadedWith d).children = d.children.map fun _ => Origin.file
        from rfl, FlatMap.traverse_map, FlatMap.traverse_congr fun _ _ => view_child_loadWith,
      notLoaded_origin hwf hp]
    rfl
  rw [view_of_notLoaded hp, hread, view, directories_loadWith_self]
  rfl

/-- Loading a snapshot, segment or cluster. -/
theorem loads_of_load_succ (hwf : h.WF) (hn : p.path.length + (n + 1) = 3) (hk : h.Known p)
    (hp : h.status (n + 1) p = .notLoaded) (hload : load f (n + 1) h p = some h') :
    Loads f h h' ∧ h'.status (n + 1) p = .loaded := by
  obtain ⟨bytes, d, hbytes, hd, rfl⟩ := load_succ_eq_some hload
  refine ⟨⟨fun _ => wf_loadWith hwf hn hk hp, fun _ => known_loadWith hwf hp,
    fun _ => view_eq_of_objects hwf fun m q hm hq => ?_,
    fun q hq hl => (loadWith_of_known hwf hp hq).1 (ne_of_loaded hp hl),
    fun q hq _ => (loadWith_of_known hwf hp hq).2, fun m q hq => ?_⟩,
    by rw [status, directories_loadWith_self]; rfl⟩
  · by_cases hqp : q = p
    · subst hqp
      obtain rfl : m = n + 1 := by omega
      exact Or.inr (view_loadWith_self hwf hp hbytes hd)
    · obtain ⟨hdir, hb⟩ := loadWith_of_known (d := d) hwf hp hq
      exact Or.inl ⟨hdir hqp, hb⟩
  · obtain ⟨hdir, hb⟩ := loadWith_of_known (d := d) hwf hp hq
    by_cases hqp : q = p
    · subst hqp
      cases m with
      | zero => exact congrArg Blob.fileLocation hb
      | succ m => rw [fileLocation, directories_loadWith_self]; rfl
    · exact fileLocation_congr (hdir hqp) hb

end

/-- Making sure that an object in use is loaded. -/
theorem loads_of_ensureLoaded (hwf : h.WF) (hn : p.path.length + n = 3) (hk : h.Known p)
    (hload : ensureLoaded f n h p = some h') : Loads f h h' ∧ h'.status n p = .loaded := by
  unfold ensureLoaded at hload
  split_ifs at hload with hs
  · cases hload
    exact ⟨Loads.refl f h, hs⟩
  · have hs : h.status n p = .notLoaded := by
      cases hst : h.status n p with
      | loaded => exact absurd hst hs
      | notLoaded => rfl
    cases n with
    | zero => exact loads_of_load_zero hwf hn hs hload
    | succ n => exact loads_of_load_succ hwf hn hk hs hload

/-- An object that has a view can be loaded. -/
theorem exists_ensureLoaded {t : Tree n} (ht : h.view f n p = some t) :
    ∃ h', ensureLoaded f n h p = some h' := by
  unfold ensureLoaded
  split_ifs with hs
  · exact ⟨h, rfl⟩
  · have hs : h.status n p = .notLoaded := by
      cases hst : h.status n p with
      | loaded => exact absurd hst hs
      | notLoaded => rfl
    rw [view_of_notLoaded hs] at ht
    cases n with
    | zero =>
      obtain ⟨bytes, hbytes, hb, -⟩ := Tree.readTree_zero_eq_some_iff.mp ht
      simp only [load]
      rw [show f.readIntoMemory (h.blobs p).fileLocation = some bytes from hbytes]
      simp only [hb]
      exact ⟨_, rfl⟩
    | succ n =>
      obtain ⟨bytes, _, hbytes, hd, -⟩ := Tree.readTree_succ_eq_some_iff.mp ht
      simp only [load]
      rw [show f.readIntoMemory (h.directories p).fileLocation = some bytes from hbytes]
      simp only [hd]
      exact ⟨_, rfl⟩

/-- Loading one object after another. -/
theorem loads_of_foldlM {ε : Type} {step : Heap → ε → Option Heap} {P : Heap → ε → Prop}
    {l : List ε}
    (hstep : ∀ e ∈ l, ∀ g g', Loads f h g → step g e = some g' → Loads f g g' ∧ P g' e)
    (hmono : ∀ e ∈ l, ∀ g g', Loads f h g → Loads f g g' → P g e → P g' e)
    (hfold : l.foldlM step h = some h') : Loads f h h' ∧ ∀ e ∈ l, P h' e := by
  have hgen : ∀ l' : List ε, (∀ e ∈ l', e ∈ l) → ∀ g, Loads f h g →
      l'.foldlM step g = some h' → Loads f g h' ∧ ∀ e ∈ l', P h' e := fun l' => by
    induction l' with
    | nil =>
      intro _ g _ hg
      cases hg
      exact ⟨Loads.refl f h', fun e he => (nomatch he)⟩
    | cons e l' ih =>
      intro hsub g hg hfold
      rw [List.foldlM_cons] at hfold
      obtain ⟨g', hg', hfold⟩ := Option.bind_eq_some_iff.mp hfold
      have he := hsub e List.mem_cons_self
      obtain ⟨h1, h2⟩ := hstep e he g g' hg hg'
      obtain ⟨h3, h4⟩ := ih (fun e he => hsub e (List.mem_cons_of_mem _ he)) g' (hg.trans h1) hfold
      refine ⟨h1.trans h3, fun e' he' => ?_⟩
      rcases List.mem_cons.mp he' with rfl | he'
      · exact hmono _ he g' h' (hg.trans h1) h3 h2
      · exact h4 e' he'
  exact hgen l (fun _ => id) h (Loads.refl f h) hfold

/-- Steps that each load something can be taken one after the other. -/
theorem exists_foldlM {ε : Type} {step : Heap → ε → Option Heap} {l : List ε}
    (hstep : ∀ e ∈ l, ∀ g, Loads f h g → ∃ g', step g e = some g' ∧ Loads f g g') :
    ∃ h', l.foldlM step h = some h' := by
  have hgen : ∀ l' : List ε, (∀ e ∈ l', e ∈ l) → ∀ g, Loads f h g →
      ∃ h', l'.foldlM step g = some h' := fun l' => by
    induction l' with
    | nil =>
      intro _ g _
      exact ⟨g, rfl⟩
    | cons e l' ih =>
      intro hsub g hg
      obtain ⟨g', hg', hl⟩ := hstep e (hsub e List.mem_cons_self) g hg
      rw [List.foldlM_cons, hg']
      exact ih (fun e he => hsub e (List.mem_cons_of_mem _ he)) g' (hg.trans hl)
  exact hgen l (fun _ => id) h (Loads.refl f h)

/-- Everything below an object of a level is loaded. -/
def LoadedBelow (h : Heap) : ℕ → Pointer → Prop
  | 0, _ => True
  | n + 1, p => ∀ id o, (h.directories p).children.find id = some o →
    h.status n (p.child id o) = .loaded ∧ h.LoadedBelow n (p.child id o)

/-- Objects stay loaded with all below them. -/
theorem LoadedBelow.mono (hwf : h.WF) (hh : Loads f h h') (hk : h.Known p)
    (hs : h.status n p = .loaded) (hl : h.LoadedBelow n p) : h'.LoadedBelow n p := by
  induction n generalizing p with
  | zero => trivial
  | succ n ih =>
    intro id o ho
    rw [hh.directory p hk hs] at ho
    have hkc := hwf.known_child p id o ho
    obtain ⟨h1, h2⟩ := hl id o ho
    exact ⟨hh.status hkc h1, ih hkc h1 h2⟩

/-- A child is one level down. -/
theorem length_child (hn : p.path.length + (n + 1) = 3) (id : UInt32) (o : Origin) :
    (p.child id o).path.length + n = 3 := by
  rw [Pointer.path_child, List.length_append, List.length_singleton]
  omega

/-- Loading the children. -/
theorem loads_of_loadChildren (hwf : h.WF) (hn : p.path.length + (n + 1) = 3)
    (hload : loadChildren f n h p = some h') :
    Loads f h h' ∧ ∀ id o, (h.directories p).children.find id = some o →
      h'.status n (p.child id o) = .loaded := by
  have hk : ∀ e ∈ (h.directories p).children.entries, h.Known (p.child e.1 e.2) := fun e he =>
    hwf.known_child p e.1 e.2 (FlatMap.find_eq_some_iff.mpr he)
  obtain ⟨h1, h2⟩ := loads_of_foldlM (P := fun g e => g.status n (p.child e.1 e.2) = .loaded)
    (fun e he g g' hg hg' => loads_of_ensureLoaded (hg.wf hwf) (length_child hn _ _)
      (hg.known _ (hk e he)) hg')
    (fun e he g g' hg hg' hs => hg'.status (p := p.child e.1 e.2) (hg.known _ (hk e he)) hs) hload
  exact ⟨h1, fun id o ho => h2 (id, o) (FlatMap.find_eq_some_iff.mp ho)⟩

/-- Loading everything below an object. -/
theorem loads_of_loadBelow (hwf : h.WF) (hn : p.path.length + n = 3) (hk : h.Known p)
    (hs : h.status n p = .loaded) (hload : loadBelow f n h p = some h') :
    Loads f h h' ∧ h'.LoadedBelow n p := by
  induction n generalizing h h' p with
  | zero =>
    cases hload
    exact ⟨Loads.refl f h, trivial⟩
  | succ n ih =>
    have hkc : ∀ e ∈ (h.directories p).children.entries, h.Known (p.child e.1 e.2) := fun e he =>
      hwf.known_child p e.1 e.2 (FlatMap.find_eq_some_iff.mpr he)
    have hmono : ∀ e ∈ (h.directories p).children.entries, ∀ g g', Loads f h g → Loads f g g' →
        g.status n (p.child e.1 e.2) = .loaded ∧ g.LoadedBelow n (p.child e.1 e.2) →
        g'.status n (p.child e.1 e.2) = .loaded ∧ g'.LoadedBelow n (p.child e.1 e.2) :=
      fun e he g g' hg hg' hl => ⟨hg'.status (hg.known _ (hkc e he)) hl.1,
        hl.2.mono (hg.wf hwf) hg' (hg.known _ (hkc e he)) hl.1⟩
    obtain ⟨h1, h2⟩ := loads_of_foldlM (fun e he g g' hg hg' => by
      split at hg'
      · cases hg'
      · next g1 hg1 =>
        have hk1 := hg.known _ (hkc e he)
        obtain ⟨h3, h4⟩ := loads_of_ensureLoaded (hg.wf hwf) (length_child hn _ _) hk1 hg1
        obtain ⟨h5, h6⟩ := ih (h3.wf (hg.wf hwf)) (length_child hn _ _) (h3.known _ hk1) h4 hg'
        exact ⟨h3.trans h5, h5.status (h3.known _ hk1) h4, h6⟩) hmono hload
    refine ⟨h1, fun id o ho => ?_⟩
    rw [h1.directory p hk hs] at ho
    exact h2 (id, o) (FlatMap.find_eq_some_iff.mp ho)

/-- The children of a loaded object can be loaded. -/
theorem exists_loadChildren (hwf : h.WF) (hn : p.path.length + (n + 1) = 3) {t : Tree (n + 1)}
    (ht : h.view f (n + 1) p = some t) (hs : (h.directories p).status = .loaded) :
    ∃ h', loadChildren f n h p = some h' := by
  refine exists_foldlM (f := f) fun e he g hg => ?_
  have ho := FlatMap.find_eq_some_iff.mpr he
  have hk := hwf.known_child p e.1 e.2 ho
  obtain ⟨c, -, hc⟩ := view_child ht hs ho
  rw [← hg.view hwf n _ (length_child hn _ _) hk] at hc
  obtain ⟨g', hg'⟩ := exists_ensureLoaded hc
  exact ⟨g', hg', (loads_of_ensureLoaded (hg.wf hwf) (length_child hn _ _) (hg.known _ hk) hg').1⟩

/-- All objects below a loaded one can be loaded. -/
theorem exists_loadBelow (hwf : h.WF) (hn : p.path.length + n = 3) {t : Tree n}
    (ht : h.view f n p = some t) (hs : h.status n p = .loaded) :
    ∃ h', loadBelow f n h p = some h' := by
  induction n generalizing h p with
  | zero => exact ⟨h, rfl⟩
  | succ n ih =>
    refine exists_foldlM (f := f) fun e he g hg => ?_
    have ho := FlatMap.find_eq_some_iff.mpr he
    have hk := hwf.known_child p e.1 e.2 ho
    have hnc := length_child hn e.1 e.2
    obtain ⟨c, -, hc⟩ := view_child ht hs ho
    rw [← hg.view hwf n _ hnc hk] at hc
    obtain ⟨g1, hg1⟩ := exists_ensureLoaded hc
    obtain ⟨h3, h4⟩ := loads_of_ensureLoaded (hg.wf hwf) hnc (hg.known _ hk) hg1
    rw [← h3.view (hg.wf hwf) n _ hnc (hg.known _ hk)] at hc
    obtain ⟨g2, hg2⟩ := ih (h3.wf (hg.wf hwf)) hnc hc h4
    rw [hg1]
    exact ⟨g2, hg2, h3.trans (loads_of_loadBelow (h3.wf (hg.wf hwf)) hnc
      (h3.known _ (hg.known _ hk)) h4 hg2).1⟩

/-- Loading a child of an object in use. -/
theorem exists_getLoadedChild (hwf : h.WF) (hn : p.path.length + (n + 1) = 3) (hk : h.Known p)
    {t : Tree (n + 1)} (ht : h.view f (n + 1) p = some t) (hs : (h.directories p).status = .loaded)
    (id : UInt32) : ∃ r h', getLoadedChild f n h p id = some (r, h') ∧ Loads f h h' ∧
      r = ((h'.directories p).children.find id).map (p.child id) ∧
      ∀ q ∈ r, h'.status n q = .loaded := by
  unfold getLoadedChild
  cases ho : (h.directories p).children.find id with
  | none => exact ⟨none, h, rfl, Loads.refl f h, by rw [ho]; rfl, fun q hq => nomatch hq⟩
  | some o =>
    obtain ⟨c, -, hc⟩ := view_child ht hs ho
    obtain ⟨h', hload⟩ := exists_ensureLoaded hc
    obtain ⟨hl, hst⟩ := loads_of_ensureLoaded hwf (length_child hn _ _)
      (hwf.known_child _ _ _ ho) hload
    refine ⟨some (p.child id o), h', by simp only [hload], hl, ?_, fun q hq => ?_⟩
    · rw [hl.directory p hk hs, ho]
      rfl
    · cases hq
      exact hst

/-- The object and all below it that have children are loaded. -/
def DirectoriesLoaded (h : Heap) : ℕ → Pointer → Prop
  | 0, _ => True
  | n + 1, p => (h.directories p).status = .loaded ∧
    ∀ id o, (h.directories p).children.find id = some o → h.DirectoriesLoaded n (p.child id o)

/-- If everything is loaded, so are the objects with children. -/
theorem LoadedBelow.directoriesLoaded (hs : h.status n p = .loaded) (hl : h.LoadedBelow n p) :
    h.DirectoriesLoaded n p := by
  induction n generalizing p with
  | zero => trivial
  | succ n ih => exact ⟨hs, fun id o ho => ih (hl id o ho).1 (hl id o ho).2⟩

/-! ### Changes of new objects -/

/-- A heap stays well formed when a loaded object gets children of its age. -/
theorem WF.setDirectory (hwf : h.WF) {d : Directory} (hp : p.origin ≠ .file)
    (hs : d.status = .loaded)
    (hd : ∀ id o, d.children.find id = some o →
      (∀ k, p.origin.Before k → o.Before k) ∧ h.Known (p.child id o))
    (hversion : p.path ≠ [] → d.nextFreeIdCommit = d.commitId)
    (hversions : p.path.length < 2 → ∀ id, d.children.find id = some .file →
      (h.directories (p.child id .file)).nextFreeIdCommit = unknownCommitId) :
    (h.setDirectory p d).WF := by
  have hfile : ∀ path, (h.setDirectory p d).directories ⟨path, .file⟩ =
      h.directories ⟨path, .file⟩ := fun path =>
    directories_setDirectory_of_ne h d fun heq => hp (by rw [← heq])
  have hknown : ∀ q, h.Known q → (h.setDirectory p d).Known q := fun q hq hqf path hpre hne => by
    rw [hfile]
    exact hq hqf path hpre hne
  refine ⟨fun k q id o hqk ho => ?_, fun q id o ho => ?_, fun q hq => ?_, hwf.blob_notLoaded,
    fun q hq hpath => ?_, fun q id hlength ho => ?_⟩
  · by_cases hqp : q = p
    · rw [hqp, directories_setDirectory_self] at ho
      exact (hd id o ho).1 k (hqp ▸ hqk)
    · rw [directories_setDirectory_of_ne h d hqp] at ho
      exact hwf.before_child k q id o hqk ho
  · by_cases hqp : q = p
    · rw [hqp, directories_setDirectory_self] at ho
      exact hqp ▸ hknown _ (hd id o ho).2
    · rw [directories_setDirectory_of_ne h d hqp] at ho
      exact hknown _ (hwf.known_child q id o ho)
  · by_cases hqp : q = p
    · rw [hqp, directories_setDirectory_self, hs] at hq
      cases hq
    · rw [directories_setDirectory_of_ne h d hqp] at hq ⊢
      exact hwf.notLoaded q hq
  · by_cases hqp : q = p
    · subst hqp
      rw [directories_setDirectory_self]
      exact hversion hpath
    · rw [directories_setDirectory_of_ne h d hqp]
      exact hwf.nextFreeIdCommit q hq hpath
  · have hchild : (h.setDirectory p d).directories (q.child id .file) =
        h.directories (q.child id .file) := hfile _
    rw [hchild]
    by_cases hqp : q = p
    · subst hqp
      rw [directories_setDirectory_self] at ho
      exact hversions hlength id ho
    · rw [directories_setDirectory_of_ne h d hqp] at ho
      exact hwf.nextFreeIdCommit_file q id hlength ho

/-- A loaded blob may change. -/
theorem WF.setBlob (hwf : h.WF) {b : Blob} (hs : b.status = .loaded) : (h.setBlob p b).WF := by
  refine ⟨hwf.before_child, hwf.known_child, hwf.notLoaded, fun q hq => ?_, hwf.nextFreeIdCommit,
    hwf.nextFreeIdCommit_file⟩
  by_cases hqp : q = p
  · rw [hqp, blobs_setBlob_self, hs] at hq
    cases hq
  · rw [blobs_setBlob_of_ne h b hqp] at hq ⊢
    exact hwf.blob_notLoaded q hq

/-- While the commit `k` works at and below a path, `h` becomes `h'`: by loading, and by changes
of objects the commit made there. Objects beside the path and older objects keep their views,
and those of them that are loaded are untouched. -/
structure Beside (f : FileContent) (k : CommitId) (path : List UInt32) (h h' : Heap) : Prop where
  known : ∀ q, h.Known q → h'.Known q
  directory : ∀ q, h.Known q → (h.directories q).status = .loaded →
    (q.origin.Before k ∨ ¬path <+: q.path) → h'.directories q = h.directories q
  blob : ∀ q, h.Known q → (h.blobs q).status = .loaded →
    (q.origin.Before k ∨ ¬path <+: q.path) → h'.blobs q = h.blobs q
  view : h.WF → ∀ n q, q.path.length + n = 3 → h.Known q →
    (q.origin.Before k ∨ ¬path <+: q.path ∧ ¬q.path <+: path) → h'.view f n q = h.view f n q

section Beside

variable {k : CommitId} {path path' : List UInt32}

theorem Beside.refl (f : FileContent) (k : CommitId) (path : List UInt32) (h : Heap) :
    Beside f k path h h :=
  ⟨fun _ => id, fun _ _ _ _ => rfl, fun _ _ _ _ => rfl, fun _ _ _ _ _ _ => rfl⟩

/-- What one change and then another keep, both keep. -/
theorem Beside.trans (hwf : h'.WF) (hh : Beside f k path h h') (hh' : Beside f k path h' h'') :
    Beside f k path h h'' where
  known q hq := hh'.known q (hh.known q hq)
  directory q hq hs hp := by
    have := hh.directory q hq hs hp
    rw [hh'.directory q (hh.known q hq) (by rw [this, hs]) hp, this]
  blob q hq hs hp := by
    have := hh.blob q hq hs hp
    rw [hh'.blob q (hh.known q hq) (by rw [this, hs]) hp, this]
  view hwf₀ n q hn hq hp :=
    (hh'.view hwf n q hn (hh.known q hq) hp).trans (hh.view hwf₀ n q hn hq hp)

/-- Loading affects no object of a commit. -/
theorem Loads.beside (hh : Loads f h h') (k : CommitId) (path : List UInt32) :
    Beside f k path h h' :=
  ⟨hh.known, fun q hq hs _ => hh.directory q hq hs, fun q hq hs _ => hh.blob q hq hs,
    fun hwf n q hn hq _ => hh.view hwf n q hn hq⟩

/-- Changes below a longer path. -/
theorem Beside.mono (hpre : path <+: path') (hh : Beside f k path' h h') :
    Beside f k path h h' where
  known := hh.known
  directory q hq hs hp := hh.directory q hq hs (hp.imp_right fun hp hp' => hp (hpre.trans hp'))
  blob q hq hs hp := hh.blob q hq hs (hp.imp_right fun hp hp' => hp (hpre.trans hp'))
  view hwf n q hn hq hp := by
    refine hh.view hwf n q hn hq (hp.imp_right fun ⟨h1, h2⟩ => ⟨fun hp' => h1 (hpre.trans hp'),
      fun hp' => ?_⟩)
    rcases List.prefix_or_prefix_of_prefix hpre hp' with h | h
    · exact h1 h
    · exact h2 h

/-- A loaded object stays loaded. -/
theorem Beside.status (hh : Beside f k path h h') {q : Pointer} (hq : h.Known q)
    (hp : q.origin.Before k ∨ ¬path <+: q.path) (hs : h.status n q = .loaded) :
    h'.status n q = .loaded := by
  cases n with
  | zero => exact (congrArg Blob.status (hh.blob q hq hs hp)).trans hs
  | succ n => exact (congrArg Directory.status (hh.directory q hq hs hp)).trans hs

/-- Objects that were there before the commit `k` do not depend on those it makes. -/
theorem view_congr_of_before {k : CommitId} (hwf : h.WF)
    (hdir : ∀ q, q.origin.Before k → h'.directories q = h.directories q)
    (hblob : ∀ q, q.origin.Before k → h'.blobs q = h.blobs q) (hp : p.origin.Before k) :
    h'.view f n p = h.view f n p :=
  view_congr (fun q => q.origin.Before k) (fun q hq id o ho => hwf.before_child k q id o hq ho)
    hdir hblob hp

/-- Changes of objects the commit made. -/
theorem Beside.of_agree (hagree : ∀ q, (q.origin.Before k ∨ ¬path <+: q.path) →
      h'.directories q = h.directories q ∧ h'.blobs q = h.blobs q) : Beside f k path h h' where
  known q hq hqf path' hpre hne := by
    rw [(hagree ⟨path', .file⟩ (Or.inl trivial)).1]
    exact hq hqf path' hpre hne
  directory q _ _ hp := (hagree q hp).1
  blob q _ _ hp := (hagree q hp).2
  view hwf n q _ _ hp := by
    rcases hp with hbefore | ⟨h1, h2⟩
    · exact view_congr_of_before hwf (fun q hq => (hagree q (Or.inl hq)).1)
        (fun q hq => (hagree q (Or.inl hq)).2) hbefore
    · have hbeside : ∀ r : Pointer, q.path <+: r.path → ¬path <+: r.path := fun r hr hpr => by
        rcases List.prefix_or_prefix_of_prefix hr hpr with h | h
        · exact h2 h
        · exact h1 h
      exact view_congr_of_prefix (fun r hr => (hagree r (Or.inr (hbeside r hr))).1)
        (fun r hr => (hagree r (Or.inr (hbeside r hr))).2) (List.prefix_refl _)

/-- An object that is older or lies elsewhere is not the new one. -/
theorem ne_of_new {q : Pointer} (hp : p.origin = .commit k) (hpre : path <+: p.path)
    (hq : q.origin.Before k ∨ ¬path <+: q.path) : q ≠ p := by
  rintro rfl
  rw [hp] at hq
  exact hq.elim (Nat.lt_irrefl k) fun hn => hn hpre

/-- Writing a new object below a path affects nothing beside the path. -/
theorem Beside.setDirectory (f : FileContent) (h : Heap) {d : Directory}
    (hp : p.origin = .commit k) (hpre : path <+: p.path) :
    Beside f k path h (h.setDirectory p d) :=
  Beside.of_agree fun _ hq => ⟨directories_setDirectory_of_ne h d (ne_of_new hp hpre hq), rfl⟩

/-- Writing a new blob below a path affects nothing beside the path. -/
theorem Beside.setBlob (f : FileContent) (h : Heap) {b : Blob} (hp : p.origin = .commit k)
    (hpre : path <+: p.path) : Beside f k path h (h.setBlob p b) :=
  Beside.of_agree fun _ hq => ⟨rfl, blobs_setBlob_of_ne h b (ne_of_new hp hpre hq)⟩

end Beside

/-- The view of an object does not change with objects that are not below its path. -/
theorem view_setDirectory_of_not_prefix (h : Heap) (d : Directory) (hpre : ¬q.path <+: p.path) :
    (h.setDirectory p d).view f n q = h.view f n q := by
  have hne : ∀ r : Pointer, q.path <+: r.path → r ≠ p := by
    rintro r hr rfl
    exact hpre hr
  exact view_congr_of_prefix (fun r hr => directories_setDirectory_of_ne h d (hne r hr))
    (fun _ _ => rfl) (List.prefix_refl _)

end Heap

end BlobsDb
