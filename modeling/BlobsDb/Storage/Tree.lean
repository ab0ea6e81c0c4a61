import BlobsDb.Logical.Update
import BlobsDb.Storage.Format

/-!
# Database trees

A database is a tree of height three: the snapshot has segments, a segment has clusters, a
cluster has blobs. `readTree` reads a whole tree from a file, following the block references.
The nodes of a `Tree` carry a `Mark`: where the node lies in the file, the id of the commit that
wrote it, and where the object that holds it in memory comes from.

`Stored f t` says that the file holds the tree at the places its marks tell. It depends on the
blocks of the tree only (`Stored.congr`).
-/

namespace BlobsDb

/-- Where an object in memory comes from: it was created without content for a block of the
file, when the block of its parent was read, or it was created by a commit. -/
inductive Origin where
  | file
  | commit (commitId : CommitId)
  deriving DecidableEq, Inhabited

/-- What is known about a node besides its content. -/
structure Mark where
  origin : Origin
  fileLocation : BlockReference
  commitId : CommitId
  deriving DecidableEq, Inhabited

/-- Database trees whose nodes tell their place. -/
abbrev Tree := DbTree Mark

/-- The tree of a level stored at a block, following the references. -/
def readTree (f : FileContent) : (n : ℕ) → BlockReference → Option (Tree n)
  | 0, r =>
    match f.readIntoMemory r with
    | none => none
    | some bytes =>
      match decodeBlob bytes with
      | none => none
      | some b => some (LevelTree.leaf ⟨.file, r, b.commitId⟩ b.data)
  | n + 1, r =>
    match f.readIntoMemory r with
    | none => none
    | some bytes =>
      match decodeDirectory bytes with
      | none => none
      | some d =>
        match d.children.traverse fun _ r => readTree f n r with
        | none => none
        | some c => some (LevelTree.node ⟨.file, r, d.commitId⟩ d.nextFreeId c)

namespace Tree

variable {n : ℕ} {f g : FileContent}

/-- The tree as it is found in the file. -/
def onFile (t : Tree n) : Tree n := DbTree.changeMark (fun m => { m with origin := .file }) t

/-- The blocks of the tree. -/
def extents (t : Tree n) : List Extent := t.collect (fun _ m => [m.fileLocation]) []

/-- The file holds the tree at the places its marks tell. -/
def Stored (f : FileContent) (t : Tree n) : Prop :=
  readTree f n t.mark.fileLocation = some t.onFile

theorem extents_eq (t : Tree n) (p : List UInt32) :
    t.extents = t.collect (fun _ m => [m.fileLocation]) p := LevelTree.collect_of_const _ _ _ _

theorem mem_extents_self (t : Tree n) : t.mark.fileLocation ∈ t.extents := by
  cases n with
  | zero => exact List.mem_singleton.mpr rfl
  | succ n => exact LevelTree.mem_collect.mpr (Or.inl (List.mem_singleton.mpr rfl))

/-- The extents of a child are extents of the tree. -/
theorem mem_extents_of_find {t : Tree (n + 1)} {k : UInt32} {c : Tree n}
    (h : t.children.find k = some c) {e : Extent} (he : e ∈ extents c) : e ∈ t.extents := by
  rw [extents_eq c ([] ++ [k])] at he
  exact LevelTree.mem_collect.mpr (Or.inr ⟨k, c, h, he⟩)

@[simp]
theorem mark_onFile (t : Tree n) : t.onFile.mark = { t.mark with origin := .file } :=
  LevelTree.mark_mapMark _ _ _

theorem allMarks_onFile {P : Mark → Prop} {t : Tree n}
    (h : t.AllMarks fun m => P { m with origin := .file }) : t.onFile.AllMarks P := by
  unfold onFile DbTree.changeMark
  exact LevelTree.allMarks_mapMark (h.imp fun _ hm _ => hm)

theorem find_onFile (t : Tree (n + 1)) (k : UInt32) :
    t.onFile.children.find k = (t.children.find k).map onFile := DbTree.find_changeMark _ t k

/-- The origin of the nodes does not matter for the extents. -/
@[simp]
theorem extents_onFile (t : Tree n) : t.onFile.extents = t.extents :=
  LevelTree.collect_mapMark _ _ _ _

@[simp]
theorem onFile_onFile (t : Tree n) : t.onFile.onFile = t.onFile :=
  LevelTree.mapMark_mapMark _ _ _ _

/-- A blob is read from its block. -/
theorem readTree_zero_eq_some_iff {r : BlockReference} {t : Tree 0} :
    readTree f 0 r = some t ↔ ∃ bytes, f.readIntoMemory r = some bytes ∧
      decodeBlob bytes = some ⟨t.mark.commitId, t.data⟩ ∧ t.mark = ⟨.file, r, t.mark.commitId⟩ := by
  rw [readTree]
  constructor
  · intro h
    split at h
    · cases h
    · next bytes hbytes =>
      split at h
      · cases h
      · next b hb => cases h; exact ⟨bytes, hbytes, hb, rfl⟩
  · rintro ⟨bytes, hbytes, hb, hm⟩
    rw [hbytes]
    simp only [hb]
    exact congrArg some (LevelTree.ext_zero hm.symm rfl)

/-- A snapshot, segment or cluster is read from its block, and its children from theirs. -/
theorem readTree_succ_eq_some_iff {r : BlockReference} {t : Tree (n + 1)} :
    readTree f (n + 1) r = some t ↔ ∃ bytes children, f.readIntoMemory r = some bytes ∧
      decodeDirectory bytes = some ⟨t.mark.commitId, t.info, children⟩ ∧
      (children.traverse fun _ r => readTree f n r) = some t.children ∧
      t.mark = ⟨.file, r, t.mark.commitId⟩ := by
  rw [readTree]
  constructor
  · intro h
    split at h
    · cases h
    · next bytes hbytes =>
      split at h
      · cases h
      · next d hd =>
        split at h
        · cases h
        · next c hc => cases h; exact ⟨bytes, d.children, hbytes, hd, hc, rfl⟩
  · rintro ⟨bytes, children, hbytes, hd, hc, hm⟩
    rw [hbytes]
    simp only [hd, hc]
    exact congrArg some (LevelTree.ext_succ hm.symm rfl rfl)

/-- What is read from the file comes from the file, and lies where it was read. -/
theorem mark_of_readTree {r : BlockReference} {t : Tree n} (h : readTree f n r = some t) :
    t.mark.origin = .file ∧ t.mark.fileLocation = r := by
  cases n with
  | zero =>
    obtain ⟨_, _, _, hm⟩ := readTree_zero_eq_some_iff.mp h
    rw [hm]
    exact ⟨rfl, rfl⟩
  | succ n =>
    obtain ⟨_, _, _, _, _, hm⟩ := readTree_succ_eq_some_iff.mp h
    rw [hm]
    exact ⟨rfl, rfl⟩

/-- All that is read from the file comes from the file. -/
theorem allMarks_of_readTree {r : BlockReference} {t : Tree n} (h : readTree f n r = some t) :
    t.AllMarks fun m => m.origin = .file := by
  induction n generalizing r with
  | zero => exact (mark_of_readTree h).1
  | succ n ih =>
    refine ⟨(mark_of_readTree h).1, fun k c hc => ?_⟩
    obtain ⟨_, children, _, _, hchildren, _⟩ := readTree_succ_eq_some_iff.mp h
    obtain ⟨r', _, hr'⟩ := FlatMap.find_of_find_traverse hchildren hc
    exact ih hr'

/-- A tree from the file is itself as a tree of the file. -/
theorem onFile_of_allMarks {t : Tree n} (h : t.AllMarks fun m => m.origin = .file) :
    t.onFile = t :=
  LevelTree.mapMark_id h fun _ m hm => by rw [← hm]

/-- A tree that was read is stored. -/
theorem stored_of_readTree {r : BlockReference} {t : Tree n} (h : readTree f n r = some t) :
    Stored f t := by
  rw [Stored, (mark_of_readTree h).2, onFile_of_allMarks (allMarks_of_readTree h), h]

theorem stored_zero_iff {t : Tree 0} :
    Stored f t ↔ ∃ bytes, f.readIntoMemory t.mark.fileLocation = some bytes ∧
      decodeBlob bytes = some ⟨t.mark.commitId, t.data⟩ := by
  rw [Stored, readTree_zero_eq_some_iff]
  exact exists_congr fun bytes => and_congr_right fun _ => and_iff_left (mark_onFile t)

/-- A tree with children is stored when its own block is and its children are. -/
theorem stored_succ_iff {t : Tree (n + 1)} :
    Stored f t ↔ (∃ bytes, f.readIntoMemory t.mark.fileLocation = some bytes ∧
      decodeDirectory bytes = some ⟨t.mark.commitId, t.info,
        t.children.map fun c => c.mark.fileLocation⟩) ∧
      ∀ k c, t.children.find k = some c → Stored f c := by
  rw [Stored, readTree_succ_eq_some_iff]
  constructor
  · rintro ⟨bytes, children, hbytes, hd, hc, _⟩
    have hchild : ∀ k, (children.find k).map (readTree f n) =
        ((t.children.find k).map onFile).map some := fun k => by
      rw [FlatMap.traverse_eq_some_iff.mp hc k, find_onFile]
    have hmap : children = t.children.map fun c => c.mark.fileLocation :=
      FlatMap.ext_find fun k => by
        have hk := hchild k
        rw [FlatMap.find_map]
        cases hr : children.find k <;> cases ht : t.children.find k <;> simp [hr, ht] at hk ⊢
        rw [← (mark_of_readTree hk).2, mark_onFile]
    refine ⟨⟨bytes, hbytes, hmap ▸ hd⟩, fun k c hk => ?_⟩
    have := hchild k
    rw [hmap, FlatMap.find_map, hk] at this
    exact Option.some.inj this
  · rintro ⟨⟨bytes, hbytes, hd⟩, hc⟩
    refine ⟨bytes, _, hbytes, hd, FlatMap.traverse_eq_some_iff.mpr fun k => ?_, mark_onFile t⟩
    rw [FlatMap.find_map, find_onFile]
    cases hk : t.children.find k with
    | none => rfl
    | some c => exact congrArg some (hc k c hk)

/-- Whether a tree is stored depends on its own blocks only. -/
theorem Stored.congr {t : Tree n} (h : Stored f t)
    (hfg : ∀ e ∈ t.extents, ∀ l, f.readIntoMemory e = some l → g.readIntoMemory e = some l) :
    Stored g t := by
  induction n with
  | zero =>
    obtain ⟨bytes, hbytes, hb⟩ := stored_zero_iff.mp h
    exact stored_zero_iff.mpr ⟨bytes, hfg _ (mem_extents_self t) _ hbytes, hb⟩
  | succ n ih =>
    obtain ⟨⟨bytes, hbytes, hd⟩, hc⟩ := stored_succ_iff.mp h
    exact stored_succ_iff.mpr ⟨⟨bytes, hfg _ (mem_extents_self t) _ hbytes, hd⟩, fun k c hk =>
      ih (hc k c hk) fun e he => hfg e (mem_extents_of_find hk he)⟩

/-- A stored tree has no empty blocks. -/
theorem Stored.size_pos {t : Tree n} (h : Stored f t) : ∀ e ∈ t.extents, 0 < e.size := by
  have hpos : ∀ {r : BlockReference} {bytes : List UInt8}, f.readIntoMemory r = some bytes →
      8 ≤ bytes.length → 0 < r.size := fun hbytes hlen => by
    rw [← FileContent.length_readIntoMemory hbytes]
    omega
  have htake : ∀ {bytes : List UInt8} {x}, takeNat 8 bytes = some x → 8 ≤ bytes.length :=
    fun h => by
      unfold takeNat at h
      split_ifs at h with hlen
      exact hlen
  induction n with
  | zero =>
    intro e he
    obtain ⟨bytes, hbytes, hb⟩ := stored_zero_iff.mp h
    rw [List.mem_singleton.mp he]
    refine hpos hbytes ?_
    rw [decodeBlob] at hb
    split at hb
    · cases hb
    · next hx => exact htake hx
  | succ n ih =>
    intro e he
    obtain ⟨⟨bytes, hbytes, hd⟩, hc⟩ := stored_succ_iff.mp h
    rcases LevelTree.mem_collect.mp he with he | ⟨k, c, hk, he⟩
    · rw [List.mem_singleton.mp he]
      refine hpos hbytes ?_
      rw [decodeDirectory] at hd
      split at hd
      · cases hd
      · next hx => exact htake hx
    · rw [← extents_eq] at he
      exact ih (hc k c hk) e he

end Tree

end BlobsDb
