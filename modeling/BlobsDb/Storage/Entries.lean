import BlobsDb.Storage.Applying

/-!
# Applying entries to a snapshot

The entries of a commit always have an answer: what has to be loaded can be loaded. The tree of
the new snapshot becomes what `DbTree.updates` says, and no block is lost, if the segments and
clusters that entries address are loaded when they are copied.
-/

namespace BlobsDb

open Heap (Beside)

variable {C : CommitContext} {O : List MemoryBlock} {N : List Pointer} {n : ℕ}
  {st : CommitState} {this : Pointer} {id : UInt32}

/-- The object of an older node is in use and loaded. -/
def CommitContext.CellLoaded (C : CommitContext) (h : Heap) (path : List UInt32) (c : Tree n) :
    Prop :=
  C.old path n c → h.Known ⟨path, c.mark.origin⟩ ∧ h.status n ⟨path, c.mark.origin⟩ = .loaded

/-- The segment and the cluster an entry copies are loaded. -/
def CommitContext.AddressedLoaded (C : CommitContext) (h : Heap) (u : BlobData) (t : Tree 3) :
    Prop :=
  u.segment ≠ nextFreeSegmentId → u.cluster ≠ segmentDeleteId →
    ∀ c, t.children.find u.segment = some c → C.CellLoaded h [u.segment] c ∧
      (u.cluster ≠ nextFreeClusterId → u.blob ≠ clusterDeleteId →
        ∀ d, c.children.find u.cluster = some d → C.CellLoaded h [u.segment, u.cluster] d)

theorem CommitContext.CellLoaded.beside {h h' : Heap} {path path' : List UInt32} {c : Tree n}
    (hc : C.CellLoaded h path c) (hh : Beside C.file C.commitId path' h h') :
    C.CellLoaded h' path c := fun hold => by
  obtain ⟨hk, hs⟩ := hc hold
  exact ⟨hh.known _ hk, hh.status hk (Or.inl (C.isOld.before hold)) hs⟩

theorem CommitContext.AddressedLoaded.beside {h h' : Heap} {path' : List UInt32} {u : BlobData}
    {t : Tree 3} (hc : C.AddressedLoaded h u t) (hh : Beside C.file C.commitId path' h h') :
    C.AddressedLoaded h' u t := fun hs hd c hfind => by
  obtain ⟨h1, h2⟩ := hc hs hd c hfind
  exact ⟨h1.beside hh, fun hnext hdel d hd => (h2 hnext hdel d hd).beside hh⟩

/-- A node the commit made is not an older one. -/
theorem not_old_of_mark (C : CommitContext) {path : List UInt32} {c : Tree n}
    (hm : c.mark = newMark C.commitId) : ¬C.old path n c := fun hold => by
  have := C.isOld.before hold
  rw [hm] at this
  exact absurd this (Nat.lt_irrefl _)

theorem createsFirst_blob :
    CreatesFirst C 0 fun p st => (CommitState.updateBlob p 0 st).2 := by
  intro N O st p w h hnone
  have hfind := (h.find_eq_none_iff 0).mpr hnone
  refine h.updateBlob (by decide) (fun _ o ho => ?_) [] ?_
  · rw [hfind] at ho
    cases ho
  · -- the new blob is empty already
    simp only [CommitState.updateBlob, hfind, CommitState.setBlob, CommitState.allocated,
      CommitState.enterChild, CommitState.setDirectory, Heap.setBlob, Heap.setDirectory,
      Function.update_self, Function.update_idem]
    rfl

theorem createsFirst_cluster :
    CreatesFirst C 1 fun p st => (CommitState.updateCluster p 0 st).2 := by
  intro N O st p w h hnone
  have hfind := (h.find_eq_none_iff 0).mpr hnone
  have hload : st.ChildLoaded 1 p 0 := fun o ho => by
    rw [hfind] at ho
    cases ho
  obtain ⟨-, -, hbeside, hdel, w', L, hsite, hclean⟩ :=
    h.updateDirectory createsFirst_blob (by decide) (fun _ => hload) rfl
  obtain ⟨rfl, rfl⟩ := hclean hload
  rw [hnone] at hsite
  exact ⟨hsite, hbeside, hdel⟩

namespace Site

/-- The child the tree has is loaded when it is old, so the object's child is. -/
theorem childLoaded {t : Tree (n + 1)} (h : Site C N O st (n + 1) this t)
    (hc : ∀ c, t.children.find id = some c → C.CellLoaded st.heap (this.path ++ [id]) c) :
    st.ChildLoaded n this id := fun o ho => by
  obtain ⟨c, hfind, hv, -, -, ⟨rfl, -⟩ | ⟨-, hold⟩⟩ := h.child_cases ho
  · exact Heap.status_of_origin h.wf fun heq => nomatch heq
  · have := (hc c hfind hold).2
    rw [(Heap.mark_of_view h.wf hv).1] at this
    exact this

theorem applyToCluster {t : Tree 1} (h : Site C N O st 1 this t) (u : BlobData) {mvcc : Bool}
    (hmvcc : C.tracked → mvcc = true) :
    ∃ st', CommitState.applyToCluster C.file mvcc this u st = some st' ∧
      Site C N O st' 1 this (DbTree.updateCluster (newMark C.commitId) u t) ∧
      Beside C.file C.commitId this.path st.heap st'.heap ∧
      st'.deleted = if u.blob = nextFreeBlobId ∨ u.data.isSome then st.deleted
        else { st.deleted with blobs := st.deleted.blobs ++ [u.toBlobLocation] } := by
  unfold CommitState.applyToCluster DbTree.updateCluster
  by_cases hb : u.blob = nextFreeBlobId
  · obtain ⟨h1, h2⟩ := h.setNextFreeId u.readId
    simp only [if_pos hb]
    exact ⟨_, rfl, h1, h2, by rw [if_pos (Or.inl hb)]; rfl⟩
  · simp only [if_neg hb]
    -- readers of the old snapshot need the blob, so it is loaded for them
    obtain ⟨g, hg, hl, hloaded⟩ : ∃ g, (if mvcc then
        (st.heap.getLoadedChild C.file 0 this u.blob).map Prod.snd else some st.heap) = some g ∧
        Heap.Loads C.file st.heap g ∧ (C.tracked → ∀ o,
          (g.directories this).children.find u.blob = some o →
          g.status 0 (this.child u.blob o) = .loaded) := by
      cases mvcc with
      | false => exact ⟨st.heap, rfl, Heap.Loads.refl _ _, fun htr => absurd (hmvcc htr) (by simp)⟩
      | true =>
        obtain ⟨r, g, hg, hl, hr, hs⟩ := Heap.exists_getLoadedChild h.wf h.level h.known h.view
          h.status u.blob
        refine ⟨g, by simp [hg], hl, fun _ o ho => hs _ ?_⟩
        rw [hr, ho]
        rfl
    have hsite := h.loads hl
    simp only [hg]
    cases hd : u.data with
    | none =>
      obtain ⟨h1, h2, h3⟩ := hsite.deleteChild (fun _ _ => trivial)
        (fun htr o ho => ⟨hloaded htr o ho, trivial⟩) rfl
      refine ⟨_, rfl, h1.noted _, (hl.beside _ _).trans hsite.wf h2, ?_⟩
      rw [if_neg (by simp [hb])]
    | some data =>
      obtain ⟨h1, h2, h3⟩ := hsite.updateBlob hb hloaded data rfl
      refine ⟨_, rfl, h1, (hl.beside _ _).trans hsite.wf h2, ?_⟩
      rw [if_pos (by simp), h3]

/-- Deleting a child, after it was loaded, with all below it if old readers may need that. -/
theorem loadAndDelete {t : Tree (n + 1)} (h : Site C N O st (n + 1) this t) {mvcc : Bool}
    (hmvcc : C.tracked → mvcc = true) {l : Heap → Pointer → Option Heap}
    (hload : ∀ g q c, Heap.Loads C.file st.heap g → q.path.length + n = 3 → g.Known q →
      g.view C.file n q = some c → g.status n q = .loaded →
      ∃ g', l g q = some g' ∧ Heap.Loads C.file g g' ∧ g'.DirectoriesLoaded n q ∧
        (mvcc = true → g'.LoadedBelow n q)) (id : UInt32) :
    ∃ r g g', st.heap.getLoadedChild C.file n this id = some (r, g) ∧
      (r = none ∧ g' = g ∨ ∃ q, r = some q ∧ l g q = some g') ∧
      ∀ st', st' = CommitState.deleteChild n this id { st with heap := g' } →
        Site C N O st' (n + 1) this (DbTree.eraseChild t id) ∧
          Beside C.file C.commitId this.path st.heap st'.heap ∧ st'.deleted = st.deleted := by
  obtain ⟨r, g, hg, hl, hr, hs⟩ := Heap.exists_getLoadedChild h.wf h.level h.known h.view
    h.status id
  have hsite := h.loads hl
  have hdelete : ∀ g', Heap.Loads C.file g g' →
      (∀ o, (g.directories this).children.find id = some o →
        g'.DirectoriesLoaded n (this.child id o) ∧
          (C.tracked → g'.status n (this.child id o) = .loaded ∧
            g'.LoadedBelow n (this.child id o))) →
      ∀ st', st' = CommitState.deleteChild n this id { st with heap := g' } →
        Site C N O st' (n + 1) this (DbTree.eraseChild t id) ∧
          Beside C.file C.commitId this.path st.heap st'.heap ∧ st'.deleted = st.deleted := by
    rintro g' hl' hchild st' rfl
    have hthis := hl'.directory this hsite.known hsite.status
    have hsite' := hsite.loads hl'
    obtain ⟨h1, h2, h3⟩ := hsite'.deleteChild
      (fun o ho => (hchild o (hthis ▸ ho)).1) (fun htr o ho => (hchild o (hthis ▸ ho)).2 htr) rfl
    exact ⟨h1, ((hl.trans hl').beside _ _).trans hsite'.wf h2, h3⟩
  cases ho : (g.directories this).children.find id with
  | none =>
    rw [ho] at hr
    obtain rfl := hr
    refine ⟨none, g, g, hg, Or.inl ⟨rfl, rfl⟩, hdelete g (Heap.Loads.refl _ _) fun o ho' => ?_⟩
    rw [ho] at ho'
    cases ho'
  | some o =>
    rw [ho] at hr
    obtain rfl := hr
    obtain ⟨c, -, hv⟩ := Heap.view_child hsite.view hsite.status ho
    have hk := hsite.wf.known_child _ _ _ ho
    obtain ⟨g', hg', hl', hdirs, hbelow⟩ := hload g (this.child id o) c hl (h.level_child _ _)
      hk hv (hs _ rfl)
    refine ⟨_, g, g', hg, Or.inr ⟨_, rfl, hg'⟩, hdelete g' hl' fun o' ho' => ?_⟩
    rw [ho] at ho'
    obtain rfl := Option.some.inj ho'
    exact ⟨hdirs, fun htr => ⟨hl'.status hk (hs _ rfl), hbelow (hmvcc htr)⟩⟩

theorem applyToSegment {t : Tree 2} (h : Site C N O st 2 this t) (u : BlobData) {mvcc : Bool}
    (hmvcc : C.tracked → mvcc = true)
    (hload : C.tracked → u.cluster ≠ nextFreeClusterId → u.blob ≠ clusterDeleteId →
      st.ChildLoaded 1 this u.cluster) :
    ∃ st' t' L, CommitState.applyToSegment C.file mvcc this u st = some st' ∧
      Site C N (L ++ O) st' 2 this t' ∧
      Beside C.file C.commitId this.path st.heap st'.heap ∧
      (u.segment ≠ nextFreeSegmentId → u.cluster ≠ segmentDeleteId →
        st'.deleted = st.deleted.noted u) ∧
      ((u.cluster ≠ nextFreeClusterId → u.blob ≠ clusterDeleteId →
        st.ChildLoaded 1 this u.cluster) →
        t' = DbTree.updateSegment (newMark C.commitId) u t ∧ L = []) := by
  unfold CommitState.applyToSegment DbTree.updateSegment
  by_cases hc : u.cluster = nextFreeClusterId
  · obtain ⟨h1, h2⟩ := h.setNextFreeId u.readId
    simp only [if_pos hc]
    refine ⟨_, _, [], rfl, h1, h2, fun hs hd => ?_, fun _ => ⟨rfl, rfl⟩⟩
    rw [Deleted.noted, if_neg hs, if_neg hd, if_pos hc]
    rfl
  simp only [if_neg hc]
  -- the entry deletes a cluster, or is for something in one
  by_cases hb : u.blob = clusterDeleteId
  · simp only [if_pos hb]
    obtain ⟨r, g, g', hg, hg', hdel⟩ := h.loadAndDelete (n := 1) hmvcc
      (l := fun g q => if mvcc then g.loadBelow C.file 1 q else some g)
      (fun g q c hl hn hk hv hs => by
        cases mvcc with
        | false =>
          refine ⟨g, rfl, Heap.Loads.refl _ _, ⟨hs, fun _ _ _ => trivial⟩, by rintro ⟨⟩⟩
        | true =>
          obtain ⟨g', hg'⟩ := Heap.exists_loadBelow (hl.wf h.wf) hn hv hs
          obtain ⟨hl', hbelow⟩ := Heap.loads_of_loadBelow (hl.wf h.wf) hn hk hs hg'
          exact ⟨g', hg', hl', hbelow.directoriesLoaded (hl'.status hk hs), fun _ => hbelow⟩)
      u.cluster
    obtain ⟨h1, h2, h3⟩ := hdel _ rfl
    have hnoted : ∀ hs : u.segment ≠ nextFreeSegmentId, ∀ hd : u.cluster ≠ segmentDeleteId,
        { st.deleted with clusters := st.deleted.clusters ++ [(u.segment, u.cluster)] } =
          st.deleted.noted u := fun hs hd => by
      rw [Deleted.noted, if_neg hs, if_neg hd, if_neg hc, if_pos hb]
    simp only [hg]
    rcases hg' with ⟨rfl, rfl⟩ | ⟨q, rfl, hq⟩
    · exact ⟨_, _, [], rfl, h1.noted _, h2, hnoted, fun _ => ⟨rfl, rfl⟩⟩
    · simp only [hq]
      exact ⟨_, _, [], rfl, h1.noted _, h2, hnoted, fun _ => ⟨rfl, rfl⟩⟩
  · simp only [if_neg hb]
    have hid : u.cluster ≠ nextFreeBlobId := hc
    obtain ⟨p, st₁, hr⟩ : ∃ p st₁, CommitState.updateCluster this u.cluster st = (p, st₁) :=
      ⟨_, _, rfl⟩
    simp only [hr]
    obtain ⟨rfl, ho, hbeside, hdel, w, L, hsite, hclean⟩ :=
      h.updateDirectory createsFirst_blob hid (fun htr => hload htr hc hb) hr
    -- the entry is applied to the cluster, which is then put back
    obtain ⟨c, hfind, hchild⟩ := hsite.toChild ho
    obtain rfl : w = c := by
      rw [DbTree.setChild, LevelTree.children_setChildren, FlatMap.find_insert, if_pos rfl]
        at hfind
      exact Option.some.inj hfind
    obtain ⟨st', hst', hcluster, hbeside', hdel'⟩ := hchild.applyToCluster u hmvcc
    have hback := hsite.ofChild (L := []) ho hbeside' hcluster
    refine ⟨st', _, L, hst', hback, hbeside.trans hsite.wf (hbeside'.mono (List.prefix_append _ _)),
      fun hs hd => ?_, fun hl => ?_⟩
    · rw [hdel', hdel, Deleted.noted, if_neg hs, if_neg hd, if_neg hc, if_neg hb]
      by_cases hb' : u.blob = nextFreeBlobId
      · rw [if_pos (Or.inl hb'), if_pos hb']
      · rw [if_neg hb']
        cases hu : u.data with
        | none => rw [if_neg (by simp [hb'])]
        | some data => rw [if_pos (by simp)]
    · obtain ⟨rfl, rfl⟩ := hclean (hl hc hb)
      refine ⟨?_, rfl⟩
      exact LevelTree.ext_succ rfl rfl (FlatMap.insert_insert _ _ _ _)

theorem applyUpdate {t : Tree 3} (h : Site C N O st 3 this t) (u : BlobData) {mvcc : Bool}
    (hmvcc : C.tracked → mvcc = true) (hload : C.tracked → C.AddressedLoaded st.heap u t) :
    ∃ st' t' L, CommitState.applyUpdate C.file mvcc this u st = some st' ∧
      Site C N (L ++ O) st' 3 this t' ∧
      Beside C.file C.commitId this.path st.heap st'.heap ∧
      st'.deleted = st.deleted.noted u ∧
      (C.AddressedLoaded st.heap u t →
        t' = DbTree.update (newMark C.commitId) u t ∧ L = []) := by
  have hpath : this.path = [] := List.length_eq_zero_iff.mp (by have := h.level; omega)
  unfold CommitState.applyUpdate DbTree.update
  by_cases hs : u.segment = nextFreeSegmentId
  · obtain ⟨h1, h2⟩ := h.setNextFreeId u.readId
    simp only [if_pos hs]
    refine ⟨_, _, [], rfl, h1, h2, ?_, fun _ => ⟨rfl, rfl⟩⟩
    rw [Deleted.noted, if_pos hs]
    rfl
  simp only [if_neg hs]
  by_cases hd : u.cluster = segmentDeleteId
  · simp only [if_pos hd]
    obtain ⟨r, g, g', hg, hg', hdel⟩ := h.loadAndDelete (n := 2) hmvcc
      (l := fun g q => if mvcc then g.loadBelow C.file 2 q else g.loadChildren C.file 1 q)
      (fun g q c hl hn hk hv hs => by
        cases mvcc with
        | false =>
          obtain ⟨g', hg'⟩ := Heap.exists_loadChildren (hl.wf h.wf) hn hv hs
          obtain ⟨hl', hchildren⟩ := Heap.loads_of_loadChildren (hl.wf h.wf) hn hg'
          have hdir := hl'.directory q hk hs
          refine ⟨g', hg', hl', ⟨by rw [hdir]; exact hs, fun id o ho => ?_⟩, by rintro ⟨⟩⟩
          rw [hdir] at ho
          exact ⟨hchildren id o ho, fun _ _ _ => trivial⟩
        | true =>
          obtain ⟨g', hg'⟩ := Heap.exists_loadBelow (hl.wf h.wf) hn hv hs
          obtain ⟨hl', hbelow⟩ := Heap.loads_of_loadBelow (hl.wf h.wf) hn hk hs hg'
          exact ⟨g', hg', hl', hbelow.directoriesLoaded (hl'.status hk hs), fun _ => hbelow⟩)
      u.segment
    obtain ⟨h1, h2, h3⟩ := hdel _ rfl
    have hnoted : { st.deleted with segments := st.deleted.segments ++ [u.segment] } =
        st.deleted.noted u := by
      rw [Deleted.noted, if_neg hs, if_pos hd]
    simp only [hg]
    rcases hg' with ⟨rfl, rfl⟩ | ⟨q, rfl, hq⟩
    · exact ⟨_, _, [], rfl, h1.noted _, h2, hnoted, fun _ => ⟨rfl, rfl⟩⟩
    · simp only [hq]
      exact ⟨_, _, [], rfl, h1.noted _, h2, hnoted, fun _ => ⟨rfl, rfl⟩⟩
  · simp only [if_neg hd]
    have hchild₀ : C.AddressedLoaded st.heap u t → st.ChildLoaded 2 this u.segment := fun hl =>
      h.childLoaded fun c hc => by
        rw [hpath]
        exact (hl hs hd c hc).1
    obtain ⟨p, st₁, hr⟩ : ∃ p st₁, CommitState.updateSegment this u.segment st = (p, st₁) :=
      ⟨_, _, rfl⟩
    simp only [hr]
    obtain ⟨rfl, ho, hbeside, hdel, w, L, hsite, hclean⟩ :=
      h.updateDirectory createsFirst_cluster hs (fun htr => hchild₀ (hload htr)) hr
    obtain ⟨c, hfind, hchild⟩ := hsite.toChild ho
    obtain rfl : w = c := by
      rw [DbTree.setChild, LevelTree.children_setChildren, FlatMap.find_insert, if_pos rfl]
        at hfind
      exact Option.some.inj hfind
    -- the clusters of the copy are those of the segment it copies
    have hchild₁ : C.AddressedLoaded st.heap u t → u.cluster ≠ nextFreeClusterId →
        u.blob ≠ clusterDeleteId →
        st₁.ChildLoaded 1 (this.child u.segment (.commit C.commitId)) u.cluster :=
      fun hl hnext hdelete => hchild.childLoaded fun d hd' => by
        have hw := (hclean (hchild₀ hl)).1
        cases hc : t.children.find u.segment with
        | none =>
          rw [hw, hc] at hd'
          refine fun hold => absurd hold (not_old_of_mark C ?_)
          change (FlatMap.empty.insert 0 (DbTree.created (newMark C.commitId) 1)).find u.cluster =
            some d at hd'
          rw [FlatMap.find_insert] at hd'
          split_ifs at hd'
          · cases hd'
            exact DbTree.mark_created _ _
          · cases hd'
        | some c =>
          rw [hw, hc] at hd'
          have := ((hl hs hd c hc).2 hnext hdelete d hd').beside hbeside
          rw [Pointer.path_child, hpath]
          exact this
    obtain ⟨st', t', L', hst', hsegment, hbeside', hdel', hclean'⟩ :=
      hchild.applyToSegment u hmvcc fun htr => hchild₁ (hload htr)
    have hback := hsite.ofChild ho hbeside' hsegment
    refine ⟨st', DbTree.setChild (DbTree.setChild t u.segment w) u.segment t', L' ++ L, hst', ?_,
      hbeside.trans hsite.wf (hbeside'.mono (List.prefix_append _ _)),
      by rw [hdel' hs hd, hdel], fun hl => ?_⟩
    · rw [List.append_assoc]
      exact hback
    · obtain ⟨rfl, rfl⟩ := hclean (hchild₀ hl)
      obtain ⟨rfl, rfl⟩ := hclean' (hchild₁ hl)
      refine ⟨?_, rfl⟩
      exact LevelTree.ext_succ rfl rfl (FlatMap.insert_insert _ _ _ _)

end Site

/-- All entries work on segments and clusters that are loaded from the start, if they are not
the commit's own. -/
def CommitContext.AllAddressedLoaded (C : CommitContext) (h : Heap) :
    List BlobData → Tree 3 → Prop
  | [], _ => True
  | u :: us, t => C.AddressedLoaded h u t ∧
    C.AllAddressedLoaded h us (DbTree.update (newMark C.commitId) u t)

theorem CommitContext.AllAddressedLoaded.beside {h h' : Heap} {path' : List UInt32}
    {us : List BlobData} {t : Tree 3} (hc : C.AllAddressedLoaded h us t)
    (hh : Beside C.file C.commitId path' h h') : C.AllAddressedLoaded h' us t := by
  induction us generalizing t with
  | nil => trivial
  | cons u us ih => exact ⟨hc.1.beside hh, ih hc.2⟩

/-- Applying the entries of a commit. -/
theorem Site.applyUpdates {t : Tree 3} (h : Site C N O st 3 this t) (us : List BlobData)
    {mvcc : Bool} (hmvcc : C.tracked → mvcc = true)
    (hload : C.tracked → C.AllAddressedLoaded st.heap us t) :
    ∃ st' t' L, CommitState.applyUpdates C.file mvcc this us st = some st' ∧
      Site C N (L ++ O) st' 3 this t' ∧
      Beside C.file C.commitId this.path st.heap st'.heap ∧
      st'.deleted = us.foldl Deleted.noted st.deleted ∧
      (C.AllAddressedLoaded st.heap us t →
        t' = us.foldl (fun t u => DbTree.update (newMark C.commitId) u t) t ∧ L = []) := by
  by_cases htr : C.AllAddressedLoaded st.heap us t
  · -- no block is lost
    induction us generalizing st t with
    | nil => exact ⟨st, t, [], rfl, h, Beside.refl _ _ _ _, rfl, fun _ => ⟨rfl, rfl⟩⟩
    | cons u us ih =>
      obtain ⟨st₁, t₁, L₁, hst₁, h₁, hbeside, hdel, hclean⟩ :=
        h.applyUpdate u hmvcc fun _ => htr.1
      obtain ⟨rfl, rfl⟩ := hclean htr.1
      have htr₁ := htr.2.beside hbeside
      obtain ⟨st₂, t₂, L₂, hst₂, h₂, hbeside', hdel', hclean'⟩ := ih h₁ (fun _ => htr₁) htr₁
      obtain ⟨rfl, rfl⟩ := hclean' htr₁
      refine ⟨st₂, _, [], ?_, h₂, hbeside.trans h₁.wf hbeside', ?_, fun _ => ⟨rfl, rfl⟩⟩
      · rw [CommitState.applyUpdates, hst₁]
        exact hst₂
      · rw [hdel', hdel]
        rfl
  · have hntr : ¬C.tracked := fun ht => htr (hload ht)
    suffices hmain : ∃ st' t' L, CommitState.applyUpdates C.file mvcc this us st = some st' ∧
        Site C N (L ++ O) st' 3 this t' ∧
        Beside C.file C.commitId this.path st.heap st'.heap ∧
        st'.deleted = us.foldl Deleted.noted st.deleted by
      obtain ⟨st', t', L, h1, h2, h3, h4⟩ := hmain
      exact ⟨st', t', L, h1, h2, h3, h4, fun hl => absurd hl htr⟩
    clear htr hload
    induction us generalizing st t O with
    | nil => exact ⟨st, t, [], rfl, h, Beside.refl _ _ _ _, rfl⟩
    | cons u us ih =>
      obtain ⟨st₁, t₁, L₁, hst₁, h₁, hbeside, hdel, -⟩ :=
        h.applyUpdate u hmvcc fun ht => absurd ht hntr
      obtain ⟨st₂, t₂, L₂, hst₂, h₂, hbeside', hdel'⟩ := ih h₁
      refine ⟨st₂, t₂, L₂ ++ L₁, ?_, ?_, hbeside.trans h₁.wf hbeside', ?_⟩
      · rw [CommitState.applyUpdates, hst₁]
        exact hst₂
      · rw [List.append_assoc]
        exact h₂
      · rw [hdel', hdel]
        rfl

end BlobsDb
