import BlobsDb.ForMathlib.FlatMap

/-!
# Trees of uniform height

A `LevelTree` of level `0` is a leaf, and one of level `n + 1` an inner node with keyed children
of level `n`. Leaves and inner nodes carry a mark; leaves carry data and inner nodes some
information besides. A node is reached from the root by a path, the list of the keys on the way.

`LevelTree.collect` gathers lists from the marks of all nodes. The lists gathered from a tree
split as those of one child and those of the tree without this child, so equations between such
lists, up to their order, pass from a child to the tree.
-/

/-- A leaf of a tree. -/
structure LevelTree.Leaf (μ δ : Type) where
  mark : μ
  data : δ
  deriving DecidableEq

/-- An inner node of a tree with children in `χ`. -/
structure LevelTree.Inner (κ : Type) [LinearOrder κ] (μ ι χ : Type) where
  mark : μ
  info : ι
  children : FlatMap κ χ
  deriving DecidableEq

/-- Trees of uniform height. -/
def LevelTree (κ : Type) [LinearOrder κ] (μ ι δ : Type) : ℕ → Type
  | 0 => LevelTree.Leaf μ δ
  | n + 1 => LevelTree.Inner κ μ ι (LevelTree κ μ ι δ n)

namespace LevelTree

variable {κ : Type} [LinearOrder κ] {μ ν ι δ β : Type} {n : ℕ}

instance instDecidableEq [DecidableEq μ] [DecidableEq ι] [DecidableEq δ] :
    (n : ℕ) → DecidableEq (LevelTree κ μ ι δ n)
  | 0 => inferInstanceAs (DecidableEq (Leaf μ δ))
  | n + 1 =>
    have := instDecidableEq n
    inferInstanceAs (DecidableEq (Inner κ μ ι (LevelTree κ μ ι δ n)))

/-- The tree that is a leaf. -/
abbrev leaf (m : μ) (d : δ) : LevelTree κ μ ι δ 0 := Leaf.mk m d

/-- The tree with the given children. -/
abbrev node (m : μ) (i : ι) (c : FlatMap κ (LevelTree κ μ ι δ n)) : LevelTree κ μ ι δ (n + 1) :=
  Inner.mk m i c

/-- The mark of the root. -/
def mark : {n : ℕ} → LevelTree κ μ ι δ n → μ
  | 0, t => Leaf.mark t
  | _ + 1, t => Inner.mark t

/-- The tree with another mark on its root. -/
def setMark (m : μ) : {n : ℕ} → LevelTree κ μ ι δ n → LevelTree κ μ ι δ n
  | 0, t => leaf m t.data
  | _ + 1, t => node m t.info t.children

/-- A leaf is its mark and its data. -/
theorem ext_zero {t t' : LevelTree κ μ ι δ 0} (hm : t.mark = t'.mark) (hd : t.data = t'.data) :
    t = t' := by
  cases t
  cases t'
  cases hm
  cases hd
  rfl

/-- An inner node is its mark, its info and its children. -/
theorem ext_succ {t t' : LevelTree κ μ ι δ (n + 1)} (hm : t.mark = t'.mark)
    (hi : t.info = t'.info) (hc : t.children = t'.children) : t = t' := by
  cases t
  cases t'
  cases hm
  cases hi
  cases hc
  rfl

theorem setMark_mark (t : LevelTree κ μ ι δ n) : t.setMark t.mark = t := by
  cases n <;> rfl

@[simp]
theorem mark_setMark (m : μ) (t : LevelTree κ μ ι δ n) : (t.setMark m).mark = m := by
  cases n <;> rfl

/-- The inner node with another list of children. -/
def setChildren (t : LevelTree κ μ ι δ (n + 1)) (c : FlatMap κ (LevelTree κ μ ι δ n)) :
    LevelTree κ μ ι δ (n + 1) :=
  node t.mark t.info c

@[simp]
theorem mark_setChildren (t : LevelTree κ μ ι δ (n + 1)) (c : FlatMap κ (LevelTree κ μ ι δ n)) :
    (t.setChildren c).mark = t.mark := rfl

@[simp]
theorem children_setChildren (t : LevelTree κ μ ι δ (n + 1))
    (c : FlatMap κ (LevelTree κ μ ι δ n)) : (t.setChildren c).children = c := rfl

@[simp]
theorem setChildren_setChildren (t : LevelTree κ μ ι δ (n + 1))
    (c c' : FlatMap κ (LevelTree κ μ ι δ n)) :
    (t.setChildren c).setChildren c' = t.setChildren c' := rfl

/-- The lists of all nodes, given the path to the node and its mark. -/
def collect (g : List κ → μ → List β) : {n : ℕ} → List κ → LevelTree κ μ ι δ n → List β
  | 0, p, t => g p t.mark
  | _ + 1, p, t => g p t.mark ++ t.children.flatMapBy fun k c => collect g (p ++ [k]) c

/-- The lists of all nodes but the root. -/
def below (g : List κ → μ → List β) : {n : ℕ} → List κ → LevelTree κ μ ι δ n → List β
  | 0, _, _ => []
  | _ + 1, p, t => t.children.flatMapBy fun k c => collect g (p ++ [k]) c

/-- All marks of the tree have the property. -/
def AllMarks (P : μ → Prop) : {n : ℕ} → LevelTree κ μ ι δ n → Prop
  | 0, t => P t.mark
  | _ + 1, t => P t.mark ∧ ∀ k c, t.children.find k = some c → AllMarks P c

/-- All keys of the tree have the property. -/
def AllKeys (P : κ → Prop) : {n : ℕ} → LevelTree κ μ ι δ n → Prop
  | 0, _ => True
  | _ + 1, t => ∀ k c, t.children.find k = some c → P k ∧ AllKeys P c

/-- The tree with every mark replaced, given the path to it. -/
def mapMark (f : List κ → μ → ν) : {n : ℕ} → List κ → LevelTree κ μ ι δ n → LevelTree κ ν ι δ n
  | 0, p, t => leaf (f p t.mark) t.data
  | _ + 1, p, t =>
    node (f p t.mark) t.info (t.children.mapWithKey fun k c => mapMark f (p ++ [k]) c)

/-- The subtree at a path. -/
inductive Sub {m : ℕ} (v : LevelTree κ μ ι δ m) :
    List κ → (n : ℕ) → LevelTree κ μ ι δ n → Prop
  | root : Sub v [] m v
  | child {p : List κ} {n : ℕ} {t : LevelTree κ μ ι δ (n + 1)} {k : κ} {c : LevelTree κ μ ι δ n} :
    Sub v p (n + 1) t → t.children.find k = some c → Sub v (p ++ [k]) n c

theorem AllMarks.mark {P : μ → Prop} {t : LevelTree κ μ ι δ n} (h : t.AllMarks P) :
    P t.mark := by
  cases n with
  | zero => exact h
  | succ n => exact h.1

/-- Marks with a stronger property have the weaker one. -/
theorem AllMarks.imp {P Q : μ → Prop} (hPQ : ∀ m, P m → Q m) {t : LevelTree κ μ ι δ n}
    (h : t.AllMarks P) : t.AllMarks Q := by
  induction n with
  | zero => exact hPQ _ h
  | succ n ih => exact ⟨hPQ _ h.1, fun k c hc => ih (h.2 k c hc)⟩

/-- What is collected comes from the mark or from one of the children. -/
theorem mem_collect {g : List κ → μ → List β} {p : List κ} {t : LevelTree κ μ ι δ (n + 1)}
    {b : β} : b ∈ t.collect g p ↔ b ∈ g p t.mark ∨
      ∃ k c, t.children.find k = some c ∧ b ∈ c.collect g (p ++ [k]) := by
  rw [collect, List.mem_append, FlatMap.mem_flatMapBy]

/-- What is collected comes from the mark or from below. -/
theorem collect_eq (g : List κ → μ → List β) (p : List κ) (t : LevelTree κ μ ι δ n) :
    t.collect g p = g p t.mark ++ t.below g p := by
  cases n with
  | zero => exact (List.append_nil _).symm
  | succ n => rfl

theorem mem_below {g : List κ → μ → List β} {p : List κ} {t : LevelTree κ μ ι δ (n + 1)} {b : β} :
    b ∈ t.below g p ↔ ∃ k c, t.children.find k = some c ∧ b ∈ c.collect g (p ++ [k]) := by
  rw [below, FlatMap.mem_flatMapBy]

/-- What is gathered below a node is gathered from one child and from the rest. -/
theorem below_perm_of_find {g : List κ → μ → List β} {p : List κ}
    {t : LevelTree κ μ ι δ (n + 1)} {k : κ} {c : LevelTree κ μ ι δ n}
    (h : t.children.find k = some c) :
    (t.below g p).Perm
      (c.collect g (p ++ [k]) ++ (t.setChildren (t.children.erase k)).below g p) :=
  FlatMap.flatMapBy_perm_of_find (g := fun k c => collect g (p ++ [k]) c) h

/-- What is collected below a node after a child was inserted: from that child, and from the others.
-/
theorem below_insert_perm (g : List κ → μ → List β) (p : List κ)
    (t : LevelTree κ μ ι δ (n + 1)) (k : κ) (c : LevelTree κ μ ι δ n) :
    ((t.setChildren (t.children.insert k c)).below g p).Perm
      (c.collect g (p ++ [k]) ++ (t.setChildren (t.children.erase k)).below g p) :=
  FlatMap.flatMapBy_insert_perm (fun k c => collect g (p ++ [k]) c) _ _ _

/-- What is gathered from a tree is gathered from one child and from the rest. -/
theorem collect_perm_of_find {g : List κ → μ → List β} {p : List κ}
    {t : LevelTree κ μ ι δ (n + 1)} {k : κ} {c : LevelTree κ μ ι δ n}
    (h : t.children.find k = some c) :
    (t.collect g p).Perm
      (c.collect g (p ++ [k]) ++ (t.setChildren (t.children.erase k)).collect g p) := by
  have := (FlatMap.flatMapBy_perm_of_find (g := fun k c => collect g (p ++ [k]) c) h).append_left
    (g p t.mark)
  refine this.trans ?_
  simp only [collect, mark_setChildren, children_setChildren, ← List.append_assoc]
  exact List.Perm.append_right _ List.perm_append_comm

/-- All that is collected has a property if what each mark gives has it. -/
theorem mem_collect_mono {g : List κ → μ → List β} {p : List κ} {t : LevelTree κ μ ι δ n}
    {Q : β → Prop} (hg : ∀ p' m, p <+: p' → ∀ b ∈ g p' m, Q b) : ∀ b ∈ t.collect g p, Q b := by
  induction n generalizing p with
  | zero => exact hg p _ (List.prefix_refl p)
  | succ n ih =>
    intro b hb
    rcases mem_collect.mp hb with hb | ⟨k, c, -, hb⟩
    · exact hg p _ (List.prefix_refl p) b hb
    · exact ih (fun p' m hp b hb => hg p' m ((List.prefix_append p [k]).trans hp) b hb) b hb

/-- What is gathered from marks with a property. -/
theorem mem_collect_of_allMarks {g : List κ → μ → List β} {P : μ → Prop} {Q : β → Prop}
    {p : List κ} {t : LevelTree κ μ ι δ n} (h : t.AllMarks P)
    (hg : ∀ p m, P m → ∀ b ∈ g p m, Q b) : ∀ b ∈ t.collect g p, Q b := by
  induction n generalizing p with
  | zero => exact hg p _ h
  | succ n ih =>
    intro b hb
    rcases mem_collect.mp hb with hb | ⟨k, c, hc, hb⟩
    · exact hg p _ h.1 b hb
    · exact ih (h.2 k c hc) b hb

/-- Gathering nothing. -/
theorem collect_eq_nil {g : List κ → μ → List β} {P : μ → Prop} {p : List κ}
    {t : LevelTree κ μ ι δ n} (h : t.AllMarks P) (hg : ∀ p m, P m → g p m = []) :
    t.collect g p = [] := by
  induction n generalizing p with
  | zero => exact hg p _ h
  | succ n ih =>
    rw [List.eq_nil_iff_forall_not_mem]
    intro b hb
    rcases mem_collect.mp hb with hb | ⟨k, c, hc, hb⟩
    · rw [hg p _ h.1] at hb
      cases hb
    · rw [ih (h.2 k c hc)] at hb
      cases hb

/-- Gathering is the same for functions that agree on the marks of the tree. -/
theorem collect_congr {g g' : List κ → μ → List β} {P : μ → Prop} {p : List κ}
    {t : LevelTree κ μ ι δ n} (h : t.AllMarks P) (hg : ∀ p m, P m → g p m = g' p m) :
    t.collect g p = t.collect g' p := by
  induction n generalizing p with
  | zero => exact hg p _ h
  | succ n ih =>
    rw [collect, collect, hg p _ h.1]
    exact congrArg _ (FlatMap.flatMapBy_congr fun k c hc => ih (h.2 k c hc))

/-- When the path plays no role, it does not matter where the tree is rooted. -/
theorem collect_of_const (g : μ → List β) (p p' : List κ) (t : LevelTree κ μ ι δ n) :
    t.collect (fun _ => g) p = t.collect (fun _ => g) p' := by
  induction n generalizing p p' with
  | zero => rfl
  | succ n ih =>
    rw [collect, collect]
    exact congrArg _ (FlatMap.flatMapBy_congr fun k c _ => ih (p ++ [k]) (p' ++ [k]) c)

/-- An image of the marks that does not depend on the path. -/
theorem mapMark_of_const (f : μ → ν) (p p' : List κ) (t : LevelTree κ μ ι δ n) :
    t.mapMark (fun _ => f) p = t.mapMark (fun _ => f) p' := by
  induction n generalizing p p' with
  | zero => rfl
  | succ n ih =>
    simp only [mapMark]
    rw [FlatMap.mapWithKey_congr fun k c _ => ih (p ++ [k]) (p' ++ [k]) c]

/-- Two things can be collected together or one after the other. -/
theorem collect_append_perm (g g' : List κ → μ → List β) (p : List κ)
    (t : LevelTree κ μ ι δ n) :
    (t.collect (fun p m => g p m ++ g' p m) p).Perm (t.collect g p ++ t.collect g' p) := by
  induction n generalizing p with
  | zero => exact List.Perm.refl _
  | succ n ih =>
    refine ((FlatMap.flatMapBy_append_perm fun k c _ => ih (p ++ [k]) c).append_left
      (g p t.mark ++ g' p t.mark)).trans ?_
    simp only [collect]
    rw [List.append_assoc, List.append_assoc]
    refine List.Perm.append_left _ ?_
    rw [← List.append_assoc, ← List.append_assoc]
    exact List.Perm.append_right _ List.perm_append_comm

/-- An image of what is collected is collected from the images. -/
theorem map_collect {γ : Type} (f : β → γ) (g : List κ → μ → List β) (p : List κ)
    (t : LevelTree κ μ ι δ n) :
    (t.collect g p).map f = t.collect (fun p m => (g p m).map f) p := by
  induction n generalizing p with
  | zero => rfl
  | succ n ih =>
    simp only [collect, List.map_append, FlatMap.map_flatMapBy, ih]

/-- Nothing is gathered twice when each node gives distinct elements that tell the path. -/
theorem nodup_collect {g : List κ → μ → List β} {q : β → List κ}
    (hg : ∀ p m, (g p m).Nodup) (htag : ∀ p m, ∀ b ∈ g p m, q b = p) (p : List κ)
    (t : LevelTree κ μ ι δ n) : (t.collect g p).Nodup := by
  have hpre : ∀ {n : ℕ} (p : List κ) (t : LevelTree κ μ ι δ n), ∀ b ∈ t.collect g p,
      p <+: q b := fun p t =>
    mem_collect_mono fun p' m hp b hb => by rw [htag p' m b hb]; exact hp
  induction n generalizing p with
  | zero => exact hg p _
  | succ n ih =>
    refine List.Nodup.append (hg p _) ?_ ?_
    · refine FlatMap.nodup_flatMapBy (fun k c _ => ih (p ++ [k]) c) ?_
      intro k c k' c' _ _ hne b hb hb'
      obtain ⟨s, hs⟩ := hpre (p ++ [k]) c b hb
      obtain ⟨s', hs'⟩ := hpre (p ++ [k']) c' b hb'
      rw [← hs', List.append_assoc, List.append_assoc] at hs
      exact hne (List.cons_eq_cons.mp (List.append_cancel_left hs)).1
    · intro b hb hb'
      obtain ⟨k, c, -, hc⟩ := FlatMap.mem_flatMapBy.mp hb'
      obtain ⟨s, hs⟩ := hpre (p ++ [k]) c b hc
      rw [htag p _ b hb] at hs
      simpa using congrArg List.length hs

/-! ### Subtrees -/

section Sub

variable {m : ℕ} {v : LevelTree κ μ ι δ m} {p : List κ} {t : LevelTree κ μ ι δ n}

/-- The marks of a subtree are marks of the tree. -/
theorem Sub.allMarks {P : μ → Prop} (h : Sub v p n t) (hv : v.AllMarks P) : t.AllMarks P := by
  induction h with
  | root => exact hv
  | child _ hc ih => exact ih.2 _ _ hc

/-- The keys of a subtree are keys of the tree. -/
theorem Sub.allKeys {P : κ → Prop} (h : Sub v p n t) (hv : v.AllKeys P) : t.AllKeys P := by
  induction h with
  | root => exact hv
  | child _ hc ih => exact (ih _ _ hc).2

/-- What is collected from a subtree is collected from the tree. -/
theorem Sub.mem_collect {g : List κ → μ → List β} (h : Sub v p n t) {b : β}
    (hb : b ∈ t.collect g p) : b ∈ v.collect g [] := by
  induction h with
  | root => exact hb
  | child _ hc ih => exact ih (LevelTree.mem_collect.mpr (Or.inr ⟨_, _, hc, hb⟩))

/-- The path to a subtree is as long as the levels between. -/
theorem Sub.length (h : Sub v p n t) : p.length + n = m := by
  induction h with
  | root => exact Nat.zero_add m
  | child _ _ ih =>
    rw [List.length_append, List.length_singleton]
    omega

/-- The subtree at the empty path is the tree. -/
theorem Sub.eq_root {t : LevelTree κ μ ι δ m} (h : Sub v [] m t) : t = v := by
  generalize hp : ([] : List κ) = p at h
  cases h with
  | root => rfl
  | child _ _ => simp at hp

/-- A subtree is a child of the subtree one level up. -/
theorem Sub.exists_parent {k : κ} (h : Sub v (p ++ [k]) n t) :
    ∃ s : LevelTree κ μ ι δ (n + 1), Sub v p (n + 1) s ∧ s.children.find k = some t := by
  generalize hq : p ++ [k] = q at h
  cases h with
  | root => simp at hq
  | child hs hc =>
    obtain ⟨rfl, hk⟩ := List.append_inj' hq rfl
    cases hk
    exact ⟨_, hs, hc⟩

/-- What is gathered from a tree is gathered at its subtrees. -/
theorem exists_sub_of_mem_collect {g : List κ → μ → List β} (hs : Sub v p n t) {b : β}
    (hb : b ∈ t.collect g p) :
    ∃ (q : List κ) (l : ℕ) (s : LevelTree κ μ ι δ l), Sub v q l s ∧ p <+: q ∧ b ∈ g q s.mark := by
  induction n generalizing p with
  | zero => exact ⟨p, 0, t, hs, List.prefix_refl p, hb⟩
  | succ n ih =>
    rcases LevelTree.mem_collect.mp hb with hb | ⟨k, c, hc, hb⟩
    · exact ⟨p, n + 1, t, hs, List.prefix_refl p, hb⟩
    · obtain ⟨q, l, s, hq, hpre, hb⟩ := ih (hs.child hc) hb
      exact ⟨q, l, s, hq, (List.prefix_append p [k]).trans hpre, hb⟩

end Sub

theorem mark_mapMark (f : List κ → μ → ν) (p : List κ) (t : LevelTree κ μ ι δ n) :
    (t.mapMark f p).mark = f p t.mark := by
  cases n <;> rfl

/-- Collecting from the images of the marks. -/
theorem collect_mapMark (f : List κ → μ → ν) (g : List κ → ν → List β) (p : List κ)
    (t : LevelTree κ μ ι δ n) :
    (t.mapMark f p).collect g p = t.collect (fun p m => g p (f p m)) p := by
  induction n generalizing p with
  | zero => rfl
  | succ n ih =>
    simp only [collect, mapMark, FlatMap.flatMapBy_mapWithKey, ih]
    rfl

/-- An image that leaves each mark leaves the tree. -/
theorem mapMark_id {f : List κ → μ → μ} {P : μ → Prop} {p : List κ}
    {t : LevelTree κ μ ι δ n} (h : t.AllMarks P) (hf : ∀ p m, P m → f p m = m) :
    t.mapMark f p = t := by
  induction n generalizing p with
  | zero => exact congrArg (leaf · t.data) (hf p _ h)
  | succ n ih =>
    simp only [mapMark]
    rw [hf p _ h.1, FlatMap.mapWithKey_congr (f := fun _ c => c) fun k c hc => ih (h.2 k c hc),
      FlatMap.mapWithKey_id]
    rfl

theorem mapMark_mapMark {ξ : Type} (f' : List κ → ν → ξ) (f : List κ → μ → ν) (p : List κ)
    (t : LevelTree κ μ ι δ n) :
    (t.mapMark f p).mapMark f' p = t.mapMark (fun p m => f' p (f p m)) p := by
  induction n generalizing p with
  | zero => rfl
  | succ n ih =>
    simp only [mapMark, FlatMap.mapWithKey_mapWithKey, ih]
    rfl

/-- The images of the marks have what all images have. -/
theorem allMarks_mapMark {f : List κ → μ → ν} {P : ν → Prop} {p : List κ}
    {t : LevelTree κ μ ι δ n} (h : t.AllMarks fun m => ∀ p, P (f p m)) :
    (t.mapMark f p).AllMarks P := by
  induction n generalizing p with
  | zero => exact h p
  | succ n ih =>
    refine ⟨h.1 p, fun k c hc => ?_⟩
    simp only [mapMark, FlatMap.find_mapWithKey, Option.map_eq_some_iff] at hc
    obtain ⟨c', hc', rfl⟩ := hc
    exact ih (h.2 k c' hc')

/-- The subtrees of a tree with other marks are the subtrees with other marks. -/
theorem Sub.of_mapMark {m : ℕ} {v : LevelTree κ μ ι δ m} {f : List κ → μ → ν} {p : List κ}
    {t : LevelTree κ ν ι δ n} (h : Sub (v.mapMark f []) p n t) :
    ∃ s : LevelTree κ μ ι δ n, Sub v p n s ∧ t = s.mapMark f p := by
  induction h with
  | root => exact ⟨v, .root, rfl⟩
  | child _ hc ih =>
    obtain ⟨s, hs, rfl⟩ := ih
    simp only [mapMark, FlatMap.find_mapWithKey, Option.map_eq_some_iff] at hc
    obtain ⟨c, hc, rfl⟩ := hc
    exact ⟨c, hs.child hc, rfl⟩

/-- The keys stay when the marks change. -/
theorem allKeys_mapMark {f : List κ → μ → ν} {P : κ → Prop} {p : List κ}
    {t : LevelTree κ μ ι δ n} (h : t.AllKeys P) : (t.mapMark f p).AllKeys P := by
  induction n generalizing p with
  | zero => trivial
  | succ n ih =>
    intro k c hc
    simp only [mapMark, FlatMap.find_mapWithKey, Option.map_eq_some_iff] at hc
    obtain ⟨c', hc', rfl⟩ := hc
    exact ⟨(h k c' hc').1, ih (h k c' hc').2⟩

end LevelTree
