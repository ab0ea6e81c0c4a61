import Mathlib.Data.List.Sort
import Mathlib.Data.List.Perm.Basic
import Mathlib.Algebra.BigOperators.Group.List.Basic
import Mathlib.Order.Basic

/-!
# Sorted flat maps

`FlatMap κ υ` is a finite map stored as a list of entries with strictly ascending keys; the
ascending order is a field, so an unsorted map cannot be built. Lookup, insertion and erasure
scan to the lower bound of the key, the first entry whose key is not smaller.

A map is determined by its lookups (`FlatMap.ext_find`), and the operations are characterised
by what they do to lookups. For additive measures of the entries there is `FlatMap.sumBy`, and
for lists gathered from the entries `FlatMap.flatMapBy`: both split as the entry at one key
and the rest of the map.
-/

universe u v w

/-- A map stored as a list of entries with strictly ascending keys. -/
structure FlatMap (κ : Type u) [LinearOrder κ] (υ : Type v) where
  /-- The entries, in ascending key order. -/
  entries : List (κ × υ)
  sorted : entries.Pairwise fun a b => a.1 < b.1

/-- A set, stored as the keys of a map. -/
abbrev FlatSet (κ : Type u) [LinearOrder κ] := FlatMap κ Unit

namespace FlatMap

variable {κ : Type u} [LinearOrder κ] {υ : Type v} {ω : Type w}

instance [DecidableEq υ] : DecidableEq (FlatMap κ υ) := fun a b =>
  decidable_of_iff (a.entries = b.entries) (by cases a; cases b; simp)

/-- The map without entries. -/
def empty : FlatMap κ υ := ⟨[], List.Pairwise.nil⟩

instance : Inhabited (FlatMap κ υ) := ⟨empty⟩

/-- The value the entries store under `k`, scanning to the lower bound of `k`. -/
def findEntry (k : κ) : List (κ × υ) → Option υ
  | [] => none
  | e :: m => if e.1 < k then findEntry k m else if e.1 = k then some e.2 else none

/-- The entries with `v` stored under `k`. -/
def insertEntry (k : κ) (v : υ) : List (κ × υ) → List (κ × υ)
  | [] => [(k, v)]
  | e :: m =>
    if e.1 < k then e :: insertEntry k v m
    else if e.1 = k then (k, v) :: m else (k, v) :: e :: m

/-- The entries without the one stored under `k`. -/
def eraseEntry (k : κ) : List (κ × υ) → List (κ × υ)
  | [] => []
  | e :: m => if e.1 < k then e :: eraseEntry k m else if e.1 = k then m else e :: m

/-- Inserting brings in nothing but the entry. -/
theorem mem_insertEntry {k : κ} {v : υ} {m : List (κ × υ)} {e : κ × υ}
    (h : e ∈ insertEntry k v m) : e = (k, v) ∨ e ∈ m := by
  induction m with
  | nil => simpa [insertEntry] using h
  | cons a m ih =>
    rw [insertEntry] at h
    split_ifs at h with h1 h2 <;> grind

/-- Inserting keeps the order of the keys. -/
theorem sorted_insertEntry {k : κ} {v : υ} {m : List (κ × υ)}
    (h : m.Pairwise fun a b => a.1 < b.1) :
    (insertEntry k v m).Pairwise fun a b => a.1 < b.1 := by
  induction m with
  | nil => simp [insertEntry]
  | cons a m ih =>
    obtain ⟨ha, hm⟩ := List.pairwise_cons.mp h
    rw [insertEntry]
    split_ifs with h1 h2
    · refine List.pairwise_cons.mpr ⟨fun e he => ?_, ih hm⟩
      rcases mem_insertEntry he with rfl | he
      · exact h1
      · exact ha e he
    · exact List.pairwise_cons.mpr ⟨fun e he => h2 ▸ ha e he, hm⟩
    · have hk : k < a.1 := lt_of_le_of_ne (not_lt.mp h1) (Ne.symm h2)
      refine List.pairwise_cons.mpr ⟨fun e he => ?_, h⟩
      rcases List.mem_cons.mp he with rfl | he
      · exact hk
      · exact hk.trans (ha e he)

theorem eraseEntry_sublist (k : κ) (m : List (κ × υ)) : (eraseEntry k m).Sublist m := by
  induction m with
  | nil => exact List.Sublist.refl _
  | cons a m ih =>
    rw [eraseEntry]
    split_ifs
    · exact ih.cons_cons a
    · exact List.sublist_cons_self a m
    · exact List.Sublist.refl _

/-- The value stored under `k`. -/
def find (m : FlatMap κ υ) (k : κ) : Option υ := findEntry k m.entries

/-- The map with `v` stored under `k`. -/
def insert (m : FlatMap κ υ) (k : κ) (v : υ) : FlatMap κ υ :=
  ⟨insertEntry k v m.entries, sorted_insertEntry m.sorted⟩

/-- The map with nothing stored under `k`. -/
def erase (m : FlatMap κ υ) (k : κ) : FlatMap κ υ :=
  ⟨eraseEntry k m.entries, m.sorted.sublist (eraseEntry_sublist k m.entries)⟩

/-- The map with every value replaced by its image. -/
def map (f : υ → ω) (m : FlatMap κ υ) : FlatMap κ ω :=
  ⟨m.entries.map fun e => (e.1, f e.2), by
    rw [List.pairwise_map]; exact m.sorted⟩

/-- The map built by inserting the given entries one after another. -/
def ofList (l : List (κ × υ)) : FlatMap κ υ := l.foldl (fun m e => m.insert e.1 e.2) empty

/-- The keys, ascending. -/
def keys (m : FlatMap κ υ) : List κ := m.entries.map Prod.fst

/-- The values, in key order. -/
def values (m : FlatMap κ υ) : List υ := m.entries.map Prod.snd

/-- The number of entries. -/
def size (m : FlatMap κ υ) : ℕ := m.entries.length

/-- The map without the entries at some keys. -/
def filterKeys (p : κ → Bool) (m : FlatMap κ υ) : FlatMap κ υ :=
  ⟨m.entries.filter fun e => p e.1, m.sorted.sublist List.filter_sublist⟩

/-! ### Lookups -/

/-- In a sorted list, the search finds exactly the entries. -/
theorem findEntry_eq_some_iff {k : κ} {v : υ} {m : List (κ × υ)}
    (h : m.Pairwise fun a b => a.1 < b.1) : findEntry k m = some v ↔ (k, v) ∈ m := by
  induction m with
  | nil => simp [findEntry]
  | cons a m ih =>
    obtain ⟨ha, hm⟩ := List.pairwise_cons.mp h
    rw [findEntry, List.mem_cons]
    split_ifs with h1 h2
    · rw [ih hm]
      exact ⟨Or.inr, fun h => h.resolve_left (by rintro rfl; exact lt_irrefl _ h1)⟩
    · subst h2
      refine ⟨fun h => Or.inl (Prod.ext rfl (Option.some.inj h).symm), fun h => ?_⟩
      rcases h with h | h
      · rw [← h]
      · exact absurd (ha _ h) (lt_irrefl _)
    · refine ⟨fun h => (nomatch h), fun h => ?_⟩
      rcases h with rfl | h
      · exact absurd rfl h2
      · exact absurd (ha _ h) h1

/-- A lookup finds exactly the entries. -/
theorem find_eq_some_iff {m : FlatMap κ υ} {k : κ} {v : υ} :
    m.find k = some v ↔ (k, v) ∈ m.entries := findEntry_eq_some_iff m.sorted

theorem entries_nodup (m : FlatMap κ υ) : m.entries.Nodup := by
  refine m.sorted.imp fun hab hEq => ?_
  rw [hEq] at hab
  exact lt_irrefl _ hab

@[simp] theorem find_empty (k : κ) : (empty : FlatMap κ υ).find k = none := rfl

/-- Two maps with the same lookups are equal. -/
theorem ext_find {m m' : FlatMap κ υ} (h : ∀ k, m.find k = m'.find k) : m = m' := by
  have hmem : ∀ e, e ∈ m.entries ↔ e ∈ m'.entries := fun e => by
    rw [← find_eq_some_iff (k := e.1), ← find_eq_some_iff (k := e.1), h]
  have hperm : m.entries.Perm m'.entries :=
    (List.perm_ext_iff_of_nodup m.entries_nodup m'.entries_nodup).mpr hmem
  have hEq : m.entries = m'.entries :=
    hperm.eq_of_pairwise (fun _ _ _ _ hab hba => absurd (hab.trans hba) (lt_irrefl _))
      m.sorted m'.sorted
  cases m; cases m'; cases hEq; rfl

/-- A search after inserting. -/
theorem findEntry_insertEntry (k k' : κ) (v : υ) {m : List (κ × υ)}
    (h : m.Pairwise fun a b => a.1 < b.1) :
    findEntry k' (insertEntry k v m) = if k' = k then some v else findEntry k' m := by
  have hs := sorted_insertEntry (k := k) (v := v) h
  induction m with
  | nil => simp only [insertEntry, findEntry]; split_ifs <;> grind
  | cons a m ih =>
    obtain ⟨ha, hm⟩ := List.pairwise_cons.mp h
    have ih := ih hm (sorted_insertEntry hm)
    rw [insertEntry]
    split_ifs <;> simp only [findEntry, ih] <;> split_ifs <;> grind

@[simp] theorem find_insert (m : FlatMap κ υ) (k k' : κ) (v : υ) :
    (m.insert k v).find k' = if k' = k then some v else m.find k' :=
  findEntry_insertEntry k k' v m.sorted

theorem find_insert_empty_eq_some {k k' : κ} {v v' : υ} :
    ((empty : FlatMap κ υ).insert k v).find k' = some v' ↔ k' = k ∧ v' = v := by
  rw [find_insert, find_empty]
  split_ifs with h <;> simp [h, eq_comm]

/-- Erasing removes the one entry with the key. -/
theorem mem_eraseEntry {k : κ} {m : List (κ × υ)} (h : m.Pairwise fun a b => a.1 < b.1)
    {e : κ × υ} : e ∈ eraseEntry k m ↔ e ∈ m ∧ e.1 ≠ k := by
  induction m with
  | nil => simp [eraseEntry]
  | cons a m ih =>
    obtain ⟨ha, hm⟩ := List.pairwise_cons.mp h
    rw [eraseEntry]
    split_ifs with h1 h2
    · rw [List.mem_cons, ih hm]; grind
    · constructor
      · exact fun he => ⟨List.mem_cons_of_mem _ he, fun hk => lt_irrefl _ (hk ▸ h2 ▸ ha e he)⟩
      · rintro ⟨he, hk⟩
        exact (List.mem_cons.mp he).resolve_left (by rintro rfl; exact hk h2)
    · refine ⟨fun he => ⟨he, fun hk => ?_⟩, fun he => he.1⟩
      rcases List.mem_cons.mp he with rfl | he
      · exact h2 hk
      · exact h1 (hk ▸ ha e he)

@[simp] theorem find_erase (m : FlatMap κ υ) (k k' : κ) :
    (m.erase k).find k' = if k' = k then none else m.find k' := by
  refine Option.ext fun v => ?_
  rw [find_eq_some_iff, erase, mem_eraseEntry m.sorted, ← find_eq_some_iff]
  split_ifs with h <;> simp [h]

@[simp] theorem find_filterKeys (m : FlatMap κ υ) (p : κ → Bool) (k : κ) :
    (m.filterKeys p).find k = if p k then m.find k else none := by
  refine Option.ext fun v => ?_
  rw [find_eq_some_iff, filterKeys, List.mem_filter, ← find_eq_some_iff]
  split_ifs with h <;> simp [h]

/-- A search in an image of the values. -/
theorem findEntry_map (f : υ → ω) (k : κ) (m : List (κ × υ)) :
    findEntry k (m.map fun e => (e.1, f e.2)) = (findEntry k m).map f := by
  induction m with
  | nil => rfl
  | cons a m ih => simp only [List.map_cons, findEntry, ih]; split_ifs <;> rfl

@[simp] theorem find_map (f : υ → ω) (m : FlatMap κ υ) (k : κ) :
    (m.map f).find k = (m.find k).map f := findEntry_map f k m.entries

@[simp] theorem map_empty (f : υ → ω) : (empty : FlatMap κ υ).map f = empty := rfl

theorem map_insert (f : υ → ω) (m : FlatMap κ υ) (k : κ) (v : υ) :
    (m.insert k v).map f = (m.map f).insert k (f v) :=
  ext_find fun k' => by simp only [find_map, find_insert]; split_ifs <;> rfl

theorem map_erase (f : υ → ω) (m : FlatMap κ υ) (k : κ) :
    (m.erase k).map f = (m.map f).erase k :=
  ext_find fun k' => by simp only [find_map, find_erase]; split_ifs <;> rfl

theorem map_map {ψ : Type*} (g : ω → ψ) (f : υ → ω) (m : FlatMap κ υ) :
    (m.map f).map g = m.map (g ∘ f) :=
  ext_find fun k => by simp only [find_map, Option.map_map]

/-- A second value for a key replaces the first. -/
@[simp] theorem insert_insert (m : FlatMap κ υ) (k : κ) (v v' : υ) :
    (m.insert k v).insert k v' = m.insert k v' :=
  ext_find fun k' => by simp only [find_insert]; split_ifs <;> rfl

@[simp] theorem erase_insert (m : FlatMap κ υ) (k : κ) (v : υ) :
    (m.insert k v).erase k = m.erase k :=
  ext_find fun k' => by simp only [find_erase, find_insert]; split_ifs <;> rfl

/-- Inserting what is there changes nothing. -/
theorem insert_find {m : FlatMap κ υ} {k : κ} {v : υ} (h : m.find k = some v) :
    m.insert k v = m :=
  ext_find fun k' => by rw [find_insert]; split_ifs with hk <;> simp [hk, h]

theorem erase_of_find_none {m : FlatMap κ υ} {k : κ} (h : m.find k = none) :
    m.erase k = m :=
  ext_find fun k' => by rw [find_erase]; split_ifs with hk <;> simp [hk, h]

/-- The keys are those with a value. -/
theorem mem_keys {m : FlatMap κ υ} {k : κ} : k ∈ m.keys ↔ (m.find k).isSome := by
  simp [keys, Option.isSome_iff_exists, find_eq_some_iff]

theorem nodup_keys (m : FlatMap κ υ) : m.keys.Nodup :=
  List.Pairwise.map Prod.fst (fun _ _ h => ne_of_lt h) m.sorted

theorem eq_empty_of_keys {m : FlatMap κ υ} (h : m.keys = []) : m = empty :=
  ext_find fun k => by
    rw [find_empty, ← Option.not_isSome_iff_eq_none, ← mem_keys, h]
    exact List.not_mem_nil

/-- Inserting the entries of a sorted list one after another, each before what was there. -/
theorem find_foldl_insert (l : List (κ × υ)) (h : l.Pairwise fun a b => a.1 < b.1)
    (m : FlatMap κ υ) (k : κ) :
    (l.foldl (fun m e => m.insert e.1 e.2) m).find k = (findEntry k l).or (m.find k) := by
  induction l generalizing m with
  | nil => rfl
  | cons a l ih =>
    obtain ⟨ha, hl⟩ := List.pairwise_cons.mp h
    rw [List.foldl_cons, ih hl, find_insert, findEntry]
    have hnone : ¬a.1 < k → findEntry k l = none := fun hk => by
      by_contra hne
      obtain ⟨v, hv⟩ := Option.ne_none_iff_exists'.mp hne
      exact hk (ha _ ((findEntry_eq_some_iff hl).mp hv))
    rcases lt_trichotomy a.1 k with hk | hk | hk
    · rw [if_neg hk.ne', if_pos hk]
    · rw [if_pos hk.symm, if_neg hk.not_lt, if_pos hk, hnone hk.not_lt]
      rfl
    · rw [if_neg hk.ne, if_neg hk.not_gt, if_neg hk.ne', hnone hk.not_gt]

/-- Inserting the entries of a map one after another rebuilds the map. -/
@[simp]
theorem ofList_entries (m : FlatMap κ υ) : ofList m.entries = m :=
  ext_find fun k => by
    rw [ofList, find_foldl_insert _ m.sorted, find_empty, Option.or_none, find]

/-! ### The entry at one key and the rest -/

/-- The entry at a key and the rest are all entries. -/
theorem entries_perm_cons_erase {m : FlatMap κ υ} {k : κ} {v : υ} (h : m.find k = some v) :
    m.entries.Perm ((k, v) :: (m.erase k).entries) := by
  have hk : (k, v) ∉ (m.erase k).entries := fun hmem =>
    (((mem_eraseEntry m.sorted).mp hmem).2 rfl).elim
  refine (List.perm_ext_iff_of_nodup m.entries_nodup
    (List.nodup_cons.mpr ⟨hk, entries_nodup _⟩)).mpr fun e => ?_
  rw [List.mem_cons]
  by_cases hek : e.1 = k
  · have : e ∈ m.entries ↔ e = (k, v) := by
      rw [← find_eq_some_iff (k := e.1), hek, h]
      exact ⟨fun hv => Prod.ext hek (Option.some.inj hv).symm, fun hv => by rw [hv]⟩
    rw [this]
    refine ⟨Or.inl, fun h => h.resolve_right fun hmem => ?_⟩
    exact ((mem_eraseEntry m.sorted).mp hmem).2 hek
  · have : e ∈ (m.erase k).entries ↔ e ∈ m.entries :=
      (mem_eraseEntry m.sorted).trans (and_iff_left hek)
    rw [this]
    exact ⟨Or.inr, fun h => h.resolve_left (by rintro rfl; exact hek rfl)⟩

/-- The lists of all entries, joined. -/
def flatMapBy (g : κ → υ → List ω) (m : FlatMap κ υ) : List ω :=
  m.entries.flatMap fun e => g e.1 e.2

@[simp] theorem flatMapBy_empty (g : κ → υ → List ω) :
    (empty : FlatMap κ υ).flatMapBy g = [] := rfl

/-- What a map gives when each entry gives a list. -/
theorem mem_flatMapBy {g : κ → υ → List ω} {m : FlatMap κ υ} {a : ω} :
    a ∈ m.flatMapBy g ↔ ∃ k v, m.find k = some v ∧ a ∈ g k v := by
  simp only [flatMapBy, List.mem_flatMap, find_eq_some_iff, Prod.exists]

/-- What the entry at a key gives comes apart from what the rest gives. -/
theorem flatMapBy_perm_of_find {g : κ → υ → List ω} {m : FlatMap κ υ} {k : κ} {v : υ}
    (h : m.find k = some v) : (m.flatMapBy g).Perm (g k v ++ (m.erase k).flatMapBy g) := by
  have := (entries_perm_cons_erase h).flatMap_right fun e => g e.1 e.2
  simpa [flatMapBy] using this

/-- What a map gives after inserting: what the new entry gives, and what the other entries gave. -/
theorem flatMapBy_insert_perm (g : κ → υ → List ω) (m : FlatMap κ υ) (k : κ) (v : υ) :
    ((m.insert k v).flatMapBy g).Perm (g k v ++ (m.erase k).flatMapBy g) := by
  have := flatMapBy_perm_of_find (g := g) (m := m.insert k v) (k := k) (v := v) (by simp)
  rwa [erase_insert] at this

theorem flatMapBy_congr {g g' : κ → υ → List ω} {m : FlatMap κ υ}
    (h : ∀ k v, m.find k = some v → g k v = g' k v) : m.flatMapBy g = m.flatMapBy g' :=
  List.flatMap_congr fun e he => h e.1 e.2 (find_eq_some_iff.mpr he)

theorem map_flatMapBy {ψ : Type*} (f : ω → ψ) (g : κ → υ → List ω) (m : FlatMap κ υ) :
    (m.flatMapBy g).map f = m.flatMapBy fun k v => (g k v).map f := by
  rw [flatMapBy, flatMapBy, List.map_flatMap]

/-- When each entry gives what two others give, so does the map. -/
theorem flatMapBy_append_perm {g g' g'' : κ → υ → List ω} {m : FlatMap κ υ}
    (h : ∀ k v, m.find k = some v → (g k v).Perm (g' k v ++ g'' k v)) :
    (m.flatMapBy g).Perm (m.flatMapBy g' ++ m.flatMapBy g'') := by
  have h : ∀ e ∈ m.entries, (g e.1 e.2).Perm (g' e.1 e.2 ++ g'' e.1 e.2) := fun e he =>
    h e.1 e.2 (find_eq_some_iff.mpr he)
  refine (List.Perm.flatMap_left _ h).trans ?_
  simp only [flatMapBy]
  exact (List.flatMap_append_perm m.entries _ _).symm

/-- Lists without repetition, no two of which share an element, join without repetition. -/
theorem nodup_flatMapBy {g : κ → υ → List ω} {m : FlatMap κ υ}
    (hg : ∀ k v, m.find k = some v → (g k v).Nodup)
    (hd : ∀ k v k' v', m.find k = some v → m.find k' = some v' → k ≠ k' →
      (g k v).Disjoint (g k' v')) : (m.flatMapBy g).Nodup := by
  rw [flatMapBy, List.nodup_flatMap]
  refine ⟨fun e he => hg e.1 e.2 (find_eq_some_iff.mpr he), ?_⟩
  refine m.sorted.imp_of_mem fun ha hb hab => ?_
  exact hd _ _ _ _ (find_eq_some_iff.mpr ha) (find_eq_some_iff.mpr hb) hab.ne

/-! ### Images that depend on the key -/

/-- The map with every value replaced by its image under a function of the key. -/
def mapWithKey (g : κ → υ → ω) (m : FlatMap κ υ) : FlatMap κ ω :=
  ⟨m.entries.map fun e => (e.1, g e.1 e.2), by
    rw [List.pairwise_map]; exact m.sorted⟩

/-- A lookup in an image that depends on the key. -/
@[simp]
theorem find_mapWithKey (g : κ → υ → ω) (m : FlatMap κ υ) (k : κ) :
    (m.mapWithKey g).find k = (m.find k).map (g k) := by
  refine Option.ext fun w => ?_
  simp only [find_eq_some_iff, mapWithKey, List.mem_map, Option.map_eq_some_iff]
  constructor
  · rintro ⟨e, he, heq⟩
    cases heq
    exact ⟨e.2, he, rfl⟩
  · rintro ⟨v, hv, rfl⟩
    exact ⟨(k, v), hv, rfl⟩

theorem mapWithKey_congr {g f : κ → υ → ω} {m : FlatMap κ υ}
    (h : ∀ k v, m.find k = some v → g k v = f k v) : m.mapWithKey g = m.mapWithKey f := by
  refine ext_find fun k => ?_
  rw [find_mapWithKey, find_mapWithKey]
  cases hk : m.find k with
  | none => rfl
  | some v => simp [h k v hk]

theorem mapWithKey_id (m : FlatMap κ υ) : (m.mapWithKey fun _ v => v) = m :=
  ext_find fun k => by simp

theorem mapWithKey_mapWithKey {ψ : Type*} (g' : κ → ω → ψ) (g : κ → υ → ω) (m : FlatMap κ υ) :
    (m.mapWithKey g).mapWithKey g' = m.mapWithKey fun k v => g' k (g k v) :=
  ext_find fun k => by simp [Function.comp_def]

theorem flatMapBy_mapWithKey {ψ : Type*} (g' : κ → ω → List ψ) (g : κ → υ → ω)
    (m : FlatMap κ υ) : (m.mapWithKey g).flatMapBy g' = m.flatMapBy fun k v => g' k (g k v) := by
  simp [flatMapBy, mapWithKey, List.flatMap_map]

/-! ### Partial images -/

/-- The images of all entries, when each has one. -/
def traverseEntries (g : κ → υ → Option ω) : List (κ × υ) → Option (List (κ × ω))
  | [] => some []
  | e :: m =>
    match g e.1 e.2, traverseEntries g m with
    | some w, some m' => some ((e.1, w) :: m')
    | _, _ => none

omit [LinearOrder κ] in
/-- A partial image of a list exists if its head and its tail have one. -/
theorem traverseEntries_cons {g : κ → υ → Option ω} {e : κ × υ} {m : List (κ × υ)}
    {l : List (κ × ω)} (h : traverseEntries g (e :: m) = some l) :
    ∃ w m', g e.1 e.2 = some w ∧ traverseEntries g m = some m' ∧ l = (e.1, w) :: m' := by
  rw [traverseEntries] at h
  split at h
  · next w m' hw hm => exact ⟨w, m', hw, hm, (Option.some.inj h).symm⟩
  · cases h

omit [LinearOrder κ] in
theorem traverseEntries_keys {g : κ → υ → Option ω} {m : List (κ × υ)} {l : List (κ × ω)}
    (h : traverseEntries g m = some l) : l.map Prod.fst = m.map Prod.fst := by
  induction m generalizing l with
  | nil => cases h; rfl
  | cons e m ih =>
    obtain ⟨w, m', -, hm, rfl⟩ := traverseEntries_cons h
    simp [ih hm]

/-- A search in a partial image. -/
theorem findEntry_traverseEntries {g : κ → υ → Option ω} {m : List (κ × υ)} {l : List (κ × ω)}
    (h : traverseEntries g m = some l) (k : κ) :
    (findEntry k m).map (g k) = (findEntry k l).map some := by
  induction m generalizing l with
  | nil => cases h; rfl
  | cons e m ih =>
    obtain ⟨w, m', hw, hm, rfl⟩ := traverseEntries_cons h
    simp only [findEntry]
    split_ifs with h1 h2
    · exact ih hm
    · simp [← h2, hw]
    · rfl

omit [LinearOrder κ] in
/-- A partial image exists when each value has one. -/
theorem exists_traverseEntries {g : κ → υ → Option ω} {m : List (κ × υ)}
    (h : ∀ e ∈ m, ∃ w, g e.1 e.2 = some w) : ∃ l, traverseEntries g m = some l := by
  induction m with
  | nil => exact ⟨[], rfl⟩
  | cons e m ih =>
    obtain ⟨w, hw⟩ := h e List.mem_cons_self
    obtain ⟨l, hl⟩ := ih fun e he => h e (List.mem_cons_of_mem _ he)
    exact ⟨(e.1, w) :: l, by rw [traverseEntries, hw, hl]⟩

/-- The map of the images of all entries, when each entry has one. -/
def traverse (g : κ → υ → Option ω) (m : FlatMap κ υ) : Option (FlatMap κ ω) :=
  match h : traverseEntries g m.entries with
  | none => none
  | some l => some ⟨l, by
      have := m.sorted
      rw [← List.pairwise_map (f := Prod.fst) (R := (· < ·))] at this ⊢
      rwa [traverseEntries_keys h]⟩

/-- The entries of a partial image are the partial image of the entries. -/
theorem traverse_entries {g : κ → υ → Option ω} {m : FlatMap κ υ} {m' : FlatMap κ ω} :
    m.traverse g = some m' ↔ traverseEntries g m.entries = some m'.entries := by
  unfold traverse
  split
  · next h => simp [h]
  · next l h => cases m'; simp [h]

theorem keys_map (f : υ → ω) (m : FlatMap κ υ) : (m.map f).keys = m.keys := by
  rw [keys, keys, map, List.map_map]
  rfl

/-- Two maps that have the same keys list them alike. -/
theorem keys_congr {m : FlatMap κ υ} {m' : FlatMap κ ω}
    (h : ∀ k, (m.find k).isSome ↔ (m'.find k).isSome) : m.keys = m'.keys := by
  have hunit : m.map (fun _ => ()) = m'.map fun _ => () := ext_find fun k => by
    have hk := h k
    rw [find_map, find_map]
    cases hm : m.find k <;> cases hm' : m'.find k <;> simp_all
  rw [← keys_map (fun _ => ()) m, ← keys_map (fun _ => ()) m', hunit]

/-- A partial image has the same keys. -/
theorem keys_traverse {g : κ → υ → Option ω} {m : FlatMap κ υ} {m' : FlatMap κ ω}
    (h : m.traverse g = some m') : m'.keys = m.keys := traverseEntries_keys (traverse_entries.mp h)

/-- A map is the image of another when it has the same keys and holds the image of each
value. -/
theorem traverse_eq_some_iff {g : κ → υ → Option ω} {m : FlatMap κ υ} {m' : FlatMap κ ω} :
    m.traverse g = some m' ↔ ∀ k, (m.find k).map (g k) = (m'.find k).map some := by
  refine ⟨fun h => findEntry_traverseEntries (traverse_entries.mp h), fun h => ?_⟩
  have hAll : ∀ e ∈ m.entries, ∃ w, g e.1 e.2 = some w := fun e he => by
    have hk := h e.1
    rw [find_eq_some_iff.mpr he] at hk
    cases hw : m'.find e.1 with
    | none => simp [hw] at hk
    | some w => exact ⟨w, by simpa [hw] using hk⟩
  obtain ⟨l, hl⟩ := exists_traverseEntries hAll
  have hs : l.Pairwise fun a b => a.1 < b.1 := by
    have := m.sorted
    rw [← List.pairwise_map (f := Prod.fst) (R := (· < ·))] at this ⊢
    rwa [traverseEntries_keys hl]
  have hEq : (⟨l, hs⟩ : FlatMap κ ω) = m' := ext_find fun k =>
    Option.map_injective (Option.some_injective _)
      ((findEntry_traverseEntries hl k).symm.trans (h k))
  rw [traverse_entries, hl, ← hEq]

/-- A partial image depends on the values at the keys only. -/
theorem traverse_congr {g g' : κ → υ → Option ω} {m : FlatMap κ υ}
    (h : ∀ k v, m.find k = some v → g k v = g' k v) : m.traverse g = m.traverse g' := by
  refine Option.ext fun m' => ?_
  rw [traverse_eq_some_iff, traverse_eq_some_iff]
  refine forall_congr' fun k => ?_
  cases hk : m.find k with
  | none => rfl
  | some v => rw [Option.map_some, Option.map_some, h k v hk]

theorem traverse_map {ψ : Type*} (g : κ → ω → Option ψ) (f : υ → ω) (m : FlatMap κ υ) :
    (m.map f).traverse g = m.traverse fun k v => g k (f v) := by
  refine Option.ext fun m' => ?_
  rw [traverse_eq_some_iff, traverse_eq_some_iff]
  refine forall_congr' fun k => ?_
  rw [find_map, Option.map_map]
  rfl

/-- What a partial image holds is the image of what the map holds. -/
theorem find_of_find_traverse {g : κ → υ → Option ω} {m : FlatMap κ υ} {m' : FlatMap κ ω}
    (h : m.traverse g = some m') {k : κ} {w : ω} (hk : m'.find k = some w) :
    ∃ v, m.find k = some v ∧ g k v = some w := by
  have := traverse_eq_some_iff.mp h k
  rw [hk] at this
  cases hv : m.find k with
  | none => simp [hv] at this
  | some v => exact ⟨v, rfl, by simpa [hv] using this⟩

end FlatMap
