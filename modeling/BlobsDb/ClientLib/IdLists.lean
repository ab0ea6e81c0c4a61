import BlobsDb.Server.Answering
import BlobsDb.Network.Messages

/-!
# Id lists

The server sends the ids of a list as ranges, each with its first id and the one after its last.
The client counts through each range until it meets the end, whatever the order of the two
bounds. For the ids of an ascending list the ranges are as few as can be, and counting through
them gives the list back.
-/

namespace BlobsDb

/-- The inner loop of `GetAllBlobs`, `GetAllClusters` and `GetAllSegments`: counts until the
bound is met. -/
def countIds (id idEnd : UInt32) : List UInt32 :=
  if id = idEnd then [] else id :: countIds (id + 1) idEnd
termination_by (idEnd - id).toNat
decreasing_by
  have h1 := id.toNat_lt
  have h2 := idEnd.toNat_lt
  have h3 : id.toNat ≠ idEnd.toNat := by simpa [UInt32.toNat_inj] using ‹¬id = idEnd›
  simp only [UInt32.toNat_sub, UInt32.toNat_add, show (1 : UInt32).toNat = 1 from rfl]
  omega

/-- The id at an offset of the data. -/
def idAt (data : List UInt8) (offset : ℕ) : UInt32 :=
  .ofNat (leNat ((data.drop offset).take 4))

/-- The loops of `GetAllBlobs`, `GetAllClusters` and `GetAllSegments` over the ranges in the
data; what is left after the last whole range is not looked at. -/
def idsOfRanges (data : List UInt8) : List UInt32 :=
  (List.range (data.length / 8)).flatMap fun i => countIds (idAt data (8 * i)) (idAt data (8 * i + 4))

/-! ### Counting -/

theorem countIds_self (a : UInt32) : countIds a a = [] := by
  rw [countIds, if_pos rfl]

theorem countIds_of_ne {a b : UInt32} (h : a ≠ b) : countIds a b = a :: countIds (a + 1) b := by
  rw [countIds, if_neg h]

/-- Below the largest number, the next one is the one after. -/
theorem toNat_succ {a b : UInt32} (h : a < b) : (a + 1).toNat = a.toNat + 1 := by
  have h1 := b.toNat_lt
  rw [UInt32.lt_iff_toNat_lt] at h
  rw [UInt32.toNat_add, show (1 : UInt32).toNat = 1 from rfl]
  omega

/-- Moving the bound by one appends one id. -/
theorem countIds_succ {a b c : UInt32} (hab : a ≤ b) (hbc : b < c) :
    countIds a (b + 1) = countIds a b ++ [b] := by
  have hb : (b + 1).toNat = b.toNat + 1 := toNat_succ hbc
  fun_induction countIds a b with
  | case1 =>
    have hne : b ≠ b + 1 := fun h => by
      have := UInt32.toNat_inj.mpr h
      omega
    rw [countIds_of_ne hne, countIds_self, List.nil_append]
  | case2 a hne ih =>
    have hlt : a < b := lt_of_le_of_ne hab hne
    have ha := toNat_succ hlt
    have hne' : a ≠ b + 1 := fun h => by
      have := UInt32.toNat_inj.mpr h
      rw [UInt32.lt_iff_toNat_lt] at hlt
      omega
    have hle : a + 1 ≤ b := by
      rw [UInt32.le_iff_toNat_le, ha]
      exact UInt32.lt_iff_toNat_lt.mp hlt
    rw [countIds_of_ne hne', ih hle, List.cons_append]

/-! ### The ranges -/

/-- A range that is not empty and ends before another begins, with a hole between them. -/
def RangeBefore (r r' : UInt32 × UInt32) : Prop :=
  r.2 < r'.1

/-- The ranges of the ids from a current range on: counting through them gives the ids of the
range and the ids after it, and none of them touches the one before. -/
theorem intoIdRangesFrom_spec {r : UInt32 × UInt32} {ids : List UInt32} {top : UInt32}
    (hr : r.1 < r.2) (hids : ids.Pairwise (· < ·)) (hle : ∀ id ∈ ids, r.2 ≤ id)
    (htop : ∀ id ∈ ids, id < top) :
    ((intoIdRangesFrom r ids).flatMap fun s => countIds s.1 s.2) = countIds r.1 r.2 ++ ids ∧
      (intoIdRangesFrom r ids).Pairwise RangeBefore ∧
      ∀ s ∈ intoIdRangesFrom r ids, s.1 < s.2 ∧ r.1 ≤ s.1 := by
  induction ids generalizing r with
  | nil => simp [intoIdRangesFrom, hr]
  | cons id ids ih =>
    obtain ⟨hfirst, hrest⟩ := List.pairwise_cons.mp hids
    have htop' := fun i hi => htop i (List.mem_cons_of_mem id hi)
    have hid := toNat_succ (htop id List.mem_cons_self)
    -- the ids that are left lie behind the one that was just taken
    have hnext : ∀ i ∈ ids, id + 1 ≤ i := fun i hi => by
      rw [UInt32.le_iff_toNat_le, hid]
      exact UInt32.lt_iff_toNat_lt.mp (hfirst i hi)
    have hlt : id < id + 1 := by
      rw [UInt32.lt_iff_toNat_lt, hid]
      omega
    rw [intoIdRangesFrom]
    split
    next heq =>
      subst heq
      have h := ih (r := (r.1, r.2 + 1)) (hr.trans hlt) hrest hnext htop'
      refine ⟨?_, h.2.1, h.2.2⟩
      rw [h.1, countIds_succ (le_of_lt hr) (htop r.2 List.mem_cons_self), List.append_assoc,
        List.singleton_append]
    next hne =>
      have h := ih (r := (id, id + 1)) hlt hrest hnext htop'
      have hgap : r.2 < id := lt_of_le_of_ne (hle id List.mem_cons_self) (Ne.symm hne)
      refine ⟨?_, ?_, ?_⟩
      · rw [List.flatMap_cons, h.1, countIds_succ le_rfl (htop id List.mem_cons_self), countIds_self]
        simp
      · refine List.pairwise_cons.mpr ⟨fun s hs => ?_, h.2.1⟩
        exact lt_of_lt_of_le hgap (h.2.2 s hs).2
      · intro s hs
        rcases List.mem_cons.mp hs with rfl | hs
        · exact ⟨hr, le_rfl⟩
        · exact ⟨(h.2.2 s hs).1, (le_of_lt (hr.trans hgap)).trans (h.2.2 s hs).2⟩

/-- The ranges of an ascending list are not empty, ascend without touching, and contain the ids
of the list. -/
theorem intoIdRanges_spec {ids : List UInt32} {top : UInt32} (hids : ids.Pairwise (· < ·))
    (htop : ∀ id ∈ ids, id < top) :
    ((intoIdRanges ids).flatMap fun r => countIds r.1 r.2) = ids ∧
      (intoIdRanges ids).Pairwise RangeBefore ∧ ∀ r ∈ intoIdRanges ids, r.1 < r.2 := by
  cases ids with
  | nil => simp [intoIdRanges]
  | cons id ids =>
    obtain ⟨hfirst, hids⟩ := List.pairwise_cons.mp hids
    have hid := toNat_succ (htop id List.mem_cons_self)
    have h := @intoIdRangesFrom_spec (id, id + 1) ids top
      (UInt32.lt_iff_toNat_lt.mpr (hid ▸ Nat.lt_succ_self _)) hids
      (fun i hi => by
        rw [UInt32.le_iff_toNat_le, hid]
        exact UInt32.lt_iff_toNat_lt.mp (hfirst i hi))
      fun i hi => htop i (List.mem_cons_of_mem id hi)
    refine ⟨?_, h.2.1, fun r hr => (h.2.2 r hr).1⟩
    rw [intoIdRanges, h.1, countIds_succ le_rfl (htop id List.mem_cons_self), countIds_self]
    rfl

/-! ### The round trip -/

/-- The bytes of a range. -/
def idRangeBytes (r : UInt32 × UInt32) : List UInt8 :=
  leBytes 4 r.1.toNat ++ leBytes 4 r.2.toNat

theorem length_idRangeBytes (r : UInt32 × UInt32) : (idRangeBytes r).length = 8 := by
  simp [idRangeBytes]

theorem length_flatMap_idRangeBytes (rs : List (UInt32 × UInt32)) :
    (rs.flatMap idRangeBytes).length = 8 * rs.length := by
  induction rs with
  | nil => rfl
  | cons r rs ih =>
    rw [List.flatMap_cons, List.length_append, ih, length_idRangeBytes, List.length_cons]
    ring

theorem idAt_first (r : UInt32 × UInt32) (data : List UInt8) :
    idAt (idRangeBytes r ++ data) 0 = r.1 := by
  rw [idAt, idRangeBytes, List.drop_zero, List.append_assoc, List.take_left' (length_leBytes 4 _),
    ofNat_leNat_leBytes]

theorem idAt_second (r : UInt32 × UInt32) (data : List UInt8) :
    idAt (idRangeBytes r ++ data) 4 = r.2 := by
  rw [idAt, idRangeBytes, List.append_assoc, List.drop_left' (length_leBytes 4 _),
    List.take_left' (length_leBytes 4 _), ofNat_leNat_leBytes]

theorem idAt_rest (r : UInt32 × UInt32) (data : List UInt8) (n : ℕ) :
    idAt (idRangeBytes r ++ data) (8 + n) = idAt data n := by
  rw [idAt, ← List.drop_drop, List.drop_left' (length_idRangeBytes r), idAt]

/-- Reading ranges back from their bytes. -/
theorem idsOfRanges_flatMap (rs : List (UInt32 × UInt32)) :
    idsOfRanges (rs.flatMap idRangeBytes) = rs.flatMap fun r => countIds r.1 r.2 := by
  rw [idsOfRanges, length_flatMap_idRangeBytes, Nat.mul_div_cancel_left _ (by decide)]
  induction rs with
  | nil => rfl
  | cons r rs ih =>
    rw [List.length_cons, List.range_succ_eq_map, List.flatMap_cons, List.flatMap_map,
      List.flatMap_cons, List.flatMap_cons, Nat.mul_zero, idAt_first, idAt_second, ← ih]
    refine congrArg _ (List.flatMap_congr fun i _ => ?_)
    rw [Nat.mul_succ, Nat.add_comm, idAt_rest, Nat.add_assoc, idAt_rest]

/-- Each kind of id list survives the way to the client: the client gets the ids back, from a
whole number of ranges that are not empty, ascend, and leave a hole between each two. -/
theorem idsOfRanges_idListContent {ids : List UInt32} {top : UInt32}
    (htop : top = maxSegmentId ∨ top = maxClusterId ∨ top = maxBlobId)
    (hids : ids.Pairwise (· < ·)) (hle : ∀ id ∈ ids, id ≤ top) :
    idsOfRanges (idListContent ids) = ids ∧
      (∀ r ∈ intoIdRanges ids, r.1 < r.2) ∧ (intoIdRanges ids).Pairwise RangeBefore ∧
      (idListContent ids).length = 8 * (intoIdRanges ids).length := by
  have hlt : top < top + 1 := by
    rcases htop with rfl | rfl | rfl <;> decide
  have h := intoIdRanges_spec hids fun id hid => lt_of_le_of_lt (hle id hid) hlt
  have hlength : (idListContent ids).length = 8 * (intoIdRanges ids).length :=
    length_flatMap_idRangeBytes (intoIdRanges ids)
  exact ⟨(idsOfRanges_flatMap (intoIdRanges ids)).trans h.1, h.2.2, h.2.1, hlength⟩

/-- Ids with holes between them, up to the largest. -/
theorem idsOfRanges_idListContent_holes :
    idsOfRanges (idListContent [0, 1, 5, maxBlobId]) = [0, 1, 5, maxBlobId] := by
  have hle : ([0, 1, 5, maxBlobId].all fun id => decide (id ≤ maxBlobId)) = true := by decide
  simp only [List.all_eq_true, decide_eq_true_iff] at hle
  exact (idsOfRanges_idListContent (.inr (.inr rfl)) (by decide) hle).1

end BlobsDb
