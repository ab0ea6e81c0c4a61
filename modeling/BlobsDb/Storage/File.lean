import BlobsDb.ForMathlib.Extent
import Mathlib.Data.List.Perm.Subperm

/-!
# Files

A file is a size and the bytes before it. Reads that reach past the end have no answer: the
read loop of the file backend only ends once it was given every byte it asked for. Writes grow
the file when they reach past its end.

Writes may stay in the buffers of the operating system until the next flush. A stop before the
flush leaves some of them on the disk and loses the others, and those that arrive do so in any
order (`Persists`).
-/

namespace BlobsDb

/-- Where a block lies in the file. -/
abbrev BlockReference := Extent

/-- A file: how long it is, and its bytes. -/
structure FileContent where
  size : ℕ
  byte : ℕ → UInt8

/-- A write of some bytes at a file position. -/
structure FileWrite where
  offset : ℕ
  bytes : List UInt8

/-- The part of the file a write covers. -/
def FileWrite.extent (w : FileWrite) : Extent := ⟨w.offset, w.bytes.length⟩

namespace FileContent

/-- The bytes of a block, unless the file ends before the block does. -/
def readIntoMemory (f : FileContent) (r : BlockReference) : Option (List UInt8) :=
  if r.endOffset ≤ f.size then some ((List.range r.size).map fun i => f.byte (r.offset + i))
  else none

/-- The file after a write. -/
def writeFromMemory (f : FileContent) (w : FileWrite) : FileContent where
  size := if w.bytes = [] then f.size else max f.size (w.offset + w.bytes.length)
  byte i := if w.offset ≤ i ∧ i < w.offset + w.bytes.length then w.bytes.getD (i - w.offset) 0
    else f.byte i

/-- The file after several writes. -/
def writeAll (f : FileContent) (ws : List FileWrite) : FileContent := ws.foldl writeFromMemory f

/-- `g` is what the disk may hold when the machine stops after the writes `ws` to `f` were
issued but not yet flushed. -/
def Persists (f : FileContent) (ws : List FileWrite) (g : FileContent) : Prop :=
  ∃ ws' : List FileWrite, ws'.Subperm ws ∧ g = f.writeAll ws'

theorem length_readIntoMemory {f : FileContent} {r : BlockReference} {l : List UInt8}
    (h : f.readIntoMemory r = some l) : l.length = r.size := by
  unfold readIntoMemory at h
  split_ifs at h
  cases h
  simp

theorem size_le_writeFromMemory (f : FileContent) (w : FileWrite) :
    f.size ≤ (f.writeFromMemory w).size := by
  simp only [writeFromMemory]
  split_ifs <;> simp

/-- A write leaves blocks it does not meet as they are. -/
theorem readIntoMemory_writeFromMemory_of_apart {f : FileContent} {w : FileWrite}
    {r : BlockReference} {l : List UInt8} (h : f.readIntoMemory r = some l)
    (hr : Disjoint w.extent.positions r.positions) :
    (f.writeFromMemory w).readIntoMemory r = some l := by
  unfold readIntoMemory at h ⊢
  split_ifs at h with hsize
  cases h
  rw [if_pos (hsize.trans (size_le_writeFromMemory f w))]
  refine congrArg some (List.map_congr_left fun i hi => ?_)
  have hmem : r.offset + i ∈ r.positions :=
    Extent.mem_positions.mpr ⟨by omega, by have := List.mem_range.mp hi; omega⟩
  have hnot : r.offset + i ∉ w.extent.positions := Set.disjoint_right.mp hr hmem
  simp only [writeFromMemory]
  exact if_neg hnot

/-- A block reads back as it was written. -/
theorem readIntoMemory_writeFromMemory (f : FileContent) (w : FileWrite) (hw : w.bytes ≠ []) :
    (f.writeFromMemory w).readIntoMemory w.extent = some w.bytes := by
  have hsize : w.extent.endOffset ≤ (f.writeFromMemory w).size := by
    simp [writeFromMemory, hw, FileWrite.extent, Extent.endOffset]
  rw [readIntoMemory, if_pos hsize]
  refine congrArg some (List.ext_getElem (by simp [FileWrite.extent]) fun i hi hi' => ?_)
  simp [writeFromMemory, FileWrite.extent, hi']

/-- A part of what was written at the start of the file. -/
theorem readIntoMemory_writeFromMemory_append (f : FileContent) (a b c : List UInt8)
    (hb : b ≠ []) :
    (f.writeFromMemory ⟨0, a ++ (b ++ c)⟩).readIntoMemory ⟨a.length, b.length⟩ = some b := by
  have hsize : a.length + b.length ≤ (f.writeFromMemory ⟨0, a ++ (b ++ c)⟩).size := by
    simp only [writeFromMemory, List.append_eq_nil_iff, hb, false_and, and_false, if_false,
      List.length_append]
    omega
  rw [readIntoMemory, if_pos (show (⟨a.length, b.length⟩ : BlockReference).endOffset ≤ _ from hsize)]
  refine congrArg some (List.ext_getElem (by simp) fun i hi hi' => ?_)
  simp only [List.getElem_map, List.getElem_range, writeFromMemory, Nat.zero_le, true_and,
    Nat.zero_add, List.length_append, Nat.sub_zero]
  have hlt : a.length + i < (a ++ (b ++ c)).length := by
    simp only [List.length_append]
    omega
  rw [if_pos (by omega), ← List.getElem_eq_getD (h := hlt),
    List.getElem_append_right (Nat.le_add_right _ _)]
  simp only [Nat.add_sub_cancel_left]
  exact List.getElem_append_left hi'

theorem readIntoMemory_writeAll_of_apart {f : FileContent} {ws : List FileWrite}
    {r : BlockReference} {l : List UInt8} (h : f.readIntoMemory r = some l)
    (hr : ∀ w ∈ ws, Disjoint w.extent.positions r.positions) :
    (f.writeAll ws).readIntoMemory r = some l := by
  induction ws generalizing f with
  | nil => exact h
  | cons w ws ih =>
    exact ih (readIntoMemory_writeFromMemory_of_apart h (hr w List.mem_cons_self))
      fun w' hw' => hr w' (List.mem_cons_of_mem _ hw')

/-- Of several writes that do not meet, each block reads back as it was written. -/
theorem readIntoMemory_writeAll_of_mem {f : FileContent} {ws : List FileWrite}
    (hne : ∀ w ∈ ws, w.bytes ≠ [])
    (hd : ws.Pairwise fun a b => Disjoint a.extent.positions b.extent.positions)
    {w : FileWrite} (hw : w ∈ ws) :
    (f.writeAll ws).readIntoMemory w.extent = some w.bytes := by
  induction ws generalizing f with
  | nil => cases hw
  | cons a ws ih =>
    obtain ⟨ha, hws⟩ := List.pairwise_cons.mp hd
    rcases List.mem_cons.mp hw with rfl | hw
    · exact readIntoMemory_writeAll_of_apart (f := f.writeFromMemory w)
        (readIntoMemory_writeFromMemory f w (hne w List.mem_cons_self))
        fun b hb => (ha b hb).symm
    · exact ih (fun b hb => hne b (List.mem_cons_of_mem _ hb)) hws hw

/-- What a stop leaves of writes that do not meet a block still has the block. -/
theorem Persists.readIntoMemory {f g : FileContent} {ws : List FileWrite}
    (h : f.Persists ws g) {r : BlockReference} {l : List UInt8}
    (hl : f.readIntoMemory r = some l)
    (hr : ∀ w ∈ ws, Disjoint w.extent.positions r.positions) :
    g.readIntoMemory r = some l := by
  obtain ⟨ws', hsub, rfl⟩ := h
  exact readIntoMemory_writeAll_of_apart hl fun w hw => hr w (hsub.subset hw)

end FileContent

end BlobsDb
