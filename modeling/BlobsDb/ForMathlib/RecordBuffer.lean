import Mathlib.Data.List.Basic
import Mathlib.Tactic.Ring

/-!
# Buffers of records and their data

A buffer is a list of bytes that is read and written in place; what lies outside of it has no
answer. A table of records of a fixed width may be followed by the data of the records, one after
the other. Such a buffer is walked by a cursor with two positions, the one of a record and the one
of its data; how far the second one moves is told by the record (`RecordFormat`).

Records that were written with a cursor are read back with a cursor (`RecordFormat.readAll_append`),
also when other data follows.
-/

variable {b b' bytes P S l : List UInt8} {n offset : ℕ}

/-- Bytes of a buffer. -/
def readBytes (b : List UInt8) (offset n : ℕ) : Option (List UInt8) :=
  if offset + n ≤ b.length then some ((b.drop offset).take n) else none

/-- The buffer with other bytes at an offset. -/
def writeBytes (b : List UInt8) (offset : ℕ) (bytes : List UInt8) : Option (List UInt8) :=
  if offset + bytes.length ≤ b.length then
    some (b.take offset ++ bytes ++ b.drop (offset + bytes.length))
  else none

/-- Writing replaces the bytes that were there. -/
theorem writeBytes_append (hl : l.length = bytes.length) :
    writeBytes (P ++ l ++ S) P.length bytes = some (P ++ bytes ++ S) := by
  have hlen : P.length + bytes.length ≤ (P ++ l ++ S).length := by
    simp only [List.length_append]
    omega
  have htake : (P ++ l ++ S).take P.length = P := by rw [List.append_assoc, List.take_left]
  have hdrop : (P ++ l ++ S).drop (P.length + bytes.length) = S :=
    List.drop_left' (by rw [List.length_append, hl])
  rw [writeBytes, if_pos hlen, htake, hdrop]

theorem writeBytes_append' (hoffset : P.length = offset) (hl : l.length = bytes.length) :
    writeBytes (P ++ l ++ S) offset bytes = some (P ++ bytes ++ S) := by
  subst hoffset
  exact writeBytes_append hl

theorem readBytes_append : readBytes (P ++ l ++ S) P.length l.length = some l := by
  have hlen : P.length + l.length ≤ (P ++ l ++ S).length := by
    simp only [List.length_append]
    omega
  rw [readBytes, if_pos hlen, List.append_assoc, List.drop_left, List.take_left]

theorem readBytes_append' (hoffset : P.length = offset) (hn : l.length = n) :
    readBytes (P ++ l ++ S) offset n = some l := by
  subst hoffset hn
  exact readBytes_append

theorem length_of_writeBytes (h : writeBytes b offset bytes = some b') :
    b'.length = b.length := by
  unfold writeBytes at h
  split_ifs at h with hle
  obtain rfl := Option.some_inj.mp h
  simp only [List.length_append, List.length_take, List.length_drop]
  omega

theorem exists_writeBytes (h : offset + bytes.length ≤ b.length) :
    ∃ b', writeBytes b offset bytes = some b' ∧
      b'.take (offset + bytes.length) = b.take offset ++ bytes := by
  refine ⟨_, if_pos h, List.take_left' ?_⟩
  rw [List.length_append, List.length_take, min_eq_left (by omega)]

/-- A table of records, followed by their data: how wide a record is, and how much data belongs to
it. -/
structure RecordFormat where
  width : ℕ
  dataLength : List UInt8 → ℕ

namespace RecordFormat

/-- The positions of a record and of its data. -/
structure Cursor where
  header : ℕ
  dataPos : ℕ

/-- A record and its data. -/
abbrev Record := List UInt8 × List UInt8

variable {F : RecordFormat}

/-- The record tells how much data it has. -/
def Fits (F : RecordFormat) (r : Record) : Prop :=
  r.1.length = F.width ∧ F.dataLength r.1 = r.2.length

/-- Goes to the next record. -/
def next (F : RecordFormat) (b : List UInt8) (c : Cursor) : Option Cursor :=
  (readBytes b c.header F.width).map fun header =>
    ⟨c.header + F.width, c.dataPos + F.dataLength header⟩

/-- Writes a record, and then as much of the data as the record tells. -/
def write (F : RecordFormat) (b : List UInt8) (c : Cursor) (r : Record) : Option (List UInt8) :=
  (writeBytes b c.header r.1).bind fun b =>
    writeBytes b c.dataPos (r.2.take (F.dataLength r.1))

/-- Writes one record after the other. -/
def writeAll (F : RecordFormat) (b : List UInt8) (c : Cursor) :
    List Record → Option (List UInt8 × Cursor)
  | [] => some (b, c)
  | r :: rs =>
    (F.write b c r).bind fun b => (F.next b c).bind fun c => F.writeAll b c rs

/-- Reads a record and its data. -/
def read (F : RecordFormat) (b : List UInt8) (c : Cursor) : Option Record :=
  (readBytes b c.header F.width).bind fun header =>
    (readBytes b c.dataPos (F.dataLength header)).map fun data => (header, data)

/-- Reads so many records. -/
def readAll (F : RecordFormat) (b : List UInt8) : ℕ → Cursor → Option (List Record)
  | 0, _ => some []
  | n + 1, c =>
    (F.read b c).bind fun r =>
      (F.next b c).bind fun c => (F.readAll b n c).map fun rs => r :: rs

theorem length_flatMap_header {rs : List Record} (hrs : ∀ r ∈ rs, F.Fits r) :
    (rs.flatMap Prod.fst).length = F.width * rs.length := by
  induction rs with
  | nil => rfl
  | cons r rs ih =>
    rw [List.flatMap_cons, List.length_append, (hrs r List.mem_cons_self).1,
      ih fun r' hr' => hrs r' (List.mem_cons_of_mem _ hr'), List.length_cons]
    ring

/-- One record is written, where the buffer has a place for it and for its data. -/
theorem write_append {H D header data : List UInt8} {r : Record} {c : Cursor} (hr : F.Fits r)
    (hheader : header.length = F.width) (hdata : data.length = r.2.length)
    (hc : c = ⟨P.length, (P ++ header ++ H ++ D).length⟩) :
    F.write (P ++ header ++ H ++ D ++ data ++ S) c r =
      some (P ++ r.1 ++ H ++ D ++ r.2 ++ S) := by
  subst hc
  have h1 : writeBytes (P ++ header ++ H ++ D ++ data ++ S) P.length r.1 =
      some (P ++ r.1 ++ H ++ D ++ data ++ S) := by
    have h := writeBytes_append (P := P) (S := H ++ D ++ data ++ S) (hheader.trans hr.1.symm)
    simpa only [List.append_assoc] using h
  have hlen : (P ++ header ++ H ++ D).length = (P ++ r.1 ++ H ++ D).length := by
    simp only [List.length_append, hheader, hr.1]
  rw [write, h1, Option.bind_some, hr.2, List.take_length]
  dsimp only
  rw [hlen]
  exact writeBytes_append hdata

theorem next_append {header : List UInt8} {c : Cursor} (hc : c.header = P.length)
    (hheader : header.length = F.width) :
    F.next (P ++ header ++ S) c = some ⟨c.header + F.width, c.dataPos + F.dataLength header⟩ := by
  rw [next, readBytes_append' hc.symm hheader]
  rfl

/-- Records are written where the buffer has a place for them and for their data. -/
theorem writeAll_append {H D B : List UInt8} {rs : List Record} {c : Cursor}
    (hrs : ∀ r ∈ rs, F.Fits r) (hH : H.length = F.width * rs.length)
    (hB : B.length = (rs.flatMap Prod.snd).length)
    (hc : c = ⟨P.length, (P ++ H ++ D).length⟩) :
    F.writeAll (P ++ H ++ D ++ B ++ S) c rs =
      some (P ++ rs.flatMap Prod.fst ++ D ++ rs.flatMap Prod.snd ++ S,
        ⟨(P ++ H).length, (P ++ H ++ D ++ B).length⟩) := by
  induction rs generalizing P H D B c with
  | nil =>
    obtain rfl : H = [] := List.length_eq_zero_iff.mp hH
    obtain rfl : B = [] := List.length_eq_zero_iff.mp hB
    subst hc
    simp [writeAll]
  | cons r rs ih =>
    have hr := hrs r List.mem_cons_self
    rw [List.length_cons, Nat.mul_succ] at hH
    rw [List.flatMap_cons, List.length_append] at hB
    -- the places of the first record and of its B are split off
    obtain ⟨header, H, rfl, hheader⟩ : ∃ header H', H = header ++ H' ∧ header.length = F.width :=
      ⟨H.take F.width, H.drop F.width, (List.take_append_drop _ _).symm,
        List.length_take_of_le (by omega)⟩
    obtain ⟨B₁, B, rfl, hB₁⟩ : ∃ d d', B = d ++ d' ∧ d.length = r.2.length :=
      ⟨B.take r.2.length, B.drop r.2.length, (List.take_append_drop _ _).symm,
        List.length_take_of_le (by omega)⟩
    have hwrite := write_append (P := P) (H := H) (D := D) (S := B ++ S) hr hheader hB₁
      (c := c) (by rw [hc]; simp only [List.append_assoc])
    have hnext := next_append (P := P) (F := F) (S := H ++ D ++ r.2 ++ (B ++ S)) (c := c)
      (by rw [hc]) hr.1
    have ih := ih (P := P ++ r.1) (H := H) (D := D ++ r.2) (B := B)
      (c := ⟨c.header + F.width, c.dataPos + F.dataLength r.1⟩)
      (fun r' hr' => hrs r' (List.mem_cons_of_mem _ hr'))
      (by rw [List.length_append] at hH; omega)
      (by rw [List.length_append] at hB; omega)
      (by
        rw [hc, hr.2]
        simp only [List.length_append, hheader, hr.1]
        congr 1
        omega)
    simp only [List.append_assoc] at hwrite hnext ih ⊢
    rw [writeAll, hwrite, Option.bind_some, hnext, Option.bind_some, ih]
    simp only [List.flatMap_cons, List.append_assoc, List.length_append, hheader, hr.1, hB₁]

/-- The records are read back. -/
theorem readAll_append {D : List UInt8} {rs : List Record} {c : Cursor}
    (hrs : ∀ r ∈ rs, F.Fits r)
    (hc : c = ⟨P.length, (P ++ rs.flatMap Prod.fst ++ D).length⟩) :
    F.readAll (P ++ rs.flatMap Prod.fst ++ D ++ rs.flatMap Prod.snd ++ S) rs.length c =
      some rs := by
  induction rs generalizing P D c with
  | nil => rfl
  | cons r rs ih =>
    have hr := hrs r List.mem_cons_self
    have hread : F.read (P ++ r.1 ++ (rs.flatMap Prod.fst ++ D ++ r.2 ++
        (rs.flatMap Prod.snd ++ S))) c = some r := by
      have h1 : readBytes (P ++ r.1 ++ (rs.flatMap Prod.fst ++ D ++ r.2 ++
          (rs.flatMap Prod.snd ++ S))) c.header F.width = some r.1 :=
        readBytes_append' (by rw [hc]) hr.1
      have h2 : readBytes (P ++ r.1 ++ rs.flatMap Prod.fst ++ D ++ r.2 ++
          (rs.flatMap Prod.snd ++ S)) c.dataPos (F.dataLength r.1) = some r.2 :=
        readBytes_append' (by rw [hc]; simp only [List.flatMap_cons, List.append_assoc]) hr.2.symm
      simp only [List.append_assoc] at h1 h2 ⊢
      rw [read, h1, Option.bind_some, h2]
      rfl
    have hnext := next_append (P := P) (F := F) (c := c)
      (S := rs.flatMap Prod.fst ++ D ++ r.2 ++ (rs.flatMap Prod.snd ++ S)) (by rw [hc]) hr.1
    have ih := ih (P := P ++ r.1) (D := D ++ r.2)
      (c := ⟨c.header + F.width, c.dataPos + F.dataLength r.1⟩)
      (fun r' hr' => hrs r' (List.mem_cons_of_mem _ hr'))
      (by
        rw [hc, hr.2]
        simp only [List.flatMap_cons, List.length_append, hr.1]
        congr 1
        omega)
    simp only [List.flatMap_cons, List.append_assoc, List.length_cons] at hread hnext ih ⊢
    rw [readAll, hread, Option.bind_some, hnext, Option.bind_some, ih]
    rfl

end RecordFormat
