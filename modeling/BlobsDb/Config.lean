import Mathlib.Order.Defs.LinearOrder
import Mathlib.Order.Basic

/-!
# Ids, reserved ids and locations

Segments, clusters and blobs are numbered by 32 bit ids. The ids above the maximal ones are
reserved: they name the locations that hold the next free ids, that stand for the deletion of a
segment or cluster, and that stand for the derived id lists.
-/

/-- 32 bit numbers in their usual order. -/
instance UInt32.instLinearOrder : LinearOrder UInt32 where
  le_refl a := UInt32.le_refl a
  le_trans _ _ _ := UInt32.le_trans
  lt_iff_le_not_ge a b := by grind
  le_antisymm _ _ := UInt32.le_antisymm
  le_total := UInt32.le_total
  toDecidableLE := inferInstance
  toDecidableEq := inferInstance
  toDecidableLT := inferInstance
  compare_eq_compareOfLessAndEq _ _ := rfl

namespace BlobsDb

abbrev SegmentId := UInt32
abbrev ClusterId := UInt32
abbrev BlobId := UInt32
abbrev CommitId := ℕ

/-- `client_id`: a 16 bit number. There are no more, so ids are used again. -/
def ClientId := UInt16
  deriving DecidableEq

namespace ClientId

instance (n : ℕ) : OfNat ClientId n := inferInstanceAs (OfNat UInt16 n)

def toNat (c : ClientId) : ℕ := UInt16.toNat c

/-- Another client. -/
def other (c : ClientId) : ClientId := UInt16.add c 1

theorem ne_other (c : ClientId) : c ≠ c.other :=
  have h (i : UInt16) : i ≠ i + 1 := by simp
  h c

end ClientId

def maxBlobId : BlobId := 0xffffffff - 0x100
def nextFreeBlobId : BlobId := maxBlobId + 1
def clusterDeleteId : BlobId := maxBlobId + 2
def blobListId : BlobId := maxBlobId + 3
def maxClusterId : ClusterId := 0xffffffff - 0x100
def nextFreeClusterId : ClusterId := maxClusterId + 1
def segmentDeleteId : ClusterId := maxClusterId + 2
def clusterListId : ClusterId := maxClusterId + 3
def maxSegmentId : SegmentId := 0xffffffff - 0x100
def nextFreeSegmentId : SegmentId := maxSegmentId + 1
def segmentListId : SegmentId := maxSegmentId + 2

/-- A place in the database, ordered by segment, then cluster, then blob. -/
structure BlobLocation where
  segment : SegmentId
  cluster : ClusterId
  blob : BlobId
  deriving DecidableEq, Repr

instance : Inhabited BlobLocation := ⟨⟨0, 0, 0⟩⟩

/-- One entry of a commit message: the place it writes and the data it writes there. Without
data the entry stands for the reserved blob size that deletes the blob. -/
structure BlobData extends BlobLocation where
  data : Option (List UInt8)
  deriving DecidableEq, Repr

end BlobsDb
