import BlobsDb.Server.Lookup
import BlobsDb.Server.Orderly

/-!
# What validation ensures

A validation only looks things up in the database (`looked_of_validate`).
-/

namespace BlobsDb

namespace Validation

variable {own : BlobLocation → Bool} {t : Tree 3} {v v' : Validation} {b : Bool}
  {l : BlobLocation} {u : BlobData} {us : List BlobData} {r : TransactionCommitResponse.Result}

/-! ### Validation looks things up -/

/-- A validation goes on: things are looked up. -/
def Goes (v v' : Validation) : Prop :=
  Database.Looked v.database.snapshot v.database v'.database

theorem Goes.refl (v : Validation) : v.Goes v := Database.Looked.refl _ _

theorem Goes.trans {v'' : Validation} (h : v.Goes v') (h' : v'.Goes v'') : v.Goes v'' := by
  have hs := Database.Looked.snapshot h
  unfold Goes at h h' ⊢
  rw [hs] at h'
  exact Database.Looked.trans h h'

theorem Goes.of_eq (h : v'.database = v.database) : v.Goes v' := by
  rw [Goes, h]
  exact Database.Looked.refl _ _

theorem load_eq_some {path : List UInt32} (h : v.load path = some v') :
    v'.created = v.created ∧ v.database.loadPath v.database.snapshot path = some v'.database := by
  unfold load at h
  split at h
  · cases h
  · next db hdb =>
    obtain rfl := Option.some.inj h
    exact ⟨rfl, hdb⟩

theorem goes_of_load {path : List UInt32} (h : v.load path = some v') : v.Goes v' :=
  Database.Looked.of_loadPath (load_eq_some h).2

theorem goes_of_mayWrite (h : mayWrite own t l v = some (b, v')) : v.Goes v' := by
  unfold mayWrite encompassesWithBlobCreation at h
  split_ifs at h
  · cases h
    exact Goes.refl _
  · cases h
    exact Goes.refl _
  · cases h
    exact Goes.of_eq rfl
  · split at h
    · cases h
    · next v₁ hload =>
      split at h
      · cases h
        exact goes_of_load hload
      · split_ifs at h
        · cases h
          exact goes_of_load hload
        · cases h
          exact (goes_of_load hload).trans (Goes.of_eq rfl)

theorem progress_goes : Progress (mayWrite own t) load Goes :=
  ⟨Goes.refl, fun _ _ _ => Goes.trans, fun _ _ _ _ => goes_of_mayWrite, fun _ _ _ => goes_of_load⟩

theorem goes_of_nextFreeSegmentIdWritten (h : nextFreeSegmentIdWritten t u v = (r, v')) :
    v.Goes v' := by
  unfold nextFreeSegmentIdWritten at h
  split_ifs at h
  · cases h
    exact Goes.refl _
  · split at h
    · cases h
      exact Goes.refl _
    · split_ifs at h <;> cases h <;> exact Goes.of_eq rfl

theorem goes_of_nextFreeClusterIdWritten (h : nextFreeClusterIdWritten t u v = some (r, v')) :
    v.Goes v' := by
  unfold nextFreeClusterIdWritten at h
  split_ifs at h
  · cases h
    exact Goes.refl _
  · split at h
    · cases h
    · next v₁ hload =>
      have hgoes := goes_of_load hload
      split at h
      · cases h
        exact hgoes
      · split at h
        · cases h
          exact hgoes
        · split_ifs at h <;> cases h <;> exact hgoes.trans (Goes.of_eq rfl)

/-- How the test of an entry that writes a next free blob id ends. It fails before or after the
segment was loaded, or it notes the id that is not below the one of the cluster. -/
theorem nextFreeBlobIdWritten_cases (h : nextFreeBlobIdWritten t u v = some (r, v')) :
    ∃ v₁ nextFreeId, (v₁ = v ∧ nextFreeId = 1 ∧ v.created.encompasses u.toBlobLocation = true ∨
        v.load [u.segment] = some v₁ ∧ (r = .success →
          ∃ p, v₁.database.heap.getObject v₁.database.snapshot [u.segment, u.cluster] = some p ∧
            nextFreeId = (v₁.database.heap.directories p).nextFreeId)) ∧
      (r ≠ .success ∧ v' = v₁ ∨
        ∃ id, r = .success ∧ writtenId u = some id ∧ nextFreeId ≤ id ∧ id ≤ maxBlobId + 1 ∧
          v' = { v₁ with created := v₁.created.nextFreeBlobIdCommitted u.segment u.cluster id }) := by
  unfold nextFreeBlobIdWritten at h
  dsimp only at h
  split_ifs at h with hin
  · refine ⟨v, 1, Or.inl ⟨rfl, rfl, hin⟩, ?_⟩
    split at h
    · cases h
      exact Or.inl ⟨by decide, rfl⟩
    · next id hid =>
      split_ifs at h with hbad
      · cases h
        exact Or.inl ⟨by decide, rfl⟩
      · cases h
        rw [not_or, not_lt, not_lt] at hbad
        exact Or.inr ⟨id, rfl, hid, hbad.1, hbad.2, rfl⟩
  · split at h
    · cases h
    · next v₁ hload =>
      split at h
      · cases h
        exact ⟨_, 0, Or.inr ⟨hload, by rintro ⟨⟩⟩, Or.inl ⟨by decide, rfl⟩⟩
      · split at h
        · cases h
          exact ⟨_, 0, Or.inr ⟨hload, by rintro ⟨⟩⟩, Or.inl ⟨by decide, rfl⟩⟩
        · next p hp =>
          refine ⟨v₁, _, Or.inr ⟨hload, fun _ => ⟨p, hp, rfl⟩⟩, ?_⟩
          split at h
          · cases h
            exact Or.inl ⟨by decide, rfl⟩
          · next id hid =>
            split_ifs at h with hbad
            · cases h
              exact Or.inl ⟨by decide, rfl⟩
            · cases h
              rw [not_or, not_lt, not_lt] at hbad
              exact Or.inr ⟨id, rfl, hid, hbad.1, hbad.2, rfl⟩

theorem goes_of_nextFreeBlobIdWritten (h : nextFreeBlobIdWritten t u v = some (r, v')) :
    v.Goes v' := by
  obtain ⟨v₁, _, hv₁, hv'⟩ := nextFreeBlobIdWritten_cases h
  have hgoes : v.Goes v₁ := by
    rcases hv₁ with ⟨rfl, -⟩ | ⟨hload, -⟩
    · exact Goes.refl _
    · exact goes_of_load hload
  rcases hv' with ⟨-, rfl⟩ | ⟨_, -, -, -, -, rfl⟩
  · exact hgoes
  · exact hgoes.trans (Goes.of_eq rfl)

theorem goes_of_validateBlob (h : validateBlob own t u v = some (r, v')) : v.Goes v' := by
  unfold validateBlob at h
  split at h
  · cases h
  · next v₁ hlocks =>
    cases h
    exact (allLocksForLocation_spec progress_goes hlocks).1
  · next v₁ hlocks =>
    have hgoes := (allLocksForLocation_spec progress_goes hlocks).1
    split_ifs at h
    · cases h
      exact hgoes
    · cases h
      exact hgoes
    · exact hgoes.trans (goes_of_nextFreeSegmentIdWritten (Option.some.inj h))
    · exact hgoes.trans (goes_of_nextFreeClusterIdWritten h)
    · exact hgoes.trans (goes_of_nextFreeBlobIdWritten h)
    · cases h
      exact hgoes

theorem goes_of_validateBlobs (h : validateBlobs own t us v = some (r, v')) : v.Goes v' := by
  induction us generalizing v with
  | nil =>
    cases h
    exact Goes.refl _
  | cons u us ih =>
    rw [validateBlobs] at h
    split at h
    · cases h
    · next v₁ hu => exact (goes_of_validateBlob hu).trans (ih h)
    · next r₁ hne hu =>
      cases h
      exact goes_of_validateBlob hu

theorem goes_of_validateMessages {mvcc : Bool} {ms : List TransactionCommit}
    (h : validateMessages own t mvcc ms v = some (r, v')) : v.Goes v' := by
  induction ms generalizing v with
  | nil =>
    cases h
    exact Goes.refl _
  | cons m ms ih =>
    rw [validateMessages] at h
    split_ifs at h
    · cases h
      exact Goes.refl _
    · split at h
      · cases h
      · next v₁ hm => exact (goes_of_validateBlobs hm).trans (ih h)
      · next r₁ hne hm =>
        cases h
        exact goes_of_validateBlobs hm

end Validation

/-- Validating looks things up. -/
theorem Database.looked_of_validate {db db' : Database} {own : BlobLocation → Bool} {mvcc : Bool}
    {ms : List TransactionCommit} {r : TransactionCommitResponse.Result} {ls : List BlobLocation}
    (h : db.validateCommitMessages own mvcc ms = some (r, db', ls)) :
    Database.Looked db.snapshot db db' := by
  unfold validateCommitMessages at h
  split at h
  · cases h
  · split at h
    · cases h
    · next v hv =>
      cases h
      exact Validation.goes_of_validateMessages hv

end BlobsDb
