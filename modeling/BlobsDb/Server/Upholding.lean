import BlobsDb.Server.Deadlocks
import BlobsDb.Server.Holding

/-!
# Locks that stay

The lock of a client that is inside a transaction keeps others from theirs until the transaction
ends: whatever else the server does leaves it, and the tree of its database, alone (`Upholds`). Only
commits change trees, and those are treated elsewhere.
-/

open Relation (ReflTransGen)

namespace BlobsDb

namespace Server

variable {P : Permit} {s s' s'' : Server} {c x : ClientId} {name : DatabaseName}
  {od od' : OpenDatabase} {m q : BlobsRead} {b : Bool} {keeps keeps' : ClientId → Prop}

/-- The locks that some clients have inside their transactions keep others from theirs as before,
and the trees of their databases stay the same. -/
def Upholds (keeps : ClientId → Prop) (s s' : Server) : Prop :=
  ∀ name d w l x, keeps x → x ∈ (s.locks name).conflicts s.active d w l →
    s'.tree name = s.tree name ∧ x ∈ (s'.locks name).conflicts s'.active d w l

namespace Upholds

theorem refl (keeps : ClientId → Prop) (s : Server) : Upholds keeps s s :=
  fun _ _ _ _ _ _ h => ⟨rfl, h⟩

theorem trans (h : Upholds keeps s s') (h' : Upholds keeps s' s'') : Upholds keeps s s'' :=
  fun name d w l x hx hconflict => by
    obtain ⟨htree, hconflict⟩ := h name d w l x hx hconflict
    obtain ⟨htree', hconflict⟩ := h' name d w l x hx hconflict
    exact ⟨htree'.trans htree, hconflict⟩

theorem blockedBy (h : Upholds keeps s s') (hx : keeps x) (hq : s.BlockedBy name q x) :
    s'.BlockedBy name q x := by
  obtain ⟨t, ls, ht, hls, l, hl, hconflict⟩ := hq
  obtain ⟨htree, hconflict⟩ := h name _ _ l x hx hconflict
  exact ⟨t, ls, htree.trans ht, hls, l, hl, hconflict⟩

/-- Databases stay the same, and nobody's transaction ends. -/
theorem of_databases (hdatabases : s'.databases = s.databases)
    (hactive : ∀ x, keeps x → s.active x = true → s'.active x = true) : Upholds keeps s s' :=
  fun name d w l x hx hconflict => by
    refine ⟨by rw [tree, hdatabases, tree], ?_⟩
    rw [locks, hdatabases]
    exact LockBook.mem_conflicts_of_active hconflict
      (hactive x hx (LockBook.ne_of_mem_conflicts hconflict).2)

theorem setClient {client : Client} (htxn : client.hasTransaction = (s.clients c).hasTransaction) :
    Upholds keeps s (s.setClient c client) := by
  refine .of_databases rfl fun x _ hx => ?_
  rwa [active_setClient_of_eq htxn]

theorem setDatabase (hod : s.databases name = some od)
    (htree : od'.database.tree od'.database.snapshot = od.database.tree od.database.snapshot)
    (hlocks : ∀ d w l x, keeps x → x ∈ od.locks.conflicts s.active d w l →
      x ∈ od'.locks.conflicts s.active d w l) : Upholds keeps s (s.setDatabase name od') :=
  fun name' d w l x hx hconflict => by
    by_cases hne : name' = name
    · subst hne
      rw [locks_of_some hod] at hconflict
      refine ⟨by rw [tree_setDatabase_self, htree, tree_of_some hod], ?_⟩
      rw [locks_setDatabase_self]
      exact hlocks d w l x hx hconflict
    · refine ⟨tree_setDatabase_of_ne hne, ?_⟩
      rw [locks_setDatabase_of_ne hne]
      exact hconflict

end Upholds

theorem Steady.upholds (h : Steady s s') (keeps : ClientId → Prop) : Upholds keeps s s' :=
  fun name d w l x _ hconflict =>
    ⟨h.tree name, h.active ▸ h.conflicts name d w l x hconflict⟩

/-! ### Moves -/

/-- What changes in a database without commits and ends of transactions. -/
theorem Upholds.change (hod : s.databases name = some od) (hchange : od.Change .noEnds s name od')
    (hs : Healthy s) : Upholds keeps s (s.setDatabase name od') := by
  have hlocks : ∀ d w l x, keeps x → x ∈ od.locks.conflicts s.active d w l →
      x ∈ od.locks.conflicts s.active d w l := fun _ _ _ _ _ => id
  cases hchange with
  | used => exact .setDatabase hod rfl hlocks
  | queued => exact .setDatabase hod rfl hlocks
  | looked hp hl => exact .setDatabase hod (hs.tree_looked hod hp hl) hlocks
  | beganMVCC => exact .setDatabase hod rfl hlocks
  | endedMVCC hends => exact hends.elim
  | granted hends => exact hends.elim
  | gaveUp hends => exact hends.elim
  | released hactive hbook =>
    refine .setDatabase hod rfl fun d w l x _ hconflict => ?_
    refine LockBook.mem_conflicts_releaseAll hbook (fun hxc => ?_) hconflict
    have hx := (LockBook.ne_of_mem_conflicts hconflict).2
    rw [hxc, hactive] at hx
    cases hx
  | told => exact .setDatabase hod rfl hlocks
  | committed _ _ hpermit => exact hpermit.elim

theorem Move.upholds (hmove : Move .noEnds s s') (hs : Healthy s) (hlocks : LocksWF s) :
    Upholds keeps s s' := by
  cases hmove with
  | send => exact .of_databases rfl fun _ _ h => h
  | client hopen htxn => exact .setClient htxn
  | mode => exact .setClient rfl
  | @begun c =>
    refine .of_databases rfl fun x _ hx => ?_
    by_cases hxc : x = c
    · rw [hxc, active, clients_setClient_self]
    · rwa [active, clients_setClient_of_ne hxc]
  | ended hends => exact hends.elim
  | entered => exact .setClient rfl
  | left => exact .setClient rfl
  | @opened name' db hnone =>
    -- nobody has a lock yet
    intro name d w l x _ hconflict
    have hne : name ≠ name' := by
      rintro rfl
      rw [locks_of_none hnone] at hconflict
      exact absurd hconflict List.not_mem_nil
    refine ⟨tree_setDatabase_of_ne hne, ?_⟩
    rw [locks_setDatabase_of_ne hne]
    exact hconflict
  | @closed name' huse =>
    -- who has a lock still has the database open
    intro name d w l x _ hconflict
    have hheld := ((hlocks.agrees name).heldBy l x).mp (LockBook.heldBy_of_mem_conflicts hconflict)
    have hne : name ≠ name' := by
      rintro rfl
      exact huse x (hlocks.isOpen name x l hheld.1)
    have hdatabases : (s.closeDatabase name').databases name = s.databases name := by
      rw [closeDatabase_databases, Function.update_of_ne hne]
    refine ⟨by rw [tree, hdatabases, tree], ?_⟩
    rw [locks, hdatabases]
    refine LockBook.mem_conflicts_of_active hconflict ?_
    rw [active, closeDatabase_clients]
    exact (LockBook.ne_of_mem_conflicts hconflict).2
  | database hod hchange => exact .change hod hchange hs

theorem Moves.upholds (hmoves : Moves .noEnds s s') (hs : Healthy s) (hlocks : LocksWF s) :
    Upholds keeps s s' := by
  suffices hall : Upholds keeps s s' ∧ Healthy s' ∧ LocksWF s' from hall.1
  induction hmoves with
  | refl => exact ⟨.refl keeps s, hs, hlocks⟩
  | tail _ hmove ih =>
    obtain ⟨hupholds, hs₁, hlocks₁⟩ := ih
    have hmoves : Moves .noCommits _ _ := Moves.mono (.single hmove)
      ⟨fun _ _ => False.elim, False.elim, fun _ => trivial, id⟩
    exact ⟨hupholds.trans (hmove.upholds hs₁ hlocks₁), hmoves.healthy hs₁, hmoves.locksWF hlocks₁⟩

/-! ### The end of a transaction -/

theorem conflicts_leaveDatabase_of_ne {slot : DatabaseSlot} {active : ClientId → Bool}
    (h : leaveDatabase c b s slot = some s') (hx : x ≠ c) {d : ClientId} {w : Bool}
    {l : BlobLocation} (hconflict : x ∈ (s.locks name).conflicts active d w l) :
    x ∈ (s'.locks name).conflicts active d w l := by
  unfold leaveDatabase at h
  split at h
  · obtain rfl := Option.some.inj h
    exact hconflict
  · next name₁ hslot =>
    obtain ⟨od, od', hod, hod', rfl⟩ := updateDatabase_eq_some_iff.mp h
    obtain ⟨book, hbook, rfl⟩ := Option.map_eq_some_iff.mp hod'
    by_cases hne : name = name₁
    · subst hne
      rw [locks_of_some hod] at hconflict
      rw [locks_setDatabase_self]
      split_ifs at hbook
      · exact LockBook.mem_conflicts_releaseHeld hbook hx hconflict
      · exact Option.some.inj hbook ▸ hconflict
    · rwa [locks_setDatabase_of_ne hne]

theorem clientAbortTransaction_upholds (h : s.clientAbortTransaction c b = some s') :
    Upholds (· ≠ c) s s' := by
  obtain ⟨s₀, hleave, rfl⟩ := Option.map_eq_some_iff.mp h
  have hkept := (foldlM_leaveDatabase hleave).1
  intro name d w l x hx hconflict
  refine ⟨tree_foldlM_leaveDatabase hleave name, ?_⟩
  have hconflict₀ : x ∈ (s₀.locks name).conflicts s.active d w l :=
    foldlM_induction (P := fun s' => x ∈ (s'.locks name).conflicts s.active d w l) hleave hconflict
      fun _ _ _ _ hstep h1 => conflicts_leaveDatabase_of_ne hstep hx h1
  refine LockBook.mem_conflicts_of_active hconflict₀ ?_
  rw [active, clients_setClient_of_ne hx, hkept.clients]
  exact (LockBook.ne_of_mem_conflicts hconflict).2

theorem abortTransaction_upholds (h : s.abortTransaction c b = some s') (hwf : UsersWF s)
    (hs : Healthy s) : Upholds (· ≠ c) s s' := by
  cases hactive : s.active c with
  | false =>
    rw [abortTransaction, hactive] at h
    obtain rfl := Option.some.inj h
    exact .refl _ s
  | true =>
    rw [abortTransaction, if_pos hactive] at h
    split at h
    · cases h
    · next s₁ hs₁ =>
      have hmoves : Moves .noCommits s s₁ :=
        moves_clientAbortTransaction hs₁ hactive hwf hs trivial
      exact (clientAbortTransaction_upholds hs₁).trans
        ((foldlM_tryProcessQueuedReads_blocked h (hmoves.healthy hs)).1.upholds _)

end Server

end BlobsDb
