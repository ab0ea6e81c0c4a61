import BlobsDb.ClientLib.Committing
import BlobsDb.Network.Messages
import Mathlib.Algebra.Order.BigOperators.Group.List

/-!
# Sticky locks

Between transactions a client keeps its locks, and the server may take them away. When the next
transaction begins, the client is told of each database either what it still has or what it lost,
whichever is shorter.

A client that upgraded a lock has the location among those it may read and among those it may
write; the latter counts. When it is told what it still has, it looks for the location in the first
list only (`HeldLocks.updateLocks`), and takes its lock for a read lock from then on. Telling what
was lost has no such effect.
-/

namespace BlobsDb

/-! ### The message -/

namespace TransactionBeginResponse

/-- `DatabaseStickyLocks`: the database, whether the locks are kept, how many there are, and the
locks. -/
def encodeStickyLocks (e : DatabaseStickyLocks) : List UInt8 :=
  .ofNat e.databaseId :: ofBool e.keep ::
    (leBytes 2 e.locks.length ++ e.locks.flatMap encodeLocation)

/-- The message that `ConstructTransactionBeginResponse` fills in. -/
def encode (raw : ℕ → UInt8) (es : List DatabaseStickyLocks) : List UInt8 :=
  messageHeader raw (12 + 4 * es.length + 12 * (es.map fun e => e.locks.length).sum) 7 ++
    [0, raw 9, raw 10, raw 11] ++ es.flatMap encodeStickyLocks

/-- The first `n` locations and what follows them. -/
def takeLocations : ℕ → List UInt8 → Option (List BlobLocation × List UInt8)
  | 0, l => some ([], l)
  | n + 1, l =>
    if 12 ≤ l.length then
      (takeLocations n (l.drop 12)).map fun r => (decodeLocation l :: r.1, r.2)
    else none

/-- The sections of the message; a section that goes beyond the end has no answer. -/
def decodeStickyLocks : ℕ → List UInt8 → Option (List DatabaseStickyLocks)
  | _, [] => some []
  | n + 1, databaseId :: keep :: l =>
    (takeNat 2 l).bind fun nLocks =>
      (takeLocations nLocks.1 nLocks.2).bind fun locks =>
        (decodeStickyLocks n locks.2).map fun es =>
          ⟨databaseId.toNat, keep != 0, locks.1⟩ :: es
  | _, _ => none

/-- What the client reads, from the first section up to the end of the message. -/
def decode (b : List UInt8) : Option (List DatabaseStickyLocks) :=
  let size := leNat (b.take 4)
  decodeStickyLocks size ((b.take size).drop 12)

variable {raw : ℕ → UInt8} {e : DatabaseStickyLocks} {es : List DatabaseStickyLocks} {n : ℕ}

theorem length_flatMap_encodeLocation (ls : List BlobLocation) :
    (ls.flatMap encodeLocation).length = 12 * ls.length := by
  induction ls with
  | nil => rfl
  | cons l ls ih =>
    rw [List.flatMap_cons, List.length_append, length_encodeLocation, ih, List.length_cons]
    ring

theorem length_flatMap_encodeStickyLocks (es : List DatabaseStickyLocks) :
    (es.flatMap encodeStickyLocks).length =
      4 * es.length + 12 * (es.map fun e => e.locks.length).sum := by
  induction es with
  | nil => rfl
  | cons e es ih =>
    rw [List.flatMap_cons, List.length_append, ih, encodeStickyLocks, List.length_cons,
      List.length_cons, List.length_append, length_leBytes, length_flatMap_encodeLocation,
      List.map_cons, List.sum_cons, List.length_cons]
    ring

/-- Locations are read back as they were written. -/
theorem takeLocations_append (ls : List BlobLocation) (l : List UInt8) :
    takeLocations ls.length (ls.flatMap encodeLocation ++ l) = some (ls, l) := by
  induction ls with
  | nil => rfl
  | cons x ls ih =>
    rw [List.length_cons, takeLocations, List.flatMap_cons, List.append_assoc, if_pos (by simp),
      List.drop_left' (length_encodeLocation x), ih, decodeLocation_encodeLocation_append]
    rfl

/-- The number of the database and the number of locks fit their fields. -/
def Fits (e : DatabaseStickyLocks) : Prop := e.databaseId < 256 ∧ e.locks.length < 2 ^ 16

/-- The sticky locks of the databases are read back as they were written. -/
theorem decodeStickyLocks_flatMap (hes : ∀ e ∈ es, Fits e) (hn : es.length ≤ n) :
    decodeStickyLocks n (es.flatMap encodeStickyLocks) = some es := by
  induction es generalizing n with
  | nil => cases n <;> rfl
  | cons e es ih =>
    obtain ⟨n, rfl⟩ : ∃ m, n = m + 1 := ⟨n - 1, by rw [List.length_cons] at hn; omega⟩
    have he := hes e List.mem_cons_self
    rw [List.flatMap_cons, encodeStickyLocks, List.cons_append, List.cons_append,
      List.append_assoc, decodeStickyLocks, takeNat_leBytes_append (he.2.trans_eq (by norm_num)),
      Option.bind_some, takeLocations_append, Option.bind_some,
      ih (fun e' he' => hes e' (List.mem_cons_of_mem _ he')) (by rw [List.length_cons] at hn; omega),
      Option.map_some, ofBool_bne, UInt8.toNat_ofNat_of_lt' he.1]

/-- The message is read as it was written. -/
theorem decode_encode (hes : ∀ e ∈ es, Fits e)
    (hsize : 12 + 4 * es.length + 12 * (es.map fun e => e.locks.length).sum < 2 ^ 32) :
    decode (encode raw es) = some es := by
  set size := 12 + 4 * es.length + 12 * (es.map fun e => e.locks.length).sum with hsizeEq
  have hlength : (encode raw es).length = size := by
    rw [encode, List.length_append, List.length_append, length_messageHeader,
      length_flatMap_encodeStickyLocks, hsizeEq]
    simp only [List.length_cons, List.length_nil]
    omega
  have htake : leNat ((encode raw es).take 4) = size := by
    rw [encode, List.append_assoc, take_messageHeader,
      leNat_leBytes_of_lt (hsize.trans_eq (by norm_num))]
  have hdrop : (encode raw es).drop 12 = es.flatMap encodeStickyLocks := by
    rw [encode]
    exact List.drop_left' (by simp)
  rw [decode, htake, List.take_of_length_le hlength.le, hdrop]
  exact decodeStickyLocks_flatMap hes (by omega)

end TransactionBeginResponse

/-! ### The client -/

namespace ClientLib

namespace HeldLocks

variable {locks : HeldLocks} {l : BlobLocation} {ls : List BlobLocation}

/-- `GetLockType`: a location that can be read and written is write locked. -/
def getLockType (locks : HeldLocks) (l : BlobLocation) : LockMode :=
  if (locks.write.find l).isSome then .write
  else if (locks.read.find l).isSome then .read
  else .none

/-- Keeps the lock on a location, which was among all locks. -/
def keepLock (allLocks locks : HeldLocks) (l : BlobLocation) : HeldLocks :=
  if (allLocks.read.find l).isSome then { locks with read := locks.read.insert l () }
  else if (allLocks.write.find l).isSome then { locks with write := locks.write.insert l () }
  else locks

/-- `UpdateLocks`: keeps some locks and no others, or erases some locks. -/
def updateLocks (locks : HeldLocks) (keep : Bool) (ls : List BlobLocation) : HeldLocks :=
  if keep then ls.foldl (keepLock locks) empty
  else ls.foldl (fun locks l => ⟨locks.read.erase l, locks.write.erase l⟩) locks

/-- The location is among those that can be read and among those that can be written. -/
def Upgraded (locks : HeldLocks) (l : BlobLocation) : Prop :=
  (locks.read.find l).isSome = true ∧ (locks.write.find l).isSome = true

/-- What keeping locks one after another leaves: those of them that were held, and what was kept
before. -/
theorem find_foldl_keepLock (allLocks locks : HeldLocks) (ls : List BlobLocation)
    (l : BlobLocation) :
    (((ls.foldl (keepLock allLocks) locks).read.find l).isSome = true ↔
        (locks.read.find l).isSome = true ∨ l ∈ ls ∧ (allLocks.read.find l).isSome = true) ∧
      (((ls.foldl (keepLock allLocks) locks).write.find l).isSome = true ↔
        (locks.write.find l).isSome = true ∨ l ∈ ls ∧ (allLocks.read.find l).isSome = false ∧
          (allLocks.write.find l).isSome = true) := by
  induction ls generalizing locks with
  | nil => simp
  | cons x ls ih =>
    obtain ⟨h1, h2⟩ := ih (keepLock allLocks locks x)
    rw [List.foldl_cons, h1, h2, keepLock]
    by_cases hxl : l = x
    · subst hxl
      split_ifs <;> simp_all
    · split_ifs <;> simp [FlatMap.find_insert, hxl]

/-- What releasing locks one after another leaves. -/
theorem find_foldl_erase (locks : HeldLocks) (ls : List BlobLocation) (l : BlobLocation) :
    let locks' := ls.foldl (fun locks l => ⟨locks.read.erase l, locks.write.erase l⟩) locks
    locks'.read.find l = (if l ∈ ls then none else locks.read.find l) ∧
      locks'.write.find l = (if l ∈ ls then none else locks.write.find l) := by
  induction ls generalizing locks with
  | nil => exact ⟨rfl, rfl⟩
  | cons x ls ih =>
    obtain ⟨h1, h2⟩ := ih ⟨locks.read.erase x, locks.write.erase x⟩
    dsimp only at h1 h2 ⊢
    rw [List.foldl_cons, h1, h2, FlatMap.find_erase, FlatMap.find_erase]
    by_cases hxl : l = x <;> by_cases hls : l ∈ ls <;> simp [hxl, hls]

/-- Erasing keeps the other locks as they are. -/
theorem getLockType_updateLocks_false :
    (locks.updateLocks false ls).getLockType l =
      if l ∈ ls then .none else locks.getLockType l := by
  obtain ⟨h1, h2⟩ := find_foldl_erase locks ls l
  rw [updateLocks, if_neg (by simp), getLockType, h1, h2]
  split_ifs with h <;> simp_all [getLockType]

/-- Keeping gives a read lock where a lock was upgraded. -/
theorem getLockType_updateLocks_true :
    (locks.updateLocks true ls).getLockType l =
      if l ∉ ls then .none else if (locks.read.find l).isSome then .read else
        locks.getLockType l := by
  obtain ⟨h1, h2⟩ := find_foldl_keepLock locks empty ls l
  have hempty : ((empty.read : FlatSet BlobLocation).find l).isSome = false ∧
      ((empty.write : FlatSet BlobLocation).find l).isSome = false := ⟨rfl, rfl⟩
  rw [hempty.1] at h1
  rw [hempty.2] at h2
  rw [updateLocks, if_pos rfl, getLockType]
  simp only [Bool.false_eq_true, false_or] at h1 h2
  rw [if_congr h2 rfl (if_congr h1 rfl rfl)]
  by_cases hl : l ∈ ls <;> cases hread : (locks.read.find l).isSome <;>
    cases hwrite : (locks.write.find l).isSome <;> simp [hl, getLockType, hread, hwrite]

end HeldLocks

/-- The lock the client believes to have at a location. -/
def Database.lockType (db : Database) (l : BlobLocation) : LockMode :=
  (db.stickyLocks.map fun locks => locks.getLockType l).getD .none

/-- The database after the client read its section. -/
def Database.updateLocks (db : Database) (e : DatabaseStickyLocks) : Database :=
  { db with stickyLocks := db.stickyLocks.map fun locks => locks.updateLocks e.keep e.locks }

/-- The loop of `GetTransaction` over the sections. The message names open databases only. -/
def updateStickyLocks (databases : FlatMap DatabaseId Database) :
    List DatabaseStickyLocks → Option (FlatMap DatabaseId Database)
  | [] => some databases
  | e :: es =>
    match databases.find e.databaseId with
    | none => none
    | some db => updateStickyLocks (databases.insert e.databaseId (db.updateLocks e)) es

/-- A message for open databases, each named once, can be taken up. -/
theorem exists_updateStickyLocks {es : List DatabaseStickyLocks}
    {databases : FlatMap DatabaseId Database}
    (hnodup : (es.map DatabaseStickyLocks.databaseId).Nodup)
    (hopen : ∀ e ∈ es, (databases.find e.databaseId).isSome) :
    ∃ databases', updateStickyLocks databases es = some databases' ∧
      (∀ e ∈ es, ∀ db, databases.find e.databaseId = some db →
        databases'.find e.databaseId = some (db.updateLocks e)) ∧
      ∀ id, (∀ e ∈ es, e.databaseId ≠ id) → databases'.find id = databases.find id := by
  induction es generalizing databases with
  | nil => exact ⟨databases, rfl, fun _ => (nomatch ·), fun _ _ => rfl⟩
  | cons e es ih =>
    obtain ⟨he, hnodup⟩ := List.nodup_cons.mp hnodup
    obtain ⟨db, hdb⟩ := Option.isSome_iff_exists.mp (hopen e List.mem_cons_self)
    have hne : ∀ e' ∈ es, e'.databaseId ≠ e.databaseId := fun e' he' heq =>
      he (heq ▸ List.mem_map_of_mem he')
    set databases₁ := databases.insert e.databaseId (db.updateLocks e)
    have hother : ∀ id, id ≠ e.databaseId → databases₁.find id = databases.find id := fun id hid => by
      rw [FlatMap.find_insert, if_neg hid]
    obtain ⟨databases', h1, h2, h3⟩ := ih hnodup fun e' he' => by
      rw [hother _ (hne e' he')]
      exact hopen e' (List.mem_cons_of_mem _ he')
    refine ⟨databases', ?_, fun e' he' db' hdb' => ?_, fun id hid => ?_⟩
    · rw [updateStickyLocks, hdb]
      exact h1
    · rcases List.mem_cons.mp he' with rfl | he'
      · obtain rfl : db = db' := Option.some_inj.mp (hdb.symm.trans hdb')
        rw [h3 _ hne, FlatMap.find_insert, if_pos rfl]
      · exact h2 e' he' db' (by rw [hother _ (hne e' he'), hdb'])
    · rw [h3 id fun e' he' => hid e' (List.mem_cons_of_mem _ he'),
        hother id (hid e List.mem_cons_self).symm]

end ClientLib

/-! ### The server -/

namespace OpenDatabase

variable {od : OpenDatabase} {c : ClientId} {l : BlobLocation}

/-- What is told of a database: what is kept, or what was lost. -/
def tell (od : OpenDatabase) (c : ClientId) (databaseId : DatabaseId) : DatabaseStickyLocks :=
  let book := od.locks.applyRevokedLocks c
  let keep : Bool := (book.held c).length ≤ (book.revoked c).length
  ⟨databaseId, keep, if keep then book.held c else book.revoked c⟩

/-- The database once the client was told. -/
def told (od : OpenDatabase) (c : ClientId) : OpenDatabase :=
  { od with locks := (od.locks.applyRevokedLocks c).clearRevoked c }

/-- The lock that the client has at a location. -/
def lockType (od : OpenDatabase) (c : ClientId) (l : BlobLocation) : LockMode :=
  if l ∈ od.locks.held c then if od.locks.ownsWriteLock c l then .write else .read else .none

/-- What was lost was held before. -/
structure TellsOnce (od : OpenDatabase) (c : ClientId) : Prop where
  nodup_held : (od.locks.held c).Nodup
  nodup_revoked : (od.locks.revoked c).Nodup
  subset : od.locks.revoked c ⊆ od.locks.held c

theorem held_told : (od.told c).locks.held c =
    (od.locks.held c).filter (· ∉ od.locks.revoked c) := by
  simp [told, LockBook.clearRevoked, LockBook.applyRevokedLocks, LockBook.setHeld]

/-- The locks of a client after it was told which were revoked. -/
theorem lockType_told : (od.told c).lockType c l =
    if l ∈ od.locks.revoked c then .none else od.lockType c l := by
  have hlocks : (od.told c).locks.ownsWriteLock c l = od.locks.ownsWriteLock c l := rfl
  rw [lockType, lockType, held_told, hlocks]
  by_cases hheld : l ∈ od.locks.held c <;> by_cases hrevoked : l ∈ od.locks.revoked c <;>
    simp [hheld, hrevoked]

/-- What is kept is what is held and was not revoked. -/
theorem length_kept (h : od.TellsOnce c) :
    ((od.locks.held c).filter (· ∉ od.locks.revoked c)).length =
      (od.locks.held c).length - (od.locks.revoked c).length := by
  have hperm : ((od.locks.held c).filter (· ∈ od.locks.revoked c)).Perm (od.locks.revoked c) := by
    refine (List.perm_ext_iff_of_nodup (h.nodup_held.filter _) h.nodup_revoked).mpr fun l => ?_
    rw [List.mem_filter, decide_eq_true_iff]
    exact ⟨And.right, fun hl => ⟨h.subset hl, hl⟩⟩
  have hsum := List.length_eq_length_filter_add (l := od.locks.held c)
    fun l => decide (l ∈ od.locks.revoked c)
  rw [hperm.length_eq] at hsum
  have hnot : ((od.locks.held c).filter fun l => !decide (l ∈ od.locks.revoked c)) =
      (od.locks.held c).filter (· ∉ od.locks.revoked c) := by
    simp
  rw [hnot] at hsum
  omega

/-- What is told is the shorter list. -/
theorem length_tell (h : od.TellsOnce c) (databaseId : DatabaseId) :
    (od.tell c databaseId).locks.length =
      min ((od.locks.held c).length - (od.locks.revoked c).length) (od.locks.revoked c).length := by
  have hkept := length_kept h
  have hheld : ((od.locks.applyRevokedLocks c).held c) =
      (od.locks.held c).filter (· ∉ od.locks.revoked c) := Function.update_self _ _ _
  have hrevoked : (od.locks.applyRevokedLocks c).revoked c = od.locks.revoked c := rfl
  rw [tell]
  dsimp only
  rw [hheld, hrevoked, hkept]
  by_cases hle : (od.locks.held c).length - (od.locks.revoked c).length ≤ (od.locks.revoked c).length
  · simp only [hle, decide_true, if_true]
    rw [hkept, min_eq_left hle]
  · simp only [hle, decide_false, Bool.false_eq_true, if_false]
    rw [min_eq_right (by omega)]

end OpenDatabase

namespace Server

variable {s s' : Server} {c : ClientId}

/-- The databases that a client has open, with their numbers. -/
def openSlots (s : Server) (c : ClientId) : List (DatabaseId × DatabaseName) :=
  (s.clients c).openDatabases.zipIdx.filterMap fun e => e.1.database.map fun name => (e.2, name)

/-- The number of locks that the message has to name. -/
def totalLocks (s : Server) (c : ClientId) : ℕ :=
  ((s.openSlots c).map fun e =>
    match s.databases e.2 with
    | none => 0
    | some od => min ((od.locks.held c).length - (od.locks.revoked c).length)
        (od.locks.revoked c).length).sum

/-- `ConstructTransactionBeginResponse`, as bytes: the source asserts that there are not too many
locks for the message. -/
def sendTransactionBeginResponse (raw : ℕ → UInt8) (c : ClientId) (s : Server) :
    Option (List UInt8 × Server) :=
  if 0xffff < s.totalLocks c then none
  else (s.constructTransactionBeginResponse c).map fun r =>
    (TransactionBeginResponse.encode raw r.1, r.2)

theorem tellLocks_eq (r : List DatabaseStickyLocks × Server) (e : DatabaseId × DatabaseName) :
    tellLocks c r e = (r.2.databases e.2).map fun od =>
      (r.1 ++ [od.tell c e.1], r.2.setDatabase e.2 (od.told c)) := by
  rw [tellLocks]
  cases r.2.databases e.2 <;> rfl

/-- What a client is told of a slot. -/
def tell (s : Server) (c : ClientId) (e : DatabaseId × DatabaseName) : DatabaseStickyLocks :=
  match s.databases e.2 with
  | none => ⟨e.1, false, []⟩
  | some od => od.tell c e.1

theorem tell_of_some {e : DatabaseId × DatabaseName} {od : OpenDatabase}
    (hod : s.databases e.2 = some od) : s.tell c e = od.tell c e.1 := by
  rw [tell, hod]

/-- What a client is told of a database names the database. -/
theorem databaseId_tell (e : DatabaseId × DatabaseName) : (s.tell c e).databaseId = e.1 := by
  rw [tell]
  cases s.databases e.2 <;> rfl

/-- Each slot is told once. -/
theorem exists_foldlM_tellLocks {es : List (DatabaseId × DatabaseName)}
    (hnodup : (es.map Prod.snd).Nodup) (hopen : ∀ e ∈ es, (s.databases e.2).isSome)
    (acc : List DatabaseStickyLocks) :
    ∃ s', es.foldlM (tellLocks c) (acc, s) = some (acc ++ es.map (s.tell c), s') ∧
      (∀ e ∈ es, ∀ od, s.databases e.2 = some od → s'.databases e.2 = some (od.told c)) ∧
      ∀ name, (∀ e ∈ es, e.2 ≠ name) → s'.databases name = s.databases name := by
  induction es generalizing s acc with
  | nil => exact ⟨s, by rw [List.map_nil, List.append_nil]; rfl, fun _ => (nomatch ·), fun _ _ => rfl⟩
  | cons e es ih =>
    obtain ⟨he, hnodup⟩ := List.nodup_cons.mp hnodup
    obtain ⟨od, hod⟩ := Option.isSome_iff_exists.mp (hopen e List.mem_cons_self)
    have hne : ∀ e' ∈ es, e'.2 ≠ e.2 := fun e' he' heq => he (heq ▸ List.mem_map_of_mem he')
    have hother : ∀ name, name ≠ e.2 →
        (s.setDatabase e.2 (od.told c)).databases name = s.databases name := fun name hname =>
      databases_setDatabase_of_ne hname
    obtain ⟨s', h1, h2, h3⟩ := ih (s := s.setDatabase e.2 (od.told c)) hnodup
      (fun e' he' => by
        rw [hother _ (hne e' he')]
        exact hopen e' (List.mem_cons_of_mem _ he')) (acc ++ [od.tell c e.1])
    have htell : es.map ((s.setDatabase e.2 (od.told c)).tell c) = es.map (s.tell c) :=
      List.map_congr_left fun e' he' => by rw [tell, tell, hother _ (hne e' he')]
    refine ⟨s', ?_, fun e' he' od' hod' => ?_, fun name hname => ?_⟩
    · rw [List.foldlM_cons, tellLocks_eq]
      dsimp only
      rw [hod, Option.map_some]
      refine h1.trans ?_
      rw [htell, List.map_cons, tell_of_some hod, List.append_assoc, List.singleton_append]
    · rcases List.mem_cons.mp he' with rfl | he'
      · obtain rfl : od = od' := Option.some_inj.mp (hod.symm.trans hod')
        rw [h3 _ hne]
        exact databases_setDatabase_self
      · exact h2 e' he' od' (by rw [hother _ (hne e' he'), hod'])
    · rw [h3 name fun e' he' => hname e' (List.mem_cons_of_mem _ he'),
        hother name (hname e List.mem_cons_self).symm]

/-- The names of the open slots are those of the open databases. -/
theorem map_snd_openSlots (s : Server) (c : ClientId) :
    (s.openSlots c).map Prod.snd = s.openNames c := by
  rw [openSlots, openNames, List.map_filterMap]
  have h : ∀ (l : List DatabaseSlot) (i : ℕ),
      (l.zipIdx i).filterMap (fun e => (e.1.database.map fun name => (e.2, name)).map Prod.snd) =
        l.filterMap DatabaseSlot.database := by
    intro l
    induction l with
    | nil => exact fun _ => rfl
    | cons a l ih =>
      intro i
      rw [List.zipIdx_cons, List.filterMap_cons, List.filterMap_cons, ih (i + 1)]
      cases a.database <;> rfl
  exact h _ 0

theorem lt_of_mem_openSlots {e : DatabaseId × DatabaseName} (he : e ∈ s.openSlots c) :
    e.1 < (s.clients c).openDatabases.length := by
  obtain ⟨⟨slot, i⟩, hslot, heq⟩ := List.mem_filterMap.mp he
  obtain ⟨name, -, rfl⟩ := Option.map_eq_some_iff.mp heq
  exact List.snd_lt_of_mem_zipIdx hslot

/-- Each slot is told once. -/
theorem nodup_openSlots (s : Server) (c : ClientId) : ((s.openSlots c).map Prod.fst).Nodup := by
  have h : ∀ (l : List DatabaseSlot) (i : ℕ), (((l.zipIdx i).filterMap fun e =>
      e.1.database.map fun name => (e.2, name)).map Prod.fst).Sublist
        ((l.zipIdx i).map Prod.snd) := by
    intro l
    induction l with
    | nil => exact fun _ => .slnil
    | cons a l ih =>
      intro i
      rw [List.zipIdx_cons, List.filterMap_cons, List.map_cons]
      cases a.database with
      | none => exact (ih (i + 1)).cons _
      | some name => exact (ih (i + 1)).cons_cons _
  refine (h (s.clients c).openDatabases 0).nodup ?_
  rw [List.zipIdx_map_snd]
  exact List.nodup_range'

end Server

/-! ### Beginning a transaction -/

namespace ClientLib

/-- The locks that a client believes to have in its open databases are those it was granted, in the
same mode unless they were taken away. -/
structure InStep (s : Server) (c : ClientId) (databases : FlatMap DatabaseId Database) :
    Prop where
  count : (s.clients c).openDatabases.length ≤ 255
  nodup : (s.openNames c).Nodup
  database : ∀ e ∈ s.openSlots c, ∃ od db, s.databases e.2 = some od ∧
    databases.find e.1 = some db ∧ od.TellsOnce c ∧
    (∀ l, db.lockType l ≠ .none ↔ l ∈ od.locks.held c) ∧
    ∀ l, l ∉ od.locks.revoked c → db.lockType l = od.lockType c l

/-- The client is told what became of its locks, and believes afterwards to have the locks that the
server has registered for it, in the same mode. -/
def Handshakes (raw : ℕ → UInt8) (s : Server) (c : ClientId)
    (databases : FlatMap DatabaseId Database) : Prop :=
  ∃ b s' es databases', s.sendTransactionBeginResponse raw c = some (b, s') ∧
    TransactionBeginResponse.decode b = some es ∧
    updateStickyLocks databases es = some databases' ∧
    ∀ e ∈ s.openSlots c, ∃ od' db', s'.databases e.2 = some od' ∧
      databases'.find e.1 = some db' ∧ ∀ l, db'.lockType l = od'.lockType c l

variable {raw : ℕ → UInt8} {s : Server} {c : ClientId} {databases : FlatMap DatabaseId Database}
  {od : OpenDatabase} {db : Database} {l : BlobLocation}

theorem held_applyRevokedLocks : (od.locks.applyRevokedLocks c).held c =
    (od.locks.held c).filter (· ∉ od.locks.revoked c) :=
  Function.update_self _ _ _

/-- The kept locks are told when they are not more than the revoked ones. -/
theorem keep_tell (h : od.TellsOnce c) (databaseId : DatabaseId) :
    (od.tell c databaseId).keep = true ↔
      (od.locks.held c).length ≤ 2 * (od.locks.revoked c).length := by
  have hkept := OpenDatabase.length_kept h
  rw [OpenDatabase.tell]
  dsimp only
  rw [decide_eq_true_iff, held_applyRevokedLocks, hkept]
  show _ ≤ (od.locks.revoked c).length ↔ _
  omega

/-- The locks that are told are those kept or those revoked. -/
theorem locks_tell (od : OpenDatabase) (c : ClientId) (databaseId : DatabaseId) :
    (od.tell c databaseId).locks = if (od.tell c databaseId).keep then
      (od.locks.held c).filter (· ∉ od.locks.revoked c) else od.locks.revoked c := by
  rw [OpenDatabase.tell]
  dsimp only
  rw [held_applyRevokedLocks]
  rfl

/-- The client is told to keep a lock that it upgraded. -/
def KeepsUpgradedAt (od : OpenDatabase) (c : ClientId) (db : Database) (l : BlobLocation) : Prop :=
  (od.locks.held c).length ≤ 2 * (od.locks.revoked c).length ∧ l ∈ od.locks.held c ∧
    l ∉ od.locks.revoked c ∧ ∃ locks, db.stickyLocks = some locks ∧ locks.Upgraded l

/-- What the client believes of a database after it was told: what the server has, unless it was
told to keep an upgraded lock. -/
theorem lockType_updateLocks (htells : od.TellsOnce c)
    (hheld : ∀ l, db.lockType l ≠ .none ↔ l ∈ od.locks.held c)
    (hmode : ∀ l, l ∉ od.locks.revoked c → db.lockType l = od.lockType c l)
    (databaseId : DatabaseId) (l : BlobLocation) :
    KeepsUpgradedAt od c db l ∧
        (db.updateLocks (od.tell c databaseId)).lockType l = .read ∧
        (od.told c).lockType c l = .write ∨
      ¬KeepsUpgradedAt od c db l ∧
        (db.updateLocks (od.tell c databaseId)).lockType l = (od.told c).lockType c l := by
  have hlocks := locks_tell od c databaseId
  have hkeepIff := keep_tell htells databaseId
  rw [Database.lockType, Database.updateLocks, OpenDatabase.lockType_told, KeepsUpgradedAt]
  cases hsticky : db.stickyLocks with
  | none =>
    -- there are no locks at all
    have hnone : db.lockType l = .none := by
      rw [Database.lockType, hsticky]
      rfl
    have hnot : l ∉ od.locks.held c := fun hl => (hheld l).mpr hl hnone
    refine Or.inr ⟨fun h => hnot h.2.1, ?_⟩
    simp [OpenDatabase.lockType, hnot]
  | some locks =>
    have htype : ∀ l, db.lockType l = locks.getLockType l := fun l => by
      rw [Database.lockType, hsticky]
      rfl
    simp only [htype] at hheld hmode
    simp only [Option.map_some, Option.getD_some, Option.some.injEq, exists_eq_left']
    cases hkeep : (od.tell c databaseId).keep with
    | false =>
      rw [hkeep, if_neg Bool.false_ne_true] at hlocks
      rw [hkeep] at hkeepIff
      rw [hlocks, HeldLocks.getLockType_updateLocks_false]
      refine Or.inr ⟨fun h => Bool.false_ne_true (hkeepIff.mpr h.1), ?_⟩
      by_cases hl : l ∈ od.locks.revoked c
      · rw [if_pos hl, if_pos hl]
      · rw [if_neg hl, if_neg hl, hmode l hl]
    | true =>
      rw [hkeep, if_pos rfl] at hlocks
      rw [hlocks, HeldLocks.getLockType_updateLocks_true]
      simp only [List.mem_filter, decide_eq_true_eq]
      by_cases hl : l ∈ od.locks.held c ∧ l ∉ od.locks.revoked c
      · rw [if_neg (not_not.mpr hl), if_neg hl.2, ← hmode l hl.2]
        by_cases hread : (locks.read.find l).isSome = true
        · rw [if_pos hread]
          by_cases hwrite : (locks.write.find l).isSome = true
          · exact Or.inl ⟨⟨hkeepIff.mp hkeep, hl.1, hl.2, hread, hwrite⟩, rfl, if_pos hwrite⟩
          · -- the lock is a read lock on the server, too
            refine Or.inr ⟨fun h => hwrite h.2.2.2.2, ?_⟩
            rw [HeldLocks.getLockType, if_neg hwrite, if_pos hread]
        · rw [if_neg hread]
          exact Or.inr ⟨fun h => hread h.2.2.2.1, rfl⟩
      · rw [if_pos hl]
        refine Or.inr ⟨fun h => hl ⟨h.2.1, h.2.2.1⟩, ?_⟩
        by_cases hrevoked : l ∈ od.locks.revoked c
        · rw [if_pos hrevoked]
        · have hnot : l ∉ od.locks.held c := fun h => hl ⟨h, hrevoked⟩
          rw [if_neg hrevoked, OpenDatabase.lockType, if_neg hnot]

/-- All locks that are told together are the smaller halves of the databases. -/
theorem sum_length_tell (h : InStep s c databases) :
    (((s.openSlots c).map (s.tell c)).map fun e => e.locks.length).sum = s.totalLocks c := by
  rw [List.map_map, Server.totalLocks]
  congr 1
  refine List.map_congr_left fun e he => ?_
  obtain ⟨od, db, hod, -, htells, -⟩ := h.database e he
  rw [Function.comp_apply, Server.tell_of_some hod, OpenDatabase.length_tell htells, hod]

theorem length_openSlots_le (s : Server) (c : ClientId) :
    (s.openSlots c).length ≤ (s.clients c).openDatabases.length :=
  (List.length_filterMap_le _ _).trans_eq List.length_zipIdx

/-- What is told fits its fields when the locks together do. -/
theorem fits_tell (h : InStep s c databases) (hle : s.totalLocks c ≤ 0xffff) :
    ∀ t ∈ (s.openSlots c).map (s.tell c), TransactionBeginResponse.Fits t := by
  intro t ht
  constructor
  · obtain ⟨e, he, rfl⟩ := List.mem_map.mp ht
    rw [Server.databaseId_tell]
    exact (Server.lt_of_mem_openSlots he).trans_le (h.count.trans (by decide))
  · have hlength : t.locks.length ≤ s.totalLocks c := by
      rw [← sum_length_tell h]
      exact List.le_sum_of_mem (List.mem_map_of_mem ht)
    omega

/-- With few enough locks, the client reads what the server told it. -/
theorem exists_begin (raw : ℕ → UInt8) (h : InStep s c databases)
    (hle : s.totalLocks c ≤ 0xffff) :
    ∃ b s' es databases', s.sendTransactionBeginResponse raw c = some (b, s') ∧
      TransactionBeginResponse.decode b = some es ∧
      updateStickyLocks databases es = some databases' ∧
      ∀ e ∈ s.openSlots c, ∀ od db, s.databases e.2 = some od → databases.find e.1 = some db →
        s'.databases e.2 = some (od.told c) ∧
          databases'.find e.1 = some (db.updateLocks (od.tell c e.1)) := by
  set es := (s.openSlots c).map (s.tell c) with hes
  have hids : es.map DatabaseStickyLocks.databaseId = (s.openSlots c).map Prod.fst := by
    rw [hes, List.map_map]
    exact List.map_congr_left fun e _ => Server.databaseId_tell e
  -- the server tells the databases one after the other
  obtain ⟨s', hfold, htold, -⟩ := Server.exists_foldlM_tellLocks (s := s) (c := c)
    (by rw [Server.map_snd_openSlots]; exact h.nodup) (fun e he => by
      obtain ⟨od, -, hod, -⟩ := h.database e he
      rw [hod]
      rfl) []
  -- the client goes through the sections
  obtain ⟨databases', hupdate, hfind, -⟩ := exists_updateStickyLocks
    (by rw [hids]; exact Server.nodup_openSlots s c) (fun t ht => by
      obtain ⟨e, he, rfl⟩ := List.mem_map.mp ht
      obtain ⟨od, db, -, hdb, -⟩ := h.database e he
      rw [Server.databaseId_tell, hdb]
      rfl)
  refine ⟨TransactionBeginResponse.encode raw es, s', es, databases', ?_, ?_, hupdate, ?_⟩
  · rw [Server.sendTransactionBeginResponse, if_neg (by omega)]
    have hconstruct : s.constructTransactionBeginResponse c = some (es, s') := hfold
    rw [hconstruct]
    rfl
  · refine TransactionBeginResponse.decode_encode (fits_tell h hle) ?_
    have hlength : es.length = (s.openSlots c).length := List.length_map _
    have hslots := length_openSlots_le s c
    have hcount := h.count
    rw [hes, sum_length_tell h, ← hes]
    omega
  · intro e he od db hod hdb
    have htell := hfind (s.tell c e) (List.mem_map_of_mem he) db
      (by rw [Server.databaseId_tell]; exact hdb)
    rw [Server.databaseId_tell, Server.tell_of_some hod] at htell
    exact ⟨htold e he od hod, htell⟩

/-- The server does not get to send the message when there are too many locks. -/
theorem Handshakes.totalLocks_le (h : Handshakes raw s c databases) : s.totalLocks c ≤ 0xffff := by
  obtain ⟨b, s', -, -, hsend, -⟩ := h
  by_contra hlt
  rw [Server.sendTransactionBeginResponse, if_pos (by omega)] at hsend
  exact absurd hsend (by simp)

theorem Handshakes.not_keepsUpgradedAt (hstep : InStep s c databases)
    (h : Handshakes raw s c databases) {e : DatabaseId × DatabaseName} (he : e ∈ s.openSlots c)
    (hod : s.databases e.2 = some od) (hdb : databases.find e.1 = some db) (l : BlobLocation) :
    ¬KeepsUpgradedAt od c db l := by
  obtain ⟨b, s', es, databases', hsend, hdecode, hupdate, hfind⟩ :=
    exists_begin raw hstep h.totalLocks_le
  obtain ⟨b₁, s₁, es₁, databases₁, hsend₁, hdecode₁, hupdate₁, hagree⟩ := h
  obtain ⟨rfl, rfl⟩ : b = b₁ ∧ s' = s₁ := by
    rw [hsend₁, Option.some_inj, Prod.mk.injEq] at hsend
    exact ⟨hsend.1.symm, hsend.2.symm⟩
  obtain rfl : es = es₁ := Option.some_inj.mp (hdecode.symm.trans hdecode₁)
  obtain rfl : databases' = databases₁ := Option.some_inj.mp (hupdate.symm.trans hupdate₁)
  intro hkeeps
  obtain ⟨od₀, db₀, hod₀, hdb₀, htells, hheld, hmode⟩ := hstep.database e he
  obtain rfl : od = od₀ := Option.some_inj.mp (hod.symm.trans hod₀)
  obtain rfl : db = db₀ := Option.some_inj.mp (hdb.symm.trans hdb₀)
  obtain ⟨od', db', hod', hdb', hsame⟩ := hagree e he
  obtain ⟨htold, htell⟩ := hfind e he od db hod hdb
  obtain rfl := Option.some_inj.mp (hod'.symm.trans htold)
  obtain rfl := Option.some_inj.mp (hdb'.symm.trans htell)
  rcases lockType_updateLocks htells hheld hmode e.1 l with ⟨-, hread, hwrite⟩ | ⟨hnot, -⟩
  · -- the client has a read lock, and the server a write lock
    have hlock := hsame l
    rw [hread, hwrite] at hlock
    exact absurd hlock (by decide)
  · exact hnot hkeeps

/-! ### A lock that was upgraded -/

/-- A client read a blob, wrote it, and read the list of blobs of its cluster. -/
def upgrades : List Server.Event :=
  [.connectionOpened 1, .databaseOpen 1 (.mem 0) .createIfNotExist false,
    .transactionBegin 1 0 [], .blobsRead ⟨1, 0, .read, -1, [⟨⟨0, 0, 0⟩, 0⟩]⟩,
    .blobsRead ⟨1, 0, .write, -1, [⟨⟨0, 0, 0⟩, 0⟩]⟩,
    .blobsRead ⟨1, 0, .read, -1, [⟨⟨0, 0, blobListId⟩, 0⟩]⟩, .transactionAbort 1]

/-- Another client locks the list, as it does to delete a blob. -/
def takesAway : List Server.Event :=
  [.connectionOpened 2, .databaseOpen 2 (.mem 0) .createIfNotExist false,
    .transactionBegin 2 0 [],
    .blobsRead ⟨2, 0, .write, -1, [⟨⟨0, 0, blobListId⟩, 0⟩]⟩, .transactionAbort 2]

/-- The locks the client believes to have. -/
def upgradedLocks : HeldLocks :=
  ⟨(FlatMap.empty.insert ⟨0, 0, 0⟩ ()).insert ⟨0, 0, blobListId⟩ (),
    FlatMap.empty.insert ⟨0, 0, 0⟩ ()⟩

def upgradedDatabases : FlatMap DatabaseId Database :=
  FlatMap.empty.insert 0 ⟨.empty, some upgradedLocks⟩

theorem inStep_upgraded (hslots : (s.clients 1).openDatabases = [⟨some (.mem 0), false⟩])
    (hod : s.databases (.mem 0) = some od)
    (hheld : od.locks.held 1 = [⟨0, 0, 0⟩, ⟨0, 0, blobListId⟩])
    (hrevoked : od.locks.revoked 1 = [] ∨ od.locks.revoked 1 = [⟨0, 0, blobListId⟩])
    (hblob : od.locks.ownsWriteLock 1 ⟨0, 0, 0⟩ = true)
    (hlist : od.locks.ownsWriteLock 1 ⟨0, 0, blobListId⟩ = false) :
    InStep s 1 upgradedDatabases := by
  have hopen : s.openSlots 1 = [(0, .mem 0)] := by
    rw [Server.openSlots, hslots]
    rfl
  have htype : ∀ l, Database.lockType ⟨.empty, some upgradedLocks⟩ l =
      if l = ⟨0, 0, 0⟩ then .write else if l = ⟨0, 0, blobListId⟩ then .read else .none := by
    intro l
    by_cases h1 : l = ⟨0, 0, 0⟩ <;> by_cases h2 : l = ⟨0, 0, blobListId⟩ <;>
      simp [Database.lockType, upgradedLocks, HeldLocks.getLockType, h1, h2]
  refine ⟨by rw [hslots]; decide, ?_, fun e he => ?_⟩
  · rw [← Server.map_snd_openSlots, hopen]
    exact List.nodup_singleton _
  · rw [hopen, List.mem_singleton] at he
    subst he
    refine ⟨od, ⟨.empty, some upgradedLocks⟩, hod, rfl, ⟨?_, ?_, ?_⟩, fun l => ?_, fun l _ => ?_⟩
    · rw [hheld]
      decide
    · rcases hrevoked with h | h <;> rw [h] <;> decide
    · rcases hrevoked with h | h <;> rw [h, hheld] <;> decide
    · rw [htype, hheld]
      split_ifs with h1 h2 <;> simp_all
    · rw [htype, OpenDatabase.lockType, hheld]
      split_ifs with h1 h2 <;> simp_all

/-- When the client loses the list, the server names the blob as the only lock to keep, and the
client takes its write lock for a read lock. -/
theorem not_handshakes_of_upgraded : ∃ s,
    Server.run (upgrades ++ takesAway) (.start (fun _ => none) 0) = some s ∧
      InStep s 1 upgradedDatabases ∧ ¬Handshakes (fun _ => 0) s 1 upgradedDatabases := by
  have hrun : ((Server.run (upgrades ++ takesAway) (.start (fun _ => none) 0)).bind fun s =>
      (s.databases (.mem 0)).map fun od => decide (
        (s.clients 1).openDatabases = [⟨some (.mem 0), false⟩] ∧
        od.locks.held 1 = [⟨0, 0, 0⟩, ⟨0, 0, blobListId⟩] ∧
        od.locks.revoked 1 = [⟨0, 0, blobListId⟩] ∧
        od.locks.ownsWriteLock 1 ⟨0, 0, 0⟩ = true ∧
        od.locks.ownsWriteLock 1 ⟨0, 0, blobListId⟩ = false)) = some true := by
    decide +kernel
  obtain ⟨s, hs, hrun⟩ := Option.bind_eq_some_iff.mp hrun
  obtain ⟨od, hod, hrun⟩ := Option.map_eq_some_iff.mp hrun
  obtain ⟨hslots, hheld, hrevoked, hblob, hlist⟩ := of_decide_eq_true hrun
  have hstep := inStep_upgraded hslots hod hheld (Or.inr hrevoked) hblob hlist
  have hopen : s.openSlots 1 = [(0, .mem 0)] := by
    rw [Server.openSlots, hslots]
    rfl
  refine ⟨s, hs, hstep, fun h => ?_⟩
  refine h.not_keepsUpgradedAt hstep (e := (0, .mem 0)) (by rw [hopen]; exact List.mem_singleton_self _)
    hod rfl ⟨0, 0, 0⟩ ⟨?_, ?_, ?_, upgradedLocks, rfl, rfl, rfl⟩
  · rw [hheld, hrevoked]
    decide
  · rw [hheld]
    decide
  · rw [hrevoked]
    decide

/-- Client and server agree on every lock once the transaction began, exactly when the locks can be
named in the message and the client was not told to keep an upgraded lock. -/
theorem handshakes_iff (h : InStep s c databases) :
    Handshakes raw s c databases ↔ s.totalLocks c ≤ 0xffff ∧
      ∀ e ∈ s.openSlots c, ∀ od db, s.databases e.2 = some od →
        databases.find e.1 = some db → ∀ l, ¬KeepsUpgradedAt od c db l := by
  constructor
  · intro hhandshakes
    exact ⟨hhandshakes.totalLocks_le, fun e he od db => hhandshakes.not_keepsUpgradedAt h he⟩
  · rintro ⟨hle, hnot⟩
    obtain ⟨b, s', es, databases', hsend, hdecode, hupdate, hfind⟩ := exists_begin raw h hle
    refine ⟨b, s', es, databases', hsend, hdecode, hupdate, fun e he => ?_⟩
    obtain ⟨od, db, hod, hdb, htells, hheld, hmode⟩ := h.database e he
    obtain ⟨htold, htell⟩ := hfind e he od db hod hdb
    refine ⟨_, _, htold, htell, fun l => ?_⟩
    rcases lockType_updateLocks htells hheld hmode e.1 l with ⟨hkeeps, -⟩ | ⟨-, hsame⟩
    · exact absurd hkeeps (hnot e he od db hod hdb l)
    · exact hsame

/-- Without a lock that was taken away, the upgraded lock does no harm. -/
theorem handshakes_iff_upgrades : ∃ s, Server.run upgrades (.start (fun _ => none) 0) = some s ∧
    InStep s 1 upgradedDatabases ∧ Handshakes (fun _ => 0) s 1 upgradedDatabases := by
  have hrun : ((Server.run upgrades (.start (fun _ => none) 0)).bind fun s =>
      (s.databases (.mem 0)).map fun od => decide (
        (s.clients 1).openDatabases = [⟨some (.mem 0), false⟩] ∧
        od.locks.held 1 = [⟨0, 0, 0⟩, ⟨0, 0, blobListId⟩] ∧ od.locks.revoked 1 = [] ∧
        od.locks.ownsWriteLock 1 ⟨0, 0, 0⟩ = true ∧
        od.locks.ownsWriteLock 1 ⟨0, 0, blobListId⟩ = false ∧ s.totalLocks 1 = 0)) =
      some true := by
    decide +kernel
  obtain ⟨s, hs, hrun⟩ := Option.bind_eq_some_iff.mp hrun
  obtain ⟨od, hod, hrun⟩ := Option.map_eq_some_iff.mp hrun
  obtain ⟨hslots, hheld, hrevoked, hblob, hlist, htotal⟩ := of_decide_eq_true hrun
  have hstep := inStep_upgraded hslots hod hheld (Or.inl hrevoked) hblob hlist
  have hopen : s.openSlots 1 = [(0, .mem 0)] := by
    rw [Server.openSlots, hslots]
    rfl
  refine ⟨s, hs, hstep, (handshakes_iff hstep).mpr ⟨by omega, ?_⟩⟩
  intro e he od' db hod' hdb l hkeeps
  rw [hopen, List.mem_singleton] at he
  subst he
  obtain rfl : od = od' := Option.some_inj.mp (hod.symm.trans hod')
  have hle := hkeeps.1
  rw [hheld, hrevoked] at hle
  exact absurd hle (by decide)

end ClientLib

end BlobsDb
