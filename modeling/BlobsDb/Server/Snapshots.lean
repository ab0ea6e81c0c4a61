import BlobsDb.Server.Contents
import BlobsDb.Server.Reopening

/-!
# The readers' snapshot

The transactions that read from a kept snapshot share it. It is captured when the first of them
begins, and kept until the last of them ends. As long as all commits are proper, a read of the kept
snapshot is answered as it would have been when the snapshot was captured
(`answersCaptured_of_proper`): later commits do not change its objects, and what is not loaded yet
is still in the file.

If a commit lowers a next free id, a later one may copy an object that was not loaded, and give its
block back although readers still need it (`not_answersCaptured_of_lowered`).
-/

namespace BlobsDb

namespace Database

variable {db db' db₀ : Database} {t v : Tree 3} {k : CommitId} {p : Pointer}

/-- The readers' snapshot shows what the active snapshot of a database did. -/
def Captures (db db₀ : Database) : Prop :=
  ∃ t k, db₀.Shows db₀.snapshot t k ∧ db.Holds t ∧
    ∀ p ∈ db.mvccSnapshot, (db.heap.directories p).nextFreeIdCommit = k

/-- The active snapshot shows its tree. -/
theorem Inv.shows (h : db.Inv t) :
    db.Shows db.snapshot t (db.heap.directories db.snapshot).nextFreeIdCommit :=
  ⟨h.wf, h.path, h.loaded, h.view, rfl⟩

/-- A snapshot that was just captured. -/
theorem Inv.captures (h : db.Inv t) (huse : 0 < db.mvccUseCount)
    (hsnapshot : db.mvccSnapshot = some db.snapshot) : db.Captures db := by
  refine ⟨t, _, h.shows, ⟨huse, t, db.snapshot, h, hsnapshot, .capture h⟩, fun p hp => ?_⟩
  obtain rfl := Option.some.inj (hsnapshot.symm.trans hp)
  rfl

namespace Captures

/-- A captured snapshot is in use. -/
theorem pos (h : db.Captures db₀) : 0 < db.mvccUseCount := by
  obtain ⟨_, _, _, hholds, _⟩ := h
  exact hholds.1

/-- A captured snapshot shows what it showed when it was captured. -/
theorem shows (h : db.Captures db₀) : ∃ t k p, db₀.Shows db₀.snapshot t k ∧
    db.mvccSnapshot = some p ∧ db.Shows p t k := by
  obtain ⟨t, k, hshows, ⟨-, v, p, hinv, hp, hkept⟩, hversion⟩ := h
  exact ⟨t, k, p, hshows, hp, hinv.wf, hkept.path, hkept.loaded, hkept.view, hversion p hp⟩

/-- Loading keeps a captured snapshot. -/
theorem loads (h : db.Captures db₀) (hl : db.Loads db') : db'.Captures db₀ := by
  obtain ⟨t, k, hshows, ⟨huse, v, p, hinv, hp, hkept⟩, hversion⟩ := h
  obtain ⟨g, rfl, hg⟩ := hl
  refine ⟨t, k, hshows, ⟨huse, v, p, hinv.loads hg, hp, hkept.loads hinv hg⟩, fun q hq => ?_⟩
  obtain rfl := Option.some.inj (hp.symm.trans hq)
  rw [hg.directory p hkept.known hkept.loaded]
  exact hversion p hq

/-- One more reader keeps a captured snapshot. -/
theorem beginMVCC (h : db.Captures db₀) : db.beginMVCC.Captures db₀ := by
  have hpos := h.pos
  obtain ⟨t, k, hshows, hholds, hversion⟩ := h
  refine ⟨t, k, hshows, (Step.beginMVCC db).holds hholds (Nat.succ_pos _), fun p hp => ?_⟩
  refine hversion p ?_
  rw [Option.mem_def, Database.beginMVCC] at hp
  dsimp only at hp
  rwa [if_neg hpos.ne'] at hp

/-- A captured snapshot is kept as long as there are readers. -/
theorem endMVCC (h : db.Captures db₀) (huse : 0 < db.endMVCC.mvccUseCount) :
    db.endMVCC.Captures db₀ := by
  have hpos := h.pos
  obtain ⟨t, k, hshows, hholds, hversion⟩ := h
  refine ⟨t, k, hshows, (Step.endMVCC hpos).holds hholds huse, fun p hp => hversion p ?_⟩
  rw [Option.mem_def, Database.endMVCC] at hp
  dsimp only at hp
  split_ifs at hp
  exact hp

/-- Clean commits leave the readers' snapshot as it is. -/
theorem commit {us : List BlobData} {σ : Schedule} {r : CommitResult} (h : db.Captures db₀)
    (hc : db.Commits us σ r) (hclean : db.CopiesLoaded us) :
    (db.applyToDatabase r σ).Captures db₀ := by
  obtain ⟨t, k, hshows, hholds, hversion⟩ := h
  refine ⟨t, k, hshows, (Step.commit hclean hc).holds hholds hholds.1, fun q hq => ?_⟩
  obtain ⟨-, v, p, hinv, hp, hkept⟩ := hholds
  obtain rfl := Option.some.inj (hp.symm.trans hq)
  obtain ⟨v', lost, hcommitted, -⟩ := hinv.commit hc.commitId hc.result hc.walks hc.endOffset
  have hbefore : p.origin.Before (db.commitId + 1) := by
    have := hkept.origin.mark
    rwa [(Heap.mark_of_view hinv.wf hkept.view).1] at this
  refine Eq.trans (congrArg Directory.nextFreeIdCommit ?_) (hversion p hq)
  exact hcommitted.beside.directory p hkept.known hkept.loaded (Or.inl hbefore)

end Captures

end Database

namespace Server

variable {P : Permit} {s s' s₁ s₂ : Server} {c : ClientId} {name : DatabaseName}
  {od od' : OpenDatabase} {captured : DatabaseName → Option Database} {m : BlobsRead}

/-- How many transactions read from the kept snapshot of a database. -/
def mvccUses (s : Server) (name : DatabaseName) : ℕ :=
  ((s.databases name).map fun od => od.database.mvccUseCount).getD 0

/-- The databases when the snapshots that are kept after a step were captured. -/
def capture (s s' : Server) (captured : DatabaseName → Option Database) (name : DatabaseName) :
    Option Database :=
  match s'.databases name with
  | none => none
  | some od =>
    if od.database.mvccUseCount = 0 then none
    else if s.mvccUses name = 0 then some od.database
    else captured name

/-- A step of the server, with the databases when the kept snapshots were captured. -/
def stepCapturing (p : Server × (DatabaseName → Option Database)) (e : Event) :
    Option (Server × (DatabaseName → Option Database)) :=
  (p.1.step e).map fun s => (s, p.1.capture s p.2)

/-- The kept snapshots show what they showed when they were captured. -/
def Remembers (s : Server) (captured : DatabaseName → Option Database) : Prop :=
  ∀ name od, s.databases name = some od → 0 < od.database.mvccUseCount →
    ∃ db ∈ captured name, od.database.Captures db

/-- All reads of kept snapshots are answered as reads of the active snapshots would have been when
they were captured, and none of them waits. -/
structure AnswersCaptured (s : Server) (captured : DatabaseName → Option Database) : Prop where
  answer : ∀ m name, s.active m.clientId = true →
    s.getDatabase m.clientId m.databaseId = some name →
    s.isDatabaseMVCC m.clientId m.databaseId = true → m.isDirtyRead = false →
    m.needsWriteLock = false → ∃ db ∈ captured name, (s.handleBlobsRead m).map Server.sent =
      (db.answerRead db.snapshot m).map fun rs =>
        s.sent ++ rs.map fun r => (m.clientId, .blobsRead r)
  waiting : ∀ name, ∀ q ∈ s.queue name, s.isDatabaseMVCC q.clientId q.databaseId = false

/-! ### Kept snapshots -/

theorem mvccUses_of_some (hod : s.databases name = some od) :
    s.mvccUses name = od.database.mvccUseCount := by
  rw [mvccUses, hod]
  rfl

/-- The snapshots that are kept after some moves were kept before, and show the same. -/
def KeepsSnapshots (s s' : Server) : Prop :=
  ∀ name od', s'.databases name = some od' → 0 < od'.database.mvccUseCount →
    ∃ od, s.databases name = some od ∧ 0 < od.database.mvccUseCount ∧
      ∀ db, od.database.Captures db → od'.database.Captures db

theorem KeepsSnapshots.refl (s : Server) : KeepsSnapshots s s :=
  fun _ od hod huse => ⟨od, hod, huse, fun _ => id⟩

theorem KeepsSnapshots.trans {s'' : Server} (h : KeepsSnapshots s s')
    (h' : KeepsSnapshots s' s'') : KeepsSnapshots s s'' := fun name od'' hod'' huse => by
  obtain ⟨od', hod', huse', hkeeps'⟩ := h' name od'' hod'' huse
  obtain ⟨od, hod, huse, hkeeps⟩ := h name od' hod' huse'
  exact ⟨od, hod, huse, fun db hdb => hkeeps' db (hkeeps db hdb)⟩

theorem KeepsSnapshots.setDatabase (hod : s.databases name = some od)
    (h : 0 < od'.database.mvccUseCount → 0 < od.database.mvccUseCount ∧
      ∀ db, od.database.Captures db → od'.database.Captures db) :
    KeepsSnapshots s (s.setDatabase name od') := fun name' od₁ hod₁ huse => by
  by_cases hne : name' = name
  · subst hne
    rw [databases_setDatabase_self] at hod₁
    obtain rfl := Option.some.inj hod₁
    exact ⟨od, hod, h huse⟩
  · rw [databases_setDatabase_of_ne hne] at hod₁
    exact ⟨od₁, hod₁, huse, fun _ => id⟩

/-- What changes in a database that gets no commits and no readers. -/
theorem Change.captures (hchange : od.Change .noBegins s name od') (hs : Healthy s)
    (hod : s.databases name = some od) (huse : 0 < od'.database.mvccUseCount) :
    0 < od.database.mvccUseCount ∧ ∀ db, od.database.Captures db → od'.database.Captures db := by
  cases hchange with
  | looked hp hl =>
    have hloads := hl.loads (hs.exists_inv hod).choose_spec.wf
      ((hs.databases _ _ hod).path_of_snapshotFor hp)
    exact ⟨hloads.mvccUseCount ▸ huse, fun _ h => h.loads hloads⟩
  | beganMVCC hbegins => exact False.elim hbegins
  | endedMVCC _ hpos => exact ⟨hpos, fun _ h => h.endMVCC huse⟩
  | committed _ _ hpermit => exact False.elim hpermit
  | _ => exact ⟨huse, fun _ => id⟩

/-- Moves that begin no reading keep the snapshots in use. -/
theorem Move.keepsSnapshots (hmove : Move .noBegins s s') (hs : Healthy s) :
    KeepsSnapshots s s' := by
  cases hmove with
  | opened _ _ hopens => exact False.elim hopens
  | @closed name =>
    intro name' od' hod' huse
    rw [closeDatabase_databases, Function.update_apply] at hod'
    split_ifs at hod'
    exact ⟨od', hod', huse, fun _ => id⟩
  | database hod hchange => exact .setDatabase hod fun huse => Change.captures hchange hs hod huse
  | _ => exact .refl s

/-- Moves that begin no reading keep the snapshots in use, however many. -/
theorem Moves.keepsSnapshots (hmoves : Moves .noBegins s s') (hs : Healthy s) :
    KeepsSnapshots s s' := by
  induction hmoves with
  | refl => exact .refl s
  | tail hmoves hmove ih => exact ih.trans (hmove.keepsSnapshots (Moves.healthy hmoves hs))

/-- Some transactions may begin to read: snapshots that are kept show the same, or they were just
captured. -/
def BeginsReaders (s s' : Server) : Prop :=
  ∀ name od', s'.databases name = some od' → ∃ od, s.databases name = some od ∧
    (od.database.mvccUseCount = 0 → 0 < od'.database.mvccUseCount →
      od'.database.mvccSnapshot = some od'.database.snapshot) ∧
    (0 < od.database.mvccUseCount → 0 < od'.database.mvccUseCount ∧
      ∀ db, od.database.Captures db → od'.database.Captures db)

theorem BeginsReaders.refl (s : Server) : BeginsReaders s s := fun _ od hod =>
  ⟨od, hod, fun hzero hpos => absurd hzero hpos.ne', fun hpos => ⟨hpos, fun _ => id⟩⟩

/-- What changes in a database that gets no commits and loses no readers. -/
theorem Change.beginsReaders (hchange : od.Change .onlyBegins s name od') (hs : Healthy s)
    (hod : s.databases name = some od) :
    (0 < od'.database.mvccUseCount → od.database.mvccUseCount = 0 ∨
        od.database.mvccSnapshot = some od.database.snapshot →
      od'.database.mvccSnapshot = some od'.database.snapshot) ∧
    (0 < od.database.mvccUseCount → 0 < od'.database.mvccUseCount ∧
      ∀ db, od.database.Captures db → od'.database.Captures db) := by
  have hsame : ∀ od' : OpenDatabase, od'.database = od.database →
      (0 < od'.database.mvccUseCount → od.database.mvccUseCount = 0 ∨
          od.database.mvccSnapshot = some od.database.snapshot →
        od'.database.mvccSnapshot = some od'.database.snapshot) ∧
      (0 < od.database.mvccUseCount → 0 < od'.database.mvccUseCount ∧
        ∀ db, od.database.Captures db → od'.database.Captures db) := fun od' heq => by
    rw [heq]
    exact ⟨fun hpos h => h.resolve_left hpos.ne', fun hpos => ⟨hpos, fun _ => id⟩⟩
  cases hchange with
  | looked hp hl =>
    have hloads := hl.loads (hs.exists_inv hod).choose_spec.wf
      ((hs.databases _ _ hod).path_of_snapshotFor hp)
    dsimp only
    rw [hloads.mvccUseCount, hloads.mvccSnapshot, hloads.snapshot]
    exact ⟨fun hpos h => h.resolve_left hpos.ne', fun hpos => ⟨hpos, fun _ h => h.loads hloads⟩⟩
  | beganMVCC =>
    refine ⟨fun _ h => ?_, fun _ => ⟨Nat.succ_pos _, fun _ h => h.beginMVCC⟩⟩
    dsimp only [Database.beginMVCC]
    split_ifs with hzero
    · rfl
    · exact h.resolve_left hzero
  | endedMVCC hends => exact False.elim hends
  | committed _ _ hpermit => exact False.elim hpermit
  | _ => exact hsame _ rfl

theorem Move.beginsReaders (hmove : Move .onlyBegins s₁ s') (hs : Healthy s₁)
    (h : BeginsReaders s s₁) : BeginsReaders s s' := by
  cases hmove with
  | opened _ _ hopens => exact False.elim hopens
  | closed =>
    intro name' od' hod'
    rw [closeDatabase_databases, Function.update_apply] at hod'
    split_ifs at hod'
    exact h name' od' hod'
  | @database name od od' hod hchange =>
    intro name' od₁ hod₁
    by_cases hne : name' = name
    · subst hne
      rw [databases_setDatabase_self] at hod₁
      obtain rfl := Option.some.inj hod₁
      obtain ⟨od₀, hod₀, hbegun, hkeeps⟩ := h name' od hod
      obtain ⟨hbegun', hkeeps'⟩ := Change.beginsReaders hchange hs hod
      refine ⟨od₀, hod₀, fun hzero hpos => hbegun' hpos ?_, fun hpos => ?_⟩
      · exact (Nat.eq_zero_or_pos _).imp_right fun hpos => hbegun hzero hpos
      · obtain ⟨hpos, hcaptures⟩ := hkeeps hpos
        obtain ⟨hpos, hcaptures'⟩ := hkeeps' hpos
        exact ⟨hpos, fun db hdb => hcaptures' db (hcaptures db hdb)⟩
    · rw [databases_setDatabase_of_ne hne] at hod₁
      exact h name' od₁ hod₁
  | _ => exact h

/-- Readers that begin find the snapshot in use, or capture the active one. -/
theorem Moves.beginsReaders (hmoves : Moves .onlyBegins s s') (hs : Healthy s) :
    BeginsReaders s s' := by
  induction hmoves with
  | refl => exact .refl s
  | tail hmoves hmove ih => exact hmove.beginsReaders (Moves.healthy hmoves hs) ih

/-- Nobody reads from a database without users. -/
theorem mvccUses_eq_zero (hm : MvccWF s) (hwf : UsersWF s) (hzero : s.uses name = 0) :
    s.mvccUses name = 0 := by
  cases hod : s.databases name with
  | none => rw [mvccUses, hod, Option.map_none, Option.getD_none]
  | some od =>
    have hempty : s.mvccClients name = ∅ := Set.eq_empty_iff_forall_notMem.mpr fun c hc =>
      hwf.forall_not_mem hzero c (mem_openNames_of_mvcc hc)
    have hcount := (hm.counts name _ (readers_of_some hod)).1
    rw [hempty, Set.encard_empty] at hcount
    rw [mvccUses_of_some hod]
    exact Nat.cast_eq_zero.mp hcount.symm

/-- A database that is opened is as it was, or has no readers and had none before. -/
theorem openDatabase_readers {mode : OpenMode} {r : DatabaseOpenResponse.Result}
    (hopen : s.openDatabase name mode = some (r, s')) (hwf : UsersWF s) (hm : MvccWF s)
    {name' : DatabaseName} (hod' : s'.databases name' = some od') :
    (∃ od, s.databases name' = some od ∧ od'.database = od.database) ∨
      (s.mvccUses name' = 0 ∧ od'.database.mvccUseCount = 0) := by
  obtain ⟨s₁, hs₁, hs'⟩ := openDatabase_moves hopen
  by_cases hne : name' = name
  · subst hne
    have hunused : s₁.databases name' = none → s.mvccUses name' = 0 := fun hnone => by
      rcases hs₁ with rfl | ⟨hzero, -⟩
      · rw [mvccUses, hnone, Option.map_none, Option.getD_none]
      · exact mvccUses_eq_zero hm hwf hzero
    have hold : ∀ od, s₁.databases name' = some od → s.databases name' = some od := fun od hod => by
      rcases hs₁ with rfl | ⟨-, rfl⟩
      · exact hod
      · rw [closeDatabase_databases, Function.update_self] at hod
        cases hod
    rcases hs' with rfl | ⟨db, hnone, hdb, rfl⟩ | ⟨od, hod, rfl⟩
    · exact Or.inl ⟨od', hold od' hod', rfl⟩
    · rw [databases_setDatabase_self] at hod'
      obtain rfl := Option.some.inj hod'
      exact Or.inr ⟨hunused hnone, congrArg Prod.fst (readers_of_opens hdb)⟩
    · rw [databases_setDatabase_self] at hod'
      obtain rfl := Option.some.inj hod'
      exact Or.inl ⟨od, hold od hod, rfl⟩
  · have hsame : s'.databases name' = s₁.databases name' := by
      rcases hs' with rfl | ⟨db, -, -, rfl⟩ | ⟨od, -, rfl⟩
      · rfl
      · exact databases_setDatabase_of_ne hne
      · exact databases_setDatabase_of_ne hne
    have hsame₁ : s₁.databases name' = s.databases name' := by
      rcases hs₁ with rfl | ⟨-, rfl⟩
      · rfl
      · rw [closeDatabase_databases, Function.update_of_ne hne]
    exact Or.inl ⟨od', by rw [← hsame₁, ← hsame, hod'], rfl⟩

/-- What happens to the snapshots in a step: they are kept, or captured in it. -/
def Continues (s s' : Server) : Prop :=
  ∀ name od', s'.databases name = some od' → 0 < od'.database.mvccUseCount →
    (0 < s.mvccUses name ∧ ∃ od, s.databases name = some od ∧
      ∀ db, od.database.Captures db → od'.database.Captures db) ∨
    (s.mvccUses name = 0 ∧ od'.database.Captures od'.database)

theorem KeepsSnapshots.continues (h : KeepsSnapshots s s') : Continues s s' :=
  fun name od' hod' huse => by
    obtain ⟨od, hod, hpos, hcaptures⟩ := h name od' hod' huse
    exact Or.inl ⟨(mvccUses_of_some hod).symm ▸ hpos, od, hod, hcaptures⟩

theorem BeginsReaders.continues (h : BeginsReaders s₁ s') (hs' : Healthy s')
    (hold : ∀ name od₁, s₁.databases name = some od₁ →
      (∃ od, s.databases name = some od ∧ od₁.database = od.database) ∨
        (s.mvccUses name = 0 ∧ od₁.database.mvccUseCount = 0)) : Continues s s' :=
  fun name od' hod' huse => by
    obtain ⟨od₁, hod₁, hbegun, hkeeps⟩ := h name od' hod'
    have hnew : s.mvccUses name = 0 → od₁.database.mvccUseCount = 0 →
        s.mvccUses name = 0 ∧ od'.database.Captures od'.database := fun hzero hzero₁ => by
      obtain ⟨t, hinv⟩ := hs'.exists_inv hod'
      exact ⟨hzero, hinv.captures huse (hbegun hzero₁ huse)⟩
    rcases hold name od₁ hod₁ with ⟨od, hod, heq⟩ | ⟨hzero, hzero₁⟩
    · have huses := mvccUses_of_some hod
      rw [← heq] at huses
      rcases Nat.eq_zero_or_pos od₁.database.mvccUseCount with hzero₁ | hpos
      · exact Or.inr (hnew (huses.trans hzero₁) hzero₁)
      · exact Or.inl ⟨huses ▸ hpos, od, hod, heq ▸ (hkeeps hpos).2⟩
    · exact Or.inr (hnew hzero hzero₁)

/-- What is remembered is kept, and what is captured is remembered. -/
theorem Remembers.capture (h : Remembers s captured) (hcontinues : Continues s s') :
    Remembers s' (s.capture s' captured) := fun name od' hod' huse => by
  have hcapture : s.capture s' captured name =
      if s.mvccUses name = 0 then some od'.database else captured name := by
    rw [Server.capture, hod']
    exact if_neg huse.ne'
  rcases hcontinues name od' hod' huse with ⟨hpos, od, hod, hcaptures⟩ | ⟨hzero, hcaptures⟩
  · rw [hcapture, if_neg hpos.ne']
    rw [mvccUses_of_some hod] at hpos
    obtain ⟨db, hdb, hod⟩ := h name od hod hpos
    exact ⟨db, hdb, hcaptures db hod⟩
  · rw [hcapture, if_pos hzero]
    exact ⟨od'.database, rfl, hcaptures⟩

/-! ### Answers -/

/-- A client that reads from a kept snapshot is one of the readers that are counted. -/
theorem mvccUseCount_pos (hm : MvccWF s) (hactive : s.active c = true) {id : DatabaseId}
    (hname : s.getDatabase c id = some name) (hmvcc : s.isDatabaseMVCC c id = true)
    (hod : s.databases name = some od) : 0 < od.database.mvccUseCount := by
  have hmem : c ∈ s.mvccClients name := by
    obtain ⟨slot, hslot, hdatabase⟩ := getDatabase_eq_some_iff.mp hname
    rw [isDatabaseMVCC, hslot] at hmvcc
    refine ⟨hactive, List.mem_of_getElem? (i := id) ?_⟩
    rw [hslot, ← hdatabase, ← hmvcc]
  have hcount := (hm.counts name _ (readers_of_some hod)).1
  refine Nat.pos_of_ne_zero fun hzero => ?_
  rw [OpenDatabase.readers, hzero, Nat.cast_zero, Set.encard_eq_zero] at hcount
  rw [hcount] at hmem
  exact hmem

/-- A read of a kept snapshot is answered at once, from its objects. -/
theorem sent_handleBlobsRead (hactive : s.active m.clientId = true)
    (hname : s.getDatabase m.clientId m.databaseId = some name)
    (hmvcc : s.isDatabaseMVCC m.clientId m.databaseId = true) (hdirty : m.isDirtyRead = false)
    (hlock : m.needsWriteLock = false) (hod : s.databases name = some od) {p : Pointer}
    (hp : od.database.mvccSnapshot = some p) :
    (s.handleBlobsRead m).map Server.sent = (od.database.answerRead p m).map fun rs =>
      s.sent ++ rs.map fun r => (m.clientId, .blobsRead r) := by
  have hsnapshot : od.database.snapshotFor true = some p := hp
  unfold Server.handleBlobsRead tryHandleBlobsRead Database.answerRead
  simp only [hname, hactive, hdirty, hmvcc, hlock, hod, hsnapshot, Bool.not_true, Bool.not_false,
    Bool.and_false, Bool.and_true, Bool.or_true, Bool.false_eq_true, if_false, if_true, sendBlobs_eq]
  cases od.database.tree p with
  | none => rfl
  | some t =>
    dsimp only
    cases Database.ensureRequestedBlobsExist p t m.lockMode m.blobs od.database with
    | none => rfl
    | some r =>
      obtain ⟨error, db⟩ := r
      cases error with
      | some error => rfl
      | none =>
        dsimp only
        cases buildBlobsReadResponse db.heap p m <;> rfl

/-- A read of a kept snapshot is answered as when it was captured. -/
theorem Remembers.answersCaptured (h : Remembers s captured) (hwf : UsersWF s) (hm : MvccWF s)
    (hfit : AllFit s) : AnswersCaptured s captured where
  answer m name hactive hname hmvcc hdirty hlock := by
    obtain ⟨n, hn⟩ := Option.isSome_iff_exists.mp
      (hwf.isOpen _ name (mem_openNames_of_getDatabase hname))
    obtain ⟨od, hod, -⟩ := Option.map_eq_some_iff.mp hn
    obtain ⟨db, hdb, hcaptures⟩ := h name od hod (mvccUseCount_pos hm hactive hname hmvcc hod)
    obtain ⟨t, k, p, hshows, hp, hshows'⟩ := hcaptures.shows
    have hmode : m.lockMode ≠ .delete := fun hdelete => by
      rw [BlobsRead.needsWriteLock, hdelete] at hlock
      cases hlock
    refine ⟨db, hdb, ?_⟩
    rw [sent_handleBlobsRead hactive hname hmvcc hdirty hlock hod hp,
      hshows'.answerRead_eq hshows hmode]
  waiting name q hq := (hfit name q hq).isMVCC

/-! ### Commits -/

namespace Ordered

/-- Proper commits keep the snapshots in use. -/
theorem keepsSnapshots_finishCommit {σ : DatabaseName → Schedule} {ms : List TransactionCommit}
    (h : Ordered s) (hfinish : s.finishCommit c σ ms = some s') (hactive : s.active c = true)
    (hwf : UsersWF s)
    (hproper : s.PermitsCommits DbTree.Proper c ms) :
    KeepsSnapshots s s' := by
  refine (finishCommit_keeps (I := fun s₁ => Ordered s₁ ∧ KeepsSnapshots s s₁) hfinish hactive hwf
    h.healthy (fun hmoves ⟨hord, hkeeps⟩ => ?_) ?_ ⟨h, .refl s⟩).2
  · exact ⟨(hmoves.mono (Permit.noBegins_le trivial)).ordered hord,
      hkeeps.trans (hmoves.keepsSnapshots hord.healthy)⟩
  · intro gs ls s₁ hgs hvalid p hp s₂ name od₀ od od' hactive₂ hopen hod hv hcommit ⟨h₂, hkeeps⟩
    have hproper := hproper gs hgs ls s₁ hvalid p.1 (List.of_mem_zip hp).1
    refine ⟨h.commitDatabase h₂ (hactive₂ ▸ hactive) ?_ hod hv hproper hcommit,
      hkeeps.trans (.setDatabase hod fun huse => ?_)⟩
    · rw [hopen]
      exact mem_openNames_of_getDatabase hv.getDatabase
    · obtain ⟨t, created, -, hpasses, -, -, -⟩ := h.passes hv hproper
      obtain ⟨r, book, hcommits, -, rfl⟩ := commitDatabase_eq_some hcommit
      exact ⟨huse, fun _ hdb => hdb.commit hcommits hpasses.copiesLoaded⟩

/-- What begins no transaction and opens no database keeps the snapshots. -/
theorem keepsSnapshots {e : Event} (h : Ordered s) (hstep : Step s e s') (hwf : UsersWF s)
    (hbegins : ¬e.Begins) (hproper : s.CommitsOrderly DbTree.Proper e) : KeepsSnapshots s s' := by
  have hother : s.CommitsOrderly (fun _ _ => False) e → KeepsSnapshots s s' := fun hnone =>
    (hstep.moves (P := .noBegins) hwf h.healthy (fun _ => trivial)
      (fun hopens => hbegins (by cases e <;> trivial)) hbegins hnone).keepsSnapshots h.healthy
  cases e with
  | transactionCommit c m σ =>
    rcases handleTransactionCommit_cases hstep.2 hproper with ⟨hmove, -⟩ |
      ⟨s₀, ms, hmove, -, hwf₀, hactive, hproper₀, hfinish⟩
    · exact (hmove _).keepsSnapshots h.healthy
    · exact ((hmove _).keepsSnapshots h.healthy).trans
        (((hmove _).ordered h).keepsSnapshots_finishCommit hfinish hactive (hwf₀ hwf) hproper₀)
  | _ => exact hother trivial

/-- Every step keeps the snapshots in use, or captures the active one. -/
theorem continues {e : Event} (h : Ordered s) (hstep : Step s e s') (hwf : UsersWF s)
    (hm : MvccWF s) (hproper : s.CommitsOrderly DbTree.Proper e) : Continues s s' := by
  have hs' := hstep.healthy hwf h.healthy
  cases e with
  | databaseOpen c name mode mvcc =>
    obtain ⟨r, s₁, hopen, hmoves⟩ := handleDatabaseOpen_moves (P := .onlyBegins) hstep.2 hwf trivial
    have hs₁ : Healthy s₁ :=
      (moves_openDatabase (P := .noCommits) hopen hwf trivial).healthy h.healthy
    exact (hmoves.beginsReaders hs₁).continues hs' fun name' od₁ hod₁ =>
      openDatabase_readers hopen hwf hm hod₁
  | transactionBegin c priority modes =>
    have hmoves : Moves .onlyBegins s s' := moves_handleTransactionBegin hstep.2 trivial
    exact (hmoves.beginsReaders h.healthy).continues hs' fun _ od hod => Or.inl ⟨od, hod, rfl⟩
  | _ => exact (h.keepsSnapshots hstep hwf id hproper).continues

end Ordered

/-! ### Runs -/

/-- As long as all commits are proper, every read of a kept snapshot is answered as a read of the
active snapshot would have been answered when the kept one was captured. -/
theorem answersCaptured_of_proper {files : DatabaseName → Option FileContent} {delay : ℕ}
    {es : List Event} (hfiles : ∀ name f, files name = some f →
      ∃ db : Database, db.Reachable Database.Keeps ∧ db.file = f)
    (hrun : GuardedRun stepCapturing (fun p e => p.1.CommitsOrderly DbTree.Proper e)
      (start files delay, fun _ => none) es (s, captured)) : AnswersCaptured s captured := by
  obtain ⟨hwf, -, hm, hfit, hremembers⟩ :
      UsersWF s ∧ Ordered s ∧ MvccWF s ∧ AllFit s ∧ Remembers s captured := by
    refine hrun.invariant (I := fun _ p =>
      UsersWF p.1 ∧ Ordered p.1 ∧ MvccWF p.1 ∧ AllFit p.1 ∧ Remembers p.1 p.2)
      ⟨usersWF_start files delay, ordered_start hfiles, mvccWF_start files delay, ?_, ?_⟩
      fun _ p e p' ⟨hwf, hord, hm, hfit, hremembers⟩ hproper hstep => ?_
    · intro name q hq
      cases hq
    · intro name od hod
      cases hod
    · obtain ⟨s', hs', rfl⟩ := Option.map_eq_some_iff.mp hstep
      have hstep := step_eq_some_iff.mp hs'
      exact ⟨hstep.usersWF hwf, hstep.ordered hwf hord hproper, hstep.mvccWF hwf hm,
        hstep.allFit hwf hord.healthy hfit,
        hremembers.capture (hord.continues hstep hwf hm hproper)⟩
  exact hremembers.answersCaptured hwf hm hfit

/-- A client opens the first file, and begins to read from its kept snapshot. -/
def entersMVCC (c : ClientId) : List Event :=
  [.connectionOpened c, .databaseOpen c (.file 0) .openFailIfNotExist true,
    .transactionBegin c 0 [(0, .mvcc)]]

/-- A client reads the second blob of the cluster 2. -/
def readsBlob (c : ClientId) (mode : LockMode) : Event :=
  .blobsRead ⟨c, 0, mode, 0, [⟨⟨0, 2, 1⟩, 0⟩]⟩

/-- Creates the clusters 1 and 2 of the first segment, and writes two blobs into the second one. -/
def createsBlobs : List BlobData :=
  [⟨⟨0, nextFreeClusterId, nextFreeBlobId⟩, some [3, 0, 0, 0]⟩,
    ⟨⟨0, 2, nextFreeBlobId⟩, some [2, 0, 0, 0]⟩, ⟨⟨0, 2, 1⟩, some [8]⟩, ⟨⟨0, 2, 0⟩, some [8]⟩]

/-- A client reads from the kept snapshot, after another one committed. -/
theorem answersCaptured_of_proper_committed : ∃ es s captured,
    GuardedRun stepCapturing (fun p e => p.1.CommitsOrderly DbTree.Proper e)
      (start (fun _ => none) 0, fun _ => none) es (s, captured) ∧
    (∃ t, s.tree (.file 0) = some t ∧ (t.getCluster 0 1).isSome ∧ s.active 2 = true ∧
      s.isDatabaseMVCC 2 0 = true) ∧ AnswersCaptured s captured := by
  have hplay : ((GuardedRun.play stepCapturing (fun _ e => e.IsCommit = false)
      (enters 1 ++ entersMVCC 2) (start (fun _ => none) 0, fun _ => none)).bind fun p =>
        (stepCapturing p (p.1.commits 1 createCluster)).bind fun p' =>
          (p.1.tree (.file 0)).bind fun t => (p'.1.tree (.file 0)).map fun t' =>
            decide (t.nextClusterId 0 = 1 ∧ ((t'.getCluster 0 1).isSome ∧ p'.1.active 2 = true ∧
              p'.1.isDatabaseMVCC 2 0 = true) ∧ (p.1.clients 1).commitMessages = [] ∧
              p.1.getDatabase 1 0 = some (.file 0))) = some true := by
    decide +kernel
  obtain ⟨p, hp, hplay⟩ := Option.bind_eq_some_iff.mp hplay
  obtain ⟨⟨s, captured⟩, hs, hplay⟩ := Option.bind_eq_some_iff.mp hplay
  obtain ⟨t, ht, hplay⟩ := Option.bind_eq_some_iff.mp hplay
  obtain ⟨t', ht', hplay⟩ := Option.map_eq_some_iff.mp hplay
  obtain ⟨hnext, hreader, hmessages, hname⟩ := of_decide_eq_true hplay
  have hproper : p.1.CommitsOrderly DbTree.Proper (p.1.commits 1 createCluster) :=
    commitsOrderly_createCluster hmessages hname ht hnext
  have hrun := ((GuardedRun.of_play hp).mono fun p e h =>
    commitsOrderly_of_not_isCommit (s := p.1) h DbTree.Proper).snoc hproper hs
  exact ⟨_, s, captured, hrun, ⟨t', ht', hreader⟩,
    answersCaptured_of_proper (by rintro _ _ ⟨⟩) hrun⟩

/-- A commit lowers the next free cluster id again. After the file was closed and opened, a reader
captures its snapshot. Two commits later the reader finds the blob of the last one. -/
theorem not_answersCaptured_of_lowered : ∃ es s captured,
    GuardedRun stepCapturing (fun _ _ => True) (start (fun _ => none) 0, fun _ => none) es
      (s, captured) ∧ ¬AnswersCaptured s captured := by
  have hplay : ((GuardedRun.play stepCapturing (fun _ _ => True) (enters 1)
      (start (fun _ => none) 0, fun _ => none)).bind fun p =>
        (GuardedRun.play stepCapturing (fun _ _ => True)
          (p.1.commits 1 lowersAgain :: .connectionClosed 1 :: enters 2 ++ entersMVCC 3) p).bind
            fun p => (GuardedRun.play stepCapturing (fun _ _ => True)
              [p.1.commits 2 createsBlobs, .transactionBegin 2 0 [], readsBlob 2 .write] p).bind
                fun p => (stepCapturing p (p.1.commits 2 [⟨⟨0, 2, 1⟩, some [9]⟩])).bind
                  fun p => (p.2 (.file 0)).map fun db => decide (p.1.active 3 = true ∧
                    p.1.getDatabase 3 0 = some (.file 0) ∧ p.1.isDatabaseMVCC 3 0 = true ∧
                    (p.1.handleBlobsRead ⟨3, 0, .read, 0, [⟨⟨0, 2, 1⟩, 0⟩]⟩).map Server.sent ≠
                      (db.answerRead db.snapshot ⟨3, 0, .read, 0, [⟨⟨0, 2, 1⟩, 0⟩]⟩).map fun rs =>
                        p.1.sent ++ rs.map fun r => (3, .blobsRead r))) = some true := by
    decide +kernel
  obtain ⟨p, hp, hplay⟩ := Option.bind_eq_some_iff.mp hplay
  obtain ⟨p', hp', hplay⟩ := Option.bind_eq_some_iff.mp hplay
  obtain ⟨p'', hp'', hplay⟩ := Option.bind_eq_some_iff.mp hplay
  obtain ⟨⟨s, captured⟩, hs, hplay⟩ := Option.bind_eq_some_iff.mp hplay
  obtain ⟨db, hdb, hplay⟩ := Option.map_eq_some_iff.mp hplay
  obtain ⟨hactive, hname, hmvcc, hsent⟩ := of_decide_eq_true hplay
  have hrun := (((GuardedRun.of_play hp).trans (GuardedRun.of_play hp')).trans
    (GuardedRun.of_play hp'')).snoc trivial hs
  refine ⟨_, s, captured, hrun, fun hanswers => ?_⟩
  obtain ⟨db', hdb', heq⟩ := hanswers.answer ⟨3, 0, .read, 0, [⟨⟨0, 2, 1⟩, 0⟩]⟩ _ hactive hname hmvcc
    rfl rfl
  obtain rfl := Option.some.inj (hdb.symm.trans hdb')
  exact hsent heq

end Server

end BlobsDb
