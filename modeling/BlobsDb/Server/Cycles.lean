import BlobsDb.ForMathlib.WaitGraph
import BlobsDb.Server.Deadlocks
import BlobsDb.Server.Closing
import BlobsDb.Server.NextFreeIds

/-!
# Clients that wait in a circle

Clients wait in a circle when each of them waits for the next one, possibly in different databases.
The server looks for two clients that wait for each other in one database, and only when a read
joins the queue. Circles are closed at no other time: a client that is granted locks waits no more
(`tryProcessQueuedReads_abates`), nor does one whose transaction ends (`abortTransaction_abates`), and
those who come to wait because of a commit wait for its client (`Spares`). So there are none as long
as each circle that a read would close goes through a client that waits for the client of the read
in its database (`Step.circleFree`).
-/

open Relation (TransGen ReflTransGen)

namespace BlobsDb

namespace Server

variable {P : Permit} {s s' s'' : Server} {c d x y : ClientId} {name name' : DatabaseName}
  {od od' : OpenDatabase} {m q : BlobsRead} {b w : Bool} {l : BlobLocation}

/-- A client waits for another one in some database. -/
def Awaits (s : Server) (x y : ClientId) : Prop := ∃ name, s.WaitsOn name x y

/-- No clients wait in a circle. -/
def CircleFree (s : Server) : Prop := WaitGraph.Acyclic s.Awaits

/-- Who awaits somebody has a read in a queue. -/
theorem Awaits.not_idle (h : s.Awaits x y) : ¬s.Idle x := by
  obtain ⟨name, hxy⟩ := h
  exact fun hidle => hidle name hxy.waits

/-! ### No new circles -/

/-- Who waits afterwards waited before, and waits for a client that waits only if it did so
before. -/
structure Abates (s s' : Server) : Prop where
  queue : ∀ name, s'.queue name ⊆ s.queue name
  waitsOn : ∀ name x y, s'.WaitsOn name x y → ¬s'.Idle y → s.WaitsOn name x y

theorem Idle.of_subset (h : s.Idle c) (hsub : ∀ name, s'.queue name ⊆ s.queue name) :
    s'.Idle c := by
  rintro name ⟨q, hq, hc⟩
  exact h name ⟨q, hsub name hq, hc⟩

namespace Abates

theorem refl (s : Server) : Abates s s := ⟨fun _ => List.Subset.refl _, fun _ _ _ h _ => h⟩

theorem trans (h : Abates s s') (h' : Abates s' s'') : Abates s s'' where
  queue name := List.Subset.trans (h'.queue name) (h.queue name)
  waitsOn name x y hxy hy :=
    h.waitsOn name x y (h'.waitsOn name x y hxy hy) fun hidle => hy (hidle.of_subset h'.queue)

/-- Nothing is closed. -/
theorem circleFree (h : Abates s s') (hfree : s.CircleFree) : s'.CircleFree := by
  refine hfree.of_waiting fun x y _ hxy hyz => ?_
  obtain ⟨name, hxy⟩ := hxy
  exact ⟨name, h.waitsOn name x y hxy hyz.not_idle⟩

/-- The trees stay the same, and those who wait have no more locks than before. -/
theorem of_conflicts (htree : ∀ name, s'.tree name = s.tree name)
    (hqueue : ∀ name, s'.queue name ⊆ s.queue name)
    (hconflicts : ∀ name y, ¬s'.Idle y → ∀ d w l, y ∈ (s'.locks name).conflicts s'.active d w l →
      y ∈ (s.locks name).conflicts s.active d w l) : Abates s s' where
  queue := hqueue
  waitsOn name x y hxy hy := by
    obtain ⟨q, hq, hqx, t, ls, ht, hls, l, hl, hconflict⟩ := hxy
    exact ⟨q, hqueue name hq, hqx, t, ls, htree name ▸ ht, hls, l, hl,
      hconflicts name y hy _ _ l hconflict⟩

/-- Databases stay the same, and nobody's transaction begins. -/
theorem of_databases (hdatabases : s'.databases = s.databases)
    (hactive : ∀ y, ¬s'.Idle y → s'.active y = true → s.active y = true) : Abates s s' := by
  have hlocks : ∀ name, s'.locks name = s.locks name := fun name => by
    rw [locks, hdatabases, locks]
  refine .of_conflicts (fun name => by rw [tree, hdatabases, tree])
    (fun name => by rw [queue_congr (congrFun hdatabases name)]; exact List.Subset.refl _)
    fun name y hy d w l hconflict => ?_
  rw [hlocks] at hconflict
  exact LockBook.mem_conflicts_of_active hconflict
    (hactive y hy (LockBook.ne_of_mem_conflicts hconflict).2)

theorem setClient {client : Client} (htxn : client.hasTransaction = (s.clients c).hasTransaction) :
    Abates s (s.setClient c client) := by
  refine .of_databases rfl fun y _ hactive => ?_
  rwa [active_setClient_of_eq htxn] at hactive

/-- Nobody waits in the only database that changes. -/
theorem emptied (hclients : s'.clients = s.clients) (hempty : s'.queue name = [])
    (hother : ∀ name', name' ≠ name → s'.databases name' = s.databases name') : Abates s s' := by
  have hactive : s'.active = s.active := by
    funext c
    rw [active, hclients, active]
  refine ⟨fun name' => ?_, fun name' x y hxy _ => ?_⟩
  · by_cases hne : name' = name
    · rw [hne, hempty]
      exact List.nil_subset _
    · rw [queue_congr (hother name' hne)]
      exact List.Subset.refl _
  · obtain ⟨q, hq, hqx, t, ls, ht, hls, l, hl, hconflict⟩ := hxy
    have hne : name' ≠ name := by
      rintro rfl
      rw [hempty] at hq
      cases hq
    rw [queue_congr (hother name' hne)] at hq
    rw [tree, hother name' hne] at ht
    rw [locks, hother name' hne, hactive] at hconflict
    exact ⟨q, hq, hqx, t, ls, ht, hls, l, hl, hconflict⟩

/-- One database changes. -/
theorem setDatabase (hod : s.databases name = some od)
    (htree : od'.database.tree od'.database.snapshot = od.database.tree od.database.snapshot)
    (hqueue : od'.queuedReads ⊆ od.queuedReads)
    (hconflicts : ∀ y, ¬(s.setDatabase name od').Idle y → ∀ d w l,
      y ∈ od'.locks.conflicts s.active d w l → y ∈ od.locks.conflicts s.active d w l) :
    Abates s (s.setDatabase name od') := by
  refine .of_conflicts (fun name' => ?_) (fun name' => ?_) fun name' y hy d w l hconflict => ?_
  · by_cases hne : name' = name
    · subst hne
      rw [tree_setDatabase_self, htree, tree_of_some hod]
    · exact tree_setDatabase_of_ne hne
  · by_cases hne : name' = name
    · subst hne
      rw [queue_setDatabase_self, queue_of_some hod]
      exact hqueue
    · rw [queue_setDatabase_of_ne hne]
      exact List.Subset.refl _
  · change y ∈ LockBook.conflicts s.active _ _ _ _ at hconflict
    rw [locks_setDatabase] at hconflict
    split_ifs at hconflict with hne
    · subst hne
      rw [locks_of_some hod]
      exact hconflicts y hy d w l hconflict
    · exact hconflict

end Abates

/-! ### Moves -/

/-- What changes in a database, without commits and grants. -/
theorem Abates.change (hod : s.databases name = some od) (hchange : od.Change .noEnds s name od')
    (hs : Healthy s) : Abates s (s.setDatabase name od') := by
  have hsame : ∀ {od' : OpenDatabase},
      od'.database.tree od'.database.snapshot = od.database.tree od.database.snapshot →
      od'.queuedReads ⊆ od.queuedReads →
      (∀ y d w l, y ∈ od'.locks.conflicts s.active d w l → y ∈ od.locks.conflicts s.active d w l) →
      Abates s (s.setDatabase name od') := fun htree hqueue hconflicts =>
    .setDatabase hod htree hqueue fun y _ => hconflicts y
  have hlocks : ∀ y d w l, y ∈ od.locks.conflicts s.active d w l →
      y ∈ od.locks.conflicts s.active d w l := fun _ _ _ _ => id
  have hqueue := List.Subset.refl od.queuedReads
  cases hchange with
  | used => exact hsame rfl hqueue hlocks
  | queued hqs =>
    exact hsame rfl (fun q hq => (hqs q hq).resolve_right fun h => h.1.elim) hlocks
  | looked hp hl => exact hsame (hs.tree_looked hod hp hl) hqueue hlocks
  | beganMVCC => exact hsame rfl hqueue hlocks
  | endedMVCC hends => exact hends.elim
  | granted hends => exact hends.elim
  | gaveUp hends => exact hends.elim
  | released _ hbook =>
    exact hsame rfl hqueue fun _ _ _ _ h => LockBook.mem_conflicts_of_releaseAll hbook h
  | told => exact hsame rfl hqueue hlocks
  | committed _ _ hpermit => exact hpermit.elim

/-- Moves that end no transaction let nobody wait for somebody else. -/
theorem Move.abates (hmove : Move .noEnds s s') (hs : Healthy s) (hfit : AllFit s) :
    Abates s s' := by
  -- who is not in a transaction does not wait
  have hbegun : ∀ {c client}, s.active c = false → Abates s (s.setClient c client) :=
    fun {c client} hc => .of_databases rfl fun y hy hactive => by
      by_cases hyc : y = c
      · exact absurd (hfit.idle (hyc ▸ hc)) hy
      · rwa [active, clients_setClient_of_ne hyc] at hactive
  cases hmove with
  | send => exact .of_databases rfl fun _ _ h => h
  | client hopen htxn => exact .setClient htxn
  | mode mvcc hactive => exact hbegun hactive
  | begun priority hactive => exact hbegun hactive
  | ended hends => exact hends.elim
  | entered => exact .setClient rfl
  | left mvcc hactive => exact hbegun hactive
  | opened => exact .emptied rfl queue_setDatabase_self fun _ hne => databases_setDatabase_of_ne hne
  | @closed name =>
    have hnone : (s.closeDatabase name).databases name = none := by
      rw [closeDatabase_databases, Function.update_self]
    refine .emptied (closeDatabase_clients ..) (queue_of_none hnone) fun name' hne => ?_
    rw [closeDatabase_databases, Function.update_of_ne hne]
  | database hod hchange => exact .change hod hchange hs

theorem Moves.abates (hmoves : Moves .noEnds s s') (hs : Healthy s) (hfit : AllFit s) :
    Abates s s' := by
  have hall : Abates s s' ∧ Healthy s' ∧ AllFit s' := by
    induction hmoves with
    | refl => exact ⟨.refl s, hs, hfit⟩
    | tail _ hmove ih =>
      obtain ⟨habates, hs₁, hfit₁⟩ := ih
      have hmoves : Moves .noCommits _ _ := Moves.mono (.single hmove)
        ⟨fun _ _ => False.elim, False.elim, fun _ => trivial, id⟩
      exact ⟨habates.trans (hmove.abates hs₁ hfit₁), hmoves.healthy hs₁, hmoves.allFit hs₁ hfit₁⟩
  exact hall.1

/-! ### Trying the reads that wait -/

/-- What holds in all runs in which clients that wait send no further reads. -/
structure Patient (s : Server) : Prop where
  usersWF : UsersWF s
  healthy : Healthy s
  books : BooksWF s
  fit : AllFit s
  queues : QueuesWF s

/-- Patience lasts while no reads are added. -/
theorem Patient.moves (h : Patient s) (hmoves : Moves .noCommits s s') (hwf : UsersWF s')
    (hsub : ∀ name, (s'.queue name).Sublist (s.queue name)) : Patient s' :=
  ⟨hwf, hmoves.healthy h.healthy, hmoves.booksWF h.books, hmoves.allFit h.healthy h.fit,
    h.queues.of_sublist hsub⟩

/-- What holds of those who wait, also when a commit has changed what they wait for. -/
structure Queued (s : Server) : Prop where
  healthy : Healthy s
  books : BooksWF s
  queues : QueuesWF s
  names : ∀ name, ∀ q ∈ s.queue name, s.getDatabase q.clientId q.databaseId = some name

theorem Patient.queued (h : Patient s) : Queued s :=
  ⟨h.healthy, h.books, h.queues, fun name q hq => (h.fit name q hq).getDatabase⟩

theorem Queued.moves (h : Queued s) (hmoves : Moves .noCommits s s')
    (hsub : ∀ name, (s'.queue name).Sublist (s.queue name))
    (hclients : ∀ d i, s'.getDatabase d i = s.getDatabase d i) : Queued s' :=
  ⟨hmoves.healthy h.healthy, hmoves.booksWF h.books, h.queues.of_sublist hsub,
    fun name q hq => (hclients _ _).trans (h.names name q ((hsub name).subset hq))⟩

/-- A client that waits, and waits on, has no other read that waits. -/
theorem QueuesWF.eq_of_waits (h : QueuesWF s) (hq : q ∈ s.queue name) (hm : m ∈ s.queue name')
    (hc : q.clientId = m.clientId) : name = name' ∧ q = m := by
  obtain rfl := h.single q.clientId name name' ⟨q, hq, rfl⟩ ⟨m, hm, hc.symm⟩
  exact ⟨rfl, List.inj_on_of_nodup_map (h.nodup name) hq hm hc⟩

/-- Trying the reads of a queue lets nobody wait for somebody else. -/
theorem tryProcessQueuedReads_abates (h : s.tryProcessQueuedReads name' = some s')
    (hp : Queued s) : Abates s s' := by
  obtain ⟨hsteady, -, -, -⟩ := tryProcessQueuedReads_blocked h hp.healthy
  obtain ⟨-, hother, hself, -⟩ := tryProcessQueuedReads_keeps h
  have hqueue : ∀ name, s'.queue name ⊆ s.queue name := fun name => by
    by_cases hne : name = name'
    · exact hne ▸ hself.subset
    · rw [hother name hne]
      exact List.Subset.refl _
  refine .of_conflicts hsteady.tree hqueue fun name y hy d w l hconflict => ?_
  unfold tryProcessQueuedReads at h
  split at h
  · cases h
  · next od hod =>
    split at h
    · cases h
    · next qs s₁ hprocess =>
      obtain ⟨od₁, od₂, hod₁, hod₂, rfl⟩ := updateDatabase_eq_some_iff.mp h
      obtain rfl := Option.some.inj hod₂
      have hlocks : (s₁.setDatabase name' { od₁ with queuedReads := qs }).locks name =
          s₁.locks name := by
        rw [locks_setDatabase]
        split_ifs with hne
        · rw [hne, locks_of_some hod₁]
        · rfl
      rw [hlocks, hsteady.active] at hconflict
      refine processQueuedReads_conflicts hprocess hp.healthy hp.books
        (fun q hq => hp.names name' q (by rwa [queue_of_some hod]))
        (fun _ => queue_of_some hod ▸ hp.queues.nodup name') (fun _ q hq hqy => ?_) hconflict
      -- the client waits on, with the only read it has
      simp only [Idle, not_forall, not_not] at hy
      obtain ⟨name₁, q₁, hq₁, hqy₁⟩ := hy
      rw [← queue_of_some hod] at hq
      obtain ⟨rfl, rfl⟩ :=
        hp.queues.eq_of_waits hq (hqueue name₁ hq₁) (hqy.trans hqy₁.symm)
      rwa [queue_setDatabase_self] at hq₁

theorem foldlM_tryProcessQueuedReads_abates {names : List DatabaseName}
    (h : names.foldlM tryProcessQueuedReads s = some s') (hp : Queued s) : Abates s s' := by
  suffices hboth : Abates s s' ∧ Queued s' from hboth.1
  refine foldlM_induction (P := fun s' => Abates s s' ∧ Queued s') h ⟨.refl s, hp⟩
    fun name _ s₁ s₂ hstep ⟨h1, h2⟩ => ?_
  obtain ⟨hkept, hother, hself, -⟩ := tryProcessQueuedReads_keeps hstep
  refine ⟨h1.trans (tryProcessQueuedReads_abates hstep h2),
    h2.moves (moves_tryProcessQueuedReads hstep h2.healthy trivial) (fun name' => ?_) fun d i => ?_⟩
  · by_cases hne : name' = name
    · exact hne ▸ hself
    · rw [hother name' hne]
  · rw [getDatabase, hkept.clients, getDatabase]

/-! ### The end of a transaction -/

/-- Leaving a database, a client gives up locks or keeps them. -/
theorem conflicts_leaveDatabase {slot : DatabaseSlot} {active : ClientId → Bool}
    (h : leaveDatabase c b s slot = some s')
    (hconflict : y ∈ (s'.locks name).conflicts active d w l) :
    y ∈ (s.locks name).conflicts active d w l := by
  unfold leaveDatabase at h
  split at h
  · obtain rfl := Option.some.inj h
    exact hconflict
  · next name₁ hslot =>
    obtain ⟨od, od', hod, hod', rfl⟩ := updateDatabase_eq_some_iff.mp h
    obtain ⟨book, hbook, rfl⟩ := Option.map_eq_some_iff.mp hod'
    by_cases hne : name = name₁
    · subst hne
      rw [locks_setDatabase_self] at hconflict
      rw [locks_of_some hod]
      split_ifs at hbook
      · exact LockBook.mem_conflicts_of_releaseHeld hbook hconflict
      · exact Option.some.inj hbook ▸ hconflict
    · rwa [locks_setDatabase_of_ne hne] at hconflict

/-- Leaving a transaction lets nobody wait for somebody else. -/
theorem clientAbortTransaction_abates (h : s.clientAbortTransaction c b = some s') :
    Abates s s' := by
  obtain ⟨s₀, hleave, rfl⟩ := Option.map_eq_some_iff.mp h
  obtain ⟨hkept, -, hqueue⟩ := foldlM_leaveDatabase hleave
  have htree := tree_foldlM_leaveDatabase hleave
  refine .of_conflicts htree (fun name q hq => ?_) fun name y _ d w l hconflict => ?_
  · change q ∈ s₀.queue name at hq
    rw [hqueue] at hq
    split_ifs at hq
    · exact List.mem_of_mem_filter hq
    · exact hq
  · have hactive : s.active y = true := by
      have hy := (LockBook.ne_of_mem_conflicts hconflict).2
      by_cases hyc : y = c
      · rw [hyc, active, clients_setClient_self] at hy
        cases hy
      · rwa [active, clients_setClient_of_ne hyc, hkept.clients] at hy
    have hconflict' := LockBook.mem_conflicts_of_active hconflict hactive
    exact foldlM_induction (P := fun s' => y ∈ (s'.locks name).conflicts s.active d w l →
      y ∈ (s.locks name).conflicts s.active d w l) hleave id
      (fun _ _ _ _ hstep h1 hy => h1 (conflicts_leaveDatabase hstep hy)) hconflict'

/-- The end of a transaction lets nobody wait for somebody else who waits. -/
theorem abortTransaction_abates (h : s.abortTransaction c b = some s') (hwf : UsersWF s)
    (hp : Queued s) : Abates s s' := by
  cases hactive : s.active c with
  | false =>
    rw [abortTransaction, hactive] at h
    obtain rfl := Option.some.inj h
    exact .refl s
  | true =>
    rw [abortTransaction, if_pos hactive] at h
    split at h
    · cases h
    · next s₁ hs₁ =>
      have habates := clientAbortTransaction_abates hs₁
      have hmoves : Moves .noCommits s s₁ :=
        moves_clientAbortTransaction hs₁ hactive hwf hp.healthy trivial
      obtain ⟨s₀, hleave, rfl⟩ := Option.map_eq_some_iff.mp hs₁
      obtain ⟨hkept, -, hqueue⟩ := foldlM_leaveDatabase hleave
      refine habates.trans (foldlM_tryProcessQueuedReads_abates h
        (hp.moves hmoves (fun name => ?_) fun d i => ?_))
      · change (s₀.queue name).Sublist (s.queue name)
        rw [hqueue]
        split_ifs
        · exact List.filter_sublist
        · exact List.Sublist.refl _
      · by_cases hd : d = c
        · rw [hd, getDatabase, clients_setClient_self, hkept.clients, getDatabase]
        · rw [getDatabase, clients_setClient_of_ne hd, hkept.clients, getDatabase]

theorem abortTransaction_patient (h : s.abortTransaction c b = some s') (hp : Patient s) :
    Patient s' :=
  hp.moves (moves_abortTransaction h hp.usersWF hp.healthy trivial)
    (abortTransaction_clients h hp.usersWF).1
    (abortTransaction_withdrawn h hp.usersWF hp.queues hp.fit).queue

/-- Aborting a victim lets nobody wait for somebody else who waits, and the victim waits no longer.
-/
theorem abortVictim_abates (h : s.abortVictim c = some s') (hp : Patient s) :
    Abates s s' ∧ Patient s' ∧ s'.Idle c := by
  have hsent : Patient (s.sendError c .deadlock) :=
    hp.moves (.single (.send c _)) (hp.usersWF.send _) fun _ => List.Sublist.refl _
  have hsend : Abates s (s.sendError c .deadlock) := .of_databases rfl fun _ _ h => h
  exact ⟨hsend.trans (abortTransaction_abates h hsent.usersWF hsent.queued),
    abortTransaction_patient h hsent,
    (abortTransaction_withdrawn h hsent.usersWF hsent.queues hsent.fit).idle⟩

/-- Aborting all victims lets nobody wait for somebody else who waits, and no victim waits any
longer. -/
theorem foldlM_abortVictim_abates {vs : List ClientId} (h : vs.foldlM abortVictim s = some s')
    (hp : Patient s) : Abates s s' ∧ Patient s' ∧ ∀ v ∈ vs, s'.Idle v := by
  induction vs generalizing s with
  | nil =>
    obtain rfl := Option.some.inj h
    exact ⟨.refl s, hp, fun _ hv => absurd hv List.not_mem_nil⟩
  | cons v vs ih =>
    rw [List.foldlM_cons] at h
    obtain ⟨s₁, h₁, h₂⟩ := Option.bind_eq_some_iff.mp h
    obtain ⟨habates, hp₁, hidle⟩ := abortVictim_abates h₁ hp
    obtain ⟨habates', hp', hidles⟩ := ih h₂ hp₁
    refine ⟨habates.trans habates', hp', fun u hu => ?_⟩
    rcases List.mem_cons.mp hu with rfl | hu
    · exact hidle.of_subset habates'.queue
    · exact hidles u hu

/-! ### Reads -/

/-- A read that is tried gives new locks at most to its client. -/
theorem TriedRead.abates (h : TriedRead m s b s') (hs : Healthy s) (hbooks : BooksWF s)
    (hidle : ∀ name, s.Fits name m → s.Idle m.clientId) : Abates s s' := by
  have hsteady := h.steady hs
  have hqueue : ∀ name, s'.queue name ⊆ s.queue name := fun name => by
    rw [h.tried.queue name]
    exact List.Subset.refl _
  refine .of_conflicts hsteady.tree hqueue fun name y hy d w l hconflict => ?_
  rw [hsteady.active] at hconflict
  refine (h.conflicts hbooks hconflict).resolve_right ?_
  rintro ⟨-, rfl, hfits⟩
  exact hy ((hidle name hfits).of_subset hqueue)

/-- The client of a read that joins a queue awaits those who block it, and nobody else awaits
anybody new. -/
theorem Joined.awaits {s₂ : Server} (h : Joined name m s s₂) : s₂.Awaits x y ↔
    s.Awaits x y ∨ m.clientId = x ∧ s.BlockedBy name m y := by
  have hother : ∀ name', name' ≠ name → (s₂.WaitsOn name' x y ↔ s.WaitsOn name' x y) :=
    fun name' hne => by
      obtain ⟨htree, hlocks, hqueue⟩ := h.others name' hne
      simp only [WaitsOn, BlockedBy, htree, hlocks, hqueue, h.active]
  constructor
  · rintro ⟨name', hxy⟩
    by_cases hne : name' = name
    · subst hne
      exact (h.waitsOn.mp hxy).imp_left fun hxy => ⟨name', hxy⟩
    · exact Or.inl ⟨name', (hother name' hne).mp hxy⟩
  · rintro (⟨name', hxy⟩ | hm)
    · by_cases hne : name' = name
      · subst hne
        exact ⟨name', h.waitsOn.mpr (Or.inl hxy)⟩
      · exact ⟨name', (hother name' hne).mpr hxy⟩
    · exact ⟨name, h.waitsOn.mpr (Or.inr hm)⟩

/-- A client waits for another one, and not for the client of the read in a way that makes the two
a deadlock. -/
def AwaitsAround (s : Server) (name : DatabaseName) (m : BlobsRead) (x y : ClientId) : Prop :=
  s.Awaits x y ∧ ¬s.InDeadlock name m x

/-- The circles that the read would close are found: its client is the victim of a deadlock, or each
of them goes through somebody who is in a deadlock with it. -/
def FindsCircles (s : Server) (name : DatabaseName) (m : BlobsRead) : Prop :=
  (∃ x, s.InDeadlock name m x ∧
    (s.clients m.clientId).transactionPriority ≤ (s.clients x).transactionPriority) ∨
  ∀ x, s.BlockedBy name m x → ¬ReflTransGen (s.AwaitsAround name m) x m.clientId

/-- A read that is blocked asks for something. -/
theorem Blocked.blobs_ne_nil (h : s.Blocked name q) : q.blobs ≠ [] := by
  obtain ⟨-, x, t, ls, -, hls, l, hl, -⟩ := h
  intro hnil
  rw [hnil] at hls
  obtain rfl := Option.some.inj hls
  cases hl

/-- The queues stay well formed when a client that did not wait joins one. -/
theorem Joined.queuesWF {s₂ : Server} (h : Joined name m s s₂) (hqs : QueuesWF s)
    (hblobs : m.blobs ≠ []) (hidle : s.Idle m.clientId) : QueuesWF s₂ := by
  have hqueue : ∀ name', ∀ q ∈ s₂.queue name', q ∈ s.queue name' ∨ q = m ∧ name' = name :=
    fun name' q hq => by
      by_cases hne : name' = name
      · subst hne
        rw [h.queue, List.mem_append, List.mem_singleton] at hq
        exact hq.imp_right fun hq => ⟨hq, rfl⟩
      · exact Or.inl ((h.others name' hne).2.2 ▸ hq)
  refine ⟨fun name' q hq => ?_, fun name' => ?_, fun c name₁ name₂ h₁ h₂ => ?_⟩
  · rcases hqueue name' q hq with hq | ⟨rfl, -⟩
    · exact hqs.blobs name' q hq
    · exact hblobs
  · by_cases hne : name' = name
    · rw [hne, h.queue, List.map_append]
      refine List.nodup_append'.mpr ⟨hqs.nodup name, List.nodup_singleton _, fun c hc hm => ?_⟩
      obtain ⟨q, hq, hqc⟩ := List.mem_map.mp hc
      obtain rfl := List.mem_singleton.mp hm
      exact hidle name ⟨q, hq, hqc⟩
    · rw [(h.others name' hne).2.2]
      exact hqs.nodup name'
  · have hwaits : ∀ name', s₂.Waits c name' →
        s.Waits c name' ∨ m.clientId = c ∧ name' = name := fun name' hw => by
      obtain ⟨q, hq, hqc⟩ := hw
      rcases hqueue name' q hq with hq | ⟨rfl, hname⟩
      · exact Or.inl ⟨q, hq, hqc⟩
      · exact Or.inr ⟨hqc, hname⟩
    rcases hwaits name₁ h₁ with h₁ | ⟨rfl, rfl⟩
    · rcases hwaits name₂ h₂ with h₂ | ⟨rfl, rfl⟩
      · exact hqs.single c name₁ name₂ h₁ h₂
      · exact absurd h₁ (hidle name₁)
    · rcases hwaits name₂ h₂ with h₂ | ⟨-, rfl⟩
      · exact absurd h₂ (hidle name₂)
      · rfl

/-- A read has joined the queue, and the transactions of some clients have ended. There are no
circles if its client is one of them, or if each chain that leads back to it goes through them. -/
theorem Joined.circleFree {s₂ : Server} {vs : List ClientId} (h : Joined name m s s₂)
    (habates : Abates s₂ s') (hidle : ∀ v ∈ vs, s'.Idle v) (hfree : s.CircleFree)
    (hvs : m.clientId ∈ vs ∨ ∀ x, s.BlockedBy name m x →
      ¬ReflTransGen (fun x y => s.Awaits x y ∧ x ∉ vs) x m.clientId) : s'.CircleFree := by
  -- what is left of the links there were, and of those of the read
  have hlinks : WaitGraph.Acyclic fun x y =>
      (s.Awaits x y ∧ x ∉ vs) ∨ x = m.clientId ∧ x ∉ vs ∧ s.BlockedBy name m y := by
    have hold : WaitGraph.Acyclic fun x y => s.Awaits x y ∧ x ∉ vs := hfree.mono fun _ _ => And.left
    rcases hvs with hm | hvs
    · refine hold.mono fun x y hxy => hxy.resolve_right ?_
      rintro ⟨rfl, hx, -⟩
      exact hx hm
    · intro x hx
      obtain ⟨y, hy, hchain⟩ := hold.exists_chain (c := m.clientId)
        (fun x y hxy => hxy.imp_right fun hxy => ⟨hxy.1, hxy.2.2⟩) hx
      exact hvs y hy hchain
  refine hlinks.of_waiting fun x y z hxy hyz => ?_
  have hx : x ∉ vs := fun hx => hxy.not_idle (hidle x hx)
  obtain ⟨name', hxy⟩ := hxy
  rcases h.awaits.mp ⟨name', habates.waitsOn name' x y hxy hyz.not_idle⟩ with hxy | ⟨hxm, hblocked⟩
  · exact Or.inl ⟨hxy, hx⟩
  · exact Or.inr ⟨hxm.symm, hx, hblocked⟩

/-- A read of a client that does not wait, whose circles are found, leaves none. -/
theorem handleBlobsRead_circleFree (h : s.handleBlobsRead m = some s') (hp : Patient s)
    (hfree : s.CircleFree) (hok : ∀ name, s.Fits name m → s.Idle m.clientId ∧
      (m.lockTimeoutMs = 0 ∨ s.FindsCircles name m)) : s'.CircleFree ∧ Patient s' := by
  have htried : ∀ {b s₁}, s.tryHandleBlobsRead m = some (b, s₁) → Abates s s₁ ∧ Patient s₁ :=
    fun {b s₁} htry => by
      have ht := tried htry
      refine ⟨(triedRead htry).abates hp.healthy hp.books fun name hfits => (hok name hfits).1,
        hp.moves ((triedRead htry).moves hp.healthy trivial) ?_ fun name => by rw [ht.queue]⟩
      exact hp.usersWF.of_sublist (fun c => openNames_congr (by rw [ht.kept.clients]))
        (fun name => Or.inl (ht.kept.useCount name)) fun name => by rw [ht.queue]
  cases htry : s.tryHandleBlobsRead m with
  | none =>
    rw [handleBlobsRead, htry] at h
    cases h
  | some r =>
    obtain ⟨b, s₁⟩ := r
    obtain ⟨habates, hp₁⟩ := htried htry
    cases b with
    | true =>
      rw [handleBlobsRead, htry] at h
      obtain rfl := Option.some.inj h
      exact ⟨habates.circleFree hfree, hp₁⟩
    | false =>
      by_cases htimeout : m.lockTimeoutMs = 0
      · rw [handleBlobsRead, htry] at h
        dsimp only at h
        rw [if_pos htimeout] at h
        obtain rfl := Option.some.inj h
        have hsend : Abates s₁ (s₁.sendError m.clientId .lockTimeout) := .of_databases rfl fun _ _ h => h
        exact ⟨(habates.trans hsend).circleFree hfree,
          hp₁.moves (.single (.send _ _)) (hp₁.usersWF.send _) fun _ => List.Sublist.refl _⟩
      -- only a read that was refused its locks can wait
      have hwaits : ∃ name, s.Fits name m := by
        have ht := triedRead htry
        cases ht with
        | refused hread hdirty => exact ⟨_, hread.fits hdirty⟩
      obtain ⟨name, hfits⟩ := hwaits
      obtain ⟨hidle, hfinds⟩ := hok name hfits
      obtain ⟨found, s₂, hjoined, hblocked, hmoves, hwf₂, -, hfound, hcases⟩ :=
        handleBlobsRead_joins h hp.healthy hfits.getDatabase htry htimeout
      have hp₂ : Patient s₂ := ⟨hwf₂ hp.usersWF, hmoves.healthy hp.healthy, hmoves.booksWF hp.books,
        hmoves.allFit hp.healthy hp.fit, hjoined.queuesWF hp.queues hblocked.blobs_ne_nil hidle⟩
      -- the read itself is given up, or all that were found in a deadlock with it are
      rcases hcases with ⟨-, habort⟩ | ⟨hlt, hfold⟩
      · obtain ⟨habates', hp', hidle'⟩ := abortVictim_abates habort hp₂
        have hvictim : ∀ v ∈ [m.clientId], s'.Idle v := fun v hv => by
          rwa [List.mem_singleton.mp hv]
        exact ⟨hjoined.circleFree habates' hvictim hfree (Or.inl (List.mem_singleton_self _)), hp'⟩
      · obtain ⟨habates', hp', hidle'⟩ := foldlM_abortVictim_abates hfold hp₂
        refine ⟨hjoined.circleFree habates' hidle' hfree (Or.inr fun x hx hchain => ?_), hp'⟩
        rcases hfinds.resolve_left htimeout with ⟨v, hv, hle⟩ | hfinds
        · exact absurd hle (not_le.mpr (hlt v ((hfound v).mpr hv)))
        · exact hfinds x hx (Relation.ReflTransGen.mono
            (fun x y hxy => ⟨hxy.1, fun hx => hxy.2 ((hfound x).mpr hx)⟩) _ _ hchain)

/-- A read that joins the queue, and is in no deadlock with another client, closes a circle if and
only if a chain leads back to its client from one that it waits for. -/
theorem handleBlobsRead_circleFree_iff (h : s.handleBlobsRead m = some s') (hs : Healthy s)
    (hfree : s.CircleFree) (hidle : s.Idle m.clientId)
    (hname : s.getDatabase m.clientId m.databaseId = some name) (hm : m ∈ s'.queue name)
    (hnone : ∀ x, ¬s.InDeadlock name m x) :
    s'.CircleFree ↔ ∀ x, s.BlockedBy name m x → ¬ReflTransGen s.Awaits x m.clientId := by
  have hnot : ∀ {s₁ : Server}, (∀ name, s₁.queue name = s.queue name) → m ∉ s₁.queue name :=
    fun {s₁} hqueue hm => hidle name ⟨m, hqueue name ▸ hm, rfl⟩
  cases htry : s.tryHandleBlobsRead m with
  | none =>
    rw [handleBlobsRead, htry] at h
    cases h
  | some r =>
    obtain ⟨b, s₁⟩ := r
    have hqueue := (tried htry).queue
    cases b with
    | true =>
      rw [handleBlobsRead, htry] at h
      obtain rfl := Option.some.inj h
      exact absurd hm (hnot hqueue)
    | false =>
      by_cases htimeout : m.lockTimeoutMs = 0
      · rw [handleBlobsRead, htry] at h
        dsimp only at h
        rw [if_pos htimeout] at h
        obtain rfl := Option.some.inj h
        exact absurd hm (hnot hqueue)
      obtain ⟨found, s₂, hjoined, -, -, -, -, hfound, hcases⟩ :=
        handleBlobsRead_joins h hs hname htry htimeout
      obtain rfl : found = [] := List.eq_nil_iff_forall_not_mem.mpr fun x hx =>
        hnone x ((hfound x).mp hx)
      -- nobody is aborted
      obtain rfl : s₂ = s' := by
        rcases hcases with ⟨⟨x, hx, -⟩, -⟩ | ⟨-, hfold⟩
        · exact absurd hx List.not_mem_nil
        · exact Option.some.inj hfold
      refine ⟨fun hfree' x hx hchain => hfree' m.clientId ?_, fun hchains => ?_⟩
      · exact TransGen.head' (hjoined.awaits.mpr (Or.inr ⟨rfl, hx⟩))
          (Relation.ReflTransGen.mono (fun _ _ hxy => hjoined.awaits.mpr (Or.inl hxy)) _ _ hchain)
      · have hvictims : ∀ v ∈ ([] : List ClientId), s₂.Idle v := fun v hv =>
          absurd hv List.not_mem_nil
        refine hjoined.circleFree (.refl s₂) hvictims hfree
          (Or.inr fun x hx hchain => hchains x hx ?_)
        exact Relation.ReflTransGen.mono (fun _ _ => And.left) _ _ hchain

/-! ### Commits -/

/-- Applying a commit to a database gives no client anything to wait for, apart from the client of
the commit. What is locked by others was there before, so that those who wait for it did so
before. -/
theorem Ordered.waitsOn_of_commitDatabase (h : Ordered s) (hfit : AllFit s)
    (hactive : s'.active = s.active) {od₀ : OpenDatabase}
    {g : DatabaseId × List TransactionCommit} {ls : List BlobLocation} {σ : Schedule}
    (hv : Validates s c g ls name od₀ od) (hproper : s.PermitsCommit DbTree.Proper c g)
    (hcommit : Server.commitDatabase c (g.2.flatMap TransactionCommit.blobs) σ ls od = some od')
    (hxy : (s'.setDatabase name od').WaitsOn name x y) (hy : y ≠ c) : s.WaitsOn name x y := by
  obtain ⟨t, created, -, -, ht, -, hinv⟩ := h.passes hv hproper
  obtain ⟨hlocks, hqueue⟩ : od.locks = od₀.locks ∧ od.queuedReads = od₀.queuedReads := by
    rw [hv.eq]
    exact ⟨rfl, rfl⟩
  obtain ⟨r, book, -, hbook, rfl⟩ := commitDatabase_eq_some hcommit
  obtain ⟨q, hq, hqx, t', ls', -, hls', l, hl, hconflict⟩ := hxy
  rw [queue_setDatabase_self] at hq
  change y ∈ LockBook.conflicts s'.active _ _ _ _ at hconflict
  rw [locks_setDatabase_self, hactive] at hconflict
  have hagrees := h.locksWF.agrees name
  rw [locks_of_some hv.databases] at hagrees
  have hbefore : y ∈ od₀.locks.conflicts s.active q.clientId q.needsWriteLock l := by
    rw [← hlocks] at hagrees ⊢
    exact LockBook.mem_conflicts_of_acquireImplicitWriteLocks hagrees.wf hy
      (LockBook.mem_conflicts_of_releaseIf hbook hconflict)
  have hq₀ : q ∈ s.queue name := by
    rw [queue_of_some hv.databases, ← hqueue]
    exact hq
  obtain ⟨t₁, ht₁, hexist⟩ := (hfit name q hq₀).exist
  rw [tree_of_some hv.databases, hinv.view] at ht₁
  obtain rfl := Option.some.inj ht₁
  obtain ⟨ls, hls⟩ := Option.isSome_iff_exists.mp (isSome_forEachLockInMessage hexist)
  have hlocated := h.located name od₀ t hv.databases hinv l y
    (LockBook.heldBy_of_mem_conflicts hbefore)
  refine ⟨q, hq₀, hqx, t, ls, (tree_of_some hv.databases).trans hinv.view, hls, l,
    mem_forEachLockInMessage_of_hasLocation ht hls hls' hl hlocated.1, ?_⟩
  rwa [locks_of_some hv.databases]

/-- A commit has been applied to some databases. Those who come to wait for somebody wait for its
client. -/
structure Spares (c : ClientId) (s s' : Server) : Prop where
  active : s'.active = s.active
  queue : ∀ name, s'.queue name = s.queue name
  waitsOn : ∀ name x y, s'.WaitsOn name x y → y ≠ c → s.WaitsOn name x y

namespace Spares

theorem refl (c : ClientId) (s : Server) : Spares c s s := ⟨rfl, fun _ => rfl, fun _ _ _ h _ => h⟩

theorem prepares (h : Spares c s s') (hp : Prepares s' s'') : Spares c s s'' where
  active := hp.active.trans h.active
  queue name := (hp.queue name).trans (h.queue name)
  waitsOn name x y hxy hy := by
    refine h.waitsOn name x y ?_ hy
    simpa only [WaitsOn, BlockedBy, hp.queue, hp.tree, hp.locks, hp.active] using hxy

/-- A commit to a database spares those who wait for others than its client. -/
theorem commitDatabase (h : Spares c s s') (hord : Ordered s) (hfit : AllFit s)
    {od₀ : OpenDatabase} {g : DatabaseId × List TransactionCommit} {ls : List BlobLocation}
    {σ : Schedule} (hod : s'.databases name = some od) (hv : Validates s c g ls name od₀ od)
    (hproper : s.PermitsCommit DbTree.Proper c g)
    (hcommit : Server.commitDatabase c (g.2.flatMap TransactionCommit.blobs) σ ls od = some od') :
    Spares c s (s'.setDatabase name od') where
  active := h.active
  queue name' := by
    by_cases hne : name' = name
    · subst hne
      rw [queue_setDatabase_self, (commitDatabase_keeps hcommit).2, ← h.queue, queue_of_some hod]
    · rw [queue_setDatabase_of_ne hne, h.queue]
  waitsOn name' x y hxy hy := by
    by_cases hne : name' = name
    · subst hne
      exact hord.waitsOn_of_commitDatabase hfit h.active hv hproper hcommit hxy hy
    · refine h.waitsOn name' x y ?_ hy
      have hactive : (s'.setDatabase name od').active = s'.active := rfl
      simpa only [WaitsOn, BlockedBy, queue_setDatabase_of_ne hne, tree_setDatabase_of_ne hne,
        locks_setDatabase_of_ne hne, hactive] using hxy

end Spares

/-- A proper commit leaves no circles: those who come to wait wait for its client, whose
transaction ends. -/
theorem finishCommit_circleFree {σ : DatabaseName → Schedule} {ms : List TransactionCommit}
    (h : s.finishCommit c σ ms = some s') (hactive : s.active c = true) (hwf : UsersWF s)
    (hord : Ordered s) (hfit : AllFit s) (hqs : QueuesWF s) (hfree : s.CircleFree)
    (hproper : s.PermitsCommits DbTree.Proper c ms) :
    s'.CircleFree ∧ QueuesWF s' := by
  obtain ⟨s₂, b, ⟨hspares, hord₂, hnames⟩, hwf₂, hs₂, habort⟩ :=
    finishCommit_applied (I := fun s₂ => Spares c s s₂ ∧ Ordered s₂ ∧
        ∀ d i, s₂.getDatabase d i = s.getDatabase d i) h hactive hwf hord.healthy
      (fun hprepares h₁ => ⟨h₁.1.prepares hprepares,
        (hprepares.moves.mono (Permit.noBegins_le trivial)).ordered h₁.2.1,
        fun d i => (hprepares.getDatabase d i).trans (h₁.2.2 d i)⟩)
      (fun gs ls s₁ hgs hvalid p hp s₂ name od₀ od od' hactive₂ hopen hod hv hcommit h₂ => by
        have hpermits := hproper gs hgs ls s₁ hvalid p.1 (List.of_mem_zip hp).1
        refine ⟨h₂.1.commitDatabase hord hfit hod hv hpermits hcommit,
          hord.commitDatabase h₂.2.1 (hactive₂ ▸ hactive) ?_ hod hv hpermits hcommit, h₂.2.2⟩
        rw [hopen]
        exact mem_openNames_of_getDatabase hv.getDatabase)
      ⟨.refl c s, hord, fun _ _ => rfl⟩
  have hqueued : Queued s₂ := by
    refine ⟨hs₂, fun name od hod => ?_, hqs.of_sublist fun name => ?_, fun name q hq => ?_⟩
    · have hagrees := hord₂.locksWF.agrees name
      rw [locks_of_some hod] at hagrees
      exact hagrees.wf
    · rw [hspares.queue]
    · rw [hnames]
      exact (hfit name q (hspares.queue name ▸ hq)).getDatabase
  have habates := abortTransaction_abates habort hwf₂ hqueued
  have hended := ended_abortTransaction habort (hspares.active ▸ hactive)
  have hidle : s'.Idle c := hwf₂.not_waits_of_ended hended
  refine ⟨hfree.of_waiting fun x y z hxy hyz => ?_, hqueued.queues.of_sublist hended.queue⟩
  obtain ⟨name, hxy⟩ := hxy
  have hyc : y ≠ c := fun hyc => hyz.not_idle (hyc ▸ hidle)
  exact ⟨name, hspares.waitsOn name x y (habates.waitsOn name x y hxy hyz.not_idle) hyc⟩

/-! ### Runs -/

/-- The client of the event does not wait, unless the event ends its transaction. A commit is
proper, and a read waits only if the circles that this would close are found. -/
structure FindsAll (s : Server) (e : Event) : Prop where
  sender : ∀ c ∈ e.sender, s.Idle c ∨ e.withdraws = true
  proper : s.CommitsOrderly DbTree.Proper e
  finds : ∀ m name, e = .blobsRead m → s.Fits name m → m.lockTimeoutMs = 0 ∨ s.FindsCircles name m

theorem Ordered.booksWF (h : Ordered s) : BooksWF s := fun name od hod => by
  have hagrees := h.locksWF.agrees name
  rw [locks_of_some hod] at hagrees
  exact hagrees.wf

/-- Steps leave no circles. -/
theorem Step.circleFree {e : Event} (h : Step s e s') (hwf : UsersWF s) (hord : Ordered s)
    (hfit : AllFit s) (hqs : QueuesWF s) (hok : s.FindsAll e) (hfree : s.CircleFree) :
    s'.CircleFree ∧ QueuesWF s' := by
  have hp : Patient s := ⟨hwf, hord.healthy, hord.booksWF, hfit, hqs⟩
  -- an event that closes no circles is no read
  have hother : Abates s s' → (∀ m, e ≠ .blobsRead m) → s'.CircleFree ∧ QueuesWF s' :=
    fun habates hne => ⟨habates.circleFree hfree,
      (h.outcome hwf hord.healthy hqs hfit (fun m he => absurd he (hne m)) hok.sender).1⟩
  have hmoves : ¬e.Ends → s.CommitsOrderly (fun _ _ => False) e → Abates s s' := fun hends ho =>
    (h.moves (P := .noEnds) hwf hord.healthy (fun he => absurd he hends) (fun _ => trivial)
      (fun _ => trivial) ho).abates hord.healthy hfit
  have hhandle := h.2
  cases e with
  | connectionClosed d =>
    refine hother ?_ (by rintro _ ⟨⟩)
    change s.handleConnectionClosed d = some s' at hhandle
    unfold handleConnectionClosed at hhandle
    split at hhandle
    · cases hhandle
    · next s₁ habort =>
      obtain ⟨s₂, hclose, rfl⟩ := Option.map_eq_some_iff.mp hhandle
      have hp₁ := abortTransaction_patient habort hp
      have hclosed : Moves .noEnds s₁ (s₂.setClient d { s₂.clients d with connected := false }) :=
        .tail (moves_closeAllDatabases hclose (inactive_of_abortTransaction habort hwf) hp₁.usersWF)
          (.client rfl rfl)
      exact (abortTransaction_abates habort hwf hp.queued).trans
        (hclosed.abates hp₁.healthy hp₁.fit)
  | blobsRead m =>
    obtain ⟨hfree', hp'⟩ := handleBlobsRead_circleFree hhandle hp hfree fun name hfits =>
      ⟨(hok.sender m.clientId rfl).resolve_right (by rintro ⟨⟩), hok.finds m name rfl hfits⟩
    exact ⟨hfree', hp'.queues⟩
  | transactionAbort d => exact hother (abortTransaction_abates hhandle hwf hp.queued) (by rintro _ ⟨⟩)
  | transactionCommit d m σ =>
    change s.handleTransactionCommit d m σ = some s' at hhandle
    unfold handleTransactionCommit at hhandle
    have hclient : Move .noEnds s (s.setClient d
        { s.clients d with commitMessages := (s.clients d).commitMessages ++ [m] }) :=
      .client rfl rfl
    split_ifs at hhandle with hactive hfollow
    · obtain rfl := Option.some.inj hhandle
      exact hother ((Move.send d _).abates hord.healthy hfit) (by rintro _ ⟨⟩)
    · obtain rfl := Option.some.inj hhandle
      exact hother (hclient.abates hord.healthy hfit) (by rintro _ ⟨⟩)
    · rw [Bool.not_eq_true'] at hactive
      have hactive := Bool.of_not_eq_false hactive
      have hgathered : Move .noCommits s (s.setClient d
        { s.clients d with commitMessages := (s.clients d).commitMessages ++ [m] }) :=
        .client rfl rfl
      refine finishCommit_circleFree hhandle ?_ (hwf.setClient rfl) (hgathered.ordered hord)
        (hgathered.allFit hord.healthy hfit) (hqs.of_sublist fun _ => List.Sublist.refl _)
        ((hclient.abates hord.healthy hfit).circleFree hfree)
        (hok.proper hactive (Bool.eq_false_iff.mpr hfollow))
      have hactives : (s.setClient d { s.clients d with
          commitMessages := (s.clients d).commitMessages ++ [m] }).active = s.active :=
        active_setClient_of_eq rfl
      rw [hactives, hactive]
  | _ => exact hother (hmoves id trivial) (by rintro _ ⟨⟩)

/-- In runs that find all circles they close, the server is patient and free of circles. -/
theorem patient_of_findsAll {files : DatabaseName → Option FileContent} {delay : ℕ}
    {es : List Event} (hfiles : ∀ name f, files name = some f →
      ∃ db : Database, db.Reachable Database.Keeps ∧ db.file = f)
    (hrun : GuardedRun step FindsAll (start files delay) es s) :
    Ordered s ∧ Patient s ∧ s.CircleFree := by
  have hinvariant : UsersWF s ∧ Ordered s ∧ AllFit s ∧ QueuesWF s ∧ s.CircleFree := by
    refine hrun.invariant (I := fun _ s => UsersWF s ∧ Ordered s ∧ AllFit s ∧ QueuesWF s ∧
      s.CircleFree) ⟨usersWF_start files delay, ordered_start hfiles,
        fun _ _ hq => absurd hq List.not_mem_nil, queuesWF_start files delay, fun x hx => ?_⟩
      fun _ s e s' h hok hstep => ?_
    · obtain ⟨y, name, q, hq, -⟩ := WaitGraph.exists_of_transGen hx
      exact absurd hq List.not_mem_nil
    · obtain ⟨hwf, hord, hfit, hqs, hfree⟩ := h
      have hstep := step_eq_some_iff.mp hstep
      obtain ⟨hfree', hqs'⟩ := hstep.circleFree hwf hord hfit hqs hok hfree
      exact ⟨hstep.usersWF hwf, hstep.ordered hwf hord hok.proper,
        hstep.allFit hwf hord.healthy hfit, hqs', hfree'⟩
  obtain ⟨hwf, hord, hfit, hqs, hfree⟩ := hinvariant
  exact ⟨hord, ⟨hwf, hord.healthy, hord.booksWF, hfit, hqs⟩, hfree⟩

/-- In runs in which no client sends a request while it waits, all commits are proper, and each
read that waits finds the circles it would close, no clients ever wait in a circle. A further read
that has to wait, and finds nothing, closes one if and only if a chain leads back to it. -/
theorem circleFree_of_findsAll {files : DatabaseName → Option FileContent} {delay : ℕ}
    {es : List Event} (hfiles : ∀ name f, files name = some f →
      ∃ db : Database, db.Reachable Database.Keeps ∧ db.file = f)
    (hrun : GuardedRun step FindsAll (start files delay) es s) :
    s.CircleFree ∧ ∀ m name s', s.step (.blobsRead m) = some s' → s.Idle m.clientId →
      s.getDatabase m.clientId m.databaseId = some name → m ∈ s'.queue name →
      (∀ x, ¬s.InDeadlock name m x) →
      (s'.CircleFree ↔ ∀ x, s.BlockedBy name m x → ¬ReflTransGen s.Awaits x m.clientId) := by
  obtain ⟨-, hp, hfree⟩ := patient_of_findsAll hfiles hrun
  exact ⟨hfree, fun m name s' hstep hidle hname hm hnone =>
    handleBlobsRead_circleFree_iff (step_eq_some_iff.mp hstep).2 hp.healthy hfree hidle hname hm hnone⟩

/-- A client waits at most in databases it has open. -/
theorem UsersWF.idle_iff (h : UsersWF s) :
    s.Idle c ↔ ∀ name ∈ s.openNames c, ∀ q ∈ s.queue name, q.clientId ≠ c :=
  ⟨fun hidle name _ q hq hqc => hidle name ⟨q, hq, hqc⟩, fun hopen name hw => by
    obtain ⟨q, hq, hqc⟩ := id hw
    exact hopen name (h.waits c name hw) q hq hqc⟩

/-- The event is no commit. Its client does not wait, and nobody waits for it. -/
def FromLonely (s : Server) (e : Event) : Prop :=
  e.IsCommit = false ∧ ∀ c ∈ e.sender, ∀ name ∈ s.openNames c,
    (∀ q ∈ s.queue name, q.clientId ≠ c) ∧ ∀ p ∈ s.waiters name, p.2 ≠ c

instance (s : Server) (e : Event) : Decidable (s.FromLonely e) :=
  inferInstanceAs (Decidable (_ ∧ ∀ c ∈ e.sender, ∀ name ∈ s.openNames c,
    (∀ q ∈ s.queue name, q.clientId ≠ c) ∧ ∀ p ∈ s.waiters name, p.2 ≠ c))

/-- No chain leads back to a client that nobody waits for. -/
theorem FromLonely.findsAll {e : Event} (h : s.FromLonely e) (hord : Ordered s) (hp : Patient s) :
    s.FindsAll e where
  sender c hc := Or.inl (hp.usersWF.idle_iff.mpr fun name hname => (h.2 c hc name hname).1)
  proper := commitsOrderly_of_not_isCommit h.1 _
  finds m name he hfits := by
    subst he
    refine Or.inr (Or.inr fun x hx hchain => ?_)
    obtain heq | ⟨z, -, ⟨name', hzc⟩, -⟩ := ReflTransGen.cases_tail hchain
    · exact hx.active.1 heq.symm
    -- the client has a lock in the database, so it has opened it
    obtain ⟨q, -, -, t, ls, -, -, l, -, hconflict⟩ := id hzc
    have hheld := ((hord.locksWF.agrees name').heldBy l _).mp
      (LockBook.heldBy_of_mem_conflicts hconflict)
    have hopen := hord.locksWF.isOpen name' _ l hheld.1
    exact (h.2 m.clientId rfl name' hopen).2 _ (mem_waiters.mpr hzc) rfl

/-- The clients `2` and `1` wait for the clients `3` and `2`. When the client `3` comes to wait for
the client `1`, this is not found. -/
theorem circleFree_of_findsAll_three : ∃ es s s',
    GuardedRun step FindsAll (start (fun _ => none) 0) es s ∧ s.CircleFree ∧
      s.step (.blobsRead (wants 3 ⟨0, 0, 0⟩)) = some s' ∧ ¬s'.CircleFree := by
  let es : List Event := beginAll [1, 2, 3] ++ [.blobsRead (wants 1 ⟨0, 0, 0⟩),
    .blobsRead (wants 2 ⟨0, 0, nextFreeBlobId⟩),
    .blobsRead (wants 3 ⟨0, nextFreeClusterId, nextFreeBlobId⟩),
    .blobsRead (wants 2 ⟨0, nextFreeClusterId, nextFreeBlobId⟩),
    .blobsRead (wants 1 ⟨0, 0, nextFreeBlobId⟩)]
  let m := wants 3 ⟨0, 0, 0⟩
  have hplay : ((GuardedRun.play step FromLonely es (start (fun _ => none) 0)).bind fun s =>
      (s.step (.blobsRead m)).bind fun s' => (s.databases (.mem 0)).bind fun od =>
        (s.tree (.mem 0)).map fun t =>
          decide (collectLockConflicts s.active m t od = some [1] ∧
            (1, 2) ∈ s.waiters (.mem 0) ∧ (2, 3) ∈ s.waiters (.mem 0) ∧
            (1, 3) ∉ s.waiters (.mem 0) ∧ s.getDatabase 3 0 = some (.mem 0) ∧
            m ∈ s'.queue (.mem 0) ∧ ∀ name ∈ s.openNames 3, ∀ q ∈ s.queue name, q.clientId ≠ 3)) =
      some true := by
    decide +kernel
  obtain ⟨s, hs, hplay⟩ := Option.bind_eq_some_iff.mp hplay
  obtain ⟨s', hs', hplay⟩ := Option.bind_eq_some_iff.mp hplay
  obtain ⟨od, hod, hplay⟩ := Option.bind_eq_some_iff.mp hplay
  obtain ⟨t, ht, hplay⟩ := Option.map_eq_some_iff.mp hplay
  obtain ⟨hblocked, h12, h23, h13, hname, hm, hidle⟩ := of_decide_eq_true hplay
  have hfiles : ∀ name f, (fun _ => none : DatabaseName → Option FileContent) name = some f →
      ∃ db : Database, db.Reachable Database.Keeps ∧ db.file = f := by rintro _ _ ⟨⟩
  have hrun : GuardedRun step FindsAll (start (fun _ => none) 0) es s := by
    refine ((GuardedRun.of_play hs).weaken (I := fun _ _ => True) trivial
      fun _ s e _ hrun _ hlonely _ => ⟨?_, trivial⟩).1
    obtain ⟨hord, hp, -⟩ := patient_of_findsAll hfiles hrun
    exact hlonely.findsAll hord hp
  obtain ⟨-, hp, -⟩ := patient_of_findsAll hfiles hrun
  have hblocks : ∀ x, s.BlockedBy (.mem 0) m x ↔ x = 1 := fun x => by
    rw [tree_of_some hod] at ht
    rw [← mem_collectLockConflicts hod ht hblocked, List.mem_singleton]
  obtain ⟨hfree, hiff⟩ := circleFree_of_findsAll hfiles hrun
  refine ⟨es, s, s', hrun, hfree, hs', fun hfree' => ?_⟩
  refine (hiff m (.mem 0) s' hs' (hp.usersWF.idle_iff.mpr hidle) hname hm (fun x hx => ?_)).mp hfree'
    1 ((hblocks 1).mpr rfl)
    (.tail (.single ⟨.mem 0, mem_waiters.mp h12⟩) ⟨.mem 0, mem_waiters.mp h23⟩)
  obtain rfl := (hblocks x).mp hx.1
  exact h13 (mem_waiters.mpr hx.2)

end Server

end BlobsDb
