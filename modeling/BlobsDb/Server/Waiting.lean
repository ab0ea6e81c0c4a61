import BlobsDb.Server.Handling

/-!
# Reads that wait fit

A read that waits may have what it asks for, once it gets the locks (`Fits`). This holds in all
runs (`Step.allFit`): a commit may delete what is asked for, but then all reads that wait in the
databases of its client are tried again.
-/

namespace BlobsDb

namespace Server

variable {P : Permit} {s s' : Server} {c d : ClientId}
  {name name' : DatabaseName} {od od' : OpenDatabase} {m q : BlobsRead} {b : Bool}
  {id : DatabaseId}

/-- All reads that wait fit their databases. -/
def AllFit (s : Server) : Prop := ∀ name, ∀ q ∈ s.queue name, s.Fits name q

/-! ### What a read knows -/

/-- Nothing changes for the client of a read and in its database. -/
theorem Fits.congr (h : s.Fits name q) (hactive : s'.active q.clientId = s.active q.clientId)
    (hslot : (s'.clients q.clientId).openDatabases[q.databaseId]? =
      (s.clients q.clientId).openDatabases[q.databaseId]?)
    (htree : s'.tree name = s.tree name) : s'.Fits name q where
  active := hactive.trans h.active
  getDatabase := by
    rw [Server.getDatabase, hslot]
    exact h.getDatabase
  isMVCC := by
    rw [Server.isDatabaseMVCC, hslot]
    exact h.isMVCC
  isDirtyRead := h.isDirtyRead
  exist := by
    rw [htree]
    exact h.exist

theorem Fits.of_clients (h : s.Fits name q) (hclients : s'.clients q.clientId = s.clients q.clientId)
    (htree : s'.tree name = s.tree name) : s'.Fits name q :=
  h.congr (by rw [Server.active, hclients, Server.active]) (by rw [hclients]) htree

theorem Fits.setClient (h : s.Fits name q) (hne : q.clientId ≠ c) (client : Client) :
    (s.setClient c client).Fits name q :=
  h.of_clients (clients_setClient_of_ne hne client) rfl

/-- Entering a database leaves the other entries as they are. -/
theorem getElem?_enterDatabase {slots slots' : List DatabaseSlot} {slot e : DatabaseSlot}
    {id i : DatabaseId} (h : enterDatabase slots slot = some (id, slots'))
    (he : slots[i]? = some e) (hused : e.database ≠ none) : slots'[i]? = some e := by
  unfold enterDatabase at h
  split at h
  · next j hj =>
    cases h
    obtain ⟨hlt, hnone, -⟩ := List.findIdx?_eq_some_iff_getElem.mp hj
    rw [List.getElem?_set_ne, he]
    rintro rfl
    rw [List.getElem?_eq_getElem hlt] at he
    rw [Option.some.inj he] at hnone
    exact hused (Option.isNone_iff_eq_none.mp hnone)
  · split_ifs at h
    cases h
    rw [List.getElem?_append_left (List.getElem?_eq_some_iff.mp he).1, he]

/-! ### Moves -/

theorem mem_queue_of_change (h : od.Change P s name od') (hq : q ∈ od'.queuedReads) :
    q ∈ od.queuedReads ∨ s.Fits name q := by
  cases h with
  | queued hqs => exact (hqs q hq).imp_right And.right
  | committed _ _ _ hcommit =>
    obtain ⟨r, book, -, -, rfl⟩ := commitDatabase_eq_some hcommit
    exact Or.inl hq
  | _ => exact Or.inl hq

/-- What is not committed keeps the tree. -/
theorem tree_of_change (h : od.Change .noCommits s name od')
    (hod : s.databases name = some od) (hs : Healthy s) :
    od'.database.tree od'.database.snapshot = od.database.tree od.database.snapshot := by
  cases h with
  | looked hp hl => exact hs.tree_looked hod hp hl
  | committed _ _ hpermit => exact hpermit.elim
  | _ => rfl

/-- Without commits, all reads that wait still fit. -/
theorem Move.allFit (h : Move .noCommits s s') (hs : Healthy s) (hfit : AllFit s) :
    AllFit s' := by
  intro name' q hq
  -- a read that waits belongs to a client in a transaction
  have hinactive : ∀ {c}, s.active c = false → q ∈ s.queue name' → q.clientId ≠ c :=
    fun hc hq heq => by
      rw [← heq, (hfit name' q hq).active] at hc
      cases hc
  cases h with
  | send => exact (hfit name' q hq).of_clients rfl rfl
  | @client c client hopen htxn =>
    by_cases hc : q.clientId = c
    · refine (hfit name' q hq).congr ?_ ?_ rfl
      · rw [hc, active, clients_setClient_self, htxn]
        rfl
      · rw [hc, clients_setClient_self, hopen]
    · exact (hfit name' q hq).setClient hc client
  | mode mvcc hactive => exact (hfit name' q hq).setClient (hinactive hactive hq) _
  | begun priority hactive => exact (hfit name' q hq).setClient (hinactive hactive hq) _
  | ended _ hidle => exact (hfit name' q hq).setClient (fun hc => hidle name' ⟨q, hq, hc⟩) _
  | @entered c id name mvcc slots hnew hslots =>
    by_cases hc : q.clientId = c
    · have hq' := hfit name' q hq
      obtain ⟨slot, hslot, hname⟩ := getDatabase_eq_some_iff.mp hq'.getDatabase
      refine hq'.congr ?_ ?_ rfl
      · rw [hc, active, clients_setClient_self]
        rfl
      · rw [hslot]
        rw [hc] at hslot ⊢
        rw [clients_setClient_self]
        exact getElem?_enterDatabase hslots hslot (by rw [hname]; rintro ⟨⟩)
    · exact (hfit name' q hq).setClient hc _
  | left mvcc hactive => exact (hfit name' q hq).setClient (hinactive hactive hq) _
  | @opened name db hnone hdb =>
    by_cases hne : name' = name
    · subst hne
      rw [queue_setDatabase_self] at hq
      cases hq
    · rw [queue_setDatabase_of_ne hne] at hq
      exact (hfit name' q hq).of_clients rfl (tree_setDatabase_of_ne hne)
  | @closed name huse =>
    have hdb : (s.closeDatabase name).databases name' =
        if name' = name then none else s.databases name' := by
      rw [closeDatabase_databases, Function.update_apply]
    by_cases hne : name' = name
    · rw [if_pos hne] at hdb
      rw [queue_of_none hdb] at hq
      cases hq
    · rw [if_neg hne] at hdb
      rw [queue_congr hdb] at hq
      exact (hfit name' q hq).of_clients (by rw [closeDatabase_clients]) (by rw [tree, hdb, tree])
  | @database name od od' hod hchange =>
    by_cases hne : name' = name
    · subst hne
      rw [queue_setDatabase_self] at hq
      have hq' : s.Fits name' q := (mem_queue_of_change hchange hq).elim
        (fun hq => hfit name' q (by rwa [queue_of_some hod])) id
      refine hq'.of_clients rfl ?_
      rw [tree_setDatabase_self, tree_of_change hchange hod hs, tree_of_some hod]
    · rw [queue_setDatabase_of_ne hne] at hq
      exact (hfit name' q hq).of_clients rfl (tree_setDatabase_of_ne hne)

theorem Moves.allFit (h : Moves .noCommits s s') (hs : Healthy s) (hfit : AllFit s) :
    AllFit s' := by
  have hboth : Healthy s' ∧ AllFit s' := by
    induction h with
    | refl => exact ⟨hs, hfit⟩
    | tail _ hmove ih =>
      exact ⟨hmove.sound (fun _ _ _ _ _ _ _ _ _ _ => trivial) ih.1, hmove.allFit ih.1 ih.2⟩
  exact hboth.2

/-! ### The end of a transaction -/

theorem tree_leaveDatabase {slot : DatabaseSlot} (h : leaveDatabase c b s slot = some s')
    (name : DatabaseName) : s'.tree name = s.tree name := by
  unfold leaveDatabase at h
  split at h
  · obtain rfl := Option.some.inj h
    rfl
  · next name₁ hslot =>
    obtain ⟨od, od', hod, hod', rfl⟩ := updateDatabase_eq_some_iff.mp h
    obtain ⟨book, -, rfl⟩ := Option.map_eq_some_iff.mp hod'
    by_cases hne : name = name₁
    · subst hne
      rw [tree_setDatabase_self, tree_of_some hod]
      dsimp only [OpenDatabase.dropReads]
      split_ifs <;> rfl
    · exact tree_setDatabase_of_ne hne

theorem tree_foldlM_leaveDatabase {slots : List DatabaseSlot}
    (h : slots.foldlM (leaveDatabase c b) s = some s') (name : DatabaseName) :
    s'.tree name = s.tree name :=
  foldlM_induction (P := fun s' => s'.tree name = s.tree name) h rfl
    fun _ _ _ _ hstep h1 => (tree_leaveDatabase hstep name).trans h1

/-- What is left when a client ends its transaction: its own reads are gone, the others that wait
in its databases are tried again. -/
theorem abortTransaction_allFit (h : s.abortTransaction c b = some s') (hactive : s.active c = true)
    (hwf : UsersWF s) (hs : Healthy s)
    (hfit : ∀ name, ∀ q ∈ s.queue name, s.getDatabase q.clientId q.databaseId = some name ∧
      (name ∉ s.openNames c → s.Fits name q)) : AllFit s' := by
  have hhealthy : Healthy s' := by
    have hmoves : Moves .all s s' := moves_abortTransaction h hwf hs trivial
    exact hmoves.healthy hs
  rw [abortTransaction, if_pos hactive] at h
  split at h
  · cases h
  · next s₁ hs₁ =>
    have hs₁' : Healthy s₁ := by
      have hmoves : Moves .all s s₁ := moves_clientAbortTransaction hs₁ hactive hwf hs trivial
      exact hmoves.healthy hs
    obtain ⟨s₀, hleave, rfl⟩ := Option.map_eq_some_iff.mp hs₁
    obtain ⟨hkept, -, hqueue⟩ := foldlM_leaveDatabase hleave
    have hidle := hwf.idle_of_left hleave
    set s₁ := s₀.setClient c { s₀.clients c with hasTransaction := false } with hs₁_def
    obtain ⟨hsteady, -, -, hblocked⟩ := foldlM_tryProcessQueuedReads_blocked h hs₁'
    have hsub := (foldlM_tryProcessQueuedReads h).2.1
    have hnames : s₁.openNames c = s.openNames c := by
      rw [hs₁_def, openNames, clients_setClient_self, openNames, hkept.clients]
    intro name q hq
    have hq₁ : q ∈ s₁.queue name := (hsub name).subset hq
    have hne : q.clientId ≠ c := fun hc => hidle name ⟨q, hq₁, hc⟩
    have hclient : s₁.clients q.clientId = s.clients q.clientId := by
      rw [hs₁_def, clients_setClient_of_ne hne, hkept.clients]
    have hq₀ : q ∈ s.queue name := by
      have hq₀ : q ∈ s₀.queue name := hq₁
      rw [hqueue] at hq₀
      split_ifs at hq₀
      · exact List.mem_of_mem_filter hq₀
      · exact hq₀
    obtain ⟨hname, hfits⟩ := hfit name q hq₀
    by_cases hopen : name ∈ s.openNames c
    · refine (hblocked name (hnames ▸ hopen) q hq name ?_).fits
      rw [getDatabase, hclient]
      exact hname
    · exact hsteady.fits ((hfits hopen).of_clients hclient (tree_foldlM_leaveDatabase hleave name))

/-! ### Steps -/

theorem Applies.fits (h : Applies c s s') (hn : name ∉ s.openNames c) (hq : s.Fits name q) :
    s'.Fits name q :=
  hq.of_clients (by rw [h.clients]) (by rw [tree, h.databases name hn, tree])

/-- In all runs the reads that wait fit. -/
theorem Step.allFit {e : Event} (h : Step s e s') (hwf : UsersWF s) (hs : Healthy s)
    (hfit : AllFit s) : AllFit s' := by
  have hmoves : s.CommitsOrderly (fun _ _ => False) e → AllFit s' := fun ho =>
    (Step.moves (P := .noCommits) h hwf hs (fun _ => trivial) (fun _ => trivial)
      (fun _ => trivial) ho).allFit hs hfit
  obtain ⟨-, hhandle⟩ := h
  cases e with
  | transactionCommit d m σ =>
    change s.handleTransactionCommit d m σ = some s' at hhandle
    unfold handleTransactionCommit at hhandle
    have hclient : Moves .noCommits s (s.setClient d
        { s.clients d with commitMessages := (s.clients d).commitMessages ++ [m] }) :=
      .single (.client rfl rfl)
    split_ifs at hhandle with hactive hfollow
    · obtain rfl := Option.some.inj hhandle
      exact (Move.send d _).allFit hs hfit
    · obtain rfl := Option.some.inj hhandle
      exact hclient.allFit hs hfit
    · set s₀ := s.setClient d
        { s.clients d with commitMessages := (s.clients d).commitMessages ++ [m] } with hs₀
      have hactive₀ : s₀.active d = true := by
        rw [hs₀, active, clients_setClient_self]
        rw [Bool.not_eq_true'] at hactive
        exact Bool.of_not_eq_false hactive
      obtain ⟨s₁, s₂, s₃, b, h1, hwf₁, hactive₁, h2, happlies, h3, hclients, hdatabases, habort⟩ :=
        finishCommit_moves .all hhandle hactive₀ (hwf.setClient rfl)
          (hclient.healthy hs) fun _ _ _ _ _ _ _ _ _ _ _ => trivial
      have hs₁ := h1.healthy (hclient.healthy hs)
      have hfit₁ := (h1.mono (Permit.noBegins_le trivial)).allFit (hclient.healthy hs) (hclient.allFit hs hfit)
      have hnames : ∀ c, s₃.openNames c = s₁.openNames c := fun c =>
        openNames_congr (by rw [hclients, happlies.clients])
      have hqueue : ∀ name, s₃.queue name = s₁.queue name := fun name =>
        (queue_congr (congrFun hdatabases name)).trans (happlies.queue name)
      have hwf₃ : UsersWF s₃ := hwf₁.of_sublist hnames (fun name => Or.inl
        ((useCount_congr (congrFun hdatabases name)).trans (happlies.useCount name)))
        fun name => by rw [hqueue]
      refine abortTransaction_allFit habort ?_ hwf₃ (h3.healthy (h2.healthy hs₁))
        fun name q hq => ?_
      · rw [active, hclients, happlies.clients]
        exact hactive₁
      · rw [hqueue] at hq
        have hq₁ := hfit₁ name q hq
        refine ⟨?_, fun hn => ?_⟩
        · rw [getDatabase, hclients, happlies.clients]
          exact hq₁.getDatabase
        · rw [hnames] at hn
          exact (happlies.fits hn hq₁).of_clients (by rw [hclients])
            (by rw [tree, hdatabases, tree])
  | _ => exact hmoves trivial

theorem commitsOrderly_all (e : Event) : s.CommitsOrderly Permit.all.commits e := by
  cases e
  case transactionCommit => exact fun _ _ _ _ _ _ _ _ _ _ _ _ _ => trivial
  all_goals trivial

theorem Step.healthy {e : Event} (h : Step s e s') (hwf : UsersWF s) (hs : Healthy s) :
    Healthy s' := by
  have hmoves : Moves .all s s' := h.moves hwf hs (fun _ => trivial) (fun _ => trivial)
      (fun _ => trivial) (commitsOrderly_all e)
  exact hmoves.healthy hs

end Server

end BlobsDb
