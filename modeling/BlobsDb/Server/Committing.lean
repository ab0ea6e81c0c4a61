import BlobsDb.Server.Handling

/-!
# Invariants under commits

A commit is first validated for all its databases and then applied to one after another. What holds
of the server is kept by the end of a commit if it is kept by the moves that are no commits, and
by applying validated messages to one database (`finishCommit_keeps`). The database of such messages
is as the validation left it, and this in turn started from the database before the commit.
-/

namespace BlobsDb

namespace Server

variable {s s' s₀ : Server} {c : ClientId} {name : DatabaseName} {od : OpenDatabase}

/-- The messages `g` were valid for a database that was open before, and are granted `ls`: of the
open database, which was `od₀`, validation has only changed what is loaded. -/
structure Validates (s : Server) (c : ClientId) (g : DatabaseId × List TransactionCommit)
    (ls : List BlobLocation) (name : DatabaseName) (od₀ od : OpenDatabase) : Prop where
  getDatabase : s.getDatabase c g.1 = some name
  databases : s.databases name = some od₀
  eq : od = { od₀ with database := od.database }
  validated : od₀.database.validateCommitMessages (od₀.locks.ownsWriteLock c)
    (s.isDatabaseMVCC c g.1) g.2 = some (.success, od.database, ls)

/-- Validation leaves the other databases alone. -/
theorem databases_validateCommitMessages {gs : List (DatabaseId × List TransactionCommit)}
    {r : TransactionCommitResponse.Result} {ls : List (DatabaseId × List BlobLocation)}
    (h : validateCommitMessages c gs s = some (r, ls, s'))
    (hname : ∀ g ∈ gs, s.getDatabase c g.1 ≠ some name) : s'.databases name = s.databases name := by
  induction gs generalizing s ls with
  | nil =>
    cases h
    rfl
  | cons g gs ih =>
    rw [validateCommitMessages] at h
    split at h
    · cases h
      rfl
    · next name₁ hname₁ =>
      have hne : name ≠ name₁ := fun heq => hname g List.mem_cons_self (heq ▸ hname₁)
      split at h
      · cases h
      · split at h
        · cases h
        · obtain ⟨⟨r', ls', s₁⟩, hr, heq⟩ := Option.map_eq_some_iff.mp h
          cases heq
          rw [ih hr fun g' hg' => hname g' (List.mem_cons_of_mem _ hg'), databases_setDatabase_of_ne hne]
        · cases h
          exact databases_setDatabase_of_ne hne

/-- All groups of a valid commit are. -/
theorem validates_of_success {gs : List (DatabaseId × List TransactionCommit)}
    {ls : List (DatabaseId × List BlobLocation)}
    (h : validateCommitMessages c gs s = some (.success, ls, s')) (hwf : UsersWF s)
    (hn : (gs.map Prod.fst).Nodup) : ∀ p ∈ gs.zip (ls.map Prod.snd), ∃ name od₀ od,
      s'.databases name = some od ∧ Validates s c p.1 p.2 name od₀ od := by
  induction gs generalizing s ls with
  | nil => exact fun _ hp => nomatch hp
  | cons g gs ih =>
    obtain ⟨hg, hn⟩ := List.nodup_cons.mp hn
    rw [validateCommitMessages] at h
    split at h
    · cases h
    · next name hname =>
      split at h
      · cases h
      · next od hod =>
        split at h
        · cases h
        · next db ls₁ hvalid =>
          obtain ⟨⟨r', ls', s₁⟩, hr, heq⟩ := Option.map_eq_some_iff.mp h
          cases heq
          have hwf₁ : UsersWF (s.setDatabase name { od with database := db }) := by
            refine (sameDatabases_setDatabase hod ?_ ?_).usersWF hwf <;> rfl
          -- the other groups are about other databases
          have hother : ∀ g' ∈ gs, s.getDatabase c g'.1 ≠ some name := fun g' hg' hname' =>
            hg (hwf.getDatabase_inj hname hname' ▸ List.mem_map_of_mem hg')
          intro p hp
          rw [List.map_cons, List.zip_cons_cons] at hp
          rcases List.mem_cons.mp hp with rfl | hp
          · refine ⟨name, od, { od with database := db }, ?_, hname, hod, rfl, hvalid⟩
            rw [databases_validateCommitMessages hr hother, databases_setDatabase_self]
          · obtain ⟨name', od₀, od', hod', hv⟩ := ih hr hwf₁ hn p hp
            have hne : name' ≠ name := fun heq =>
              hother p.1 (List.of_mem_zip hp).1 (heq ▸ hv.getDatabase)
            refine ⟨name', od₀, od', hod', hv.getDatabase, ?_, hv.eq, hv.validated⟩
            rw [← hv.databases, databases_setDatabase_of_ne hne]
        · next r' db ls₁ hne' hvalid =>
          cases h
          exact absurd rfl hne'

/-- There are locks for each group of a valid commit. -/
theorem map_fst_of_success {gs : List (DatabaseId × List TransactionCommit)}
    {ls : List (DatabaseId × List BlobLocation)}
    (h : validateCommitMessages c gs s = some (.success, ls, s')) :
    (gs.zip (ls.map Prod.snd)).map Prod.fst = gs := by
  induction gs generalizing s ls with
  | nil => rfl
  | cons g gs ih =>
    rw [validateCommitMessages] at h
    split at h
    · cases h
    · split at h
      · cases h
      · split at h
        · cases h
        · obtain ⟨⟨r', ls', s₁⟩, hr, heq⟩ := Option.map_eq_some_iff.mp h
          cases heq
          rw [List.map_cons, List.zip_cons_cons, List.map_cons, ih hr]
        · next r' db ls₁ hne' hvalid =>
          cases h
          exact absurd rfl hne'

variable {I : Server → Prop} {σ : DatabaseName → Schedule}

/-- What the commits of a list of groups do to a database. -/
theorem databases_commitDatabases (name : DatabaseName)
    {gs : List ((DatabaseId × List TransactionCommit) × List BlobLocation)}
    {commits : List (DatabaseId × CommitId)} (h : commitDatabases c σ gs s = some (commits, s'))
    (hwf : UsersWF s) (hn : (gs.map fun p => p.1.1).Nodup) :
    s'.files = s.files ∧
      ((∀ p ∈ gs, s.getDatabase c p.1.1 ≠ some name) → s'.databases name = s.databases name) ∧
      ∀ p ∈ gs, s.getDatabase c p.1.1 = some name → ∃ od od', s.databases name = some od ∧
        commitDatabase c (p.1.2.flatMap TransactionCommit.blobs) (σ name) p.2 od = some od' ∧
        s'.databases name = some od' := by
  induction gs generalizing s commits with
  | nil =>
    cases h
    exact ⟨rfl, fun _ => rfl, fun _ hp => nomatch hp⟩
  | cons p gs ih =>
    obtain ⟨g, ls⟩ := p
    obtain ⟨hg, hn⟩ := List.nodup_cons.mp hn
    rw [commitDatabases] at h
    split at h
    · cases h
    · next name₁ hname₁ =>
      split at h
      · cases h
      · next od hod =>
        split at h
        · cases h
        · next od' hod' =>
          obtain ⟨⟨commits', s₁⟩, hr, heq⟩ := Option.map_eq_some_iff.mp h
          cases heq
          obtain ⟨hu, hq⟩ := commitDatabase_keeps hod'
          have hwf₁ := (sameDatabases_setDatabase hod hu hq).usersWF hwf
          obtain ⟨hfiles, hother, hsame⟩ := ih hr hwf₁ hn
          -- the other groups are about other databases
          have hrest : name₁ = name → ∀ p ∈ gs, s.getDatabase c p.1.1 ≠ some name :=
            fun heq p hp hname => hg (List.mem_map.mpr
              ⟨p, hp, hwf.getDatabase_inj hname (heq ▸ hname₁)⟩)
          refine ⟨hfiles, fun hnot => ?_, fun p hp hname => ?_⟩
          · have hne : name ≠ name₁ := fun heq => hnot _ List.mem_cons_self (heq ▸ hname₁)
            rw [hother fun p hp => hnot p (List.mem_cons_of_mem _ hp), databases_setDatabase_of_ne hne]
          · rcases List.mem_cons.mp hp with rfl | hp
            · obtain rfl := Option.some.inj (hname₁.symm.trans hname)
              refine ⟨od, od', hod, hod', ?_⟩
              rw [hother (hrest rfl), databases_setDatabase_self]
            · have hne : name ≠ name₁ := fun heq => hrest heq.symm p hp hname
              obtain ⟨od₁, od₁', hod₁, hrest⟩ := hsame p hp hname
              rw [databases_setDatabase_of_ne hne] at hod₁
              exact ⟨od₁, od₁', hod₁, hrest⟩

/-- What applying valid messages to one database keeps is kept by applying them to all. -/
theorem commitDatabases_keeps
    {gs : List ((DatabaseId × List TransactionCommit) × List BlobLocation)}
    {commits : List (DatabaseId × CommitId)} (h : commitDatabases c σ gs s = some (commits, s'))
    (hwf : UsersWF s) (hn : (gs.map fun p => p.1.1).Nodup)
    (hclients : ∀ id, s.getDatabase c id = s₀.getDatabase c id)
    (hvalid : ∀ p ∈ gs, ∃ name od₀ od, s.databases name = some od ∧
      Validates s₀ c p.1 p.2 name od₀ od)
    (hcommit : ∀ p ∈ gs, ∀ s₁ name od₀ od od', s₁.clients = s.clients →
      s₁.databases name = some od → Validates s₀ c p.1 p.2 name od₀ od →
      commitDatabase c (p.1.2.flatMap TransactionCommit.blobs) (σ name) p.2 od = some od' →
      I s₁ → I (s₁.setDatabase name od'))
    (hI : I s) : I s' := by
  induction gs generalizing s commits with
  | nil =>
    cases h
    exact hI
  | cons p gs ih =>
    obtain ⟨g, ls⟩ := p
    obtain ⟨hg, hn⟩ := List.nodup_cons.mp hn
    rw [commitDatabases] at h
    split at h
    · cases h
    · next name hname =>
      split at h
      · cases h
      · next od hod =>
        split at h
        · cases h
        · next od' hod' =>
          obtain ⟨⟨commits', s₁⟩, hr, heq⟩ := Option.map_eq_some_iff.mp h
          cases heq
          obtain ⟨hu, hq⟩ := commitDatabase_keeps hod'
          obtain ⟨name₁, od₀, od₁, hod₁, hv⟩ := hvalid _ List.mem_cons_self
          obtain rfl := Option.some.inj (((hclients _).symm.trans hname).symm.trans hv.getDatabase)
          obtain rfl := Option.some.inj (hod.symm.trans hod₁)
          refine ih hr ((sameDatabases_setDatabase hod hu hq).usersWF hwf) hn hclients
            (fun p hp => ?_) (fun p hp => hcommit p (List.mem_cons_of_mem _ hp))
            (hcommit _ List.mem_cons_self s name od₀ od od' rfl hod hv hod' hI)
          obtain ⟨name', od₀', od', hod', hv'⟩ := hvalid p (List.mem_cons_of_mem _ hp)
          have hne : name' ≠ name := fun heq => hg (List.mem_map.mpr ⟨p, hp, hwf.getDatabase_inj
            ((hclients _).trans hv'.getDatabase) (heq ▸ hname)⟩)
          exact ⟨name', od₀', od', by rw [databases_setDatabase_of_ne hne, hod'], hv'⟩

/-- Something is looked up or sent: nothing else changes. -/
structure Prepares (s s' : Server) : Prop where
  moves : Moves .noBegins s s'
  active : s'.active = s.active
  getDatabase : ∀ d i, s'.getDatabase d i = s.getDatabase d i
  tree : ∀ name, s'.tree name = s.tree name
  locks : ∀ name, s'.locks name = s.locks name
  queue : ∀ name, s'.queue name = s.queue name

/-- A valid commit was applied to its databases: `s₁` is the server after the messages were
validated, and `s₂` the server after the commit. -/
structure AppliesCommit (s : Server) (c : ClientId) (σ : DatabaseName → Schedule)
    (gs : List (DatabaseId × List TransactionCommit)) (ls : List (DatabaseId × List BlobLocation))
    (s₁ s₂ : Server) (commits : List (DatabaseId × CommitId)) : Prop where
  nodup : (gs.map Prod.fst).Nodup
  prepares : Prepares s s₁
  valid : ∀ p ∈ gs.zip (ls.map Prod.snd), ∃ name od₀ od, s₁.databases name = some od ∧
    Validates s c p.1 p.2 name od₀ od
  usersWF : UsersWF s₁
  slots : ∀ d, (s₁.clients d).openDatabases = (s.clients d).openDatabases ∧
    (s₁.clients d).hasTransaction = (s.clients d).hasTransaction
  applied : commitDatabases c σ (gs.zip (ls.map Prod.snd)) s₁ = some (commits, s₂)

namespace AppliesCommit

variable {s₁ s₂ : Server} {gs : List (DatabaseId × List TransactionCommit)}
  {ls : List (DatabaseId × List BlobLocation)} {commits : List (DatabaseId × CommitId)}

theorem getDatabase (h : AppliesCommit s c σ gs ls s₁ s₂ commits) (id : DatabaseId) :
    s₁.getDatabase c id = s.getDatabase c id := by
  rw [Server.getDatabase, Server.getDatabase, (h.slots c).1]

theorem nodup_zip (h : AppliesCommit s c σ gs ls s₁ s₂ commits) :
    ((gs.zip (ls.map Prod.snd)).map fun p => p.1.1).Nodup := by
  have hzip := (map_fst_zip_sublist gs (ls.map Prod.snd)).map Prod.fst
  rw [List.map_map] at hzip
  exact h.nodup.sublist hzip

theorem usersWF_applied (h : AppliesCommit s c σ gs ls s₁ s₂ commits) : UsersWF s₂ :=
  (applies_commitDatabases h.applied).usersWF h.usersWF

theorem healthy (h : AppliesCommit s c σ gs ls s₁ s₂ commits) (hactive : s.active c = true)
    (hs : Healthy s) : Healthy s₂ := by
  have hactive₁ : s₁.active c = true := (h.slots c).2.trans hactive
  have hmoves : Moves .all s₁ s₂ := by
    refine moves_commitDatabases h.applied hactive₁ h.usersWF h.nodup_zip (fun p hp => ?_)
      fun _ _ _ _ _ _ => trivial
    obtain ⟨name, od₀, od, hod, hv⟩ := h.valid p hp
    obtain ⟨v, hinv⟩ := hs.exists_inv hv.databases
    exact ⟨name, od, (h.getDatabase _).trans hv.getDatabase, hod, od₀.database, v, _, hinv,
      by rw [show od.locks = od₀.locks by rw [hv.eq]]; exact hv.validated⟩
  exact hmoves.healthy (h.prepares.moves.healthy hs)

end AppliesCommit

/-- The end of a commit: the transaction ends, after the commit was applied to its databases if all
messages were valid. -/
theorem finishCommit_cases {ms : List TransactionCommit} (h : s.finishCommit c σ ms = some s')
    (hwf : UsersWF s) (hs : Healthy s) :
    ((∀ gs ls s₁, groupByDatabase [] ms = some gs →
        s.validateCommitMessages c gs ≠ some (.success, ls, s₁)) ∧
      ∃ s₁, Prepares s s₁ ∧ UsersWF s₁ ∧ s₁.abortTransaction c true = some s') ∨
    ∃ gs ls s₁ s₂ commits, groupByDatabase [] ms = some gs ∧
      s.validateCommitMessages c gs = some (.success, ls, s₁) ∧
      AppliesCommit s c σ gs ls (s₁.setClient c { s₁.clients c with commitMessages := [] }) s₂
        commits ∧
      (s₂.send c (.transactionCommit .success commits)).abortTransaction c false = some s' := by
  -- the gathered messages go in any case
  have hclears : ∀ s₁ s₂ : Server, Prepares s₁ s₂ →
      Prepares s₁ (s₂.setClient c { s₂.clients c with commitMessages := [] }) := fun s₁ s₂ h₁ => by
    refine ⟨.tail h₁.moves (.client rfl rfl), ?_, fun d i => ?_, h₁.tree, h₁.locks, h₁.queue⟩
    · rw [← h₁.active]
      exact active_setClient_of_eq rfl
    · rw [← h₁.getDatabase d i]
      by_cases hd : d = c
      · rw [hd, Server.getDatabase, clients_setClient_self, Server.getDatabase]
      · rw [Server.getDatabase, clients_setClient_of_ne hd, Server.getDatabase]
  -- a commit that is not valid is answered, and ends the transaction
  have hreject : ∀ (s₁ : Server) (r : TransactionCommitResponse.Result), Prepares s s₁ →
      UsersWF s₁ → ((s₁.send c (.transactionCommit r [])).setClient c
        { (s₁.send c (.transactionCommit r [])).clients c with commitMessages := [] }
          ).abortTransaction c true = some s' →
      ∃ s₁, Prepares s s₁ ∧ UsersWF s₁ ∧ s₁.abortTransaction c true = some s' := by
    intro s₁ r h₁ hwf₁ habort
    have hwf₂ : UsersWF (s₁.send c (.transactionCommit r [])) := hwf₁.send _
    have hsent : Prepares s (s₁.send c (.transactionCommit r [])) :=
      ⟨.tail h₁.moves (.send c _), h₁.active, h₁.getDatabase, h₁.tree, h₁.locks, h₁.queue⟩
    exact ⟨_, hclears _ _ hsent, hwf₂.setClient rfl, habort⟩
  have hvalidated : ∀ {gs r ls s₁}, s.validateCommitMessages c gs = some (r, ls, s₁) →
      (gs.map Prod.fst).Nodup → Prepares s s₁ := fun {gs r ls s₁} hvalid hnodup => by
    obtain ⟨hsame, hclients⟩ := validateCommitMessages_same hvalid
    refine ⟨(moves_validateCommitMessages hvalid hwf hs hnodup).1, ?_, fun d i => ?_,
      tree_validateCommitMessages hvalid hs, (validateCommitMessages_locks hvalid).1, hsame.queue⟩
    · funext d
      rw [active, hclients, active]
    · rw [Server.getDatabase, hclients, Server.getDatabase]
  unfold finishCommit at h
  dsimp only at h
  split at h
  · next hgroups =>
    refine Or.inl ⟨fun gs _ _ hgs => ?_,
      hreject s _ ⟨.refl, rfl, fun _ _ => rfl, fun _ => rfl, fun _ => rfl, fun _ => rfl⟩ hwf h⟩
    rw [hgroups] at hgs
    cases hgs
  · next gs hgs =>
    have hnodup : (gs.map Prod.fst).Nodup := (groups_groupByDatabase groups_nil hgs).nodup
    split at h
    · cases h
    · next ls s₁ hvalid =>
      have h₁ := hvalidated hvalid hnodup
      obtain ⟨hsame, hclients⟩ := validateCommitMessages_same hvalid
      split at h
      · cases h
      · next commits s₂ hcommitted =>
        refine Or.inr ⟨gs, ls, s₁, s₂, commits, hgs, hvalid, ⟨hnodup, hclears _ _ h₁, ?_,
          (hsame.usersWF hwf).setClient rfl, fun d => ?_, hcommitted⟩, h⟩
        · have hvalidates := validates_of_success hvalid hwf hnodup
          exact hvalidates
        · rw [← hclients]
          by_cases hd : d = c
          · subst hd
            rw [clients_setClient_self]
            exact ⟨rfl, rfl⟩
          · rw [clients_setClient_of_ne hd]
            exact ⟨rfl, rfl⟩
    · next r ls s₁ hne hvalid =>
      obtain ⟨hsame, -⟩ := validateCommitMessages_same hvalid
      refine Or.inl ⟨fun gs' ls' s₁' hgs' hvalid' => ?_,
        hreject s₁ r (hvalidated hvalid hnodup) (hsame.usersWF hwf) h⟩
      obtain rfl := Option.some.inj (hgs.symm.trans hgs')
      rw [hvalid] at hvalid'
      cases hvalid'
      exact hne rfl

/-- What the commits of valid messages keep holds when the transaction ends. -/
theorem finishCommit_applied {ms : List TransactionCommit} (h : s.finishCommit c σ ms = some s')
    (hactive : s.active c = true) (hwf : UsersWF s) (hs : Healthy s)
    (hprepares : ∀ {s₁ s₂ : Server}, Prepares s₁ s₂ → I s₁ → I s₂)
    (hcommit : ∀ gs ls s₁, groupByDatabase [] ms = some gs →
      validateCommitMessages c gs s = some (.success, ls, s₁) → ∀ p ∈ gs.zip (ls.map Prod.snd),
      ∀ s₂ name od₀ od od', s₂.active = s.active → (∀ d, s₂.openNames d = s.openNames d) →
      s₂.databases name = some od → Validates s c p.1 p.2 name od₀ od →
      commitDatabase c (p.1.2.flatMap TransactionCommit.blobs) (σ name) p.2 od = some od' →
      I s₂ → I (s₂.setDatabase name od'))
    (hI : I s) : ∃ s₂ b, I s₂ ∧ UsersWF s₂ ∧ Healthy s₂ ∧ s₂.abortTransaction c b = some s' := by
  rcases finishCommit_cases h hwf hs with ⟨-, s₁, h₁, hwf₁, habort⟩ |
    ⟨gs, ls, s₁, s₂, commits, hgs, hvalid, happlied, habort⟩
  · exact ⟨s₁, true, hprepares h₁ hI, hwf₁, h₁.moves.healthy hs, habort⟩
  have hkept : I s₂ := by
    refine commitDatabases_keeps happlied.applied happlied.usersWF happlied.nodup_zip
      happlied.getDatabase happlied.valid (fun p hp s₃ name od₀ od od' hc => ?_)
      (hprepares happlied.prepares hI)
    refine hcommit gs ls s₁ hgs hvalid p hp s₃ name od₀ od od' (funext fun d => ?_) fun d => ?_
    · rw [active, active, hc, (happlied.slots d).2]
    · exact openNames_congr (by rw [hc, (happlied.slots d).1])
  have hsent : Prepares s₂ (s₂.send c (.transactionCommit .success commits)) :=
    ⟨.single (.send c _), rfl, fun _ _ => rfl, fun _ => rfl, fun _ => rfl, fun _ => rfl⟩
  have hwf₂ : UsersWF (s₂.send c (.transactionCommit .success commits)) :=
    happlied.usersWF_applied.send _
  exact ⟨_, false, hprepares hsent hkept, hwf₂, hsent.moves.healthy (happlied.healthy hactive hs),
    habort⟩

/-- What moves and the commits of valid messages keep is kept by the end of a commit. -/
theorem finishCommit_keeps {ms : List TransactionCommit} (h : s.finishCommit c σ ms = some s')
    (hactive : s.active c = true) (hwf : UsersWF s) (hs : Healthy s)
    (hmoves : ∀ {s₁ s₂ : Server}, Moves .noBegins s₁ s₂ → I s₁ → I s₂)
    (hcommit : ∀ gs ls s₁, groupByDatabase [] ms = some gs →
      validateCommitMessages c gs s = some (.success, ls, s₁) → ∀ p ∈ gs.zip (ls.map Prod.snd),
      ∀ s₂ name od₀ od od', s₂.active = s.active → (∀ d, s₂.openNames d = s.openNames d) →
      s₂.databases name = some od → Validates s c p.1 p.2 name od₀ od →
      commitDatabase c (p.1.2.flatMap TransactionCommit.blobs) (σ name) p.2 od = some od' →
      I s₂ → I (s₂.setDatabase name od'))
    (hI : I s) : I s' := by
  obtain ⟨s₂, b, hI₂, hwf₂, hs₂, habort⟩ := finishCommit_applied h hactive hwf hs
    (fun hprepares => hmoves hprepares.moves) hcommit hI
  exact hmoves (moves_abortTransaction habort hwf₂ hs₂ trivial) hI₂

end Server

end BlobsDb
