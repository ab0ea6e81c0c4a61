import BlobsDb.Server.Events
import BlobsDb.Storage.Running

/-!
# Commits of several messages

The messages of a commit are gathered with the client until the last one arrives. The client
keeps them when its transaction is aborted, by a message, as the victim of a deadlock or by the end
of its connection, and the next commit applies them as well. That may be the commit of another client,
who got the id after the connection was closed. As long as no transaction with such messages is
aborted, a commit applies the messages of its own transaction (`Gathers.applied`).
-/

namespace BlobsDb

/-! ### Groups of messages -/

/-- The groups have all messages in their order, each group those for its database. -/
structure Groups (ms : List TransactionCommit)
    (gs : List (DatabaseId × List TransactionCommit)) : Prop where
  flatten : gs.flatMap Prod.snd = ms
  nodup : (gs.map Prod.fst).Nodup
  databaseId : ∀ g ∈ gs, ∀ m ∈ g.2, m.databaseId = g.1

theorem groups_nil : Groups [] [] := ⟨rfl, List.nodup_nil, fun _ hg => nomatch hg⟩

theorem groups_groupByDatabase {ms ms' : List TransactionCommit}
    {gs gs' : List (DatabaseId × List TransactionCommit)} (hgs : Groups ms gs)
    (h : groupByDatabase gs ms' = some gs') : Groups (ms ++ ms') gs' := by
  induction ms' generalizing ms gs with
  | nil =>
    obtain rfl := Option.some.inj h
    rwa [List.append_nil]
  | cons m ms' ih =>
    rw [← List.singleton_append, ← List.append_assoc]
    rw [groupByDatabase] at h
    split_ifs at h with hmem
    · split at h
      · next g hg =>
        split_ifs at h with hid
        refine ih ?_ h
        obtain ⟨gs, rfl⟩ := List.getLast?_eq_some_iff.mp hg
        rw [List.dropLast_concat]
        refine ⟨?_, ?_, fun g' hg' => ?_⟩
        · rw [← hgs.flatten]
          simp
        · have := hgs.nodup
          rw [List.map_append] at this ⊢
          exact this
        · rcases List.mem_append.mp hg' with hg' | hg'
          · exact hgs.databaseId g' (List.mem_append_left _ hg')
          · rw [List.mem_singleton.mp hg']
            intro m' hm'
            rcases List.mem_append.mp hm' with hm' | hm'
            · exact hgs.databaseId g (List.mem_append_right _ (List.mem_singleton_self g)) m' hm'
            · rw [List.mem_singleton.mp hm', hid]
      · cases h
    · refine ih ⟨?_, ?_, fun g' hg' => ?_⟩ h
      · rw [← hgs.flatten]
        simp
      · rw [List.map_append]
        refine List.nodup_append'.mpr ⟨hgs.nodup, List.nodup_singleton _, fun x hx hx' => hmem ?_⟩
        rwa [List.mem_singleton.mp hx'] at hx
      · rcases List.mem_append.mp hg' with hg' | hg'
        · exact hgs.databaseId g' hg'
        · rw [List.mem_singleton.mp hg']
          exact fun m' hm' => congrArg _ (List.mem_singleton.mp hm')

namespace Server

variable {s s' : Server} {c d : ClientId} {name : DatabaseName} {m : BlobsRead} {e : Event}
  {files : DatabaseName → Option FileContent} {delay : ℕ}
  {r : ClientId → List TransactionCommit}

/-! ### Messages since a transaction began -/

/-- The messages of commits a client sent since its transaction began, one step later. -/
def received (c : ClientId) (s : Server) (e : Event) (s' : Server)
    (ms : List TransactionCommit) : List TransactionCommit :=
  if !s.active c && s'.active c then []
  else
    match e with
    | .transactionCommit d m _ => if d = c then ms ++ [m] else ms
    | _ => ms

/-- A step aborts no transaction of which commit messages were gathered: neither on request, nor at
the end of a connection, nor to resolve a deadlock. -/
def AbortsNoCommit (s : Server) : Event → Prop
  | .transactionAbort c | .connectionClosed c =>
    s.active c = true → (s.clients c).commitMessages = []
  | .blobsRead m => ∀ vs s₂, findVictims m s = some (vs, s₂) →
    ∀ c ∈ vs, (s.clients c).commitMessages = []
  | _ => True

/-- A run of steps that are allowed, with the messages each client sent since its transaction
began. -/
inductive Gathers (allowed : Server → Event → Prop) (s₀ : Server) :
    Server → (ClientId → List TransactionCommit) → Prop
  | nil : Gathers allowed s₀ s₀ fun _ => []
  | step {s s' : Server} {e : Event} {r : ClientId → List TransactionCommit}
    (hrun : Gathers allowed s₀ s r) (ha : allowed s e) (hstep : Step s e s') :
    Gathers allowed s₀ s' fun c => received c s e s' (r c)

/-- The entries of the messages are applied, database by database, and the client is told so. -/
def Applied (c : ClientId) (σ : DatabaseName → Schedule) (ms : List TransactionCommit)
    (s s' : Server) : Prop :=
  ∃ gs ls commits s₁ s₂, groupByDatabase [] ms = some gs ∧ Groups ms gs ∧
    validateCommitMessages c gs s = some (.success, ls, s₁) ∧
    commitDatabases c σ (gs.zip (ls.map Prod.snd))
      (s₁.setClient c { s₁.clients c with commitMessages := [] }) = some (commits, s₂) ∧
    (s₂.send c (.transactionCommit .success commits)).abortTransaction c false = some s'

/-! ### What a client is left with -/

/-- What the server keeps of the commit and the transaction of a client. -/
def SameTransaction (d : ClientId) (s s' : Server) : Prop :=
  (s'.clients d).commitMessages = (s.clients d).commitMessages ∧ s'.active d = s.active d

theorem SameTransaction.of_eq (h : s'.clients d = s.clients d) : SameTransaction d s s' := by
  unfold SameTransaction active
  rw [h]
  exact ⟨rfl, rfl⟩

/-- The messages are those since the transaction began, and there are none without one. That does
not depend on whether the client is connected: the entry is kept for the next client with the id. -/
def Gathered (d : ClientId) (s : Server) (ms : List TransactionCommit) : Prop :=
  (s.clients d).commitMessages = if s.active d then ms else []

theorem Gathered.of_same {ms : List TransactionCommit} (h : Gathered d s ms)
    (hs : SameTransaction d s s') : Gathered d s' ms := by
  unfold Gathered at h ⊢
  rwa [hs.1, hs.2]

theorem Gathered.of_inactive {ms : List TransactionCommit} (h : s.active d = false)
    (hm : (s.clients d).commitMessages = []) : Gathered d s ms := by
  rwa [Gathered, h]

theorem Gathered.of_active {ms : List TransactionCommit} (h : s.active d = true)
    (hm : (s.clients d).commitMessages = ms) : Gathered d s ms := by
  rwa [Gathered, h]

/-- Between transactions nothing is gathered. -/
theorem Gathered.eq_nil {ms : List TransactionCommit} (h : Gathered d s ms)
    (hs : s.active d = false) : (s.clients d).commitMessages = [] := by
  rwa [Gathered, hs] at h

theorem Gathered.eq {ms : List TransactionCommit} (h : Gathered d s ms)
    (hs : s.active d = true) : (s.clients d).commitMessages = ms := by
  rwa [Gathered, hs] at h

theorem received_of_not_begun {ms : List TransactionCommit}
    (h : (!s.active d && s'.active d) = false) (he : ∀ m σ, e ≠ .transactionCommit d m σ) :
    received d s e s' ms = ms := by
  unfold received
  rw [if_neg (by simp [h])]
  cases e with
  | transactionCommit c m σ => exact if_neg fun hc => he m σ (by rw [hc])
  | _ => rfl

/-- A transaction that has just begun has received nothing. -/
theorem received_of_begun {ms : List TransactionCommit} (hs : s.active d = false)
    (hs' : s'.active d = true) : received d s e s' ms = [] := by
  unfold received
  rw [hs, hs']
  rfl

theorem received_of_same {ms : List TransactionCommit} (hs : SameTransaction d s s')
    (he : ∀ m σ, e ≠ .transactionCommit d m σ) : received d s e s' ms = ms := by
  refine received_of_not_begun ?_ he
  rw [hs.2]
  cases s.active d <;> rfl

/-- A step that leaves the transaction of a client alone, and is no commit of it. -/
theorem Gathered.received_of_same {ms : List TransactionCommit} (h : Gathered d s ms)
    (hs : SameTransaction d s s') (he : ∀ m σ, e ≠ .transactionCommit d m σ) :
    Gathered d s' (received d s e s' ms) := by
  rw [Server.received_of_same hs he]
  exact h.of_same hs

theorem Calm.sameTransaction (h : Calm c s s') (d : ClientId) : SameTransaction d s s' := by
  by_cases hd : d = c
  · subst hd
    exact ⟨h.commitMessages, h.hasTransaction⟩
  · exact .of_eq (h.clients d hd)

/-! ### What a step does to the messages -/

/-- A transaction that ends without messages leaves none behind. -/
theorem gathered_ended {ms : List TransactionCommit}
    (hs : s'.clients d = { s.clients d with hasTransaction := false })
    (hm : (s.clients d).commitMessages = []) : Gathered d s' ms :=
  .of_inactive (by rw [active, hs]) (by rw [hs, hm])

/-- The end of a transaction without messages, or no end at all. -/
theorem Gathered.abortTransaction {ms : List TransactionCommit} {b : Bool} (h : Gathered d s ms)
    (habort : s.abortTransaction c b = some s') (hwf : UsersWF s)
    (ha : s.active c = true → (s.clients c).commitMessages = []) :
    SameTransaction d s s' ∨ ∀ ms, Gathered d s' ms := by
  obtain ⟨-, hclients⟩ := abortTransaction_clients habort hwf
  by_cases hd : d = c
  · subst hd
    refine Or.inr fun ms => gathered_ended (s := s) (by rw [hclients, Function.update_self]) ?_
    cases hs : s.active d with
    | true => exact ha hs
    | false => exact h.eq_nil hs
  · exact Or.inl (.of_eq (by rw [hclients, Function.update_of_ne hd]))

/-- The begin of a transaction finds nothing gathered. -/
theorem Gathered.transactionBegin {ms : List TransactionCommit} {priority : Int}
    {modes : List (DatabaseId × TxnMode)} (h : Gathered d s ms)
    (hbegin : s.handleTransactionBegin c priority modes = some s') :
    Gathered d s' (received d s (.transactionBegin c priority modes) s' ms) := by
  obtain ⟨s₁, r, locks, hbegun, rfl, hactive⟩ := handleTransactionBegin_begun hbegin
  by_cases hd : d = c
  · subst hd
    have hm : ((s₁.send d (.transactionBegin r locks)).clients d).commitMessages =
        (s.clients d).commitMessages := hbegun.commitMessages
    cases hs : s.active d with
    | true => exact h.received_of_same ⟨hm, (hactive hs).trans hs.symm⟩ (by rintro _ _ ⟨⟩)
    | false =>
      have hnil := hm.trans (h.eq_nil hs)
      cases hs' : (s₁.send d (.transactionBegin r locks)).active d with
      | true =>
        rw [received_of_begun hs hs']
        exact .of_active hs' hnil
      | false => exact .of_inactive hs' hnil
  · exact h.received_of_same (.of_eq (hbegun.clients d hd)) (by rintro _ _ ⟨⟩)

/-- A message of a commit is gathered with the others; the last one leaves nothing behind, whether
the commit is accepted or rejected. -/
theorem Gathered.transactionCommit {ms : List TransactionCommit} {m : TransactionCommit}
    {σ : DatabaseName → Schedule} (h : Gathered d s ms)
    (hcommit : s.handleTransactionCommit c m σ = some s') (hwf : UsersWF s) :
    Gathered d s' (received d s (.transactionCommit c m σ) s' ms) := by
  have hother : d ≠ c → s'.clients d = s.clients d →
      Gathered d s' (received d s (.transactionCommit c m σ) s' ms) := fun hd heq =>
    h.received_of_same (.of_eq heq) fun m' σ' he => hd (by cases he; rfl)
  unfold handleTransactionCommit at hcommit
  split_ifs at hcommit with hactive hfollow
  · obtain rfl := Option.some.inj hcommit
    by_cases hd : d = c
    · subst hd
      have hs : s.active d = false := by simpa using hactive
      exact .of_inactive hs (h.eq_nil hs)
    · exact hother hd rfl
  · obtain rfl := Option.some.inj hcommit
    by_cases hd : d = c
    · subst hd
      have hs : s.active d = true := by simpa using hactive
      refine .of_active (by rwa [active, clients_setClient_self]) ?_
      rw [clients_setClient_self, h.eq hs, received, hs]
      simp only [Bool.not_true, Bool.false_and, Bool.false_eq_true, if_false, if_true]
    · exact hother hd (clients_setClient_of_ne hd _)
  · obtain ⟨s₁, r, commits, hreplied, habort, -⟩ := finishCommit_eq_some hcommit
    have hwf₁ := hreplied.usersWF (hwf.setClient (by rfl))
    obtain ⟨-, hclients⟩ := abortTransaction_clients habort hwf₁
    by_cases hd : d = c
    · subst hd
      refine .of_inactive ?_ ?_
      · rw [active, hclients, Function.update_self]
      · rw [hclients, Function.update_self, hreplied.clients, Function.update_self]
    · refine hother hd ?_
      rw [hclients, Function.update_of_ne hd, hreplied.clients, Function.update_of_ne hd]
      exact clients_setClient_of_ne hd _

/-- Every step keeps the messages of the running transactions together. -/
theorem Gathered.step {ms : List TransactionCommit} (hstep : Step s e s') (hwf : UsersWF s)
    (ha : AbortsNoCommit s e) (h : Gathered d s ms) : Gathered d s' (received d s e s' ms) := by
  obtain ⟨-, hhandle⟩ := hstep
  cases e with
  | connectionOpened c =>
    obtain rfl := Option.some.inj hhandle
    refine h.received_of_same ?_ (by rintro _ _ ⟨⟩)
    by_cases hd : d = c
    · subst hd
      refine ⟨?_, ?_⟩
      · rw [clients_setClient_self]
      · rw [active, clients_setClient_self, active]
    · exact .of_eq (clients_setClient_of_ne hd _)
  | connectionClosed c =>
    change s.handleConnectionClosed c = some s' at hhandle
    unfold handleConnectionClosed at hhandle
    split at hhandle
    · cases hhandle
    · next s₁ habort =>
      obtain ⟨s₂, hclose, rfl⟩ := Option.map_eq_some_iff.mp hhandle
      obtain ⟨hwf₁, -⟩ := abortTransaction_clients habort hwf
      obtain ⟨-, hcalm, -⟩ := closeAllDatabases_calm hclose hwf₁
      -- only the abort matters: the databases are closed and the entry stays
      have hrest : SameTransaction d s₁
          (s₂.setClient c { s₂.clients c with connected := false }) := by
        obtain ⟨h1, h2⟩ := hcalm.sameTransaction d
        by_cases hd : d = c
        · subst hd
          refine ⟨?_, ?_⟩
          · rw [clients_setClient_self]
            exact h1
          · rw [← h2, active, clients_setClient_self, active]
        · unfold SameTransaction active
          rw [clients_setClient_of_ne hd]
          exact ⟨h1, h2⟩
      rcases h.abortTransaction habort hwf ha with hsame | hended
      · exact h.received_of_same ⟨hrest.1.trans hsame.1, hrest.2.trans hsame.2⟩ (by rintro _ _ ⟨⟩)
      · exact (hended _).of_same hrest
  | databaseOpen c name mode mvcc =>
    exact h.received_of_same ((handleDatabaseOpen_calm hhandle hwf).2.1.sameTransaction d)
      (by rintro _ _ ⟨⟩)
  | databaseClose c id =>
    exact h.received_of_same ((handleDatabaseClose_calm hhandle hwf).2.1.sameTransaction d)
      (by rintro _ _ ⟨⟩)
  | blobsRead m =>
    rcases (handleBlobsRead_clients hhandle hwf).2 d with heq | ⟨⟨vs, s₂, hvs, hd⟩, heq⟩
    · exact h.received_of_same (.of_eq heq) (by rintro _ _ ⟨⟩)
    · exact gathered_ended heq (ha vs s₂ hvs d hd)
  | transactionBegin c priority modes => exact h.transactionBegin hhandle
  | transactionAbort c =>
    rcases h.abortTransaction hhandle hwf ha with hsame | hended
    · exact h.received_of_same hsame (by rintro _ _ ⟨⟩)
    · exact hended _
  | transactionCommit c m σ => exact h.transactionCommit hhandle hwf
  | lockTimeouts name due =>
    obtain ⟨hclients, -⟩ := checkForLockTimeouts_eq_some hhandle
    exact h.received_of_same (.of_eq (by rw [hclients])) (by rintro _ _ ⟨⟩)
  | delayedClose name =>
    refine h.received_of_same (.of_eq ?_) (by rintro _ _ ⟨⟩)
    rw [handle] at hhandle
    split at hhandle
    · obtain rfl := Option.some.inj hhandle
      rfl
    · obtain rfl := Option.some.inj hhandle
      split_ifs
      · rw [closeDatabase_clients]
      · rfl

theorem Gathers.gathered (h : Gathers AbortsNoCommit (start files delay) s r) :
    UsersWF s ∧ ∀ d, Gathered d s (r d) := by
  induction h with
  | nil => exact ⟨usersWF_start files delay, fun d => .of_inactive rfl rfl⟩
  | step hrun ha hstep ih =>
    exact ⟨hstep.usersWF ih.1, fun d => (ih.2 d).step hstep ih.1 ha⟩

/-- In a run that aborts no transaction of which commit messages were gathered, a commit the
client is told was successful applied the messages of its transaction, all of them and no
others. -/
theorem Gathers.applied (hrun : Gathers AbortsNoCommit (start files delay) s r)
    {m : TransactionCommit} {σ : DatabaseName → Schedule}
    (hstep : Step s (.transactionCommit c m σ) s') {commits : List (DatabaseId × CommitId)}
    (hsuccess : s'.sentTo c = s.sentTo c ++ [.transactionCommit .success commits]) :
    Applied c σ (r c ++ [m])
      (s.setClient c { s.clients c with commitMessages := r c ++ [m] }) s' := by
  obtain ⟨hwf, hgathered⟩ := hrun.gathered
  obtain ⟨-, hhandle⟩ := hstep
  change s.handleTransactionCommit c m σ = some s' at hhandle
  unfold handleTransactionCommit at hhandle
  split_ifs at hhandle with hactive hfollow
  · obtain rfl := Option.some.inj hhandle
    rw [sentTo_send_self] at hsuccess
    simp at hsuccess
  · obtain rfl := Option.some.inj hhandle
    rw [sentTo_setClient] at hsuccess
    simp at hsuccess
  · have hs : s.active c = true := by simpa using hactive
    rw [(hgathered c).eq hs] at hhandle
    set s₀ := s.setClient c { s.clients c with commitMessages := r c ++ [m] } with hs₀
    obtain ⟨s₁, result, commits', hreplied, habort, happlied⟩ := finishCommit_eq_some hhandle
    have hs₀c : s₀.active c = true := by
      rw [hs₀, active, clients_setClient_self]
      exact hs
    have he := ended_abortTransaction habort ((hreplied.active c).trans hs₀c)
    have hsent : s'.sentTo c = s.sentTo c ++ [.transactionCommit result commits'] := by
      rw [he.sentTo, hreplied.sentTo_self]
      rfl
    rw [hsuccess] at hsent
    have hresult := List.append_cancel_left hsent
    simp only [List.cons.injEq, Response.transactionCommit.injEq, and_true] at hresult
    obtain ⟨rfl, rfl⟩ := hresult
    obtain ⟨gs, ls, s₂, s₃, hgs, hvalid, hcommit, rfl⟩ := happlied rfl
    have hgroups := groups_groupByDatabase groups_nil hgs
    rw [List.nil_append] at hgroups
    exact ⟨gs, ls, commits, s₂, s₃, hgs, hgroups, hvalid, hcommit, habort⟩

/-! ### Runs that can be computed -/

instance (s : Server) (e : Event) : Decidable (AbortsNoCommit s e) :=
  match e with
  | .transactionAbort _ | .connectionClosed _ => inferInstanceAs (Decidable (_ → _))
  | .blobsRead m =>
    match h : findVictims m s with
    | none => isTrue fun vs s₂ hvs => nomatch h.symm.trans hvs
    | some (vs, s₂) =>
      decidable_of_iff (∀ c ∈ vs, (s.clients c).commitMessages = [])
        ⟨fun hall vs' s₂' hvs => by
          obtain ⟨rfl, rfl⟩ := Prod.mk.inj (Option.some.inj (h.symm.trans hvs))
          exact hall, fun hall => hall vs s₂ h⟩
  | .connectionOpened _ | .databaseOpen _ _ _ _ | .databaseClose _ _ | .transactionBegin _ _ _
  | .transactionCommit _ _ _ | .lockTimeouts _ _ | .delayedClose _ =>
    isTrue trivial

/-- The run of a list of events. -/
def follow (allowed : Server → Event → Bool) : List Event →
    Server × (ClientId → List TransactionCommit) →
    Option (Server × (ClientId → List TransactionCommit))
  | [], r => some r
  | e :: es, (s, r) =>
    if (e.sender.all fun c => (s.clients c).connected) && allowed s e then
      match s.handle e with
      | none => none
      | some s' => follow allowed es (s', fun c => received c s e s' (r c))
    else none

theorem Gathers.follow {allowed : Server → Event → Bool} {es : List Event} {s₀ : Server}
    {r' : ClientId → List TransactionCommit} (h : Gathers (fun s e => allowed s e = true) s₀ s r)
    (hf : Server.follow allowed es (s, r) = some (s', r')) :
    Gathers (fun s e => allowed s e = true) s₀ s' r' := by
  induction es generalizing s r with
  | nil =>
    cases hf
    exact h
  | cons e es ih =>
    rw [Server.follow] at hf
    split_ifs at hf with hok
    split at hf
    · cases hf
    · next s₁ hs₁ =>
      rw [Bool.and_eq_true] at hok
      refine ih (h.step hok.2 ⟨fun c hc => ?_, hs₁⟩) hf
      rw [Option.mem_def] at hc
      rw [hc] at hok
      exact hok.1

/-- A commit of two messages in a transaction of its own, by a client whose id another client had
before. -/
theorem Gathers.applied_twoMessages : ∃ s s' r m σ commits,
    Gathers AbortsNoCommit (start (fun _ => none) 0) s r ∧ r 1 = [⟨true, 0, []⟩] ∧
      Step s (.transactionCommit 1 m σ) s' ∧
      s'.sentTo 1 = s.sentTo 1 ++ [.transactionCommit .success commits] ∧
      Applied 1 σ (r 1 ++ [m])
        (s.setClient 1 { s.clients 1 with commitMessages := r 1 ++ [m] }) s' := by
  let σ : DatabaseName → Schedule := fun _ => ⟨[], [], .insertion, []⟩
  let es : List Event := [.connectionOpened 1, .databaseOpen 1 (.mem 0) .createIfNotExist false,
    .transactionBegin 1 0 [], .connectionClosed 1, .connectionOpened 1,
    .databaseOpen 1 (.mem 0) .createIfNotExist false, .transactionBegin 1 0 [],
    .transactionCommit 1 ⟨true, 0, []⟩ σ]
  have hrun : ((Server.follow (fun s e => decide (AbortsNoCommit s e)) es
      (start (fun _ => none) 0, fun _ => [])).bind fun r =>
        (r.1.handle (.transactionCommit 1 ⟨false, 0, []⟩ σ)).map fun s' =>
          (r.2 1, (r.1.clients 1).connected,
            decide (s'.sentTo 1 = r.1.sentTo 1 ++ [.transactionCommit .success [(0, 2)]]))) =
      some ([⟨true, 0, []⟩], true, true) := by
    decide +kernel
  obtain ⟨⟨s, r⟩, hfollow, hrun⟩ := Option.bind_eq_some_iff.mp hrun
  obtain ⟨s', hhandle, hrun⟩ := Option.map_eq_some_iff.mp hrun
  simp only [Prod.mk.injEq, decide_eq_true_eq] at hrun
  obtain ⟨hr, hconnected, hsent⟩ := hrun
  have hgathers : Gathers AbortsNoCommit (start (fun _ => none) 0) s r := by
    have := Gathers.follow Gathers.nil hfollow
    simpa only [decide_eq_true_eq] using this
  have hstep : Step s (.transactionCommit 1 ⟨false, 0, []⟩ σ) s' :=
    ⟨fun c hc => by cases hc; exact hconnected, hhandle⟩
  exact ⟨s, s', r, _, σ, _, hgathers, hr, hstep, hsent, hgathers.applied hstep hsent⟩

/-- What can be read at the first blob of a database. -/
def firstBlob (s : Server) (name : DatabaseName) : Option (List UInt8) :=
  (s.databases name).bind fun od =>
    (od.database.heap.readContent od.database.snapshot ⟨0, 0, 0⟩).map VersionedContent.content

/-- The client writes a blob, and its commit is not finished when the transaction ends. In the next
transaction the blob is locked, but not written. -/
def unfinished (ending : List Event) : List Event :=
  let lock : Event := .blobsRead ⟨1, 0, .write, -1, [⟨⟨0, 0, 0⟩, 0⟩]⟩
  [.connectionOpened 1, .databaseOpen 1 (.mem 0) .createIfNotExist false, .transactionBegin 1 0 [],
    lock, .transactionCommit 1 ⟨true, 0, [⟨⟨0, 0, 0⟩, some [7]⟩]⟩ fun _ =>
      ⟨[], [], .insertion, []⟩] ++ ending ++ [.transactionBegin 1 0 [], lock]

/-- The empty commit of the next transaction is successful, and the write has been applied with
it. -/
def AppliesUnfinished (ending : List Event) : Prop :=
  ∃ s s' r m σ commits,
    follow (fun _ _ => true) (unfinished ending) (start (fun _ => none) 0, fun _ => []) =
      some (s, r) ∧
    Gathers (fun _ _ => True) (start (fun _ => none) 0) s r ∧
      Step s (.transactionCommit 1 m σ) s' ∧
      s'.sentTo 1 = s.sentTo 1 ++ [.transactionCommit .success commits] ∧
      r 1 = [] ∧ m.blobs = [] ∧ s.firstBlob (.mem 0) = some [] ∧
      s'.firstBlob (.mem 0) = some [7] ∧
      ¬Applied 1 σ (r 1 ++ [m])
        (s.setClient 1 { s.clients 1 with commitMessages := r 1 ++ [m] }) s'

/-- What a successful commit of the messages would lead to. -/
def meant (s : Server) (σ : DatabaseName → Schedule) (ms : List TransactionCommit) :
    Option Server :=
  (groupByDatabase [] ms).bind fun gs =>
    (validateCommitMessages 1 gs (s.setClient 1 { s.clients 1 with commitMessages := ms })).bind
      fun v => (commitDatabases 1 σ (gs.zip (v.2.1.map Prod.snd))
        (v.2.2.setClient 1 { v.2.2.clients 1 with commitMessages := [] })).bind fun v =>
          (v.2.send 1 (.transactionCommit .success v.1)).abortTransaction 1 false

theorem Applied.meant_eq {σ : DatabaseName → Schedule} {ms : List TransactionCommit}
    (h : Applied 1 σ ms (s.setClient 1 { s.clients 1 with commitMessages := ms }) s') :
    meant s σ ms = some s' := by
  obtain ⟨gs, ls, commits, s₁, s₂, hgs, -, hvalid, hcommit, habort⟩ := h
  rw [meant, hgs, Option.bind_some, hvalid, Option.bind_some, hcommit, Option.bind_some, habort]

/-- The transaction is aborted, or the client disconnects and another one gets its id. -/
theorem not_applied_after_abort : AppliesUnfinished [.transactionAbort 1] ∧
    AppliesUnfinished [.connectionClosed 1, .connectionOpened 1,
      .databaseOpen 1 (.mem 0) .createIfNotExist false] := by
  let σ : DatabaseName → Schedule := fun _ => ⟨[], [], .insertion, []⟩
  let m : TransactionCommit := ⟨false, 0, []⟩
  -- what is to be seen of the run
  let shows (ending : List Event) : Option Bool :=
    (follow (fun _ _ => true) (unfinished ending) (start (fun _ => none) 0, fun _ => [])).bind
      fun r => (r.1.handle (.transactionCommit 1 m σ)).map fun s' =>
        decide (r.2 1 = [] ∧ (r.1.clients 1).connected = true ∧
          s'.sentTo 1 = r.1.sentTo 1 ++ [.transactionCommit .success [(0, 2)]] ∧
          r.1.firstBlob (.mem 0) = some [] ∧ s'.firstBlob (.mem 0) = some [7] ∧
          (meant r.1 σ (r.2 1 ++ [m])).map (fun s' => s'.firstBlob (.mem 0)) = some (some []))
  have happlies : ∀ ending, shows ending = some true → AppliesUnfinished ending := by
    intro ending hrun
    obtain ⟨⟨s, r⟩, hfollow, hrun⟩ := Option.bind_eq_some_iff.mp hrun
    obtain ⟨s', hhandle, hrun⟩ := Option.map_eq_some_iff.mp hrun
    obtain ⟨hr, hconnected, hsent, hbefore, hafter, hmeant⟩ := of_decide_eq_true hrun
    have hgathers : Gathers (fun _ _ => True) (start (fun _ => none) 0) s r := by
      have := Gathers.follow Gathers.nil hfollow
      simpa only [eq_self] using this
    refine ⟨s, s', r, m, σ, _, hfollow, hgathers,
      ⟨fun c hc => by cases hc; exact hconnected, hhandle⟩, hsent, hr, rfl, hbefore, hafter, ?_⟩
    intro happlied
    rw [happlied.meant_eq, Option.map_some, hafter] at hmeant
    cases hmeant
  exact ⟨happlies _ (by decide +kernel), happlies _ (by decide +kernel)⟩

end Server

end BlobsDb
