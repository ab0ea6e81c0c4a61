import BlobsDb.Server.Waiting

/-!
# Reads are answered once

Every read of a client is answered once, at once or after it waited for its locks, unless the
client withdraws it: it aborts its transaction or disconnects. The answer is complete. It may come
from the handling of another client's message, and where a deadlock has several victims, the end
of one's transaction tries the reads of the others before their own end: they are not answered
then, as the client whose read closed the deadlock still blocks them
(`foldlM_abortVictim_served`).
-/

namespace BlobsDb

/-! ### The log of a client -/

/-- What happens to the reads of a client. -/
inductive ReadEvent
  | asked (m : BlobsRead)
  | told (r : BlobsReadResponse)
  | withdrew

/-- The read a client waits for. -/
def outstanding (log : List ReadEvent) : Option BlobsRead :=
  log.foldl (fun o e =>
    match e with
    | .asked m => some m
    | .told r => if r.hasFollowMessage then o else none
    | .withdrew => none) none

/-- All reads got one complete answer or were withdrawn, but for the last one, perhaps. -/
inductive Answered : List ReadEvent → Option BlobsRead → Prop
  | nil : Answered [] none
  | asked {log : List ReadEvent} {m : BlobsRead} (h : Answered log none) :
    Answered (log ++ [.asked m]) (some m)
  | answer {log : List ReadEvent} {m : BlobsRead} {rs : List BlobsReadResponse}
    (h : Answered log (some m)) (hrs : CompleteAnswer rs) :
    Answered (log ++ rs.map .told) none
  | withdrew {log : List ReadEvent} {o : Option BlobsRead} (h : Answered log o) :
    Answered (log ++ [.withdrew]) none

/-- A read that was asked for is outstanding. -/
theorem outstanding_append_asked (log : List ReadEvent) (m : BlobsRead) :
    outstanding (log ++ [.asked m]) = some m := by
  rw [outstanding, List.foldl_append]
  rfl

/-- Nothing is outstanding after it was withdrawn. -/
theorem outstanding_append_withdrew (log : List ReadEvent) :
    outstanding (log ++ [.withdrew]) = none := by
  rw [outstanding, List.foldl_append]
  rfl

/-- Nothing is outstanding after a complete answer. -/
theorem outstanding_append_told {rs : List BlobsReadResponse} (hrs : CompleteAnswer rs)
    (log : List ReadEvent) : outstanding (log ++ rs.map .told) = none := by
  induction hrs generalizing log with
  | error => simp [outstanding, List.foldl_append, BlobsReadResponse.createError]
  | last _ hf => simp [outstanding, List.foldl_append, hf]
  | @follow r rs _ _ _ _ ih =>
    rw [List.map_cons, ← List.singleton_append, ← List.append_assoc]
    exact ih _

/-- The replies to reads among the messages sent to a client. -/
def readReplies (rs : List Response) : List BlobsReadResponse :=
  rs.filterMap fun r =>
    match r with
    | .blobsRead r => some r
    | _ => none

theorem readReplies_map (rs : List BlobsReadResponse) : readReplies (rs.map .blobsRead) = rs := by
  induction rs with
  | nil => rfl
  | cons r rs ih => exact congrArg (r :: ·) ih

namespace Server

variable {s s' : Server} {c d v : ClientId} {name : DatabaseName} {m q : BlobsRead} {e : Event}
  {log : List ReadEvent}

/-! ### Runs with logs -/

/-- What a client says about its reads in a step. -/
def requests (c : ClientId) : Event → List ReadEvent
  | .blobsRead m => if m.clientId = c then [.asked m] else []
  | .transactionAbort d | .connectionClosed d => if d = c then [.withdrew] else []
  | _ => []

/-- What a client is told about its reads in a step. -/
def replies (c : ClientId) (s s' : Server) : List BlobsReadResponse :=
  readReplies ((s'.sentTo c).drop (s.sentTo c).length)

/-- The event ends the transaction of its client, whether a read of the client waits or not. -/
def Event.withdraws : Event → Bool
  | .transactionAbort _ | .connectionClosed _ => true
  | _ => false

/-- A run in which each client sends its next request only after its last read was answered, or
withdraws the read, with the logs of the clients. -/
inductive Converses : Server → (ClientId → List ReadEvent) → Prop
  | start (files : DatabaseName → Option FileContent) (delay : ℕ)
    (hs : Healthy (start files delay)) : Converses (start files delay) fun _ => []
  | step {s s' : Server} {log : ClientId → List ReadEvent} {e : Event} (hrun : Converses s log)
    (hstep : Step s e s') (hblobs : ∀ m, e = .blobsRead m → m.blobs ≠ [])
    (hturn : ∀ c ∈ e.sender, outstanding (log c) = none ∨ e.withdraws = true) :
    Converses s' fun c => log c ++ requests c e ++ (replies c s s').map .told

/-! ### One client in one step -/

/-- The client waits for the read. -/
def WaitsFor (s : Server) (c : ClientId) (m : BlobsRead) : Prop :=
  ∃ name, m ∈ s.queue name ∧ m.clientId = c

theorem WaitsFor.waits (h : s.WaitsFor c m) : ∃ name, s.Waits c name := by
  obtain ⟨name, hm, hc⟩ := h
  exact ⟨name, m, hm, hc⟩

theorem not_waitsFor (h : s.Idle c) : ¬s.WaitsFor c m := fun hw =>
  hw.waits.elim h

/-- The replies to a client are what it is sent besides. -/
theorem replies_of_append {rs : List Response} (h : s'.sentTo c = s.sentTo c ++ rs) :
    replies c s s' = readReplies rs := by
  rw [replies, h, List.drop_left]

theorem replies_of_eq (h : s'.sentTo c = s.sentTo c) : replies c s s' = [] := by
  have happend : s'.sentTo c = s.sentTo c ++ [] := by rw [h, List.append_nil]
  exact replies_of_append happend

/-- What the log says of a client is true. -/
def Tells (s : Server) (c : ClientId) (log : List ReadEvent) : Prop :=
  Answered log (outstanding log) ∧ ∀ m, outstanding log = some m ↔ s.WaitsFor c m

/-- A client to whom no read is outstanding does not wait. -/
theorem Tells.idle (h : s.Tells c log) (hnone : outstanding log = none) : s.Idle c := by
  rintro name ⟨m, hm, hc⟩
  have := (h.2 m).mpr ⟨name, hm, hc⟩
  rw [hnone] at this
  cases this

/-- A client that does not wait has no outstanding read. -/
theorem Tells.outstanding_eq_none (h : s.Tells c log) (hidle : s.Idle c) :
    outstanding log = none := by
  cases ho : outstanding log with
  | none => rfl
  | some m => exact absurd ((h.2 m).mp ho) (not_waitsFor hidle)

/-- A client that is served waits for the same read, or is answered. -/
theorem Tells.served (h : s.Tells c log) (hwf : QueuesWF s) (hs : Served c s s')
    (hsub : ∀ name, ∀ q ∈ s'.queue name, q.clientId = c → q ∈ s.queue name) :
    s'.Tells c (log ++ (replies c s s').map .told) := by
  cases hs with
  | same hw hsent =>
    rw [replies_of_eq hsent, List.map_nil, List.append_nil]
    refine ⟨h.1, fun m => (h.2 m).trans ?_⟩
    constructor
    · rintro ⟨name, hm, hc⟩
      obtain ⟨m', hm', hc'⟩ := (hw name).mpr ⟨m, hm, hc⟩
      have heq : m' = m := List.inj_on_of_nodup_map (hwf.nodup name) (hsub name m' hm' hc') hm
        (hc'.trans hc.symm)
      exact ⟨name, heq ▸ hm', hc⟩
    · rintro ⟨name, hm, hc⟩
      exact ⟨name, hsub name m hm hc, hc⟩
  | answered hw hno hrs hsent =>
    rw [replies_of_append hsent, readReplies_map]
    obtain ⟨m, hm, hc⟩ := hw
    have ho := (h.2 m).mpr ⟨_, hm, hc⟩
    have hanswered := h.1
    rw [ho] at hanswered
    refine ⟨?_, fun m' => ?_⟩
    · rw [outstanding_append_told hrs]
      exact hanswered.answer hrs
    · rw [outstanding_append_told hrs]
      exact iff_of_false nofun (not_waitsFor hno)

/-! ### The victims of a deadlock -/

/-- A transaction that ends without giving up its locks leaves the locks. -/
theorem locks_leaveDatabase {slot : DatabaseSlot} (h : leaveDatabase c false s slot = some s')
    (name : DatabaseName) : s'.locks name = s.locks name := by
  unfold leaveDatabase at h
  split at h
  · obtain rfl := Option.some.inj h
    rfl
  · next name₁ hslot =>
    obtain ⟨od, od', hod, hod', rfl⟩ := updateDatabase_eq_some_iff.mp h
    cases hod'
    by_cases hne : name = name₁
    · subst hne
      exact locks_setDatabase_self.trans (locks_of_some hod).symm
    · exact locks_setDatabase_of_ne hne

/-- The locks that are kept at the end of a transaction still block the reads of others, but for
the client whose transaction ended. -/
theorem BlockedBy.clientAbort (h : s.clientAbortTransaction c false = some s')
    (hq : s.BlockedBy name q d) (hd : d ≠ c) : s'.BlockedBy name q d := by
  have hactive := hq.active.2
  obtain ⟨t, ls, ht, hls, l, hl, hx⟩ := hq
  obtain ⟨s₀, hleave, rfl⟩ := Option.map_eq_some_iff.mp h
  obtain ⟨hkept, -, -⟩ := foldlM_leaveDatabase hleave
  refine ⟨t, ls, (tree_foldlM_leaveDatabase hleave name).trans ht, hls, l, hl, ?_⟩
  have hlocks : s₀.locks name = s.locks name :=
    foldlM_induction (P := fun s' => s'.locks name = s.locks name) hleave rfl
      fun _ _ _ _ hstep h1 => (locks_leaveDatabase hstep name).trans h1
  change d ∈ (s₀.locks name).conflicts _ _ _ _
  rw [hlocks]
  refine LockBook.mem_conflicts_of_active hx ?_
  rw [Server.active, clients_setClient_of_ne hd, hkept.clients]
  exact hactive

/-- The transaction of a victim ends; other reads that wait for the same client wait on. -/
theorem abortVictim_waits (h : s.abortVictim v = some s') (hactive : s.active v = true)
    (hwf : UsersWF s) (hs : Healthy s) (hfit : AllFit s) (hm : q ∈ s.queue name)
    (hq : s.BlockedBy name q d) (hd : d ≠ v) (hv : q.clientId ≠ v) :
    q ∈ s'.queue name ∧ s'.BlockedBy name q d := by
  change (s.sendError v .deadlock).abortTransaction v false = some s' at h
  rw [abortTransaction, if_pos (show (s.sendError v .deadlock).active v = true from hactive)] at h
  split at h
  · cases h
  · next s₁ hs₁ =>
    have hsend : Moves .all s (s.sendError v .deadlock) := .single (.send v _)
    have hwf₀ : UsersWF (s.sendError v .deadlock) := hwf.send _
    have hhealthy₁ : Healthy s₁ := by
      have hmoves : Moves .all (s.sendError v .deadlock) s₁ :=
        moves_clientAbortTransaction hs₁ hactive hwf₀ (hsend.healthy hs) trivial
      exact hmoves.healthy (hsend.healthy hs)
    have hq₀ : (s.sendError v .deadlock).BlockedBy name q d :=
      (Steady.of_eq rfl rfl : Steady s (s.sendError v .deadlock)).blockedBy hq
    have hq₁ := hq₀.clientAbort hs₁ hd
    obtain ⟨hsteady, -, hstay, -⟩ := foldlM_tryProcessQueuedReads_blocked h hhealthy₁
    refine ⟨?_, hsteady.blockedBy hq₁⟩
    obtain ⟨s₀, hleave, rfl⟩ := Option.map_eq_some_iff.mp hs₁
    obtain ⟨hkept, -, hqueue⟩ := foldlM_leaveDatabase hleave
    have hm₀ : q ∈ s₀.queue name := by
      rw [hqueue]
      split_ifs
      · exact List.mem_filter.mpr ⟨hm, by simpa using hv⟩
      · exact hm
    refine hstay name q hm₀ name ⟨?_, d, hq₁⟩
    refine (hfit name q hm).of_clients ?_ (tree_foldlM_leaveDatabase hleave name)
    rw [clients_setClient_of_ne hv, hkept.clients]
    rfl

/-- The end of a victim's transaction, for the victim and for the others. -/
theorem abortVictim_served (h : s.abortVictim v = some s') (hactive : s.active v = true)
    (hwf : UsersWF s) (hqs : QueuesWF s) (hw : s.Waits v name) (c : ClientId) :
    Served c s s' := by
  have he := abortVictim_ended h hactive
  by_cases hc : c = v
  · subst hc
    have herror : CompleteAnswer [.createError .deadlock] := .error (by decide)
    refine .answered hw ?_ herror ?_
    · exact (hwf.send _).not_waits_of_ended he
    · rw [he.sentTo, sendError, sentTo_send_self]
      rfl
  · have hsend : Served c s (s.sendError v .deadlock) :=
      .same (fun _ => Iff.rfl) (sentTo_send_of_ne hc _)
    exact hsend.trans (he.served (hqs.of_sublist fun _ => List.Sublist.refl _) c hc)

/-- Aborting a victim keeps all that is well formed, and the locks. -/
theorem abortVictim_keeps (h : s.abortVictim v = some s') (hactive : s.active v = true)
    (hwf : UsersWF s) (hs : Healthy s) (hqs : QueuesWF s) (hfit : AllFit s) :
    UsersWF s' ∧ Healthy s' ∧ QueuesWF s' ∧ AllFit s' ∧
      ∀ name, (s'.queue name).Sublist (s.queue name) := by
  have he := abortVictim_ended h hactive
  have hmoves : Moves .noCommits s s' := moves_abortVictim h hwf hs trivial
  exact ⟨(hwf.send _).ended he, hmoves.healthy hs, hqs.of_sublist he.queue,
    hmoves.allFit hs hfit, he.queue⟩

/-- The victims of a deadlock are told so, and nothing else; the other clients are served. -/
theorem foldlM_abortVictim_served {vs : List ClientId} (h : vs.foldlM abortVictim s = some s')
    (hn : vs.Nodup) (hwf : UsersWF s) (hs : Healthy s) (hqs : QueuesWF s) (hfit : AllFit s)
    (hd : d ∉ vs)
    (hvs : ∀ v ∈ vs, ∃ q ∈ s.queue name, q.clientId = v ∧ s.BlockedBy name q d) :
    (∀ c, Served c s s') ∧ ∀ name, (s'.queue name).Sublist (s.queue name) := by
  induction vs generalizing s with
  | nil =>
    obtain rfl := Option.some.inj h
    exact ⟨fun c => Served.refl c s, fun _ => List.Sublist.refl _⟩
  | cons v vs ih =>
    rw [List.foldlM_cons] at h
    obtain ⟨s₁, h₁, h₂⟩ := Option.bind_eq_some_iff.mp h
    obtain ⟨hv, hn⟩ := List.nodup_cons.mp hn
    rw [List.mem_cons, not_or] at hd
    obtain ⟨q, hq, hqv, hblocked⟩ := hvs v List.mem_cons_self
    have hactive : s.active v = true := hqv ▸ (hfit name q hq).active
    obtain ⟨hwf₁, hs₁, hqs₁, hfit₁, hsub⟩ := abortVictim_keeps h₁ hactive hwf hs hqs hfit
    obtain ⟨h3, h4⟩ := ih h₂ hn hwf₁ hs₁ hqs₁ hfit₁ hd.2 fun u hu => by
      obtain ⟨q', hq', hqu, hblocked'⟩ := hvs u (List.mem_cons_of_mem _ hu)
      obtain ⟨h5, h6⟩ := abortVictim_waits h₁ hactive hwf hs hfit hq' hblocked' hd.1
        fun heq => hv (heq ▸ hqu ▸ hu)
      exact ⟨q', h5, hqu, h6⟩
    exact ⟨fun c => (abortVictim_served h₁ hactive hwf hqs ⟨q, hq, hqv⟩ c).trans (h3 c),
      fun name => (h4 name).trans (hsub name)⟩

/-! ### Every event -/

/-- What an event does to the reads of a client. -/
inductive Outcome (c : ClientId) (e : Event) (s s' : Server) : Prop
  | served (hs : Served c s s')
    (hsub : ∀ name, ∀ q ∈ s'.queue name, q.clientId = c → q ∈ s.queue name)
    (hr : requests c e = [])
  | quiet (hidle : s.Idle c) (hidle' : s'.Idle c) (hsent : replies c s s' = [])
    (hr : requests c e = [])
  | withdrew (hidle' : s'.Idle c) (hsent : replies c s s' = []) (hr : requests c e = [.withdrew])
  | answered {m : BlobsRead} {rs : List BlobsReadResponse} (hidle : s.Idle c) (hidle' : s'.Idle c)
    (hrs : CompleteAnswer rs) (hsent : s'.sentTo c = s.sentTo c ++ rs.map .blobsRead)
    (hr : requests c e = [.asked m])
  | queued {m : BlobsRead} (hidle : s.Idle c) (hw : ∀ m', s'.WaitsFor c m' ↔ m' = m)
    (hsent : s'.sentTo c = s.sentTo c) (hr : requests c e = [.asked m])

/-- After each outcome the log tells what is outstanding. -/
theorem Outcome.tells (ho : Outcome c e s s') (hwf : QueuesWF s) (h : s.Tells c log) :
    s'.Tells c (log ++ requests c e ++ (replies c s s').map .told) := by
  cases ho with
  | served hs hsub hr =>
    rw [hr, List.append_nil]
    exact h.served hwf hs hsub
  | quiet hidle hidle' hsent hr =>
    rw [hr, hsent, List.append_nil, List.map_nil, List.append_nil]
    refine ⟨h.1, fun m => (h.2 m).trans ?_⟩
    exact iff_of_false (not_waitsFor hidle) (not_waitsFor hidle')
  | withdrew hidle' hsent hr =>
    rw [hr, hsent, List.map_nil, List.append_nil]
    refine ⟨?_, fun m => ?_⟩
    · rw [outstanding_append_withdrew]
      exact h.1.withdrew
    · rw [outstanding_append_withdrew]
      exact iff_of_false nofun (not_waitsFor hidle')
  | answered hidle hidle' hrs hsent hr =>
    rw [hr, replies_of_append hsent, readReplies_map]
    have hanswered := h.1
    rw [h.outstanding_eq_none hidle] at hanswered
    refine ⟨?_, fun m => ?_⟩
    · rw [outstanding_append_told hrs]
      exact hanswered.asked.answer hrs
    · rw [outstanding_append_told hrs]
      exact iff_of_false nofun (not_waitsFor hidle')
  | queued hidle hw hsent hr =>
    rw [hr, replies_of_eq hsent, List.map_nil, List.append_nil]
    have hanswered := h.1
    rw [h.outstanding_eq_none hidle] at hanswered
    refine ⟨?_, fun m' => ?_⟩
    · rw [outstanding_append_asked]
      exact hanswered.asked
    · rw [outstanding_append_asked, hw, Option.some.injEq, eq_comm]

theorem replies_of_message {r : Response} (h : s'.sentTo c = s.sentTo c ++ [r])
    (hr : ∀ r', r ≠ .blobsRead r') : replies c s s' = [] := by
  rw [replies_of_append h, readReplies, List.filterMap_cons_none, List.filterMap_nil]
  cases r with
  | blobsRead r => exact absurd rfl (hr r)
  | _ => rfl

/-- An event that concerns one client only. -/
theorem Calm.outcome (h : Calm d s s') (hd : s.Idle d) (hsent : replies d s s' = [])
    (hr : requests c e = []) : Outcome c e s s' := by
  by_cases hc : c = d
  · subst hc
    exact .quiet hd (hd.of_sublist h.queue) hsent hr
  · refine .served (.same (fun name => ⟨fun hw => hw.of_sublist (h.queue name), h.waits c hc name⟩)
      (h.sentTo c hc)) (fun name q hq _ => (h.queue name).subset hq) hr

/-! ### The end of transactions -/

/-- Who is in no transaction does not wait. -/
theorem AllFit.idle (h : AllFit s) (hc : s.active c = false) : s.Idle c := by
  rintro name ⟨q, hq, rfl⟩
  rw [(h name q hq).active] at hc
  cases hc

/-- The client waits no more and is told nothing; the others are served. -/
structure Withdrawn (d : ClientId) (s s' : Server) : Prop where
  idle : s'.Idle d
  sentTo : s'.sentTo d = s.sentTo d
  served : ∀ c, c ≠ d → Served c s s'
  queue : ∀ name, (s'.queue name).Sublist (s.queue name)

/-- The end of a transaction withdraws the read of its client, and may answer those of others. -/
theorem abortTransaction_withdrawn (h : s.abortTransaction d b = some s') (hwf : UsersWF s)
    (hqs : QueuesWF s) (hfit : AllFit s) : Withdrawn d s s' := by
  cases hactive : s.active d with
  | true =>
    have he := ended_abortTransaction h hactive
    exact ⟨hwf.not_waits_of_ended he, he.sentTo, fun c hc => he.served hqs c hc, he.queue⟩
  | false =>
    rw [abortTransaction, hactive] at h
    obtain rfl := Option.some.inj h
    exact ⟨hfit.idle hactive, rfl, fun c _ => Served.refl c s, fun _ => List.Sublist.refl _⟩

theorem Withdrawn.calm {s'' : Server} (h : Withdrawn d s s') (h' : Calm d s' s'')
    (hsent : s''.sent = s'.sent) : Withdrawn d s s'' where
  idle := h.idle.of_sublist h'.queue
  sentTo := by
    rw [Server.sentTo, hsent]
    exact h.sentTo
  served c hc := (h.served c hc).trans
    (.same (fun name => ⟨fun hw => hw.of_sublist (h'.queue name), h'.waits c hc name⟩)
      (h'.sentTo c hc))
  queue name := (h'.queue name).trans (h.queue name)

theorem Withdrawn.outcome (h : Withdrawn d s s')
    (hr : requests c e = if d = c then [.withdrew] else []) : Outcome c e s s' := by
  by_cases hc : c = d
  · subst hc
    rw [if_pos rfl] at hr
    exact .withdrew h.idle (replies_of_eq h.sentTo) hr
  · rw [if_neg (Ne.symm hc)] at hr
    exact .served (h.served c hc) (fun name q hq _ => (h.queue name).subset hq) hr

/-- The end of a connection withdraws the read of its client. -/
theorem handleConnectionClosed_withdrawn (h : s.handleConnectionClosed d = some s')
    (hwf : UsersWF s) (hqs : QueuesWF s) (hfit : AllFit s) : Withdrawn d s s' := by
  unfold handleConnectionClosed at h
  split at h
  · cases h
  · next s₁ habort =>
    obtain ⟨s₂, hclose, rfl⟩ := Option.map_eq_some_iff.mp h
    obtain ⟨-, hcalm, hsent⟩ := closeAllDatabases_calm hclose (abortTransaction_clients habort hwf).1
    have hw := (abortTransaction_withdrawn habort hwf hqs hfit).calm hcalm hsent
    exact ⟨hw.idle, hw.sentTo,
      fun c hc => (hw.served c hc).trans (.same (fun _ => Iff.rfl) rfl), hw.queue⟩

/-- The client of a commit does not wait, so the answer to the commit is all it is told. -/
theorem handleTransactionCommit_outcome {msg : TransactionCommit} {σ : DatabaseName → Schedule}
    (h : s.handleTransactionCommit d msg σ = some s') (hwf : UsersWF s) (hqs : QueuesWF s)
    (hd : s.Idle d) : (∀ name, (s'.queue name).Sublist (s.queue name)) ∧
      ∀ c, Outcome c (.transactionCommit d msg σ) s s' := by
  unfold handleTransactionCommit at h
  split_ifs at h with hactive hfollow
  · obtain rfl := Option.some.inj h
    exact ⟨fun _ => List.Sublist.refl _, fun c => (Calm.send _).outcome hd
      (replies_of_message (sentTo_send_self _) (by rintro _ ⟨⟩)) rfl⟩
  · obtain rfl := Option.some.inj h
    exact ⟨fun _ => List.Sublist.refl _, fun c =>
      .served (.same (fun _ => Iff.rfl) rfl) (fun _ _ hq _ => hq) rfl⟩
  · obtain ⟨s₁, r, commits, hreplied, habort, -⟩ := finishCommit_eq_some h
    have hqueue : ∀ name, s₁.queue name = s.queue name := hreplied.queue
    have hwf₁ := hreplied.usersWF (hwf.setClient (by rfl))
    have hqs₁ : QueuesWF s₁ := hqs.of_sublist fun name => by rw [hqueue]
    have hactive₁ : s₁.active d = true := by
      rw [hreplied.active, active, clients_setClient_self]
      simpa [active] using hactive
    have he := ended_abortTransaction habort hactive₁
    have hsub : ∀ name, (s'.queue name).Sublist (s.queue name) := fun name =>
      hqueue name ▸ he.queue name
    refine ⟨hsub, fun c => ?_⟩
    by_cases hc : c = d
    · subst hc
      have hto : s'.sentTo c = s.sentTo c ++ [.transactionCommit r commits] := by
        rw [he.sentTo, hreplied.sentTo_self, sentTo_setClient]
      exact .quiet hd (hd.of_sublist hsub) (replies_of_message hto (by rintro _ ⟨⟩)) rfl
    · have hserved : Served c s s₁ := by
        refine .same (fun name => ?_) ((hreplied.sentTo_of_ne hc).trans (sentTo_setClient _))
        rw [Waits, hqueue, Waits]
      exact .served (hserved.trans (he.served hqs₁ c hc)) (fun name q hq _ => (hsub name).subset hq)
        rfl

/-! ### Timeouts -/

/-- Each read whose time is out is told so, and nothing else happens. -/
theorem foldl_lockTimeout (qs : List BlobsRead) (s : Server) :
    (qs.foldl (fun s m => s.sendError m.clientId .lockTimeout) s).databases = s.databases ∧
      ∀ c, (qs.foldl (fun s m => s.sendError m.clientId .lockTimeout) s).sentTo c = s.sentTo c ++
        (qs.filter fun m => m.clientId = c).map fun _ => .blobsRead (.createError .lockTimeout) := by
  induction qs generalizing s with
  | nil => exact ⟨rfl, fun c => (List.append_nil _).symm⟩
  | cons q qs ih =>
    obtain ⟨h1, h2⟩ := ih (s.sendError q.clientId .lockTimeout)
    refine ⟨h1, fun c => ?_⟩
    rw [List.foldl_cons, h2]
    by_cases hc : q.clientId = c
    · subst hc
      rw [sendError, sentTo_send_self, List.filter_cons_of_pos (by simp), List.map_cons,
        List.append_assoc]
      rfl
    · rw [sendError, sentTo_send_of_ne (Ne.symm hc), List.filter_cons_of_neg (by simpa using hc)]

/-- A client waits with one read. -/
theorem QueuesWF.filter_eq (h : QueuesWF s) (hq : q ∈ s.queue name) :
    ((s.queue name).filter fun m => m.clientId = q.clientId) = [q] := by
  have hn := h.nodup name
  generalize s.queue name = qs at hn hq
  induction qs with
  | nil => cases hq
  | cons q' qs ih =>
    rw [List.map_cons, List.nodup_cons] at hn
    rcases List.mem_cons.mp hq with rfl | hq
    · rw [List.filter_cons_of_pos (by simp), List.filter_eq_nil_iff.mpr]
      intro m hm
      simpa using fun hc => hn.1 (List.mem_map.mpr ⟨m, hm, hc⟩)
    · rw [List.filter_cons_of_neg, ih hn.2 hq]
      simpa using fun hc => hn.1 (List.mem_map.mpr ⟨q, hq, hc.symm⟩)

/-- The reads that are due are told so and dropped. -/
theorem checkForLockTimeouts_served {due : BlobsRead → Bool}
    (h : s.checkForLockTimeouts name due = some s') (hqs : QueuesWF s) (c : ClientId) :
    Served c s s' := by
  unfold checkForLockTimeouts at h
  split at h
  · obtain rfl := Option.some.inj h
    exact Served.refl c s
  · next od hod =>
    obtain rfl := Option.some.inj h
    have hqueue : s.queue name = od.queuedReads := queue_of_some hod
    set timedOut : BlobsRead → Bool := fun m => 0 < m.lockTimeoutMs && due m
    obtain ⟨hdb, hto⟩ := foldl_lockTimeout (od.queuedReads.filter timedOut) s
    specialize hto c
    set s₁ := (od.queuedReads.filter timedOut).foldl
      (fun s m => s.sendError m.clientId .lockTimeout) s
    set s₂ := s₁.setDatabase name
      { od with queuedReads := od.queuedReads.filter fun m => !timedOut m } with hs₂
    have hself : s₂.queue name = (s.queue name).filter fun m => !timedOut m := by
      rw [hs₂, queue_setDatabase_self, hqueue]
    have hother : ∀ name', name' ≠ name → s₂.queue name' = s.queue name' := fun name' hne => by
      rw [hs₂, queue_setDatabase_of_ne hne, queue, hdb, queue]
    rw [← hqueue, List.filter_comm] at hto
    have hsub : ∀ name', (s₂.queue name').Sublist (s.queue name') := fun name' => by
      by_cases hne : name' = name
      · rw [hne, hself]
        exact List.filter_sublist
      · rw [hother name' hne]
    -- a client has at most one read in the queues, so it is answered once or not at all
    by_cases hw : s.Waits c name
    · obtain ⟨q, hq, rfl⟩ := hw
      rw [hqs.filter_eq hq] at hto
      cases hdue : timedOut q with
      | true =>
        rw [List.filter_cons_of_pos hdue] at hto
        refine .answered ⟨q, hq, rfl⟩ ?_ (.error (by decide)) hto
        rintro name' ⟨m, hm, hmq⟩
        obtain rfl := hqs.single q.clientId name' name ⟨m, (hsub name').subset hm, hmq⟩ ⟨q, hq, rfl⟩
        rw [hself, List.mem_filter] at hm
        have hm' : m ∈ (s.queue name').filter fun m => m.clientId = q.clientId :=
          List.mem_filter.mpr ⟨hm.1, decide_eq_true hmq⟩
        rw [hqs.filter_eq hq, List.mem_singleton] at hm'
        rw [hm', hdue] at hm
        exact absurd hm.2 (by decide)
      | false =>
        rw [List.filter_cons_of_neg (by simp [hdue])] at hto
        refine .same (fun name' => ⟨fun hw => hw.of_sublist (hsub name'), fun hw => ?_⟩)
          (hto.trans (List.append_nil _))
        obtain rfl := hqs.single _ _ _ hw ⟨q, hq, rfl⟩
        refine ⟨q, ?_, rfl⟩
        rw [hself, List.mem_filter, hdue]
        exact ⟨hq, rfl⟩
    · have hnone : ((s.queue name).filter fun m => m.clientId = c) = [] :=
        List.filter_eq_nil_iff.mpr fun m hm => by simpa using fun hc => hw ⟨m, hm, hc⟩
      rw [hnone] at hto
      refine .same (fun name' => ⟨fun hw => hw.of_sublist (hsub name'), fun hw' => ?_⟩)
        (hto.trans (List.append_nil _))
      have hne : name' ≠ name := fun heq => hw (heq ▸ hw')
      rwa [Waits, hother name' hne]

/-! ### A new read -/

/-- A read that joins a queue, of a client that did not wait. -/
theorem QueuesWF.queued (h : QueuesWF s) {od : OpenDatabase} (hod : s.databases name = some od)
    (hm : m.blobs ≠ []) (hidle : s.Idle m.clientId) :
    QueuesWF (s.setDatabase name { od with queuedReads := od.queuedReads ++ [m] }) := by
  set s' := s.setDatabase name { od with queuedReads := od.queuedReads ++ [m] } with hs'
  have hself : s'.queue name = s.queue name ++ [m] := by
    rw [hs', queue_setDatabase_self, queue_of_some hod]
  have hother : ∀ name', name' ≠ name → s'.queue name' = s.queue name' := fun name' hne =>
    queue_setDatabase_of_ne hne
  have hwaits : ∀ c name', s'.Waits c name' →
      s.Waits c name' ∨ c = m.clientId ∧ name' = name := by
    rintro c name' ⟨q, hq, rfl⟩
    by_cases hne : name' = name
    · subst hne
      rw [hself, List.mem_append, List.mem_singleton] at hq
      exact hq.imp (fun hq => ⟨q, hq, rfl⟩) fun hq => ⟨by rw [hq], rfl⟩
    · exact Or.inl ⟨q, hother name' hne ▸ hq, rfl⟩
  refine ⟨fun name' q hq => ?_, fun name' => ?_, fun c name₁ name₂ hw₁ hw₂ => ?_⟩
  · by_cases hne : name' = name
    · subst hne
      rw [hself, List.mem_append, List.mem_singleton] at hq
      rcases hq with hq | rfl
      · exact h.blobs name' q hq
      · exact hm
    · exact h.blobs name' q (hother name' hne ▸ hq)
  · by_cases hne : name' = name
    · subst hne
      rw [hself, List.map_append]
      refine List.nodup_append'.mpr ⟨h.nodup name', List.nodup_singleton _, fun c hc hc' => ?_⟩
      obtain ⟨q, hq, rfl⟩ := List.mem_map.mp hc
      rw [List.map_singleton, List.mem_singleton] at hc'
      exact hidle name' ⟨q, hq, hc'⟩
    · rw [hother name' hne]
      exact h.nodup name'
  · rcases hwaits c name₁ hw₁ with h₁ | ⟨rfl, rfl⟩
    · rcases hwaits c name₂ hw₂ with h₂ | ⟨rfl, rfl⟩
      · exact h.single c name₁ name₂ h₁ h₂
      · exact absurd h₁ (hidle name₁)
    · rcases hwaits _ name₂ hw₂ with h₂ | ⟨-, rfl⟩
      · exact absurd h₂ (hidle name₂)
      · rfl

/-- A read that is answered at once. -/
theorem outcome_of_answered {rs : List BlobsReadResponse} (hidle : s.Idle m.clientId)
    (hqueue : ∀ name, s'.queue name = s.queue name)
    (hother : ∀ d, d ≠ m.clientId → s'.sentTo d = s.sentTo d) (hrs : CompleteAnswer rs)
    (hsent : s'.sentTo m.clientId = s.sentTo m.clientId ++ rs.map .blobsRead) (c : ClientId) :
    Outcome c (.blobsRead m) s s' := by
  have hsub : ∀ name, (s'.queue name).Sublist (s.queue name) := fun name => by rw [hqueue]
  by_cases hc : c = m.clientId
  · subst hc
    exact .answered hidle (hidle.of_sublist hsub) hrs hsent (if_pos rfl)
  · refine .served (.same (fun name => ?_) (hother c hc)) (fun name q hq _ => hqueue name ▸ hq)
      (if_neg (Ne.symm hc))
    rw [Waits, hqueue, Waits]

/-- A read that waits, before the transactions of its victims end. -/
theorem FoundVictims.served {vs : List ClientId} {s₂ : Server} (h : FoundVictims m s vs s₂)
    (hqs : QueuesWF s) (hblobs : m.blobs ≠ []) (hidle : s.Idle m.clientId) :
    QueuesWF s₂ ∧ (∀ q, s₂.WaitsFor m.clientId q ↔ q = m) ∧
      s₂.sentTo m.clientId = s.sentTo m.clientId ∧
      ∀ c, c ≠ m.clientId → Served c s s₂ ∧
        ∀ name, ∀ q ∈ s₂.queue name, q.clientId = c → q ∈ s.queue name := by
  obtain ⟨s₁, name, od, htry, -, hod, rfl, -⟩ := h.queued
  have ht := htry.tried
  have hsub : ∀ name, (s₁.queue name).Sublist (s.queue name) := fun name => by rw [ht.queue]
  have hqs₁ := (hqs.of_sublist hsub).queued hod hblobs (hidle.of_sublist hsub)
  set s₂ := s₁.setDatabase name { od with queuedReads := od.queuedReads ++ [m] } with hs₂
  have hself : s₂.queue name = s.queue name ++ [m] := by
    rw [hs₂, queue_setDatabase_self, ← queue_of_some hod, ht.queue]
  have hother : ∀ name', name' ≠ name → s₂.queue name' = s.queue name' := fun name' hne =>
    (queue_setDatabase_of_ne hne).trans (ht.queue name')
  have hmem : ∀ name' q, q ∈ s₂.queue name' ↔ q ∈ s.queue name' ∨ q = m ∧ name' = name :=
    fun name' q => by
      by_cases hne : name' = name
      · subst hne
        rw [hself, List.mem_append, List.mem_singleton]
        simp
      · rw [hother name' hne]
        simp [hne]
  refine ⟨hqs₁, fun q => ⟨?_, ?_⟩, ?_, fun c hc => ⟨.same (fun name' => ?_) ?_, ?_⟩⟩
  · rintro ⟨name', hq, hqc⟩
    rcases (hmem name' q).mp hq with hq | ⟨rfl, -⟩
    · exact absurd ⟨q, hq, hqc⟩ (hidle name')
    · rfl
  · rintro rfl
    exact ⟨name, (hmem name q).mpr (Or.inr ⟨rfl, rfl⟩), rfl⟩
  · obtain ⟨rs, hrs, hnil, -⟩ := ht.answer
    rw [hs₂, sentTo_setDatabase, hrs, hnil rfl]
    exact List.append_nil _
  · constructor
    · rintro ⟨q, hq, rfl⟩
      rcases (hmem name' q).mp hq with hq | ⟨rfl, -⟩
      · exact ⟨q, hq, rfl⟩
      · exact absurd rfl hc
    · rintro ⟨q, hq, hqc⟩
      exact ⟨q, (hmem name' q).mpr (Or.inl hq), hqc⟩
  · rw [hs₂, sentTo_setDatabase, ht.sentTo_of_ne c hc]
  · rintro name' q hq rfl
    rcases (hmem name' q).mp hq with hq | ⟨rfl, -⟩
    · exact hq
    · exact absurd rfl hc

/-- The victims of a deadlock wait for the client whose read closed it. -/
theorem FoundVictims.blockedBy {vs : List ClientId} {s₂ : Server} (h : FoundVictims m s vs s₂) :
    vs = [m.clientId] ∨ m.clientId ∉ vs ∧ vs.Nodup ∧ ∃ name, ∀ v ∈ vs,
      ∃ q ∈ s₂.queue name, q.clientId = v ∧ s₂.BlockedBy name q m.clientId := by
  obtain ⟨s₁, name, od, htry, -, hod, rfl, hvs⟩ := h.queued
  refine hvs.imp id fun ⟨hm, hn, hvs⟩ => ⟨hm, hn, name, fun v hv => ?_⟩
  obtain ⟨-, q, hq, hqv, t, ht, hfind⟩ := hvs v hv
  obtain ⟨cs, hcs, hmem⟩ := Option.map_eq_some_iff.mp hfind
  obtain ⟨ls, hls, rfl⟩ := Option.map_eq_some_iff.mp hcs
  obtain ⟨l, hl, hx⟩ := List.mem_flatMap.mp (of_decide_eq_true hmem)
  refine ⟨q, ?_, hqv, t, ls, tree_setDatabase_self.trans ht, hls, l, hl, ?_⟩
  · rw [queue_setDatabase_self]
    exact List.mem_append_left _ hq
  · rw [locks_setDatabase_self]
    exact hx

/-- What a read does to the reads of all clients. -/
theorem handleBlobsRead_outcome (h : s.handleBlobsRead m = some s') (hwf : UsersWF s)
    (hs : Healthy s) (hqs : QueuesWF s) (hfit : AllFit s) (hblobs : m.blobs ≠ [])
    (hidle : s.Idle m.clientId) : QueuesWF s' ∧ ∀ c, Outcome c (.blobsRead m) s s' := by
  rcases handleBlobsRead_eq_some h with htry | ⟨s₁, htry, rfl⟩ | ⟨vs, s₂, hvs, hfold⟩
  · have ht := htry.tried
    obtain ⟨rs, hsent, -, hrs⟩ := ht.answer
    exact ⟨hqs.of_sublist fun name => by rw [ht.queue], outcome_of_answered hidle ht.queue
      ht.sentTo_of_ne (hrs rfl hblobs) hsent⟩
  · have ht := htry.tried
    obtain ⟨rs, hsent, hnil, -⟩ := ht.answer
    rw [hnil rfl, List.map_nil, List.append_nil] at hsent
    have herror : CompleteAnswer [.createError .lockTimeout] := .error (by decide)
    refine ⟨hqs.of_sublist fun name => by rw [← ht.queue]; rfl,
      outcome_of_answered hidle ht.queue (fun d hd => ?_) herror ?_⟩
    · exact (sentTo_send_of_ne hd _).trans (ht.sentTo_of_ne d hd)
    · rw [sendError, sentTo_send_self, hsent]
      rfl
  · have hfound := foundVictims hvs
    have hmoves : Moves .noCommits s s₂ := hfound.moves hs trivial
    have hs₂ := hmoves.healthy hs
    have hfit₂ := hmoves.allFit hs hfit
    obtain ⟨hwf₂, hclients, -, hactive⟩ := hfound.waiting hwf
    obtain ⟨hqs₂, hwaits, hsent, hserved⟩ := hfound.served hqs hblobs hidle
    obtain ⟨name, hm, -⟩ := (hwaits m).mpr rfl
    have hself : ∀ name, ∀ q ∈ s₂.queue name, q.clientId = m.clientId → q = m :=
      fun name q hq hqc => (hwaits q).mp ⟨name, hq, hqc⟩
    have hall : (∀ c, Served c s₂ s') ∧ ∀ name, (s'.queue name).Sublist (s₂.queue name) := by
      rcases hfound.blockedBy with rfl | ⟨hnot, hn, name, hblocked⟩
      · obtain ⟨s₃, habort, hnil⟩ := Option.bind_eq_some_iff.mp hfold
        obtain rfl := Option.some.inj hnil
        have hactive₂ : s₂.active m.clientId = true := by
          rw [active, hclients]
          exact hactive _ (List.mem_singleton_self _)
        exact ⟨fun c => abortVictim_served habort hactive₂ hwf₂ hqs₂ ⟨m, hm, rfl⟩ c,
          (abortVictim_ended habort hactive₂).queue⟩
      · exact foldlM_abortVictim_served hfold hn hwf₂ hs₂ hqs₂ hfit₂ hnot hblocked
    refine ⟨hqs₂.of_sublist hall.2, fun c => ?_⟩
    by_cases hc : c = m.clientId
    · subst hc
      have hsent' := hall.1 m.clientId
      cases hsent' with
      | same hw hto =>
        refine .queued hidle (fun q => ⟨?_, ?_⟩) (hto.trans hsent) (if_pos rfl)
        · rintro ⟨name', hq, hqc⟩
          exact hself name' q ((hall.2 name').subset hq) hqc
        · rintro rfl
          obtain ⟨q', hq', hqc⟩ := (hw name).mpr ⟨q, hm, rfl⟩
          obtain rfl := hself name q' ((hall.2 name).subset hq') hqc
          exact ⟨name, hq', rfl⟩
      | answered _ hno hrs hto =>
        exact .answered hidle hno hrs (hsent ▸ hto) (if_pos rfl)
    · obtain ⟨h1, h2⟩ := hserved c hc
      exact .served (h1.trans (hall.1 c))
        (fun name q hq hqc => h2 name q ((hall.2 name).subset hq) hqc) (if_neg (Ne.symm hc))

/-! ### Runs -/

/-- An event that concerns only its client answers no read. -/
theorem outcome_of_calm (h : Calm d s s') (hd : s.Idle d) {r : Response}
    (hsent : s'.sentTo d = s.sentTo d ++ [r]) (hne : ∀ r', r ≠ .blobsRead r')
    (hr : requests c e = []) : Outcome c e s s' :=
  h.outcome hd (replies_of_message hsent hne) hr

/-- What a step does to the reads of all clients, when those that send requests do not wait. -/
theorem Step.outcome (h : Step s e s') (hwf : UsersWF s) (hs : Healthy s) (hqs : QueuesWF s)
    (hfit : AllFit s) (hblobs : ∀ m, e = .blobsRead m → m.blobs ≠ [])
    (hidle : ∀ c ∈ e.sender, s.Idle c ∨ e.withdraws = true) :
    QueuesWF s' ∧ ∀ c, Outcome c e s s' := by
  obtain ⟨-, h⟩ := h
  have hsender : ∀ c, e.sender = some c → e.withdraws = false → s.Idle c := fun c hc hw =>
    (hidle c hc).resolve_right (by simp [hw])
  -- nothing is sent and no queue changes
  have hsame : ∀ {s' : Server}, (∀ c, s'.sentTo c = s.sentTo c) →
      (∀ name, s'.queue name = s.queue name) → (∀ c, requests c e = []) →
      QueuesWF s' ∧ ∀ c, Outcome c e s s' := fun hto hqueue hr => by
    refine ⟨hqs.of_sublist fun name => by rw [hqueue], fun c => ?_⟩
    refine .served (.same (fun name => ?_) (hto c)) (fun name q hq _ => hqueue name ▸ hq) (hr c)
    rw [Waits, hqueue, Waits]
  cases e with
  | connectionOpened d =>
    rw [handle] at h
    obtain rfl := Option.some.inj h
    exact hsame (fun _ => rfl) (fun _ => rfl) fun _ => rfl
  | connectionClosed d =>
    have hw := handleConnectionClosed_withdrawn h hwf hqs hfit
    exact ⟨hqs.of_sublist hw.queue, fun c => hw.outcome rfl⟩
  | databaseOpen d name mode mvcc =>
    obtain ⟨-, hcalm, r, i, hsent⟩ := handleDatabaseOpen_calm h hwf
    exact ⟨hqs.of_sublist hcalm.queue, fun c => outcome_of_calm hcalm (hsender d rfl rfl) hsent
      (by rintro _ ⟨⟩) rfl⟩
  | databaseClose d id =>
    obtain ⟨-, hcalm, r, hsent⟩ := handleDatabaseClose_calm h hwf
    exact ⟨hqs.of_sublist hcalm.queue, fun c => outcome_of_calm hcalm (hsender d rfl rfl) hsent
      (by rintro _ ⟨⟩) rfl⟩
  | blobsRead m =>
    exact handleBlobsRead_outcome h hwf hs hqs hfit (hblobs m rfl) (hsender m.clientId rfl rfl)
  | transactionBegin d priority modes =>
    obtain ⟨s₁, r, locks, hbegun, rfl, -⟩ := handleTransactionBegin_begun h
    have hto : ∀ c, s₁.sentTo c = s.sentTo c := fun c => by
      rw [sentTo, hbegun.same.sent, sentTo]
    have hsub : ∀ name, ((s₁.send d (.transactionBegin r locks)).queue name).Sublist
        (s.queue name) := fun name => by
      rw [← hbegun.same.queue]
      exact List.Sublist.refl _
    refine ⟨hqs.of_sublist hsub, fun c => ?_⟩
    by_cases hc : c = d
    · subst hc
      have hd : s.Idle c := hsender c rfl rfl
      refine .quiet hd (hd.of_sublist hsub) (replies_of_message (r := .transactionBegin r locks) ?_
        (by rintro _ ⟨⟩)) rfl
      rw [sentTo_send_self, hto]
    · refine .served (.same (fun name => ?_) ((sentTo_send_of_ne hc _).trans (hto c)))
        (fun name q hq _ => (hsub name).subset hq) rfl
      rw [Waits, Waits, ← hbegun.same.queue]
      rfl
  | transactionAbort d =>
    have hw := abortTransaction_withdrawn h hwf hqs hfit
    exact ⟨hqs.of_sublist hw.queue, fun c => hw.outcome rfl⟩
  | transactionCommit d m σ =>
    obtain ⟨h1, h2⟩ := handleTransactionCommit_outcome h hwf hqs (hsender d rfl rfl)
    exact ⟨hqs.of_sublist h1, h2⟩
  | lockTimeouts name due =>
    have hsub := (checkForLockTimeouts_eq_some h).2.2
    exact ⟨hqs.of_sublist hsub, fun c => .served (checkForLockTimeouts_served h hqs c)
      (fun name q hq _ => (hsub name).subset hq) rfl⟩
  | delayedClose name =>
    rw [handle] at h
    split at h
    · obtain rfl := Option.some.inj h
      exact hsame (fun _ => rfl) (fun _ => rfl) fun _ => rfl
    · next od hod =>
      obtain rfl := Option.some.inj h
      split_ifs with huse
      · have huses := (uses_of_some hod).trans huse
        refine hsame (fun c => by rw [sentTo, closeDatabase_sent, sentTo]) (fun name' => ?_)
          fun _ => rfl
        by_cases hne : name' = name
        · subst hne
          -- a database without users has no reads that wait, so none goes with it
          have hnil : s.queue name' = [] := List.eq_nil_iff_forall_not_mem.mpr fun q hq =>
            hwf.not_waits huses q.clientId ⟨q, hq, rfl⟩
          rw [hnil, queue_of_none]
          rw [closeDatabase_databases, Function.update_self]
        · exact queue_congr (by rw [closeDatabase_databases, Function.update_of_ne hne])
      · exact hsame (fun _ => rfl) (fun _ => rfl) fun _ => rfl

/-- A server starts with empty queues. -/
theorem queuesWF_start (files : DatabaseName → Option FileContent) (delay : ℕ) :
    QueuesWF (start files delay) where
  blobs _ _ h := nomatch h
  nodup _ := List.nodup_nil
  single _ _ _ h := nomatch h.choose_spec.1

/-- A server starts in order. -/
theorem healthy_start (delay : ℕ) : Healthy (start (fun _ => none) delay) where
  databases _ _ h := nomatch h
  files _ _ h := nomatch h

/-- In every run the logs of the clients tell which reads are outstanding. -/
theorem Converses.tells {log : ClientId → List ReadEvent} (h : Converses s log) :
    UsersWF s ∧ Healthy s ∧ QueuesWF s ∧ AllFit s ∧ ∀ c, s.Tells c (log c) := by
  induction h with
  | start files delay hs =>
    exact ⟨usersWF_start files delay, hs, queuesWF_start files delay, fun _ _ hq => (nomatch hq),
      fun c => ⟨.nil, fun m => iff_of_false nofun fun ⟨_, hq, _⟩ => (nomatch hq)⟩⟩
  | step hrun hstep hblobs hturn ih =>
    obtain ⟨hwf, hs, hqs, hfit, htells⟩ := ih
    obtain ⟨hqs', houtcome⟩ := hstep.outcome hwf hs hqs hfit hblobs fun c hc =>
      (hturn c hc).imp_left (htells c).idle
    exact ⟨hstep.usersWF hwf, hstep.healthy hwf hs, hqs', hstep.allFit hwf hs hfit,
      fun c => (houtcome c).tells hqs (htells c)⟩

/-- A read that asks for nothing. -/
def Event.asksNothing : Event → Bool
  | .blobsRead m => m.blobs.isEmpty
  | _ => false

/-- The run of a list of events, with the logs of the clients. -/
def converse : List Event → Server × (ClientId → List ReadEvent) →
    Option (Server × (ClientId → List ReadEvent))
  | [], r => some r
  | e :: es, (s, log) =>
    if (e.sender.all fun c => (s.clients c).connected &&
        ((outstanding (log c)).isNone || e.withdraws)) && !e.asksNothing then
      match s.handle e with
      | none => none
      | some s' => converse es (s', fun c => log c ++ requests c e ++ (replies c s s').map .told)
    else none

/-- A list of events that can be handled is a run. -/
theorem Converses.converse {es : List Event} {log log' : ClientId → List ReadEvent}
    (h : Converses s log) (hc : Server.converse es (s, log) = some (s', log')) :
    Converses s' log' := by
  induction es generalizing s log with
  | nil =>
    cases hc
    exact h
  | cons e es ih =>
    rw [Server.converse] at hc
    split_ifs at hc with hok
    split at hc
    · cases hc
    · next s₁ hs₁ =>
      rw [Bool.and_eq_true, Option.all_eq_true] at hok
      refine ih (h.step ⟨fun c hc => ?_, hs₁⟩ (fun m he => ?_) fun c hc => ?_) hc
      · exact (Bool.and_eq_true_iff.mp (hok.1 c hc)).1
      · have hasks := hok.2
        rw [he] at hasks
        simpa [Event.asksNothing] using hasks
      · simpa using (Bool.and_eq_true_iff.mp (hok.1 c hc)).2

end Server

end BlobsDb
