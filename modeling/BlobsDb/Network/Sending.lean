import Mathlib.Data.List.Basic
import BlobsDb.ForMathlib.GuardedRun

/-!
# Sending messages

The network thread of a `DuplexMessageSocket` sends what other threads put into a queue. The
buffers of the send operation in progress are those of the first messages of the queue; a message
leaves the queue once all of it was sent. A thread that adds the first message to an empty queue
posts a notification, for which the network thread starts the next send operation.

`InitializeMessageSocket` starts one as well, for the messages that were queued before the port was
known. When one of these was notified, too, the operation is started twice for the same messages.
`Send.Inv` is kept in all runs where this does not happen.
-/

namespace BlobsDb

namespace DuplexMessageSocket

/-! ### The queue and the buffers -/

/-- Where the network thread is: in `InitializeMessageSocket`, about to call `WSASend`, or waiting
for a packet of the port. -/
inductive Thread
  | connecting
  | portSet
  | associated
  | sending
  | waiting
  deriving DecidableEq

/-- The thread has not sent anything. -/
def Thread.initializing : Thread → Bool
  | connecting | portSet | associated => true
  | sending | waiting => false

/-- What there is to send, the packets that are under way to the network thread, and the bytes the
socket took. A token is a thread that added to the empty queue, and has not posted its notification
yet. -/
structure Send where
  thread : Thread
  hasPort : Bool
  buffers : List (List UInt8)
  queue : List (List UInt8)
  tokens : ℕ
  notifications : ℕ
  outstanding : List (List UInt8)
  completions : List ℕ
  stream : List UInt8
  deriving DecidableEq

namespace Send

/-- The socket before `InitializeMessageSocket`. -/
def initial : Send := ⟨.connecting, false, [], [], 0, 0, [], [], []⟩

/-- `SendData`, up to the call of `WSASend`. -/
def sendData (s : Send) : Send :=
  if s.queue = [] then { s with thread := .waiting }
  else { s with buffers := s.buffers ++ s.queue, thread := .sending }

/-- Removes the buffers that were transmitted, and their messages. Each buffer has its message. -/
def removeTransmitted : ℕ → List (List UInt8) → List (List UInt8) →
    Option (ℕ × List (List UInt8) × List (List UInt8))
  | bytesTransferred, [], queue => some (bytesTransferred, [], queue)
  | bytesTransferred, b :: buffers, queue =>
    if b.length ≤ bytesTransferred then
      match queue with
      | [] => none
      | _ :: queue => removeTransmitted (bytesTransferred - b.length) buffers queue
    else some (bytesTransferred, b :: buffers, queue)

/-- Moves the first buffer behind the bytes that were transmitted. -/
def advance (bytesTransferred : ℕ) : List (List UInt8) → List (List UInt8)
  | [] => []
  | b :: buffers => b.drop bytesTransferred :: buffers

/-- `ProcessSentData`, up to the call of `WSASend`. -/
def processSentData (bytesTransferred : ℕ) (s : Send) : Option Send :=
  (removeTransmitted bytesTransferred s.buffers s.queue).map fun r =>
    let buffers := advance r.1 r.2.1
    let buffers := buffers ++ r.2.2.drop buffers.length
    { s with buffers, queue := r.2.2, thread := if buffers = [] then .waiting else .sending }

/-- `SendQueueAccessToken`, while it has the lock. -/
def enqueue (messages : List (List UInt8)) (s : Send) : Send :=
  { s with
    queue := s.queue ++ messages
    tokens := if s.queue = [] ∧ messages ≠ [] then s.tokens + 1 else s.tokens }

/-- What the threads and the system do. -/
inductive Action
  | setPort
  | associateSocket
  | sendData
  | wsaSend
  | notified
  | sent (bytesTransferred : ℕ)
  | enqueue (messages : List (List UInt8))
  | post
  | transfer (bytes : ℕ)

/-- The messages that are added to the queue. -/
def Action.messages : Action → List (List UInt8)
  | enqueue messages => messages
  | _ => []

/-- The network thread calls `SendData`, on its own or for a notification. -/
def Action.callsSendData : Action → Bool
  | sendData | notified => true
  | _ => false

/-- One step. Messages are not empty. The system transmits at least one byte of the first send
operation in progress, and then completes it. -/
def step (s : Send) : Action → Option Send
  | .setPort =>
    if s.thread = .connecting then some { s with hasPort := true, thread := .portSet } else none
  | .associateSocket =>
    if s.thread = .portSet then some { s with thread := .associated } else none
  | .sendData => if s.thread = .associated then some s.sendData else none
  | .wsaSend =>
    if s.thread = .sending then
      some { s with outstanding := s.outstanding ++ [s.buffers.flatten], thread := .waiting }
    else none
  | .notified =>
    if s.thread = .waiting ∧ 0 < s.notifications then
      some { s with notifications := s.notifications - 1 }.sendData
    else none
  | .sent bytesTransferred =>
    if s.thread = .waiting ∧ bytesTransferred ∈ s.completions then
      { s with completions := s.completions.erase bytesTransferred }.processSentData
        bytesTransferred
    else none
  | .enqueue messages => if [] ∈ messages then none else some (s.enqueue messages)
  | .post =>
    if 0 < s.tokens then
      some { s with
        tokens := s.tokens - 1
        notifications := if s.hasPort then s.notifications + 1 else s.notifications }
    else none
  | .transfer bytes =>
    match s.outstanding with
    | [] => none
    | data :: outstanding =>
      if 0 < bytes ∧ bytes ≤ data.length then
        some { s with
          outstanding, completions := s.completions ++ [bytes]
          stream := s.stream ++ data.take bytes }
      else none

/-- The messages that a run adds to the queue, in their order. -/
def enqueued (as : List Action) : List (List UInt8) := as.flatMap Action.messages

/-- Nothing is going on any more. -/
structure Idle (s : Send) : Prop where
  thread : s.thread = .waiting
  tokens : s.tokens = 0
  notifications : s.notifications = 0
  outstanding : s.outstanding = []
  completions : s.completions = []

/-- There is one send operation at most, and the socket took the messages in their order, all of
them when nothing is going on any more. -/
structure Sends (ms : List (List UInt8)) (s : Send) : Prop where
  single : s.outstanding.length + s.completions.length ≤ 1
  free : s.thread = .sending → s.outstanding = [] ∧ s.completions = []
  stream_prefix : s.stream <+: ms.flatten
  complete : s.Idle → s.stream = ms.flatten

/-- `SendData` is called only while no buffers are scheduled. -/
def StartsFree (s : Send) (a : Action) : Prop := a.callsSendData = true → s.buffers = []

instance (s : Send) (a : Action) : Decidable (StartsFree s a) :=
  inferInstanceAs (Decidable (_ → _))

variable {ms messages : List (List UInt8)} {s s' : Send} {a : Action} {as : List Action} {sent p b : List UInt8}
  {buffers queue : List (List UInt8)} {n : ℕ}

/-! ### Transmitted buffers -/

/-- The buffers are those of the first messages, without the bytes of the first message that were
sent already. -/
inductive Scheduled : List UInt8 → List (List UInt8) → List (List UInt8) → Prop
  | nothing {queue : List (List UInt8)} : Scheduled [] [] queue
  | first {p b : List UInt8} {buffers rest : List (List UInt8)} (hb : b ≠ []) :
    Scheduled p (b :: buffers) ((p ++ b) :: (buffers ++ rest))

theorem Scheduled.all (hqueue : ∀ m ∈ queue, m ≠ []) : Scheduled [] queue queue := by
  cases queue with
  | nil => exact .nothing
  | cons m queue =>
    have h : Scheduled [] (m :: queue) (([] ++ m) :: (queue ++ [])) :=
      .first (hqueue m List.mem_cons_self)
    rwa [List.nil_append, List.append_nil] at h

theorem Scheduled.append (h : Scheduled p buffers queue) (messages : List (List UInt8)) :
    Scheduled p buffers (queue ++ messages) := by
  cases h with
  | nothing => exact .nothing
  | first hb =>
    rw [List.cons_append, List.append_assoc]
    exact .first hb

theorem Scheduled.queue_ne_nil (h : Scheduled p buffers queue) (hbuffers : buffers ≠ []) :
    queue ≠ [] := by
  cases h with
  | nothing => exact absurd rfl hbuffers
  | first => exact List.cons_ne_nil _ _

/-- The queue begins with what was sent of its first message and the buffers. -/
theorem Scheduled.exists_flatten (h : Scheduled p buffers queue) :
    ∃ rest, queue.flatten = p ++ buffers.flatten ++ rest := by
  cases h with
  | nothing => exact ⟨queue.flatten, rfl⟩
  | @first p b buffers rest hb =>
    refine ⟨rest.flatten, ?_⟩
    rw [List.flatten_cons, List.flatten_cons, List.flatten_append]
    simp only [List.append_assoc]

/-- The messages behind the buffers are scheduled next. -/
theorem Scheduled.schedule (h : Scheduled p buffers queue) (hqueue : ∀ m ∈ queue, m ≠ []) :
    Scheduled p (buffers ++ queue.drop buffers.length) queue := by
  cases h with
  | nothing => exact Scheduled.all hqueue
  | @first p b buffers rest hb =>
    have hdrop : ((p ++ b) :: (buffers ++ rest)).drop (b :: buffers).length = rest := by
      rw [List.length_cons, List.drop_succ_cons, List.drop_left]
    have h : Scheduled p (b :: (buffers ++ rest)) ((p ++ b) :: ((buffers ++ rest) ++ [])) :=
      .first hb
    rw [List.append_nil] at h
    rw [hdrop]
    exact h

/-- The messages that were transmitted leave the queue, and the bytes of the next one are skipped.
The induction is on the buffers; only the first one begins within its message. -/
theorem exists_removeTransmitted (h : Scheduled p buffers queue) (hqueue : ∀ m ∈ queue, m ≠ [])
    (hn : n ≤ buffers.flatten.length) :
    ∃ n' buffers' removed queue' p', removeTransmitted n buffers queue =
        some (n', buffers', queue') ∧ queue = removed ++ queue' ∧
      Scheduled p' (advance n' buffers') queue' ∧
      removed.flatten ++ p' = p ++ buffers.flatten.take n := by
  induction buffers generalizing p queue n with
  | nil =>
    cases h with
    | nothing => exact ⟨n, [], [], queue, [], rfl, rfl, .nothing, by simp⟩
  | cons b buffers ih =>
    cases h with
    | @first _ _ _ rest hb =>
      rw [removeTransmitted]
      rw [List.flatten_cons, List.length_append] at hn
      split_ifs with hle
      · -- the whole buffer was transmitted, and the next message begins with its first byte
        have hnext : Scheduled [] buffers (buffers ++ rest) := by
          have hall : Scheduled [] buffers buffers := Scheduled.all fun m hm =>
            hqueue m (List.mem_cons_of_mem _ (List.mem_append_left _ hm))
          exact hall.append rest
        obtain ⟨n', buffers', removed, queue', p', h1, h2, h3, h4⟩ := ih hnext
          (fun m hm => hqueue m (List.mem_cons_of_mem _ hm)) (n := n - b.length) (by omega)
        refine ⟨n', buffers', (p ++ b) :: removed, queue', p', h1, ?_, h3, ?_⟩
        · rw [h2, List.cons_append]
        · rw [List.flatten_cons, List.append_assoc, h4, List.nil_append, List.flatten_cons,
            List.take_append, List.take_of_length_le hle, List.append_assoc]
      · have hsplit : p ++ b = p ++ b.take n ++ b.drop n := by
          rw [List.append_assoc, List.take_append_drop]
        refine ⟨n, b :: buffers, [], _, p ++ b.take n, rfl, rfl, ?_, ?_⟩
        · rw [hsplit]
          exact .first (List.ne_nil_of_length_pos (by rw [List.length_drop]; omega))
        · rw [List.flatten_nil, List.nil_append, List.flatten_cons,
            List.take_append_of_le_length (by omega)]

/-! ### What a step keeps -/

/-- What is going on, given the bytes that were sent before the buffers. -/
inductive Flight (sent : List UInt8) (s : Send) : Prop
  | resting (hbuffers : s.buffers = []) (hthread : s.thread ≠ .sending)
    (houtstanding : s.outstanding = []) (hcompletions : s.completions = [])
    (hstream : s.stream = sent)
  | calling (hbuffers : s.buffers ≠ []) (hthread : s.thread = .sending)
    (houtstanding : s.outstanding = []) (hcompletions : s.completions = [])
    (hstream : s.stream = sent)
  | inProgress (hbuffers : s.buffers ≠ []) (hthread : s.thread = .waiting)
    (houtstanding : s.outstanding = [s.buffers.flatten]) (hcompletions : s.completions = [])
    (hstream : s.stream = sent)
  | completed (bytesTransferred : ℕ) (hbuffers : s.buffers ≠ []) (hthread : s.thread = .waiting)
    (houtstanding : s.outstanding = []) (hcompletions : s.completions = [bytesTransferred])
    (hle : bytesTransferred ≤ s.buffers.flatten.length)
    (hstream : s.stream = sent ++ s.buffers.flatten.take bytesTransferred)

/-- The messages that were queued left the queue in their order, as far as they were sent, and a
message that waits has somebody who starts the next send operation. -/
structure Inv (ms : List (List UInt8)) (s : Send) : Prop where
  hasPort : s.hasPort = true ↔ s.thread ≠ .connecting
  initializing : s.thread.initializing = true → s.buffers = []
  nonempty : ∀ m ∈ s.queue, m ≠ []
  books : ∃ done p, ms = done ++ s.queue ∧ Scheduled p s.buffers s.queue ∧
    Flight (done.flatten ++ p) s
  triggered : s.queue ≠ [] → s.buffers = [] →
    s.thread.initializing = true ∨ 0 < s.tokens + s.notifications

theorem Inv.initial : Inv [] initial where
  hasPort := by decide
  initializing _ := rfl
  nonempty _ := (nomatch ·)
  books := ⟨[], [], rfl, .nothing, .resting rfl (by decide) rfl rfl rfl⟩
  triggered h := absurd rfl h

/-- With no buffers scheduled, nothing is going on. -/
theorem Flight.of_nil (h : Flight sent s) (hbuffers : s.buffers = []) :
    s.outstanding = [] ∧ s.completions = [] ∧ s.stream = sent := by
  cases h with
  | resting _ _ ho hc hs => exact ⟨ho, hc, hs⟩
  | calling hb => exact absurd hbuffers hb
  | inProgress hb => exact absurd hbuffers hb
  | completed _ hb => exact absurd hbuffers hb

/-- All messages are scheduled, unless there are none. -/
theorem Inv.sendData (h : Inv ms s) (hbuffers : s.buffers = [])
    (hthread : s.thread = .associated ∨ s.thread = .waiting) (notifications : ℕ) :
    Inv ms { s with notifications := notifications }.sendData := by
  obtain ⟨done, p, hms, hscheduled, hflight⟩ := h.books
  obtain ⟨houtstanding, hcompletions, hstream⟩ := hflight.of_nil hbuffers
  have hport : s.hasPort = true := h.hasPort.mpr (by rcases hthread with h | h <;> rw [h] <;> decide)
  obtain rfl : p = [] := by
    rw [hbuffers] at hscheduled
    cases hscheduled
    rfl
  rw [Send.sendData]
  dsimp only
  split_ifs with hqueue
  · exact {
      hasPort := ⟨fun _ => (nomatch ·), fun _ => hport⟩
      initializing := fun _ => hbuffers
      nonempty := h.nonempty
      books := ⟨done, [], hms, hscheduled, .resting hbuffers (nomatch ·) houtstanding hcompletions
        hstream⟩
      triggered := fun hne => absurd hqueue hne }
  · have hbuffers' : s.buffers ++ s.queue = s.queue := by rw [hbuffers, List.nil_append]
    rw [hbuffers']
    exact {
      hasPort := ⟨fun _ => (nomatch ·), fun _ => hport⟩
      initializing := (nomatch ·)
      nonempty := h.nonempty
      books := ⟨done, [], hms, Scheduled.all h.nonempty, .calling hqueue rfl houtstanding
        hcompletions hstream⟩
      triggered := fun hne hnil => absurd hnil hne }

/-- What was transmitted is removed, and everything else is scheduled. -/
theorem Inv.processSentData (h : Inv ms s)
    (hstep : s.step (.sent n) = some s') : Inv ms s' := by
  obtain ⟨done, p, hms, hscheduled, hflight⟩ := h.books
  rw [Send.step] at hstep
  split_ifs at hstep with hguard
  obtain ⟨hthread, hmem⟩ := hguard
  -- a send operation that is completed is the only one
  cases hflight with
  | resting _ _ _ hcompletions => rw [hcompletions] at hmem; cases hmem
  | calling _ _ _ hcompletions => rw [hcompletions] at hmem; cases hmem
  | inProgress _ _ _ hcompletions => rw [hcompletions] at hmem; cases hmem
  | completed n' hbuffers _ houtstanding hcompletions hle hstream =>
    rw [hcompletions, List.mem_singleton] at hmem
    subst hmem
    obtain ⟨n', buffers', removed, queue', p', hremove, hqueue, hscheduled', hflatten⟩ :=
      exists_removeTransmitted hscheduled h.nonempty hle
    rw [Send.processSentData, hremove, Option.map_some, Option.some_inj] at hstep
    dsimp only at hstep
    have hnonempty : ∀ m ∈ queue', m ≠ [] := fun m hm =>
      h.nonempty m (hqueue ▸ List.mem_append_right _ hm)
    have hschedule := hscheduled'.schedule hnonempty
    set buffers := advance n' buffers' ++ queue'.drop (advance n' buffers').length with hbuffersEq
    have hstream' : s.stream = (done ++ removed).flatten ++ p' := by
      rw [hstream, List.flatten_append, List.append_assoc, List.append_assoc, hflatten]
    have hport : s.hasPort = true := h.hasPort.mpr (by rw [hthread]; decide)
    have hnone : s.completions.erase n = [] := by rw [hcompletions, List.erase_cons_head]
    by_cases hnil : buffers = []
    · obtain rfl : queue' = [] := by
        rw [hnil] at hschedule
        by_contra hne
        have hdrop : queue'.drop (advance n' buffers').length = [] :=
          (List.append_eq_nil_iff.mp (hbuffersEq ▸ hnil)).2
        have hadvance : advance n' buffers' = [] :=
          (List.append_eq_nil_iff.mp (hbuffersEq ▸ hnil)).1
        rw [hadvance] at hdrop
        exact hne hdrop
      rw [if_pos hnil] at hstep
      subst hstep
      exact {
        hasPort := ⟨fun _ => (nomatch ·), fun _ => hport⟩
        initializing := fun _ => hnil
        nonempty := hnonempty
        books := ⟨done ++ removed, p', by rw [hms, hqueue, List.append_assoc], hschedule,
          .resting hnil (nomatch ·) houtstanding hnone hstream'⟩
        triggered := fun hne => absurd rfl hne }
    · rw [if_neg hnil] at hstep
      subst hstep
      exact {
        hasPort := ⟨fun _ => (nomatch ·), fun _ => hport⟩
        initializing := (nomatch ·)
        nonempty := hnonempty
        books := ⟨done ++ removed, p', by rw [hms, hqueue, List.append_assoc], hschedule,
          .calling hnil rfl houtstanding hnone hstream'⟩
        triggered := fun _ hnil' => absurd hnil' hnil }

/-- Steps that leave the queue, the buffers and the send operation alone. -/
theorem Flight.congr (h : Flight sent s) (hbuffers : s'.buffers = s.buffers)
    (hthread : s'.thread = s.thread) (houtstanding : s'.outstanding = s.outstanding)
    (hcompletions : s'.completions = s.completions) (hstream : s'.stream = s.stream) :
    Flight sent s' := by
  cases h with
  | resting h1 h2 h3 h4 h5 =>
    exact .resting (hbuffers ▸ h1) (hthread ▸ h2) (houtstanding ▸ h3) (hcompletions ▸ h4)
      (hstream ▸ h5)
  | calling h1 h2 h3 h4 h5 =>
    exact .calling (hbuffers ▸ h1) (hthread ▸ h2) (houtstanding ▸ h3) (hcompletions ▸ h4)
      (hstream ▸ h5)
  | inProgress h1 h2 h3 h4 h5 =>
    exact .inProgress (hbuffers ▸ h1) (hthread ▸ h2) (by rw [houtstanding, h3, hbuffers])
      (hcompletions ▸ h4) (hstream ▸ h5)
  | completed n h1 h2 h3 h4 h5 h6 =>
    exact .completed n (hbuffers ▸ h1) (hthread ▸ h2) (houtstanding ▸ h3) (hcompletions ▸ h4)
      (hbuffers ▸ h5) (by rw [hstream, h6, hbuffers])

theorem Inv.enqueue (h : Inv ms s) (hmessages : [] ∉ messages) :
    Inv (ms ++ messages) (s.enqueue messages) := by
  obtain ⟨done, p, hms, hscheduled, hflight⟩ := h.books
  refine ⟨h.hasPort, h.initializing, fun m hm => ?_, ⟨done, p, ?_, hscheduled.append messages,
    hflight.congr rfl rfl rfl rfl rfl⟩, fun hne hbuffers => ?_⟩
  · rcases List.mem_append.mp hm with hm | hm
    · exact h.nonempty m hm
    · exact fun hnil => hmessages (hnil ▸ hm)
  · rw [hms, List.append_assoc]
    rfl
  · -- somebody was to start the next operation before, or the token is the first one
    rw [Send.enqueue] at hne hbuffers ⊢
    dsimp only at hne hbuffers ⊢
    by_cases hqueue : s.queue = []
    · rw [hqueue, List.nil_append] at hne
      rw [if_pos ⟨hqueue, hne⟩]
      omega
    · rw [if_neg fun hand => hqueue hand.1]
      exact h.triggered hqueue hbuffers

theorem Inv.transfer (h : Inv ms s) (hstep : s.step (.transfer n) = some s') : Inv ms s' := by
  obtain ⟨done, p, hms, hscheduled, hflight⟩ := h.books
  rw [Send.step] at hstep
  cases hflight with
  | resting _ _ houtstanding => rw [houtstanding] at hstep; cases hstep
  | calling _ _ houtstanding => rw [houtstanding] at hstep; cases hstep
  | completed _ _ _ houtstanding => rw [houtstanding] at hstep; cases hstep
  | inProgress hbuffers hthread houtstanding hcompletions hstream =>
    rw [houtstanding] at hstep
    dsimp only at hstep
    split_ifs at hstep with hguard
    obtain rfl := Option.some_inj.mp hstep
    refine ⟨h.hasPort, h.initializing, h.nonempty, ⟨done, p, hms, hscheduled,
      .completed n hbuffers hthread rfl ?_ hguard.2 ?_⟩, h.triggered⟩
    · rw [hcompletions]
      rfl
    · rw [hstream]

theorem Inv.wsaSend (h : Inv ms s) (hstep : s.step .wsaSend = some s') : Inv ms s' := by
  obtain ⟨done, p, hms, hscheduled, hflight⟩ := h.books
  rw [Send.step] at hstep
  split_ifs at hstep with hthread
  obtain rfl := Option.some_inj.mp hstep
  have hport : s.hasPort = true := h.hasPort.mpr (by rw [hthread]; decide)
  cases hflight with
  | resting _ hnot => exact absurd hthread hnot
  | inProgress _ hwaiting => rw [hwaiting] at hthread; cases hthread
  | completed _ _ hwaiting => rw [hwaiting] at hthread; cases hthread
  | calling hbuffers _ houtstanding hcompletions hstream =>
    exact ⟨⟨fun _ => (nomatch ·), fun _ => hport⟩, (nomatch ·), h.nonempty, ⟨done, p, hms,
      hscheduled, .inProgress hbuffers rfl (by rw [houtstanding]; rfl) hcompletions hstream⟩,
      fun _ hnil => absurd hnil hbuffers⟩

/-- Going on with the initialization. -/
theorem Inv.setThread (h : Inv ms s) (thread : Thread)
    (hinitializing : s.thread.initializing = true)
    (hthread : thread = .portSet ∨ thread = .associated) :
    Inv ms { s with hasPort := true, thread := thread } := by
  obtain ⟨done, p, hms, hscheduled, hflight⟩ := h.books
  have hbuffers := h.initializing hinitializing
  obtain ⟨houtstanding, hcompletions, hstream⟩ := hflight.of_nil hbuffers
  have hthread' : thread.initializing = true ∧ thread ≠ .connecting ∧ thread ≠ .sending := by
    rcases hthread with rfl | rfl <;> decide
  exact ⟨⟨fun _ => hthread'.2.1, fun _ => rfl⟩, fun _ => hbuffers, h.nonempty, ⟨done, p, hms,
    hscheduled, .resting hbuffers hthread'.2.2 houtstanding hcompletions hstream⟩,
    fun _ _ => .inl hthread'.1⟩

/-- Each step keeps the invariant, unless it starts a send operation while there is one. -/
theorem Inv.step (h : Inv ms s) (hfree : StartsFree s a) (hstep : s.step a = some s') :
    Inv (ms ++ a.messages) s' := by
  cases a with
  | enqueue messages =>
    rw [Send.step] at hstep
    split_ifs at hstep with hmessages
    obtain rfl := Option.some_inj.mp hstep
    exact h.enqueue hmessages
  | setPort =>
    simp only [Action.messages, List.append_nil]
    rw [Send.step] at hstep
    split_ifs at hstep with hthread
    obtain rfl := Option.some_inj.mp hstep
    exact h.setThread .portSet (by rw [hthread]; rfl) (.inl rfl)
  | associateSocket =>
    simp only [Action.messages, List.append_nil]
    rw [Send.step] at hstep
    split_ifs at hstep with hthread
    obtain rfl := Option.some_inj.mp hstep
    have hport : s.hasPort = true := h.hasPort.mpr (by rw [hthread]; decide)
    have hset := h.setThread .associated (by rw [hthread]; rfl) (.inr rfl)
    rwa [← hport] at hset
  | sendData =>
    simp only [Action.messages, List.append_nil]
    rw [Send.step] at hstep
    split_ifs at hstep with hthread
    obtain rfl := Option.some_inj.mp hstep
    exact h.sendData (hfree rfl) (.inl hthread) s.notifications
  | notified =>
    simp only [Action.messages, List.append_nil]
    rw [Send.step] at hstep
    split_ifs at hstep with hguard
    obtain rfl := Option.some_inj.mp hstep
    exact h.sendData (hfree rfl) (.inr hguard.1) (s.notifications - 1)
  | wsaSend =>
    simp only [Action.messages, List.append_nil]
    exact h.wsaSend hstep
  | sent bytesTransferred =>
    simp only [Action.messages, List.append_nil]
    exact h.processSentData hstep
  | transfer bytes =>
    simp only [Action.messages, List.append_nil]
    exact h.transfer hstep
  | post =>
    simp only [Action.messages, List.append_nil]
    obtain ⟨done, p, hms, hscheduled, hflight⟩ := h.books
    rw [Send.step] at hstep
    split_ifs at hstep with hpos hport
    · obtain rfl := Option.some_inj.mp hstep
      refine ⟨h.hasPort, h.initializing, h.nonempty, ⟨done, p, hms, hscheduled,
        hflight.congr rfl rfl rfl rfl rfl⟩, fun hne hbuffers => ?_⟩
      refine (h.triggered hne hbuffers).imp_right fun _ => ?_
      dsimp only
      omega
    · -- without the port, the thread has yet to call `SendData` by itself
      obtain rfl := Option.some_inj.mp hstep
      have hthread : s.thread = .connecting := not_not.mp (mt h.hasPort.mpr hport)
      exact ⟨h.hasPort, h.initializing, h.nonempty, ⟨done, p, hms, hscheduled,
        hflight.congr rfl rfl rfl rfl rfl⟩, fun _ _ => .inl (by rw [hthread]; rfl)⟩

theorem sends_of_inv (h : Inv ms s) : Sends ms s := by
  obtain ⟨done, p, hms, hscheduled, hflight⟩ := h.books
  obtain ⟨rest, hqueue⟩ := hscheduled.exists_flatten
  have hflatten : ms.flatten = done.flatten ++ p ++ s.buffers.flatten ++ rest := by
    rw [hms, List.flatten_append, hqueue]
    simp only [List.append_assoc]
  constructor
  · cases hflight <;> simp_all
  · intro hthread
    cases hflight <;> simp_all
  · rw [hflatten]
    cases hflight with
    | resting _ _ _ _ hstream | calling _ _ _ _ hstream | inProgress _ _ _ _ hstream =>
      rw [hstream, List.append_assoc _ _ rest]
      exact List.prefix_append _ _
    | completed n _ _ _ _ _ hstream =>
      rw [hstream]
      refine List.IsPrefix.trans ?_ (List.prefix_append _ rest)
      exact (List.prefix_append_right_inj _).mpr (List.take_prefix _ _)
  · intro hidle
    have hstream : s.buffers = [] ∧ s.stream = done.flatten ++ p := by
      cases hflight with
      | resting hbuffers _ _ _ hstream => exact ⟨hbuffers, hstream⟩
      | calling _ hthread => rw [hidle.thread] at hthread; cases hthread
      | inProgress _ _ houtstanding => rw [hidle.outstanding] at houtstanding; cases houtstanding
      | completed _ _ _ _ hcompletions =>
        rw [hidle.completions] at hcompletions
        cases hcompletions
    -- nobody is left to start an operation, so that no message waits for it
    have hnone : s.queue = [] := by
      by_contra hne
      have htriggered := h.triggered hne hstream.1
      rw [hidle.thread, hidle.tokens, hidle.notifications] at htriggered
      exact htriggered.elim Bool.false_ne_true (Nat.lt_irrefl 0)
    rw [hnone, List.append_nil] at hms
    rw [hms, hstream.2]
    rw [hnone, List.flatten_nil] at hqueue
    have hp : p = [] := (List.append_eq_nil_iff.mp (List.append_eq_nil_iff.mp hqueue.symm).1).1
    rw [hp, List.append_nil]

/-- A call of `SendData` while buffers are scheduled leads to a second `WSASend` at once. -/
theorem Inv.not_sends (h : Inv ms s) (hfree : ¬StartsFree s a) (hstep : s.step a = some s')
    (ms' : List (List UInt8)) : ¬Sends ms' s' := by
  obtain ⟨hcalls, hbuffers⟩ := Classical.not_imp.mp hfree
  obtain ⟨done, p, -, hscheduled, hflight⟩ := h.books
  have hqueue := hscheduled.queue_ne_nil hbuffers
  intro hsends
  cases a with
  | sendData =>
    rw [Send.step] at hstep
    split_ifs at hstep with hthread
    exact hbuffers (h.initializing (by rw [hthread]; rfl))
  | notified =>
    rw [Send.step] at hstep
    split_ifs at hstep with hguard
    rw [Send.sendData, if_neg hqueue] at hstep
    obtain rfl := Option.some_inj.mp hstep
    obtain ⟨houtstanding, hcompletions⟩ := hsends.free rfl
    -- the buffers are those of an operation that is in progress or whose packet is to come
    cases hflight with
    | resting hnil => exact hbuffers hnil
    | calling _ hthread => rw [hguard.1] at hthread; cases hthread
    | inProgress _ _ hone => rw [hone] at houtstanding; cases houtstanding
    | completed _ _ _ _ hone => rw [hone] at hcompletions; cases hcompletions
  | setPort | associateSocket | wsaSend | sent | enqueue | post | transfer => cases hcalls

/-! ### Runs -/

theorem enqueued_append (as : List Action) (a : Action) :
    enqueued (as ++ [a]) = enqueued as ++ a.messages := by
  rw [enqueued, List.flatMap_append, List.flatMap_singleton, enqueued]

/-- What a step keeps, for the messages of a run. -/
theorem Inv.snoc (h : Inv (enqueued as) s) (hfree : StartsFree s a) (hstep : s.step a = some s') :
    Inv (enqueued (as ++ [a])) s' := by
  rw [enqueued_append]
  exact h.step hfree hstep

/-- Messages are sent once and in order, and none is left behind, in all runs in which `SendData`
is called only while no buffers are scheduled, and only until it is called otherwise. -/
theorem sends_of_startsFree (h : GuardedRun step StartsFree initial as s) :
    Sends (enqueued as) s ∧
      ∀ a s', s.step a = some s' → (Sends (enqueued (as ++ [a])) s' ↔ StartsFree s a) :=
  h.exact (I := fun as s => Inv (enqueued as) s) Inv.initial (fun _ _ _ _ => Inv.snoc)
    (fun _ _ => sends_of_inv) fun _ _ _ _ hinv hfree hstep => hinv.not_sends hfree hstep _

/-- Two messages are queued before the socket is connected, and one later; the send operations are
completed in parts. -/
theorem sends_of_startsFree_inParts : ∃ as s, GuardedRun step StartsFree initial as s ∧
    enqueued as = [[1, 2, 3], [4, 5], [6, 7]] ∧ s.Idle ∧ Sends (enqueued as) s ∧
      s.stream = [1, 2, 3, 4, 5, 6, 7] := by
  have hplay : GuardedRun.play step StartsFree [.enqueue [[1, 2, 3], [4, 5]], .post, .setPort,
      .associateSocket, .sendData, .wsaSend, .transfer 4, .sent 4, .wsaSend, .enqueue [[6, 7]],
      .transfer 1, .sent 1, .wsaSend, .transfer 2, .sent 2] initial =
      some ⟨.waiting, true, [], [], 0, 0, [], [], [1, 2, 3, 4, 5, 6, 7]⟩ := by
    decide +kernel
  have hrun := GuardedRun.of_play hplay
  exact ⟨_, _, hrun, rfl, ⟨rfl, rfl, rfl, rfl, rfl⟩, (sends_of_startsFree hrun).1, rfl⟩

/-! ### Messages that are notified although they are taken -/

/-- A message is queued after the port became known and before the network thread looked at the
queue. It is taken, and notified as well: it is sent twice. -/
theorem not_sends_of_notified : ∃ as s, GuardedRun step (fun _ _ => True) initial as s ∧
    enqueued as = [[1, 2]] ∧ s.outstanding = [[1, 2], [1, 2, 1, 2]] ∧ ¬Sends (enqueued as) s := by
  have hplay : GuardedRun.play step (fun _ _ => True) [.setPort, .associateSocket,
      .enqueue [[1, 2]], .post, .sendData, .wsaSend, .notified, .wsaSend] initial =
      some ⟨.waiting, true, [[1, 2], [1, 2]], [[1, 2]], 0, 0, [[1, 2], [1, 2, 1, 2]], [], []⟩ := by
    decide +kernel
  exact ⟨_, _, GuardedRun.of_play hplay, rfl, rfl, fun h => absurd h.single (by decide)⟩

/-- When `InitializeMessageSocket` takes messages, nobody posted a notification for them or is
about to post one. -/
def TakesUnnotified (s : Send) (a : Action) : Prop :=
  a = .sendData → s.queue ≠ [] → s.tokens + s.notifications = 0

/-- After the initialization there is a notification only for a queue that nobody takes yet. -/
structure NotifiedOnce (s : Send) : Prop where
  queued : 0 < s.tokens + s.notifications → s.queue ≠ []
  once : s.thread.initializing = false → s.tokens + s.notifications ≤ 1
  waits : s.thread.initializing = false → 0 < s.tokens + s.notifications → s.buffers = []

theorem NotifiedOnce.startsFree (h : NotifiedOnce s) (hinv : Inv ms s)
    (hstep : s.step a = some s') : StartsFree s a := by
  intro hcalls
  rw [Send.step.eq_def] at hstep
  cases a with
  | sendData =>
    dsimp only at hstep
    split_ifs at hstep with hthread
    exact hinv.initializing (by rw [hthread]; rfl)
  | notified =>
    dsimp only at hstep
    split_ifs at hstep with hguard
    exact h.waits (by rw [hguard.1]; rfl) (by omega)
  | setPort | associateSocket | wsaSend | sent | enqueue | post | transfer => cases hcalls

theorem NotifiedOnce.step (h : NotifiedOnce s) (hinv : Inv ms s) (htakes : TakesUnnotified s a)
    (hstep : s.step a = some s') : NotifiedOnce s' := by
  obtain ⟨done, p, -, hscheduled, hflight⟩ := hinv.books
  have hfree := h.startsFree hinv hstep
  cases a with
  | setPort =>
    rw [Send.step] at hstep
    split_ifs at hstep
    obtain rfl := Option.some_inj.mp hstep
    exact ⟨h.queued, (nomatch ·), (nomatch ·)⟩
  | associateSocket =>
    rw [Send.step] at hstep
    split_ifs at hstep
    obtain rfl := Option.some_inj.mp hstep
    exact ⟨h.queued, (nomatch ·), (nomatch ·)⟩
  | sendData =>
    -- no notification is left when the initialization is done
    rw [Send.step] at hstep
    split_ifs at hstep with hthread
    obtain rfl := Option.some_inj.mp hstep
    have hnone : s.tokens + s.notifications = 0 := by
      by_cases hqueue : s.queue = []
      · have := mt h.queued (not_not.mpr hqueue)
        omega
      · exact htakes rfl hqueue
    rw [Send.sendData]
    split_ifs <;> exact ⟨fun hpos => by dsimp only at hpos; omega, fun _ => by dsimp only; omega,
      fun _ hpos => by dsimp only at hpos; omega⟩
  | notified =>
    rw [Send.step] at hstep
    split_ifs at hstep with hguard
    obtain rfl := Option.some_inj.mp hstep
    have hone := h.once (by rw [hguard.1]; rfl)
    rw [Send.sendData]
    split_ifs <;> exact ⟨fun hpos => by dsimp only at hpos; omega, fun _ => by dsimp only; omega,
      fun _ hpos => by dsimp only at hpos; omega⟩
  | wsaSend =>
    rw [Send.step] at hstep
    split_ifs at hstep with hthread
    obtain rfl := Option.some_inj.mp hstep
    have hstarted : s.thread.initializing = false := by rw [hthread]; rfl
    exact ⟨h.queued, fun _ => h.once hstarted, fun _ => h.waits hstarted⟩
  | sent bytesTransferred =>
    -- buffers were scheduled, so that there is no notification
    rw [Send.step] at hstep
    split_ifs at hstep with hguard
    have hbuffers : s.buffers ≠ [] := by
      cases hflight with
      | resting _ _ _ hnone => rw [hnone] at hguard; cases hguard.2
      | calling hne | inProgress hne | completed _ hne => exact hne
    have hnone := mt (h.waits (by rw [hguard.1]; rfl)) hbuffers
    obtain ⟨r, -, rfl⟩ := Option.map_eq_some_iff.mp hstep
    exact ⟨fun hpos => absurd hpos hnone, fun _ => by dsimp only; omega,
      fun _ hpos => absurd hpos hnone⟩
  | enqueue messages =>
    rw [Send.step] at hstep
    split_ifs at hstep with hmessages
    obtain rfl := Option.some_inj.mp hstep
    rw [Send.enqueue]
    by_cases hqueue : s.queue = []
    · have hnone := mt h.queued (not_not.mpr hqueue)
      have hbuffers : s.buffers = [] := by
        by_contra hne
        exact hscheduled.queue_ne_nil hne hqueue
      refine ⟨fun hpos => ?_, fun _ => ?_, fun _ _ => hbuffers⟩
      · dsimp only at hpos ⊢
        split_ifs at hpos with hnew
        · exact fun hnil => hnew.2 (List.append_eq_nil_iff.mp hnil).2
        · omega
      · dsimp only
        split_ifs <;> omega
    · rw [if_neg fun hnew => hqueue hnew.1]
      exact ⟨fun _ hnil => hqueue (List.append_eq_nil_iff.mp hnil).1, h.once, h.waits⟩
  | post =>
    rw [Send.step] at hstep
    split_ifs at hstep with hpos hport
    · obtain rfl := Option.some_inj.mp hstep
      refine ⟨fun _ => h.queued (by omega), fun hstarted => ?_, fun hstarted _ =>
        h.waits hstarted (by omega)⟩
      have hone := h.once hstarted
      dsimp only
      omega
    · obtain rfl := Option.some_inj.mp hstep
      have hthread : s.thread = .connecting := not_not.mp (mt hinv.hasPort.mpr hport)
      refine ⟨fun _ => h.queued (by omega), fun hstarted => ?_, fun hstarted => ?_⟩ <;>
        (dsimp only at hstarted; rw [hthread] at hstarted; cases hstarted)
  | transfer bytes =>
    rw [Send.step] at hstep
    split at hstep
    · cases hstep
    · split_ifs at hstep
      obtain rfl := Option.some_inj.mp hstep
      exact ⟨h.queued, h.once, h.waits⟩

/-- Notifications are harmless when the messages that `InitializeMessageSocket` takes have none. -/
theorem startsFree_of_takesUnnotified (h : GuardedRun step TakesUnnotified initial as s) :
    GuardedRun step StartsFree initial as s := by
  refine (h.weaken (I := fun as s => Inv (enqueued as) s ∧ NotifiedOnce s) ?_ ?_).1
  · exact ⟨Inv.initial, fun hpos => absurd hpos (Nat.lt_irrefl 0), (nomatch ·), (nomatch ·)⟩
  · rintro as s a s' - ⟨hinv, honce⟩ htakes hstep
    have hfree := honce.startsFree hinv hstep
    exact ⟨hfree, hinv.snoc hfree hstep, honce.step hinv htakes hstep⟩

end Send

end DuplexMessageSocket

end BlobsDb
