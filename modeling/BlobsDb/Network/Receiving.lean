import Mathlib.Data.List.Basic
import BlobsDb.ForMathlib.LittleEndian
import BlobsDb.ForMathlib.RecordBuffer

/-!
# Receiving messages

A socket delivers a stream of bytes, cut anywhere. Each message starts with its size, so that the
memory for the message can be allocated once these four bytes are there; fewer bytes are moved to
the start of the receive buffer, and the next bytes are received behind them. A write outside the
buffer or the message has no answer.

`Expects` tells what the message in progress is the beginning of, given the messages that are yet
to come. It is kept by each round of the loop (`processData_spec`), so that the messages are
handled as they were sent, however the stream is cut (`Receives.reassembles`).
-/

namespace BlobsDb

/-- `sizeof(Message)`: the size, the type and the client. -/
def messageHeaderSize : ℕ := 8

/-- The bytes of a message, of which the first four are their number. -/
def IsMessage (m : List UInt8) : Prop :=
  messageHeaderSize ≤ m.length ∧ leNat (m.take 4) = m.length

instance (m : List UInt8) : Decidable (IsMessage m) := inferInstanceAs (Decidable (_ ∧ _))

namespace DuplexMessageSocket

/-- The size of the receive buffer. -/
def bufferSize : ℕ := 1024

/-- The memory of a message that is received, of which `writeOffset` bytes were written so far. -/
structure PartialMessage where
  size : ℕ
  bytes : List UInt8

namespace PartialMessage

def writeOffset (m : PartialMessage) : ℕ := m.bytes.length

/-- Writes bytes behind those written so far. -/
def write (m : PartialMessage) (bytes : List UInt8) : Option PartialMessage :=
  if m.writeOffset + bytes.length ≤ m.size then some { m with bytes := m.bytes ++ bytes } else none

end PartialMessage

/-- `Receive`: the buffer, where the next bytes are received in it, and the message in progress;
and the messages that were handled. -/
structure Receive where
  buffer : List UInt8
  bufferOffset : ℕ
  message : Option PartialMessage
  handled : List (List UInt8)

namespace Receive

/-- Nothing was received yet. -/
def initial (buffer : List UInt8) : Receive := ⟨buffer, 0, none, []⟩

/-- The length of the free part of the buffer. -/
def bufferLength (r : Receive) : ℕ := bufferSize - r.bufferOffset

/-- Writes bytes into the buffer. -/
def writeBuffer (r : Receive) (offset : ℕ) (bytes : List UInt8) : Option Receive :=
  (writeBytes r.buffer offset bytes).map fun buffer => { r with buffer := buffer }

/-- Goes on with the message in progress, which is handled when it is complete. -/
def received (r : Receive) (m : PartialMessage) : Receive :=
  if m.writeOffset = m.size then { r with message := none, handled := r.handled ++ [m.bytes] }
  else { r with message := some m }

/-- The loop of `ProcessReceivedData`, in at most so many rounds. -/
def processData : ℕ → List UInt8 → Receive → Option Receive
  | _, [], r => some { r with bufferOffset := 0 }
  | 0, _ :: _, _ => none
  | n + 1, b :: bs, r =>
    let data := b :: bs
    match r.message with
    | some m =>
      let bytesToCopy := min data.length (m.size - m.writeOffset)
      match m.write (data.take bytesToCopy) with
      | none => none
      | some m => processData n (data.drop bytesToCopy) (r.received m)
    | none =>
      if 4 ≤ data.length then
        match PartialMessage.write ⟨leNat (data.take 4), []⟩ (data.take 4) with
        | none => none
        | some m => processData n (data.drop 4) { r with message := some m }
      else (r.writeBuffer 0 data).map fun r => { r with bufferOffset := data.length }

/-- `ProcessReceivedData`: the bytes were received at the offset in the buffer. -/
def processReceivedData (r : Receive) (bytes : List UInt8) : Option Receive :=
  match r.writeBuffer r.bufferOffset bytes with
  | none => none
  | some r =>
    let data := r.buffer.take (r.bufferOffset + bytes.length)
    processData data.length data r

end Receive

/-- What the socket is after bytes were received in portions, none of them longer than the free
part of the buffer. -/
inductive Receives (r₀ : Receive) : List (List UInt8) → Receive → Prop
  | nil : Receives r₀ [] r₀
  | snoc {r r' : Receive} {portions : List (List UInt8)} {bytes : List UInt8}
    (hrun : Receives r₀ portions r) (hne : bytes ≠ []) (hlen : bytes.length ≤ r.bufferLength)
    (hstep : r.processReceivedData bytes = some r') : Receives r₀ (portions ++ [bytes]) r'

/-! ### The message in progress -/

/-- The message in progress is the beginning of the first of these messages. -/
inductive Expects : Option PartialMessage → List (List UInt8) → Prop
  | none {ms : List (List UInt8)} : Expects none ms
  | some {m rest : List UInt8} {ms : List (List UInt8)} (hrest : rest ≠ []) :
    Expects (some ⟨(m ++ rest).length, m⟩) ((m ++ rest) :: ms)

/-- The bytes of the message in progress. -/
def begun (m : Option PartialMessage) : List UInt8 := (m.map PartialMessage.bytes).getD []

namespace Receive

variable {r r' : Receive} {data bytes stream : List UInt8} {ms : List (List UInt8)} {n : ℕ}

/-- The bytes that were received and belong to no message that was handled. -/
def pending (r : Receive) : List UInt8 := begun r.message ++ r.buffer.take r.bufferOffset

theorem writeBuffer_eq_some {offset : ℕ} (h : offset + bytes.length ≤ r.buffer.length) :
    ∃ buffer, r.writeBuffer offset bytes = some { r with buffer := buffer } ∧
      buffer.length = r.buffer.length ∧
      buffer.take (offset + bytes.length) = r.buffer.take offset ++ bytes := by
  obtain ⟨buffer, hbuffer, htake⟩ := exists_writeBytes h
  exact ⟨buffer, by rw [writeBuffer, hbuffer]; rfl, length_of_writeBytes hbuffer, htake⟩

/-- What a round or several rounds of the loop did: messages were handled, and what is left is
the beginning of the next one. -/
structure Processed (r : Receive) (data : List UInt8) (ms : List (List UInt8)) (r' : Receive) :
    Prop where
  handled : ∃ done rest, ms = done ++ rest ∧ r'.handled = r.handled ++ done ∧
    Expects r'.message rest ∧ begun r.message ++ data = done.flatten ++ r'.pending
  length_buffer : r'.buffer.length = r.buffer.length
  bufferOffset : r'.bufferOffset < 4
  bufferOffset_eq : r'.message.isSome = true → r'.bufferOffset = 0

/-- One round after another. -/
theorem Processed.head {r₁ : Receive} {done ms' : List (List UInt8)} {data' : List UInt8}
    (h : Processed r₁ data' ms' r') (hms : ms = done ++ ms')
    (hhandled : r₁.handled = r.handled ++ done)
    (hbytes : begun r.message ++ data = done.flatten ++ (begun r₁.message ++ data'))
    (hbuffer : r₁.buffer = r.buffer) : Processed r data ms r' := by
  obtain ⟨done', rest, rfl, h2, h3, h4⟩ := h.handled
  refine ⟨⟨done ++ done', rest, ?_, ?_, h3, ?_⟩, ?_, h.bufferOffset, h.bufferOffset_eq⟩
  · rw [hms, List.append_assoc]
  · rw [h2, hhandled, List.append_assoc]
  · rw [hbytes, h4, List.flatten_append, List.append_assoc]
  · rw [h.length_buffer, hbuffer]

theorem received_of_eq {m : PartialMessage} (h : m.writeOffset = m.size) :
    r.received m = { r with message := none, handled := r.handled ++ [m.bytes] } :=
  if_pos h

theorem received_of_ne {m : PartialMessage} (h : m.writeOffset ≠ m.size) :
    r.received m = { r with message := some m } :=
  if_neg h

@[simp]
theorem processData_nil : processData n [] r = some { r with bufferOffset := 0 } := by
  cases n <;> rfl

/-- All bytes were looked at, and no message was completed. -/
theorem Processed.nothing (hexpects : Expects r.message ms) :
    Processed r [] ms { r with bufferOffset := 0 } where
  handled := ⟨[], ms, rfl, (List.append_nil _).symm, hexpects, rfl⟩
  length_buffer := rfl
  bufferOffset := Nat.zero_lt_succ _
  bufferOffset_eq _ := rfl

/-- A round that goes on with the message in progress. -/
theorem processData_some {m rest : List UInt8} (hmessage : r.message = some ⟨(m ++ rest).length, m⟩)
    (hdata : data ≠ []) : processData (n + 1) data r =
      processData n (data.drop rest.length)
        (r.received ⟨(m ++ rest).length, m ++ data.take rest.length⟩) := by
  obtain ⟨b, bs, rfl⟩ := List.exists_cons_of_ne_nil hdata
  have hsub : (m ++ rest).length - (PartialMessage.mk (m ++ rest).length m).writeOffset =
      rest.length := by
    simp [PartialMessage.writeOffset]
  rw [processData, hmessage]
  dsimp only
  rw [hsub]
  have htake : (b :: bs).take (min (b :: bs).length rest.length) = (b :: bs).take rest.length := by
    rw [Nat.min_comm, ← List.take_take, List.take_length]
  have hdrop : (b :: bs).drop (min (b :: bs).length rest.length) = (b :: bs).drop rest.length := by
    rcases le_total (b :: bs).length rest.length with h | h
    · rw [min_eq_left h, List.drop_length, List.drop_eq_nil_of_le h]
    · rw [min_eq_right h]
  rw [htake, hdrop, PartialMessage.write, if_pos]
  simp only [PartialMessage.writeOffset, List.length_append, List.length_take]
  omega

/-- A round that begins a message. -/
theorem processData_none {m : List UInt8} (hmessage : r.message = none) (hdata : 4 ≤ data.length)
    (hm : IsMessage m) (htake : data.take 4 = m.take 4) : processData (n + 1) data r =
      processData n (data.drop 4) { r with message := some ⟨m.length, m.take 4⟩ } := by
  have hpos : 0 < data.length := by omega
  obtain ⟨b, bs, rfl⟩ := List.exists_cons_of_ne_nil (List.ne_nil_of_length_pos hpos)
  rw [processData, hmessage]
  dsimp only
  have h8 : 8 ≤ m.length := hm.1
  rw [if_pos hdata, htake, hm.2, PartialMessage.write, if_pos]
  · rfl
  · simp only [PartialMessage.writeOffset, List.length_nil, List.length_take]
    omega

/-- A round whose bytes end before the message in progress does. -/
theorem processed_of_lt {m rest : List UInt8}
    (hmessage : r.message = some ⟨(m ++ rest).length, m⟩) (hdata : data ≠ [])
    (hlt : data.length < rest.length) (hpre : data <+: rest ++ ms.flatten) :
    ∃ r', processData (n + 1) data r = some r' ∧ Processed r data ((m ++ rest) :: ms) r' := by
  obtain ⟨rest', rfl⟩ := List.prefix_of_prefix_length_le hpre
    (List.prefix_append rest ms.flatten) hlt.le
  have hrest' : rest' ≠ [] := by
    rintro rfl
    simp at hlt
  rw [processData_some hmessage hdata, List.take_of_length_le hlt.le,
    List.drop_eq_nil_of_le hlt.le, received_of_ne (by simp [PartialMessage.writeOffset, hrest'])]
  have hnext : Expects (some ⟨(m ++ (data ++ rest')).length, m ++ data⟩)
      ((m ++ (data ++ rest')) :: ms) := by
    rw [← List.append_assoc]
    exact .some hrest'
  refine ⟨_, processData_nil, ⟨[], _, rfl, (List.append_nil _).symm, hnext, ?_⟩, rfl,
    Nat.zero_lt_succ _, fun _ => rfl⟩
  rw [hmessage]
  exact (List.append_nil _).symm

/-- A round whose bytes end before the size of the next message does: they stay in the buffer. -/
theorem processed_of_no_size (hmessage : r.message = none)
    (hbuffer : r.buffer.length = bufferSize) (hdata : data ≠ []) (hsize : data.length < 4) :
    ∃ r', processData (n + 1) data r = some r' ∧ Processed r data ms r' := by
  have hfits : 0 + data.length ≤ r.buffer.length := by
    rw [hbuffer, bufferSize]
    omega
  obtain ⟨buffer, h1, h2, h3⟩ := writeBuffer_eq_some hfits
  obtain ⟨b, bs, rfl⟩ := List.exists_cons_of_ne_nil hdata
  rw [processData, hmessage]
  dsimp only
  rw [if_neg hsize.not_ge, h1]
  refine ⟨_, rfl, ⟨[], ms, rfl, (List.append_nil _).symm, ?_, ?_⟩, h2, by dsimp only; omega, ?_⟩
  · rw [hmessage]
    exact .none
  · rw [Nat.zero_add] at h3
    change _ = begun r.message ++ buffer.take (b :: bs).length
    rw [hmessage, h3]
    rfl
  · intro hsome
    rw [hmessage] at hsome
    cases hsome

/-- A message whose size was read is the next one to complete. -/
theorem expects_begun {m : List UInt8} (hm : IsMessage m) :
    Expects (some ⟨m.length, m.take 4⟩) (m :: ms) := by
  have h8 : 8 ≤ m.length := hm.1
  have hdrop : m.drop 4 ≠ [] := List.ne_nil_of_length_pos (by rw [List.length_drop]; omega)
  have hsome : Expects (some ⟨(m.take 4 ++ m.drop 4).length, m.take 4⟩)
      ((m.take 4 ++ m.drop 4) :: ms) := .some hdrop
  rwa [List.take_append_drop] at hsome

/-- The loop handles the messages that are complete, and ends. -/
theorem processData_spec (hms : ∀ m ∈ ms, IsMessage m) (hexpects : Expects r.message ms)
    (hbuffer : r.buffer.length = bufferSize) (hn : data.length ≤ n)
    (hpre : begun r.message ++ data <+: ms.flatten) :
    ∃ r', processData n data r = some r' ∧ Processed r data ms r' := by
  induction n generalizing data r ms with
  | zero =>
    obtain rfl := List.length_eq_zero_iff.mp (Nat.le_zero.mp hn)
    exact ⟨_, processData_nil, .nothing hexpects⟩
  | succ n ih =>
    by_cases hdata : data = []
    · subst hdata
      exact ⟨_, processData_nil, .nothing hexpects⟩
    have hpos : 0 < data.length := List.length_pos_of_ne_nil hdata
    generalize hmessage : r.message = message at hexpects hpre
    cases hexpects with
    | @some m rest ms hrest =>
      have hrestpos : 0 < rest.length := List.length_pos_of_ne_nil hrest
      change m ++ data <+: (m ++ rest) ++ ms.flatten at hpre
      rw [List.append_assoc, List.prefix_append_right_inj] at hpre
      by_cases hall : rest.length ≤ data.length
      · -- the message is complete
        obtain ⟨data', rfl⟩ := List.prefix_of_prefix_length_le (List.prefix_append rest ms.flatten)
          hpre hall
        rw [List.prefix_append_right_inj] at hpre
        rw [processData_some hmessage hdata, List.take_left, List.drop_left, received_of_eq rfl]
        obtain ⟨r', h1, h2⟩ := ih (r := { r with
            message := none, handled := r.handled ++ [m ++ rest] })
          (fun m' hm' => hms m' (List.mem_cons_of_mem _ hm')) .none hbuffer
          (by rw [List.length_append] at hn; omega) hpre
        refine ⟨r', h1, h2.head rfl rfl ?_ rfl⟩
        rw [hmessage, List.flatten_singleton, List.append_assoc]
        rfl
      · exact processed_of_lt hmessage hdata (not_le.mp hall) hpre
    | none =>
      change data <+: ms.flatten at hpre
      by_cases hsize : 4 ≤ data.length
      · cases ms with
        | nil => exact absurd (List.prefix_nil.mp hpre) hdata
        | cons m ms =>
          have hm := hms m List.mem_cons_self
          have h8 : 8 ≤ m.length := hm.1
          have htake : data.take 4 = m.take 4 := by
            obtain ⟨t, ht⟩ := hpre
            have h4 := congrArg (List.take 4) ht
            rwa [List.take_append_of_le_length hsize, List.flatten_cons,
              List.take_append_of_le_length (by omega)] at h4
          rw [processData_none hmessage hsize hm htake]
          have hdata' : m.take 4 ++ data.drop 4 = data := by
            rw [← htake, List.take_append_drop]
          have hdrop : (data.drop 4).length ≤ n := by
            rw [List.length_drop]
            omega
          obtain ⟨r', h1, h2⟩ := ih (r := { r with message := some ⟨m.length, m.take 4⟩ })
            hms (expects_begun hm) hbuffer hdrop (by
              change m.take 4 ++ data.drop 4 <+: _
              rwa [hdata'])
          refine ⟨r', h1, h2.head rfl (List.append_nil _).symm ?_ rfl⟩
          rw [hmessage]
          exact hdata'.symm
      · exact processed_of_no_size hmessage hbuffer hdata (not_le.mp hsize)

/-! ### Portion after portion -/

/-- What was received is what was handled and what is pending, which is the beginning of the
messages that are yet to come. -/
structure Delivers (ms : List (List UInt8)) (stream : List UInt8) (r : Receive) : Prop where
  expects : ∃ rest, ms = r.handled ++ rest ∧ Expects r.message rest
  stream_eq : stream = r.handled.flatten ++ r.pending
  length_buffer : r.buffer.length = bufferSize
  bufferOffset : r.bufferOffset < 4
  bufferOffset_eq : r.message.isSome = true → r.bufferOffset = 0

theorem Delivers.initial {buffer : List UInt8} (h : buffer.length = bufferSize) :
    Delivers ms [] (Receive.initial buffer) where
  expects := ⟨ms, rfl, .none⟩
  stream_eq := rfl
  length_buffer := h
  bufferOffset := Nat.zero_lt_succ _
  bufferOffset_eq _ := rfl

/-- A portion is taken up, whatever was received before it. -/
theorem Delivers.processReceivedData (h : Delivers ms stream r) (hms : ∀ m ∈ ms, IsMessage m)
    (hlen : bytes.length ≤ r.bufferLength) (hpre : stream ++ bytes <+: ms.flatten) :
    ∃ r', r.processReceivedData bytes = some r' ∧ Delivers ms (stream ++ bytes) r' := by
  obtain ⟨rest, hrest, hexpects⟩ := h.expects
  have hoffset := h.bufferOffset
  have hfits : r.bufferOffset + bytes.length ≤ r.buffer.length := by
    rw [h.length_buffer]
    rw [bufferLength, bufferSize] at hlen
    rw [bufferSize]
    omega
  obtain ⟨buffer, hwrite, hlength, htake⟩ := writeBuffer_eq_some hfits
  -- the bytes that were kept in the buffer and the new ones are looked at together
  have hpending : r.pending ++ bytes = begun r.message ++ (r.buffer.take r.bufferOffset ++ bytes) :=
    List.append_assoc _ _ _
  have hpre' : r.pending ++ bytes <+: rest.flatten := by
    have hms' : ms.flatten = r.handled.flatten ++ rest.flatten := by
      rw [hrest, List.flatten_append]
    rwa [h.stream_eq, List.append_assoc, hms', List.prefix_append_right_inj] at hpre
  rw [hpending] at hpre'
  obtain ⟨r', hrun, hspec⟩ := processData_spec (r := { r with buffer := buffer })
    (fun m hm => hms m (hrest ▸ List.mem_append_right _ hm)) hexpects
    (hlength.trans h.length_buffer) le_rfl hpre'
  refine ⟨r', ?_, ?_⟩
  · rw [Receive.processReceivedData, hwrite]
    dsimp only
    rw [htake]
    exact hrun
  · obtain ⟨done, rest', rfl, hhandled, hexpects', hbytes⟩ := hspec.handled
    refine ⟨⟨rest', ?_, hexpects'⟩, ?_, ?_, hspec.bufferOffset, hspec.bufferOffset_eq⟩
    · rw [hhandled, List.append_assoc, hrest]
    · rw [h.stream_eq, hhandled, List.flatten_append, List.append_assoc, List.append_assoc, hpending]
      exact congrArg _ hbytes
    · rw [hspec.length_buffer, hlength, h.length_buffer]

/-- No message is left in what is pending. -/
theorem Delivers.length_pending (h : Delivers ms stream r) {m : List UInt8}
    {rest : List (List UInt8)} (hrest : ms = r.handled ++ m :: rest) (hm : IsMessage m) :
    r.pending.length < m.length := by
  obtain ⟨rest', hrest', hexpects⟩ := h.expects
  obtain rfl : rest' = m :: rest := List.append_cancel_left (hrest'.symm.trans hrest)
  have hoffset := h.bufferOffset
  have h8 : 8 ≤ m.length := hm.1
  rw [pending, List.length_append, List.length_take]
  generalize hmessage : r.message = message at hexpects
  cases hexpects with
  | none =>
    show 0 + _ < _
    omega
  | @some m' rest'' _ hne =>
    have h0 := h.bufferOffset_eq (by rw [hmessage]; rfl)
    have hpos : 0 < rest''.length := List.length_pos_of_ne_nil hne
    show m'.length + _ < (m' ++ rest'').length
    rw [List.length_append]
    omega

/-- The messages that were received whole were handled. -/
theorem Delivers.prefix_handled (h : Delivers ms stream r) (hms : ∀ m ∈ ms, IsMessage m)
    {ms' : List (List UInt8)} (hms' : ms' <+: ms) (hstream : ms'.flatten <+: stream) :
    ms' <+: r.handled := by
  obtain ⟨rest, hrest, -⟩ := h.expects
  have hhandled : r.handled <+: ms := ⟨rest, hrest.symm⟩
  rcases List.prefix_or_prefix_of_prefix hms' hhandled with hle | ⟨more, rfl⟩
  · exact hle
  · cases more with
    | nil => exact (List.append_nil _).symm ▸ List.prefix_rfl
    | cons m more =>
      -- the next message would be pending
      obtain ⟨rest', hrest'⟩ := hms'
      have hsplit : ms = r.handled ++ m :: (more ++ rest') := by
        rw [← hrest', List.append_assoc, List.cons_append]
      have hlt := h.length_pending hsplit (hms m (by rw [hsplit]; simp))
      rw [h.stream_eq, List.flatten_append, List.prefix_append_right_inj, List.flatten_cons]
        at hstream
      have hle := hstream.length_le
      rw [List.length_append] at hle
      omega

end Receive

/-- The portions received so far are a beginning of the messages. -/
theorem Receives.delivers {ms portions : List (List UInt8)} {buffer : List UInt8} {r : Receive}
    (h : Receives (Receive.initial buffer) portions r) (hbuffer : buffer.length = bufferSize)
    (hms : ∀ m ∈ ms, IsMessage m) (hpre : portions.flatten <+: ms.flatten) :
    r.Delivers ms portions.flatten := by
  induction h with
  | nil => exact .initial hbuffer
  | @snoc r r' portions bytes _ _ hlen hstep ih =>
    rw [List.flatten_append, List.flatten_singleton] at hpre ⊢
    obtain ⟨r'', h1, h2⟩ :=
      (ih ((List.prefix_append _ _).trans hpre)).processReceivedData hms hlen hpre
    obtain rfl : r'' = r' := Option.some_inj.mp (h1.symm.trans hstep)
    exact h2

/-- However the stream of the messages is cut into portions: the messages that were received whole
were handled, as they were sent and in this order, and nothing else was; all of them were once the
whole stream was received. The next portion is taken up without a write outside the buffer or the
message. -/
theorem Receives.reassembles {ms portions : List (List UInt8)} {buffer : List UInt8} {r : Receive}
    (h : Receives (Receive.initial buffer) portions r) (hbuffer : buffer.length = bufferSize)
    (hms : ∀ m ∈ ms, IsMessage m) (hpre : portions.flatten <+: ms.flatten) :
    (r.handled <+: ms ∧ ∀ ms', ms' <+: ms → (ms' <+: r.handled ↔ ms'.flatten <+: portions.flatten)) ∧
      (portions.flatten = ms.flatten → r.handled = ms) ∧
      0 < r.bufferLength ∧
      ∀ bytes : List UInt8, bytes ≠ [] → bytes.length ≤ r.bufferLength →
        portions.flatten ++ bytes <+: ms.flatten →
        ∃ r', r.processReceivedData bytes = some r' ∧
          Receives (Receive.initial buffer) (portions ++ [bytes]) r' := by
  have hdelivers := h.delivers hbuffer hms hpre
  obtain ⟨rest, hrest, -⟩ := hdelivers.expects
  have hhandled : r.handled <+: ms := ⟨rest, hrest.symm⟩
  refine ⟨⟨hhandled, fun ms' hms' => ⟨?_, hdelivers.prefix_handled hms hms'⟩⟩, ?_, ?_, ?_⟩
  · rintro ⟨t, ht⟩
    rw [hdelivers.stream_eq, ← ht, List.flatten_append, List.append_assoc]
    exact List.prefix_append _ _
  · intro hall
    have hle := hdelivers.prefix_handled hms List.prefix_rfl (hall ▸ List.prefix_rfl)
    exact hhandled.eq_of_length_le hle.length_le
  · have hoffset := hdelivers.bufferOffset
    rw [Receive.bufferLength, bufferSize]
    omega
  · intro bytes hne hlen hnext
    obtain ⟨r', h1, -⟩ := hdelivers.processReceivedData hms hlen hnext
    exact ⟨r', h1, h.snoc hne hlen h1⟩

/-- Receives one portion after another. -/
def Receive.processPortions (r : Receive) : List (List UInt8) → Option Receive
  | [] => some r
  | bytes :: portions =>
    if bytes ≠ [] ∧ bytes.length ≤ r.bufferLength then
      (r.processReceivedData bytes).bind fun r => r.processPortions portions
    else none

theorem Receives.of_processPortions {r₀ r r' : Receive} {before portions : List (List UInt8)}
    (hr : Receives r₀ before r) (h : r.processPortions portions = some r') :
    Receives r₀ (before ++ portions) r' := by
  induction portions generalizing before r with
  | nil =>
    obtain rfl := Option.some_inj.mp h
    rwa [List.append_nil]
  | cons bytes portions ih =>
    rw [Receive.processPortions] at h
    split_ifs at h with hportion
    obtain ⟨r₁, h1, h2⟩ := Option.bind_eq_some_iff.mp h
    rw [List.append_cons]
    exact ih (hr.snoc hportion.1 hportion.2 h1) h2

/-- Two messages, cut within the size of each of them. -/
theorem Receives.reassembles_cut :
    ∃ r, Receives (Receive.initial (List.replicate 1024 0))
        [[8, 0, 0], [0, 1, 7, 0], [0, 9, 0, 0], [0, 2, 7], [0, 0, 42]] r ∧
      r.handled = [[8, 0, 0, 0, 1, 7, 0, 0], [9, 0, 0, 0, 2, 7, 0, 0, 42]] := by
  have hsome : ((Receive.initial (List.replicate 1024 0)).processPortions
      [[8, 0, 0], [0, 1, 7, 0], [0, 9, 0, 0], [0, 2, 7], [0, 0, 42]]).isSome = true := by
    decide +kernel
  obtain ⟨r, hr⟩ := Option.isSome_iff_exists.mp hsome
  have hrun := Receives.nil.of_processPortions hr
  have h := @Receives.reassembles [[8, 0, 0, 0, 1, 7, 0, 0], [9, 0, 0, 0, 2, 7, 0, 0, 42]] _ _ _
    hrun List.length_replicate (by decide +kernel) (by decide +kernel)
  exact ⟨r, hrun, h.2.1 (by decide +kernel)⟩

end DuplexMessageSocket

end BlobsDb
