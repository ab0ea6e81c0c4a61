import BlobsDb.ClientLib.Transaction
import BlobsDb.Network.Messages

/-!
# The messages of a commit

A commit is sent as messages, each with as many writes of one database as fit into it. The first
write always fits, since the size of blobs is limited, so that the loop over the writes ends. A
reader that goes through the messages finds the writes as they were listed
(`Transaction.sendCommitMessages_decode`).
-/

namespace BlobsDb

namespace ClientLib

open TransactionCommit (Sendable record writeBlobs encode decode setHasFollowMessage)

variable {u : BlobData} {us message : List BlobData} {raw : ℕ → UInt8} {databaseId : DatabaseId}
  {total n : ℕ}

namespace DatabaseState

/-- The writes that still fit into a message, and those that are left. -/
def takeWrites (totalBlobSize nBlobs : ℕ) : List BlobData → List BlobData × List BlobData
  | [] => ([], [])
  | u :: us =>
    if isValidMessageSize (totalBlobSize + dataSize u) (nBlobs + 1) then
      let (message, rest) := takeWrites (totalBlobSize + dataSize u) (nBlobs + 1) us
      (u :: message, rest)
    else ([], u :: us)

/-- The loop of `ConstructCommitMessages`, in at most so many rounds. The source asserts that a
message has at least one write. -/
def sendWrites (raw : ℕ → UInt8) (databaseId : DatabaseId) :
    ℕ → List BlobData → Option (List (List UInt8))
  | _, [] => some []
  | 0, _ :: _ => none
  | n + 1, u :: us =>
    match takeWrites 0 0 (u :: us) with
    | ([], _) => none
    | (message, rest) =>
      (writeBlobs (TransactionCommit.create raw databaseId (message.map dataSize).sum message.length)
        message).bind fun b => (sendWrites raw databaseId n rest).map fun bs => b :: bs

/-- `ConstructCommitMessages` of a database, as bytes. -/
def sendCommitMessages (state : DatabaseState) (raw : ℕ → UInt8) (databaseId : DatabaseId) :
    Option (List (List UInt8)) :=
  sendWrites raw databaseId state.getSortedWritesToTransmit.length state.getSortedWritesToTransmit

end DatabaseState

/-- The messages of all databases. -/
def sendDatabases (raw : ℕ → UInt8) : List (DatabaseId × DatabaseState) → Option (List (List UInt8))
  | [] => some []
  | e :: es =>
    (e.2.sendCommitMessages raw e.1).bind fun bs => (sendDatabases raw es).map fun bs' => bs ++ bs'

/-- Sets `hasFollowMessage` in all but the last message. -/
def sendFollowMessages : List (List UInt8) → Option (List (List UInt8))
  | [] => some []
  | b :: bs =>
    (setHasFollowMessage b !bs.isEmpty).bind fun b =>
      (sendFollowMessages bs).map fun bs => b :: bs

/-- `Transaction::State::ConstructCommitMessages`, as bytes. -/
def Transaction.sendCommitMessages (transaction : Transaction) (raw : ℕ → UInt8)
    (openedDatabases : List DatabaseId) : Option (List (List UInt8)) :=
  (sendDatabases raw transaction.forDatabase.entries).bind fun bs =>
    if bs.isEmpty then openedDatabases.head?.map fun databaseId =>
      [TransactionCommit.create raw databaseId 0 0]
    else sendFollowMessages bs

namespace DatabaseState

/-! ### Splitting the writes -/

theorem isValidMessageSize_iff :
    isValidMessageSize total n = true ↔ n ≤ 0xffff ∧ 12 + n * 16 + total ≤ 0xffffffff := by
  rw [isValidMessageSize, Bool.and_eq_true, decide_eq_true_iff, decide_eq_true_iff]

theorem dataSize_le (hu : Sendable u) : dataSize u ≤ maxBlobSize := by
  rw [dataSize]
  cases hdata : u.data with
  | none => exact Nat.zero_le _
  | some data => exact hu data hdata

/-- Each write fits into a message of its own. -/
theorem isValidMessageSize_single (hu : Sendable u) :
    isValidMessageSize (0 + dataSize u) (0 + 1) = true := by
  have hle := dataSize_le hu
  rw [maxBlobSize] at hle
  rw [isValidMessageSize_iff]
  omega

theorem takeWrites_append (total n : ℕ) (us : List BlobData) :
    (takeWrites total n us).1 ++ (takeWrites total n us).2 = us := by
  induction us generalizing total n with
  | nil => rfl
  | cons u us ih =>
    rw [takeWrites]
    split_ifs
    · exact congrArg (u :: ·) (ih _ _)
    · rfl

/-- What was taken fits into the message. -/
theorem isValidMessageSize_takeWrites (hvalid : isValidMessageSize total n = true)
    (us : List BlobData) :
    isValidMessageSize (total + ((takeWrites total n us).1.map dataSize).sum)
      (n + (takeWrites total n us).1.length) = true := by
  induction us generalizing total n with
  | nil => exact hvalid
  | cons u us ih =>
    rw [takeWrites]
    split_ifs with hfits
    · have h := ih hfits
      rw [Nat.add_assoc, Nat.add_assoc, Nat.add_comm 1] at h
      exact h
    · exact hvalid

/-- A message that was begun takes the writes that still fit. -/
theorem splitWrites_eq (hne : message ≠ []) (us : List BlobData) :
    splitWrites message us =
      (message ++ (takeWrites (message.map dataSize).sum message.length us).1) ::
        splitWrites [] (takeWrites (message.map dataSize).sum message.length us).2 := by
  have hempty : message.isEmpty = false := by
    cases message with
    | nil => exact absurd rfl hne
    | cons _ _ => rfl
  induction us generalizing message with
  | nil => simp [splitWrites, takeWrites, hempty]
  | cons u us ih =>
    rw [splitWrites, takeWrites, hempty, Bool.false_or]
    split_ifs with hfits
    · have h := @ih (message ++ [u]) (by simp) (by simp)
      rw [List.map_append, List.sum_append, List.length_append] at h
      simpa using h
    · simp [splitWrites]

/-- A message takes the first write, and the next one begins with what is left. -/
theorem exists_splitWrites_cons (hu : Sendable u) (us : List BlobData) :
    ∃ message rest, takeWrites 0 0 (u :: us) = (message, rest) ∧ message ≠ [] ∧
      splitWrites [] (u :: us) = message :: splitWrites [] rest ∧ message ++ rest = u :: us ∧
      isValidMessageSize (message.map dataSize).sum message.length = true := by
  have hvalid := isValidMessageSize_single hu
  have htake : takeWrites 0 0 (u :: us) = (u :: (takeWrites (0 + dataSize u) (0 + 1) us).1,
      (takeWrites (0 + dataSize u) (0 + 1) us).2) := by
    rw [takeWrites, if_pos hvalid]
  refine ⟨_, _, htake, List.cons_ne_nil _ _, ?_, ?_, ?_⟩
  · rw [show splitWrites [] (u :: us) = splitWrites [u] us from rfl,
      splitWrites_eq (List.cons_ne_nil u [])]
    simp
  · rw [List.cons_append, takeWrites_append]
  · have h := isValidMessageSize_takeWrites hvalid us
    simp only [Nat.zero_add] at h ⊢
    rwa [List.map_cons, List.sum_cons, List.length_cons, Nat.add_comm _ 1]

theorem flatten_splitWrites (message us : List BlobData) :
    (splitWrites message us).flatten = message ++ us := by
  induction us generalizing message with
  | nil =>
    rw [splitWrites, List.append_nil]
    cases message <;> simp
  | cons u us ih =>
    rw [splitWrites]
    split_ifs
    · rw [ih, List.append_assoc, List.singleton_append]
    · rw [List.flatten_cons, ih, List.singleton_append]

/-- Every message has a valid size. -/
theorem isValidMessageSize_splitWrites (hus : ∀ u ∈ us, Sendable u)
    (hvalid : isValidMessageSize (message.map dataSize).sum message.length = true) :
    ∀ m ∈ splitWrites message us, isValidMessageSize (m.map dataSize).sum m.length = true := by
  induction us generalizing message with
  | nil =>
    intro m hm
    rw [splitWrites] at hm
    split_ifs at hm
    · cases hm
    · rwa [List.mem_singleton.mp hm]
  | cons u us ih =>
    have hus' : ∀ v ∈ us, Sendable v := fun v hv => hus v (List.mem_cons_of_mem _ hv)
    have hsingle : isValidMessageSize (([u] : List BlobData).map dataSize).sum [u].length = true := by
      have h := isValidMessageSize_single (hus u List.mem_cons_self)
      simpa using h
    intro m hm
    rw [splitWrites] at hm
    split_ifs at hm with hnext
    · refine ih hus' ?_ m hm
      rcases Bool.or_eq_true_iff.mp hnext with hempty | hfits
      · rw [List.isEmpty_iff.mp hempty]
        exact hsingle
      · rwa [List.map_append, List.sum_append, List.length_append, List.map_singleton,
          List.sum_singleton]
    · rcases List.mem_cons.mp hm with rfl | hm
      · exact hvalid
      · exact ih hus' hsingle m hm

theorem length_data (us : List BlobData) :
    ((us.map record).flatMap Prod.snd).length = (us.map dataSize).sum := by
  rw [List.length_flatMap, List.map_map]
  rfl

/-- The messages are sent as they are listed. -/
theorem sendWrites_eq (hus : ∀ u ∈ us, Sendable u) (hn : us.length ≤ n) :
    sendWrites raw databaseId n us =
      some ((splitWrites [] us).map fun message => encode raw ⟨false, databaseId, message⟩) := by
  induction n generalizing us with
  | zero =>
    obtain rfl := List.length_eq_zero_iff.mp (Nat.le_zero.mp hn)
    rfl
  | succ n ih =>
    cases us with
    | nil => rfl
    | cons u us =>
      obtain ⟨message, rest, htake, hne, hsplit, happend, hvalid⟩ :=
        exists_splitWrites_cons (hus u List.mem_cons_self) us
      have hmem : ∀ v, v ∈ message ∨ v ∈ rest → Sendable v := fun v hv =>
        hus v (happend ▸ List.mem_append.mpr hv)
      obtain ⟨hcount, hsize⟩ := isValidMessageSize_iff.mp hvalid
      have hwrite := TransactionCommit.writeBlobs_create raw databaseId
        (fun v hv => hmem v (.inl hv)) hcount (by rwa [length_data])
      rw [length_data] at hwrite
      have hlen : rest.length ≤ n := by
        have h := congrArg List.length happend
        have hpos := List.length_pos_of_ne_nil hne
        rw [List.length_append, List.length_cons] at h
        rw [List.length_cons] at hn
        omega
      obtain ⟨v, vs, rfl⟩ := List.exists_cons_of_ne_nil hne
      rw [sendWrites, htake]
      dsimp only
      rw [hwrite, Option.bind_some, ih (fun v hv => hmem v (.inr hv)) hlen, hsplit]
      rfl

/-- The writes that can be sent: what was written has a size that a blob can have. -/
theorem sendable_getSortedWritesToTransmit {state : DatabaseState}
    (h : ∀ l data, state.writtenBlobs.find l = some data → data.length ≤ maxBlobSize) :
    ∀ u ∈ state.getSortedWritesToTransmit, Sendable u := by
  intro u hu
  simp only [getSortedWritesToTransmit, List.mem_append, List.mem_insertionSort, List.mem_map]
    at hu
  rcases hu with ((⟨e, he, rfl⟩ | ⟨l, -, rfl⟩) | ⟨k, -, rfl⟩) | ⟨k, -, rfl⟩
  · rintro data ⟨⟩
    exact h e.1 e.2 (FlatMap.find_eq_some_iff.mpr he)
  · rintro data ⟨⟩
  · rintro data ⟨⟩
    exact Nat.zero_le _
  · rintro data ⟨⟩
    exact Nat.zero_le _

end DatabaseState

/-! ### The messages of all databases -/

theorem sendDatabases_eq {es : List (DatabaseId × DatabaseState)}
    (hes : ∀ e ∈ es, ∀ u ∈ e.2.getSortedWritesToTransmit, Sendable u) :
    sendDatabases raw es =
      some ((es.flatMap fun e => e.2.constructCommitMessages e.1).map (encode raw)) := by
  induction es with
  | nil => rfl
  | cons e es ih =>
    rw [sendDatabases, DatabaseState.sendCommitMessages,
      DatabaseState.sendWrites_eq (hes e List.mem_cons_self) le_rfl, Option.bind_some,
      ih fun e' he' => hes e' (List.mem_cons_of_mem _ he'), Option.map_some, List.flatMap_cons,
      List.map_append, DatabaseState.constructCommitMessages, List.map_map]
    rfl

theorem sendFollowMessages_eq (cs : List TransactionCommit) :
    sendFollowMessages (cs.map (encode raw)) = some ((setFollowMessages cs).map (encode raw)) := by
  induction cs with
  | nil => rfl
  | cons c cs ih =>
    have hempty : (cs.map (encode raw)).isEmpty = cs.isEmpty := by
      cases cs <;> rfl
    rw [List.map_cons, sendFollowMessages, hempty,
      TransactionCommit.setHasFollowMessage_encode, Option.bind_some, ih]
    rfl

/-- The messages are sent as they are listed. -/
theorem Transaction.sendCommitMessages_eq (raw : ℕ → UInt8) (openedDatabases : List DatabaseId)
    {transaction : Transaction}
    (h : ∀ e ∈ transaction.forDatabase.entries, ∀ u ∈ e.2.getSortedWritesToTransmit, Sendable u) :
    transaction.sendCommitMessages raw openedDatabases =
      (transaction.constructCommitMessages openedDatabases).map (List.map (encode raw)) := by
  rw [sendCommitMessages, sendDatabases_eq h, Option.bind_some, constructCommitMessages,
    List.isEmpty_map]
  split_ifs
  · rw [Option.map_map]
    rfl
  · exact sendFollowMessages_eq _

/-- The database of a message and its writes. -/
def content (c : TransactionCommit) : DatabaseId × List BlobData := (c.databaseId, c.blobs)

theorem map_content_setFollowMessages (cs : List TransactionCommit) :
    (setFollowMessages cs).map content = cs.map content := by
  induction cs with
  | nil => rfl
  | cons c cs ih => rw [setFollowMessages, List.map_cons, List.map_cons, ih, content, content]

/-- The writes that the messages have for a database. -/
def writesOf (databaseId : DatabaseId) (ms : List (DatabaseId × List BlobData)) : List BlobData :=
  (ms.filter fun m => m.1 = databaseId).flatMap Prod.snd

theorem map_content_constructCommitMessages (state : DatabaseState) (databaseId : DatabaseId) :
    (state.constructCommitMessages databaseId).map content =
      (DatabaseState.splitWrites [] state.getSortedWritesToTransmit).map fun us =>
        (databaseId, us) := by
  rw [DatabaseState.constructCommitMessages, List.map_map]
  rfl

theorem writesOf_append (databaseId : DatabaseId) (ms ms' : List (DatabaseId × List BlobData)) :
    writesOf databaseId (ms ++ ms') = writesOf databaseId ms ++ writesOf databaseId ms' := by
  rw [writesOf, List.filter_append, List.flatMap_append]
  rfl

/-- All writes of a database are in its messages. -/
theorem writesOf_map_self (databaseId : DatabaseId) (l : List (List BlobData)) :
    writesOf databaseId (l.map fun us => (databaseId, us)) = l.flatten := by
  rw [writesOf, List.filter_eq_self.mpr fun m hm => ?_, List.flatMap_map, List.flatMap_id']
  obtain ⟨us, -, rfl⟩ := List.mem_map.mp hm
  simp

theorem writesOf_eq_nil {ms : List (DatabaseId × List BlobData)} (h : ∀ m ∈ ms, m.1 ≠ databaseId) :
    writesOf databaseId ms = [] := by
  rw [writesOf, List.filter_eq_nil_iff.mpr fun m hm => by simpa using h m hm, List.flatMap_nil]

/-- What the messages of the databases contain: of each database its writes, and the messages of
one database after those of another. -/
theorem content_databases {es : List (DatabaseId × DatabaseState)}
    (hsorted : es.Pairwise fun a b => a.1 < b.1) :
    let ms := (es.flatMap fun e => e.2.constructCommitMessages e.1).map content
    (∀ m ∈ ms, ∃ e ∈ es, m.1 = e.1 ∧
        m.2 ∈ DatabaseState.splitWrites [] e.2.getSortedWritesToTransmit) ∧
      (ms.map Prod.fst).Pairwise (· ≤ ·) ∧
      ∀ e ∈ es, writesOf e.1 ms = e.2.getSortedWritesToTransmit := by
  induction es with
  | nil => exact ⟨fun _ => (nomatch ·), List.Pairwise.nil, fun _ => (nomatch ·)⟩
  | cons e es ih =>
    obtain ⟨he, hsorted⟩ := List.pairwise_cons.mp hsorted
    obtain ⟨hmem, hle, hwrites⟩ := ih hsorted
    set ms := (es.flatMap fun e => e.2.constructCommitMessages e.1).map content
    dsimp only
    rw [List.flatMap_cons, List.map_append, map_content_constructCommitMessages]
    set us := DatabaseState.splitWrites [] e.2.getSortedWritesToTransmit with hus
    refine ⟨fun m hm => ?_, ?_, fun e' he' => ?_⟩
    · rcases List.mem_append.mp hm with hm | hm
      · obtain ⟨message, hmessage, rfl⟩ := List.mem_map.mp hm
        exact ⟨e, List.mem_cons_self, rfl, hmessage⟩
      · obtain ⟨e', he', h⟩ := hmem m hm
        exact ⟨e', List.mem_cons_of_mem _ he', h⟩
    · rw [List.map_append, List.map_map]
      refine List.pairwise_append.mpr ⟨?_, hle, ?_⟩
      · exact List.pairwise_map.mpr (List.pairwise_of_forall fun _ _ => le_rfl)
      · intro a ha b hb
        obtain ⟨message, -, rfl⟩ := List.mem_map.mp ha
        obtain ⟨m, hm, rfl⟩ := List.mem_map.mp hb
        obtain ⟨e', he', h1, -⟩ := hmem m hm
        rw [h1]
        exact (he e' he').le
    · rw [writesOf_append]
      rcases List.mem_cons.mp he' with rfl | he'
      · rw [writesOf_map_self, hus, DatabaseState.flatten_splitWrites, List.nil_append,
          writesOf_eq_nil, List.append_nil]
        intro m hm
        obtain ⟨e', he', h1, -⟩ := hmem m hm
        rw [h1]
        exact (he e' he').ne'
      · rw [writesOf_eq_nil, List.nil_append, hwrites e' he']
        intro m hm
        obtain ⟨message, -, rfl⟩ := List.mem_map.mp hm
        exact (he e' he').ne

/-- A commit has the messages of its databases, or an empty one for an open database. -/
theorem Transaction.exists_constructCommitMessages (transaction : Transaction)
    {openedDatabases : List DatabaseId} (hopened : openedDatabases ≠ []) :
    ∃ cs, transaction.constructCommitMessages openedDatabases = some cs ∧
      (cs.map content = (transaction.forDatabase.entries.flatMap fun e =>
          e.2.constructCommitMessages e.1).map content ∨
        (transaction.forDatabase.entries.flatMap fun e => e.2.constructCommitMessages e.1) = [] ∧
          ∃ databaseId ∈ openedDatabases, cs = [⟨false, databaseId, []⟩]) := by
  rw [constructCommitMessages]
  split_ifs with hempty
  · obtain ⟨databaseId, ids, rfl⟩ := List.exists_cons_of_ne_nil hopened
    exact ⟨_, rfl, .inr ⟨List.isEmpty_iff.mp hempty, databaseId, List.mem_cons_self, rfl⟩⟩
  · exact ⟨_, rfl, .inl (map_content_setFollowMessages _)⟩

/-- The messages of a commit are built, each is as long as it says and no longer than a message
can be, each but the last one announces another one, and those of one database follow each other,
since the databases are in order. A reader who goes through the blobs of all messages of a database
finds its writes and deletions as they were listed. -/
theorem Transaction.sendCommitMessages_decode {transaction : Transaction}
    {openedDatabases : List DatabaseId} (raw : ℕ → UInt8)
    (hdata : ∀ databaseId state, transaction.forDatabase.find databaseId = some state →
      databaseId < 256 ∧
        ∀ l data, state.writtenBlobs.find l = some data → data.length ≤ maxBlobSize)
    (hopened : openedDatabases ≠ []) (hids : ∀ databaseId ∈ openedDatabases, databaseId < 256) :
    ∃ bs cs, transaction.sendCommitMessages raw openedDatabases = some bs ∧
      bs.map decode = cs.map some ∧ IsCommit cs ∧
      (∀ b ∈ bs, b.length < 2 ^ 32 ∧ leNat (b.take 4) = b.length) ∧
      (∀ c ∈ cs, c.blobs.length ≤ 0xffff) ∧
      (cs.map TransactionCommit.databaseId).Pairwise (· ≤ ·) ∧
      ∀ databaseId state, transaction.forDatabase.find databaseId = some state →
        writesOf databaseId (cs.map content) = state.getSortedWritesToTransmit := by
  have hfind : ∀ e ∈ transaction.forDatabase.entries,
      transaction.forDatabase.find e.1 = some e.2 := fun e he =>
    FlatMap.find_eq_some_iff.mpr he
  have hsendable : ∀ e ∈ transaction.forDatabase.entries,
      ∀ u ∈ e.2.getSortedWritesToTransmit, Sendable u := fun e he =>
    DatabaseState.sendable_getSortedWritesToTransmit (hdata e.1 e.2 (hfind e he)).2
  obtain ⟨hmem, hle, hwrites⟩ := content_databases transaction.forDatabase.sorted
  obtain ⟨cs, hcs, hcontent⟩ := transaction.exists_constructCommitMessages hopened
  have hsend := sendCommitMessages_eq raw openedDatabases hsendable
  rw [hcs, Option.map_some] at hsend
  -- what each message has
  have hmessage : ∀ c ∈ cs, (∀ u ∈ c.blobs, Sendable u) ∧ c.databaseId < 256 ∧
      DatabaseState.isValidMessageSize (c.blobs.map DatabaseState.dataSize).sum
        c.blobs.length = true := by
    intro c hc
    rcases hcontent with hcontent | ⟨-, databaseId, hid, rfl⟩
    · obtain ⟨e, he, h1, h2⟩ := hmem (content c) (hcontent ▸ List.mem_map_of_mem hc)
      refine ⟨fun u hu => hsendable e he u ?_, ?_, ?_⟩
      · have hu' := List.mem_flatten.mpr ⟨_, h2, hu⟩
        rwa [DatabaseState.flatten_splitWrites] at hu'
      · rw [show c.databaseId = e.1 from h1]
        exact (hdata e.1 e.2 (hfind e he)).1
      · exact DatabaseState.isValidMessageSize_splitWrites (hsendable e he) (by decide) _ h2
    · obtain rfl := List.mem_singleton.mp hc
      exact ⟨fun _ => (nomatch ·), hids databaseId hid,
        show DatabaseState.isValidMessageSize 0 0 = true by decide⟩
  refine ⟨_, cs, hsend, ?_, isCommit_constructCommitMessages hcs, ?_, ?_, ?_, ?_⟩
  · rw [List.map_map]
    refine List.map_congr_left fun c hc => ?_
    obtain ⟨h1, h2, h3⟩ := hmessage c hc
    exact TransactionCommit.decode_encode h1 h2 (DatabaseState.isValidMessageSize_iff.mp h3).1
  · intro b hb
    obtain ⟨c, hc, rfl⟩ := List.mem_map.mp hb
    obtain ⟨h1, h2, h3⟩ := hmessage c hc
    have hsize := (DatabaseState.isValidMessageSize_iff.mp h3).2
    rw [← DatabaseState.length_data] at hsize
    obtain ⟨hlength, htake⟩ := TransactionCommit.length_encode raw h1 (by omega)
    exact ⟨by omega, htake⟩
  · exact fun c hc => (DatabaseState.isValidMessageSize_iff.mp (hmessage c hc).2.2).1
  · rcases hcontent with hcontent | ⟨-, databaseId, -, rfl⟩
    · rwa [← hcontent, List.map_map] at hle
    · exact List.pairwise_singleton _ _
  · intro databaseId state hstate
    have h := hwrites (databaseId, state) (FlatMap.find_eq_some_iff.mp hstate)
    rcases hcontent with hcontent | ⟨hempty, databaseId', -, rfl⟩
    · rw [hcontent]
      exact h
    · rw [hempty] at h
      rw [← h]
      unfold writesOf
      by_cases heq : databaseId' = databaseId <;> simp [content, heq]

/-- A transaction that wrote a blob of a database and deleted another one, and wrote a blob of a second
database. -/
def writeAndDelete : Transaction :=
  ⟨1, (FlatMap.empty.insert 3 { DatabaseState.create none with
    writtenBlobs := FlatMap.empty.insert ⟨0, 0, 1⟩ [7]
    deletedBlobs := FlatMap.empty.insert ⟨0, 0, 2⟩ () }).insert 5 { DatabaseState.create none with
      writtenBlobs := FlatMap.empty.insert ⟨1, 0, 0⟩ [8, 9] }⟩

theorem Transaction.sendCommitMessages_decode_writeAndDelete :
    ∃ (bs : List (List UInt8)) (cs : List TransactionCommit),
      writeAndDelete.sendCommitMessages (fun _ => 0) [3, 5] = some bs ∧
      bs.map decode = cs.map some ∧ IsCommit cs ∧
      writesOf 3 (cs.map content) = [⟨⟨0, 0, 1⟩, some [7]⟩, ⟨⟨0, 0, 2⟩, none⟩] ∧
      writesOf 5 (cs.map content) = [⟨⟨1, 0, 0⟩, some [8, 9]⟩] := by
  have hdata : ∀ databaseId state, writeAndDelete.forDatabase.find databaseId = some state →
      databaseId < 256 ∧
        ∀ l data, state.writtenBlobs.find l = some data → data.length ≤ maxBlobSize := by
    intro databaseId state hstate
    rw [writeAndDelete, FlatMap.find_insert] at hstate
    split_ifs at hstate with hsecond
    · obtain rfl := Option.some.inj hstate
      refine ⟨hsecond ▸ by decide, fun l data hl => ?_⟩
      obtain ⟨rfl, rfl⟩ := FlatMap.find_insert_empty_eq_some.mp hl
      decide
    · obtain ⟨rfl, rfl⟩ := FlatMap.find_insert_empty_eq_some.mp hstate
      refine ⟨by decide, fun l data hl => ?_⟩
      obtain ⟨rfl, rfl⟩ := FlatMap.find_insert_empty_eq_some.mp hl
      decide
  obtain ⟨bs, cs, hsend, hdecode, hcommit, -, -, -, hwrites⟩ :=
    @Transaction.sendCommitMessages_decode _ [3, 5] (fun _ => 0) hdata (by decide) (by decide)
  exact ⟨bs, cs, hsend, hdecode, hcommit, (hwrites 3 _ rfl).trans (by decide +kernel),
    (hwrites 5 _ rfl).trans (by decide +kernel)⟩

end ClientLib

end BlobsDb
