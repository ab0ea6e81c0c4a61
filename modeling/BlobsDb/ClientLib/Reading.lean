import BlobsDb.ClientLib.Committing
import BlobsDb.Network.Messages
import BlobsDb.Server.Answering

/-!
# Reading blobs

The server answers a read with an entry for each location, in messages that each hold as many
entries as fit. The client goes through the messages with the locations it asked for, and enters
what it is sent into its cache; an entry with the commit id of the request stands for the content
that is in the cache already. Dirty reads do not use the cache.

Since commit ids start at 1, an entry for a location that was not in the cache is never mistaken
for one that was (`ReadState.readMessages_sendResponses`).
-/

namespace BlobsDb

/-! ### The messages of the server -/

/-- The loop of `BuildAndSendBlobsReadResponse` over the chunks, in at most so many rounds; with an
empty chunk it would go on forever. -/
def sendResponses (raw : ℕ → UInt8) :
    ℕ → List (BlobAddress × Option VersionedContent) → Option (List (List UInt8))
  | _, [] => some []
  | 0, _ :: _ => none
  | n + 1, e :: es =>
    match takeChunk 0 0 (e :: es) with
    | ([], _) => none
    | (chunk, rest) =>
      (BlobsReadResponse.writeBlobs
        (BlobsReadResponse.create raw (chunk.map fun e => blobSize e.2).sum chunk.length)
        (chunk.map setBlob)).bind fun b =>
          (BlobsReadResponse.setHasFollowMessage b !rest.isEmpty).bind fun b =>
            (sendResponses raw n rest).map fun bs => b :: bs

section Chunks

variable {raw : ℕ → UInt8} {e : BlobAddress × Option VersionedContent}
  {es : List (BlobAddress × Option VersionedContent)} {chunkSize n : ℕ}

/-- The answer for a location fits its fields. -/
def Answerable (e : BlobAddress × Option VersionedContent) : Prop :=
  BlobsReadResponse.Sendable (setBlob e)

@[simp]
theorem toBlobLocation_setBlob (e : BlobAddress × Option VersionedContent) :
    (setBlob e).toBlobLocation = e.1.toBlobLocation := by
  rw [setBlob]
  cases e.2 <;> rfl

theorem length_content_setBlob (e : BlobAddress × Option VersionedContent) :
    (setBlob e).content.length = blobSize e.2 := by
  rw [setBlob, blobSize]
  cases e.2 <;> rfl

/-- Each answer fits into a message of its own. -/
theorem Answerable.fitsAlone (he : Answerable e) : FitsAlone e := by
  have hsize : blobSize e.2 ≤ maxBlobSize := (length_content_setBlob e).symm.trans_le he.1
  rw [maxBlobSize] at hsize
  rw [FitsAlone, fitsIntoMessage_iff]
  omega

/-- The messages of an answer: each but the last one announces another one. -/
def IsAnswer : List BlobsReadResponse → Prop
  | [] => False
  | r :: rs => r.hasFollowMessage = !rs.isEmpty ∧ (rs = [] ∨ IsAnswer rs)

theorem length_answers (es : List (BlobAddress × Option VersionedContent)) :
    (((es.map setBlob).map BlobsReadResponse.record).flatMap Prod.snd).length =
      (es.map fun e => blobSize e.2).sum := by
  rw [List.length_flatMap, List.map_map, List.map_map]
  refine congrArg List.sum (List.map_congr_left fun e _ => ?_)
  exact length_content_setBlob e

/-- What the server sends: messages that fit, with the answers in the order of the request. -/
theorem exists_sendResponses (raw : ℕ → UInt8) (hes : ∀ e ∈ es, Answerable e) (hne : es ≠ []) (hn : es.length ≤ n) :
    ∃ rs, sendResponses raw n es = some (rs.map (BlobsReadResponse.encode raw)) ∧
      buildResponses n es = some rs ∧ IsAnswer rs ∧
      rs.flatMap BlobsReadResponse.blobs = es.map setBlob ∧
      ∀ r ∈ rs, r.result = .success ∧ 12 + 24 * r.blobs.length +
        ((r.blobs.map BlobsReadResponse.record).flatMap Prod.snd).length < 2 ^ 32 := by
  induction n generalizing es with
  | zero => exact absurd (List.length_eq_zero_iff.mp (Nat.le_zero.mp hn)) hne
  | succ n ih =>
    obtain ⟨e, es, rfl⟩ := List.exists_cons_of_ne_nil hne
    -- the next message takes at least one entry, so the rest is shorter
    obtain ⟨chunk, rest, htake, hchunk, happend, hsize⟩ :=
      exists_takeChunk_cons (hes e List.mem_cons_self).fitsAlone es
    have hmem : ∀ e', e' ∈ chunk ∨ e' ∈ rest → Answerable e' := fun e' he' =>
      hes e' (happend ▸ List.mem_append.mpr he')
    have hwrite := BlobsReadResponse.writeBlobs_create raw
      (fun b hb => by
        obtain ⟨e', he', rfl⟩ := List.mem_map.mp hb
        exact hmem e' (.inl he'))
    rw [length_answers, List.length_map] at hwrite
    have hlen : rest.length ≤ n := by
      have h := congrArg List.length happend
      have hpos := List.length_pos_of_ne_nil hchunk
      rw [List.length_append, List.length_cons] at h
      rw [List.length_cons] at hn
      omega
    obtain ⟨e', chunk, rfl⟩ := List.exists_cons_of_ne_nil hchunk
    set message : BlobsReadResponse := ⟨.success, (e' :: chunk).map setBlob, !rest.isEmpty⟩
    have hmessage : message.result = .success ∧ 12 + 24 * message.blobs.length +
        ((message.blobs.map BlobsReadResponse.record).flatMap Prod.snd).length < 2 ^ 32 := by
      refine ⟨rfl, ?_⟩
      rw [length_answers, List.length_map]
      omega
    have hsend : ∀ bs, sendResponses raw n rest = some bs →
        sendResponses raw (n + 1) (e :: es) =
          some (BlobsReadResponse.encode raw message :: bs) := fun bs hbs => by
      rw [sendResponses, htake]
      dsimp only
      rw [hwrite, Option.bind_some, BlobsReadResponse.setHasFollowMessage_encode,
        Option.bind_some, hbs]
      rfl
    have hbuild : ∀ rs, buildResponses n rest = some rs →
        buildResponses (n + 1) (e :: es) = some (message :: rs) := fun rs hrs => by
      rw [buildResponses, htake]
      · dsimp only
        rw [hrs]
      · exact List.cons_ne_nil e es
    by_cases hrest : rest = []
    · subst hrest
      have hdone : sendResponses raw n [] = some [] ∧ buildResponses n [] = some [] := by
        cases n <;> exact ⟨rfl, rfl⟩
      refine ⟨[message], hsend [] hdone.1, hbuild [] hdone.2, ⟨rfl, .inl rfl⟩, ?_, ?_⟩
      · rw [List.append_nil] at happend
        rw [← happend]
        exact List.append_nil _
      · exact fun r hr => (List.mem_singleton.mp hr) ▸ hmessage
    · obtain ⟨rs, h1, h2, h3, h4, h5⟩ := ih (fun e hmem' => hmem e (.inr hmem')) hrest hlen
      have hrs : rs ≠ [] := by
        rintro rfl
        exact h3
      -- more messages follow if and only if there is a rest
      have hempty : message.hasFollowMessage = !rs.isEmpty := by
        show (!rest.isEmpty) = !rs.isEmpty
        rw [List.isEmpty_eq_false_iff.mpr hrest, List.isEmpty_eq_false_iff.mpr hrs]
      refine ⟨message :: rs, hsend _ h1, hbuild rs h2, ⟨hempty, .inr h3⟩, ?_, ?_⟩
      · rw [List.flatMap_cons, h4, ← happend, List.map_append]
      · rintro r (_ | ⟨_, hr⟩)
        · exact hmessage
        · exact h5 r hr

end Chunks

/-! ### The client -/

namespace ClientLib

/-- `RequestedBlob`: a location to read, and whether the cache has it. -/
structure RequestedBlob where
  address : BlobAddress
  cached : Bool
  deriving DecidableEq

/-- What is requested for a location: dirty reads ignore the cache, and what is not in the cache
has the commit id 0. -/
def requestBlob (cache : FlatMap BlobLocation CachedBlob) (lock : LockMode) (l : BlobLocation) :
    RequestedBlob :=
  if lock = .none then ⟨⟨l, 0⟩, false⟩
  else ⟨⟨l, ((cache.find l).map CachedBlob.lastUpdated).getD 0⟩, (cache.find l).isSome⟩

@[simp]
theorem toBlobLocation_requestBlob (cache : FlatMap BlobLocation CachedBlob) (lock : LockMode)
    (l : BlobLocation) : (requestBlob cache lock l).address.toBlobLocation = l := by
  rw [requestBlob]
  split_ifs <;> rfl

/-- The data of an entry: a copy, or the cached blob of a location, with its size. -/
inductive BlobEntry
  | copied (data : List UInt8)
  | cached (location : BlobLocation) (size : ℕ)
  deriving DecidableEq

/-- `AcquiredLock` -/
def HeldLocks.acquired (locks : HeldLocks) (lock : LockMode) (l : BlobLocation) : HeldLocks :=
  match lock with
  | .read => { locks with read := locks.read.insert l () }
  | .write => { locks with write := locks.write.insert l () }
  | _ => locks

/-- The cache, the locks of the transaction, and the entries that were assigned so far. -/
structure ReadState where
  cache : FlatMap BlobLocation CachedBlob
  heldLocks : HeldLocks
  entries : List BlobEntry
  deriving DecidableEq

namespace ReadState

/-- Assigns what was sent for a location. The source asserts that it is the requested location,
and that there is a cached blob in the end. -/
def assign (lock : LockMode) (transactionId : ℕ) (s : ReadState) (r : RequestedBlob)
    (b : BlobsReadResponse.BlobData) : Option ReadState :=
  if b.toBlobLocation ≠ r.address.toBlobLocation then none
  else if lock = .none then some { s with entries := s.entries ++ [.copied b.content] }
  else
    let l := r.address.toBlobLocation
    let isNew : Bool := b.commitId ≠ r.address.cacheCommitId
    let cache := if isNew then s.cache.insert l ⟨b.content, b.commitId, transactionId⟩ else s.cache
    match if isNew || r.cached then cache.find l else none with
    | none => none
    | some c => some ⟨cache, s.heldLocks.acquired lock l, s.entries ++ [.cached l c.data.length]⟩

/-- Goes through the blobs of a message and the locations that are left. -/
def assignAll (lock : LockMode) (transactionId : ℕ) : List RequestedBlob →
    List BlobsReadResponse.BlobData → ReadState → Option (ReadState × List RequestedBlob)
  | rs, [], s => some (s, rs)
  | [], _ :: _, _ => none
  | r :: rs, b :: bs, s => (s.assign lock transactionId r b).bind (assignAll lock transactionId rs bs)

/-- The loop of `ReadBlobs` over the messages that arrive: what is left of the requested locations
and of the messages in the end. Errors are exceptions. -/
def readMessages (lock : LockMode) (transactionId : ℕ) : List RequestedBlob → List (List UInt8) →
    ReadState → Option (ReadState × List RequestedBlob × List (List UInt8))
  | _, [], _ => none
  | rs, m :: ms, s =>
    match BlobsReadResponse.decode m with
    | none => none
    | some response =>
      (assignAll lock transactionId rs response.blobs s).bind fun p =>
        if response.hasFollowMessage then readMessages lock transactionId p.2 ms p.1
        else some (p.1, p.2, ms)

variable {lock : LockMode} {transactionId : ℕ} {s s' : ReadState} {rs rs' : List RequestedBlob}
  {bs bs' : List BlobsReadResponse.BlobData} {raw : ℕ → UInt8}

theorem assignAll_nil (rs : List RequestedBlob) (s : ReadState) :
    assignAll lock transactionId rs [] s = some (s, rs) := by
  cases rs <;> rfl

theorem assignAll_append (rs : List RequestedBlob) (bs bs' : List BlobsReadResponse.BlobData)
    (s : ReadState) : assignAll lock transactionId rs (bs ++ bs') s =
      (assignAll lock transactionId rs bs s).bind fun p =>
        assignAll lock transactionId p.2 bs' p.1 := by
  induction bs generalizing rs s with
  | nil => rw [List.nil_append, assignAll_nil, Option.bind_some]
  | cons b bs ih =>
    cases rs with
    | nil => rfl
    | cons r rs =>
      rw [List.cons_append, assignAll, assignAll]
      cases s.assign lock transactionId r b with
      | none => rfl
      | some s' => exact ih rs s'

/-- The messages of an answer are read as one list of blobs. -/
theorem readMessages_encode {ms : List BlobsReadResponse} (hms : IsAnswer ms)
    (hdecode : ∀ m ∈ ms, BlobsReadResponse.decode (BlobsReadResponse.encode raw m) = some m)
    (rs : List RequestedBlob) (s : ReadState) :
    readMessages lock transactionId rs (ms.map (BlobsReadResponse.encode raw)) s =
      (assignAll lock transactionId rs (ms.flatMap BlobsReadResponse.blobs) s).map fun p =>
        (p.1, p.2, []) := by
  induction ms generalizing rs s with
  | nil => exact hms.elim
  | cons m ms ih =>
    obtain ⟨hfollow, htail⟩ := hms
    rw [List.map_cons, readMessages, hdecode m List.mem_cons_self]
    dsimp only
    rw [List.flatMap_cons, assignAll_append]
    rcases htail with rfl | hms
    · have hlast : m.hasFollowMessage = false := hfollow
      rw [hlast]
      cases assignAll lock transactionId rs m.blobs s with
      | none => rfl
      | some p =>
        rw [Option.bind_some, Option.bind_some, List.flatMap_nil, assignAll_nil]
        rfl
    · have hnext : m.hasFollowMessage = true := by
        rw [hfollow]
        cases ms with
        | nil => exact hms.elim
        | cons _ _ => rfl
      rw [hnext]
      cases assignAll lock transactionId rs m.blobs s with
      | none => rfl
      | some p =>
        rw [Option.bind_some, Option.bind_some, if_pos rfl]
        exact ih hms (fun m' hm' => hdecode m' (List.mem_cons_of_mem _ hm')) p.2 p.1

/-! ### What is assigned -/

/-- What the cache has for a location after the answer to a request. -/
def cachedAfter (cache : FlatMap BlobLocation CachedBlob) (transactionId : ℕ)
    (e : BlobAddress × Option VersionedContent) : Option CachedBlob :=
  if (setBlob e).commitId = e.1.cacheCommitId then cache.find e.1.toBlobLocation
  else some ⟨(setBlob e).content, (setBlob e).commitId, transactionId⟩

/-- The answers so far were entered into the cache, and nothing else was. -/
structure Entered (cache₀ : FlatMap BlobLocation CachedBlob) (transactionId : ℕ)
    (done : List (BlobAddress × Option VersionedContent))
    (cache : FlatMap BlobLocation CachedBlob) : Prop where
  answered : ∀ e ∈ done, cache.find e.1.toBlobLocation = cachedAfter cache₀ transactionId e
  other : ∀ l, (∀ e ∈ done, e.1.toBlobLocation ≠ l) → cache.find l = cache₀.find l

/-- What the requests are for, and what is answered. -/
structure Answers (cache : FlatMap BlobLocation CachedBlob) (lock : LockMode)
    (es : List (BlobAddress × Option VersionedContent)) : Prop where
  request : ∀ e ∈ es, e.1 = (requestBlob cache lock e.1.toBlobLocation).address
  /-- Commit ids start at 1. -/
  commitId : ∀ e ∈ es, (setBlob e).commitId ≠ 0
  /-- A location that is requested twice has one answer, see `Answers.of_answerBlobs`. -/
  unique : ∀ e ∈ es, ∀ e' ∈ es, e.1.toBlobLocation = e'.1.toBlobLocation → e.2 = e'.2

variable {cache₀ : FlatMap BlobLocation CachedBlob}
  {es done : List (BlobAddress × Option VersionedContent)}
  {e e' : BlobAddress × Option VersionedContent}

/-- The server answers each request by what it is, so that two equal ones have one answer. -/
theorem Answers.of_answerBlobs {h : Heap} {snapshot : Pointer} {mode : LockMode}
    {as : List BlobAddress} (hes : h.answerBlobs snapshot mode as = some es)
    (hrequest : ∀ a ∈ as, a = (requestBlob cache₀ lock a.toBlobLocation).address)
    (hcommit : ∀ e ∈ es, (setBlob e).commitId ≠ 0) : Answers cache₀ lock es := by
  obtain ⟨rfl, hanswer⟩ := Heap.answerBlobs_eq_some hes
  have hreq : ∀ e ∈ es, e.1 = (requestBlob cache₀ lock e.1.toBlobLocation).address :=
    fun e he => hrequest e.1 (List.mem_map_of_mem he)
  refine ⟨hreq, hcommit, fun e he e' he' hl => ?_⟩
  have hsame : e.1 = e'.1 := by rw [hreq e he, hreq e' he', hl]
  have h' := hanswer e he
  rw [hsame, hanswer e' he', Option.some.injEq] at h'
  exact h'.symm

theorem Answers.eq (h : Answers cache₀ lock es) (he : e ∈ es) (he' : e' ∈ es)
    (hl : e.1.toBlobLocation = e'.1.toBlobLocation) : e = e' := by
  refine Prod.ext ?_ (h.unique e he e' he' hl)
  rw [h.request e he, h.request e' he', hl]

/-- What is not in the cache is sent. -/
theorem Answers.cached (h : Answers cache₀ lock es) (he : e ∈ es) (hlock : lock ≠ .none)
    (hold : (setBlob e).commitId = e.1.cacheCommitId) :
    ∃ c, cache₀.find e.1.toBlobLocation = some c := by
  by_contra hnone
  have hfind : cache₀.find e.1.toBlobLocation = none := by
    by_contra hne
    exact hnone (Option.ne_none_iff_exists'.mp hne)
  refine h.commitId e he (hold.trans ?_)
  rw [h.request e he, requestBlob, if_neg hlock, hfind]
  rfl

/-- One answer is entered. -/
theorem Entered.assign (hs : Entered cache₀ transactionId done s.cache)
    (h : Answers cache₀ lock es) (hlock : lock ≠ .none) (hdone : ∀ e' ∈ done, e' ∈ es)
    (he : e ∈ es) :
    ∃ c s', cachedAfter cache₀ transactionId e = some c ∧
      s.assign lock transactionId (requestBlob cache₀ lock e.1.toBlobLocation) (setBlob e) =
        some s' ∧
      s'.entries = s.entries ++ [.cached e.1.toBlobLocation c.data.length] ∧
      Entered cache₀ transactionId (done ++ [e]) s'.cache := by
  have haddress := h.request e he
  have hlocation := toBlobLocation_setBlob e
  by_cases hold : (setBlob e).commitId = e.1.cacheCommitId
  · -- the content of the cache is current
    obtain ⟨c, hc⟩ := h.cached he hlock hold
    have hafter : cachedAfter cache₀ transactionId e = some c := by
      rw [cachedAfter, if_pos hold, hc]
    have hfind : s.cache.find e.1.toBlobLocation = some c := by
      by_cases hbefore : ∃ e' ∈ done, e'.1.toBlobLocation = e.1.toBlobLocation
      · -- the location was answered before, by the same entry
        obtain ⟨e', he', hl⟩ := hbefore
        obtain rfl := h.eq (hdone e' he') he hl
        rw [hs.answered e' he', hafter]
      · rw [hs.other _ fun e' he' hl => hbefore ⟨e', he', hl⟩, hc]
    have hcached : (requestBlob cache₀ lock e.1.toBlobLocation).cached = true := by
      rw [requestBlob, if_neg hlock, hc]
      rfl
    refine ⟨c, ⟨s.cache, s.heldLocks.acquired lock e.1.toBlobLocation,
        s.entries ++ [.cached e.1.toBlobLocation c.data.length]⟩, hafter, ?_, rfl,
      ⟨fun e' he' => ?_, fun l hl => ?_⟩⟩
    · rw [ReadState.assign, ← haddress, if_neg (not_not.mpr hlocation), if_neg hlock]
      simp only [hold, ne_eq, not_true_eq_false, decide_false, Bool.false_or, hcached, if_true,
        Bool.false_eq_true, if_false, hfind]
    · rcases List.mem_append.mp he' with he' | he'
      · exact hs.answered e' he'
      · rw [List.mem_singleton.mp he', hafter]
        exact hfind
    · exact hs.other l fun e' he' => hl e' (List.mem_append_left _ he')
  · -- the content is new
    have hafter : cachedAfter cache₀ transactionId e =
        some ⟨(setBlob e).content, (setBlob e).commitId, transactionId⟩ := by
      rw [cachedAfter, if_neg hold]
    refine ⟨_, ⟨s.cache.insert e.1.toBlobLocation
          ⟨(setBlob e).content, (setBlob e).commitId, transactionId⟩,
        s.heldLocks.acquired lock e.1.toBlobLocation,
        s.entries ++ [.cached e.1.toBlobLocation (setBlob e).content.length]⟩, hafter, ?_, rfl,
      ⟨fun e' he' => ?_, fun l hl => ?_⟩⟩
    · rw [ReadState.assign, ← haddress, if_neg (not_not.mpr hlocation), if_neg hlock]
      simp only [hold, ne_eq, not_false_eq_true, decide_true, Bool.true_or, if_true,
        FlatMap.find_insert]
    · rw [FlatMap.find_insert]
      rcases List.mem_append.mp he' with he' | he'
      · by_cases hl : e'.1.toBlobLocation = e.1.toBlobLocation
        · obtain rfl := h.eq (hdone e' he') he hl
          rw [if_pos rfl, hafter]
        · rw [if_neg hl]
          exact hs.answered e' he'
      · rw [List.mem_singleton.mp he', if_pos rfl, hafter]
    · rw [FlatMap.find_insert, if_neg fun heq => hl e (List.mem_append_right _
        (List.mem_singleton_self e)) heq.symm]
      exact hs.other l fun e' he' => hl e' (List.mem_append_left _ he')

/-- The entry of an answer. -/
def entryOf (lock : LockMode) (cache : FlatMap BlobLocation CachedBlob) (transactionId : ℕ)
    (e : BlobAddress × Option VersionedContent) : BlobEntry :=
  if lock = .none then .copied (setBlob e).content
  else .cached e.1.toBlobLocation
    (((cachedAfter cache transactionId e).map fun c => c.data.length).getD 0)

/-- The entries are assigned one after the other. -/
theorem exists_assignAll (h : Answers cache₀ lock es) (hlock : lock ≠ .none)
    {todo : List (BlobAddress × Option VersionedContent)} (hes : es = done ++ todo)
    (hs : Entered cache₀ transactionId done s.cache) :
    ∃ s', assignAll lock transactionId
        (todo.map fun e => requestBlob cache₀ lock e.1.toBlobLocation) (todo.map setBlob) s =
          some (s', []) ∧
      s'.entries = s.entries ++ todo.map (entryOf lock cache₀ transactionId) ∧
      Entered cache₀ transactionId es s'.cache := by
  induction todo generalizing done s with
  | nil =>
    rw [List.append_nil] at hes
    subst hes
    exact ⟨s, rfl, (List.append_nil _).symm, hs⟩
  | cons e todo ih =>
    obtain ⟨c, s₁, hafter, hassign, hentries, hs₁⟩ := hs.assign h hlock
      (fun e' he' => hes ▸ List.mem_append_left _ he')
      (hes ▸ List.mem_append_right _ List.mem_cons_self)
    obtain ⟨s', h1, h2, h3⟩ := ih (by rw [hes, List.append_cons]) hs₁
    refine ⟨s', ?_, ?_, h3⟩
    · rw [List.map_cons, List.map_cons, assignAll, hassign, Option.bind_some, h1]
    · rw [h2, hentries, List.map_cons, List.append_assoc, entryOf, if_neg hlock, hafter]
      rfl

/-- Dirty reads copy what was sent. -/
theorem exists_assignAll_none (todo : List (BlobAddress × Option VersionedContent))
    (s : ReadState) :
    ∃ s', assignAll .none transactionId
        (todo.map fun e => requestBlob cache₀ .none e.1.toBlobLocation) (todo.map setBlob) s =
          some (s', []) ∧
      s'.entries = s.entries ++ todo.map (entryOf .none cache₀ transactionId) ∧
      s'.cache = s.cache := by
  induction todo generalizing s with
  | nil => exact ⟨s, rfl, (List.append_nil _).symm, rfl⟩
  | cons e todo ih =>
    have hassign : s.assign .none transactionId (requestBlob cache₀ .none e.1.toBlobLocation)
        (setBlob e) = some { s with entries := s.entries ++ [.copied (setBlob e).content] } := by
      rw [ReadState.assign, toBlobLocation_setBlob, toBlobLocation_requestBlob,
        if_neg (not_not.mpr rfl), if_pos rfl]
    obtain ⟨s', h1, h2, h3⟩ :=
      ih { s with entries := s.entries ++ [.copied (setBlob e).content] }
    refine ⟨s', ?_, ?_, h3⟩
    · rw [List.map_cons, List.map_cons, assignAll, hassign, Option.bind_some, h1]
    · rw [h2, List.map_cons, List.append_assoc]
      rfl

/-- The server answers a read with messages that have a valid size and of which all but the last
one announce another one. The client that goes through them assigns each answer to its location:
a dirty read gets a copy of what was sent; else the entry refers to the cached blob, which has the
content and the commit id that were sent, or is the one the cache had when its commit id is the
one that was sent. -/
theorem readMessages_sendResponses (raw : ℕ → UInt8) (hes : ∀ e ∈ es, Answerable e)
    (hne : es ≠ []) (hlen : es.length ≤ 255) :
    ∃ rs, sendResponses raw es.length es = some (rs.map (BlobsReadResponse.encode raw)) ∧
      IsAnswer rs ∧
      (∀ b ∈ rs.map (BlobsReadResponse.encode raw),
        b.length < 2 ^ 32 ∧ leNat (b.take 4) = b.length) ∧
      ∀ (lock : LockMode) (transactionId : ℕ) (s : ReadState), Answers s.cache lock es →
        ∃ s', s.readMessages lock transactionId
            (es.map fun e => requestBlob s.cache lock e.1.toBlobLocation)
            (rs.map (BlobsReadResponse.encode raw)) = some (s', [], []) ∧
          s'.entries = s.entries ++ es.map (entryOf lock s.cache transactionId) ∧
          ∀ e ∈ es, lock ≠ .none →
            s'.cache.find e.1.toBlobLocation = cachedAfter s.cache transactionId e := by
  obtain ⟨rs, hsend, -, hanswer, hblobs, hsize⟩ := exists_sendResponses raw hes hne le_rfl
  have hsendable : ∀ r ∈ rs, ∀ b ∈ r.blobs, BlobsReadResponse.Sendable b := by
    intro r hr b hb
    have hmem : b ∈ es.map setBlob := hblobs ▸ List.mem_flatMap.mpr ⟨r, hr, hb⟩
    obtain ⟨e, he, rfl⟩ := List.mem_map.mp hmem
    exact hes e he
  have hdecode : ∀ r ∈ rs,
      BlobsReadResponse.decode (BlobsReadResponse.encode raw r) = some r := by
    intro r hr
    refine BlobsReadResponse.decode_encode (hsize r hr).1 (hsendable r hr) ?_
    have hle : r.blobs.length ≤ (es.map setBlob).length := by
      rw [← hblobs, List.flatMap_def]
      exact (List.sublist_flatten_of_mem (List.mem_map_of_mem hr)).length_le
    rw [List.length_map] at hle
    omega
  refine ⟨rs, hsend, hanswer, fun b hb => ?_, fun lock transactionId s h => ?_⟩
  · obtain ⟨r, hr, rfl⟩ := List.mem_map.mp hb
    obtain ⟨hlength, htake⟩ :=
      BlobsReadResponse.length_encode raw (hsendable r hr) (hsize r hr).2
    exact ⟨hlength ▸ (hsize r hr).2, htake⟩
  · rw [readMessages_encode hanswer hdecode, hblobs]
    by_cases hlock : lock = .none
    · subst hlock
      obtain ⟨s', h1, h2, -⟩ := exists_assignAll_none es s
      exact ⟨s', by rw [h1]; rfl, h2, fun _ _ hne => absurd rfl hne⟩
    · have hnothing : Entered s.cache transactionId [] s.cache :=
        ⟨fun _ => (nomatch ·), fun _ _ => rfl⟩
      obtain ⟨s', h1, h2, h3⟩ := exists_assignAll h hlock (List.nil_append es).symm hnothing
      exact ⟨s', by rw [h1]; rfl, h2, fun e he _ => h3.answered e he⟩

/-- A client that has one blob in its cache, and asks for this one and an empty one. -/
def oneCached : ReadState := ⟨FlatMap.empty.insert ⟨0, 0, 1⟩ ⟨[7], 5, 1⟩, .empty, []⟩

def cachedAndEmpty : List (BlobAddress × Option VersionedContent) :=
  [(⟨⟨0, 0, 1⟩, 5⟩, none), (⟨⟨0, 0, 2⟩, 0⟩, some ⟨6, []⟩)]

theorem readMessages_sendResponses_cachedAndEmpty :
    ∃ (bs : List (List UInt8)) (s' : ReadState),
      sendResponses (fun _ => 0) 2 cachedAndEmpty = some bs ∧
      oneCached.readMessages .read 9
        [requestBlob oneCached.cache .read ⟨0, 0, 1⟩, requestBlob oneCached.cache .read ⟨0, 0, 2⟩]
        bs = some (s', [], []) ∧
      s'.entries = [.cached ⟨0, 0, 1⟩ 1, .cached ⟨0, 0, 2⟩ 0] ∧
      s'.cache.find ⟨0, 0, 1⟩ = some ⟨[7], 5, 1⟩ ∧ s'.cache.find ⟨0, 0, 2⟩ = some ⟨[], 6, 9⟩ := by
  have hes : ∀ e ∈ cachedAndEmpty, Answerable e := by
    unfold Answerable BlobsReadResponse.Sendable
    decide
  obtain ⟨rs, hsend, -, -, hread⟩ :=
    readMessages_sendResponses (fun _ => 0) hes (by decide) (by decide)
  have hanswers : Answers oneCached.cache .read cachedAndEmpty :=
    ⟨by decide, by decide, by decide⟩
  obtain ⟨s', h1, h2, h3⟩ := hread .read 9 oneCached hanswers
  exact ⟨_, s', hsend, h1, h2.trans (by decide), (h3 _ (.head _) (by decide)).trans (by decide),
    (h3 _ (.tail _ (.head _)) (by decide)).trans (by decide)⟩

end ReadState

end ClientLib

end BlobsDb
