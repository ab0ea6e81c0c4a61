import BlobsDb.ForMathlib.GuardedRun
import BlobsDb.Server.Messages
import BlobsDb.Server.Scheduler
import Mathlib.Data.List.Pairwise

/-!
# The registered databases

`Database::databases` has the databases that clients use, and those that wait to be closed. A file
is registered by its resolved path, and found by any name that resolves to the same file.

A database that is to be created anew although it is registered is closed and registered again, if
nobody uses it. The name of the request was not replaced by the resolved path then, as it was found,
so that the file is opened by the name of the request (`Registry.openDatabase`).
-/

namespace BlobsDb

/-- How names are resolved, which paths are the same file, and how long databases that nobody uses
stay open. Names and paths are numbered. -/
structure Environment where
  resolve : ℕ → Option ℕ
  isSame : ℕ → ℕ → Bool
  closeDelay : ℤ

/-- `GetResolvedDatabasePath` and `Paths::IsSame` do what they are for. -/
structure Environment.Correct (env : Environment) : Prop where
  refl : ∀ p, env.isSame p p = true
  symm : ∀ p q, env.isSame p q = true → env.isSame q p = true
  trans : ∀ p q r, env.isSame p q = true → env.isSame q r = true → env.isSame p r = true

/-- A `Database` object, with the name of the request it was registered for, and how often it was
opened. -/
structure RegisteredDatabase where
  id : ℕ
  name : DatabaseName
  request : DatabaseName
  useCount : ℕ
  delayedCloseAt : ℤ
  opens : ℕ
  deriving DecidableEq

/-- The path of a registered file is the same file. -/
def RegisteredDatabase.isFile (env : Environment) (path : ℕ) (d : RegisteredDatabase) : Bool :=
  match d.name with
  | .mem _ => false
  | .file p => env.isSame path p

/-- The task that closes an object, scheduled after it was opened so many times. -/
structure CloseTask where
  id : ℕ
  opens : ℕ
  deriving DecidableEq

/-- The registered databases, the tasks that close them, and the tasks that were posted and did not
run yet; and which paths were opened for which names, and which objects were closed. -/
structure Registry where
  now : ℤ
  nextId : ℕ
  databases : List RegisteredDatabase
  scheduler : Scheduler CloseTask
  packets : List (ScheduledTask CloseTask)
  opened : List (DatabaseName × DatabaseName)
  closed : List ℕ
  deriving DecidableEq

namespace Registry

def initial (now : ℤ) : Registry := ⟨now, 0, [], .empty, [], [], []⟩

/-- `Database::Close`: the object is destroyed. -/
def close (id : ℕ) (s : Registry) : Registry :=
  { s with databases := s.databases.filter fun d => d.id ≠ id, closed := s.closed ++ [id] }

/-- Changes an object. -/
def modify (id : ℕ) (f : RegisteredDatabase → RegisteredDatabase) (s : Registry) : Registry :=
  { s with databases := s.databases.map fun d => if d.id = id then f d else d }

/-- One more client uses the object. -/
def use (id : ℕ) (s : Registry) : Registry :=
  s.modify id fun d => { d with useCount := d.useCount + 1, opens := d.opens + 1 }

/-- The beginning of `Open`: the object of a name, and the name to register it by. The name is
replaced by the resolved path if there is no object yet. Names that cannot be resolved are
illegal. -/
def lookup (env : Environment) (s : Registry) :
    DatabaseName → Option (Option RegisteredDatabase × DatabaseName)
  | .mem name => some (s.databases.find? fun d => d.name = .mem name, .mem name)
  | .file name =>
    (env.resolve name).map fun path =>
      match s.databases.find? (RegisteredDatabase.isFile env path) with
      | some d => (some d, .file name)
      | none => (none, .file path)

/-- Registers an object, before it is loaded. -/
def register (request name : DatabaseName) (s : Registry) : Registry :=
  { s with
    nextId := s.nextId + 1
    databases := s.databases ++ [⟨s.nextId, name, request, 0, 0, 0⟩] }

/-- Registers a database and loads it; `loaded` is what loading the file gives. A database that
could not be loaded is closed. -/
def create (request name : DatabaseName) (mode : OpenMode) (loaded : DatabaseOpenResponse.Result)
    (s : Registry) : DatabaseOpenResponse.Result × Registry :=
  match name with
  | .mem _ =>
    if mode = .openFailIfNotExist then (.databaseDoesNotExist, s)
    else (.success, (s.register request name).use s.nextId)
  | .file _ =>
    let s' := { s.register request name with opened := s.opened ++ [(request, name)] }
    if loaded = .success then (.success, s'.use s.nextId) else (loaded, s'.close s.nextId)

/-- `Database::Open`. An illegal path has no result. -/
def openDatabase (env : Environment) (request : DatabaseName) (mode : OpenMode)
    (loaded : DatabaseOpenResponse.Result) (s : Registry) :
    Option DatabaseOpenResponse.Result × Registry :=
  match s.lookup env request with
  | none => (none, s)
  | some (none, name) =>
    let r := s.create request name mode loaded
    (some r.1, r.2)
  | some (some d, name) =>
    match mode with
    | .createAlways =>
      if 0 < d.useCount then (some .cannotOverwriteOpenDatabase, s)
      else
        -- the name is still that of the request
        let r := (s.close d.id).create request name mode loaded
        (some r.1, r.2)
    | .createFailIfExist => (some .databaseAlreadyExists, s)
    | .createIfNotExist | .openFailIfNotExist => (some .success, s.use d.id)

/-- `Database::Release` -/
def release (env : Environment) (d : RegisteredDatabase) (now : ℤ) (s : Registry) : Registry :=
  if d.useCount = 1 then
    if 0 < env.closeDelay then
      let s := s.modify d.id fun d =>
        { d with useCount := 0, delayedCloseAt := now + env.closeDelay }
      { s with now, scheduler := s.scheduler.runAt (now + env.closeDelay) ⟨d.id, d.opens⟩ }
    else { s with now }.close d.id
  else { s.modify d.id fun d => { d with useCount := d.useCount - 1 } with now }

inductive Action
  | openDatabase (request : DatabaseName) (mode : OpenMode) (loaded : DatabaseOpenResponse.Result)
  | release (id : ℕ) (now : ℤ)
  | nextTask (now : ℤ)
  | runTask

/-- One step: a database is opened or released, or a task is posted or runs. Posted tasks run in
their order; a task of an object that was destroyed has no answer. -/
def step (env : Environment) (s : Registry) : Action → Option Registry
  | .openDatabase request mode loaded => some (s.openDatabase env request mode loaded).2
  | .release id now =>
    match s.databases.find? fun d => d.id = id with
    | none => none
    | some d => if 0 < d.useCount ∧ s.now ≤ now then some (s.release env d now) else none
  | .nextTask now =>
    if s.now ≤ now then
      match s.scheduler.postTask now with
      | none => some { s with now }
      | some (t, scheduler) => some { s with now, scheduler, packets := s.packets ++ [t] }
    else none
  | .runTask =>
    match s.packets with
    | [] => none
    | t :: packets =>
      match s.databases.find? fun d => d.id = t.task.id with
      | none => none
      | some d =>
        let s := { s with packets }
        some (if d.useCount = 0 ∧ d.delayedCloseAt = t.timePoint then s.close d.id else s)

/-! ### Names -/

/-- Files are registered by the resolved path of the name they were registered for, no file is
registered twice, and only resolved paths are opened. -/
structure Resolves (env : Environment) (s : Registry) : Prop where
  names : ∀ d ∈ s.databases, ∀ path, d.name = .file path →
    ∃ name, d.request = .file name ∧ env.resolve name = some path
  distinct : s.databases.Pairwise fun a b => ∀ p q, a.name = .file p → b.name = .file q →
    env.isSame p q = false
  opened : ∀ e ∈ s.opened, ∃ name path, e = (.file name, .file path) ∧
    env.resolve name = some path

/-- A registered file that nobody uses is created anew by its resolved path only. -/
def RecreatesByPath (env : Environment) (s : Registry) : Action → Prop
  | .openDatabase (.file name) .createAlways _ =>
    ∀ e ∈ s.lookup env (.file name), ∀ d ∈ e.1, d.useCount = 0 → env.resolve name = some name
  | _ => True

instance (env : Environment) (s : Registry) : ∀ a, Decidable (RecreatesByPath env s a)
  | .openDatabase (.file name) .createAlways _ =>
    inferInstanceAs (Decidable (∀ e ∈ s.lookup env (.file name), ∀ d ∈ e.1,
      d.useCount = 0 → env.resolve name = some name))
  | .openDatabase (.file _) .createFailIfExist _ => isTrue trivial
  | .openDatabase (.file _) .createIfNotExist _ => isTrue trivial
  | .openDatabase (.file _) .openFailIfNotExist _ => isTrue trivial
  | .openDatabase (.mem _) _ _ => isTrue trivial
  | .release _ _ => isTrue trivial
  | .nextTask _ => isTrue trivial
  | .runTask => isTrue trivial

variable {env : Environment} {s s' : Registry} {a : Action} {d e : RegisteredDatabase} {id : ℕ}
  {request name : DatabaseName} {mode : OpenMode} {loaded : DatabaseOpenResponse.Result}

theorem mem_close : d ∈ (s.close id).databases ↔ d ∈ s.databases ∧ d.id ≠ id := by
  rw [close, List.mem_filter, decide_eq_true_iff]

theorem mem_modify {f : RegisteredDatabase → RegisteredDatabase} :
    e ∈ (s.modify id f).databases ↔
      ∃ d ∈ s.databases, e = if d.id = id then f d else d := by
  rw [modify, List.mem_map]
  exact exists_congr fun d => and_congr_right fun _ => eq_comm

/-- The ids tell the objects apart. -/
structure Numbered (s : Registry) : Prop where
  nodup : (s.databases.map RegisteredDatabase.id).Nodup
  lt : ∀ d ∈ s.databases, d.id < s.nextId

theorem Numbered.eq_of_id (h : Numbered s) (hd : d ∈ s.databases) (he : e ∈ s.databases)
    (hid : d.id = e.id) : d = e :=
  List.inj_on_of_nodup_map h.nodup hd he hid

theorem Numbered.close (h : Numbered s) (id : ℕ) : Numbered (s.close id) where
  nodup := h.nodup.sublist (List.filter_sublist.map _)
  lt d hd := h.lt d (mem_close.mp hd).1

theorem Numbered.modify (h : Numbered s) (id : ℕ) {f : RegisteredDatabase → RegisteredDatabase}
    (hf : ∀ d, (f d).id = d.id) : Numbered (s.modify id f) where
  nodup := by
    have hids : (s.modify id f).databases.map RegisteredDatabase.id =
        s.databases.map RegisteredDatabase.id := by
      rw [Registry.modify, List.map_map]
      refine List.map_congr_left fun d _ => ?_
      rw [Function.comp_apply]
      split_ifs
      · exact hf d
      · rfl
    rw [hids]
    exact h.nodup
  lt e he := by
    obtain ⟨d, hd, rfl⟩ := mem_modify.mp he
    split_ifs
    · rw [hf]
      exact h.lt d hd
    · exact h.lt d hd

theorem Numbered.register (h : Numbered s) (request name : DatabaseName) :
    Numbered (s.register request name) where
  nodup := by
    rw [Registry.register, List.map_append]
    refine h.nodup.append (List.nodup_singleton _) fun id hmem hnew => ?_
    obtain ⟨d, hd, rfl⟩ := List.mem_map.mp hmem
    exact (h.lt d hd).ne (List.mem_singleton.mp hnew)
  lt d hd := by
    rcases List.mem_append.mp hd with hd | hd
    · exact (h.lt d hd).trans (Nat.lt_succ_self _)
    · rw [List.mem_singleton.mp hd]
      exact Nat.lt_succ_self _

theorem Resolves.close (h : Resolves env s) (id : ℕ) : Resolves env (s.close id) where
  names d hd := h.names d (mem_close.mp hd).1
  distinct := h.distinct.sublist List.filter_sublist
  opened := h.opened

/-- Names and requests stay. -/
theorem Resolves.modify (h : Resolves env s) (id : ℕ) {f : RegisteredDatabase → RegisteredDatabase}
    (hf : ∀ d, (f d).name = d.name ∧ (f d).request = d.request) : Resolves env (s.modify id f) := by
  have hite : ∀ d : RegisteredDatabase, (if d.id = id then f d else d).name = d.name ∧
      (if d.id = id then f d else d).request = d.request := by
    intro d
    split_ifs
    · exact hf d
    · exact ⟨rfl, rfl⟩
  refine ⟨fun e he path hpath => ?_, ?_, h.opened⟩
  · obtain ⟨d, hd, rfl⟩ := mem_modify.mp he
    rw [(hite d).1] at hpath
    rw [(hite d).2]
    exact h.names d hd path hpath
  · rw [Registry.modify, List.pairwise_map]
    refine h.distinct.imp fun {a b} hab p q hp hq => ?_
    rw [(hite a).1] at hp
    rw [(hite b).1] at hq
    exact hab p q hp hq

/-- A new object has a resolved path, which is none of the files that are registered. -/
theorem Resolves.register (h : Resolves env s)
    (hname : ∀ path, name = .file path → ∃ n, request = .file n ∧ env.resolve n = some path)
    (hnew : ∀ d ∈ s.databases, ∀ p q, d.name = .file p → name = .file q →
      env.isSame p q = false) : Resolves env (s.register request name) where
  names d hd := by
    rcases List.mem_append.mp hd with hd | hd
    · exact h.names d hd
    · rw [List.mem_singleton.mp hd]
      exact hname
  distinct := by
    refine List.pairwise_append.mpr ⟨h.distinct, List.pairwise_singleton _ _, fun d hd e he => ?_⟩
    rw [List.mem_singleton.mp he]
    exact hnew d hd
  opened := h.opened

theorem Resolves.create (h : Resolves env s)
    (hname : ∀ path, name = .file path → ∃ n, request = .file n ∧ env.resolve n = some path)
    (hnew : ∀ d ∈ s.databases, ∀ p q, d.name = .file p → name = .file q →
      env.isSame p q = false) (mode : OpenMode) (loaded : DatabaseOpenResponse.Result) :
    Resolves env (s.create request name mode loaded).2 := by
  have hregister := h.register hname hnew
  rw [Registry.create.eq_def]
  cases name with
  | mem n =>
    dsimp only
    split_ifs
    · exact h
    · exact hregister.modify _ fun _ => ⟨rfl, rfl⟩
  | file path =>
    obtain ⟨n, rfl, hresolve⟩ := hname path rfl
    have hopened : Resolves env { s.register (.file n) (.file path) with
        opened := s.opened ++ [(.file n, .file path)] } := by
      refine ⟨hregister.names, hregister.distinct, fun e he => ?_⟩
      rcases List.mem_append.mp he with he | he
      · exact h.opened e he
      · exact ⟨n, path, List.mem_singleton.mp he, hresolve⟩
    dsimp only
    split_ifs
    · exact hopened.modify _ fun _ => ⟨rfl, rfl⟩
    · exact hopened.close _

/-- An object that is found for a name is registered. Otherwise the name is registered by its
resolved path, which is none of those that are registered. -/
theorem lookup_eq_some {r : Option RegisteredDatabase × DatabaseName}
    (h : s.lookup env request = some r) :
    (∃ d ∈ s.databases, r = (some d, request) ∧ ∀ n, request = .file n →
      ∃ path, env.resolve n = some path ∧ ∃ p, d.name = .file p ∧ env.isSame path p = true) ∨
    r.1 = none ∧ ∀ path, r.2 = .file path → (∃ n, request = .file n ∧ env.resolve n = some path) ∧
      ∀ d ∈ s.databases, ∀ p, d.name = .file p → env.isSame path p = false := by
  cases request with
  | mem n =>
    obtain rfl := Option.some_inj.mp h
    cases hfind : s.databases.find? fun d => d.name = .mem n with
    | none => exact .inr ⟨rfl, fun _ => (nomatch ·)⟩
    | some d => exact .inl ⟨d, List.mem_of_find?_eq_some hfind, rfl, fun _ => (nomatch ·)⟩
  | file n =>
    obtain ⟨path, hpath, rfl⟩ := Option.map_eq_some_iff.mp h
    cases hfind : s.databases.find? (RegisteredDatabase.isFile env path) with
    | none =>
      refine .inr ⟨rfl, fun path' hpath' => ?_⟩
      obtain rfl : path = path' := DatabaseName.file.inj hpath'
      refine ⟨⟨n, rfl, hpath⟩, fun d hd p hp => ?_⟩
      have hnot := List.find?_eq_none.mp hfind d hd
      rw [RegisteredDatabase.isFile, hp] at hnot
      exact Bool.eq_false_iff.mpr hnot
    | some d =>
      refine .inl ⟨d, List.mem_of_find?_eq_some hfind, rfl, fun n' hn' => ?_⟩
      obtain rfl : n = n' := DatabaseName.file.inj hn'
      have hfile := List.find?_some hfind
      rw [RegisteredDatabase.isFile] at hfile
      cases hname : d.name with
      | mem m => rw [hname] at hfile; cases hfile
      | file p =>
        rw [hname] at hfile
        exact ⟨path, hpath, p, rfl, hfile⟩

theorem Resolves.isSame_eq_false (h : Resolves env s) (hcorrect : env.Correct)
    (hd : d ∈ s.databases) (he : e ∈ s.databases) (hne : d ≠ e) {p q : ℕ} (hp : d.name = .file p)
    (hq : e.name = .file q) : env.isSame p q = false := by
  have hsymm : Std.Symm fun a b : RegisteredDatabase => ∀ p q, a.name = .file p →
      b.name = .file q → env.isSame p q = false := by
    refine ⟨fun a b hab p q hp hq => ?_⟩
    exact Bool.eq_false_iff.mpr fun hpq =>
      Bool.eq_false_iff.mp (hab q p hq hp) (hcorrect.symm p q hpq)
  exact h.distinct.forall hd he hne p q hp hq

/-- The file that is closed to be created anew was the only one that is registered and the same as
the resolved path. -/
theorem Resolves.openDatabase (hcorrect : env.Correct) (h : Resolves env s)
    (hok : RecreatesByPath env s (.openDatabase request mode loaded)) :
    Resolves env (s.openDatabase env request mode loaded).2 := by
  rw [Registry.openDatabase]
  cases hlookup : s.lookup env request with
  | none => exact h
  | some r =>
    obtain ⟨o, name⟩ := r
    rcases lookup_eq_some hlookup with ⟨d, hd, hr, hfile⟩ | ⟨ho, hnew⟩
    · obtain ⟨rfl, rfl⟩ := Prod.mk.inj hr
      cases mode with
      | createAlways =>
        dsimp only
        split_ifs with huse
        · exact h
        have hpath : ∀ n, name = .file n → env.resolve n = some n := by
          rintro n rfl
          exact hok _ hlookup d rfl (Nat.eq_zero_of_not_pos huse)
        refine (h.close d.id).create (fun n hn => ⟨n, hn, hpath n hn⟩) (fun e he p q hp hq => ?_) _ _
        obtain ⟨he, hne⟩ := mem_close.mp he
        obtain ⟨path, hresolve, p', hp', hsame⟩ := hfile q hq
        obtain rfl := Option.some_inj.mp ((hpath q hq).symm.trans hresolve)
        have hdistinct := h.isSame_eq_false hcorrect he hd (fun hed => hne (congrArg _ hed)) hp hp'
        exact Bool.eq_false_iff.mpr fun hpq =>
          Bool.eq_false_iff.mp hdistinct (hcorrect.trans p q p' hpq hsame)
      | createFailIfExist => exact h
      | createIfNotExist => exact h.modify _ fun _ => ⟨rfl, rfl⟩
      | openFailIfNotExist => exact h.modify _ fun _ => ⟨rfl, rfl⟩
    · obtain rfl : o = none := ho
      refine h.create (fun path hpath => (hnew path hpath).1) (fun d hd p q hp hq => ?_) _ _
      exact Bool.eq_false_iff.mpr fun hpq =>
        Bool.eq_false_iff.mp ((hnew q hq).2 d hd p hp) (hcorrect.symm p q hpq)

/-- Releasing a database and running a task only change the object or close it. -/
theorem step_release {now : ℤ} (hstep : step env s (.release id now) = some s') :
    ∃ d ∈ s.databases, d.id = id ∧ 0 < d.useCount ∧ s.now ≤ now ∧ s' = s.release env d now := by
  rw [step] at hstep
  cases hfind : s.databases.find? fun d => d.id = id with
  | none => rw [hfind] at hstep; cases hstep
  | some d =>
    rw [hfind] at hstep
    dsimp only at hstep
    split_ifs at hstep with hguard
    have hid := List.find?_some hfind
    exact ⟨d, List.mem_of_find?_eq_some hfind, of_decide_eq_true hid, hguard.1, hguard.2,
      (Option.some_inj.mp hstep).symm⟩

theorem step_runTask (hstep : step env s .runTask = some s') :
    ∃ t packets, s.packets = t :: packets ∧ ∃ d ∈ s.databases, d.id = t.task.id ∧
      s' = if d.useCount = 0 ∧ d.delayedCloseAt = t.timePoint then
        { s with packets }.close d.id else { s with packets } := by
  rw [step] at hstep
  cases hpackets : s.packets with
  | nil => rw [hpackets] at hstep; cases hstep
  | cons t packets =>
    rw [hpackets] at hstep
    dsimp only at hstep
    cases hfind : s.databases.find? fun d => d.id = t.task.id with
    | none => rw [hfind] at hstep; cases hstep
    | some d =>
      rw [hfind] at hstep
      have hid := List.find?_some hfind
      exact ⟨t, packets, rfl, d, List.mem_of_find?_eq_some hfind, of_decide_eq_true hid,
        (Option.some_inj.mp hstep).symm⟩

theorem step_nextTask {now : ℤ} (hstep : step env s (.nextTask now) = some s') :
    s.now ≤ now ∧ (s.scheduler.postTask now = none ∧ s' = { s with now } ∨
      ∃ t scheduler, s.scheduler.postTask now = some (t, scheduler) ∧
        s' = { s with now, scheduler, packets := s.packets ++ [t] }) := by
  rw [step] at hstep
  split_ifs at hstep with hnow
  refine ⟨hnow, ?_⟩
  cases hpost : s.scheduler.postTask now with
  | none =>
    rw [hpost] at hstep
    exact .inl ⟨rfl, (Option.some_inj.mp hstep).symm⟩
  | some r =>
    rw [hpost] at hstep
    exact .inr ⟨r.1, r.2, rfl, (Option.some_inj.mp hstep).symm⟩

theorem Resolves.step (hcorrect : env.Correct) (h : Resolves env s)
    (hok : RecreatesByPath env s a) (hstep : Registry.step env s a = some s') :
    Resolves env s' := by
  cases a with
  | openDatabase request mode loaded =>
    obtain rfl := Option.some_inj.mp hstep
    exact h.openDatabase hcorrect hok
  | release id now =>
    obtain ⟨d, -, -, -, -, rfl⟩ := step_release hstep
    rw [Registry.release]
    split_ifs
    · have hmodify := h.modify d.id (f := fun e =>
        { e with useCount := 0, delayedCloseAt := now + env.closeDelay }) fun _ => ⟨rfl, rfl⟩
      exact ⟨hmodify.names, hmodify.distinct, hmodify.opened⟩
    · have hnow : Resolves env { s with now } := ⟨h.names, h.distinct, h.opened⟩
      exact hnow.close d.id
    · have hmodify := h.modify d.id (f := fun e => { e with useCount := e.useCount - 1 })
        fun _ => ⟨rfl, rfl⟩
      exact ⟨hmodify.names, hmodify.distinct, hmodify.opened⟩
  | nextTask now =>
    obtain ⟨-, ⟨-, rfl⟩ | ⟨t, scheduler, -, rfl⟩⟩ := step_nextTask hstep
    · exact ⟨h.names, h.distinct, h.opened⟩
    · exact ⟨h.names, h.distinct, h.opened⟩
  | runTask =>
    obtain ⟨t, packets, -, d, -, -, rfl⟩ := step_runTask hstep
    have hpackets : Resolves env { s with packets } := ⟨h.names, h.distinct, h.opened⟩
    split_ifs
    · exact hpackets.close d.id
    · exact hpackets

/-- The name of the request is opened as it is. -/
theorem opened_of_recreated {n : ℕ} (hlookup : s.lookup env (.file n) = some (some d, name))
    (huse : d.useCount = 0) :
    (.file n, .file n) ∈ (s.openDatabase env (.file n) .createAlways loaded).2.opened := by
  obtain ⟨d', -, hr, -⟩ | ⟨hnone, -⟩ := lookup_eq_some hlookup
  · obtain ⟨-, rfl⟩ := Prod.mk.inj hr
    rw [Registry.openDatabase, hlookup]
    dsimp only
    rw [if_neg (by omega), Registry.create]
    dsimp only
    split_ifs
    · exact List.mem_append_right _ (List.mem_singleton_self _)
    · exact List.mem_append_right _ (List.mem_singleton_self _)
  · cases hnone

theorem not_resolves_of_recreated (hok : ¬RecreatesByPath env s a)
    (hstep : step env s a = some s') : ¬Resolves env s' := by
  intro h
  refine hok ?_
  cases a with
  | openDatabase request mode loaded =>
    obtain rfl := Option.some_inj.mp hstep
    cases request with
    | mem n => cases mode <;> exact trivial
    | file n =>
      cases mode with
      | createAlways =>
        rintro ⟨o, name⟩ hlookup d rfl huse
        obtain ⟨n', path, hnames, hresolve⟩ := h.opened _ (opened_of_recreated hlookup huse)
        obtain ⟨hn, hpath⟩ := Prod.mk.inj hnames
        rw [DatabaseName.file.inj hn]
        rw [← DatabaseName.file.inj hpath, DatabaseName.file.inj hn] at hresolve
        exact hresolve
      | createFailIfExist | createIfNotExist | openFailIfNotExist => exact trivial
  | release | nextTask | runTask => exact trivial

/-- Only resolved paths are registered and opened as long as no registered file that nobody uses is
created anew by another name than its resolved path. -/
theorem resolves_of_recreatesByPath (hcorrect : env.Correct) {now : ℤ} {as : List Action}
    (h : GuardedRun (step env) (RecreatesByPath env) (initial now) as s) :
    Resolves env s ∧ ∀ a s', step env s a = some s' →
      (Resolves env s' ↔ RecreatesByPath env s a) :=
  h.exact (I := fun _ s => Resolves env s) (P := fun _ s => Resolves env s)
    ⟨fun _ => (nomatch ·), .nil, fun _ => (nomatch ·)⟩
    (fun _ _ _ _ hinv => hinv.step hcorrect) (fun _ _ hinv => hinv)
    fun _ _ _ _ _ => not_resolves_of_recreated

/-- Names below `10` are relative, and the path of a name has the number that is greater by `10`. -/
def relativeNames (closeDelay : ℤ) : Environment where
  resolve name := some (if name < 10 then name + 10 else name)
  isSame p q := p = q
  closeDelay

theorem relativeNames_correct (closeDelay : ℤ) : (relativeNames closeDelay).Correct where
  refl _ := decide_eq_true rfl
  symm _ _ h := decide_eq_true (of_decide_eq_true h).symm
  trans _ _ _ h₁ h₂ := decide_eq_true ((of_decide_eq_true h₁).trans (of_decide_eq_true h₂))

/-- A file is opened by a relative name, and created anew by its path while it waits to be
closed. -/
theorem resolves_of_recreatesByPath_path : ∃ as s,
    GuardedRun (step (relativeNames 5)) (RecreatesByPath (relativeNames 5)) (initial 0) as s ∧
      Resolves (relativeNames 5) s ∧ s.databases.map RegisteredDatabase.name = [.file 13] := by
  let as : List Action := [.openDatabase (.file 3) .createIfNotExist .success, .release 0 1,
    .openDatabase (.file 13) .createAlways .success]
  have hplay : (GuardedRun.play (step (relativeNames 5)) (RecreatesByPath (relativeNames 5)) as
      (initial 0)).map (fun s => decide (s.databases.map RegisteredDatabase.name = [.file 13])) =
      some true := by
    decide +kernel
  obtain ⟨s, hs, hplay⟩ := Option.map_eq_some_iff.mp hplay
  have hrun := GuardedRun.of_play hs
  exact ⟨as, s, hrun, (resolves_of_recreatesByPath (relativeNames_correct 5) hrun).1,
    of_decide_eq_true hplay⟩

/-- A file is created anew by its relative name while it waits to be closed. That name is opened
and registered. -/
theorem not_resolves_of_relative : (relativeNames 5).Correct ∧ ∃ as s,
    GuardedRun (step (relativeNames 5)) (fun _ _ => True) (initial 0) as s ∧
      s.databases.map RegisteredDatabase.name = [.file 3] ∧
      s.opened = [(.file 3, .file 13), (.file 3, .file 3)] ∧
      (relativeNames 5).resolve 3 = some 13 ∧ ¬Resolves (relativeNames 5) s := by
  let as : List Action := [.openDatabase (.file 3) .createIfNotExist .success, .release 0 1,
    .openDatabase (.file 3) .createAlways .success]
  have hplay : (GuardedRun.play (step (relativeNames 5)) (fun _ _ => True) as
      (initial 0)).map (fun s => decide (s.databases.map RegisteredDatabase.name = [.file 3] ∧
        s.opened = [(.file 3, .file 13), (.file 3, .file 3)])) = some true := by
    decide +kernel
  obtain ⟨s, hs, hplay⟩ := Option.map_eq_some_iff.mp hplay
  obtain ⟨hnames, hopened⟩ := of_decide_eq_true hplay
  refine ⟨relativeNames_correct 5, as, s, GuardedRun.of_play hs, hnames, hopened, rfl, fun h => ?_⟩
  obtain ⟨name, path, hentry, hresolve⟩ := h.opened (.file 3, .file 3)
    (by rw [hopened]; exact List.mem_cons_of_mem _ (List.mem_singleton_self _))
  obtain ⟨hname, hpath⟩ := Prod.mk.inj hentry
  rw [← DatabaseName.file.inj hname, ← DatabaseName.file.inj hpath] at hresolve
  cases hresolve

end Registry

end BlobsDb
