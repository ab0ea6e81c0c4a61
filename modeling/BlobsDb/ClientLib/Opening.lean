import BlobsDb.ClientLib.Committing
import BlobsDb.ForMathlib.FromChars

/-!
# Opening a database by a connection string

A connection string names a server, possibly with a port, and a database on it:
`<host>[:<port>]/<dbName>`. The port is read by `std::from_chars` into a variable that holds the
default port, and all that is looked at afterwards is how far the text was read. A port that is not
written down, as in `localhost:/test.db`, is read to its end, and so is a number that is not in the
range of `int`; the connection is made to the default port then.
-/

namespace BlobsDb

open FromChars (Numeral fromChars fromChars_of_numeral)

namespace ClientLib

/-- `Network::Connection`: a server the client is or was connected to. -/
structure ServerConnection where
  host : List Char
  port : ℤ
  isConnected : Bool
  useCount : ℕ
  deriving DecidableEq

/-- `Network`: the servers by their connection ids. -/
abbrev Network := List ServerConnection

/-- What is thrown before a server is asked. -/
inductive OpenException
  | noDatabaseName
  | malformedPort (portString : List Char)
  | portTooLarge (host : List Char) (port : ℤ)
  | tooManyConnections
  deriving DecidableEq

/-- The text of the exception. -/
def OpenException.text : OpenException → String
  | noDatabaseName => "No database name defined in connection string!"
  | malformedPort portString =>
    "Failed to parse '" ++ String.ofList portString ++ "' as port number!"
  | portTooLarge host port =>
    "Specified connection port too large in '" ++ String.ofList host ++ ":" ++ toString port ++ "'"
  | tooManyConnections => "Maximum number of server connections reached"

/-- The message that asks a server to open a database. -/
structure OpenRequest where
  connectionId : ConnectionId
  databaseName : List Char
  deriving DecidableEq

/-- `Network::Get`: the connection to a server, which is opened unless there is one. -/
def Network.get (host : List Char) (port : ℤ) (net : Network) :
    Except OpenException (ConnectionId × Network) :=
  if 65535 < port then .error (.portTooLarge host port)
  else
    match net.findIdx? fun e => e.host = host ∧ e.port = port with
    | some id =>
      .ok (id, net.modify id fun e => { e with isConnected := true, useCount := e.useCount + 1 })
    | none =>
      if net.length = 65535 - 1 then .error .tooManyConnections
      else .ok (net.length, net ++ [⟨host, port, true, 1⟩])

/-- `Database::Open`, up to the request to the server. -/
def openDatabase (host databaseName : List Char) (port : ℤ) (net : Network) :
    Except OpenException (OpenRequest × Network) :=
  (net.get host port).map fun r => (⟨r.1, databaseName⟩, r.2)

/-- The default port. -/
def defaultPort : ℤ := 8108

/-- The smallest and the largest `int`. -/
def minInt : ℤ := -2 ^ 31
def maxInt : ℤ := 2 ^ 31 - 1

/-- `Database::Open` with a connection string. -/
def openConnectionString (connectionString : List Char) (net : Network) :
    Except OpenException (OpenRequest × Network) :=
  match connectionString.idxOf? '/' with
  | none => .error .noDatabaseName
  | some slashPos =>
    let hostName := connectionString.take slashPos
    let databaseName := connectionString.drop (slashPos + 1)
    match hostName.idxOf? ':' with
    | none => openDatabase hostName databaseName defaultPort net
    | some colonPos =>
      let portString := hostName.drop (colonPos + 1)
      let result := fromChars minInt maxInt portString defaultPort
      if result.2 ≠ [] then .error (.malformedPort portString)
      else openDatabase (hostName.take colonPos) databaseName result.1 net

/-! ### Connections -/

variable {host name p h s : List Char} {port n : ℤ} {net net' : Network} {id : ConnectionId}

/-- A connection is to the server that was asked for. -/
theorem Network.get_spec (h : net.get host port = .ok (id, net')) :
    ∃ e, net'[id]? = some e ∧ e.host = host ∧ e.port = port ∧ e.isConnected = true := by
  unfold Network.get at h
  split at h
  · cases h
  split at h
  · next hi =>
    cases h
    obtain ⟨hlt, hfound, -⟩ := List.findIdx?_eq_some_iff_getElem.mp hi
    rw [decide_eq_true_eq] at hfound
    refine ⟨{ net[id] with isConnected := true, useCount := net[id].useCount + 1 }, ?_,
      hfound.1, hfound.2, rfl⟩
    rw [List.getElem?_modify_eq, List.getElem?_eq_getElem hlt]
    rfl
  · split at h
    · cases h
    · cases h
      exact ⟨_, List.getElem?_concat_length, rfl, rfl, rfl⟩

theorem openDatabase_eq_ok {r : OpenRequest × Network}
    (h : openDatabase host name n net = .ok r) :
    r.1.databaseName = name ∧ net.get host n = .ok (r.1.connectionId, r.2) := by
  unfold openDatabase at h
  cases hget : net.get host n with
  | error e =>
    rw [hget] at h
    cases h
  | ok got =>
    rw [hget] at h
    cases h
    exact ⟨rfl, rfl⟩

theorem openDatabase_eq_error {e : OpenException} (h : net.get host n = .error e) :
    openDatabase host name n net = .error e := by
  rw [openDatabase, h]
  rfl

theorem error_of_openDatabase {e : OpenException} (h : openDatabase host name n net = .error e) :
    net.get host n = .error e := by
  cases hget : net.get host n with
  | error e' =>
    rw [openDatabase_eq_error hget] at h
    rw [Except.error.inj h]
  | ok got =>
    rw [openDatabase, hget] at h
    cases h

/-- The same request cannot be for two ports. -/
theorem openDatabase_inj {r : OpenRequest × Network} {m : ℤ}
    (h : openDatabase host name n net = .ok r) (h' : openDatabase host name m net = .ok r) :
    n = m := by
  obtain ⟨e, he, -, hn, -⟩ := Network.get_spec (openDatabase_eq_ok h).2
  obtain ⟨e', he', -, hm, -⟩ := Network.get_spec (openDatabase_eq_ok h').2
  rw [he] at he'
  rw [← hn, ← hm, Option.some.inj he']

/-! ### Connection strings -/

/-- A text is cut at the first place where a character is found. -/
theorem idxOf?_append_cons {c : Char} {t t' : List Char} (hc : c ∉ t) :
    (t ++ c :: t').idxOf? c = some t.length := by
  induction t with
  | nil => simp [List.idxOf?_cons]
  | cons a t ih =>
    obtain ⟨hne, hc⟩ := not_or.mp (fun h => hc (List.mem_cons.mpr h))
    rw [List.cons_append, List.idxOf?_cons, if_neg (by simpa using Ne.symm hne), ih hc]
    rfl

theorem drop_append_cons {c : Char} {t t' : List Char} :
    (t ++ c :: t').drop (t.length + 1) = t' := by
  rw [List.append_cons, List.drop_left' (by simp)]

/-- Without a port the default port is used. -/
theorem openConnectionString_of_host (hslash : '/' ∉ h) (hcolon : ':' ∉ h) :
    openConnectionString (h ++ '/' :: name) net = openDatabase h name defaultPort net := by
  unfold openConnectionString
  rw [idxOf?_append_cons hslash]
  simp only [List.take_left, List.idxOf?_eq_none_iff.mpr hcolon, drop_append_cons]

/-- With a port it depends on how the port is read. -/
theorem openConnectionString_of_port (hslash : '/' ∉ host ++ ':' :: p) (hcolon : ':' ∉ host) :
    openConnectionString (host ++ ':' :: p ++ '/' :: name) net =
      if (fromChars minInt maxInt p defaultPort).2 ≠ [] then .error (.malformedPort p)
      else openDatabase host name (fromChars minInt maxInt p defaultPort).1 net := by
  unfold openConnectionString
  rw [idxOf?_append_cons hslash]
  simp only [List.take_left, idxOf?_append_cons hcolon, drop_append_cons]

/-- A port that is a number of the right size is the one that is used. -/
theorem openConnectionString_of_numeral (hslash : '/' ∉ host ++ ':' :: p) (hcolon : ':' ∉ host)
    (hp : Numeral p n) (hn : minInt ≤ n ∧ n ≤ maxInt) :
    openConnectionString (host ++ ':' :: p ++ '/' :: name) net = openDatabase host name n net := by
  rw [openConnectionString_of_port hslash hcolon, fromChars_of_numeral hp, if_pos hn]
  exact if_neg (by simp)

/-- A port that is neither a number nor empty is refused. -/
theorem openConnectionString_of_malformed (hslash : '/' ∉ host ++ ':' :: p) (hcolon : ':' ∉ host)
    (hne : p ≠ []) (hp : ∀ n, ¬Numeral p n) :
    openConnectionString (host ++ ':' :: p ++ '/' :: name) net = .error (.malformedPort p) := by
  rw [openConnectionString_of_port hslash hcolon, if_pos]
  rw [Ne, FromChars.rest_eq_nil_iff]
  rintro (hnil | ⟨n, hn⟩)
  · exact hne hnil
  · exact hp n hn

/-- The text of a port that the conversion can tell from one that is not there: it is not empty,
and it is not a number that `int` does not have. -/
def PortFits (p : List Char) : Prop :=
  p ≠ [] ∧ ∀ n, Numeral p n → minInt ≤ n ∧ n ≤ maxInt

/-- Where the text does not fit, the default port is used. -/
theorem openConnectionString_of_not_portFits (hslash : '/' ∉ host ++ ':' :: p)
    (hcolon : ':' ∉ host) (hp : ¬PortFits p) :
    openConnectionString (host ++ ':' :: p ++ '/' :: name) net =
      openDatabase host name defaultPort net := by
  rw [openConnectionString_of_port hslash hcolon]
  by_cases hnil : p = []
  · rw [hnil, FromChars.fromChars_nil]
    exact if_neg (by simp)
  · obtain ⟨n, hn, hrange⟩ : ∃ n, Numeral p n ∧ ¬(minInt ≤ n ∧ n ≤ maxInt) := by
      by_contra hfits
      exact hp ⟨hnil, fun n hn => by_contra fun hrange => hfits ⟨n, hn, hrange⟩⟩
    rw [fromChars_of_numeral hn, if_neg hrange]
    exact if_neg (by simp)

/-- A connection string is taken at its word: what stands before the first slash is the server,
with the default port if there is no colon in it; and if there is one, the number after it is the
port that is used, or nothing is opened. -/
def OpensAsWritten (s : List Char) (net : Network) : Prop :=
  ∀ h name, s = h ++ '/' :: name → '/' ∉ h →
    (':' ∉ h → openConnectionString s net = openDatabase h name defaultPort net) ∧
    ∀ host p, h = host ++ ':' :: p → ':' ∉ host →
      (∃ e, openConnectionString s net = .error e) ∨
      ∃ n, Numeral p n ∧ openConnectionString s net = openDatabase host name n net

/-- A connection string is taken at its word exactly if the text of its port fits, unless there can
be no connection to the server at the default port anyway. -/
theorem opensAsWritten_iff :
    OpensAsWritten s net ↔
      ∀ host p name, s = host ++ ':' :: p ++ '/' :: name → '/' ∉ host ++ ':' :: p → ':' ∉ host →
        PortFits p ∨ ∃ e, net.get host defaultPort = .error e := by
  constructor
  · rintro hopens host p name rfl hslash hcolon
    by_contra hbad
    obtain ⟨hfits, hconnects⟩ := not_or.mp hbad
    have hdefault : openConnectionString (host ++ ':' :: p ++ '/' :: name) net =
        openDatabase host name defaultPort net :=
      openConnectionString_of_not_portFits hslash hcolon hfits
    obtain ⟨r, hr⟩ : ∃ r, openDatabase host name defaultPort net = .ok r := by
      cases hr : openDatabase host name defaultPort net with
      | error e => exact absurd ⟨e, error_of_openDatabase hr⟩ hconnects
      | ok r => exact ⟨r, rfl⟩
    rcases (hopens _ name rfl hslash).2 host p rfl hcolon with ⟨e, he⟩ | ⟨n, hn, heq⟩
    · rw [hdefault, hr] at he
      cases he
    · -- the number could only be the default port, which does fit
      have hport : n = defaultPort := openDatabase_inj (heq.symm.trans (hdefault.trans hr)) hr
      refine hfits ⟨?_, fun m hm => ?_⟩
      · rintro rfl
        cases hn with
        | nonneg hne => exact hne rfl
      · rw [hm.unique hn, hport]
        decide
  · rintro hfits h name rfl hslash
    refine ⟨fun hcolon => openConnectionString_of_host hslash hcolon, ?_⟩
    rintro host p rfl hcolon
    by_cases hp : PortFits p
    · by_cases hnum : ∃ n, Numeral p n
      · obtain ⟨n, hn⟩ := hnum
        exact Or.inr ⟨n, hn, openConnectionString_of_numeral hslash hcolon hn (hp.2 n hn)⟩
      · exact Or.inl ⟨_, openConnectionString_of_malformed hslash hcolon hp.1
          (not_exists.mp hnum)⟩
    · obtain ⟨e, he⟩ := (hfits host p name rfl hslash hcolon).resolve_left hp
      rw [openConnectionString_of_not_portFits hslash hcolon hp]
      exact Or.inl ⟨e, openDatabase_eq_error he⟩

/-- Without a number after the colon, as in `localhost:/test.db`, the default port is used. -/
theorem not_opensAsWritten_of_empty_port :
    ¬OpensAsWritten ['l', 'o', 'c', 'a', 'l', 'h', 'o', 's', 't', ':', '/',
      't', 'e', 's', 't', '.', 'd', 'b'] [] := by
  intro hopens
  rcases (hopens ['l', 'o', 'c', 'a', 'l', 'h', 'o', 's', 't', ':']
    ['t', 'e', 's', 't', '.', 'd', 'b'] rfl (by decide)).2
    ['l', 'o', 'c', 'a', 'l', 'h', 'o', 's', 't'] [] rfl (by decide) with ⟨e, he⟩ | ⟨n, hn, -⟩
  · have hopened : openConnectionString ['l', 'o', 'c', 'a', 'l', 'h', 'o', 's', 't', ':', '/',
        't', 'e', 's', 't', '.', 'd', 'b'] [] =
        .ok (⟨0, ['t', 'e', 's', 't', '.', 'd', 'b']⟩,
          [⟨['l', 'o', 'c', 'a', 'l', 'h', 'o', 's', 't'], 8108, true, 1⟩]) := rfl
    rw [hopened] at he
    cases he
  · cases hn with
    | nonneg hne => exact hne rfl

end ClientLib

end BlobsDb
