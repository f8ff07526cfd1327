import Temnion.Library.Lines

/-
This file writes the settings of a connection as a URI and says which settings are read back from it.
-/

namespace Temnion.Adapter

open Text

/-- The settings of a connection to a database. -/
structure ConnectionConfig where
  host : Text
  port : UInt16
  database : Text
  username : Text
  authToken : Option Text
  deriving DecidableEq

def numberErrorText : NumberError → Text
  | .empty => "cannot parse integer from empty string".toList
  | .invalidDigit => "invalid digit found in string".toList
  | .overflow => "number too large to fit in target type".toList

namespace ConnectionConfig

def default : ConnectionConfig where
  host := "127.0.0.1".toList
  port := 9180
  database := "temnion_default".toList
  username := "temnion_admin".toList
  authToken := none

def scheme : Text := "temnion://".toList

/-- The user before the host. -/
def userPart (user : Text) : Text := if user ≠ [] then user ++ ['@'] else []

/-- The credentials before the host. An empty password is left out. -/
def authPart (user : Text) : Option Text → Text
  | some pass => if pass ≠ [] then user ++ ':' :: (pass ++ ['@']) else userPart user
  | none => userPart user

def toUri (config : ConnectionConfig) : Text :=
  scheme ++ (authPart config.username config.authToken ++
    (config.host ++ ':' :: (decimal config.port.toNat ++ '/' :: config.database)))

/-- The database behind the first slash. -/
def withDatabase (config : ConnectionConfig) : Option Text → ConnectionConfig
  | some db => if trim db ≠ [] then { config with database := trim db } else config
  | none => config

/-- The credentials before the first at sign. -/
def withCredentials (config : ConnectionConfig) : Option Text → ConnectionConfig
  | some userPass =>
      match splitOnce [':'] userPass with
      | some (user, pass) =>
          { config with username := user, authToken := if pass ≠ [] then some pass else config.authToken }
      | none => if userPass ≠ [] then { config with username := userPass } else config
  | none => config

/-- The host and the port around the first colon. -/
def withAddress (config : ConnectionConfig) (hostPort : Text) : Except Text ConnectionConfig :=
  match splitOnce [':'] hostPort with
  | some (h, p) =>
      match parseUnsigned (2 ^ 16) (trim p) with
      | .ok port =>
          .ok { config with host := if trim h ≠ [] then trim h else config.host, port := UInt16.ofNat port }
      | .error error => .error ("Invalid port number '".toList ++ p ++ "': ".toList ++ numberErrorText error)
  | none => .ok (if hostPort ≠ [] then { config with host := hostPort } else config)

/-- The parts before and behind the first separator. The second part is missing without a separator. -/
def pathParts (text : Text) : Text × Option Text :=
  match splitOnce ['/'] text with
  | some (front, back) => (front, some back)
  | none => (text, none)

def authParts (text : Text) : Option Text × Text :=
  match splitOnce ['@'] text with
  | some (userPass, hostPort) => (some userPass, hostPort)
  | none => (none, text)

/-- The settings that a URI without its scheme spells. -/
def ofParts (stripped : Text) : Except Text ConnectionConfig :=
  let (hostAuth, db) := pathParts stripped
  let config := default.withDatabase db
  let (auth, hostPort) := authParts hostAuth
  (config.withCredentials auth).withAddress hostPort

def fromUri (raw : Text) : Except Text ConnectionConfig :=
  ofParts ((stripPrefix (trim raw) scheme).getD (trim raw))

/-- Every setting is there, nothing has white space, and the host has no separator. -/
structure Proper (config : ConnectionConfig) : Prop where
  host : config.host ≠ []
  database : config.database ≠ []
  username : config.username ≠ []
  authToken : ∀ pass ∈ config.authToken, pass ≠ []
  plainHost : ':' ∉ config.host ∧ '/' ∉ config.host ∧ '@' ∉ config.host
  unspaced : ∀ character ∈ config.host ++ config.database ++ config.username ++ config.authToken.getD [],
    isWhitespace character = false

/-- The credentials hold no separator that is searched for before they end. -/
def Separable (config : ConnectionConfig) : Prop :=
  (':' ∉ config.username ∧ '/' ∉ config.username ∧ '@' ∉ config.username) ∧
    ∀ pass ∈ config.authToken, '/' ∉ pass ∧ '@' ∉ pass

/-- The credentials without the at sign. -/
def credentials (config : ConnectionConfig) : Text :=
  config.username ++ (config.authToken.elim [] fun pass => ':' :: pass)

/-- The host and the port as they are written. -/
def address (config : ConnectionConfig) : Text := config.host ++ ':' :: decimal config.port.toNat

section Writing

variable {config : ConnectionConfig}

theorem authPart_eq (proper : config.Proper) :
    authPart config.username config.authToken = config.credentials ++ ['@'] := by
  unfold credentials
  cases token : config.authToken with
  | none =>
      rw [authPart, userPart, if_pos proper.username, Option.elim_none, List.append_nil]
  | some pass =>
      rw [authPart, if_pos (proper.authToken pass token), Option.elim_some, List.append_assoc]
      rfl

theorem toUri_eq (proper : config.Proper) : config.toUri =
    scheme ++ (config.credentials ++ '@' :: (config.address ++ '/' :: config.database)) := by
  rw [toUri, authPart_eq proper, address, List.append_assoc config.credentials, List.singleton_append,
    List.append_assoc config.host, List.cons_append]

theorem decimal_unspaced (number : Nat) : ∀ character ∈ decimal number, isWhitespace character = false :=
  fun _ member => isWhitespace_of_digit (isDigit_of_mem_decimal member)

/-- What stands behind the scheme has no white space. -/
theorem parts_unspaced (proper : config.Proper) :
    ∀ character ∈ config.credentials ++ '@' :: (config.address ++ '/' :: config.database),
      isWhitespace character = false := by
  obtain ⟨others, token⟩ := List.forall_mem_append.mp proper.unspaced
  obtain ⟨others, username⟩ := List.forall_mem_append.mp others
  obtain ⟨host, database⟩ := List.forall_mem_append.mp others
  have credentials : ∀ character ∈ config.credentials, isWhitespace character = false := by
    unfold ConnectionConfig.credentials
    refine List.forall_mem_append.mpr ⟨username, ?_⟩
    cases present : config.authToken with
    | none => exact fun _ absent => absurd absent List.not_mem_nil
    | some pass =>
        rw [present] at token
        exact List.forall_mem_cons.mpr ⟨rfl, token⟩
  have address : ∀ character ∈ config.address, isWhitespace character = false :=
    List.forall_mem_append.mpr ⟨host, List.forall_mem_cons.mpr ⟨rfl, decimal_unspaced _⟩⟩
  exact List.forall_mem_append.mpr ⟨credentials, List.forall_mem_cons.mpr ⟨rfl,
    List.forall_mem_append.mpr ⟨address, List.forall_mem_cons.mpr ⟨rfl, database⟩⟩⟩⟩

theorem fromUri_toUri (proper : config.Proper) : fromUri config.toUri =
    ofParts (config.credentials ++ '@' :: (config.address ++ '/' :: config.database)) := by
  have plain : ∀ character ∈ scheme, isWhitespace character = false := unspaced_of_all (by decide)
  have whole : trim config.toUri = config.toUri := by
    apply trim_unspaced
    rw [toUri_eq proper]
    exact List.forall_mem_append.mpr ⟨plain, parts_unspaced proper⟩
  rw [fromUri, whole, toUri_eq proper, stripPrefix_append, Option.getD_some]

end Writing

section Reading

variable {config reached : ConnectionConfig}

theorem withCredentials_database (config : ConnectionConfig) (auth : Option Text) :
    (config.withCredentials auth).database = config.database := by
  cases auth with
  | none => rfl
  | some userPass =>
      rw [withCredentials]
      split
      · rfl
      · split <;> rfl

/-- Only the host and the port are read from the address. -/
theorem withAddress_keeps {hostPort : Text} (read : config.withAddress hostPort = .ok reached) :
    reached.database = config.database ∧ reached.username = config.username ∧ reached.authToken = config.authToken := by
  unfold withAddress at read
  split at read
  · split at read
    · rw [← Except.ok.inj read]
      exact ⟨rfl, rfl, rfl⟩
    · contradiction
  · rw [← Except.ok.inj read]
    split <;> exact ⟨rfl, rfl, rfl⟩

/-- The host and the port are read around the first colon. -/
theorem withAddress_ok {host behind : Text} {port : Nat} (plain : ':' ∉ host) (spaced : trim host = host) (some' : host ≠ [])
    (number : parseUnsigned (2 ^ 16) (trim behind) = .ok port) :
    config.withAddress (host ++ ':' :: behind) = .ok { config with host := host, port := UInt16.ofNat port } := by
  rw [withAddress, splitOnce_append plain]
  dsimp only
  rw [number, spaced, if_pos some']

/-- Credentials with a slash end the host, and the database becomes too long. -/
theorem ofParts_slash (proper : config.Proper) (early : '/' ∈ config.credentials) :
    ofParts (config.credentials ++ '@' :: (config.address ++ '/' :: config.database)) ≠ .ok config := by
  obtain ⟨front, more, same, absent⟩ := List.eq_append_cons_of_mem early
  have plain := parts_unspaced proper
  rw [same, List.append_assoc, List.cons_append] at plain ⊢
  intro read
  unfold ofParts pathParts at read
  rw [splitOnce_append absent] at read
  dsimp only at read
  have kept := (withAddress_keeps read).1
  have spaced := trim_unspaced fun character member => plain character (List.mem_append_right _ (List.mem_cons_of_mem _ member))
  rw [withCredentials_database, withDatabase, spaced, if_pos (List.append_ne_nil_of_right_ne_nil _ (List.cons_ne_nil _ _))]
    at kept
  have longer := congrArg List.length kept
  simp only [List.length_append, List.length_cons] at longer
  omega

theorem address_plain (proper : config.Proper) : '/' ∉ config.address ∧ '@' ∉ config.address := by
  obtain ⟨_, slash, mark⟩ := proper.plainHost
  have digits : ∀ {other : Char}, other.isDigit = false → other ≠ ':' → other ∉ ':' :: decimal config.port.toNat :=
    fun unlike colon => List.not_mem_cons_of_ne_of_not_mem colon (not_mem_decimal unlike)
  exact ⟨List.not_mem_append slash (digits rfl (by decide)), List.not_mem_append mark (digits rfl (by decide))⟩

/-- Without an early slash the database is read as it was written. -/
theorem ofParts_plain (proper : config.Proper) (late : '/' ∉ config.credentials) :
    ofParts (config.credentials ++ '@' :: (config.address ++ '/' :: config.database)) =
      let parts := authParts (config.credentials ++ '@' :: config.address)
      ({ default with database := config.database }.withCredentials parts.1).withAddress parts.2 := by
  have front : '/' ∉ config.credentials ++ '@' :: config.address :=
    List.not_mem_append late (List.not_mem_cons_of_ne_of_not_mem (by decide) (address_plain proper).1)
  have spaced : trim config.database = config.database := by
    apply trim_unspaced
    intro character member
    apply proper.unspaced
    exact List.mem_append_left _ (List.mem_append_left _ (List.mem_append_right _ member))
  rw [← List.cons_append, ← List.append_assoc, ofParts, pathParts, splitOnce_append front]
  dsimp only
  rw [withDatabase, spaced, if_pos proper.database]

theorem ofNat_port (port : UInt16) : parseUnsigned (2 ^ 16) (trim (decimal port.toNat)) = .ok port.toNat := by
  rw [trim_unspaced (decimal_unspaced _), parseUnsigned_decimal port.toNat_lt]

/-- Credentials with an at sign end too early, and the host becomes too long or the port is no number. -/
theorem ofParts_mark (proper : config.Proper) (late : '/' ∉ config.credentials) (early : '@' ∈ config.credentials) :
    ofParts (config.credentials ++ '@' :: (config.address ++ '/' :: config.database)) ≠ .ok config := by
  obtain ⟨front, more, same, absent⟩ := List.eq_append_cons_of_mem early
  have plain : ∀ character ∈ more ++ '@' :: config.address, isWhitespace character = false := by
    intro character member
    apply parts_unspaced proper
    rw [same]
    simp only [List.mem_append, List.mem_cons] at member ⊢
    tauto
  rw [ofParts_plain proper late, same, List.append_assoc, List.cons_append, authParts, splitOnce_append absent]
  dsimp only
  intro read
  by_cases colon : ':' ∈ more
  · obtain ⟨host, behind, same', absent'⟩ := List.eq_append_cons_of_mem colon
    rw [same', List.append_assoc, List.cons_append] at plain read
    rw [withAddress, splitOnce_append absent'] at read
    dsimp only at read
    have spaced := trim_unspaced fun character member => plain character (List.mem_append_right _ (List.mem_cons_of_mem _ member))
    rw [spaced] at read
    cases number : parseUnsigned (2 ^ 16) (behind ++ '@' :: config.address) with
    | error error =>
        rw [number] at read
        contradiction
    | ok port =>
        have digit := parseUnsigned_plain number '@' (List.mem_append_right _ List.mem_cons_self)
        exact absurd digit (by decide)
  · have colon' : ':' ∉ more ++ '@' :: config.host :=
      List.not_mem_append colon (List.not_mem_cons_of_ne_of_not_mem (by decide) proper.plainHost.1)
    rw [address, ← List.cons_append, ← List.append_assoc] at plain read
    have spaced := trim_unspaced fun character member => plain character (List.mem_append_left _ member)
    rw [withAddress_ok colon' spaced (List.append_ne_nil_of_right_ne_nil _ (List.cons_ne_nil _ _)) (ofNat_port _)] at read
    have longer := congrArg (fun read => read.host.length) (Except.ok.inj read)
    simp only [List.length_append, List.length_cons] at longer
    omega

/-- Without an early separator everything but the credentials is read as it was written. -/
theorem ofParts_late (proper : config.Proper) (late : '/' ∉ config.credentials) (late' : '@' ∉ config.credentials) :
    ofParts (config.credentials ++ '@' :: (config.address ++ '/' :: config.database)) =
      let read := default.withCredentials (some config.credentials)
      .ok ⟨config.host, config.port, config.database, read.username, read.authToken⟩ := by
  have spaced : trim config.host = config.host := by
    apply trim_unspaced
    intro character member
    apply proper.unspaced
    exact List.mem_append_left _ (List.mem_append_left _ (List.mem_append_left _ member))
  rw [ofParts_plain proper late, authParts, splitOnce_append late']
  dsimp only
  rw [address, withAddress_ok proper.plainHost.1 spaced proper.host (ofNat_port _), UInt16.ofNat_toNat]
  congr 1
  rw [withCredentials, withCredentials]
  split
  · rfl
  · split <;> rfl

/-- The credentials are read as they were written if and only if the user has no colon. -/
theorem withCredentials_iff (proper : config.Proper) :
    ((default.withCredentials (some config.credentials)).username = config.username ∧
      (default.withCredentials (some config.credentials)).authToken = config.authToken) ↔ ':' ∉ config.username := by
  constructor
  · rintro ⟨same, _⟩ early
    obtain ⟨front, more, spelled, absent⟩ := List.eq_append_cons_of_mem early
    rw [withCredentials, credentials, spelled, List.append_assoc, List.cons_append, splitOnce_append absent] at same
    have shorter := congrArg List.length same
    simp only [List.length_append, List.length_cons] at shorter
    omega
  · intro absent
    unfold credentials
    cases token : config.authToken with
    | none =>
        rw [Option.elim_none, List.append_nil, withCredentials, splitOnce_eq_none absent]
        dsimp only
        rw [if_pos proper.username]
        exact ⟨rfl, rfl⟩
    | some pass =>
        rw [Option.elim_some, withCredentials, splitOnce_append absent]
        dsimp only
        rw [if_pos (proper.authToken pass token)]
        exact ⟨rfl, rfl⟩

end Reading

/-- No separator is found before the credentials end. -/
theorem separable_iff (config : ConnectionConfig) : config.Separable ↔
    ':' ∉ config.username ∧ '/' ∉ config.credentials ∧ '@' ∉ config.credentials := by
  unfold Separable credentials
  cases config.authToken with
  | none => simp
  | some pass =>
      simp
      tauto

/-- A URI is read back to the settings that it was written for if and only if no separator is found before the
credentials end. -/
theorem uri_round_trip_iff {config : ConnectionConfig} (proper : config.Proper) :
    fromUri config.toUri = .ok config ↔ config.Separable := by
  rw [fromUri_toUri proper, separable_iff]
  by_cases slash : '/' ∈ config.credentials
  · exact iff_of_false (ofParts_slash proper slash) fun separable => separable.2.1 slash
  by_cases mark : '@' ∈ config.credentials
  · exact iff_of_false (ofParts_mark proper slash mark) fun separable => separable.2.2 mark
  rw [ofParts_late proper slash mark, and_iff_left ⟨slash, mark⟩, ← withCredentials_iff proper]
  dsimp only
  constructor
  · intro read
    have same := Except.ok.inj read
    have username := congrArg ConnectionConfig.username same
    have authToken := congrArg ConnectionConfig.authToken same
    exact ⟨username, authToken⟩
  · rintro ⟨username, authToken⟩
    rw [username, authToken]

/-- The settings of a user with a password. -/
def withPassword (pass : Text) : ConnectionConfig :=
  ⟨"db.local".toList, 9199, "production".toList, "admin".toList, some pass⟩

/-- A password with colons is read back. -/
theorem uri_round_trip_iff_sample :
    fromUri (withPassword "s:3".toList).toUri = .ok (withPassword "s:3".toList) ↔ (withPassword "s:3".toList).Separable := by
  apply uri_round_trip_iff
  exact ⟨by decide, by decide, by decide, by decide, by decide, unspaced_of_all (by decide)⟩

/-- A password with an at sign is not. -/
theorem uri_loses_password :
    (withPassword "p@ss".toList).Proper ∧ fromUri (withPassword "p@ss".toList).toUri ≠ .ok (withPassword "p@ss".toList) := by
  constructor
  · exact ⟨by decide, by decide, by decide, by decide, by decide, unspaced_of_all (by decide)⟩
  · decide +kernel

end ConnectionConfig

end Temnion.Adapter
