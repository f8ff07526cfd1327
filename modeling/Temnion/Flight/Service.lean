import Temnion.Flight.Frame
import Temnion.Library.Columns
import Temnion.Library.Runs
import Temnion.Protocol.Columnar
import Temnion.Protocol.Connection

/-
This file serves the analytical transport: it opens sessions, hands out tickets for queries and redeems them.
-/

namespace Temnion.Flight

open LittleEndian Slices Format Query Storage Protocol

/-- The bytes say how many rows may come and which query is asked. -/
structure Ticket where
  ticket : List UInt8
  deriving DecidableEq, Repr

structure FlightEndpoint where
  ticket : Ticket
  locations : List Text
  deriving DecidableEq, Repr

structure FlightInfo where
  schema : List UInt8
  descriptor : FlightDescriptor
  endpoints : List FlightEndpoint
  totalRecords : Int
  totalBytes : Int
  deriving DecidableEq, Repr

namespace Ticket

def new (query : Text) (maxRows : UInt32) : Ticket := ⟨le32 maxRows ++ Utf8.encode query⟩

def parse (ticket : Ticket) : Except FlightError (Text × UInt32) := do
  refuseIf (ticket.ticket.length < 4) (.invalidTicket "Truncated ticket".toList)
  match Utf8.decode (ticket.ticket.drop 4) with
  | none => throw (.invalidTicket "invalid utf-8 sequence".toList)
  | some query => return (query, getU32 ticket.ticket 0)

/-- A ticket is redeemed for what it was made for. -/
theorem parse_new (query : Text) (maxRows : UInt32) : (new query maxRows).parse = .ok (query, maxRows) := by
  have rest : (new query maxRows).ticket.drop 4 = Utf8.encode query := rfl
  have rows : getU32 (new query maxRows).ticket 0 = maxRows := getU32_of_slice rfl
  rw [parse, Except.refuseIf_bind (by simp [new]), rest, rows, Utf8.decode_encode]
  rfl

end Ticket

/-- The store is the only one that works on its files. -/
structure FlightService where
  store : Store
  disk : Disk
  serverLocation : Text
  sharedSecret : Text
  activeSessions : List Text

/-- Only the length of the token goes into the session. -/
def sessionToken (authToken : Text) : Text :=
  "flight-sess-".toList ++ Nat.toDigits 16 ((Utf8.encode authToken).length * 31 + 42)

def pathQuery : Text := "FROM temnion\nENTITY 0:1:1".toList

def schemaText : Text :=
  "entity_shard:u32,entity_slot:u32,entity_gen:u32,valid_time:u64,known_time:u64,seq:u64,schema:u32".toList

def flightBudget (maxRows : UInt32) : QueryBudget := ⟨some maxRows.toNat, some 100000, some (64 * 1024 * 1024)⟩

/-- The columns one after the other. -/
def columnBytes (batch : ColumnarBatch) : List UInt8 :=
  batch.entityShards.flatMap le32 ++ (batch.entitySlots.flatMap le32 ++ (batch.entityGenerations.flatMap le32 ++
    (batch.validTimestamps.flatMap le64 ++ (batch.knownTimestamps.flatMap le64 ++ (batch.sequences.flatMap le64 ++
      batch.schemaIds.flatMap le32)))))

def queryData [Binary64] (query : Text) (result : QueryResult) : FlightData where
  descriptor := some (.cmd query)
  dataHeader := le32 (UInt32.ofNat result.rows.length) ++ le32 (UInt32.ofNat result.eventsScanned)
  dataBody := columnBytes (ColumnarBatch.fromQueryRows result.rows)

namespace FlightService

def new (store : Store) (disk : Disk) (serverLocation sharedSecret : Text) : FlightService where
  store := store
  disk := disk
  serverLocation := serverLocation
  sharedSecret := sharedSecret
  activeSessions := []

def handshake (service : FlightService) (authToken : Text) : FlightService × Except FlightError Text :=
  if authToken = service.sharedSecret then
    ({ service with activeSessions := service.activeSessions.insert (sessionToken authToken) },
      .ok (sessionToken authToken))
  else (service, .error .unauthenticated)

def verifySession (service : FlightService) (token : Text) : Except FlightError Unit :=
  if token ∈ service.activeSessions then .ok () else .error .invalidToken

def describedQuery : FlightDescriptor → Except FlightError Text
  | .cmd query => .ok query
  | .path _ => .ok pathQuery
  | .none => .error (.invalidDescriptor "Missing query command".toList)

def getFlightInfo (service : FlightService) (session : Text) (descriptor : FlightDescriptor) :
    Except FlightError FlightInfo := do
  service.verifySession session
  let query ← describedQuery descriptor
  return ⟨Utf8.encode schemaText, descriptor, [⟨Ticket.new query 10000, [service.serverLocation]⟩], -1, -1⟩

def statusText (service : FlightService) : Text :=
  "\x7b\"status\":\"online\",\"version\":".toList ++ Text.decimal flightVersion.toNat ++ ",\"location\":\"".toList ++
    service.serverLocation ++ "\"\x7d".toList

/-- The body of an action is not looked at. -/
def doAction (service : FlightService) (session action : Text) : Except FlightError (List UInt8) := do
  service.verifySession session
  if action = "ping".toList then return Utf8.encode "PONG".toList
  else if action = "status".toList then return Utf8.encode service.statusText
  else throw (.actionNotImplemented action)

end FlightService

section Redeem

variable [Binary64] [Unicode] [ErrorTexts]

/-- The front of the text names its language. -/
def parseFlightQuery (query : Text) : Parse FlightError LogicalPlan :=
  let trimmed := Text.trim query
  let refused (error : ParseError) : Fault FlightError := .refused (.executionError (ErrorTexts.parse error))
  if Text.startsWith trimmed "tn:".toList || Text.startsWith trimmed "#".toList || Text.startsWith trimmed "$".toList then
    (parseCompactTem query).mapError refused
  else if Text.startsWith (trimmed.map Char.toLower) "select".toList then
    (parseSql query).mapError fun error =>
      match error with
      | .refused error => refused error
      | .panicked => .panicked
  else (parseTemql query).mapError refused

variable [Crc32fast]

namespace FlightService

def doGet (service : FlightService) (session : Text) (ticket : Ticket) : Parse FlightError (List FlightData) := do
  (service.verifySession session).mapError .refused
  let (query, maxRows) ← ticket.parse.mapError .refused
  let logical ← parseFlightQuery query
  let result ← (executeStorageScan service.store service.disk (planQuery logical) (flightBudget maxRows)).mapError
    fun error => .refused (.executionError (ErrorTexts.query error))
  return [queryData query result]

end FlightService

/-- What a client may ask. -/
inductive Request where
  | handshake (authToken : Text)
  | getFlightInfo (session : Text) (descriptor : FlightDescriptor)
  | doGet (session : Text) (ticket : Ticket)
  | doAction (session action : Text)
  deriving DecidableEq, Repr

/-- What a client gets back. A query that cannot be parsed may stop the service. -/
inductive Response where
  | session (token : Text)
  | info (info : FlightInfo)
  | stream (data : List FlightData)
  | action (bytes : List UInt8)
  | refused (error : FlightError)
  | panicked
  deriving DecidableEq, Repr

def Request.session : Request → Option Text
  | .handshake _ => none
  | .getFlightInfo session _ => some session
  | .doGet session _ => some session
  | .doAction session _ => some session

def Response.of {A : Type} (accepted : A → Response) : Except FlightError A → Response
  | .ok value => accepted value
  | .error error => .refused error

def Response.ofParse {A : Type} (accepted : A → Response) : Parse FlightError A → Response
  | .ok value => accepted value
  | .error (.refused error) => .refused error
  | .error .panicked => .panicked

namespace FlightService

def answer (service : FlightService) : Request → Response
  | .handshake authToken => Response.of .session (service.handshake authToken).2
  | .getFlightInfo session descriptor => Response.of .info (service.getFlightInfo session descriptor)
  | .doGet session ticket => Response.ofParse .stream (service.doGet session ticket)
  | .doAction session action => Response.of .action (service.doAction session action)

/-- Only a handshake changes the service. -/
def step (service : FlightService) : Request → FlightService
  | .handshake authToken => (service.handshake authToken).1
  | _ => service

def run (service : FlightService) (requests : List Request) : FlightService := requests.foldl step service

end FlightService

end Redeem

section Sessions

variable {origin service : FlightService} {requests : List Request} {request : Request} {session : Text}

namespace FlightService

/-- Since the service started it has let in the session of its secret, once a handshake presented the secret, and
nothing else about it has changed. -/
structure Guards (origin : FlightService) (requests : List Request) (service : FlightService) : Prop where
  unchanged : service = { origin with activeSessions := service.activeSessions }
  sessions : ∀ session, session ∈ service.activeSessions ↔
    session = sessionToken origin.sharedSecret ∧ Request.handshake origin.sharedSecret ∈ requests

theorem Guards.secret (guards : Guards origin requests service) : service.sharedSecret = origin.sharedSecret := by
  rw [guards.unchanged]

/-- A request that is no handshake of the secret keeps the sessions. -/
theorem Guards.keep (guards : Guards origin requests service) (other : request ≠ .handshake origin.sharedSecret) :
    Guards origin (requests ++ [request]) service where
  unchanged := guards.unchanged
  sessions session := by
    rw [guards.sessions, List.mem_append, List.mem_singleton, or_iff_left fun same => other same.symm]

theorem Guards.step (guards : Guards origin requests service) (request : Request) :
    Guards origin (requests ++ [request]) (service.step request) := by
  cases request with
  | handshake authToken =>
      change Guards origin _ (service.handshake authToken).1
      rw [handshake, guards.secret]
      by_cases right : authToken = origin.sharedSecret
      · rw [if_pos right]
        refine ⟨?_, fun session => ?_⟩
        · dsimp only
          rw [guards.unchanged]
        · rw [List.mem_insert_iff, guards.sessions, right, List.mem_append, List.mem_singleton]
          constructor
          · rintro (same | ⟨same, -⟩)
            · exact ⟨same, Or.inr rfl⟩
            · exact ⟨same, Or.inr rfl⟩
          · exact fun holds => Or.inl holds.1
      · rw [if_neg right]
        exact guards.keep fun same => right (Request.handshake.inj same)
  | getFlightInfo session descriptor => exact guards.keep Request.noConfusion
  | doGet session ticket => exact guards.keep Request.noConfusion
  | doAction session action => exact guards.keep Request.noConfusion

theorem Guards.run (empty : origin.activeSessions = []) (requests : List Request) :
    Guards origin requests (origin.run requests) := by
  induction requests using List.reverseRecOn with
  | nil =>
      refine ⟨rfl, fun session => ?_⟩
      change session ∈ origin.activeSessions ↔ _
      rw [empty]
      exact iff_of_false List.not_mem_nil fun holds => List.not_mem_nil holds.2
  | append_singleton requests request hypothesis =>
      rw [FlightService.run, Runs.foldl_concat]
      exact hypothesis.step request

theorem verifySession_ok : service.verifySession session = .ok () ↔ session ∈ service.activeSessions := by
  rw [verifySession]
  by_cases known : session ∈ service.activeSessions
  · rw [if_pos known]
    exact iff_of_true rfl known
  · rw [if_neg known]
    exact iff_of_false nofun known

variable [Binary64] [Unicode] [ErrorTexts] [Crc32fast]

theorem answer_refused (unknown : session ∉ service.activeSessions) (carries : request.session = some session) :
    service.answer request = .refused .invalidToken := by
  have refused : service.verifySession session = .error .invalidToken := if_neg unknown
  cases request with
  | handshake authToken => exact absurd carries nofun
  | getFlightInfo other descriptor =>
      obtain rfl := Option.some.inj carries
      rw [answer, getFlightInfo, refused]
      rfl
  | doGet other ticket =>
      obtain rfl := Option.some.inj carries
      rw [answer, doGet, refused]
      rfl
  | doAction other action =>
      obtain rfl := Option.some.inj carries
      rw [answer, doAction, refused]
      rfl

omit [Binary64] [Unicode] [ErrorTexts] [Crc32fast] in
theorem ends_mapError {E A : Type} {outcome : Except E A} {wrap : E → Fault FlightError}
    (wrapped : ∀ error, outcome = .error error → wrap error ≠ .refused .invalidToken) :
    (outcome.mapError wrap).Ends (fun _ => True) (· ≠ .refused .invalidToken) := by
  cases outcome with
  | ok value => exact Except.Ends.ok trivial
  | error error => exact Except.Ends.error (wrapped error rfl)

omit [Binary64] [Unicode] [ErrorTexts] [Crc32fast] in
theorem parse_ends (ticket : Ticket) : ticket.parse.Ends (fun _ => True) (· ≠ .invalidToken) := by
  apply Except.Ends.refuseIf_bind fun _ => nofun
  intro _
  cases Utf8.decode (ticket.ticket.drop 4) with
  | none => exact Except.Ends.error nofun
  | some query => exact Except.Ends.ok trivial

omit [Crc32fast] in
theorem parseFlightQuery_ends (query : Text) :
    (parseFlightQuery query).Ends (fun _ => True) (· ≠ .refused .invalidToken) := by
  unfold parseFlightQuery
  dsimp only
  split
  · exact ends_mapError fun error _ => nofun
  · split
    · apply ends_mapError
      intro error _
      cases error <;> exact nofun
    · exact ends_mapError fun error _ => nofun

theorem doGet_ends (known : session ∈ service.activeSessions) (ticket : Ticket) :
    (service.doGet session ticket).Ends (fun _ => True) (· ≠ .refused .invalidToken) := by
  have passed : service.verifySession session = .ok () := verifySession_ok.mpr known
  rw [doGet, passed]
  change (ticket.parse.mapError Fault.refused >>= _).Ends _ _
  apply (ends_mapError fun error refused => ?_).bind fun asked _ => ?_
  · exact fun same => (parse_ends ticket).2 error refused (Fault.refused.inj same)
  apply (parseFlightQuery_ends asked.1).bind fun logical _ => ?_
  apply (ends_mapError fun error _ => ?_).bind fun result _ => Except.Ends.ok trivial
  exact Fault.refused.inj.mt nofun

/-- Whoever is let in may fail for other reasons only. -/
theorem answer_admitted (known : session ∈ service.activeSessions) (carries : request.session = some session) :
    service.answer request ≠ .refused .invalidToken := by
  have passed : service.verifySession session = .ok () := verifySession_ok.mpr known
  cases request with
  | handshake authToken => exact absurd carries nofun
  | getFlightInfo other descriptor =>
      obtain rfl := Option.some.inj carries
      rw [answer, getFlightInfo, passed, Except.ok_bind]
      cases descriptor <;> exact nofun
  | doAction other action =>
      obtain rfl := Option.some.inj carries
      rw [answer, doAction, passed, Except.ok_bind]
      split
      · exact nofun
      · split
        · exact nofun
        · exact nofun
  | doGet other ticket =>
      obtain rfl := Option.some.inj carries
      have ends := doGet_ends known ticket
      rw [answer]
      cases redeemed : service.doGet other ticket with
      | ok stream => exact nofun
      | error fault =>
          cases fault with
          | panicked => exact nofun
          | refused error =>
              exact fun same => ends.2 _ redeemed (congrArg Fault.refused (Response.refused.inj same))

/-- In every run a session is accepted exactly when it is the one of the secret and a handshake presented the secret
before, and no request changes the store. -/
theorem sessions_exact (store : Store) (disk : Disk) (location secret : Text) (earlier : List Request) :
    let service := (new store disk location secret).run earlier
    (service.store = store ∧ service.disk = disk) ∧ ∀ request session, request.session = some session →
      (service.answer request = .refused .invalidToken ↔
        ¬(session = sessionToken secret ∧ Request.handshake secret ∈ earlier)) := by
  intro service
  have guards : Guards (new store disk location secret) earlier service := Guards.run rfl earlier
  have known : ∀ session, session ∈ service.activeSessions ↔
      session = sessionToken secret ∧ Request.handshake secret ∈ earlier := guards.sessions
  refine ⟨?_, fun request session carries => ?_⟩
  · rw [guards.unchanged]
    exact ⟨rfl, rfl⟩
  · rw [← known]
    constructor
    · exact fun refused inside => answer_admitted inside carries refused
    · exact fun outside => answer_refused outside carries

end FlightService

end Sessions

section Columns

variable [Binary64]

/-- What the columns keep of a row. -/
structure FlightRow where
  entity : EntityId
  validTicks : UInt64
  knownTicks : UInt64
  sequence : UInt64
  schema : SchemaId
  deriving DecidableEq

def FlightRow.of (row : QueryRow) : FlightRow :=
  ⟨row.entity, row.validTime.ticks, row.knownTime.ticks, row.sequence, row.schema⟩

/-- The row at an index of a body with so many rows. -/
def rowIn (body : List UInt8) (count index : Nat) : FlightRow where
  entity := ⟨getU32 body (4 * index), getU32 body (4 * count + 4 * index), getU32 body (8 * count + 4 * index)⟩
  validTicks := getU64 body (12 * count + 8 * index)
  knownTicks := getU64 body (20 * count + 8 * index)
  sequence := getU64 body (28 * count + 8 * index)
  schema := getU32 body (36 * count + 4 * index)

variable {bytes front rest : List UInt8} {place index : Nat} {rows : List QueryRow} {row : QueryRow}

omit [Binary64] in
theorem u32_in_column {words : List UInt32} {word : UInt32} (found : words[index]? = some word)
    (whole : bytes = front ++ (words.flatMap le32 ++ rest)) (start : front.length = place) :
    getU32 bytes (place + 4 * index) = word := by
  apply getU32_of_slice
  rw [whole, ← start]
  exact Columns.slice_flatMap le32_length front rest found

omit [Binary64] in
theorem u64_in_column {words : List UInt64} {word : UInt64} (found : words[index]? = some word)
    (whole : bytes = front ++ (words.flatMap le64 ++ rest)) (start : front.length = place) :
    getU64 bytes (place + 8 * index) = word := by
  apply getU64_of_slice
  rw [whole, ← start]
  exact Columns.slice_flatMap le64_length front rest found

theorem columnBytes_length (rows : List QueryRow) :
    (columnBytes (ColumnarBatch.fromQueryRows rows)).length = 40 * rows.length := by
  simp only [columnBytes, ColumnarBatch.fromQueryRows, List.length_append, Columns.flatMap_length le32_length,
    Columns.flatMap_length le64_length, List.length_map]
  omega

/-- Every row is found in the columns. -/
theorem rowIn_columnBytes (found : rows[index]? = some row) :
    rowIn (columnBytes (ColumnarBatch.fromQueryRows rows)) rows.length index = FlightRow.of row := by
  have taken : ∀ {A : Type} (field : QueryRow → A), (rows.map field)[index]? = some (field row) := by
    intro A field
    rw [List.getElem?_map, found, Option.map_some]
  have words : ∀ field : QueryRow → UInt32, ((rows.map field).flatMap le32).length = 4 * rows.length := by
    intro field
    rw [Columns.flatMap_length le32_length, List.length_map]
  have longs : ∀ field : QueryRow → UInt64, ((rows.map field).flatMap le64).length = 8 * rows.length := by
    intro field
    rw [Columns.flatMap_length le64_length, List.length_map]
  have whole : columnBytes (ColumnarBatch.fromQueryRows rows) = [] ++ ((rows.map (·.entity.shard)).flatMap le32 ++
      ((rows.map (·.entity.slot)).flatMap le32 ++ ((rows.map (·.entity.generation)).flatMap le32 ++
        ((rows.map (·.validTime.ticks)).flatMap le64 ++ ((rows.map (·.knownTime.ticks)).flatMap le64 ++
          ((rows.map (·.sequence)).flatMap le64 ++ ((rows.map (·.schema)).flatMap le32 ++ []))))))) := by
    rw [List.nil_append, List.append_nil]
    rfl
  generalize columnBytes (ColumnarBatch.fromQueryRows rows) = body at whole
  have shard : getU32 body (0 + 4 * index) = row.entity.shard := u32_in_column (taken (·.entity.shard)) whole rfl
  rw [List.nil_append] at whole
  have slot : getU32 body (4 * rows.length + 4 * index) = row.entity.slot :=
    u32_in_column (taken (·.entity.slot)) whole (words _)
  rw [← List.append_assoc] at whole
  have generation : getU32 body (8 * rows.length + 4 * index) = row.entity.generation := by
    refine u32_in_column (taken (·.entity.generation)) whole ?_
    rw [List.length_append, words, words]
    omega
  rw [← List.append_assoc] at whole
  have valid : getU64 body (12 * rows.length + 8 * index) = row.validTime.ticks := by
    refine u64_in_column (taken (·.validTime.ticks)) whole ?_
    rw [List.length_append, List.length_append, words, words, words]
    omega
  rw [← List.append_assoc] at whole
  have known : getU64 body (20 * rows.length + 8 * index) = row.knownTime.ticks := by
    refine u64_in_column (taken (·.knownTime.ticks)) whole ?_
    rw [List.length_append, List.length_append, List.length_append, words, words, words, longs]
    omega
  rw [← List.append_assoc] at whole
  have sequence : getU64 body (28 * rows.length + 8 * index) = row.sequence := by
    refine u64_in_column (taken (·.sequence)) whole ?_
    rw [List.length_append, List.length_append, List.length_append, List.length_append, words, words, words, longs,
      longs]
    omega
  rw [← List.append_assoc] at whole
  have schema : getU32 body (36 * rows.length + 4 * index) = row.schema := by
    refine u32_in_column (taken (·.schema)) whole ?_
    rw [List.length_append, List.length_append, List.length_append, List.length_append, List.length_append, words,
      words, words, longs, longs, longs]
    omega
  rw [Nat.zero_add] at shard
  rw [rowIn, shard, slot, generation, valid, known, sequence, schema]
  rfl

end Columns

section Redeemed

variable [Binary64]

/-- No more rows are collected than are asked for. -/
theorem collectRows_length {filter : Option Expr} {projection : Option (List Text)} {target : Nat}
    {events : List StoredEvent} {rows collected : List QueryRow} (room : rows.length < target)
    (ends : collectRows filter projection target events rows = .ok collected) : collected.length ≤ target := by
  induction events generalizing rows with
  | nil =>
      rw [collectRows] at ends
      rw [← Except.ok.inj ends]
      exact room.le
  | cons event events hypothesis =>
      rw [collectRows] at ends
      obtain ⟨matched, -, ends⟩ := Except.bind_eq_ok.mp ends
      cases matched with
      | none => exact hypothesis room ends
      | some row =>
          dsimp only at ends
          have longer : (rows ++ [row]).length = rows.length + 1 := List.length_append
          by_cases full : target ≤ (rows ++ [row]).length
          · rw [if_pos full] at ends
            rw [← Except.ok.inj ends]
            omega
          · rw [if_neg full] at ends
            exact hypothesis (Nat.not_le.mp full) ends

variable [Crc32fast]

/-- A result has no more rows than its budget, and one where the budget has none. -/
theorem executeStorageScan_length {store : Store} {disk : Disk} {plan : PhysicalPlan} {budget : QueryBudget}
    {maxRows : Nat} {result : QueryResult} (bounded : budget.maxRows = some maxRows)
    (ends : executeStorageScan store disk plan budget = .ok result) : result.rows.length ≤ max maxRows 1 := by
  cases plan with
  | causalWalk walk => exact absurd ends nofun
  | storageScan scan =>
      unfold executeStorageScan at ends
      obtain ⟨filter, -, ends⟩ := Except.bind_eq_ok.mp ends
      obtain ⟨page, -, ends⟩ := Except.bind_eq_ok.mp ends
      obtain ⟨rows, collected, ends⟩ := Except.bind_eq_ok.mp ends
      rw [← Except.ok.inj ends]
      have target : scan.targetLimit budget ≤ max maxRows 1 := by
        rw [StorageScan.targetLimit, bounded, Option.getD_some]
        omega
      have room : ([] : List QueryRow).length < scan.targetLimit budget := by
        rw [StorageScan.targetLimit, List.length_nil]
        omega
      exact (collectRows_length room (Except.mapError_eq_ok.mp collected)).trans target

variable [Unicode] [ErrorTexts]

/-- The data holds these rows of a query. -/
structure Carries (query : Text) (rows : List QueryRow) (data : FlightData) : Prop where
  descriptor : data.descriptor = some (.cmd query)
  counted : (getU32 data.dataHeader 0).toNat = rows.length
  sized : data.dataBody.length = 40 * rows.length
  rows : ∀ (index : Nat) (row : QueryRow), rows[index]? = some row →
    rowIn data.dataBody rows.length index = FlightRow.of row

omit [Crc32fast] [Unicode] [ErrorTexts] in
theorem queryData_carries {query : Text} {result : QueryResult} (few : result.rows.length < 2 ^ 32) :
    Carries query result.rows (queryData query result) where
  descriptor := rfl
  counted := by
    have stored : getU32 (queryData query result).dataHeader 0 = UInt32.ofNat result.rows.length := getU32_of_slice rfl
    rw [stored]
    exact UInt32.toNat_ofNat_of_lt' few
  sized := columnBytes_length result.rows
  rows _ _ found := rowIn_columnBytes found

omit [Binary64] [Crc32fast] [Unicode] [ErrorTexts] in
theorem step_keeps (service : FlightService) (request : Request) :
    (service.step request).store = service.store ∧ (service.step request).disk = service.disk ∧
      ∀ session ∈ service.activeSessions, session ∈ (service.step request).activeSessions := by
  cases request with
  | handshake authToken =>
      change (service.handshake authToken).1.store = _ ∧ (service.handshake authToken).1.disk = _ ∧
        ∀ session ∈ _, session ∈ (service.handshake authToken).1.activeSessions
      rw [FlightService.handshake]
      by_cases right : authToken = service.sharedSecret
      · rw [if_pos right]
        exact ⟨rfl, rfl, fun session member => List.mem_insert_of_mem member⟩
      · rw [if_neg right]
        exact ⟨rfl, rfl, fun session member => member⟩
  | getFlightInfo session descriptor => exact ⟨rfl, rfl, fun session member => member⟩
  | doGet session ticket => exact ⟨rfl, rfl, fun session member => member⟩
  | doAction session action => exact ⟨rfl, rfl, fun session member => member⟩

omit [Binary64] [Crc32fast] [Unicode] [ErrorTexts] in
/-- Further requests take no session away and leave the store alone. -/
theorem run_keeps (service : FlightService) (requests : List Request) :
    (service.run requests).store = service.store ∧ (service.run requests).disk = service.disk ∧
      ∀ session ∈ service.activeSessions, session ∈ (service.run requests).activeSessions := by
  induction requests generalizing service with
  | nil => exact ⟨rfl, rfl, fun session member => member⟩
  | cons request requests hypothesis =>
      obtain ⟨store, disk, sessions⟩ := step_keeps service request
      obtain ⟨finalStore, finalDisk, finalSessions⟩ := hypothesis (service.step request)
      exact ⟨finalStore.trans store, finalDisk.trans disk,
        fun session member => finalSessions session (sessions session member)⟩

/-- A ticket is redeemed, whatever else is asked before, for the rows of the query that it was given out for. -/
theorem tickets_redeem_rows {service : FlightService} {session : Text} {descriptor : FlightDescriptor}
    {info : FlightInfo} (described : service.getFlightInfo session descriptor = .ok info) (later : List Request) :
    ∃ query ticket, FlightService.describedQuery descriptor = .ok query ∧
      info.endpoints = [⟨ticket, [service.serverLocation]⟩] ∧
      ∀ stream, (service.run later).doGet session ticket = .ok stream ↔
        ∃ logical result, parseFlightQuery query = .ok logical ∧
          executeStorageScan service.store service.disk (planQuery logical) (flightBudget 10000) = .ok result ∧
          ∃ data, stream = [data] ∧ data = queryData query result ∧ result.rows.length ≤ 10000 ∧
            Carries query result.rows data := by
  obtain ⟨⟨⟩, passed, described⟩ := Except.bind_eq_ok.mp described
  obtain ⟨query, asked, described⟩ := Except.bind_eq_ok.mp described
  obtain ⟨store, disk, sessions⟩ := run_keeps service later
  have admitted : (service.run later).verifySession session = .ok () :=
    FlightService.verifySession_ok.mpr (sessions session (FlightService.verifySession_ok.mp passed))
  refine ⟨query, Ticket.new query 10000, asked, ?_, fun stream => ?_⟩
  · rw [← Except.ok.inj described]
  · rw [FlightService.doGet, admitted, Ticket.parse_new, store, disk]
    change (parseFlightQuery query >>= _) = _ ↔ _
    rw [Except.bind_eq_ok]
    refine exists_congr fun logical => ?_
    constructor
    · rintro ⟨parsed, ends⟩
      obtain ⟨result, executed, ends⟩ := Except.bind_eq_ok.mp ends
      rw [Except.mapError_eq_ok] at executed
      have few : result.rows.length ≤ 10000 := executeStorageScan_length rfl executed
      exact ⟨result, parsed, executed, _, (Except.ok.inj ends).symm, rfl, few, queryData_carries (by omega)⟩
    · rintro ⟨result, parsed, executed, data, rfl, rfl, -, -⟩
      refine ⟨parsed, Except.bind_eq_ok.mpr ⟨result, Except.mapError_eq_ok.mpr executed, rfl⟩⟩

omit [Binary64] [Crc32fast] [Unicode] [ErrorTexts] in
/-- A ticket for everything, redeemed behind a handshake that failed. -/
theorem tickets_redeem_rows_sample :
    letI := Crc32fast.ieee
    letI := Binary64.exact
    letI := Unicode.ascii
    letI : ErrorTexts := ⟨fun _ => [], fun _ => []⟩
    let service := (FlightService.new (startStore ⟨sampleDatabase, 1, 1⟩ Limits.default 0)
      (System.fresh sampleDatabase 1 1 Limits.default).disk "here".toList "key".toList).run [.handshake "key".toList]
    ∃ info ticket, service.getFlightInfo (sessionToken "key".toList) (.cmd "FROM temnion".toList) = .ok info ∧
      info.endpoints = [⟨ticket, ["here".toList]⟩] ∧
      ∀ stream, (service.run [.handshake "lock".toList]).doGet (sessionToken "key".toList) ticket = .ok stream →
        ∃ data, stream = [data] := by
  let := Binary64.exact
  let := Unicode.ascii
  let : ErrorTexts := ⟨fun _ => [], fun _ => []⟩
  generalize Crc32fast.ieee = checksum
  intro service
  have admitted : service.verifySession (sessionToken "key".toList) = .ok () := rfl
  obtain ⟨info, described⟩ : ∃ info,
      service.getFlightInfo (sessionToken "key".toList) (.cmd "FROM temnion".toList) = .ok info := by
    rw [FlightService.getFlightInfo, admitted]
    exact ⟨_, rfl⟩
  obtain ⟨query, ticket, -, endpoints, redeemed⟩ := tickets_redeem_rows described [.handshake "lock".toList]
  refine ⟨info, ticket, described, endpoints, fun stream ends => ?_⟩
  obtain ⟨logical, result, -, -, data, single, -⟩ := (redeemed stream).mp ends
  exact ⟨data, single⟩

end Redeemed

end Temnion.Flight
