import Temnion.Protocol.Connection

/-
This file says when a connection answers every query and goes on.
-/

namespace Temnion.Protocol

open Query Storage Format LittleEndian Slices

section Texts

theorem encode_length_le (text : Text) : (Utf8.encode text).length ≤ 4 * text.length := by
  rw [Utf8.encode_length, Text.byteLength]
  induction text with
  | nil => exact Nat.zero_le _
  | cons head text hypothesis =>
      have size := head.utf8Size_le_four
      rw [List.map_cons, List.sum_cons, List.length_cons]
      omega

theorem numeral_length {number : Nat} (small : number < 10 ^ 20) : (numeral number).length ≤ 20 :=
  Nat.toDigits_length 10 number 20 (by decide) small

/-- The header of an answer is short. -/
theorem headerText_length {rows scanned : Nat} (few : rows < 10 ^ 20) (seen : scanned < 10 ^ 20) (truncated : Bool) :
    (headerText rows scanned truncated).length ≤ 80 := by
  have first := numeral_length few
  have second := numeral_length seen
  have flag : (if truncated then "true".toList else "false".toList).length ≤ 5 := by
    cases truncated
    · exact le_refl 5
    · exact Nat.le_succ 4
  unfold headerText
  generalize numeral rows = rows' at *
  generalize numeral scanned = scanned' at *
  generalize (if truncated then "true".toList else "false".toList) = flag' at *
  calc (_ ++ rows' ++ _ ++ scanned' ++ _ ++ flag' ++ _).length
      = 8 + rows'.length + 11 + scanned'.length + 13 + flag'.length + 1 := by
        simp only [List.length_append]
        rfl
    _ ≤ 80 := by omega

/-- The record of a row is short. -/
theorem rowText_length [Binary64] (row : QueryRow) : (rowText row).length ≤ 130 := by
  have shard := @numeral_length row.entity.shard.toNat (row.entity.shard.toNat_lt.trans (by decide))
  have slot := @numeral_length row.entity.slot.toNat (row.entity.slot.toNat_lt.trans (by decide))
  have generation := @numeral_length row.entity.generation.toNat (row.entity.generation.toNat_lt.trans (by decide))
  have valid := @numeral_length row.validTime.ticks.toNat (row.validTime.ticks.toNat_lt.trans (by decide))
  have known := @numeral_length row.knownTime.ticks.toNat (row.knownTime.ticks.toNat_lt.trans (by decide))
  have sequence := @numeral_length row.sequence.toNat (row.sequence.toNat_lt.trans (by decide))
  have texts : ":".toList.length = 1 ∧ "|".toList.length = 1 := ⟨rfl, rfl⟩
  simp only [rowText, List.length_append]
  omega

end Texts

section Sizes

open Store

variable {store : Store} {disk : Disk} {filter : HistoryFilter} {budget : StorageQueryBudget}

theorem scanRecords_scanned (stop maxResults : Nat) (records : List StoredEvent) (scan : Scan) :
    (scanRecords filter stop maxResults records scan).scanned = scan.scanned := by
  induction records generalizing scan with
  | nil => rfl
  | cons record records hypothesis =>
      unfold scanRecords
      split
      · exact hypothesis scan
      · split
        · rfl
        · split
          · dsimp only
            split
            · rfl
            · exact hypothesis _
          · exact hypothesis _

variable [Crc32fast]

/-- The records of a block are those that its count tells. -/
theorem visit_count {next frameLength frameCount : Nat} {records : List StoredEvent}
    (visited : store.visit disk filter next = .ok (.block records frameLength frameCount)) :
    records.length = frameCount := by
  have ofSegment : store.visitSegment disk next = .ok (.block records frameLength frameCount) →
      records.length = frameCount := by
    intro read
    unfold visitSegment at read
    split at read
    · contradiction
    · obtain ⟨bytes, _, read⟩ := Except.bind_eq_ok.mp read
      obtain ⟨segment, _, read⟩ := Except.bind_eq_ok.mp read
      obtain ⟨rfl, _, rfl⟩ := Visit.block.inj (Except.ok.inj read)
      rfl
  unfold visit at visited
  split at visited
  · rename_i index frame _ _
    split at visited
    · exact absurd (Except.ok.inj visited) nofun
    · obtain ⟨indexed, read, visited⟩ := Except.bind_eq_ok.mp visited
      obtain ⟨rfl, _, rfl⟩ := Visit.block.inj (Except.ok.inj visited)
      obtain ⟨raw, _, checked⟩ := Except.bind_eq_ok.mp read
      unfold checkIndexedFrame at checked
      by_cases same : raw.length = frame.count
      · rw [Except.refuseIf_bind (not_not.mpr same)] at checked
        obtain ⟨_, _, checked⟩ := Except.bind_eq_ok.mp checked
        rw [← Except.ok.inj checked]
        exact same
      · rw [Except.refuseIf_bind_error same] at checked
        contradiction
  · exact ofSegment visited

/-- A scan stays within its budget of events. -/
theorem scanBlocks_scanned {stop : Nat} (steps : Nat) {scan reached : Scan}
    (within : scan.scanned ≤ budget.maxScanned)
    (ends : store.scanBlocks disk filter budget stop steps scan = .ok reached) :
    reached.scanned ≤ budget.maxScanned := by
  induction steps generalizing scan with
  | zero =>
      unfold scanBlocks at ends
      by_cases before : scan.next < stop
      · rw [Except.refuseIf_bind_error before] at ends
        contradiction
      · rw [Except.refuseIf_bind before] at ends
        exact Except.ok.inj ends ▸ within
  | succ steps hypothesis =>
      unfold scanBlocks at ends
      split at ends
      · obtain ⟨visited, read, ends⟩ := Except.bind_eq_ok.mp ends
        cases visited with
        | skip next => exact @hypothesis { scan with next } within ends
        | block records frameLength frameCount =>
            have count := visit_count read
            dsimp only at ends
            split at ends
            · split at ends
              · exact Except.ok.inj ends ▸ within
              · contradiction
            · split at ends
              · exact Except.ok.inj ends ▸ within
              · rename_i room
                have charged : (scanRecords filter stop budget.maxResults records { scan with
                    scanned := scan.scanned + records.length
                    bytesRead := scan.bytesRead + frameLength }).scanned ≤ budget.maxScanned := by
                  rw [scanRecords_scanned]
                  dsimp only
                  omega
                split at ends
                · exact Except.ok.inj ends ▸ charged
                · exact hypothesis charged ends
      · exact Except.ok.inj ends ▸ within

theorem history_scanned {cursor : Option StorageCursor} {page : StoragePage}
    (read : store.history disk filter budget cursor = .ok page) : page.scanned ≤ budget.maxScanned := by
  unfold history at read
  obtain ⟨_, _, read⟩ := Except.bind_eq_ok.mp read
  obtain ⟨_, _, read⟩ := Except.bind_eq_ok.mp read
  obtain ⟨_, _, read⟩ := Except.bind_eq_ok.mp read
  obtain ⟨⟨next, stop⟩, _, read⟩ := Except.bind_eq_ok.mp read
  obtain ⟨scan, ends, read⟩ := Except.bind_eq_ok.mp read
  rw [← Except.ok.inj read]
  exact scanBlocks_scanned _ (Nat.zero_le _) ends

omit [Crc32fast]

variable [Binary64]

/-- No more rows are collected than the target. -/
theorem collectRows_length {condition : Option Expr} {projection : Option (List Text)} {target : Nat}
    {events : List StoredEvent} {rows collected : List QueryRow} (below : rows.length < target)
    (ends : collectRows condition projection target events rows = .ok collected) : collected.length ≤ target := by
  induction events generalizing rows with
  | nil => exact Except.ok.inj ends ▸ below.le
  | cons event events hypothesis =>
      unfold collectRows at ends
      obtain ⟨outcome, _, ends⟩ := Except.bind_eq_ok.mp ends
      cases outcome with
      | none => exact hypothesis below ends
      | some row =>
          have grown : (rows ++ [row]).length = rows.length + 1 := List.length_append
          dsimp only at ends
          split at ends
          · rw [← Except.ok.inj ends]
            omega
          · exact hypothesis (by omega) ends

variable [Crc32fast]

/-- The numbers that the header of an answer announces. -/
theorem executeStorageScan_bounds {plan : PhysicalPlan} {maxRows : UInt32} {result : QueryResult}
    (executed : executeStorageScan store disk plan (Shared.queryBudget maxRows) = .ok result) :
    result.rows.length < 10 ^ 20 ∧ result.eventsScanned < 10 ^ 20 := by
  have rows := maxRows.toNat_lt
  cases plan with
  | causalWalk walk => contradiction
  | storageScan scan =>
      rw [executeStorageScan_eq] at executed
      obtain ⟨page, read, executed⟩ := Except.bind_eq_ok.mp executed
      obtain ⟨collected, ends, executed⟩ := Except.bind_eq_ok.mp executed
      obtain rfl := Except.ok.inj executed
      obtain ⟨filter, _, read⟩ := Except.bind_eq_ok.mp read
      have few := collectRows_length targetLimit_pos (Except.mapError_eq_ok.mp ends)
      have scanned := history_scanned (Except.mapError_eq_ok.mp read)
      have target : scan.targetLimit (Shared.queryBudget maxRows) ≤ max maxRows.toNat 1 :=
        max_le_max_right 1 (min_le_right _ _)
      refine ⟨by dsimp only; omega, lt_of_le_of_lt scanned ?_⟩
      change max 50000 1 < 10 ^ 20
      decide

/-- Every packet of an answer can be encoded. -/
theorem queryReply_fits {plan : PhysicalPlan} {maxRows : UInt32} {result : QueryResult} (streamId : UInt32)
    (executed : executeStorageScan store disk plan (Shared.queryBudget maxRows) = .ok result) :
    ∀ packet ∈ queryReply streamId result, packet.payload.length ≤ maxPacketLen := by
  have room : maxPacketLen = 16777216 := rfl
  obtain ⟨few, seen⟩ := executeStorageScan_bounds executed
  intro packet member
  rcases List.mem_append.mp member with front | last
  · rcases List.mem_append.mp front with first | record
    · rw [List.mem_singleton.mp first]
      have short := headerText_length few seen result.truncated
      have bytes := encode_length_le (headerText result.rows.length result.eventsScanned result.truncated)
      exact bytes.trans (by omega)
    · obtain ⟨bytes, listed, rfl⟩ := List.mem_map.mp record
      obtain ⟨row, _, rfl⟩ := List.mem_map.mp listed
      have short := rowText_length row
      exact (encode_length_le (rowText row)).trans (by omega)
  · rw [List.mem_singleton.mp last]
    change (le32 _).length ≤ maxPacketLen
    rw [le32_length, room]
    decide

end Sizes

section Discipline

variable [Binary64]

/-- The packets of a complete answer: one error, or as many records as announced and the end of the stream. -/
def Answers (request : TnpPacket) (reply : List TnpPacket) : Prop :=
  (∃ payload, reply = [TnpPacket.new .errorResponse request.streamId payload]) ∨
    ∃ (scanned : Nat) (truncated : Bool) (records : List (List UInt8)),
      reply = answerOf request.streamId (Utf8.encode (headerText records.length scanned truncated)) records

/-- The handshake succeeded, and the connection goes on. -/
def Stage.Open : Stage → Prop
  | .serving | .replaying _ | .streaming _ | .parting _ => True
  | _ => False

/-- The connection goes on, every query before the latest request is answered, and so is the latest one by what was
sent and what is still to be sent. -/
structure Disciplined (connection : Connection) : Prop where
  opened : connection.stage.Open
  answered : ∀ exchange ∈ connection.transcript.tail, exchange.request.messageType = .queryRequest →
    Answers exchange.request exchange.reply
  latest : ∀ exchange ∈ connection.transcript.head?, exchange.request.messageType = .queryRequest →
    connection.stage = .serving ∧ Answers exchange.request (exchange.reply ++ connection.outbox)

/-- The handshake is over, and its response is sent. -/
structure Shaken (connection : Connection) : Prop where
  serving : connection.stage = .serving
  idle : connection.outbox = []
  greeted : ∀ exchange ∈ connection.transcript, exchange.request.messageType = .handshakeRequest

section Conditions

variable [Crc32fast] [Unicode]

/-- The query decodes and parses, and its scan succeeds within the budget of a connection. -/
def Executes (shared : Shared) (packet : TnpPacket) : Prop :=
  ∃ request logical result, QueryRequest.decode packet.payload = .ok request ∧
    parseQuery request.format request.queryStr = .ok logical ∧ shared.poisoned = false ∧
      executeStorageScan shared.store shared.disk (planQuery logical) (Shared.queryBudget request.maxRows) = .ok result

/-- The subscription decodes, and its text is refused or parses while the store is at hand. -/
def Subscribes (shared : Shared) (packet : TnpPacket) : Prop :=
  ∃ request, SubscribeRequest.decode packet.payload = .ok request ∧
    ((∃ error, parseQuery request.format request.queryStr = .error (.refused error)) ∨
      (∃ logical, parseQuery request.format request.queryStr = .ok logical) ∧ shared.poisoned = false)

def Unsubscribes (packet : TnpPacket) : Prop := ∃ request, UnsubscribeRequest.decode packet.payload = .ok request

/-- The packet does not end the request loop. -/
def Continues (shared : Shared) (packet : TnpPacket) : Prop :=
  match packet.messageType with
  | .queryRequest => Executes shared packet
  | .subscribeRequest => Subscribes shared packet
  | .unsubscribeRequest => Unsubscribes packet
  | _ => True

/-- The packet does not end the stream of events, and asks for no rows. -/
def Hearable (packet : TnpPacket) : Prop :=
  match packet.messageType with
  | .queryRequest => False
  | .unsubscribeRequest => Unsubscribes packet
  | _ => True

def TnpPacket.IsAnswer (packet : TnpPacket) : Prop :=
  packet.messageType = .queryResponse ∨ packet.messageType = .streamRecord ∨ packet.messageType = .streamEnd

/-- The condition on one turn of an open connection. -/
def Fine (shared : Shared) (connection : Connection) (received : Except TnpError TnpPacket) : Prop :=
  match connection.outbox with
  | packet :: _ => packet.IsAnswer ∨ packet.payload.length ≤ maxPacketLen
  | [] =>
      match connection.stage, received with
      | .serving, .ok packet => Continues shared packet
      | .replaying listener, _ => listener.start < listener.stop → shared.poisoned = false
      | .streaming listener, .ok packet => shared.pending listener = none → Hearable packet
      | _, _ => True

/-- The writer does not fail, and the next packet is complete or still to come. -/
def WellFramed (input : Input) : Prop :=
  input.fails = none ∧ ((∃ packet, input.received = .ok packet) ∨ input.received = .error .timedOut)

end Conditions

/-- Every packet of an answer that waits can be encoded. -/
def Sized (connection : Connection) : Prop :=
  ∀ packet ∈ connection.outbox, packet.IsAnswer → packet.payload.length ≤ maxPacketLen

section Steps

variable {connection : Connection} {shared : Shared} {packet : TnpPacket} {stage : Stage} {packets : List TnpPacket}

theorem not_disciplined_closed {outcome : Parse TnpError Unit} : ¬ Disciplined (connection.close outcome) :=
  fun disciplined => disciplined.opened

/-- With nothing left to send every query is answered. -/
theorem Disciplined.all (disciplined : Disciplined connection) (empty : connection.outbox = []) :
    ∀ exchange ∈ connection.transcript, exchange.request.messageType = .queryRequest →
      Answers exchange.request exchange.reply := by
  intro exchange member query
  cases recorded : connection.transcript with
  | nil =>
      rw [recorded] at member
      nomatch member
  | cons latest older =>
      rw [recorded] at member
      rcases List.mem_cons.mp member with rfl | old
      · have whole := (disciplined.latest exchange (by rw [recorded]; rfl) query).2
        rwa [empty, List.append_nil] at whole
      · exact disciplined.answered exchange (by rw [recorded]; exact old) query

/-- After a further packet the connection is disciplined when this packet is a query that is answered, or no query. -/
theorem disciplined_take (stage : Stage) (opened : stage.Open) (disciplined : Disciplined connection)
    (empty : connection.outbox = []) : Disciplined (((connection.take packet).turn stage).reply packets) ↔
      (packet.messageType = .queryRequest → stage = .serving ∧ Answers packet packets) := by
  constructor
  · intro next query
    exact next.latest ⟨packet, []⟩ rfl query
  · intro answers
    refine ⟨opened, disciplined.all empty, ?_⟩
    intro exchange latest query
    obtain rfl := Option.some.inj latest
    exact answers query

/-- Outside of the request loop no query is open. -/
theorem Disciplined.move (disciplined : Disciplined connection) (apart : connection.stage ≠ .serving)
    (stage : Stage) (opened : stage.Open) (outbox : List TnpPacket) : Disciplined ⟨stage, outbox, connection.transcript⟩ where
  opened := opened
  answered := disciplined.answered
  latest exchange latest query := absurd (disciplined.latest exchange latest query).1 apart

theorem Disciplined.sent {rest : List TnpPacket} (disciplined : Disciplined connection)
    (waits : connection.outbox = packet :: rest) : Disciplined (connection.sent packet rest) := by
  have latest := disciplined.latest
  have answered := disciplined.answered
  unfold Connection.sent
  cases recorded : connection.transcript with
  | nil => exact ⟨disciplined.opened, nofun, nofun⟩
  | cons exchange older =>
      rw [recorded] at latest answered
      refine ⟨disciplined.opened, answered, ?_⟩
      intro other same query
      obtain rfl := Option.some.inj same
      obtain ⟨serving, whole⟩ := latest exchange rfl query
      rw [waits, List.append_cons] at whole
      exact ⟨serving, whole⟩

theorem sized_single {messageType : TnpMessageType} {streamId : UInt32} {payload : List UInt8}
    (apart : ¬ (TnpPacket.new messageType streamId payload).IsAnswer) :
    Sized (connection.reply [TnpPacket.new messageType streamId payload]) := by
  intro packet member answer
  rw [List.mem_singleton.mp member] at answer
  contradiction

variable [Crc32fast] [Unicode] [ErrorTexts]

theorem answerQuery_ok : shared.answerQuery packet = .ok packets ↔ ∃ request logical result,
    QueryRequest.decode packet.payload = .ok request ∧ parseQuery request.format request.queryStr = .ok logical ∧
      shared.poisoned = false ∧ executeStorageScan shared.store shared.disk (planQuery logical)
        (Shared.queryBudget request.maxRows) = .ok result ∧ queryReply packet.streamId result = packets := by
  unfold Shared.answerQuery Shared.parsed
  constructor
  · intro answers
    obtain ⟨request, decoded, answers⟩ := Except.bind_eq_ok.mp answers
    obtain ⟨logical, parsed, answers⟩ := Except.bind_eq_ok.mp answers
    obtain ⟨_, free, answers⟩ := Except.bind_eq_ok.mp answers
    obtain ⟨result, executed, answers⟩ := Except.bind_eq_ok.mp answers
    refine ⟨request, logical, result, decoded, Except.mapError_eq_ok.mp parsed, ?_, Except.mapError_eq_ok.mp executed,
      Except.ok.inj answers⟩
    by_contra locked
    rw [refuseIf, if_pos (Bool.of_not_eq_false locked)] at free
    contradiction
  · rintro ⟨request, logical, result, decoded, parsed, free, executed, rfl⟩
    rw [decoded, Except.ok_bind, Except.mapError_eq_ok.mpr parsed, Except.ok_bind,
      Except.refuseIf_bind (by rw [free]; exact Bool.false_ne_true), Except.mapError_eq_ok.mpr executed]
    rfl

/-- A query is answered exactly when it executes. -/
theorem executes_iff : Executes shared packet ↔ ∃ packets, shared.answerQuery packet = .ok packets := by
  constructor
  · rintro ⟨request, logical, result, decoded, parsed, free, executed⟩
    exact ⟨_, answerQuery_ok.mpr ⟨request, logical, result, decoded, parsed, free, executed, rfl⟩⟩
  · rintro ⟨packets, answers⟩
    obtain ⟨request, logical, result, decoded, parsed, free, executed, _⟩ := answerQuery_ok.mp answers
    exact ⟨request, logical, result, decoded, parsed, free, executed⟩

theorem answers_of_ok (answers : shared.answerQuery packet = .ok packets) : Answers packet packets ∧
    ∀ other ∈ packets, other.payload.length ≤ maxPacketLen := by
  obtain ⟨_, _, result, _, _, _, executed, rfl⟩ := answerQuery_ok.mp answers
  refine ⟨.inr ⟨result.eventsScanned, result.truncated, result.rows.map fun row => Utf8.encode (rowText row), ?_⟩,
    queryReply_fits packet.streamId executed⟩
  rw [List.length_map]
  rfl

/-- A packet of the request loop keeps the discipline exactly when it does not end the loop. -/
theorem answer_disciplined_iff (disciplined : Disciplined connection) (empty : connection.outbox = [])
    (serving : connection.stage = .serving) :
    Disciplined (shared.answer (connection.take packet) packet).2 ↔ Continues shared packet := by
  have stays : (connection.take packet).turn .serving = connection.take packet := by
    rw [← serving]
    rfl
  have replies : ∀ packets, packet.messageType ≠ .queryRequest →
      Disciplined ((connection.take packet).reply packets) := by
    intro packets other
    rw [← stays]
    exact (disciplined_take .serving trivial disciplined empty).mpr fun query => absurd query other
  unfold Shared.answer Continues
  cases kind : packet.messageType with
  | queryRequest =>
      dsimp only
      rw [executes_iff]
      cases answers : shared.answerQuery packet with
      | error fault => exact iff_of_false not_disciplined_closed nofun
      | ok packets =>
          apply iff_of_true _ ⟨packets, rfl⟩
          rw [← stays]
          exact (disciplined_take .serving trivial disciplined empty).mpr fun _ => ⟨rfl, (answers_of_ok answers).1⟩
  | subscribeRequest =>
      have other : packet.messageType ≠ .queryRequest := by rw [kind]; nofun
      dsimp only
      unfold Shared.subscribe Subscribes
      cases decoded : SubscribeRequest.decode packet.payload with
      | error fault => exact iff_of_false not_disciplined_closed nofun
      | ok request =>
          dsimp only
          cases parsed : parseQuery request.format request.queryStr with
          | error error =>
              cases error with
              | panicked =>
                  apply iff_of_false not_disciplined_closed
                  rintro ⟨_, same, ⟨_, refused⟩ | ⟨⟨_, fine⟩, _⟩⟩ <;> obtain rfl := Except.ok.inj same
                  · rw [parsed] at refused
                    nomatch Except.error.inj refused
                  · rw [parsed] at fine
                    contradiction
              | refused error => exact iff_of_true (replies _ other) ⟨request, rfl, .inl ⟨error, parsed⟩⟩
          | ok logical =>
              dsimp only
              by_cases locked : shared.poisoned = true
              · rw [if_pos locked]
                apply iff_of_false not_disciplined_closed
                rintro ⟨_, same, ⟨_, refused⟩ | ⟨_, free⟩⟩ <;> obtain rfl := Except.ok.inj same
                · rw [parsed] at refused
                  contradiction
                · rw [locked] at free
                  contradiction
              · rw [if_neg locked]
                apply iff_of_true _ ⟨request, rfl, .inr ⟨⟨logical, parsed⟩, Bool.eq_false_of_not_eq_true locked⟩⟩
                exact (disciplined_take (.replaying _) trivial disciplined empty).mpr fun query => absurd query other
  | unsubscribeRequest =>
      have other : packet.messageType ≠ .queryRequest := by rw [kind]; nofun
      dsimp only
      unfold Shared.unsubscribe Unsubscribes
      cases decoded : UnsubscribeRequest.decode packet.payload with
      | error fault => exact iff_of_false not_disciplined_closed nofun
      | ok request => exact iff_of_true (replies _ other) ⟨request, rfl⟩
  | _ =>
      apply iff_of_true _ trivial
      apply replies
      rw [kind]
      nofun

omit [Crc32fast] [Unicode] [ErrorTexts] in
/-- A packet that comes while events are streamed keeps the discipline exactly when it can be heard. -/
theorem control_disciplined_iff {listener : Listener} (disciplined : Disciplined connection)
    (empty : connection.outbox = []) (streaming : connection.stage = .streaming listener) :
    Disciplined (shared.control (connection.take packet) listener packet).2 ↔ Hearable packet := by
  have stays : (connection.take packet).turn (.streaming listener) = connection.take packet := by
    rw [← streaming]
    rfl
  have quiet : (connection.take packet).reply [] = connection.take packet := by
    unfold Connection.reply Connection.take
    rw [← empty]
  unfold Shared.control Hearable
  cases kind : packet.messageType with
  | unsubscribeRequest =>
      have other : packet.messageType ≠ .queryRequest := by rw [kind]; nofun
      dsimp only
      unfold Unsubscribes
      cases decoded : UnsubscribeRequest.decode packet.payload with
      | error fault => exact iff_of_false not_disciplined_closed nofun
      | ok request =>
          apply iff_of_true _ ⟨request, rfl⟩
          exact (disciplined_take (.parting listener) trivial disciplined empty).mpr fun query => absurd query other
  | ping =>
      have other : packet.messageType ≠ .queryRequest := by rw [kind]; nofun
      apply iff_of_true _ trivial
      rw [← stays]
      exact (disciplined_take (.streaming listener) trivial disciplined empty).mpr fun query => absurd query other
  | queryRequest =>
      apply iff_of_false _ id
      intro next
      rw [← quiet, ← stays] at next
      have answers := (disciplined_take (.streaming listener) trivial disciplined empty).mp next kind
      nomatch answers.1
  | _ =>
      apply iff_of_true _ trivial
      rw [← quiet, ← stays]
      refine (disciplined_take (.streaming listener) trivial disciplined empty).mpr fun query => ?_
      rw [kind] at query
      contradiction

/-- One turn of a connection keeps its discipline exactly when the condition holds. -/
theorem work_disciplined_iff {input : Input} (disciplined : Disciplined connection) (sized : Sized connection)
    (framed : WellFramed input) :
    Disciplined (shared.work connection input).2 ↔ Fine shared connection input.received := by
  obtain ⟨writes, received⟩ := framed
  unfold Shared.work Fine
  cases empty : connection.outbox with
  | cons packet rest =>
      dsimp only
      unfold Shared.send TnpPacket.encode
      rw [writes]
      by_cases large : maxPacketLen < packet.payload.length
      · rw [if_pos large]
        apply iff_of_false not_disciplined_closed
        rintro (answer | fits)
        · exact Nat.not_le.mpr large (sized packet (by rw [empty]; exact List.mem_cons_self) answer)
        · exact Nat.not_le.mpr large fits
      · rw [if_neg large]
        exact iff_of_true (disciplined.sent empty) (.inr (Nat.not_lt.mp large))
  | nil =>
      dsimp only
      unfold Shared.proceed
      have opened : connection.stage.Open := disciplined.opened
      cases stage : connection.stage with
      | serving =>
          rcases received with ⟨packet, arrived⟩ | late
          · rw [arrived]
            exact answer_disciplined_iff disciplined empty stage
          · rw [late]
            exact iff_of_true disciplined trivial
      | replaying listener =>
          have apart : connection.stage ≠ .serving := by rw [stage]; nofun
          dsimp only
          unfold Shared.replay
          by_cases locked : listener.start < listener.stop ∧ shared.poisoned = true
          · rw [if_pos locked]
            apply iff_of_false not_disciplined_closed
            intro free
            rw [free locked.1] at locked
            exact absurd locked.2 Bool.false_ne_true
          · rw [if_neg locked]
            apply iff_of_true (disciplined.move apart (.streaming listener) trivial _)
            intro window
            exact Bool.eq_false_of_not_eq_true fun poisoned => locked ⟨window, poisoned⟩
      | streaming listener =>
          have apart : connection.stage ≠ .serving := by rw [stage]; nofun
          dsimp only
          unfold Shared.stream
          cases waits : shared.pending listener with
          | some record =>
              have next : Disciplined (connection.reply [TnpPacket.new .liveEvent listener.streamId record.encode]) :=
                disciplined.move apart _ opened _
              rcases received with ⟨packet, arrived⟩ | late
              · rw [arrived]
                exact iff_of_true next fun idle => nomatch waits.symm.trans idle
              · rw [late]
                exact iff_of_true next trivial
          | none =>
              rcases received with ⟨packet, arrived⟩ | late
              · rw [arrived]
                have heard : (shared.pending listener = none → Hearable packet) ↔ Hearable packet :=
                  ⟨fun hears => hears waits, fun hears _ => hears⟩
                exact (control_disciplined_iff disciplined empty stage).trans heard.symm
              · rw [late]
                exact iff_of_true disciplined trivial
      | parting listener =>
          have apart : connection.stage ≠ .serving := by rw [stage]; nofun
          exact iff_of_true (disciplined.move apart .serving trivial _) trivial
      | _ =>
          rw [stage] at opened
          exact opened.elim

omit [Crc32fast] [Unicode] [ErrorTexts] in
theorem sized_close {outcome : Parse TnpError Unit} : Sized (connection.close outcome) := nofun

omit [Crc32fast] [Unicode] [ErrorTexts] in
theorem sized_of_nil (empty : connection.outbox = []) : Sized connection := by
  intro packet member
  rw [empty] at member
  nomatch member

theorem sized_answer : Sized (shared.answer connection packet).2 := by
  unfold Shared.answer
  split
  · exact sized_single nofun
  · exact sized_single nofun
  · split
    · exact sized_close
    · rename_i answers
      exact fun other member _ => (answers_of_ok answers).2 other member
  · unfold Shared.subscribe
    split
    · exact sized_close
    · split
      · exact sized_close
      · exact sized_single nofun
      · split
        · exact sized_close
        · exact sized_single nofun
  · unfold Shared.unsubscribe
    split
    · exact sized_close
    · exact sized_single nofun
  · exact sized_single nofun

omit [Unicode] [ErrorTexts] in
/-- The records of a subscription are no answers. -/
theorem sized_replay {listener : Listener} : Sized (shared.replay connection listener).2 := by
  unfold Shared.replay
  split
  · exact sized_close
  · intro packet member answer
    obtain ⟨record, _, rfl⟩ := List.mem_map.mp member
    nomatch answer

omit [Crc32fast] [Unicode] [ErrorTexts] in
theorem sized_stream {listener : Listener} {received : Except TnpError TnpPacket} (empty : connection.outbox = []) :
    Sized (shared.stream connection listener received).2 := by
  unfold Shared.stream
  split
  · exact sized_single nofun
  · unfold Shared.listen
    split
    · unfold Shared.control
      split
      · split
        · exact sized_close
        · exact sized_single nofun
      · exact sized_single nofun
      · exact sized_of_nil empty
    · exact sized_of_nil empty
    · exact sized_close
    · exact sized_close

theorem Sized.work {input : Input} (sized : Sized connection) : Sized (shared.work connection input).2 := by
  unfold Shared.work
  split
  · rename_i empty
    unfold Shared.proceed
    split
    · unfold Shared.greet
      split
      · exact sized_close
      · split
        · exact sized_single nofun
        · split
          · exact sized_close
          · split
            · exact sized_single nofun
            · exact sized_single nofun
    · exact sized_close
    · exact sized_close
    · unfold Shared.serve
      split
      · exact sized_answer
      · exact sized_close
      · exact sized_close
      · exact sized
      · exact sized_close
    · exact sized_replay
    · exact sized_stream empty
    · exact sized_of_nil empty
    · exact sized
  · rename_i packet rest waits
    split
    · intro other member
      exact sized other (by rw [waits]; exact List.mem_cons_of_mem packet member)
    · exact sized_close

end Steps

section Runs

variable [Crc32fast] [Unicode] [ErrorTexts]

namespace Host

variable {host : Host} {place : Nat} {turn : Turn}

def DisciplinedAt (host : Host) (place : Nat) : Prop :=
  ∃ connection, host.connections[place]? = some connection ∧ Disciplined connection

/-- The condition on the turns of one connection. The other turns are free. -/
def FineAt (host : Host) (place : Nat) : Turn → Prop
  | .work other input => other = place →
      ∀ connection, host.connections[place]? = some connection → Fine host.shared connection input.received
  | _ => True

def AlwaysDisciplined (place : Nat) : Host → List Turn → Prop
  | host, [] => host.DisciplinedAt place
  | host, turn :: turns => host.DisciplinedAt place ∧ AlwaysDisciplined place (host.step turn) turns

def AlwaysFine (place : Nat) : Host → List Turn → Prop
  | _, [] => True
  | host, turn :: turns => host.FineAt place turn ∧ AlwaysFine place (host.step turn) turns

end Host

/-- From a disciplined state on the discipline is kept exactly as long as the turns meet the condition. -/
theorem Host.always_disciplined_iff (host : Host) (place : Nat) {connection : Connection}
    (present : host.connections[place]? = some connection) (disciplined : Disciplined connection)
    (sized : Sized connection) (turns : List Turn) (framed : ∀ input, .work place input ∈ turns → WellFramed input) :
    host.AlwaysDisciplined place turns ↔ host.AlwaysFine place turns := by
  induction turns generalizing host connection with
  | nil => exact iff_of_true ⟨connection, present, disciplined⟩ trivial
  | cons turn turns hypothesis =>
      have rest : ∀ input, .work place input ∈ turns → WellFramed input :=
        fun input member => framed input (List.mem_cons_of_mem turn member)
      have here : host.DisciplinedAt place := ⟨connection, present, disciplined⟩
      have split : host.AlwaysDisciplined place (turn :: turns) ↔
          (host.step turn).AlwaysDisciplined place turns := and_iff_right here
      by_cases own : ∃ input, turn = .work place input
      · obtain ⟨input, rfl⟩ := own
        have after := host.step_work present input
        have fine : host.FineAt place (.work place input) ↔ Fine host.shared connection input.received := by
          constructor
          · exact fun fine => fine rfl connection present
          · rintro fine _ other found
            obtain rfl := Option.some.inj (present.symm.trans found)
            exact fine
        have step := @work_disciplined_iff _ connection host.shared _ _ _ input disciplined sized
          (framed input List.mem_cons_self)
        rw [split, Host.AlwaysFine, fine, ← step]
        constructor
        · intro always
          have next : Disciplined (host.shared.work connection input).2 := by
            have first : (host.step (.work place input)).DisciplinedAt place := by
              cases turns with
              | nil => exact always
              | cons _ _ => exact always.1
            obtain ⟨other, found, next⟩ := first
            obtain rfl := Option.some.inj (after.symm.trans found)
            exact next
          exact ⟨next, (hypothesis _ after next sized.work rest).mp always⟩
        · rintro ⟨next, always⟩
          exact (hypothesis _ after next sized.work rest).mpr always
      · have apart : ∀ input, turn ≠ .work place input := fun input same => own ⟨input, same⟩
        have fine : host.FineAt place turn := by
          cases turn with
          | work other input => exact fun same => absurd rfl (same ▸ apart input)
          | _ => trivial
        rw [split, Host.AlwaysFine, hypothesis _ (Host.step_apart present apart) disciplined sized rest]
        exact (and_iff_right fine).symm

omit [Crc32fast] [Unicode] [ErrorTexts] in
theorem Shaken.disciplined {connection : Connection} (shaken : Shaken connection) : Disciplined connection := by
  have asked : ∀ exchange ∈ connection.transcript, exchange.request.messageType ≠ .queryRequest := by
    intro exchange member query
    have hello := shaken.greeted exchange member
    rw [query] at hello
    contradiction
  refine ⟨by rw [shaken.serving]; trivial, ?_, ?_⟩
  · exact fun exchange member query => absurd query (asked exchange (List.mem_of_mem_tail member))
  · exact fun exchange latest query => absurd query (asked exchange (List.mem_of_mem_head? latest))

/-- A greeting in the version of the server is accepted. -/
theorem shaken_of_greeting (shared : Shared) {request : HandshakeRequest} (fits : Fits request.clientId)
    (agreed : request.clientVersion = tnpVersion) (streamId : UInt32) (input : Input)
    (arrived : input.received = .ok (TnpPacket.new .handshakeRequest streamId request.encode)) :
    ∃ response, (shared.work .accepted input).2.outbox = [response] ∧
      Shaken ((shared.work .accepted input).2.sent response []) := by
  refine ⟨TnpPacket.new .handshakeResponse streamId
    (HandshakeResponse.encode ⟨true, tnpVersion, shared.serverId, 15⟩), ?_⟩
  have greeted : shared.work .accepted input = (shared, shared.greet .accepted input.received) := rfl
  rw [greeted, arrived]
  unfold Shared.greet
  dsimp only
  have hello : (TnpPacket.new .handshakeRequest streamId request.encode).messageType = .handshakeRequest := rfl
  have decoded : HandshakeRequest.decode (TnpPacket.new .handshakeRequest streamId request.encode).payload =
      .ok request := request.decode_encode fits
  rw [if_neg (not_not.mpr hello), decoded]
  dsimp only
  rw [if_neg (not_not.mpr agreed)]
  refine ⟨rfl, rfl, rfl, ?_⟩
  intro exchange member
  rw [List.mem_singleton.mp member]
  rfl

/-- In every run a connection that has been greeted answers all queries and goes on if and only if its turns meet the
condition. -/
theorem queries_answered_iff (host : Host) (place : Nat) {connection : Connection}
    (present : host.connections[place]? = some connection) (shaken : Shaken connection) (turns : List Turn)
    (framed : ∀ input, .work place input ∈ turns → WellFramed input) :
    host.AlwaysDisciplined place turns ↔ host.AlwaysFine place turns :=
  host.always_disciplined_iff place present shaken.disciplined (sized_of_nil shaken.idle) turns framed

end Runs

section Samples

/-- A greeted connection to the server of a new database. -/
def greetedHost (disk : Disk) : Host :=
  ⟨⟨[], .new, Storage.startStore ⟨sampleDatabase, 1, 1⟩ .default 0, disk, false⟩,
    [⟨.serving, [], [⟨TnpPacket.new .handshakeRequest 1 [], []⟩]⟩]⟩

theorem greetedHost_shaken (disk : Disk) : ∃ connection, (greetedHost disk).connections[0]? = some connection ∧
    Shaken connection := by
  refine ⟨_, rfl, rfl, rfl, ?_⟩
  intro exchange member
  rw [List.mem_singleton.mp member]
  rfl

def ask (request : QueryRequest) : Turn := .work 0 ⟨.ok (TnpPacket.new .queryRequest 7 request.encode), none⟩

def everyRow : QueryRequest := ⟨.temql, "FROM temnion".toList, 10⟩

def emptyQuery : QueryRequest := ⟨.compactTem, [], 10⟩

omit [Binary64] in
/-- A query that executes is answered. -/
theorem queries_answered_iff_sample :
    letI := Binary64.exact
    letI := Crc32fast.ieee
    letI := Unicode.ascii
    letI : ErrorTexts := ⟨fun _ => [], fun _ => []⟩
    (greetedHost ⟨[], [], none, []⟩).AlwaysDisciplined 0 [ask everyRow] := by
  let := Binary64.exact
  generalize Crc32fast.ieee = checksum
  let := Unicode.ascii
  let : ErrorTexts := ⟨fun _ => [], fun _ => []⟩
  obtain ⟨connection, present, shaken⟩ := greetedHost_shaken ⟨[], [], none, []⟩
  apply (queries_answered_iff (greetedHost ⟨[], [], none, []⟩) 0 present shaken [ask everyRow] ?_).mpr
  · refine ⟨?_, trivial⟩
    rintro _ connection' present'
    obtain rfl := Option.some.inj present'
    have fits : Fits everyRow.queryStr := (by decide : (Utf8.encode everyRow.queryStr).length < 2 ^ 32)
    exact ⟨everyRow, _, _, everyRow.decode_encode fits, rfl, rfl, rfl⟩
  · intro input member
    obtain rfl := (Turn.work.inj (List.mem_singleton.mp member)).2
    exact ⟨rfl, .inl ⟨_, rfl⟩⟩

omit [Binary64] in
/-- The empty text is no query. It ends the connection without an answer. -/
theorem unparsable_query_ends_the_connection :
    letI := Binary64.exact
    letI := Crc32fast.ieee
    letI := Unicode.ascii
    letI : ErrorTexts := ⟨fun _ => [], fun _ => []⟩
    let host := greetedHost ⟨[], [], none, []⟩
    (∃ connection, host.connections[0]? = some connection ∧ Shaken connection) ∧
      (∀ input, .work 0 input ∈ [ask emptyQuery] → WellFramed input) ∧
      (∃ connection, (host.run [ask emptyQuery]).connections[0]? = some connection ∧ connection.outbox = [] ∧
        connection.stage = .closed (.error (.refused (.executionError [])))) ∧
      ¬ host.AlwaysDisciplined 0 [ask emptyQuery] := by
  let := Binary64.exact
  generalize Crc32fast.ieee = checksum
  let := Unicode.ascii
  let : ErrorTexts := ⟨fun _ => [], fun _ => []⟩
  have framed : ∀ input, .work 0 input ∈ [ask emptyQuery] → WellFramed input := by
    intro input member
    obtain rfl := (Turn.work.inj (List.mem_singleton.mp member)).2
    exact ⟨rfl, .inl ⟨_, rfl⟩⟩
  have closed : ∃ connection, ((greetedHost ⟨[], [], none, []⟩).run [ask emptyQuery]).connections[0]? =
      some connection ∧ connection.outbox = [] ∧
        connection.stage = .closed (.error (.refused (.executionError []))) := ⟨_, rfl, rfl, rfl⟩
  refine ⟨greetedHost_shaken _, framed, closed, ?_⟩
  rintro ⟨_, connection, present, disciplined⟩
  obtain ⟨other, present', _, stage⟩ := closed
  obtain rfl := Option.some.inj (present.symm.trans present')
  have opened := disciplined.opened
  rw [stage] at opened
  exact opened

end Samples

end Discipline

end Temnion.Protocol
