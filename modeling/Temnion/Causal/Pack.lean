import Temnion.Causal.Csr
import Temnion.Causal.Order
import Temnion.Library.Ascending
import Temnion.Library.Rows

/-
This file packs a causal graph, writes it as bytes, and says that nothing is lost by either.
-/

namespace Temnion.Causal

open OrderedMap Format LittleEndian Slices

namespace CausalGraph

/-- The keys of the causes, and those of the effects that are not among them. -/
def mentioned (graph : CausalGraph) : List EventId :=
  graph.effects.keys.foldl (fun events key => if key ∈ events then events else events ++ [key]) graph.causes.keys

def eventToIdx (events : List EventId) : OrderedMap EventId Nat :=
  events.zipIdx.foldl (fun indexes (event, index) => indexes.insert event index) ∅

/-- The indexes of the events, in the order of the list. An event without an index is left out. -/
def indexes (eventToIdx : OrderedMap EventId Nat) (events : List EventId) : List UInt32 :=
  events.filterMap fun event => eventToIdx[event]?.map UInt32.ofNat

/-- The causes and the effects of one event are packed in one round. -/
def packEvent (graph : CausalGraph) (eventToIdx : OrderedMap EventId Nat) (csr : CsrCausalGraph) (event : EventId) :
    CsrCausalGraph where
  events := csr.events
  causeOffsets := csr.causeOffsets ++ [csr.causeIndices.length]
  causeIndices := csr.causeIndices ++ indexes eventToIdx (graph.immediateCauses event)
  effectOffsets := csr.effectOffsets ++ [csr.effectIndices.length]
  effectIndices := csr.effectIndices ++ indexes eventToIdx (graph.immediateEffects event)

def toCsr (graph : CausalGraph) : CsrCausalGraph :=
  let events := Ascending.sorted graph.mentioned
  let csr := events.foldl (graph.packEvent (eventToIdx events)) ⟨events, [], [], [], []⟩
  { csr with
    causeOffsets := csr.causeOffsets ++ [csr.causeIndices.length]
    effectOffsets := csr.effectOffsets ++ [csr.effectIndices.length] }

variable {graph : CausalGraph} {events : List EventId} {event : EventId} {index : Nat}

theorem mem_mentioned : event ∈ graph.mentioned ↔ graph.Contains event := by
  have grown : ∀ keys start : List EventId,
      event ∈ keys.foldl (fun events key => if key ∈ events then events else events ++ [key]) start ↔
        event ∈ start ∨ event ∈ keys := by
    intro keys
    induction keys with
    | nil => simp
    | cons key keys hypothesis =>
        intro start
        rw [List.foldl_cons, hypothesis, List.mem_cons, ← or_assoc]
        apply or_congr _ Iff.rfl
        split
        · next present => exact ⟨Or.inl, fun either => either.elim id fun same => same ▸ present⟩
        · rw [List.mem_append, List.mem_singleton]
  rw [mentioned, grown, Std.ExtTreeMap.mem_keys, Std.ExtTreeMap.mem_keys]
  rfl

/-- Different events have different indexes, their places in the list. -/
theorem eventToIdx_getElem? (nodup : events.Nodup) :
    (eventToIdx events)[event]? = some index ↔ events[index]? = some event := by
  induction events using List.reverseRecOn with
  | nil =>
      have empty : (eventToIdx [])[event]? = none := Std.ExtTreeMap.getElem?_empty
      rw [empty, List.getElem?_nil]
      exact iff_of_false nofun nofun
  | append_singleton events last hypothesis =>
      have before := hypothesis (List.nodup_append.mp nodup).1
      have fresh : last ∉ events := fun member =>
        (List.nodup_append.mp nodup).2.2 last member last List.mem_cons_self rfl
      have grown : eventToIdx (events ++ [last]) = (eventToIdx events).insert last events.length := by
        rw [eventToIdx, List.zipIdx_append, List.foldl_append, Nat.zero_add]
        rfl
      rw [grown, insert_getElem?]
      by_cases same : last = event
      · subst same
        rw [if_pos rfl, Option.some.injEq]
        constructor
        · rintro rfl
          exact List.getElem?_concat_length
        · intro found
          rcases Nat.lt_or_ge index events.length with inside | outside
          · rw [List.getElem?_append_left inside] at found
            exact absurd (List.mem_of_getElem? found) fresh
          · obtain ⟨bound, -⟩ := List.getElem?_eq_some_iff.mp found
            rw [List.length_append, List.length_singleton] at bound
            omega
      · rw [if_neg same, before]
        rcases Nat.lt_or_ge index events.length with inside | outside
        · rw [List.getElem?_append_left inside]
        · rw [List.getElem?_eq_none outside, List.getElem?_append_right outside]
          refine iff_of_false nofun fun found => same ?_
          exact List.mem_singleton.mp (List.mem_of_getElem? found) |>.symm

/-- The indexes of listed events lead back to the events. -/
theorem indexes_events (nodup : events.Nodup) (few : events.length ≤ 2 ^ 32) {others : List EventId}
    (listed : ∀ other ∈ others, other ∈ events) :
    (indexes (eventToIdx events) others).map (fun index => events[index.toNat]?) = others.map some := by
  induction others with
  | nil => rfl
  | cons other others hypothesis =>
      obtain ⟨head, tail⟩ := List.forall_mem_cons.mp listed
      obtain ⟨index, inside, found⟩ := List.getElem_of_mem head
      have place : events[index]? = some other := by rw [List.getElem?_eq_getElem inside, found]
      have word : (UInt32.ofNat index).toNat = index := UInt32.toNat_ofNat_of_lt' (by
        have bound : index < 2 ^ 32 := inside.trans_le few
        exact bound)
      rw [indexes, List.filterMap_cons, (eventToIdx_getElem? nodup).mpr place, Option.map_some, List.map_cons,
        List.map_cons, word, place]
      exact congrArg _ (hypothesis tail)

/-- The rounds pack the rows of both relations. -/
theorem foldl_packEvent (graph : CausalGraph) (map : OrderedMap EventId Nat) (all events : List EventId) :
    events.foldl (graph.packEvent map) ⟨all, [], [], [], []⟩ =
      ⟨all, (Batches.starts 0 (events.map fun event => indexes map (graph.immediateCauses event))).map Prod.fst,
        (events.map fun event => indexes map (graph.immediateCauses event)).flatten,
        (Batches.starts 0 (events.map fun event => indexes map (graph.immediateEffects event))).map Prod.fst,
        (events.map fun event => indexes map (graph.immediateEffects event)).flatten⟩ := by
  induction events using List.reverseRecOn with
  | nil => rfl
  | append_singleton events event hypothesis =>
      rw [List.foldl_concat, hypothesis, packEvent, List.map_append, List.map_append, List.map_singleton,
        List.map_singleton, Rows.starts_concat, Rows.starts_concat, List.flatten_concat, List.flatten_concat]

/-- The rows of indexes of a relation. -/
def rows (graph : CausalGraph) (relation : EventId → List EventId) : List (List UInt32) :=
  (Ascending.sorted graph.mentioned).map fun event =>
    indexes (eventToIdx (Ascending.sorted graph.mentioned)) (relation event)

theorem toCsr_eq (graph : CausalGraph) : graph.toCsr =
    ⟨Ascending.sorted graph.mentioned, Rows.offsets (graph.rows graph.immediateCauses),
      (graph.rows graph.immediateCauses).flatten, Rows.offsets (graph.rows graph.immediateEffects),
      (graph.rows graph.immediateEffects).flatten⟩ := by
  rw [toCsr, foldl_packEvent]
  rfl

theorem toCsr_events (graph : CausalGraph) : graph.toCsr.events = Ascending.sorted graph.mentioned := by rw [toCsr_eq]

theorem toCsr_immediateCauses (graph : CausalGraph) : graph.toCsr.immediateCauses =
    CsrCausalGraph.targets (Ascending.sorted graph.mentioned).length (Rows.offsets (graph.rows graph.immediateCauses))
      (graph.rows graph.immediateCauses).flatten := by
  funext index
  rw [toCsr_eq]
  rfl

theorem toCsr_immediateEffects (graph : CausalGraph) : graph.toCsr.immediateEffects =
    CsrCausalGraph.targets (Ascending.sorted graph.mentioned).length (Rows.offsets (graph.rows graph.immediateEffects))
      (graph.rows graph.immediateEffects).flatten := by
  funext index
  rw [toCsr_eq]
  rfl

theorem rows_length (graph : CausalGraph) (relation : EventId → List EventId) :
    (graph.rows relation).length = (Ascending.sorted graph.mentioned).length := List.length_map _

end CausalGraph

/-- A row of packed rows is found at its index. -/
theorem CsrCausalGraph.targets_row {rows : List (List UInt32)} {row : List UInt32} {index : Nat}
    (found : rows[index]? = some row) : targets rows.length (Rows.offsets rows) rows.flatten index = some row := by
  obtain ⟨inside, -⟩ := List.getElem?_eq_some_iff.mp found
  obtain ⟨same, ordered, bound⟩ := Rows.flatten_row found
  rw [targets, if_neg (Nat.not_le.mpr inside), Rows.offsets_getElem? (le_of_lt inside), Rows.offsets_getElem? inside]
  dsimp only
  rw [if_pos ⟨ordered, bound⟩, same]

namespace CsrCausalGraph

/-- The number of targets, the offsets and the targets. -/
def sectionBytes (offsets : List Nat) (indices : List UInt32) : List UInt8 :=
  le32 (UInt32.ofNat indices.length) ++ (offsets.map UInt32.ofNat).flatMap le32 ++ indices.flatMap le32

def bodyBytes (graph : CsrCausalGraph) : List UInt8 :=
  graph.events.flatMap eventIdBytes ++ sectionBytes graph.causeOffsets graph.causeIndices ++
    sectionBytes graph.effectOffsets graph.effectIndices

def encode [Crc32fast] (graph : CsrCausalGraph) : List UInt8 :=
  causalMagic ++ le16 causalVersion ++ le32 (UInt32.ofNat graph.events.length) ++
    le32 (Crc32fast.hash graph.bodyBytes) ++ graph.bodyBytes

section RoundTrip

variable {body rest : List UInt8} {offset next count : Nat} {offsets : List Nat} {indices : List UInt32}

/-- Events that lie ahead are read one after the other. -/
theorem readEvents_ahead {events : List EventId} (ahead : Ahead body offset (events.flatMap eventIdBytes ++ rest))
    (place : offset + 20 * events.length = next) :
    readEvents body offset events.length = .ok events ∧ Ahead body next rest := by
  induction events generalizing offset with
  | nil =>
      obtain rfl : offset = next := place
      exact ⟨rfl, ahead⟩
  | cons event events hypothesis =>
      rw [List.flatMap_cons, eventIdBytes, List.append_assoc, List.append_assoc, List.append_assoc] at ahead
      rw [List.length_cons] at place
      obtain ⟨source, second⟩ := ahead.u32 CsrError rfl
      obtain ⟨epoch, third⟩ := second.u64 CsrError (rfl : _ = offset + 12)
      obtain ⟨sequence, last⟩ := third.u64 CsrError (rfl : _ = offset + 20)
      obtain ⟨others, reached⟩ := hypothesis last (by omega)
      have room : ¬body.length < offset + 4 + 8 + 8 := Nat.not_lt.mpr last.1
      refine ⟨?_, reached⟩
      rw [List.length_cons, readEvents, Except.refuseIf_bind room, source, Except.ok_bind, epoch, Except.ok_bind, sequence,
        Except.ok_bind, others, Except.ok_bind]
      rfl

/-- A section that lies ahead is read back. -/
theorem readSection_ahead (ahead : Ahead body offset (sectionBytes offsets indices ++ rest))
    (many : offsets.length = count + 1) (small : ∀ offset ∈ offsets, offset < 2 ^ 32) (few : indices.length < 2 ^ 32)
    (place : offset + 4 + 4 * (count + 1) + 4 * indices.length = next) :
    (∀ lengthError error, readSection body offset count lengthError error = .ok (offsets, indices, next)) ∧
      Ahead body next rest := by
  have word : (UInt32.ofNat indices.length).toNat = indices.length := UInt32.toNat_ofNat_of_lt' few
  have width : (offsets.map UInt32.ofNat).length = count + 1 := by rw [List.length_map, many]
  have back : (offsets.map UInt32.ofNat).map UInt32.toNat = offsets := by
    rw [List.map_map]
    refine (List.map_congr_left fun offset member => ?_).trans (List.map_id _)
    exact UInt32.toNat_ofNat_of_lt' (small offset member)
  rw [sectionBytes, List.append_assoc, List.append_assoc] at ahead
  obtain ⟨length, second⟩ := ahead.u32 CsrError rfl
  obtain ⟨words, third⟩ := second.words CsrError (by rw [width])
  obtain ⟨targets, last⟩ := third.words CsrError place
  have room : ¬body.length < offset + 4 := Nat.not_lt.mpr second.1
  have inside : ¬body.length < offset + 4 + (count + 1) * 4 + indices.length * 4 := by
    have bound := last.1
    omega
  rw [width] at words
  refine ⟨fun lengthError error => ?_, last⟩
  rw [readSection, Except.refuseIf_bind room, length, Except.ok_bind, word, Except.refuseIf_bind inside, words,
    Except.ok_bind, targets, Except.ok_bind, back, place]
  rfl

/-- The lists of a packed graph have the lengths that the format expects. -/
structure Packed (graph : CsrCausalGraph) : Prop where
  events : graph.events.length < 2 ^ 32
  causeOffsets : graph.causeOffsets.length = graph.events.length + 1
  causeSmall : ∀ offset ∈ graph.causeOffsets, offset < 2 ^ 32
  causes : graph.causeIndices.length < 2 ^ 32
  effectOffsets : graph.effectOffsets.length = graph.events.length + 1
  effectSmall : ∀ offset ∈ graph.effectOffsets, offset < 2 ^ 32
  effects : graph.effectIndices.length < 2 ^ 32

/-- A packed graph is read back as it was written. -/
theorem Packed.decode_encode [Crc32fast] {graph : CsrCausalGraph} (packed : graph.Packed) :
    decode graph.encode = .ok graph := by
  have word : (UInt32.ofNat graph.events.length).toNat = graph.events.length := UInt32.toNat_ofNat_of_lt' packed.events
  have ahead : Ahead graph.encode 0 (causalMagic ++ (le16 causalVersion ++ (le32 (UInt32.ofNat graph.events.length) ++
      (le32 (Crc32fast.hash graph.bodyBytes) ++ graph.bodyBytes)))) := by
    refine ⟨Nat.zero_le _, ?_⟩
    rw [List.drop_zero, encode, List.append_assoc, List.append_assoc, List.append_assoc]
  obtain ⟨-, magic, first⟩ := ahead.part (rfl : _ = 4)
  obtain ⟨version, second⟩ := first.u16 CsrError (rfl : _ = 6)
  obtain ⟨count, third⟩ := second.u32 CsrError (rfl : _ = 10)
  obtain ⟨checksum, fourth⟩ := third.u32 CsrError (rfl : _ = 14)
  have start : Ahead graph.bodyBytes 0 (graph.events.flatMap eventIdBytes ++
      (sectionBytes graph.causeOffsets graph.causeIndices ++
        (sectionBytes graph.effectOffsets graph.effectIndices ++ []))) := by
    refine ⟨Nat.zero_le _, ?_⟩
    rw [List.drop_zero, bodyBytes, List.append_assoc, List.append_nil]
  obtain ⟨events, causesAhead⟩ := readEvents_ahead start (Nat.zero_add _)
  obtain ⟨causes, effectsAhead⟩ := readSection_ahead causesAhead packed.causeOffsets packed.causeSmall packed.causes rfl
  obtain ⟨effects, -⟩ := readSection_ahead effectsAhead packed.effectOffsets packed.effectSmall packed.effects rfl
  have room : ¬graph.encode.length < 14 := Nat.not_lt.mpr fourth.1
  have same : ¬slice graph.encode 0 4 ≠ causalMagic := not_not.mpr magic
  rw [decode, Except.refuseIf_bind room, Except.refuseIf_bind same, version, Except.ok_bind,
    Except.refuseIf_bind (not_not.mpr rfl), count, Except.ok_bind, checksum, Except.ok_bind, word]
  dsimp only
  have body : graph.encode.drop 14 = graph.bodyBytes := fourth.2
  rw [body, Except.refuseIf_bind (not_not.mpr rfl), events, Except.ok_bind, causes, Except.ok_bind]
  dsimp only
  rw [effects, Except.ok_bind]
  rfl

end RoundTrip

end CsrCausalGraph

namespace CausalGraph

/-- An event that is named anywhere in the graph. -/
def Mentions (graph : CausalGraph) (event : EventId) : Prop :=
  graph.Contains event ∨ ∃ other, event ∈ graph.immediateCauses other ∨ event ∈ graph.immediateEffects other

/-- Every event of the lists is a key of one of the maps. -/
theorem Tracks.mentions_iff {graph : CausalGraph} {registrations : List (EventId × List EventId)}
    (tracks : graph.Tracks registrations) {event : EventId} : graph.Mentions event ↔ graph.Contains event := by
  constructor
  · rintro (contains | ⟨other, cause | effect⟩)
    · exact contains
    · have effect := tracks.effect_of_cause cause
      rw [immediateEffects] at effect
      refine Or.inr (Std.ExtTreeMap.mem_iff_isSome_getElem?.mpr ?_)
      cases found : graph.effects[event]? with
      | none =>
          rw [found] at effect
          exact absurd effect List.not_mem_nil
      | some effects => rfl
    · obtain ⟨causes, registered, -⟩ := (tracks.effects other event).mp effect
      exact Or.inl ((tracks.registered event).mpr ⟨causes, registered⟩)
  · exact Or.inl

/-- The neighbours of the event with an index lead back to its neighbours in the graph. -/
def Follows (graph : CausalGraph) (neighbours : Nat → Option (List UInt32)) (relation : EventId → List EventId) : Prop :=
  ∀ index event, graph.toCsr.events[index]? = some event → ∃ indices, neighbours index = some indices ∧
    indices.map (fun index => graph.toCsr.events[index.toNat]?) = (relation event).map some

theorem Tracks.follows {graph : CausalGraph} {registrations : List (EventId × List EventId)}
    (tracks : graph.Tracks registrations) (few : graph.toCsr.events.length ≤ 2 ^ 32) {relation : EventId → List EventId}
    (named : ∀ event, ∀ other ∈ relation event, graph.Mentions other) :
    graph.Follows (CsrCausalGraph.targets (Ascending.sorted graph.mentioned).length (Rows.offsets (graph.rows relation))
      (graph.rows relation).flatten) relation := by
  intro index event found
  rw [toCsr_events] at few found ⊢
  have nodup : (Ascending.sorted graph.mentioned).Nodup :=
    (Ascending.sorted_pairwise graph.mentioned).imp fun less => ne_of_lt less
  have row : (graph.rows relation)[index]? =
      some (indexes (eventToIdx (Ascending.sorted graph.mentioned)) (relation event)) := by
    rw [rows, List.getElem?_map, found]
    rfl
  have targets := CsrCausalGraph.targets_row row
  rw [rows_length] at targets
  refine ⟨_, targets, indexes_events nodup few fun other member => ?_⟩
  exact Ascending.mem_sorted.mpr (mem_mentioned.mpr (tracks.mentions_iff.mp (named event other member)))

/-- A packed graph with few edges has the lengths that the format expects. -/
theorem toCsr_packed {graph : CausalGraph} (few : graph.toCsr.events.length < 2 ^ 32)
    (causes : graph.toCsr.causeIndices.length < 2 ^ 32) (effects : graph.toCsr.effectIndices.length < 2 ^ 32) :
    graph.toCsr.Packed := by
  rw [toCsr_eq] at few causes effects ⊢
  refine ⟨few, ?_, ?_, causes, ?_, ?_, effects⟩
  · exact (Rows.offsets_length _).trans (congrArg (· + 1) (rows_length _ _))
  · exact fun offset member => (Rows.le_of_mem_offsets member).trans_lt causes
  · exact (Rows.offsets_length _).trans (congrArg (· + 1) (rows_length _ _))
  · exact fun offset member => (Rows.le_of_mem_offsets member).trans_lt effects

/-- A packed graph lists the events of the graph in ascending order and keeps both relations, and its bytes are read
back as the same packed graph. -/
theorem toCsr_faithful [Crc32fast] (calls : List (EventId × List EventId)) :
    (run calls).toCsr.events.Pairwise (· < ·) ∧
    (∀ event, event ∈ (run calls).toCsr.events ↔ (run calls).Mentions event) ∧
    ((run calls).toCsr.events.length < 2 ^ 32 →
      (run calls).Follows (run calls).toCsr.immediateCauses (run calls).immediateCauses ∧
      (run calls).Follows (run calls).toCsr.immediateEffects (run calls).immediateEffects ∧
      ((run calls).toCsr.causeIndices.length < 2 ^ 32 → (run calls).toCsr.effectIndices.length < 2 ^ 32 →
        CsrCausalGraph.decode (run calls).toCsr.encode = .ok (run calls).toCsr)) := by
  have tracks := run_tracks calls
  refine ⟨?_, fun event => ?_, fun few => ⟨?_, ?_, fun causes effects =>
    (toCsr_packed few causes effects).decode_encode⟩⟩
  · rw [toCsr_events]
    exact Ascending.sorted_pairwise _
  · rw [toCsr_events, tracks.mentions_iff, ← mem_mentioned]
    exact Ascending.mem_sorted
  · rw [toCsr_immediateCauses]
    exact tracks.follows few.le fun event other member => Or.inr ⟨event, Or.inl member⟩
  · rw [toCsr_immediateEffects]
    exact tracks.follows few.le fun event other member => Or.inr ⟨event, Or.inr member⟩

/-- An effect and its cause. -/
def effectOfCause : CausalGraph := run [(⟨0, 0, 1⟩, [⟨0, 0, 0⟩])]

theorem toCsr_effectOfCause : effectOfCause.toCsr = ⟨[⟨0, 0, 0⟩, ⟨0, 0, 1⟩], [0, 0, 1], [0], [0, 1, 1], [1]⟩ := by
  have named : effectOfCause.mentioned = [⟨0, 0, 1⟩, ⟨0, 0, 0⟩] := by decide +kernel
  have ordered : ([⟨0, 0, 1⟩, ⟨0, 0, 0⟩] : List EventId).mergeSort (· ≤ ·) = [⟨0, 0, 0⟩, ⟨0, 0, 1⟩] := by
    simp [List.mergeSort, List.merge, List.MergeSort.Internal.splitInTwo]
    decide
  have sorted : Ascending.sorted ([⟨0, 0, 1⟩, ⟨0, 0, 0⟩] : List EventId) = [⟨0, 0, 0⟩, ⟨0, 0, 1⟩] := by
    rw [Ascending.sorted, ordered]
    decide +kernel
  have causes : effectOfCause.rows effectOfCause.immediateCauses = [[], [0]] := by
    rw [rows, named, sorted]
    decide +kernel
  have effects : effectOfCause.rows effectOfCause.immediateEffects = [[1], []] := by
    rw [rows, named, sorted]
    decide +kernel
  rw [toCsr_eq, named, sorted, causes, effects]
  rfl

theorem toCsr_faithful_sample [Crc32fast] : CsrCausalGraph.decode effectOfCause.toCsr.encode = .ok effectOfCause.toCsr := by
  refine ((toCsr_faithful [(⟨0, 0, 1⟩, [⟨0, 0, 0⟩])]).2.2 ?_).2.2 ?_ ?_
  · exact toCsr_effectOfCause ▸ (by decide : 2 < 2 ^ 32)
  · exact toCsr_effectOfCause ▸ (by decide : 1 < 2 ^ 32)
  · exact toCsr_effectOfCause ▸ (by decide : 1 < 2 ^ 32)

end CausalGraph

end Temnion.Causal
