import Temnion.Format.Codec
import Temnion.Library.Slices

/-
This file reads the packed causal graph and says for which bytes its lists of neighbours can be asked for.
-/

namespace Temnion.Causal

open LittleEndian Slices Format

inductive CsrError where
  | format (message : String)
  | checksumMismatch
  | invalidMagic
  | unsupportedVersion (version : UInt16)
  deriving DecidableEq, Repr

def causalMagic : List UInt8 := [84, 78, 67, 71]

def causalVersion : UInt16 := 1

structure CsrCausalGraph where
  events : List EventId
  causeOffsets : List Nat
  causeIndices : List UInt32
  effectOffsets : List Nat
  effectIndices : List UInt32

namespace CsrCausalGraph

def eventCount (graph : CsrCausalGraph) : Nat := graph.events.length

/-- The targets of one event. An offset out of order or out of range is a panic. -/
def targets (count : Nat) (offsets : List Nat) (indices : List UInt32) (index : Nat) : Option (List UInt32) :=
  if count ≤ index then some []
  else
    match offsets[index]?, offsets[index + 1]? with
    | some start, some stop =>
        if start ≤ stop ∧ stop ≤ indices.length then some ((indices.drop start).take (stop - start)) else none
    | _, _ => none

def immediateCauses (graph : CsrCausalGraph) (index : Nat) : Option (List UInt32) :=
  targets graph.events.length graph.causeOffsets graph.causeIndices index

def immediateEffects (graph : CsrCausalGraph) (index : Nat) : Option (List UInt32) :=
  targets graph.events.length graph.effectOffsets graph.effectIndices index

/-- The events lie one after the other. -/
def readEvents (body : List UInt8) (offset : Nat) : Nat → Parse CsrError (List EventId)
  | 0 => .ok []
  | count + 1 => do
      refuseIf (body.length < offset + 4 + 8 + 8) (.refused (.format "truncated event records"))
      let source ← u32At body offset
      let epoch ← u64At body (offset + 4)
      let sequence ← u64At body (offset + 12)
      let events ← readEvents body (offset + 20) count
      return ⟨source, epoch, sequence⟩ :: events

/-- The number of targets, the offsets and the targets. -/
def readSection (body : List UInt8) (offset count : Nat) (lengthError error : String) :
    Parse CsrError (List Nat × List UInt32 × Nat) := do
  refuseIf (body.length < offset + 4) (.refused (.format lengthError))
  let length ← u32At body offset
  refuseIf (body.length < offset + 4 + (count + 1) * 4 + length.toNat * 4) (.refused (.format error))
  let offsets ← wordsAt body (offset + 4) (count + 1)
  let indices ← wordsAt body (offset + 4 + 4 * (count + 1)) length.toNat
  return (offsets.map UInt32.toNat, indices, offset + 4 + 4 * (count + 1) + 4 * length.toNat)

def decode [Crc32fast] (bytes : List UInt8) : Parse CsrError CsrCausalGraph := do
  refuseIf (bytes.length < 14) (.refused (.format "truncated causal graph header"))
  refuseIf (slice bytes 0 4 ≠ causalMagic) (.refused .invalidMagic)
  let version ← u16At bytes 4
  refuseIf (version ≠ causalVersion) (.refused (.unsupportedVersion version))
  let count ← u32At bytes 6
  let expected ← u32At bytes 10
  let body := bytes.drop 14
  refuseIf (Crc32fast.hash body ≠ expected) (.refused .checksumMismatch)
  let events ← readEvents body 0 count.toNat
  let (causeOffsets, causeIndices, offset) ← readSection body (20 * count.toNat) count.toNat
    "truncated cause indices length" "truncated cause offsets/indices"
  let (effectOffsets, effectIndices, _) ← readSection body offset count.toNat
    "truncated effect indices length" "truncated effect offsets/indices"
  return ⟨events, causeOffsets, causeIndices, effectOffsets, effectIndices⟩

section Sections

variable {body : List UInt8} {offset count next : Nat} {events : List EventId} {offsets : List Nat}
  {indices : List UInt32} {lengthError error : String}

theorem readEvents_ok (read : readEvents body offset count = .ok events) : events.length = count := by
  induction count generalizing offset events with
  | zero =>
      obtain rfl := Except.ok.inj read
      rfl
  | succ count hypothesis =>
      rw [readEvents, Except.bind_eq_ok] at read
      obtain ⟨_, _, read⟩ := read
      obtain ⟨source, _, read⟩ := Except.bind_eq_ok.mp read
      obtain ⟨epoch, _, read⟩ := Except.bind_eq_ok.mp read
      obtain ⟨sequence, _, read⟩ := Except.bind_eq_ok.mp read
      obtain ⟨rest, others, read⟩ := Except.bind_eq_ok.mp read
      obtain rfl := Except.ok.inj read
      rw [List.length_cons, hypothesis others]

/-- The words of a section: its number of targets, its offsets and its targets. -/
def sectionLength (body : List UInt8) (offset : Nat) : Nat := (getU32 body offset).toNat

def sectionOffset (body : List UInt8) (offset index : Nat) : Nat := (getU32 body (offset + 4 + 4 * index)).toNat

def sectionTarget (body : List UInt8) (offset count index : Nat) : UInt32 :=
  getU32 body (offset + 4 + 4 * (count + 1) + 4 * index)

/-- The place behind a section. -/
def sectionEnd (body : List UInt8) (offset count : Nat) : Nat :=
  offset + 4 + 4 * (count + 1) + 4 * sectionLength body offset

/-- A section that is read consists of its words. -/
theorem readSection_ok (read : readSection body offset count lengthError error = .ok (offsets, indices, next)) :
    offsets = (List.range (count + 1)).map (sectionOffset body offset) ∧
      indices = (List.range (sectionLength body offset)).map (sectionTarget body offset count) ∧
        next = sectionEnd body offset count := by
  rw [readSection, Except.bind_eq_ok] at read
  obtain ⟨_, guarded, read⟩ := read
  have header := Except.refuseIf_ok.mp guarded
  rw [u32At_ok (by omega), Except.ok_bind, Except.bind_eq_ok] at read
  obtain ⟨_, guarded', read⟩ := read
  have inside := Except.refuseIf_ok.mp guarded'
  rw [wordsAt_ok (by omega), Except.ok_bind, wordsAt_ok (by omega), Except.ok_bind] at read
  obtain ⟨rfl, rfl, rfl⟩ := Prod.mk.inj (Except.ok.inj read) |>.imp_right Prod.mk.inj
  exact ⟨List.map_map, rfl, rfl⟩

end Sections

section Neighbours

variable {count length index : Nat} {offsetOf : Nat → Nat} {targetOf : Nat → UInt32}

/-- A part of a list that is given by its places. -/
theorem mem_part {start stop : Nat} (inside : stop ≤ length) {target : UInt32} :
    target ∈ ((((List.range length).map targetOf).drop start).take (stop - start)) ↔
      ∃ place, start ≤ place ∧ place < stop ∧ targetOf place = target := by
  rw [List.mem_iff_getElem?]
  constructor
  · rintro ⟨index, found⟩
    rw [List.getElem?_take] at found
    split at found
    · rename_i less
      rw [List.getElem?_drop, List.getElem?_map, List.getElem?_range (by omega)] at found
      exact ⟨start + index, by omega, by omega, Option.some.inj found⟩
    · contradiction
  · rintro ⟨place, behind, before, rfl⟩
    refine ⟨place - start, ?_⟩
    have same : start + (place - start) = place := by omega
    rw [List.getElem?_take, if_pos (by omega), List.getElem?_drop, same, List.getElem?_map,
      List.getElem?_range (by omega)]
    rfl

/-- The offsets of an event are in order and in range, and so are its targets. -/
def Bounded (count length : Nat) (offsetOf : Nat → Nat) (targetOf : Nat → UInt32) : Prop :=
  ∀ index < count, offsetOf index ≤ offsetOf (index + 1) ∧ offsetOf (index + 1) ≤ length ∧
    ∀ place, offsetOf index ≤ place → place < offsetOf (index + 1) → (targetOf place).toNat < count

/-- All neighbours can be asked for, and are events of the graph, exactly when the tables are bounded. -/
theorem targets_iff :
    (∀ index, ∃ list, targets count ((List.range (count + 1)).map offsetOf) ((List.range length).map targetOf) index =
        some list ∧ ∀ target ∈ list, target.toNat < count) ↔ Bounded count length offsetOf targetOf := by
  have look : ∀ index < count, targets count ((List.range (count + 1)).map offsetOf)
      ((List.range length).map targetOf) index =
        if offsetOf index ≤ offsetOf (index + 1) ∧ offsetOf (index + 1) ≤ length then
          some ((((List.range length).map targetOf).drop (offsetOf index)).take
            (offsetOf (index + 1) - offsetOf index)) else none := by
    intro index less
    rw [targets, if_neg (Nat.not_le.mpr less), List.getElem?_map, List.getElem?_map, List.getElem?_range (by omega),
      List.getElem?_range (by omega), Option.map_some, Option.map_some, List.length_map, List.length_range]
  constructor
  · intro always index less
    obtain ⟨list, answered, small⟩ := always index
    rw [look index less] at answered
    split at answered
    · rename_i ordered
      obtain rfl := Option.some.inj answered
      refine ⟨ordered.1, ordered.2, ?_⟩
      intro place behind before
      exact small (targetOf place) ((mem_part ordered.2).mpr ⟨place, behind, before, rfl⟩)
    · contradiction
  · intro bounded index
    by_cases less : index < count
    · obtain ⟨ordered, inside, small⟩ := bounded index less
      refine ⟨_, (look index less).trans (if_pos ⟨ordered, inside⟩), ?_⟩
      intro target member
      obtain ⟨place, behind, before, rfl⟩ := (mem_part inside).mp member
      exact small place behind before
    · exact ⟨[], if_pos (Nat.not_lt.mp less), nofun⟩

end Neighbours

section Decode

variable [Crc32fast]

/-- The number of events that the header announces, and what follows the header. -/
def announced (bytes : List UInt8) : Nat := (getU32 bytes 6).toNat

/-- The cause and the effect section of the input are bounded. -/
def SectionBounded (bytes : List UInt8) (offset : Nat) : Prop :=
  Bounded (announced bytes) (sectionLength (bytes.drop 14) offset) (sectionOffset (bytes.drop 14) offset)
    (sectionTarget (bytes.drop 14) offset (announced bytes))

/-- An accepted graph consists of the words of the input. -/
theorem decode_ok {bytes : List UInt8} {graph : CsrCausalGraph} (accepted : decode bytes = .ok graph) :
    let body := bytes.drop 14
    let count := announced bytes
    let causes := 20 * count
    let effects := sectionEnd body causes count
    graph.events.length = count ∧
      graph.causeOffsets = (List.range (count + 1)).map (sectionOffset body causes) ∧
      graph.causeIndices = (List.range (sectionLength body causes)).map (sectionTarget body causes count) ∧
      graph.effectOffsets = (List.range (count + 1)).map (sectionOffset body effects) ∧
      graph.effectIndices = (List.range (sectionLength body effects)).map (sectionTarget body effects count) := by
  rw [decode, Except.bind_eq_ok] at accepted
  obtain ⟨_, guarded, accepted⟩ := accepted
  have header := Except.refuseIf_ok.mp guarded
  obtain ⟨_, _, accepted⟩ := Except.bind_eq_ok.mp accepted
  obtain ⟨version, _, accepted⟩ := Except.bind_eq_ok.mp accepted
  obtain ⟨_, _, accepted⟩ := Except.bind_eq_ok.mp accepted
  rw [u32At_ok (by omega), Except.ok_bind, u32At_ok (by omega), Except.ok_bind] at accepted
  obtain ⟨_, _, accepted⟩ := Except.bind_eq_ok.mp accepted
  obtain ⟨events, listed, accepted⟩ := Except.bind_eq_ok.mp accepted
  obtain ⟨⟨causeOffsets, causeIndices, effects⟩, causes, accepted⟩ := Except.bind_eq_ok.mp accepted
  obtain ⟨⟨effectOffsets, effectIndices, _⟩, effects', accepted⟩ := Except.bind_eq_ok.mp accepted
  obtain rfl := Except.ok.inj accepted
  obtain ⟨rfl, rfl, rfl⟩ := readSection_ok causes
  obtain ⟨rfl, rfl, _⟩ := readSection_ok effects'
  exact ⟨readEvents_ok listed, rfl, rfl, rfl, rfl⟩

/-- The neighbours of all events of an accepted graph can be asked for, and are events of the graph, exactly when both
sections of the input are bounded. -/
theorem accessors_bounded_iff {bytes : List UInt8} {graph : CsrCausalGraph} (accepted : decode bytes = .ok graph) :
    (∀ index, (∃ causes, graph.immediateCauses index = some causes ∧
          ∀ cause ∈ causes, cause.toNat < graph.eventCount) ∧
        ∃ effects, graph.immediateEffects index = some effects ∧
          ∀ effect ∈ effects, effect.toNat < graph.eventCount) ↔
      SectionBounded bytes (20 * announced bytes) ∧
        SectionBounded bytes (sectionEnd (bytes.drop 14) (20 * announced bytes) (announced bytes)) := by
  obtain ⟨events, causeOffsets, causeIndices, effectOffsets, effectIndices⟩ := decode_ok accepted
  rw [forall_and]
  unfold immediateCauses immediateEffects eventCount
  rw [events, causeOffsets, causeIndices, effectOffsets, effectIndices]
  exact and_congr targets_iff targets_iff

end Decode

section Samples

variable [Crc32fast]

/-- A graph of one event whose causes end beyond the list of causes. -/
def overrunBody : List UInt8 :=
  le32 1 ++ le64 1 ++ le64 0 ++ (le32 0 ++ le32 0 ++ le32 5) ++ (le32 0 ++ le32 0 ++ le32 0)

def overrun : List UInt8 :=
  causalMagic ++ le16 causalVersion ++ le32 1 ++ le32 (Crc32fast.hash overrunBody) ++ overrunBody

theorem decode_overrun : decode overrun = .ok ⟨[⟨1, 1, 0⟩], [0, 5], [], [0, 0], []⟩ := by
  have stored : slice overrun 10 4 = le32 (Crc32fast.hash overrunBody) := rfl
  have expected : (u32At overrun 10 : Parse CsrError UInt32) = .ok (Crc32fast.hash overrunBody) := by
    rw [u32At_ok (show 10 + 4 ≤ 58 by decide), getU32_of_slice stored]
  have count : (u32At overrun 6 : Parse CsrError UInt32) = .ok 1 := rfl
  have version : (u16At overrun 4 : Parse CsrError UInt16) = .ok causalVersion := rfl
  have magic : slice overrun 0 4 = causalMagic := rfl
  have body : overrun.drop 14 = overrunBody := rfl
  have events : readEvents overrunBody 0 1 = .ok [⟨1, 1, 0⟩] := rfl
  have causes : readSection overrunBody 20 1 "truncated cause indices length" "truncated cause offsets/indices" =
      .ok ([0, 5], [], 32) := rfl
  have effects : readSection overrunBody 32 1 "truncated effect indices length" "truncated effect offsets/indices" =
      .ok ([0, 0], [], 44) := rfl
  have enough : ¬ overrun.length < 14 := show ¬ 58 < 14 by decide
  rw [decode, Except.refuseIf_bind enough, Except.refuseIf_bind (not_not.mpr magic), version, Except.ok_bind,
    Except.refuseIf_bind (not_not.mpr rfl), count, Except.ok_bind, expected, Except.ok_bind, body]
  change (refuseIf (Crc32fast.hash overrunBody ≠ Crc32fast.hash overrunBody) _ >>= _) = _
  rw [Except.refuseIf_bind (not_not.mpr rfl)]
  change (readEvents overrunBody 0 1 >>= _) = _
  rw [events, Except.ok_bind]
  change (readSection overrunBody 20 1 _ _ >>= _) = _
  rw [causes, Except.ok_bind]
  change (readSection overrunBody 32 1 _ _ >>= _) = _
  rw [effects]
  rfl

end Samples

/-- The causes of the only event cannot be asked for. -/
theorem accepted_graph_panics :
    letI := Crc32fast.ieee
    ∃ graph, decode overrun = .ok graph ∧ graph.immediateCauses 0 = none := by
  generalize Crc32fast.ieee = checksum
  exact ⟨_, decode_overrun, rfl⟩

/-- What is asked of the bytes that are accepted. -/
theorem accessors_bounded_sample :
    letI := Crc32fast.ieee
    (∀ index, (∃ causes, CsrCausalGraph.immediateCauses ⟨[⟨1, 1, 0⟩], [0, 5], [], [0, 0], []⟩ index = some causes ∧
          ∀ cause ∈ causes, cause.toNat < 1) ∧
        ∃ effects, CsrCausalGraph.immediateEffects ⟨[⟨1, 1, 0⟩], [0, 5], [], [0, 0], []⟩ index = some effects ∧
          ∀ effect ∈ effects, effect.toNat < 1) ↔
      SectionBounded overrun (20 * announced overrun) ∧
        SectionBounded overrun (sectionEnd (overrun.drop 14) (20 * announced overrun) (announced overrun)) := by
  generalize Crc32fast.ieee = checksum
  exact accessors_bounded_iff decode_overrun

end CsrCausalGraph

end Temnion.Causal
