import Temnion.Storage.Store
import Temnion.Library.Ascending
import Temnion.Library.Words

/-
This file says which events a retention policy lets go.
-/

namespace Temnion.Storage

namespace ReferenceHold

def new : ReferenceHold := ⟨∅⟩

def holdSequence (hold : ReferenceHold) (sequence : UInt64) : ReferenceHold := ⟨insert sequence hold.heldSequences⟩

/-- Both ends of the range are held. -/
def holdRange (hold : ReferenceHold) (start endInclusive : UInt64) : ReferenceHold :=
  (List.range (endInclusive.toNat + 1 - start.toNat)).foldl
    (fun hold offset => hold.holdSequence (UInt64.ofNat (start.toNat + offset))) hold

/-- What is asked of a hold. -/
inductive Request where
  | single (sequence : UInt64)
  | range (start endInclusive : UInt64)

def step (hold : ReferenceHold) : Request → ReferenceHold
  | .single sequence => hold.holdSequence sequence
  | .range start endInclusive => hold.holdRange start endInclusive

/-- The request covers the sequence. -/
def Request.Covers : Request → UInt64 → Prop
  | .single held, sequence => sequence = held
  | .range start endInclusive, sequence => start ≤ sequence ∧ sequence ≤ endInclusive

section Requests

variable {hold : ReferenceHold} {held : UInt64}

theorem mem_holdSequence {sequence : UInt64} :
    held ∈ (hold.holdSequence sequence).heldSequences ↔ held = sequence ∨ held ∈ hold.heldSequences :=
  Finset.mem_insert

theorem mem_holdRange {start endInclusive : UInt64} :
    held ∈ (hold.holdRange start endInclusive).heldSequences ↔
      start ≤ held ∧ held ≤ endInclusive ∨ held ∈ hold.heldSequences := by
  have grown : ∀ count, held ∈ ((List.range count).foldl
      (fun hold offset => hold.holdSequence (UInt64.ofNat (start.toNat + offset))) hold).heldSequences ↔
        (∃ offset < count, held = UInt64.ofNat (start.toNat + offset)) ∨ held ∈ hold.heldSequences := by
    intro count
    induction count with
    | zero => simp
    | succ count hypothesis =>
        rw [List.range_succ, List.foldl_append, List.foldl_cons, List.foldl_nil, mem_holdSequence, hypothesis,
          Nat.exists_lt_succ_right, ← or_assoc, or_comm (a := held = _)]
  have bound := endInclusive.toNat_lt
  rw [holdRange, grown, UInt64.le_iff_toNat_le, UInt64.le_iff_toNat_le]
  apply or_congr_left
  constructor
  · rintro ⟨offset, inside, rfl⟩
    rw [UInt64.toNat_ofNat_of_lt' (show start.toNat + offset < 2 ^ 64 by omega)]
    omega
  · rintro ⟨least, most⟩
    refine ⟨held.toNat - start.toNat, by omega, ?_⟩
    rw [Nat.add_sub_cancel' least, UInt64.ofNat_toNat]

/-- A hold covers what some request covered. -/
theorem held_iff (requests : List Request) :
    (requests.foldl step new).isSequenceHeld held ↔ ∃ request ∈ requests, request.Covers held := by
  rw [isSequenceHeld, decide_eq_true_iff]
  induction requests using List.reverseRecOn with
  | nil => simp [new]
  | append_singleton requests request hypothesis =>
      rw [List.foldl_append, List.foldl_cons, List.foldl_nil]
      have added : held ∈ ((requests.foldl step new).step request).heldSequences ↔
          request.Covers held ∨ held ∈ (requests.foldl step new).heldSequences := by
        cases request with
        | single sequence => exact mem_holdSequence
        | range start endInclusive => exact mem_holdRange
      rw [added, hypothesis, or_comm]
      simp only [List.mem_append, List.mem_singleton, or_and_right, exists_or, exists_eq_left]

end Requests

end ReferenceHold

structure RetentionPolicy where
  maxAgeTicks : Option UInt64
  maxRetainedEvents : Option Nat

namespace RetentionPolicy

def isHeld (holds : List ReferenceHold) (sequence : UInt64) : Bool := holds.any fun hold => hold.isSequenceHeld sequence

/-- An event of the future has no age. -/
def age (currentTicks : UInt64) (event : StoredEvent) : Nat := currentTicks.toNat - event.times.valid.ticks.toNat

/-- The events that are older than the policy allows. -/
def aged (policy : RetentionPolicy) (events : List StoredEvent) (currentTicks : UInt64) (holds : List ReferenceHold) :
    List UInt64 :=
  match policy.maxAgeTicks with
  | none => []
  | some maxAge => events.foldl (fun candidates event =>
      if maxAge.toNat < age currentTicks event ∧ isHeld holds event.id.sequence = false then
        candidates ++ [event.id.sequence]
      else candidates) []

/-- The first events are let go when there are too many. -/
def excessive (policy : RetentionPolicy) (events : List StoredEvent) (holds : List ReferenceHold)
    (candidates : List UInt64) : List UInt64 :=
  match policy.maxRetainedEvents with
  | none => candidates
  | some maxEvents =>
      if maxEvents < events.length then
        (events.take (events.length - maxEvents)).foldl (fun candidates event =>
          if candidates.contains event.id.sequence = false ∧ isHeld holds event.id.sequence = false then
            candidates ++ [event.id.sequence]
          else candidates) candidates
      else candidates

def evaluateReclaimable (policy : RetentionPolicy) (events : List StoredEvent) (currentTicks : UInt64)
    (holds : List ReferenceHold) : List UInt64 :=
  Ascending.sorted (policy.excessive events holds (policy.aged events currentTicks holds))

section Reclaiming

variable {policy : RetentionPolicy} {events : List StoredEvent} {currentTicks sequence : UInt64}
  {holds : List ReferenceHold} {candidates : List UInt64}

/-- A loop that pushes some sequences adds them to the candidates. -/
theorem mem_foldl_push {wanted : StoredEvent → Prop} {push : List UInt64 → StoredEvent → List UInt64}
    (pushes : ∀ candidates event, sequence ∈ push candidates event ↔
      sequence ∈ candidates ∨ wanted event ∧ event.id.sequence = sequence) :
    sequence ∈ events.foldl push candidates ↔
      sequence ∈ candidates ∨ ∃ event ∈ events, wanted event ∧ event.id.sequence = sequence := by
  induction events generalizing candidates with
  | nil => simp
  | cons event events hypothesis =>
      rw [List.foldl_cons, hypothesis, pushes, or_assoc]
      simp only [List.mem_cons, or_and_right, exists_or, exists_eq_left]

/-- What a conditional push adds, when the sequences of the other events are candidates already. -/
theorem mem_push {wanted : Prop} [Decidable wanted] {event : StoredEvent} {kept : Prop}
    (adds : wanted ∧ event.id.sequence = sequence → kept) (covers : kept → sequence ∈ candidates ∨ wanted ∧
      event.id.sequence = sequence) :
    sequence ∈ (if wanted then candidates ++ [event.id.sequence] else candidates) ↔ sequence ∈ candidates ∨ kept := by
  split
  · next holds =>
      rw [List.mem_append, List.mem_singleton]
      constructor
      · rintro (earlier | rfl)
        · exact Or.inl earlier
        · exact Or.inr (adds ⟨holds, rfl⟩)
      · rintro (earlier | keeps)
        · exact Or.inl earlier
        · exact (covers keeps).imp_right fun both => both.2.symm
  · next fails =>
      constructor
      · exact Or.inl
      · rintro (earlier | keeps)
        · exact earlier
        · exact (covers keeps).resolve_right fun both => fails both.1

theorem mem_aged : sequence ∈ policy.aged events currentTicks holds ↔
    ∃ event ∈ events, (∃ maxAge, policy.maxAgeTicks = some maxAge ∧ maxAge.toNat < age currentTicks event ∧
      isHeld holds event.id.sequence = false) ∧ event.id.sequence = sequence := by
  unfold aged
  cases policy.maxAgeTicks with
  | none => simp
  | some maxAge =>
      have pushes : ∀ (candidates : List UInt64) (event : StoredEvent),
          sequence ∈ (if maxAge.toNat < age currentTicks event ∧ isHeld holds event.id.sequence = false then
            candidates ++ [event.id.sequence] else candidates) ↔ sequence ∈ candidates ∨
              (maxAge.toNat < age currentTicks event ∧ isHeld holds event.id.sequence = false) ∧
                event.id.sequence = sequence := fun _ _ => mem_push id Or.inr
      dsimp only
      rw [mem_foldl_push pushes]
      simp

theorem mem_excessive : sequence ∈ policy.excessive events holds candidates ↔ sequence ∈ candidates ∨
    ∃ maxEvents, policy.maxRetainedEvents = some maxEvents ∧ ∃ event ∈ events.take (events.length - maxEvents),
      isHeld holds event.id.sequence = false ∧ event.id.sequence = sequence := by
  unfold excessive
  cases policy.maxRetainedEvents with
  | none => simp
  | some maxEvents =>
      have pushes : ∀ (candidates : List UInt64) (event : StoredEvent),
          sequence ∈ (if candidates.contains event.id.sequence = false ∧ isHeld holds event.id.sequence = false then
            candidates ++ [event.id.sequence] else candidates) ↔ sequence ∈ candidates ∨
              isHeld holds event.id.sequence = false ∧ event.id.sequence = sequence := by
        intro candidates event
        refine mem_push (fun both => ⟨both.1.2, both.2⟩) fun kept => ?_
        cases present : candidates.contains event.id.sequence with
        | true => exact Or.inl (kept.2 ▸ List.contains_iff_mem.mp present)
        | false => exact Or.inr ⟨⟨rfl, kept.1⟩, kept.2⟩
      simp only [Option.some.injEq, exists_eq_left']
      by_cases many : maxEvents < events.length
      · rw [if_pos many, mem_foldl_push pushes]
      · rw [if_neg many, Nat.sub_eq_zero_of_le (Nat.not_lt.mp many)]
        simp

/-- The result is strictly increasing, and it has exactly the sequences that no request for a hold covers and that belong
to an event beyond the age or among the first ones beyond the count. -/
theorem reclaimable_exact (policy : RetentionPolicy) (events : List StoredEvent) (currentTicks : UInt64)
    (requests : List (List ReferenceHold.Request)) :
    let holds := requests.map fun asked => asked.foldl ReferenceHold.step ReferenceHold.new
    (policy.evaluateReclaimable events currentTicks holds).Pairwise (· < ·) ∧
      ∀ sequence, sequence ∈ policy.evaluateReclaimable events currentTicks holds ↔
        (∀ asked ∈ requests, ∀ request ∈ asked, ¬request.Covers sequence) ∧
          ∃ (index : Nat) (event : StoredEvent), events[index]? = some event ∧ event.id.sequence = sequence ∧
            ((∃ maxAge, policy.maxAgeTicks = some maxAge ∧ maxAge.toNat < age currentTicks event) ∨
              ∃ maxEvents, policy.maxRetainedEvents = some maxEvents ∧ index + maxEvents < events.length) := by
  intro holds
  refine ⟨Ascending.sorted_pairwise _, fun sequence => ?_⟩
  have free : isHeld holds sequence = false ↔ ∀ asked ∈ requests, ∀ request ∈ asked, ¬request.Covers sequence := by
    rw [isHeld, List.any_eq_false, List.forall_mem_map]
    simp only [ReferenceHold.held_iff, not_exists, not_and]
  rw [evaluateReclaimable, Ascending.mem_sorted, mem_excessive, mem_aged, ← free]
  constructor
  · rintro (⟨event, member, ⟨maxAge, bounded, old, unheld⟩, rfl⟩ | ⟨maxEvents, bounded, event, member, unheld, rfl⟩)
    · obtain ⟨index, found⟩ := List.mem_iff_getElem?.mp member
      exact ⟨unheld, index, event, found, rfl, Or.inl ⟨maxAge, bounded, old⟩⟩
    · obtain ⟨index, found⟩ := List.mem_iff_getElem?.mp member
      obtain ⟨inside, -⟩ := List.getElem?_eq_some_iff.mp found
      have early : index < events.length - maxEvents := inside.trans_le (List.length_take_le _ _)
      rw [List.getElem?_take_of_lt early] at found
      exact ⟨unheld, index, event, found, rfl, Or.inr ⟨maxEvents, bounded, by omega⟩⟩
  · rintro ⟨unheld, index, event, found, rfl, ⟨maxAge, bounded, old⟩ | ⟨maxEvents, bounded, early⟩⟩
    · exact Or.inl ⟨event, List.mem_of_getElem? found, ⟨maxAge, bounded, old, unheld⟩, rfl⟩
    · have first : (events.take (events.length - maxEvents))[index]? = some event := by
        rw [List.getElem?_take_of_lt (by omega), found]
      exact Or.inr ⟨maxEvents, bounded, event, List.mem_of_getElem? first, unheld, rfl⟩

end Reclaiming

end RetentionPolicy

end Temnion.Storage
