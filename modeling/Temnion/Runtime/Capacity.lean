import Temnion.Runtime.Tiers

/-
This file says what an enforcement of the capacities leaves in each tier.
-/

namespace Temnion.Runtime

/-- The order of the tiers, from the slowest to the fastest. -/
def StorageTier.rank : StorageTier → Nat
  | .hotDram => 2
  | .warmMapped => 1
  | .coldMedia => 0

namespace Segments

variable {upper lower : StorageTier} {capacity : UInt64} {steps : Nat} {segments : Segments} {id : SegmentId}
  {segment : TieredSegment}

/-- What is in the upper tier afterwards was there before. -/
theorem Demoted.still {after : Segments} (differ : upper ≠ lower) (demoted : Demoted upper lower segments after)
    (found : after[id]? = some segment) (above : segment.tier = upper) : segments[id]? = some segment := by
  cases before : segments[id]? with
  | none =>
      rw [demoted.added id before] at found
      contradiction
  | some existing =>
      rcases demoted.kept id existing before with same | ⟨-, moved⟩
      · rw [← same, found]
      · rw [moved] at found
        rw [← Option.some.inj found] at above
        exact absurd above.symm differ

/-- Some segments have moved to slower tiers, and nothing else has changed. -/
def Lowered (segments after : Segments) : Prop :=
  ∀ id : SegmentId, segments[id]? = none ∧ after[id]? = none ∨
    ∃ segment tier, segments[id]? = some segment ∧ after[id]? = some (place tier segment) ∧ tier.rank ≤ segment.tier.rank

theorem Demoted.lowered {after : Segments} (down : lower.rank ≤ upper.rank) (demoted : Demoted upper lower segments after) :
    Lowered segments after := by
  intro id
  cases found : segments[id]? with
  | none => exact .inl ⟨rfl, demoted.added id found⟩
  | some segment =>
      rcases demoted.kept id segment found with same | ⟨above, moved⟩
      · exact .inr ⟨segment, segment.tier, rfl, same, le_rfl⟩
      · exact .inr ⟨segment, lower, rfl, moved, above ▸ down⟩

theorem Lowered.trans {between after : Segments} (first : Lowered segments between) (second : Lowered between after) :
    Lowered segments after := by
  intro id
  rcases first id with ⟨absent, gone⟩ | ⟨segment, tier, found, moved, below⟩
  · rcases second id with ⟨-, still⟩ | ⟨other, -, present, -⟩
    · exact .inl ⟨absent, still⟩
    · rw [gone] at present
      contradiction
  · rcases second id with ⟨absent, -⟩ | ⟨other, last, present, lowered, further⟩
    · rw [absent] at moved
      contradiction
    · rw [moved] at present
      obtain rfl := Option.some.inj present
      exact .inr ⟨segment, last, found, lowered, further.trans below⟩

end Segments

namespace TieredStorageManager

/-- The state after any use of a manager. Its capacities may be set at any time. -/
inductive Reached : TieredStorageManager → Prop
  | new (hotCapacityBytes warmCapacityBytes : UInt64) : Reached (new hotCapacityBytes warmCapacityBytes)
  | perform {manager : TieredStorageManager} (reached : Reached manager) (call : Call) : Reached (manager.perform call)
  | enforce {manager : TieredStorageManager} (reached : Reached manager) : Reached manager.enforceCapacity
  | resize {manager : TieredStorageManager} (reached : Reached manager) (hotCapacityBytes warmCapacityBytes : UInt64) :
      Reached { manager with hotCapacityBytes, warmCapacityBytes }

section Enforcement

variable {manager : TieredStorageManager}

/-- The segments after the first of the two loops. -/
def hotEnforced (manager : TieredStorageManager) : Segments :=
  manager.segments.demote .hotDram .warmMapped manager.hotCapacityBytes manager.segments.size

theorem enforceCapacity_segments (manager : TieredStorageManager) : manager.enforceCapacity.segments =
    manager.hotEnforced.demote .warmMapped .coldMedia manager.warmCapacityBytes manager.hotEnforced.size := rfl

theorem Reached.valid (reached : Reached manager) : manager.Valid := by
  induction reached with
  | new hotCapacityBytes warmCapacityBytes => exact new_valid _ _
  | perform reached call hypothesis => exact hypothesis.perform call
  | enforce reached hypothesis => exact hypothesis.enforceCapacity
  | resize reached hotCapacityBytes warmCapacityBytes hypothesis => exact ⟨hypothesis.keyed, hypothesis.past⟩

end Enforcement

end TieredStorageManager

end Temnion.Runtime
