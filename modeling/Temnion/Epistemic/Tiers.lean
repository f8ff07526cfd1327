import Temnion.Library.OrderedMap
import Temnion.Library.Runs
import Temnion.Library.Sorting
import Temnion.Library.Words
import Temnion.Epistemic.TruthMaintenance
import Mathlib.Data.Prod.Lex

/-
This file keeps knowledge in three tiers and says which item leaves the active one.
-/

namespace Temnion.Epistemic

open Sorting

inductive KnowledgeTier where
  | active
  | reference
  | archive
  deriving DecidableEq, Repr

structure Episode where
  id : UInt64
  label : Text
  observations : List KnowledgeId
  startTime : Timestamp
  endTime : Timestamp

structure Pattern where
  id : Nat
  signature : Text
  occurrenceCount : UInt64
  derivedConcept : Option Text

structure TieredKnowledgeStore where
  maxActiveItems : Nat
  tierMap : OrderedMap KnowledgeId KnowledgeTier
  accessCounts : OrderedMap KnowledgeId UInt64
  episodes : List Episode
  patterns : List Pattern

/-- Items are evicted in the order of their access counts, and then of their ids. -/
def evictionKey (item : KnowledgeId × UInt64) : UInt64 ×ₗ KnowledgeId := toLex (item.2, item.1)

namespace TieredKnowledgeStore

def new (maxActiveItems : Nat) : TieredKnowledgeStore := ⟨maxActiveItems, ∅, ∅, [], []⟩

def tierOf (store : TieredKnowledgeStore) (id : KnowledgeId) : Option KnowledgeTier := store.tierMap[id]?

def isActive (entry : KnowledgeId × KnowledgeTier) : Bool := entry.2 = .active

def activeCount (store : TieredKnowledgeStore) : Nat := (store.tierMap.toList.filter isActive).length

def accessCount (store : TieredKnowledgeStore) (id : KnowledgeId) : UInt64 := store.accessCounts[id]?.getD 0

/-- The active items with their access counts in the order of an iteration of the map. -/
def activeItems (store : TieredKnowledgeStore) (iteration : Iteration (KnowledgeId × KnowledgeTier)) :
    List (KnowledgeId × UInt64) :=
  ((iteration.arrange store.tierMap.toList).filter isActive).map fun (id, _) => (id, store.accessCount id)

def evictIfNeeded (store : TieredKnowledgeStore) (iteration : Iteration (KnowledgeId × KnowledgeTier)) :
    TieredKnowledgeStore :=
  if store.maxActiveItems < store.activeCount then
    match (UnstableSort.stable evictionKey).sort (store.activeItems iteration) with
    | (victim, _) :: _ => { store with tierMap := store.tierMap.insert victim .archive }
    | [] => store
  else store

/-- The item in the active tier, before anything is evicted. -/
def placeActive (store : TieredKnowledgeStore) (id : KnowledgeId) : TieredKnowledgeStore := { store with
  tierMap := store.tierMap.insert id .active
  accessCounts := store.accessCounts.insert id 1 }

def insertActive (store : TieredKnowledgeStore) (iteration : Iteration (KnowledgeId × KnowledgeTier)) (id : KnowledgeId) :
    TieredKnowledgeStore :=
  (store.placeActive id).evictIfNeeded iteration

/-- The count wraps around. -/
def recordAccess (store : TieredKnowledgeStore) (id : KnowledgeId) : TieredKnowledgeStore :=
  { store with accessCounts := store.accessCounts.modify id (· + 1) }

def consolidateEpisode (store : TieredKnowledgeStore) (episode : Episode) (signature : Text) :
    Nat × TieredKnowledgeStore :=
  let patId := store.patterns.length + 1
  (patId, { store with
    tierMap := episode.observations.foldl (fun tiers id => tiers.insert id .reference) store.tierMap
    patterns := store.patterns ++ [⟨patId, signature, 1, some episode.label⟩]
    episodes := store.episodes ++ [episode] })

end TieredKnowledgeStore

/-- An insertion comes with the order in which the map is iterated then. -/
inductive KnowledgeCall where
  | insertActive (iteration : Iteration (KnowledgeId × KnowledgeTier)) (id : KnowledgeId)
  | recordAccess (id : KnowledgeId)
  | consolidateEpisode (episode : Episode) (signature : Text)

/-- The items that a call inserts or observes. -/
def KnowledgeCall.places : KnowledgeCall → List KnowledgeId
  | .insertActive _ id => [id]
  | .recordAccess _ => []
  | .consolidateEpisode episode _ => episode.observations

namespace TieredKnowledgeStore

def step (store : TieredKnowledgeStore) : KnowledgeCall → TieredKnowledgeStore
  | .insertActive iteration id => store.insertActive iteration id
  | .recordAccess id => store.recordAccess id
  | .consolidateEpisode episode signature => (store.consolidateEpisode episode signature).2

def run (maxActiveItems : Nat) (calls : List KnowledgeCall) : TieredKnowledgeStore :=
  calls.foldl step (new maxActiveItems)

section Counts

variable {store after : TieredKnowledgeStore} {tiers : OrderedMap KnowledgeId KnowledgeTier} {id other : KnowledgeId}
  {tier : KnowledgeTier}

end Counts

section Eviction

variable {store : TieredKnowledgeStore} {iteration : Iteration (KnowledgeId × KnowledgeTier)} {id other : KnowledgeId}

/-- The item is active, and no active one has a smaller access count, or the same and a smaller id. -/
structure FirstToLeave (store : TieredKnowledgeStore) (victim : KnowledgeId) : Prop where
  active : store.tierOf victim = some .active
  least : ∀ other, store.tierOf other = some .active →
    store.accessCount victim < store.accessCount other ∨
      store.accessCount victim = store.accessCount other ∧ victim ≤ other

theorem FirstToLeave.unique (one : store.FirstToLeave id) (two : store.FirstToLeave other) : id = other := by
  rcases one.least other two.active with less | ⟨same, below⟩
  · rcases two.least id one.active with greater | ⟨equal, -⟩
    · exact absurd greater less.asymm
    · exact absurd equal.symm less.ne
  · rcases two.least id one.active with greater | ⟨-, above⟩
    · exact absurd same.symm greater.ne
    · exact le_antisymm below above

theorem mem_activeItems {item : KnowledgeId × UInt64} : item ∈ store.activeItems iteration ↔
    store.tierOf item.1 = some .active ∧ item.2 = store.accessCount item.1 := by
  unfold activeItems
  simp only [List.mem_map, List.mem_filter, (iteration.perm _).mem_iff, Prod.exists, OrderedMap.mem_toList, isActive,
    decide_eq_true_eq]
  constructor
  · rintro ⟨id, tier, ⟨found, rfl⟩, rfl⟩
    exact ⟨found, rfl⟩
  · rintro ⟨found, count⟩
    exact ⟨item.1, .active, ⟨found, rfl⟩, Prod.ext rfl count.symm⟩

theorem activeItems_length : (store.activeItems iteration).length = store.activeCount := by
  rw [activeItems, List.length_map, ((iteration.perm _).filter isActive).length_eq, activeCount]

/-- Everything that an eviction can do. -/
theorem evictIfNeeded_cases (store : TieredKnowledgeStore) (iteration : Iteration (KnowledgeId × KnowledgeTier)) :
    store.activeCount ≤ store.maxActiveItems ∧ store.evictIfNeeded iteration = store ∨
      store.maxActiveItems < store.activeCount ∧ ∃ victim, store.FirstToLeave victim ∧
        store.evictIfNeeded iteration = { store with tierMap := store.tierMap.insert victim .archive } := by
  by_cases needed : store.maxActiveItems < store.activeCount
  · refine .inr ⟨needed, ?_⟩
    rw [evictIfNeeded, if_pos needed]
    cases sorted : (UnstableSort.stable evictionKey).sort (store.activeItems iteration) with
    | nil =>
        have length := ((UnstableSort.stable evictionKey).perm (store.activeItems iteration)).length_eq
        rw [sorted, activeItems_length] at length
        rw [← length] at needed
        exact absurd needed (Nat.not_lt_zero _)
    | cons first rest =>
        obtain ⟨member, least⟩ := UnstableSort.head_le _ sorted
        obtain ⟨active, count⟩ := mem_activeItems.mp member
        refine ⟨first.1, ⟨active, fun other also => ?_⟩, rfl⟩
        have below := least (other, store.accessCount other) (mem_activeItems.mpr ⟨also, rfl⟩)
        rw [evictionKey, evictionKey, Prod.Lex.toLex_le_toLex, count] at below
        exact below
  · exact .inl ⟨Nat.not_lt.mp needed, if_neg needed⟩

theorem mem_evictIfNeeded (member : id ∈ store.tierMap) : id ∈ (store.evictIfNeeded iteration).tierMap := by
  rcases evictIfNeeded_cases store iteration with ⟨-, same⟩ | ⟨-, victim, -, result⟩
  · rw [same]
    exact member
  · rw [result, Std.ExtTreeMap.mem_insert]
    exact .inr member

end Eviction

section Runs

variable {store : TieredKnowledgeStore} {maxActiveItems : Nat} {id : KnowledgeId} {call : KnowledgeCall}

theorem mem_foldl (tiers : OrderedMap KnowledgeId KnowledgeTier) (ids : List KnowledgeId)
    (known : id ∈ tiers ∨ id ∈ ids) : id ∈ ids.foldl (fun tiers id => tiers.insert id KnowledgeTier.reference) tiers := by
  induction ids generalizing tiers with
  | nil => exact known.resolve_right List.not_mem_nil
  | cons first ids hypothesis =>
      apply hypothesis
      rw [Std.ExtTreeMap.mem_insert, compare_eq_iff_eq]
      rcases known with old | listed
      · exact .inl (.inr old)
      · rcases List.mem_cons.mp listed with rfl | later
        · exact .inl (.inl rfl)
        · exact .inr later

/-- What has a tier keeps one, and a call gives one to what it inserts or observes. -/
theorem mem_step (known : id ∈ store.tierMap ∨ id ∈ call.places) : id ∈ (store.step call).tierMap := by
  cases call with
  | insertActive iteration inserted =>
      apply mem_evictIfNeeded
      rw [placeActive, Std.ExtTreeMap.mem_insert, compare_eq_iff_eq]
      rcases known with old | new
      · exact .inr old
      · exact .inl (List.mem_singleton.mp new).symm
  | recordAccess accessed => exact known.resolve_right List.not_mem_nil
  | consolidateEpisode episode signature => exact mem_foldl _ _ known

theorem run_concat (maxActiveItems : Nat) (calls : List KnowledgeCall) (call : KnowledgeCall) :
    run maxActiveItems (calls ++ [call]) = (run maxActiveItems calls).step call := Runs.foldl_concat _ _ _ _

theorem run_keeps (maxActiveItems : Nat) {calls : List KnowledgeCall} (made : call ∈ calls) (placed : id ∈ call.places) :
    id ∈ (run maxActiveItems calls).tierMap := by
  induction calls using List.reverseRecOn with
  | nil => exact absurd made List.not_mem_nil
  | append_singleton calls last hypothesis =>
      rw [run_concat]
      rcases List.mem_append.mp made with earlier | now
      · exact mem_step (.inl (hypothesis earlier))
      · rw [List.mem_singleton.mp now] at placed
        exact mem_step (.inr placed)

end Runs

end TieredKnowledgeStore

end Temnion.Epistemic
