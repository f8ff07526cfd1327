import Temnion.Core
import Temnion.Library.OrderedMap
import Temnion.Library.Sorting
import Temnion.Library.Text

/-
This file distributes events over virtual shards and asks when a query over all of them has one result.
-/

namespace Temnion.Runtime

structure VirtualShardId where
  index : UInt32
  deriving DecidableEq, Repr

instance : LinearOrder VirtualShardId :=
  LinearOrder.lift' (fun id => id.index.toNat) fun ⟨_⟩ ⟨_⟩ same =>
    congrArg VirtualShardId.mk (UInt32.toNat_inj.mp same)

/-- Every reason for which the router or the coordinator refuses an operation. -/
inductive ShardError where
  | invalidConfiguration (message : Text)
  | partitionNotFound (id : UInt32)
  deriving DecidableEq, Repr

inductive ShardRoutingPolicy where
  | modular (count : UInt32)
  | explicit (mapping : List (ShardId × VirtualShardId))

/-- There is a partition to choose. -/
def ShardRoutingPolicy.Valid : ShardRoutingPolicy → Prop
  | .modular count => count ≠ 0
  | .explicit mapping => mapping ≠ []

structure ShardRouter where
  policy : ShardRoutingPolicy
  valid : policy.Valid

namespace ShardRouter

def newModular (count : UInt32) : Except ShardError ShardRouter :=
  if zero : count = 0 then .error (.invalidConfiguration "partition count must be at least 1".toList)
  else .ok ⟨.modular count, zero⟩

def newExplicit (mapping : List (ShardId × VirtualShardId)) : Except ShardError ShardRouter :=
  if empty : mapping = [] then .error (.invalidConfiguration "explicit mapping cannot be empty".toList)
  else .ok ⟨.explicit mapping, empty⟩

def route (router : ShardRouter) (shard : ShardId) : VirtualShardId :=
  match router.policy with
  | .modular count => ⟨shard % count⟩
  | .explicit mapping => (mapping.lookup shard).getD ⟨0⟩

end ShardRouter

structure RuntimeEvent where
  id : EventId
  entity : EntityId
  schema : SchemaId
  times : EventTimes
  payload : List UInt8
  deriving DecidableEq, Repr

structure VirtualShardPartition where
  id : VirtualShardId
  events : List RuntimeEvent
  nextSequence : UInt64
  deriving DecidableEq, Repr

namespace VirtualShardPartition

def new (id : VirtualShardId) : VirtualShardPartition := ⟨id, [], 0⟩

/-- The partition replaces the sequence number of the event by its own. -/
def stamp (partition : VirtualShardPartition) (event : RuntimeEvent) : RuntimeEvent :=
  { event with id := { event.id with sequence := partition.nextSequence } }

def append (partition : VirtualShardPartition) (event : RuntimeEvent) : UInt64 × VirtualShardPartition :=
  (partition.nextSequence,
    { partition with
      events := partition.events ++ [partition.stamp event]
      nextSequence := partition.nextSequence + 1 })

end VirtualShardPartition

structure RuntimeFilter where
  entity : Option EntityId
  schema : Option SchemaId
  clock : Option ClockId
  minTick : Option UInt64
  maxTick : Option UInt64
  deriving DecidableEq, Repr

/-- The bounds on the ticks count only together with a clock. -/
def RuntimeFilter.isMatch (filter : RuntimeFilter) (event : RuntimeEvent) : Bool :=
  filter.entity.all (fun entity => event.entity = entity) &&
    filter.schema.all (fun schema => event.schema = schema) &&
      filter.clock.all fun clock =>
        decide (event.times.valid.clock = clock) &&
          filter.minTick.all (fun least => decide (least ≤ event.times.valid.ticks)) &&
            filter.maxTick.all fun most => decide (event.times.valid.ticks ≤ most)

/-- Results are compared by valid time, source, epoch and sequence number in this order. -/
def mergeKey (event : RuntimeEvent) : Nat ×ₗ Nat ×ₗ Nat ×ₗ Nat ×ₗ Nat :=
  toLex (event.times.valid.clock.toNat, toLex (event.times.valid.ticks.toNat, toLex (event.id.source.toNat,
    toLex (event.id.epoch.toNat, event.id.sequence.toNat))))

structure VirtualShardCoordinator where
  router : ShardRouter
  partitions : OrderedMap VirtualShardId VirtualShardPartition

namespace VirtualShardCoordinator

def new (router : ShardRouter) (ids : List VirtualShardId) : VirtualShardCoordinator :=
  ⟨router, ids.foldl (fun partitions id => partitions.insert id (.new id)) ∅⟩

def append (coordinator : VirtualShardCoordinator) (event : RuntimeEvent) :
    Except ShardError (VirtualShardId × UInt64) × VirtualShardCoordinator :=
  let target := coordinator.router.route event.entity.shard
  match coordinator.partitions[target]? with
  | none => (.error (.partitionNotFound target.index), coordinator)
  | some partition =>
      let (sequence, appended) := partition.append event
      (.ok (target, sequence), { coordinator with partitions := coordinator.partitions.insert target appended })

/-- The partitions in the order in which the hash map yields them. -/
structure Iteration (coordinator : VirtualShardCoordinator) where
  partitions : List VirtualShardPartition
  perm : partitions.Perm (coordinator.partitions.toList.map Prod.snd)

def collect (partitions : List VirtualShardPartition) (filter : RuntimeFilter) : List RuntimeEvent :=
  partitions.flatMap fun partition => partition.events.filter filter.isMatch

def fanoutQuery (coordinator : VirtualShardCoordinator) (sorts : Sorting.UnstableSort mergeKey)
    (iteration : coordinator.Iteration) (filter : RuntimeFilter) : List RuntimeEvent :=
  sorts.sort (collect iteration.partitions filter)

section Runs

def run (coordinator : VirtualShardCoordinator) (events : List RuntimeEvent) : VirtualShardCoordinator :=
  events.foldl (fun coordinator event => (coordinator.append event).2) coordinator

/-- The events of a run that are accepted, each with the sequence number that it receives. -/
def recorded : VirtualShardCoordinator → List RuntimeEvent → List RuntimeEvent
  | _, [] => []
  | coordinator, event :: events =>
      match coordinator.append event with
      | (.ok (_, sequence), next) => { event with id := { event.id with sequence } } :: recorded next events
      | (.error _, next) => recorded next events

/-- The events of all partitions. -/
def stored (coordinator : VirtualShardCoordinator) : List RuntimeEvent :=
  coordinator.partitions.toList.flatMap fun entry => entry.2.events

/-- Each partition holds events of its own shards only. -/
def Routed (coordinator : VirtualShardCoordinator) : Prop :=
  ∀ (id : VirtualShardId) (partition : VirtualShardPartition), coordinator.partitions[id]? = some partition →
    ∀ event ∈ partition.events, coordinator.router.route event.entity.shard = id

variable {coordinator : VirtualShardCoordinator} {event : RuntimeEvent} {partition : VirtualShardPartition}

theorem append_missing (missing : coordinator.partitions[coordinator.router.route event.entity.shard]? = none) :
    coordinator.append event =
      (.error (.partitionNotFound (coordinator.router.route event.entity.shard).index), coordinator) := by
  rw [append]
  simp only [missing]

theorem append_found
    (found : coordinator.partitions[coordinator.router.route event.entity.shard]? = some partition) :
    coordinator.append event = (.ok (coordinator.router.route event.entity.shard, partition.nextSequence),
      ⟨coordinator.router, coordinator.partitions.insert (coordinator.router.route event.entity.shard)
        (partition.append event).2⟩) := by
  rw [append]
  simp only [found]
  rfl

/-- One more event is stored. -/
theorem stored_append
    (found : coordinator.partitions[coordinator.router.route event.entity.shard]? = some partition) :
    (coordinator.append event).2.stored.Perm (partition.stamp event :: coordinator.stored) := by
  rw [append_found found, stored, stored]
  have before := (OrderedMap.toList_erase found).flatMap_right fun entry => entry.2.events
  have after := (@OrderedMap.toList_insert _ _ _ coordinator.partitions
    (coordinator.router.route event.entity.shard) (partition.append event).2).flatMap_right
      fun entry => entry.2.events
  apply after.trans
  apply List.Perm.trans _ (before.symm.cons (partition.stamp event))
  rw [List.flatMap_cons, List.flatMap_cons]
  change ((partition.events ++ [partition.stamp event]) ++ _).Perm _
  rw [List.append_assoc]
  exact List.perm_middle

theorem Routed.append (routed : Routed coordinator) (event : RuntimeEvent) :
    Routed (coordinator.append event).2 := by
  cases there : coordinator.partitions[coordinator.router.route event.entity.shard]? with
  | none =>
      rw [append_missing there]
      exact routed
  | some partition =>
      rw [append_found there]
      intro id other found kept member
      change (coordinator.partitions.insert _ _)[id]? = some other at found
      rw [Std.ExtTreeMap.getElem?_insert] at found
      simp only [compare_eq_iff_eq] at found
      by_cases same : coordinator.router.route event.entity.shard = id
      · rw [if_pos same] at found
        obtain rfl := Option.some.inj found
        rcases List.mem_append.mp member with old | new
        · exact same ▸ routed _ partition there kept old
        · rw [List.mem_singleton.mp new]
          exact same
      · rw [if_neg same] at found
        exact routed id other found kept member

/-- The partitions of the map have no events. -/
def Empty (partitions : OrderedMap VirtualShardId VirtualShardPartition) : Prop :=
  ∀ (id : VirtualShardId) (partition : VirtualShardPartition), partitions[id]? = some partition →
    partition.events = []

theorem Empty.insert {partitions : OrderedMap VirtualShardId VirtualShardPartition} (empty : Empty partitions)
    (ids : List VirtualShardId) :
    Empty (ids.foldl (fun partitions id => partitions.insert id (.new id)) partitions) := by
  induction ids generalizing partitions with
  | nil => exact empty
  | cons head tail hypothesis =>
      apply hypothesis
      intro id partition found
      rw [Std.ExtTreeMap.getElem?_insert] at found
      split at found
      · obtain rfl := Option.some.inj found
        rfl
      · exact empty id partition found

theorem new_empty (router : ShardRouter) (ids : List VirtualShardId) : Empty (new router ids).partitions := by
  apply Empty.insert
  intro id partition found
  rw [Std.ExtTreeMap.getElem?_empty] at found
  contradiction

/-- The partitions hold the accepted events and no others. -/
theorem stored_run (coordinator : VirtualShardCoordinator) (events : List RuntimeEvent) :
    (coordinator.run events).stored.Perm (coordinator.stored ++ coordinator.recorded events) := by
  induction events generalizing coordinator with
  | nil => rw [recorded, List.append_nil]; rfl
  | cons event events hypothesis =>
      change ((coordinator.append event).2.run events).stored.Perm _
      cases there : coordinator.partitions[coordinator.router.route event.entity.shard]? with
      | none =>
          have same := append_missing there
          rw [recorded]
          simp only [same]
          exact hypothesis coordinator
      | some partition =>
          have more := stored_append there
          have rest := hypothesis (coordinator.append event).2
          have same := append_found there
          have unfold' : coordinator.recorded (event :: events) =
              partition.stamp event :: (coordinator.append event).2.recorded events := by
            rw [recorded]
            simp only [same]
            rfl
          rw [unfold']
          exact (rest.trans (more.append_right _)).trans List.perm_middle.symm

theorem Routed.run {coordinator : VirtualShardCoordinator} (routed : Routed coordinator)
    (events : List RuntimeEvent) : Routed (coordinator.run events) := by
  induction events generalizing coordinator with
  | nil => exact routed
  | cons event events hypothesis => exact hypothesis (routed.append event)

theorem new_routed (router : ShardRouter) (ids : List VirtualShardId) : Routed (new router ids) := by
  intro id partition found event member
  rw [new_empty router ids id partition found] at member
  cases member

theorem new_stored (router : ShardRouter) (ids : List VirtualShardId) : (new router ids).stored = [] := by
  rw [stored, List.flatMap_eq_nil_iff]
  rintro ⟨id, partition⟩ member
  exact new_empty router ids id partition (OrderedMap.mem_toList.mp member)

end Runs

section Fanout

variable {coordinator : VirtualShardCoordinator} {filter : RuntimeFilter}

/-- Different stored events that match have different keys. -/
def KeysApart (coordinator : VirtualShardCoordinator) (filter : RuntimeFilter) : Prop :=
  ∀ first ∈ coordinator.stored, ∀ second ∈ coordinator.stored, filter.isMatch first = true →
    filter.isMatch second = true → mergeKey first = mergeKey second → first = second

/-- The partition holds an event that matches. -/
def Contributes (filter : RuntimeFilter) (partition : VirtualShardPartition) : Prop :=
  ∃ event ∈ partition.events, filter.isMatch event = true

/-- No two partitions hold events that match. -/
def OnePartition (coordinator : VirtualShardCoordinator) (filter : RuntimeFilter) : Prop :=
  ∀ first ∈ coordinator.partitions.toList, ∀ second ∈ coordinator.partitions.toList,
    Contributes filter first.2 → Contributes filter second.2 → first.2 = second.2

theorem collect_perm (iteration : coordinator.Iteration) :
    (collect iteration.partitions filter).Perm (coordinator.stored.filter filter.isMatch) := by
  rw [stored, List.filter_flatMap]
  have perm := iteration.perm.flatMap_right fun partition => partition.events.filter filter.isMatch
  rw [List.flatMap_map] at perm
  exact perm

theorem mem_collect {iteration : coordinator.Iteration} {event : RuntimeEvent} :
    event ∈ collect iteration.partitions filter ↔ event ∈ coordinator.stored ∧ filter.isMatch event = true := by
  rw [(collect_perm iteration).mem_iff, List.mem_filter]

/-- The partitions without matching events leave no trace in the list. -/
theorem collect_contributing (partitions : List VirtualShardPartition) :
    collect partitions filter =
      collect (partitions.filter fun partition => partition.events.any filter.isMatch) filter := by
  induction partitions with
  | nil => rfl
  | cons partition partitions hypothesis =>
      rw [List.filter_cons]
      by_cases some' : partition.events.any filter.isMatch = true
      · rw [if_pos some']
        exact congrArg (partition.events.filter filter.isMatch ++ ·) hypothesis
      · have empty : partition.events.filter filter.isMatch = [] := by
          rw [List.filter_eq_nil_iff]
          intro event member matching
          exact some' (List.any_eq_true.mpr ⟨event, member, matching⟩)
        rw [if_neg some', ← hypothesis]
        change partition.events.filter filter.isMatch ++ _ = _
        rw [empty]
        rfl

theorem collect_eq_of_one (one : OnePartition coordinator filter) (first second : coordinator.Iteration) :
    collect first.partitions filter = collect second.partitions filter := by
  rw [collect_contributing first.partitions, collect_contributing second.partitions]
  apply congrArg (collect · filter)
  have perm := (first.perm.trans second.perm.symm).filter fun partition => partition.events.any filter.isMatch
  have holds : ∀ (iteration : coordinator.Iteration), ∀ partition ∈ iteration.partitions.filter
      (fun partition => partition.events.any filter.isMatch), ∃ entry ∈ coordinator.partitions.toList,
        entry.2 = partition ∧ Contributes filter partition := by
    intro iteration partition member
    obtain ⟨listed, contributes⟩ := List.mem_filter.mp member
    obtain ⟨entry, inside, same⟩ := List.mem_map.mp (iteration.perm.mem_iff.mp listed)
    exact ⟨entry, inside, same, List.any_eq_true.mp contributes⟩
  have trivial' : ∀ list : List VirtualShardPartition, list.Pairwise fun _ _ => True :=
    fun list => List.pairwise_of_forall fun _ _ => trivial
  apply List.Perm.eq_of_pairwise _ (trivial' _) (trivial' _) perm
  intro partition other member also _ _
  obtain ⟨entry, inside, rfl, contributes⟩ := holds first partition member
  obtain ⟨entry', inside', rfl, contributes'⟩ := holds second other also
  exact one entry inside entry' inside' contributes contributes'

/-- Any partition may come first. -/
theorem exists_iteration {entry : VirtualShardId × VirtualShardPartition}
    (member : entry ∈ coordinator.partitions.toList) :
    ∃ iteration : coordinator.Iteration, ∃ rest, iteration.partitions = entry.2 :: rest := by
  obtain ⟨before, behind, split'⟩ := List.append_of_mem (List.mem_map.mpr ⟨entry, member, rfl⟩)
  refine ⟨⟨entry.2 :: (before ++ behind), ?_⟩, before ++ behind, rfl⟩
  rw [split']
  exact List.perm_middle.symm

/-- A partition that contributes and comes first has its first match in front of the list. -/
theorem collect_head {partition : VirtualShardPartition} (contributes : Contributes filter partition)
    (rest : List VirtualShardPartition) :
    ∃ event ∈ partition.events, ∃ tail, collect (partition :: rest) filter = event :: tail := by
  obtain ⟨event, member, matching⟩ := contributes
  cases found : partition.events.filter filter.isMatch with
  | nil => exact absurd matching (List.filter_eq_nil_iff.mp found event member)
  | cons head tail =>
      have inside : head ∈ partition.events.filter filter.isMatch := found ▸ List.mem_cons_self
      refine ⟨head, (List.mem_filter.mp inside).1, tail ++ collect rest filter, ?_⟩
      change partition.events.filter filter.isMatch ++ _ = _
      rw [found]
      rfl

/-- The result is the same for all iterations exactly when different matching events have different keys, or all of
them lie in one partition. -/
theorem fanoutQuery_same_iff (routed : Routed coordinator) :
    (∀ sorts first second,
        coordinator.fanoutQuery sorts first filter = coordinator.fanoutQuery sorts second filter) ↔
      coordinator.KeysApart filter ∨ coordinator.OnePartition filter := by
  constructor
  · intro same
    by_contra neither
    obtain ⟨shared, several⟩ := not_or.mp neither
    simp only [KeysApart, OnePartition, not_forall] at shared several
    obtain ⟨one, inside, two, inside', matching, matching', keys, apart⟩ := shared
    obtain ⟨entry, member, other, member', contributes, contributes', different⟩ := several
    obtain ⟨first, rest, starts⟩ := exists_iteration member
    obtain ⟨second, rest', starts'⟩ := exists_iteration member'
    have lists : collect first.partitions filter ≠ collect second.partitions filter := by
      intro equal
      rw [starts, starts'] at equal
      obtain ⟨event, held, tail, head⟩ := collect_head contributes rest
      obtain ⟨event', held', tail', head'⟩ := collect_head contributes' rest'
      rw [head, head'] at equal
      obtain rfl := (List.cons.inj equal).1
      have id := routed entry.1 entry.2 (OrderedMap.mem_toList.mp member) event held
      have id' := routed other.1 other.2 (OrderedMap.mem_toList.mp member') event held'
      have found := OrderedMap.mem_toList.mp member
      have found' := OrderedMap.mem_toList.mp member'
      rw [← id] at found
      rw [← id', found] at found'
      exact different (Option.some.inj found')
    obtain ⟨sorts, unequal⟩ := Sorting.UnstableSort.exists_sort_ne lists apart keys
      (mem_collect.mpr ⟨inside, matching⟩) (mem_collect.mpr ⟨inside', matching'⟩)
    exact unequal (same sorts first second)
  · rintro (apart | one) sorts first second
    · apply sorts.sort_eq ((collect_perm first).trans (collect_perm second).symm)
      intro event member other also keys
      obtain ⟨inside, matching⟩ := mem_collect.mp member
      obtain ⟨inside', matching'⟩ := mem_collect.mp also
      exact apart event inside other inside' matching matching' keys
    · exact congrArg sorts.sort (collect_eq_of_one one first second)

/-- After any run every result holds the accepted events that match, each once. It is the same for all iterations
exactly when different matching events have different keys, or all of them lie in one partition. -/
theorem fanout_deterministic_iff (router : ShardRouter) (ids : List VirtualShardId) (events : List RuntimeEvent)
    (filter : RuntimeFilter) :
    (∀ sorts iteration, (((new router ids).run events).fanoutQuery sorts iteration filter).Perm
        (((new router ids).recorded events).filter filter.isMatch)) ∧
      ((∀ sorts first second, ((new router ids).run events).fanoutQuery sorts first filter =
          ((new router ids).run events).fanoutQuery sorts second filter) ↔
        ((new router ids).run events).KeysApart filter ∨ ((new router ids).run events).OnePartition filter) := by
  constructor
  · intro sorts iteration
    have accepted := stored_run (new router ids) events
    rw [new_stored, List.nil_append] at accepted
    exact ((sorts.perm _).trans (collect_perm iteration)).trans (accepted.filter filter.isMatch)
  · exact fanoutQuery_same_iff ((new_routed router ids).run events)

/-- Two partitions number their first events alike, and the order of equal keys is the order of the partitions. -/
theorem fanout_depends_on_iteration :
    let event (shard : ShardId) : RuntimeEvent := ⟨⟨1, 1, 0⟩, ⟨shard, 0, 0⟩, 1, ⟨⟨1, 10⟩, none, ⟨1, 10⟩⟩, []⟩
    let coordinator := (new ⟨.modular 2, show (2 : UInt32) ≠ 0 by decide⟩ [⟨0⟩, ⟨1⟩]).run [event 0, event 1]
    ¬ ∀ sorts first second, coordinator.fanoutQuery sorts first ⟨none, none, none, none, none⟩ =
      coordinator.fanoutQuery sorts second ⟨none, none, none, none, none⟩ := by
  intro event coordinator same
  have listed : coordinator.partitions.toList.map Prod.snd = [⟨⟨0⟩, [event 0], 1⟩, ⟨⟨1⟩, [event 1], 1⟩] := rfl
  have results := same (.stable mergeKey) ⟨[⟨⟨0⟩, [event 0], 1⟩, ⟨⟨1⟩, [event 1], 1⟩], listed ▸ List.Perm.refl _⟩
    ⟨[⟨⟨1⟩, [event 1], 1⟩, ⟨⟨0⟩, [event 0], 1⟩], listed ▸ List.Perm.swap _ _ _⟩
  change (Sorting.UnstableSort.stable mergeKey).sort [event 0, event 1] =
    (Sorting.UnstableSort.stable mergeKey).sort [event 1, event 0] at results
  have keys : mergeKey (event 0) = mergeKey (event 1) := rfl
  have sorted : ∀ first second, mergeKey first = mergeKey second →
      [first, second].Pairwise fun one two => mergeKey one ≤ mergeKey two :=
    fun first second equal => List.pairwise_pair.mpr (le_of_eq equal)
  rw [Sorting.UnstableSort.stable_sort (sorted _ _ keys),
    Sorting.UnstableSort.stable_sort (sorted _ _ keys.symm)] at results
  have shards := congrArg (fun event : RuntimeEvent => event.entity.shard) (List.cons.inj results).1
  exact absurd shards (by decide)

end Fanout

end VirtualShardCoordinator

end Temnion.Runtime
