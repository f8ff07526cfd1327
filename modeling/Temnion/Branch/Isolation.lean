import Temnion.Branch.View

/-
This file shows which forks leave a child whose inherited events never change.
-/

namespace Temnion.Branch

open Format LittleEndian Intervals Storage Replay

theorem Stretch.owns_iff {stretch : Stretch} {position : UInt64} :
    stretch.segment.Owns position ↔ stretch.bounds.1 ≤ position.toNat ∧ position.toNat ≤ stretch.bounds.2 := by
  rw [TimelineSegment.Owns, UInt64.le_iff_toNat_le]
  apply and_congr_right
  intro _
  exact ⟨fun bound => UInt64.le_iff_toNat_le.mp (bound stretch.stop rfl), fun bound stop same =>
    Option.some.inj same ▸ UInt64.le_iff_toNat_le.mpr bound⟩

theorem inherits_iff_within {ancestors : List Stretch} {id : BranchId} {start position : UInt64} :
    Inherits (timelineOf ancestors id start) position ↔
      ∃ interval ∈ ancestors.map Stretch.bounds, interval.1 ≤ position.toNat ∧ position.toNat ≤ interval.2 := by
  rw [inherits_timelineOf]
  simp only [List.mem_map, exists_exists_and_eq_and, Stretch.owns_iff]

section Carried

variable {branches later : Branches} {count more : Nat} {id : BranchId} {ancestors : List Stretch} {start : UInt64}

/-- A branch that is not listed has no parent. -/
theorem Tree.parentOf_absent (tree : Tree branches count) (beyond : count ≤ id.toNat) : parentOf branches id = none := by
  have absent : branches[id]? = none := by
    rw [Option.eq_none_iff_forall_ne_some]
    intro branch found
    have inside := tree.present found
    omega
  rw [parentOf, absent, Option.bind_none]

/-- Only a listed branch has a timeline. -/
theorem Resolves.inside (resolves : Resolves branches id ancestors start) (tree : Tree branches count) :
    id.toNat < count := by
  cases resolves with
  | root found alone => exact tree.present found
  | child found forked rest => exact tree.present found

/-- A timeline stays while the parents stay. -/
theorem Resolves.carry (resolves : Resolves branches id ancestors start) (tree : Tree branches count)
    (grown : Tree later more) (room : count ≤ more)
    (same : ∀ place, place.toNat < count → parentOf later place = parentOf branches place) :
    Resolves later id ancestors start := by
  have listed : ∀ {place : BranchId} {branch : BranchMetadata}, branches[place]? = some branch →
      ∃ other, later[place]? = some other ∧ other.parent = branch.parent := by
    intro place branch found
    have inside := tree.present found
    obtain ⟨other, found'⟩ := Option.isSome_iff_exists.mp
      (Std.ExtTreeMap.mem_iff_isSome_getElem?.mp ((grown.keys place).mpr (inside.trans_le room)))
    refine ⟨other, found', ?_⟩
    rw [← parentOf_eq found', same place inside, parentOf_eq found]
  induction resolves with
  | root found alone =>
      obtain ⟨other, found', linked⟩ := listed found
      exact .root found' (linked.trans alone)
  | child found forked rest hypothesis =>
      obtain ⟨other, found', linked⟩ := listed found
      exact .child found' (linked.trans forked) hypothesis

/-- What a command leaves alone: the parents of the branches that are there. -/
theorem Effect.same {logs reached : BranchId → Log} {command : BranchCommand}
    (effect : Effect branches later count logs command more reached) :
    count ≤ more ∧ ∀ place, place.toNat < count → parentOf later place = parentOf branches place := by
  cases effect with
  | keep same => exact ⟨le_refl _, fun place _ => same place⟩
  | fork small before link same guard =>
      refine ⟨Nat.le_succ _, fun place inside => same place fun here => ?_⟩
      rw [here, toNat_ofNat small] at inside
      exact lt_irrefl _ inside
  | append inside same => exact ⟨le_refl _, fun place _ => same place⟩

end Carried

section Grounds

/-- Every fork lies before the last number, and its parent has all events up to it. -/
def Grounded (branches : Branches) (contents : BranchId → List StoredEvent) : Prop :=
  ∀ id parent forkSeq, parentOf branches id = some (parent, forkSeq) → forkSeq.toNat + 1 < 2 ^ 64 ∧
    ∀ ancestors start, Resolves branches parent ancestors start → ∀ position, position ≤ forkSeq →
      (eventAt contents (timelineOf ancestors parent start) position).isSome

variable {branches : Branches} {contents : BranchId → List StoredEvent} {id : BranchId} {ancestors : List Stretch}
  {start position forkSeq : UInt64}

theorem Grounded.linked (grounded : Grounded branches contents) (resolves : Resolves branches id ancestors start) :
    Linked 0 (ancestors.map Stretch.bounds) start.toNat := by
  induction resolves with
  | root found alone => rfl
  | child found forked rest hypothesis =>
      have room := (grounded _ _ _ ((parentOf_eq found).trans forked)).1
      rw [List.map_append, List.map_singleton, Stretch.bounds, linked_concat]
      exact ⟨hypothesis, toNat_succ room⟩

/-- The segments of the ancestors are filled. -/
theorem Grounded.inherited (grounded : Grounded branches contents) (resolves : Resolves branches id ancestors start)
    (inherits : Inherits (timelineOf ancestors id start) position) :
    (eventAt contents (timelineOf ancestors id start) position).isSome := by
  induction resolves with
  | root found alone =>
      obtain ⟨stretch, absent, _⟩ := inherits_timelineOf.mp inherits
      exact absurd absent List.not_mem_nil
  | child found forked rest hypothesis =>
      next id parent branch forkSeq start ancestors =>
      obtain ⟨room, filled⟩ := grounded _ _ _ ((parentOf_eq found).trans forked)
      by_cases below : position ≤ forkSeq
      · rw [eventAt_child room below]
        exact filled ancestors start rest position below
      · obtain ⟨stretch, listed, owns⟩ := inherits_timelineOf.mp inherits
        have earlier : stretch ∈ ancestors := by
          rcases List.mem_append.mp listed with earlier | last
          · exact earlier
          · rw [List.mem_singleton.mp last] at owns
            exact absurd (owns.2 forkSeq rfl) below
        have owner : ∃ segment ∈ ancestors.map Stretch.segment, segment.Owns position :=
          ⟨stretch.segment, List.mem_map_of_mem earlier, owns⟩
        have before := hypothesis (inherits_timelineOf.mpr ⟨stretch, earlier, owns⟩)
        rw [timelineOf, eventAt_append owner] at before
        rw [timelineOf, List.map_append, List.append_assoc, eventAt_append owner]
        exact before

/-- A parent that has the event at the sequence has all events before it. -/
theorem Grounded.reaches (grounded : Grounded branches contents) (resolves : Resolves branches id ancestors start)
    (held : forkSeq.toNat < (contents id).length ∨ Inherits (timelineOf ancestors id start) forkSeq)
    (below : position ≤ forkSeq) : (eventAt contents (timelineOf ancestors id start) position).isSome := by
  by_cases inherits : Inherits (timelineOf ancestors id start) position
  · exact grounded.inherited resolves inherits
  · have linked := grounded.linked resolves
    have lower : start ≤ position := by
      rw [UInt64.le_iff_toNat_le]
      by_contra before
      exact inherits (inherits_iff_within.mpr (linked.exists_within (Nat.zero_le _) (Nat.not_le.mp before)))
    rcases held with own | inherited
    · have order := UInt64.le_iff_toNat_le.mp below
      have bound : position.toNat - start.toNat < (contents id).length := by omega
      rw [eventAt_own inherits, if_pos lower, List.getElem?_eq_getElem bound]
      rfl
    · have order := UInt64.le_iff_toNat_le.mp below
      exact absurd (inherits_iff_within.mpr (linked.within_of_le (Nat.zero_le _) order
        (inherits_iff_within.mp inherited))) inherits

end Grounds

namespace BranchSystem

variable [Crc32fast]

/-- The event at a position of the timeline of a branch. -/
def viewAt (system : BranchSystem) (id : BranchId) (position : UInt64) : Option StoredEvent :=
  match system.manager.resolveTimeline id with
  | .ok segments => eventAt system.acknowledged segments position
  | .error _ => none

/-- The parent has events of its own, or one of its ancestors holds the sequence. -/
def Reached (system : BranchSystem) (parent : BranchId) (forkSequence : UInt64) : Prop :=
  system.acknowledged parent ≠ [] ∨
    ∃ segments, system.manager.resolveTimeline parent = .ok segments ∧ Inherits segments forkSequence

/-- A fork is only allowed where its parent has reached the sequence. -/
def ForksReached (system : BranchSystem) (command : BranchCommand) : Prop :=
  ∀ database parent name forkSequence lifecycle, command = .fork database parent name forkSequence lifecycle →
    system.Reached parent forkSequence

/-- The events of a branch only grow. -/
theorem step_grows (system : BranchSystem) (command : BranchCommand) (id : BranchId) :
    system.acknowledged id <+: (system.step command).acknowledged id := by
  cases command with
  | fork database parent name forkSequence lifecycle => exact List.prefix_rfl
  | setLifecycle place lifecycle => exact List.prefix_rfl
  | append place events =>
      change system.acknowledged id <+: Function.update system.acknowledged place _ id
      by_cases here : id = place
      · rw [here, Function.update_self]
        exact List.prefix_append _ _
      · rw [Function.update_of_ne here]

theorem run_grows (system : BranchSystem) (commands : List BranchCommand) (id : BranchId) :
    system.acknowledged id <+: (system.run commands).acknowledged id := by
  induction commands generalizing system with
  | nil => exact List.prefix_rfl
  | cons command commands hypothesis => exact (system.step_grows command id).trans (hypothesis _)

end BranchSystem

section Runs

variable [Crc32fast] {system : BranchSystem} {count : Nat} {logs : BranchId → Log} {id : BranchId}
  {ancestors : List Stretch} {start : UInt64}

theorem Holds.resolveTimeline_eq (holds : Holds system count logs)
    (resolves : Resolves system.manager.manifest.branches id ancestors start) :
    system.manager.resolveTimeline id = .ok (timelineOf ancestors id start) := by
  obtain ⟨others, other, again, resolved⟩ := resolveTimeline_of_tree holds.tree (resolves.inside holds.tree)
  obtain ⟨rfl, rfl⟩ := resolves.unique again
  exact resolved

/-- The timelines outlive every run. -/
theorem Holds.run_resolves (holds : Holds system count logs)
    (resolves : Resolves system.manager.manifest.branches id ancestors start) (commands : List BranchCommand) :
    ∃ more reached, Holds (system.run commands) more reached ∧
      Resolves (system.run commands).manager.manifest.branches id ancestors start := by
  induction commands generalizing system count logs with
  | nil => exact ⟨count, logs, holds, resolves⟩
  | cons command commands hypothesis =>
      obtain ⟨more, reached, effect, next⟩ := holds.step command
      exact hypothesis next (resolves.carry holds.tree next.tree effect.same.1 effect.same.2)

/-- The parent of an accepted fork has reached the sequence in its own store or through an ancestor. -/
theorem Holds.held (holds : Holds system count logs) {parent : BranchId} {forkSequence : UInt64}
    (resolves : Resolves system.manager.manifest.branches parent ancestors start)
    (guard : forkSequence.toNat < (logs parent).events.length ∨ (logs parent).events = [])
    (before : parent.toNat < count) (reached : system.Reached parent forkSequence) :
    forkSequence.toNat < (system.acknowledged parent).length ∨
      Inherits (timelineOf ancestors parent start) forkSequence := by
  have same := holds.acknowledged parent before
  rcases reached with own | ⟨segments, resolved, inherits⟩
  · rw [same] at own ⊢
    exact Or.inl (guard.resolve_right own)
  · rw [holds.resolveTimeline_eq resolves] at resolved
    rw [← Except.ok.inj resolved] at inherits
    exact Or.inr inherits

/-- A parent has its own events and those of its ancestors before the last number. -/
theorem Holds.room (holds : Holds system count logs) {forkSequence : UInt64}
    (grounded : Grounded system.manager.manifest.branches system.acknowledged)
    (resolves : Resolves system.manager.manifest.branches id ancestors start) (inside : id.toNat < count)
    (held : forkSequence.toNat < (system.acknowledged id).length ∨ Inherits (timelineOf ancestors id start) forkSequence) :
    forkSequence.toNat + 1 < 2 ^ 64 := by
  rcases held with own | inherits
  · obtain ⟨disk, store, _, inv⟩ := holds.stores id inside
    have bound := inv.valid.bound
    rw [holds.acknowledged id inside] at own
    omega
  · induction resolves with
    | root found alone =>
        obtain ⟨stretch, absent, _⟩ := inherits_timelineOf.mp inherits
        exact absurd absent List.not_mem_nil
    | child found forked rest hypothesis =>
        next id parent branch forkSeq start ancestors =>
        obtain ⟨stretch, listed, owns⟩ := inherits_timelineOf.mp inherits
        rcases List.mem_append.mp listed with earlier | last
        · exact hypothesis (rest.inside holds.tree) (inherits_timelineOf.mpr ⟨stretch, earlier, owns⟩)
        · rw [List.mem_singleton.mp last] at owns
          have bound := UInt64.le_iff_toNat_le.mp (owns.2 forkSeq rfl)
          have room := (grounded _ _ _ ((parentOf_eq found).trans forked)).1
          omega

/-- A command keeps every fork grounded when the parents have reached their forks. -/
theorem Holds.grounded_step (holds : Holds system count logs)
    (grounded : Grounded system.manager.manifest.branches system.acknowledged) {command : BranchCommand}
    (allowed : system.ForksReached command) :
    Grounded (system.step command).manager.manifest.branches (system.step command).acknowledged := by
  obtain ⟨more, reached, effect, next⟩ := holds.step command
  obtain ⟨room, same⟩ := effect.same
  -- The timelines that are there keep their events, so it is enough to look at them before the command.
  have kept : ∀ {parent : BranchId} {forkSeq : UInt64}, parent.toNat < count →
      (∀ ancestors start, Resolves system.manager.manifest.branches parent ancestors start → ∀ position,
        position ≤ forkSeq → (eventAt system.acknowledged (timelineOf ancestors parent start) position).isSome) →
      ∀ ancestors start, Resolves (system.step command).manager.manifest.branches parent ancestors start → ∀ position,
        position ≤ forkSeq →
        (eventAt (system.step command).acknowledged (timelineOf ancestors parent start) position).isSome := by
    intro parent forkSeq before filled others other resolves position below
    obtain ⟨ancestors, start, earlier, _⟩ := holds.tree.resolves before
    obtain ⟨rfl, rfl⟩ := (earlier.carry holds.tree next.tree room same).unique resolves
    obtain ⟨event, present⟩ := Option.isSome_iff_exists.mp (filled ancestors start earlier position below)
    rw [eventAt_grows (system.step_grows command) present]
    rfl
  intro id parent forkSeq link
  by_cases old : id.toNat < count
  · rw [same id old] at link
    obtain ⟨small, filled⟩ := grounded id parent forkSeq link
    refine ⟨small, kept ?_ filled⟩
    by_cases first : id = 0
    · rw [first, holds.tree.root] at link
      contradiction
    · obtain ⟨_, _, link', before⟩ := holds.tree.parents id old first
      obtain ⟨rfl, rfl⟩ := Prod.mk.inj (Option.some.inj (link'.symm.trans link))
      exact before.trans old
  · cases effect with
    | keep unchanged =>
        rw [unchanged, holds.tree.parentOf_absent (Nat.not_lt.mp old)] at link
        contradiction
    | append inside unchanged =>
        rw [unchanged, holds.tree.parentOf_absent (Nat.not_lt.mp old)] at link
        contradiction
    | fork small before linked unchanged guard =>
        next database parent' name forkSequence lifecycle =>
        by_cases fresh : id = UInt64.ofNat count
        · rw [fresh, linked] at link
          obtain ⟨rfl, rfl⟩ := Prod.mk.inj (Option.some.inj link)
          have reaches := allowed database parent' name forkSequence lifecycle rfl
          obtain ⟨ancestors, start, resolves, _⟩ := holds.tree.resolves before
          have held := holds.held resolves guard before reaches
          refine ⟨holds.room grounded resolves before held, kept before fun others other again position below => ?_⟩
          obtain ⟨rfl, rfl⟩ := resolves.unique again
          exact grounded.reaches resolves held below
        · rw [unchanged id fresh, holds.tree.parentOf_absent (Nat.not_lt.mp old)] at link
          contradiction

/-- Every fork of an allowed run is grounded. -/
theorem Holds.grounded_run (holds : Holds system count logs)
    (grounded : Grounded system.manager.manifest.branches system.acknowledged) {commands : List BranchCommand}
    (follows : system.Follows BranchSystem.ForksReached commands) :
    Grounded (system.run commands).manager.manifest.branches (system.run commands).acknowledged := by
  induction commands generalizing system count logs with
  | nil => exact grounded
  | cons command commands hypothesis =>
      obtain ⟨allowed, follows⟩ := follows
      obtain ⟨more, reached, _, next⟩ := holds.step command
      exact hypothesis next (holds.grounded_step grounded allowed) follows

theorem Holds.viewAt_eq (holds : Holds system count logs)
    (resolves : Resolves system.manager.manifest.branches id ancestors start) (position : UInt64) :
    system.viewAt id position = eventAt system.acknowledged (timelineOf ancestors id start) position := by
  rw [BranchSystem.viewAt, holds.resolveTimeline_eq resolves]

/-- A branch without a fork is grounded. -/
theorem start_grounded {root : System} (started : BranchSystem.start root = .ok system) :
    Grounded system.manager.manifest.branches system.acknowledged := by
  obtain ⟨manager, opened, same⟩ := Except.bind_eq_ok.mp started
  obtain rfl := Except.ok.inj same
  obtain ⟨reader, _, made⟩ := Except.bind_eq_ok.mp opened
  obtain rfl := Except.ok.inj made
  intro id parent forkSeq link
  change parentOf ((∅ : Branches).insert 0 mainBranch) id = _ at link
  rw [parentOf_insert] at link
  split at link
  · exact absurd link (Option.some_ne_none _).symm
  · rw [parentOf, Std.ExtTreeMap.getElem?_empty] at link
    contradiction

/-- An accepted fork has passed its checks. -/
theorem Holds.accepted (holds : Holds system count logs) {database : DatabaseId} {parent child : BranchId} {name : String}
    {forkSequence : UInt64} {lifecycle : BranchLifecycle}
    (accepted : (system.manager.createFork database parent name forkSequence lifecycle).1 = .ok child) :
    system.manager.checkFork parent forkSequence = .ok child ∧ child.toNat = count := by
  rcases holds.fork database parent name forkSequence lifecycle with ⟨⟨error, failed⟩, _⟩ | ⟨made, _, next⟩
  · rw [accepted] at failed
    contradiction
  · have small := next.tree.bound
    rw [accepted] at made
    obtain rfl := Except.ok.inj made
    refine ⟨?_, toNat_ofNat small⟩
    cases passed : system.manager.checkFork parent forkSequence with
    | error error =>
        rw [BranchManager.createFork, passed] at accepted
        contradiction
    | ok nextId => rw [(holds.checkFork_passed passed).1]

/-- The parent of an accepted fork has the event at the sequence if and only if it has reached it, and then no later
command changes what the child inherits. -/
theorem Holds.isolated (holds : Holds system count logs)
    (grounded : Grounded system.manager.manifest.branches system.acknowledged) {database : DatabaseId}
    {parent child : BranchId} {name : String} {forkSequence : UInt64} {lifecycle : BranchLifecycle}
    (accepted : (system.manager.createFork database parent name forkSequence lifecycle).1 = .ok child) :
    let forked := system.step (.fork database parent name forkSequence lifecycle)
    ((system.viewAt parent forkSequence).isSome ↔ system.Reached parent forkSequence) ∧
      (system.Reached parent forkSequence → ∀ later position, position ≤ forkSequence →
        (forked.viewAt child position).isSome ∧
          (forked.run later).viewAt child position = forked.viewAt child position) := by
  intro forked
  obtain ⟨passed, number⟩ := holds.accepted accepted
  obtain ⟨_, before, guard⟩ := holds.checkFork_passed passed
  obtain ⟨ancestors, start, resolves, _⟩ := holds.tree.resolves before
  rw [holds.viewAt_eq resolves]
  constructor
  · constructor
    · intro present
      by_contra unreached
      obtain ⟨empty, nowhere⟩ := not_or.mp unreached
      have absent : ¬ Inherits (timelineOf ancestors parent start) forkSequence := fun inherits =>
        nowhere ⟨_, holds.resolveTimeline_eq resolves, inherits⟩
      rw [eventAt_own absent, not_ne_iff.mp empty] at present
      split at present <;> contradiction
    · exact fun reached => grounded.reaches resolves (holds.held resolves guard before reached) (UInt64.le_refl _)
  · intro reached later position below
    obtain ⟨manifest, next⟩ := holds.forked passed number database name lifecycle
    have held := holds.held resolves guard before reached
    have room := holds.room grounded resolves before held
    have branches : forked.manager.manifest.branches = system.manager.manifest.branches.insert child
        ⟨child, name, some (parent, forkSequence), lifecycle, 0⟩ := congrArg BranchManifest.branches manifest
    have carried : Resolves forked.manager.manifest.branches parent ancestors start := by
      apply resolves.carry holds.tree next.tree (Nat.le_succ count)
      intro place inside
      have other : child ≠ place := by
        intro same
        rw [same] at number
        omega
      change parentOf forked.manager.manifest.branches place = _
      rw [branches, parentOf_insert, if_neg other]
    have found : forked.manager.manifest.branches[child]? =
        some ⟨child, name, some (parent, forkSequence), lifecycle, 0⟩ := by
      rw [branches, getElem?_insert, if_pos rfl]
    have timeline := Resolves.child found rfl carried
    have present : (forked.viewAt child position).isSome := by
      rw [next.viewAt_eq timeline, eventAt_child room below]
      exact grounded.reaches resolves held below
    refine ⟨present, ?_⟩
    obtain ⟨event, read⟩ := Option.isSome_iff_exists.mp present
    obtain ⟨more, reached', final, again⟩ := next.run_resolves timeline later
    rw [read, final.viewAt_eq again]
    rw [next.viewAt_eq timeline] at read
    exact eventAt_grows (forked.run_grows later) read

/-- In every run whose forks were reached by their parents, a fork finds the event at its sequence if and only if its
parent has reached it, and then no later command changes the events that the child inherits. -/
theorem fork_isolated {database : DatabaseId} {source : SourceId} {epoch : SourceEpoch} {limits : Limits} {root : System}
    (created : System.create database source epoch limits = .ok root) (commands : List Command)
    (started : BranchSystem.start (root.run commands) = .ok system) {earlier : List BranchCommand}
    (follows : system.Follows BranchSystem.ForksReached earlier) {chosen : DatabaseId} {parent child : BranchId}
    {name : String} {forkSequence : UInt64} {lifecycle : BranchLifecycle}
    (accepted : ((system.run earlier).manager.createFork chosen parent name forkSequence lifecycle).1 = .ok child) :
    let before := system.run earlier
    let forked := before.step (.fork chosen parent name forkSequence lifecycle)
    ((before.viewAt parent forkSequence).isSome ↔ before.Reached parent forkSequence) ∧
      (before.Reached parent forkSequence → ∀ later position, position ≤ forkSequence →
        (forked.viewAt child position).isSome ∧
          (forked.run later).viewAt child position = forked.viewAt child position) := by
  obtain ⟨log, store, consistent⟩ := exists_start created commands
  have first := start_holds consistent started
  obtain ⟨count, logs, holds⟩ := first.run_always earlier
  exact holds.isolated (first.grounded_run (start_grounded started) follows) accepted

end Runs

/-- A fork of an empty database is accepted at a sequence that has no event. -/
theorem fork_of_missing_event :
    letI := Crc32fast.ieee
    ∃ system, BranchSystem.start ((System.fresh sampleDatabase 1 1 Limits.default).run (bareCommands 0)) = .ok system ∧
      (system.manager.createFork sampleDatabase 0 "a" 5 .active).1 = .ok 1 ∧ system.viewAt 0 5 = none := by
  generalize Crc32fast.ieee = inst
  obtain ⟨system, started, named, holds⟩ := bareStart (by decide : 0 < 2 ^ 32)
  have main : system.manager.manifest.branches[(0 : BranchId)]? = some mainBranch := by
    rw [named, getElem?_insert, if_pos rfl]
  have passed : system.manager.checkFork 0 5 = .ok 1 := by
    apply holds.checkFork_ok main (by decide)
    · rw [Function.update_self, bareLog_events]
      exact Or.inr rfl
  obtain ⟨disk, store, made, _⟩ := holds.createFork_passed passed rfl sampleDatabase "a" .active
  refine ⟨system, started, congrArg Prod.fst made, ?_⟩
  have empty : system.acknowledged 0 = [] := by
    rw [holds.acknowledged 0 (by decide), Function.update_self, bareLog_events]
    rfl
  have unowned : eventAt system.acknowledged [] 5 = none := rfl
  rw [holds.viewAt_eq (.root main rfl), timelineOf, List.map_nil, List.nil_append, eventAt_cons, empty, unowned,
    List.getElem?_nil, ite_self]

/-- A fork at the only event of a database. -/
theorem fork_isolated_sample :
    letI := Crc32fast.ieee
    ∃ system, BranchSystem.start ((System.fresh sampleDatabase 1 1 Limits.default).run (bareCommands 1)) = .ok system ∧
      let forked := system.step (.fork sampleDatabase 0 "a" 0 .active)
      (system.viewAt 0 0).isSome ∧ ∀ later, (forked.run later).viewAt 1 0 = forked.viewAt 1 0 := by
  generalize Crc32fast.ieee = inst
  obtain ⟨system, started, passed, holds⟩ := bareStart_passes
  have created : System.create sampleDatabase 1 1 Limits.default = .ok (System.fresh sampleDatabase 1 1 Limits.default) :=
    System.create_ok.mpr ⟨rfl, rfl⟩
  obtain ⟨disk, store, made, _⟩ := holds.createFork_passed passed rfl sampleDatabase "a" .active
  obtain ⟨present, isolated⟩ := @fork_isolated inst system _ _ _ _ _ created (bareCommands 1) started [] trivial
    sampleDatabase 0 1 "a" 0 .active (congrArg Prod.fst made)
  have reached : system.Reached 0 0 := by
    refine Or.inl fun empty => ?_
    rw [holds.acknowledged 0 (by decide), Function.update_self, bareLog_events] at empty
    exact absurd (congrArg List.length empty) (by rw [bareEvents_length]; decide)
  exact ⟨system, started, present.mpr reached, fun later => (isolated reached later 0 (UInt64.le_refl 0)).2⟩

end Temnion.Branch
