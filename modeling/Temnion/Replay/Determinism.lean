import Temnion.Replay.Exact
import Temnion.Storage.Paging

/-
This file shows when a reconstruction does not depend on the reconstructions before it.
-/

namespace Temnion.Replay

open Format Storage Sweep

/-- One reconstruction with its reducer and its decoder. -/
structure Call where
  S : Type
  initial : Inhabited S
  target : UInt64
  reducer : StateReducer S
  decodeState : List UInt8 → Except ReplayError S

section

variable [Crc32fast]

namespace ReplayEngine

def call (engine : ReplayEngine) (call : Call) : ReplayEngine :=
  letI := call.initial
  (engine.reconstructAtSequence call.target call.reducer call.decodeState).2

/-- The engine after its earlier reconstructions. -/
def after (engine : ReplayEngine) (calls : List Call) : ReplayEngine := calls.foldl ReplayEngine.call engine

/-- A reconstruction only moves the generator. -/
theorem reconstructAtSequence_keeps {S : Type} [Inhabited S] (engine : ReplayEngine) (target : UInt64)
    (reducer : StateReducer S) (decodeState : List UInt8 → Except ReplayError S) :
    ∃ rng, (engine.reconstructAtSequence target reducer decodeState).2 = { engine with rng := rng } := by
  unfold reconstructAtSequence
  split
  · exact ⟨engine.rng, rfl⟩
  · split
    · exact ⟨engine.rng, rfl⟩
    · split
      · exact ⟨engine.rng, rfl⟩
      · next start _ =>
          split
          · split
            · exact ⟨start.rng, rfl⟩
            · exact ⟨_, rfl⟩
          · exact ⟨start.rng, rfl⟩

theorem after_keeps (engine : ReplayEngine) (calls : List Call) :
    ∃ rng, engine.after calls = { engine with rng := rng } := by
  induction calls generalizing engine with
  | nil => exact ⟨engine.rng, rfl⟩
  | cons first calls hypothesis =>
      let initial := first.initial
      obtain ⟨middle, moved⟩ := engine.reconstructAtSequence_keeps first.target first.reducer first.decodeState
      obtain ⟨last, done⟩ := hypothesis { engine with rng := middle }
      refine ⟨last, ?_⟩
      change (engine.reconstructAtSequence first.target first.reducer first.decodeState).2.after calls = _
      rw [moved, done]

end ReplayEngine

/-- The reconstruction begins without a checkpoint and its page does not begin with a gap. -/
def StartsOver (storeDir : Disk) (checkpoints : CheckpointStore) (target : UInt64) : Prop :=
  ∃ store report events,
    (Store.openStore Limits.default .rejectIncompleteTail storeDir).1 = .ok (store, report) ∧
    target.toNat < store.nextSequence ∧ checkpoints.highest target = none ∧
    replayPage store storeDir target 0 = .ok events ∧
    ∀ event ∈ events.head?, event.id.sequence = 0 ∨ target < event.id.sequence

section

variable {storeDir : Disk} {checkpoints : CheckpointStore} {target : UInt64} {rng other : DeterministicRng}

/-- Unless it starts over, a reconstruction does not depend on the generator. -/
theorem reconstruct_of_not_startsOver {S : Type} [Inhabited S] (reducer : StateReducer S)
    (decodeState : List UInt8 → Except ReplayError S) (resumes : ¬ StartsOver storeDir checkpoints target) :
    (ReplayEngine.reconstructAtSequence ⟨storeDir, checkpoints, rng⟩ target reducer decodeState).1 =
      (ReplayEngine.reconstructAtSequence ⟨storeDir, checkpoints, other⟩ target reducer decodeState).1 := by
  unfold ReplayEngine.reconstructAtSequence
  dsimp only
  cases opens : (Store.openStore Limits.default .rejectIncompleteTail storeDir).1 with
  | error error => rfl
  | ok opened =>
      obtain ⟨store, report⟩ := opened
      rw [asReplay_ok]
      dsimp only
      split
      · rfl
      · next inside =>
          cases chosen : checkpoints.highest target with
          | some sequence =>
              have same : ReplayEngine.locate ⟨storeDir, checkpoints, rng⟩ store target decodeState =
                  ReplayEngine.locate ⟨storeDir, checkpoints, other⟩ store target decodeState := by
                unfold ReplayEngine.locate CheckpointStore.findLatest
                dsimp only
                rw [chosen]
                dsimp only
                cases checkpoints.load sequence with
                | error error => rfl
                | ok checkpoint => rfl
              rw [same]
              cases ReplayEngine.locate ⟨storeDir, checkpoints, other⟩ store target decodeState with
              | error error => rfl
              | ok start => rfl
          | none =>
              have fresh : ∀ rng, ReplayEngine.locate ⟨storeDir, checkpoints, rng⟩ store target decodeState =
                  .ok ⟨default, 0, defaultHeader store rng, rng⟩ := by
                intro rng
                unfold ReplayEngine.locate CheckpointStore.findLatest
                rw [chosen]
                rfl
              rw [fresh, fresh]
              dsimp only
              have first : (0 : UInt64) ≤ target := UInt64.le_iff_toNat_le.mpr (Nat.zero_le _)
              rw [if_pos first, if_pos first]
              cases page : replayPage store storeDir target 0 with
              | error error => rfl
              | ok events =>
                  dsimp only
                  have gap : ¬ ∀ event ∈ events.head?, event.id.sequence = 0 ∨ target < event.id.sequence :=
                    fun head => resumes ⟨store, report, events, opens, Nat.not_le.mp inside, chosen, page, head⟩
                  cases events with
                  | nil => exact absurd nofun gap
                  | cons event events =>
                      have wrong : ¬ (event.id.sequence = 0 ∨ target < event.id.sequence) :=
                        fun right => gap fun found same => Option.some.inj same ▸ right
                      rw [not_or] at wrong
                      rw [replayEvents, if_neg wrong.2, if_pos wrong.1, replayEvents, if_neg wrong.2, if_pos wrong.1]

/-- A reconstruction that starts over runs its reducer on the generator of the engine. -/
theorem reconstruct_fresh {S : Type} [Inhabited S] {store : Store} {report : RecoveryReport}
    {events : List StoredEvent} (reducer : StateReducer S) (decodeState : List UInt8 → Except ReplayError S)
    (rng : DeterministicRng)
    (opens : (Store.openStore Limits.default .rejectIncompleteTail storeDir).1 = .ok (store, report))
    (inside : target.toNat < store.nextSequence) (absent : checkpoints.highest target = none)
    (page : replayPage store storeDir target 0 = .ok events) :
    ReplayEngine.reconstructAtSequence ⟨storeDir, checkpoints, rng⟩ target reducer decodeState =
      ((replayEvents reducer target events ⟨default, 0, defaultHeader store rng, rng⟩).1.map fun progress =>
          (progress.state, progress.header),
        ⟨storeDir, checkpoints, (replayEvents reducer target events ⟨default, 0, defaultHeader store rng, rng⟩).2⟩) := by
  have fresh : ReplayEngine.locate ⟨storeDir, checkpoints, rng⟩ store target decodeState =
      .ok ⟨default, 0, defaultHeader store rng, rng⟩ := by
    unfold ReplayEngine.locate CheckpointStore.findLatest
    rw [absent]
    rfl
  unfold ReplayEngine.reconstructAtSequence
  rw [opens, asReplay_ok]
  dsimp only
  rw [if_neg (Nat.not_le.mpr inside), fresh]
  dsimp only
  rw [if_pos (UInt64.le_iff_toNat_le.mpr (Nat.zero_le _)), page]

/-- A reducer that gives up and names a number of its generator. -/
def telling (number : DeterministicRng → UInt64) : StateReducer Unit where
  apply _ _ rng := (.error (.missingCheckpoint (number rng)), rng)

/-- A reconstruction that starts over tells every number of its generator. -/
theorem reconstruct_of_startsOver (startsOver : StartsOver storeDir checkpoints target)
    (number : DeterministicRng → UInt64)
    (same : (ReplayEngine.reconstructAtSequence ⟨storeDir, checkpoints, rng⟩ target (telling number) fun _ => .ok ()).1 =
      (ReplayEngine.reconstructAtSequence ⟨storeDir, checkpoints, other⟩ target (telling number) fun _ => .ok ()).1) :
    number rng = number other := by
  obtain ⟨store, report, events, opens, inside, absent, page, head⟩ := startsOver
  rw [reconstruct_fresh _ _ rng opens inside absent page, reconstruct_fresh _ _ other opens inside absent page] at same
  have whole : defaultHeader store rng = defaultHeader store other → number rng = number other := by
    intro equal
    rw [DeterministicRng.snapshot_injective (congrArg CheckpointHeader.rng equal)]
  cases events with
  | nil => exact whole (congrArg Prod.snd (Except.ok.inj same))
  | cons event events =>
      rw [replayEvents, replayEvents] at same
      rcases head event rfl with start | beyond
      · have before : ¬ target < event.id.sequence := by
          rw [start, UInt64.not_lt]
          exact UInt64.le_iff_toNat_le.mpr (Nat.zero_le _)
        rw [if_neg before, if_neg (not_not.mpr start), if_neg before, if_neg (not_not.mpr start)] at same
        exact ReplayError.missingCheckpoint.inj (Except.error.inj same)
      · rw [if_pos beyond, if_pos beyond] at same
        exact whole (congrArg Prod.snd (Except.ok.inj same))

omit [Crc32fast] in
/-- A generator is known by its three numbers. -/
theorem eq_of_tells (same : ∀ number : DeterministicRng → UInt64, number rng = number other) : rng = other := by
  obtain ⟨seed, state, steps⟩ := rng
  obtain ⟨rfl, rfl, rfl⟩ : seed = other.seed ∧ state = other.state ∧ steps = other.steps :=
    ⟨same DeterministicRng.seed, same DeterministicRng.state, same DeterministicRng.steps⟩
  rfl

end

/-- A reconstruction returns what it returns on a new engine, for every reducer and whatever was reconstructed
before, if and only if it does not start over or the generator is still the one of the seed. -/
theorem reconstruction_independent_iff (storeDir : Disk) (checkpoints : CheckpointStore) (seed : UInt64)
    (calls : List Call) (target : UInt64) :
    (∀ (S : Type) [Inhabited S] (reducer : StateReducer S) (decodeState : List UInt8 → Except ReplayError S),
      (((ReplayEngine.new storeDir checkpoints seed).after calls).reconstructAtSequence target reducer decodeState).1 =
        ((ReplayEngine.new storeDir checkpoints seed).reconstructAtSequence target reducer decodeState).1) ↔
      ¬ StartsOver storeDir checkpoints target ∨
        ((ReplayEngine.new storeDir checkpoints seed).after calls).rng = .new seed := by
  obtain ⟨rng, moved⟩ := (ReplayEngine.new storeDir checkpoints seed).after_keeps calls
  rw [moved]
  constructor
  · intro independent
    by_cases startsOver : StartsOver storeDir checkpoints target
    · exact Or.inr (eq_of_tells fun number =>
        reconstruct_of_startsOver startsOver number (independent Unit (telling number) fun _ => .ok ()))
    · exact Or.inl startsOver
  · intro holds S _ reducer decodeState
    rcases holds with resumes | same
    · exact reconstruct_of_not_startsOver reducer decodeState resumes
    · have same : rng = .new seed := same
      rw [same]
      rfl

/-- A reducer that keeps the last number that it draws. -/
def drawing : StateReducer UInt64 where
  apply _ _ rng := (.ok rng.nextU64.1, rng.nextU64.2)

/-- A reconstruction of the only event draws once. -/
theorem reconstruct_drawing {disk : Disk} {store : Store} {report : RecoveryReport} {event : StoredEvent}
    (opens : (Store.openStore Limits.default .rejectIncompleteTail disk).1 = .ok (store, report))
    (inside : (0 : UInt64).toNat < store.nextSequence) (page : replayPage store disk 0 0 = .ok [event])
    (number : event.id.sequence = 0) (rng : DeterministicRng) :
    ReplayEngine.reconstructAtSequence ⟨disk, ⟨[]⟩, rng⟩ 0 drawing (fun _ => .ok 0) =
      (.ok (rng.nextU64.1, { defaultHeader store rng with
        sequence := event.id.sequence
        validTime := event.times.valid
        knownTime := event.times.known
        rng := rng.nextU64.2.snapshot }), ⟨disk, ⟨[]⟩, rng.nextU64.2⟩) := by
  have before : ¬ (0 : UInt64) < event.id.sequence := by
    rw [number]
    decide
  rw [reconstruct_fresh drawing _ rng opens inside rfl page, replayEvents, if_neg before, if_neg (not_not.mpr number)]
  rfl

/-- The database with one bare event opens and has that event on its first page. -/
theorem bareCommands_page {system : System}
    (reached : system = (System.fresh sampleDatabase 1 1 Limits.default).run (bareCommands 1)) :
    ∃ store report, (Store.openStore Limits.default .rejectIncompleteTail system.disk).1 = .ok (store, report) ∧
      store.nextSequence = 1 ∧ replayPage store system.disk 0 0 = .ok (bareEvents 1) := by
  have created : System.create sampleDatabase 1 1 Limits.default =
      .ok (System.fresh sampleDatabase 1 1 Limits.default) := System.create_ok.mpr ⟨rfl, rfl⟩
  have empty := System.create_settled created
  have next : NextBatch (startStore ⟨sampleDatabase, 1, 1⟩ Limits.default 0) [bareInput 1 0] (bareEvents 1) :=
    NextBatch.bare rfl (fun last absent => nomatch absent) (by decide) (by decide)
  have settled := empty.append_next next
  obtain ⟨_, _, _, _, wal, disk⟩ := empty.consistent.append [bareInput 1 0]
  have same : system = (System.fresh sampleDatabase 1 1 Limits.default).step (.append [bareInput 1 0]) := reached
  rw [← same] at settled disk
  have absent : system.disk.manifest = none := congrArg Disk.manifest disk
  obtain ⟨ends, inv⟩ := settled.consistent.inv.reopen .rejectIncompleteTail
    (rfl : validateLimits Limits.default = .ok ()) fun batch member => by
      rw [List.mem_singleton.mp member]
      exact (bare_fits _ _ _ _).batch
  have steady : Steady ⟨[], [bareEvents 1]⟩ system.disk (opened ⟨sampleDatabase, 1, 1⟩ Limits.default ⟨[], [bareEvents 1]⟩) := by
    unfold Steady
    rw [opened_header, opened_limits]
    exact inv
  refine ⟨_, _, congrArg Prod.fst ends, steady.tracks.nextSequence, ?_⟩
  change replayPage (opened ⟨sampleDatabase, 1, 1⟩ Limits.default ⟨[], [bareEvents 1]⟩) system.disk 0 0 = _
  generalize opened _ _ _ = store at steady
  have length : store.nextSequence = 1 := steady.tracks.nextSequence
  have clock : OnKnownClock .default store := fun cutoff last absent => nomatch absent
  have window : store.window .default (some (store.cursorAt .default 0 store.nextSequence)) = .ok (0, 1) := by
    rw [Store.window, Except.refuseIf_bind, length]
    · rfl
    · simp [Store.cursorAt]
  have admits : AdmitsBlocks (replayBudget 0 0) 1 system.disk store := by
    refine ⟨fun frame member _ => ?_, fun saved same => ?_⟩
    · rw [steady.tracks.frames] at member
      rw [List.mem_singleton.mp member]
      refine ⟨?_, (by decide : 1 ≤ 65536)⟩
      change (batchBytes [recordOf ⟨sampleDatabase, 1, 1⟩ 0 (bareInput 1 0)]).length ≤ _
      rw [batchBytes_bare_length]
      decide
    · rw [absent] at same
      contradiction
  obtain ⟨page, reached, found, account, -, -, onward⟩ := steady.history_page clock
    (by decide : 0 < (replayBudget 0 0).maxResults ∧ 0 < (replayBudget 0 0).maxScanned ∧
      0 < (replayBudget 0 0).maxReadBytes) window (le_refl 1) admits
  have whole : page.events = bareEvents 1 := by
    rw [pending_of_le (onward (by decide)), List.append_nil] at account
    rw [account]
    rfl
  rw [replayPage_eq steady.tracks.usable (Nat.zero_le _)]
  change asReplay (Except.map _ (store.history system.disk .default (replayBudget 0 0) (some (store.cursorAt .default 0 _)))) = _
  rw [found, ← whole]
  rfl

/-- Two equal reconstructions of the only event draw one after the other. -/
theorem reconstruct_drawing_again {disk : Disk} {store : Store} {report : RecoveryReport} {event : StoredEvent}
    (opens : (Store.openStore Limits.default .rejectIncompleteTail disk).1 = .ok (store, report))
    (inside : (0 : UInt64).toNat < store.nextSequence) (page : replayPage store disk 0 0 = .ok [event])
    (number : event.id.sequence = 0) {seed : UInt64}
    (same : (((ReplayEngine.new disk ⟨[]⟩ seed).after [⟨UInt64, ⟨0⟩, 0, drawing, fun _ => .ok 0⟩]).reconstructAtSequence
        0 drawing fun _ => .ok 0).1 =
      ((ReplayEngine.new disk ⟨[]⟩ seed).reconstructAtSequence 0 drawing fun _ => .ok 0).1) :
    (DeterministicRng.new seed).nextU64.2.nextU64.1 = (DeterministicRng.new seed).nextU64.1 := by
  have first := reconstruct_drawing opens inside page number (.new seed)
  have second := reconstruct_drawing opens inside page number (DeterministicRng.new seed).nextU64.2
  have after : (ReplayEngine.new disk ⟨[]⟩ seed).after [⟨UInt64, ⟨0⟩, 0, drawing, fun _ => .ok 0⟩] =
      ⟨disk, ⟨[]⟩, (DeterministicRng.new seed).nextU64.2⟩ := congrArg Prod.snd first
  rw [after, second] at same
  have drawn := same.trans (congrArg Prod.fst first)
  obtain ⟨numbers, -⟩ := Prod.mk.inj (Except.ok.inj drawn)
  exact numbers

end

/-- The second of two equal reconstructions draws another number than the first one. -/
theorem reconstruction_draws_on :
    letI := Crc32fast.ieee
    let engine := ReplayEngine.new ((System.fresh sampleDatabase 1 1 Limits.default).run (bareCommands 1)).disk ⟨[]⟩ 0
    let decodeState := fun _ => (.ok 0 : Except ReplayError UInt64)
    ((engine.after [⟨UInt64, ⟨0⟩, 0, drawing, decodeState⟩]).reconstructAtSequence 0 drawing decodeState).1 ≠
      (engine.reconstructAtSequence 0 drawing decodeState).1 := by
  generalize Crc32fast.ieee = inst
  obtain ⟨store, report, opens, one, page⟩ := bareCommands_page rfl
  have inside : (0 : UInt64).toNat < store.nextSequence := by
    rw [one]
    decide
  generalize ((System.fresh sampleDatabase 1 1 Limits.default).run (bareCommands 1)).disk = disk at opens page ⊢
  intro engine decodeState same
  exact absurd (reconstruct_drawing_again opens inside page rfl same) (by decide)

end Temnion.Replay
