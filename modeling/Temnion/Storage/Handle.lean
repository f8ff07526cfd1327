import Temnion.Storage.Refusal
import Temnion.Storage.Run

/-
This file follows the handle of a store, whatever its files hold and whichever of its operations fail.
-/

namespace Temnion.Storage

open Format Index LittleEndian Procedure

/-- What the program sees of a world: the handle and the events that the commit subscribers saw. -/
def World.seen (world : World) : Store × List StoredEvent := (world.store, world.acknowledged)

/-- The action works on the files and leaves the handle and the subscribers alone. -/
abbrev OnFiles {A : Type} (action : Process A) : Prop := Preserves World.seen action

section Files

theorem fileOperation_onFiles (operation : FileOperation) (partly : Nat → Disk → Disk) (fully : Disk → Disk) :
    OnFiles (fileOperation operation partly fully) := by
  intro world
  unfold fileOperation
  cases failNow world operation <;> rfl

theorem observe_onFiles (operation : FileOperation) : OnFiles (observe operation) := fileOperation_onFiles _ _ _

theorem readBounded_onFiles (file : Option (List UInt8)) (maxBytes : Nat) : OnFiles (readBounded file maxBytes) := by
  unfold readBounded
  apply (observe_onFiles _).bind
  intro _
  apply (observe_onFiles _).bind
  intro _
  apply (Preserves.lift _).bind
  intro _
  apply (observe_onFiles _).bind
  intro _
  apply (observe_onFiles _).bind
  intro _
  exact Preserves.pure _

theorem loadIfExists_onFiles : OnFiles SegmentManifest.loadIfExists := by
  unfold SegmentManifest.loadIfExists
  apply (observe_onFiles _).bind
  intro _
  apply Preserves.read.bind
  intro world
  cases world.disk.manifest with
  | none => exact Preserves.pure _
  | some manifest =>
      apply (observe_onFiles _).bind
      intro _
      exact Preserves.pure _

theorem save_onFiles (manifest : SegmentManifest) : OnFiles manifest.save := by
  unfold SegmentManifest.save
  apply (observe_onFiles _).bind
  intro _
  apply (observe_onFiles _).bind
  intro _
  apply (observe_onFiles _).bind
  intro _
  apply (observe_onFiles _).bind
  intro _
  exact fileOperation_onFiles _ _ _

end Files

variable [Crc32fast]

section Seal

variable {store : Store}

theorem readIndexed_onFiles (frame : FrameLocation) : OnFiles (readIndexed store frame) := by
  unfold readIndexed
  apply (Preserves.refuseIf _ _).bind
  intro _
  apply (observe_onFiles _).bind
  intro _
  apply (observe_onFiles _).bind
  intro _
  apply Preserves.read.bind
  intro _
  apply (Preserves.lift _).bind
  intro _
  exact Preserves.lift _

theorem publishSegment_onFiles (filename : String) (records : List StoredEvent) (encoded : List UInt8) :
    OnFiles (store.publishSegment filename records encoded) := by
  unfold Store.publishSegment
  apply (observe_onFiles _).bind
  intro _
  apply Preserves.read.bind
  intro world
  cases world.disk.segments.lookup filename with
  | some file =>
      apply (readBounded_onFiles _ _).bind
      intro _
      apply (Preserves.refuseIf _ _).bind
      intro _
      apply (Preserves.lift _).bind
      intro _
      exact Preserves.pure _
  | none =>
      apply (fileOperation_onFiles _ _ _).bind
      intro _
      apply (fileOperation_onFiles _ _ _).bind
      intro _
      apply (observe_onFiles _).bind
      intro _
      apply Preserves.read.bind
      intro _
      apply (readBounded_onFiles _ _).bind
      intro _
      apply (Preserves.lift _).bind
      intro _
      apply (Preserves.refuseIf _ _).bind
      intro _
      apply (fileOperation_onFiles _ _ _).bind
      intro _
      apply (observe_onFiles _).bind
      intro _
      apply (fileOperation_onFiles _ _ _).bind
      intro _
      apply (observe_onFiles _).bind
      intro _
      exact Preserves.pure _

theorem writeSummary_onFiles (frame : FrameLocation) (index : Nat) : OnFiles (store.writeSummary frame index) := by
  unfold Store.writeSummary
  apply (observe_onFiles _).bind
  intro _
  apply Preserves.read.bind
  intro world
  cases world.disk.segments.lookup (summaryFilename frame.first frame.last) with
  | some file => exact Preserves.pure _
  | none =>
      cases store.summaries[index]? with
      | none => exact Preserves.pure _
      | some block =>
          apply (Preserves.lift _).bind
          intro _
          exact fileOperation_onFiles _ _ _

/-- A seal never touches the handle. -/
theorem sealFrames_onFiles : OnFiles Store.sealFrames := by
  unfold Store.sealFrames
  apply Preserves.read.bind
  intro world
  apply (Preserves.refuseIf _ _).bind
  intro _
  apply (observe_onFiles _).bind
  intro _
  apply (observe_onFiles _).bind
  intro _
  apply loadIfExists_onFiles.bind
  intro manifest
  have round : ∀ progress indexed, OnFiles (world.store.sealFrame progress indexed) := by
    intro progress indexed
    unfold Store.sealFrame
    apply (readIndexed_onFiles _).bind
    intro _
    apply (Preserves.lift _).bind
    intro _
    apply (publishSegment_onFiles _ _ _).bind
    intro _
    apply (writeSummary_onFiles _ _).bind
    intro _
    exact Preserves.pure _
  apply (Preserves.foldlM round _).bind
  intro progress
  apply (save_onFiles _).bind
  intro _
  exact Preserves.pure _

end Seal

section Retire

/-- Nothing has happened yet. -/
def Idle (base world : World) : Prop := world.disk = base.disk ∧ world.seen = base.seen

/-- The handle is the old one, or it has dropped so many frames. -/
def Dropped (base : World) (count : Nat) (world : World) : Prop :=
  world.acknowledged = base.acknowledged ∧
    (world.store = base.store ∨ 0 < count ∧ ∃ length, world.store = base.store.compacted count length)

variable {base : World} {count : Nat}

omit [Crc32fast] in
theorem Dropped.of_seen {world : World} (same : world.seen = base.seen) : Dropped base count world := by
  obtain ⟨store, acknowledged⟩ := Prod.mk.inj same
  exact ⟨acknowledged, Or.inl store⟩

omit [Crc32fast] in
theorem observe_idle (operation : FileOperation) :
    Meets (Idle base) (observe operation) (fun _ => Idle base) (fun _ => Idle base) := by
  unfold observe atomicOperation
  apply fileOperation_meets
  · exact fun _ idle => idle
  · exact fun _ _ idle _ => idle

omit [Crc32fast] in
/-- Loading a manifest returns the one that the files hold. -/
theorem loadIfExists_idle : Meets (Idle base) SegmentManifest.loadIfExists
    (fun result world => result = base.disk.manifest ∧ Idle base world) (fun _ => Idle base) := by
  unfold SegmentManifest.loadIfExists
  apply (observe_idle _).bind
  intro _
  apply Meets.read
  intro world idle
  rw [idle.1]
  cases base.disk.manifest with
  | none =>
      apply Meets.pure
      rintro _ rfl
      exact ⟨rfl, idle⟩
  | some manifest =>
      refine (observe_idle _).consequence (fun reached same => ?_) (fun _ _ holds => holds) (fun _ _ holds => holds)
        |>.bind ?_
      · exact same ▸ idle
      · intro _
        exact Meets.pure fun _ idle => ⟨rfl, idle⟩

omit [Crc32fast] in
theorem readRemaining_onFiles (bytes : List UInt8) (frame : FrameLocation) :
    OnFiles (Store.readRemaining bytes frame) := by
  unfold Store.readRemaining
  apply (observe_onFiles _).bind
  intro _
  apply (observe_onFiles _).bind
  intro _
  apply Preserves.read.bind
  intro _
  apply (Preserves.lift _).bind
  intro _
  exact Preserves.pure _

omit [Crc32fast] in
theorem writeCompacted_onFiles (bytes : List UInt8) : OnFiles (Store.writeCompacted bytes) := by
  unfold Store.writeCompacted
  split
  · exact Preserves.pure _
  · exact fileOperation_onFiles _ _ _

omit [Crc32fast] in
/-- An action on files keeps a handle that has dropped its frames or not. -/
theorem OnFiles.dropped {A : Type} {action : Process A} (onFiles : OnFiles action) :
    Meets (Dropped base count) action (fun _ => Dropped base count) (fun _ => Dropped base count) :=
  onFiles.meets fun seen => seen.2 = base.acknowledged ∧
    (seen.1 = base.store ∨ 0 < count ∧ ∃ length, seen.1 = base.store.compacted count length)

omit [Crc32fast] in
/-- As long as the handle is the old one, an action on files keeps it. -/
theorem OnFiles.seen {A : Type} {action : Process A} (onFiles : OnFiles action) :
    Meets (fun world => world.seen = base.seen) action (fun _ world => world.seen = base.seen)
      (fun _ => Dropped base count) :=
  (onFiles.meets (· = base.seen)).consequence (fun _ same => same) (fun _ _ same => same) fun _ _ same => .of_seen same

omit [Crc32fast] in
theorem retireFrames_dropped {manifest : SegmentManifest} {retired : List FrameLocation} {highest : FrameLocation}
    (some' : 0 < retired.length) : Meets (fun world => world.seen = base.seen) (base.store.retireFrames manifest retired highest)
      (fun _ => Dropped base retired.length) (fun _ => Dropped base retired.length) := by
  unfold Store.retireFrames
  apply (OnFiles.seen (Preserves.foldlM readRemaining_onFiles _)).bind
  intro remaining
  apply (OnFiles.seen (observe_onFiles _)).bind
  intro _
  apply (OnFiles.seen (writeCompacted_onFiles _)).bind
  intro _
  apply (OnFiles.seen (fileOperation_onFiles _ _ _)).bind
  intro _
  apply (OnFiles.seen (observe_onFiles _)).bind
  intro _
  refine Meets.bind (?_ : Meets _ _ (fun _ => Dropped base retired.length) _) ?_
  · apply Meets.update
    intro world same
    obtain ⟨store, acknowledged⟩ := Prod.mk.inj same
    exact ⟨acknowledged, Or.inr ⟨some', _, congrArg (Store.compacted · _ _) store⟩⟩
  intro _
  apply (OnFiles.dropped (save_onFiles _)).bind
  intro _
  exact Meets.pure fun _ dropped => dropped

omit [Crc32fast] in
/-- A retirement leaves the handle as it is, or the handle drops the frames to retire. -/
theorem retireWal_dropped (holds : List ReferenceHold) :
    Meets (Idle base) (Store.retireWal holds)
      (fun _ => Dropped base (base.store.retirable base.disk.manifest holds).length)
      (fun _ => Dropped base (base.store.retirable base.disk.manifest holds).length) := by
  unfold Store.retireWal
  apply Meets.read
  intro world idle
  obtain ⟨disk, seen⟩ := idle
  have store : world.store = base.store := (Prod.mk.inj seen).1
  rw [store]
  have start : ∀ reached, reached = world → Idle base reached := by
    rintro _ rfl
    exact ⟨disk, seen⟩
  refine Meets.bind (?_ : Meets _ _ (fun _ => Idle base) _) ?_
  · exact Meets.refuseIf (fun _ reached same => start reached same)
      fun _ reached same => .of_seen (start reached same).2
  intro _
  refine Meets.bind_value (loadIfExists_idle.consequence (fun _ idle => idle) (fun _ _ holds => holds)
    fun _ _ idle => .of_seen idle.2) ?_
  cases present : base.disk.manifest with
  | none => exact Meets.pure fun _ idle => .of_seen idle.2
  | some manifest =>
      dsimp only
      rw [Store.retirable]
      cases last : (base.store.frames.takeWhile (Store.eligible manifest holds)).getLast? with
      | none => exact Meets.pure fun _ idle => .of_seen idle.2
      | some highest =>
          have some' := List.length_pos_of_mem (List.mem_of_getLast? last)
          exact (retireFrames_dropped some').consequence (fun _ idle => idle.2) (fun _ _ dropped => dropped)
            fun _ _ dropped => dropped

end Retire

section Recovery

variable {store : Store} {wal : List UInt8}

/-- A recovered frame is a batch that may come next. -/
theorem recoverFrame_next {later : Store} {frameBytes : Nat} (start : store.nextSequence < 2 ^ 64)
    (recovered : store.recoverFrame wal frameBytes = .ok later) :
    ∃ fresh, NextBatch store (fresh.map inputOf) fresh ∧ later = store.pushBatch fresh := by
  unfold Store.recoverFrame readFrameAt decodeFrameAt at recovered
  simp only [Except.bind_eq_ok, readExact_ok, asStorage_ok, decodeBatch_ok, Except.refuseIf_ok, exists_const,
    Prod.exists, validateNext_ok start, checkedAdd_ok, Pure.pure, Except.pure, Except.ok.injEq] at recovered
  obtain ⟨fresh, ⟨_, bytes, ⟨inside, read⟩, fits, same⟩, nonempty, next, known, ⟨accepted, rfl, rfl, bound⟩, _,
    ⟨offset, _⟩, rfl⟩ := recovered
  have length : (batchBytes fresh).length = frameBytes := by
    rw [same, ← read]
    exact slice_length inside
  rw [← length] at offset ⊢
  exact ⟨fresh, ⟨rfl, nonempty, accepted, fits, bound, offset⟩, rfl⟩

/-- What every recovered frame keeps holds of the handle that a scan ends with. -/
theorem recoverFrames_keeps {kept : Store → Prop} {recovery : RecoveryMode} {steps : Nat} {disk reached : Disk}
    {result : Store × Nat}
    (push : ∀ store frameBytes later, kept store → store.recoverFrame wal frameBytes = .ok later → kept later)
    (start : kept store) (scanned : Store.recoverFrames recovery wal steps store disk = (.ok result, reached)) :
    kept result.1 := by
  induction steps generalizing store disk with
  | zero =>
      rw [Store.recoverFrames] at scanned
      obtain ⟨_, _, _, ends⟩ := bind_eq_ok.mp scanned
      rw [← Except.ok.inj (Prod.mk.inj ends).1]
      exact start
  | succ steps hypothesis =>
      rw [Store.recoverFrames] at scanned
      split at scanned
      · obtain ⟨next, between, _, ends⟩ := bind_eq_ok.mp scanned
        cases next with
        | none =>
            cases recovery with
            | rejectIncompleteTail => cases (Prod.mk.inj ends).1
            | truncateIncompleteTail =>
                obtain ⟨_, _, _, ends⟩ := bind_eq_ok.mp ends
                rw [← Except.ok.inj (Prod.mk.inj ends).1]
                exact start
        | some frameBytes =>
            obtain ⟨later, _, recovered, ends⟩ := bind_eq_ok.mp ends
            exact hypothesis (push store frameBytes later start (Prod.mk.inj recovered).1) ends
      · rw [← Except.ok.inj (Prod.mk.inj scanned).1]
        exact start

end Recovery

section Append

omit [Crc32fast] in
theorem writeBatch_onFiles (store : Store) (encoded : List UInt8) : OnFiles (store.writeBatch encoded) := by
  unfold Store.writeBatch
  apply (observe_onFiles _).bind
  intro _
  apply Preserves.read.bind
  intro _
  apply (Preserves.refuseIf _ _).bind
  intro _
  apply (observe_onFiles _).bind
  intro _
  apply (fileOperation_onFiles _ _ _).bind
  intro _
  exact observe_onFiles _

/-- An append that fails has changed nothing, or it does not know its outcome and has poisoned the handle. -/
theorem append_fails {world reached : World} {batch : List WriteEvent} {error : StorageError}
    (failed : Store.append batch world = (.error error, reached)) :
    reached = world ∨ (∃ cause, error = .commitOutcomeUnknown cause) ∧
      reached.seen = ({ world.store with poisoned := true }, world.acknowledged) := by
  unfold Store.append at failed
  rw [bind_of_ok (read_apply world)] at failed
  cases prepared : world.store.prepare batch with
  | error refused =>
      rw [prepared] at failed
      exact Or.inl (Prod.mk.inj failed).2.symm
  | ok ready =>
      have kept := writeBatch_onFiles world.store ready.encoded world
      rw [prepared, lift_bind_ok, bind_of_ok (attempt_apply _ _)] at failed
      rcases written : world.store.writeBatch ready.encoded world with ⟨outcome, between⟩
      rw [written] at failed kept
      cases outcome with
      | ok done => exact absurd (Prod.mk.inj failed).1 nofun
      | error broken =>
          obtain ⟨store, acknowledged⟩ := Prod.mk.inj kept
          obtain ⟨cause, reached⟩ := Prod.mk.inj failed
          refine Or.inr ⟨⟨broken, (Except.error.inj cause).symm⟩, ?_⟩
          rw [← reached]
          exact Prod.mk.injEq _ _ _ _ |>.mpr ⟨congrArg (fun store : Store => { store with poisoned := true }) store, acknowledged⟩

end Append

section Reached

/-- The worlds that calls on a handle lead to, from a new database or from a directory that opens, whatever its files
hold. Any file operation may fail. -/
inductive Reached (allowed : World → Command → Prop) : World → Prop where
  | created {database : DatabaseId} {source : SourceId} {epoch : SourceEpoch} {limits : Limits} {disk : Disk}
      {store : Store} (done : create database source epoch limits = .ok (disk, store)) :
      Reached allowed ⟨disk, store, [], none⟩
  | opened {limits : Limits} {recovery : RecoveryMode} {disk reached : Disk} {store : Store} {report : RecoveryReport}
      {acknowledged : List StoredEvent} (mark : retirementMark disk.manifest < 2 ^ 64)
      (done : Store.openStore limits recovery disk = (.ok (store, report), reached)) :
      Reached allowed ⟨reached, store, acknowledged, none⟩
  | threatened {world : World} (reached : Reached allowed world) (fault : Option Fault) :
      Reached allowed { world with fault := fault }
  | appended {world : World} {batch : List WriteEvent} (reached : Reached allowed world)
      (permitted : allowed world (.append batch)) : Reached allowed (Store.append batch world).2
  | sealedFrames {world : World} (reached : Reached allowed world) (permitted : allowed world .sealFrames) :
      Reached allowed (Store.sealFrames world).2
  | retired {world : World} {holds : List ReferenceHold} (reached : Reached allowed world)
      (permitted : allowed world (.retire holds)) : Reached allowed (Store.retireWal holds world).2

variable {allowed : World → Command → Prop} {kept : Store → Prop}

/-- What new handles have, and what batches, poison and retirements keep, holds of every handle that is reached. -/
theorem Reached.keeps {world : World} (reached : Reached allowed world)
    (start : ∀ header limits first, kept (startStore header limits first))
    (push : ∀ store fresh, kept store → NextBatch store (fresh.map inputOf) fresh → kept (store.pushBatch fresh))
    (poison : ∀ store, kept store → kept { store with poisoned := true })
    (drop : ∀ world holds length, allowed world (.retire holds) → kept world.store →
      0 < (world.store.retirable world.disk.manifest holds).length →
      kept (world.store.compacted (world.store.retirable world.disk.manifest holds).length length)) :
    kept world.store ∧ world.store.nextSequence < 2 ^ 64 := by
  have push' : ∀ store fresh, kept store ∧ store.nextSequence < 2 ^ 64 →
      NextBatch store (fresh.map inputOf) fresh → kept (store.pushBatch fresh) ∧
        (store.pushBatch fresh).nextSequence < 2 ^ 64 :=
    fun store fresh holds next => ⟨push store fresh holds.1 next, next.bound⟩
  induction reached with
  | created done =>
      obtain ⟨_, rfl, _⟩ := create_ok.mp done
      exact ⟨start _ _ _, Nat.two_pow_pos _⟩
  | opened mark done =>
      unfold Store.openStore at done
      rw [bind_of_ok (read_apply _)] at done
      obtain ⟨begun, _, lifted, scan⟩ := bind_eq_ok.mp done
      obtain ⟨opening, rfl⟩ := Prod.mk.inj lifted
      obtain ⟨result, _, scanned, ends⟩ := bind_eq_ok.mp scan
      rw [← (Prod.mk.inj (Except.ok.inj (Prod.mk.inj ends).1)).1]
      refine @recoverFrames_keeps _ _ _ (fun store => kept store ∧ store.nextSequence < 2 ^ 64) _ _ _ _ _ ?_ ?_ scanned
      · intro store frameBytes later holds recovered
        obtain ⟨fresh, next, rfl⟩ := recoverFrame_next holds.2 recovered
        exact push' store fresh holds next
      · unfold Store.opening at opening
        obtain ⟨_, _, decoding⟩ := Except.bind_eq_ok.mp opening
        obtain ⟨header, _, begins⟩ := Except.bind_eq_ok.mp decoding
        rw [← Except.ok.inj begins]
        exact ⟨start header _ _, mark⟩
  | threatened _ _ hypothesis => exact hypothesis
  | @appended world batch _ _ hypothesis =>
      rcases ends : Store.append batch world with ⟨outcome, after⟩
      cases outcome with
      | ok receipt =>
          obtain ⟨fresh, ⟨_, next, _⟩, _, rfl⟩ := append_eq_ok.mp ends
          have again : NextBatch world.store (fresh.map inputOf) fresh := by
            rw [next.inputs]
            exact next
          exact push' _ _ hypothesis again
      | error error =>
          rcases append_fails ends with rfl | ⟨_, seen⟩
          · exact hypothesis
          · obtain ⟨store, _⟩ := Prod.mk.inj seen
            rw [store]
            exact ⟨poison _ hypothesis.1, hypothesis.2⟩
  | @sealedFrames world _ _ hypothesis =>
      have same := (Prod.mk.inj (sealFrames_onFiles world)).1
      rw [same]
      exact hypothesis
  | @retired world holds _ permitted hypothesis =>
      have ends := @retireWal_dropped world holds world ⟨rfl, rfl⟩
      have dropped : Dropped world (world.store.retirable world.disk.manifest holds).length
          (Store.retireWal holds world).2 := by
        revert ends
        rcases Store.retireWal holds world with ⟨outcome, after⟩
        cases outcome <;> exact id
      rcases dropped.2 with same | ⟨some', length, same⟩
      · rw [same]
        exact hypothesis
      · rw [same]
        exact ⟨drop world holds length permitted hypothesis.1 some', hypothesis.2⟩

/-- Every run of a system leads to worlds that are reached. -/
theorem Settled.run_reached {header : WalHeader} {limits : Limits} {log : Log} {store : Store} {system : System}
    {commands : List Command} (settled : Settled header limits log store system)
    (reached : Reached (fun _ _ => True) (system.world store))
    (under : ∀ command ∈ commands, command.Under limits) :
    ∃ later after, Settled header limits later after (system.run commands) ∧
      Reached (fun _ _ => True) ((system.run commands).world after) := by
  induction commands generalizing log store system with
  | nil => exact ⟨log, store, settled, reached⟩
  | cons command commands hypothesis =>
      obtain ⟨later, after, _, next⟩ := settled.step command (under command List.mem_cons_self)
      refine hypothesis next ?_ fun other member => under other (List.mem_cons_of_mem _ member)
      have performed : ∀ {A : Type} (action : Process A), system.step command = system.perform action →
          Reached (fun _ _ => True) (action (system.world store)).2 →
            Reached (fun _ _ => True) ((system.step command).world after) := by
        intro A action same there
        have present := next.present
        rw [same, System.perform_open settled.present] at present ⊢
        rw [← Option.some.inj present]
        exact there.threatened none
      cases command with
      | append batch => exact performed _ rfl (reached.appended trivial)
      | sealFrames => exact performed _ rfl (reached.sealedFrames trivial)
      | retire holds => exact performed _ rfl (reached.retired trivial)
      | reopen other recovery =>
          have mark : retirementMark system.disk.manifest < 2 ^ 64 := by
            have bound := settled.consistent.inv.valid.bound
            rw [log.events_length] at bound
            rw [settled.consistent.inv.stored.mark]
            omega
          have present := next.present
          change (system.reopen other recovery).handle = some after at present
          change Reached _ ((system.reopen other recovery).world after)
          unfold System.reopen at present ⊢
          rcases ends : Store.openStore other recovery system.disk with ⟨outcome, files⟩
          rw [ends] at present
          cases outcome with
          | error error => exact absurd present nofun
          | ok opened =>
              obtain ⟨handle, report⟩ := opened
              obtain rfl : handle = after := Option.some.inj present
              exact .opened mark ends

end Reached

end Temnion.Storage
