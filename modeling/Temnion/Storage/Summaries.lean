import Temnion.Storage.Atomic
import Temnion.Storage.Release

/-
This file compares the summaries of a handle with its frames.
-/

namespace Temnion.Storage

open Format Index LittleEndian Batches

/-- The summary tells where the frame stands, how long it is and which sequences it holds. -/
structure Describes (index : Nat) (frame : FrameLocation) (summary : BlockSummary) : Prop where
  batchIndex : summary.batchIndex.toNat = index
  byteOffset : summary.byteOffset.toNat = frame.offset
  byteLength : summary.byteLength.toNat = frame.length
  recordCount : summary.recordCount.toNat = frame.count
  firstSequence : summary.sequenceRange.min.toNat = frame.first
  lastSequence : summary.sequenceRange.max.toNat + 1 = frame.first + frame.count

/-- Every frame has its summary, at the same place of its list. -/
def Described (store : Store) : Prop :=
  store.summaries.length = store.frames.length ∧ ∀ (index : Nat) (frame : FrameLocation) (summary : BlockSummary),
    store.frames[index]? = some frame → store.summaries[index]? = some summary → Describes index frame summary

/-- The indexes that a summary can hold are right. -/
structure Labelled (store : Store) : Prop where
  length : store.summaries.length = store.frames.length
  each : ∀ (index : Nat) (frame : FrameLocation) (summary : BlockSummary), store.frames[index]? = some frame →
    store.summaries[index]? = some summary → index < 2 ^ 32 → Describes index frame summary

theorem Labelled.described {store : Store} (labelled : Labelled store) (few : store.frames.length ≤ 2 ^ 32) :
    Described store := by
  refine ⟨labelled.length, fun index frame summary here there => labelled.each index frame summary here there ?_⟩
  exact (List.getElem?_eq_some_iff.mp here).1.trans_le few

section Summary

variable {header : WalHeader} {index : Nat} {frame : FrameLocation} {summary : BlockSummary}

/-- A summary that takes in the next record describes the longer frame. -/
theorem Describes.update (describes : Describes index frame summary) {record : StoredEvent}
    (next : record.id.sequence.toNat = frame.first + frame.count) (some' : 0 < frame.count)
    (few : frame.count + 1 < 2 ^ 32) :
    Describes index { frame with count := frame.count + 1 }
      (summary.update record.id.sequence record.entity record.schema record.times) where
  batchIndex := describes.batchIndex
  byteOffset := describes.byteOffset
  byteLength := describes.byteLength
  recordCount := by
    change (summary.recordCount + 1).toNat = frame.count + 1
    rw [UInt32.toNat_add, describes.recordCount]
    exact Nat.mod_eq_of_lt few
  firstSequence := by
    have later : ¬record.id.sequence < summary.sequenceRange.min := by
      rw [UInt64.lt_iff_toNat_lt, next, describes.firstSequence]
      omega
    change (if record.id.sequence < summary.sequenceRange.min then _ else _ : UInt64).toNat = _
    rw [if_neg later]
    exact describes.firstSequence
  lastSequence := by
    have after : summary.sequenceRange.max < record.id.sequence := by
      have last := describes.lastSequence
      rw [UInt64.lt_iff_toNat_lt, next]
      omega
    change (if summary.sequenceRange.max < record.id.sequence then _ else _ : UInt64).toNat + 1 = _
    rw [if_pos after, next]
    rfl

/-- Taking in the rest of a numbered batch describes the whole batch. -/
theorem Describes.foldl {rest : List StoredEvent} (describes : Describes index frame summary)
    (numbered : Numbered header (frame.first + frame.count) rest) (some' : 0 < frame.count)
    (bound : frame.first + frame.count + rest.length < 2 ^ 64) (few : frame.count + rest.length < 2 ^ 32) :
    Describes index { frame with count := frame.count + rest.length }
      (rest.foldl (fun summary record => summary.update record.id.sequence record.entity record.schema record.times)
        summary) := by
  induction rest generalizing frame summary with
  | nil => exact describes
  | cons record rest hypothesis =>
      rw [List.length_cons] at bound few
      have next : record.id.sequence.toNat = frame.first + frame.count := by
        rw [numbered 0 record rfl]
        exact toNat_ofNat (by omega)
      have tail : Numbered header (frame.first + (frame.count + 1)) rest := by
        have parts := (@Numbered.append_iff _ _ [record] rest).mp numbered
        exact parts.2
      have whole := hypothesis (describes.update next some' (by omega)) tail (Nat.succ_pos _)
        (by dsimp only; omega) (by dsimp only; omega)
      rw [List.length_cons, Nat.add_comm rest.length 1, ← Nat.add_assoc]
      exact whole

/-- The summary of a batch describes its frame. -/
theorem frameSummary_describes {first : StoredEvent} {rest : List StoredEvent} {offset length start : Nat}
    (numbered : Numbered header start (first :: rest)) (bound : start + (first :: rest).length < 2 ^ 64)
    (few : (first :: rest).length < 2 ^ 32) (offsetWord : offset < 2 ^ 64) (lengthWord : length < 2 ^ 32)
    (indexWord : index < 2 ^ 32) :
    Describes index ⟨offset, length, start, (first :: rest).length⟩ (frameSummary index offset length first rest) := by
  rw [List.length_cons] at bound few
  have sequence : first.id.sequence.toNat = start := by
    rw [numbered 0 first rfl]
    exact toNat_ofNat (by omega)
  have begun : Describes index ⟨offset, length, start, 1⟩ (.new (UInt32.ofNat index) (UInt64.ofNat offset)
      (UInt32.ofNat length) first.id.sequence first.entity first.schema first.times) := {
    batchIndex := UInt32.toNat_ofNat_of_lt' indexWord
    byteOffset := toNat_ofNat offsetWord
    byteLength := UInt32.toNat_ofNat_of_lt' lengthWord
    recordCount := rfl
    firstSequence := sequence
    lastSequence := congrArg (· + 1) sequence }
  have tail : Numbered header (start + 1) rest := ((@Numbered.append_iff _ _ [first] rest).mp numbered).2
  have whole := begun.foldl tail Nat.one_pos (by dsimp only; omega) (by dsimp only; omega)
  rw [List.length_cons, Nat.add_comm rest.length 1]
  exact whole

end Summary

section Handle

variable [Crc32fast] {store : Store}

theorem Labelled.pushBatch {fresh : List StoredEvent} {batch : List WriteEvent} (labelled : Labelled store)
    (next : NextBatch store batch fresh) : Labelled (store.pushBatch fresh) := by
  obtain ⟨first, rest, rfl⟩ := List.exists_cons_of_ne_nil next.nonempty
  have frames : (store.pushBatch (first :: rest)).frames = store.frames ++
      [⟨store.endOffset, (batchBytes (first :: rest)).length, store.nextSequence, (first :: rest).length⟩] := rfl
  have summaries : (store.pushBatch (first :: rest)).summaries = store.summaries ++
      [frameSummary store.frames.length store.endOffset (batchBytes (first :: rest)).length first rest] := rfl
  have offset := next.offset
  constructor
  · rw [frames, summaries, List.length_append, List.length_append, labelled.length]
    rfl
  · intro index frame summary here there small
    rw [frames] at here
    rw [summaries] at there
    by_cases old : index < store.frames.length
    · rw [List.getElem?_append_left old] at here
      rw [List.getElem?_append_left (labelled.length ▸ old)] at there
      exact labelled.each index frame summary here there small
    · have place : index = store.frames.length := by
        have inside := (List.getElem?_eq_some_iff.mp here).1
        rw [List.length_append, List.length_singleton] at inside
        omega
      subst place
      rw [List.getElem?_append_right (Nat.le_refl _), Nat.sub_self] at here
      rw [List.getElem?_append_right labelled.length.le, labelled.length, Nat.sub_self] at there
      rw [← Option.some.inj here, ← Option.some.inj there]
      exact frameSummary_describes next.accepted.numbered next.bound next.fits.countWord (by omega)
        next.fits.lengthWord small

/-- The retirement takes no frame out of the log file, or all of them. -/
def AllOrNothing (world : World) : Command → Prop
  | .retire holds => world.store.retirable world.disk.manifest holds = [] ∨
      world.store.retirable world.disk.manifest holds = world.store.frames
  | _ => True

variable {world : World}

theorem Reached.labelled (reached : Reached AllOrNothing world) : Labelled world.store := by
  suffices both : Labelled world.store ∧ world.store.nextSequence < 2 ^ 64 from both.1
  refine reached.keeps ?_ ?_ ?_ ?_
  · exact fun _ _ _ => ⟨rfl, fun _ _ _ absent => absurd absent nofun⟩
  · exact fun store fresh labelled next => labelled.pushBatch next
  · exact fun store labelled => ⟨labelled.length, labelled.each⟩
  · intro world holds length permitted labelled some'
    rcases permitted with none' | all
    · rw [none'] at some'
      exact absurd some' (Nat.lt_irrefl 0)
    · rw [all]
      have frames : (world.store.compacted world.store.frames.length length).frames = [] := by
        change Store.relocate walHeaderLen (world.store.frames.drop world.store.frames.length) = []
        rw [List.drop_length]
        rfl
      have summaries : (world.store.compacted world.store.frames.length length).summaries = [] := by
        change world.store.summaries.drop world.store.frames.length = []
        rw [← labelled.length, List.drop_length]
      refine ⟨by rw [frames, summaries]; rfl, fun index frame _ here => ?_⟩
      rw [frames] at here
      exact absurd here nofun

/-- The summaries describe the frames of every handle that is reached by retirements of all frames or none, as long as
the indexes of the frames fit their field. -/
theorem summaries_describe_frames (reached : Reached AllOrNothing world) (few : world.store.frames.length ≤ 2 ^ 32) :
    Described world.store := reached.labelled.described few

end Handle

section Renumbered

variable [Crc32fast]

/-- A handle whose two frames hold one sequence each. -/
structure Paired (store : Store) (before after : FrameLocation) (earlier later : BlockSummary) : Prop where
  frames : store.frames = [before, after]
  summaries : store.summaries = [earlier, later]
  before : before.first = 0 ∧ before.count = 1
  after : after.first = 1 ∧ after.count = 1
  index : later.batchIndex = 1

/-- Two bare events can each be in a sealed frame of its own. -/
theorem sealed_pair : ∃ header log store system, Settled header Limits.default log store system ∧
    Reached (fun _ _ => True) (system.world store) ∧
      (∃ before after earlier later, Paired store before after earlier later) ∧
      ∀ frame ∈ store.frames, RegistersFrame system.disk.manifest frame := by
  let record := recordOf ⟨sampleDatabase, 1, 1⟩ 0 (bareInput 1 5)
  let other := recordOf ⟨sampleDatabase, 1, 1⟩ 1 (bareInput 1 5)
  let store := ((startStore ⟨sampleDatabase, 1, 1⟩ Limits.default 0).pushBatch [record]).pushBatch [other]
  let system := (System.fresh sampleDatabase 1 1 Limits.default).run
    [.append [bareInput 1 5], .append [bareInput 1 5], .sealFrames]
  have created : System.create sampleDatabase 1 1 Limits.default =
      .ok (System.fresh sampleDatabase 1 1 Limits.default) := System.create_ok.mpr ⟨rfl, rfl⟩
  have start := System.create_settled created
  have first : NextBatch (startStore ⟨sampleDatabase, 1, 1⟩ Limits.default 0) [bareInput 1 5] [record] :=
    NextBatch.bare rfl (fun last absent => nomatch absent) (by decide) (by decide)
  have offset : ((startStore ⟨sampleDatabase, 1, 1⟩ Limits.default 0).pushBatch [record]).endOffset =
      walHeaderLen + 92 := congrArg (walHeaderLen + ·) (batchBytes_bare_length _ _ _ _)
  have second : NextBatch ((startStore ⟨sampleDatabase, 1, 1⟩ Limits.default 0).pushBatch [record]) [bareInput 1 5]
      [other] := by
    refine NextBatch.bare rfl ?_ (show 0 + 1 + 1 < 2 ^ 64 by decide) (by rw [offset]; decide)
    intro last known
    rw [← Option.some.inj known]
    exact ⟨rfl, UInt64.le_refl _⟩
  have both := (start.append_next first).append_next second
  have fits : ∀ batch ∈ [[record], [other]], SegmentFits ⟨sampleDatabase, 1, 1⟩ Limits.default batch := by
    intro batch member
    rcases List.mem_pair.mp member with rfl | rfl <;> exact bare_fits _ _ _ _
  obtain ⟨settled, retirable⟩ := both.seal_retirable fits
  refine ⟨_, _, store, system, settled, ?_, ⟨_, _, _, _, rfl, rfl, ⟨rfl, rfl⟩, ⟨rfl, rfl⟩, rfl⟩, ?_⟩
  · have begun : Reached (fun _ _ => True) ((System.fresh sampleDatabase 1 1 Limits.default).world
        (startStore ⟨sampleDatabase, 1, 1⟩ Limits.default 0)) := .created (create_ok.mpr ⟨rfl, rfl, rfl⟩)
    have under : ∀ command ∈ [Command.append [bareInput 1 5], .append [bareInput 1 5], .sealFrames],
        command.Under Limits.default := by
      intro command member
      simp only [List.mem_cons, List.not_mem_nil, or_false] at member
      rcases member with rfl | rfl | rfl <;> trivial
    obtain ⟨later, after, again, reached⟩ := start.run_reached begun under
    have same : system.handle = some store := settled.present
    obtain rfl : store = after := Option.some.inj (same.symm.trans again.present)
    exact reached
  · obtain ⟨_, _, released, _⟩ := settled.consistent.inv.retirable_front []
    rw [retirable] at released
    exact fun frame member => (released frame member).1

end Renumbered

/-- A retirement that keeps the second of two frames leaves the summary of the second frame as it was. -/
theorem retirement_keeps_old_index :
    letI := Crc32fast.ieee
    ¬∀ world, Reached (fun _ _ => True) world → world.store.frames.length ≤ 2 ^ 32 → Described world.store := by
  generalize Crc32fast.ieee = inst
  intro claim
  obtain ⟨header, log, store, system, settled, reached, ⟨before, behind, earlier, later, paired⟩, registers⟩ := sealed_pair
  obtain ⟨report, after, gone, kept, done, releases⟩ := settled.releases [⟨{1}⟩]
  have there := @Reached.retired _ _ _ [⟨{1}⟩] reached trivial
  rw [done] at there
  have split := paired.frames.symm.trans releases.split
  rw [paired.frames] at registers
  cases gone with
  | nil =>
      rw [List.nil_append] at split
      refine releases.stops before (by rw [← split]; rfl) ⟨registers before List.mem_cons_self, ?_⟩
      intro hold member sequence contains
      rw [FrameLocation.Contains, paired.before.1, paired.before.2] at contains
      obtain rfl : sequence = 0 := by omega
      rw [List.mem_singleton.mp member, Finset.mem_singleton]
      decide
  | cons head gone =>
      obtain ⟨_, rest⟩ := List.cons.inj split
      cases gone with
      | nil =>
          have frames := releases.frames
          have summaries := releases.summaries.trans (congrArg (List.drop 1) paired.summaries)
          rw [← show [behind] = kept from rest] at frames
          have few : after.store.frames.length ≤ 2 ^ 32 := by
            rw [frames]
            exact show 1 ≤ 2 ^ 32 by decide
          have described := (claim after there few).2 0 { behind with offset := walHeaderLen } later
            (by rw [frames]; rfl) (by rw [summaries]; rfl)
          have index := described.batchIndex
          rw [paired.index] at index
          exact absurd index (by decide)
      | cons other gone =>
          obtain ⟨same, _⟩ := List.cons.inj rest
          have released := (releases.released other (List.mem_cons_of_mem _ List.mem_cons_self)).2
          rw [← same] at released
          refine released _ List.mem_cons_self 1 ?_ (Finset.mem_singleton.mpr rfl)
          rw [FrameLocation.Contains, paired.after.1, paired.after.2]
          decide

theorem summaries_describe_frames_sample :
    letI := Crc32fast.ieee
    let start : World := ⟨⟨encodeWalHeader ⟨sampleDatabase, 1, 1⟩, [], none, []⟩,
      startStore ⟨sampleDatabase, 1, 1⟩ Limits.default 0, [], none⟩
    Described (Store.append [bareInput 1 5] start).2.store := by
  generalize Crc32fast.ieee = inst
  intro start
  have created : create sampleDatabase 1 1 Limits.default = .ok (start.disk, start.store) :=
    create_ok.mpr ⟨rfl, rfl, rfl⟩
  have aligned : start.disk.wal.length = start.store.endOffset := encodeWalHeader_length _
  have next : NextBatch start.store [bareInput 1 5] [recordOf start.store.header 0 (bareInput 1 5)] :=
    NextBatch.bare rfl (fun _ absent => nomatch absent) (show 0 + 1 < 2 ^ 64 by decide)
      (show walHeaderLen + 92 < 2 ^ 64 by decide)
  have done := append_eq_ok.mpr ⟨_, ⟨rfl, next, aligned, fun _ _ => rfl⟩, rfl, rfl⟩
  refine summaries_describe_frames (.appended (.created created) trivial) ?_
  rw [done]
  exact show 1 ≤ 2 ^ 32 by decide

end Temnion.Storage
