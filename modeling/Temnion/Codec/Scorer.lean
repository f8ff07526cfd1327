import Temnion.Codec.Packing
import Temnion.Codec.Robust

/-
This file scores the codecs on an input and selects one that beats the raw bytes.
-/

namespace Temnion.Codec

open Format

variable {S : Type}

/-- The score stands for the size and the times of one run. None is not a number. -/
structure CodecEvaluation (S : Type) where
  codec : CodecId
  originalBytes : Nat
  compressedBytes : Nat
  score : Option S
  verifiedLossless : Bool
  deriving DecidableEq

/-- The selection ends early where a codec does or where two scores do not compare. -/
inductive ScoringHalt where
  | codec (halt : Halt)
  | unordered
  deriving DecidableEq, Repr

def partialCmp [LinearOrder S] : Option S → Option S → Option Ordering
  | some first, some second => some (compare first second)
  | _, _ => none

/-- The later one of two evaluations is taken only for a lower score. -/
def better [LinearOrder S] (least next : CodecEvaluation S) : Except ScoringHalt (CodecEvaluation S) :=
  match partialCmp least.score next.score with
  | none => .error .unordered
  | some .gt => .ok next
  | some _ => .ok least

def minBy [LinearOrder S] : List (CodecEvaluation S) → Except ScoringHalt (Option (CodecEvaluation S))
  | [] => .ok none
  | first :: rest => do
      let least ← rest.foldlM better first
      return some least

section Scorer

variable [Crc32fast]

def encode : CodecId → List UInt8 → Except Halt (List UInt8)
  | .raw => RawCodec.encode
  | .rle => RleCodec.encode
  | .bitPack => BitPackCodec.encode
  | .deltaFor => DeltaForCodec.encode
  | .xor => XorCodec.encode

def evaluateCandidate (score : CodecId → Nat → Option S) (data : List UInt8) (codec : CodecId) :
    Except Halt (CodecEvaluation S) := do
  let compressed ← encode codec data
  let decoded ← decode codec compressed data.length
  refuseIf (decoded ≠ data) (Halt.error (.invalidData "roundtrip data corruption detected"))
  return ⟨codec, data.length, compressed.length, score codec compressed.length, true⟩

/-- A codec that reports an error is passed over. -/
def evaluations (score : CodecId → Nat → Option S) (data : List UInt8) :
    List CodecId → Except ScoringHalt (List (CodecEvaluation S))
  | [] => .ok []
  | codec :: codecs =>
      match evaluateCandidate score data codec with
      | .ok evaluation => do
          let others ← evaluations score data codecs
          return evaluation :: others
      | .error (.error _) => evaluations score data codecs
      | .error halt => .error (.codec halt)

def codecs : List CodecId := [.raw, .rle, .bitPack, .deltaFor, .xor]

def selectBest [LinearOrder S] (score : CodecId → Nat → Option S) (data : List UInt8) :
    Except ScoringHalt (CodecEvaluation S) := do
  let evaluations ← evaluations score data codecs
  match evaluations.find? (·.codec = .raw) with
  | none => throw (.codec (.error (.invalidData "raw codec evaluation missing")))
  | some raw =>
      let winner ← minBy (evaluations.filter (·.compressedBytes < raw.compressedBytes))
      return winner.getD raw

end Scorer

theorem mem_codecs (codec : CodecId) : codec ∈ codecs := by cases codec <;> decide

section MinBy

variable [LinearOrder S] {list rest : List (CodecEvaluation S)} {least first next : CodecEvaluation S}

/-- The score is no greater than any score of the list. -/
def Least (list : List (CodecEvaluation S)) (least : CodecEvaluation S) : Prop :=
  least ∈ list ∧ ∀ evaluation ∈ list, ∀ low high, least.score = some low → evaluation.score = some high → low ≤ high

theorem better_cases {low high : S} (one : least.score = some low) (two : next.score = some high) :
    better least next = .ok least ∧ low ≤ high ∨ better least next = .ok next ∧ high ≤ low := by
  have compared : partialCmp least.score next.score = some (compare low high) := by rw [one, two, partialCmp]
  rw [better, compared]
  rcases lt_trichotomy low high with less | rfl | greater
  · rw [compare_lt_iff_lt.mpr less]
    exact Or.inl ⟨rfl, less.le⟩
  · rw [compare_eq_iff_eq.mpr rfl]
    exact Or.inl ⟨rfl, le_refl _⟩
  · rw [compare_gt_iff_gt.mpr greater]
    exact Or.inr ⟨rfl, greater.le⟩

/-- Comparing scores that are numbers keeps the lowest one. -/
theorem foldlM_better (scored : ∀ evaluation ∈ first :: rest, evaluation.score ≠ none) :
    ∃ least, rest.foldlM better first = .ok least ∧ Least (first :: rest) least := by
  induction rest generalizing first with
  | nil =>
      refine ⟨first, rfl, List.mem_singleton_self _, ?_⟩
      intro evaluation member low high one two
      rw [List.mem_singleton.mp member, one] at two
      exact (Option.some.inj two).le
  | cons next rest hypothesis =>
      obtain ⟨low, one⟩ := Option.ne_none_iff_exists'.mp (scored first List.mem_cons_self)
      obtain ⟨high, two⟩ := Option.ne_none_iff_exists'.mp (scored next (List.mem_cons_of_mem _ List.mem_cons_self))
      have others : ∀ evaluation ∈ rest, evaluation.score ≠ none := fun evaluation member =>
        scored evaluation (List.mem_cons_of_mem _ (List.mem_cons_of_mem _ member))
      -- The one that was kept bounds the one that was dropped.
      rw [List.foldlM_cons]
      rcases better_cases one two with ⟨kept, below⟩ | ⟨kept, below⟩
      · rw [kept, Except.ok_bind]
        obtain ⟨least, folds, member, bound⟩ := @hypothesis first (List.forall_mem_cons.mpr
          ⟨scored first List.mem_cons_self, others⟩)
        refine ⟨least, folds, ?_, ?_⟩
        · rcases List.mem_cons.mp member with rfl | behind
          · exact List.mem_cons_self
          · exact List.mem_cons_of_mem _ (List.mem_cons_of_mem _ behind)
        · rintro evaluation inside value other mine theirs
          rcases List.mem_cons.mp inside with rfl | inside
          · exact bound evaluation List.mem_cons_self value other mine theirs
          · rcases List.mem_cons.mp inside with rfl | inside
            · have least' := bound first List.mem_cons_self value low mine one
              rw [two] at theirs
              exact least'.trans (below.trans (Option.some.inj theirs).le)
            · exact bound evaluation (List.mem_cons_of_mem _ inside) value other mine theirs
      · rw [kept, Except.ok_bind]
        obtain ⟨least, folds, member, bound⟩ := @hypothesis next (List.forall_mem_cons.mpr
          ⟨scored next (List.mem_cons_of_mem _ List.mem_cons_self), others⟩)
        refine ⟨least, folds, List.mem_cons_of_mem _ member, ?_⟩
        rintro evaluation inside value other mine theirs
        rcases List.mem_cons.mp inside with rfl | inside
        · have least' := bound next List.mem_cons_self value high mine two
          rw [one] at theirs
          exact least'.trans (below.trans (Option.some.inj theirs).le)
        · exact bound evaluation inside value other mine theirs

end MinBy

section Candidates

variable [Crc32fast] {score : CodecId → Nat → Option S} {data : List UInt8} {codec : CodecId} {list : List CodecId}

/-- The codec gives the input back. -/
def Lossless (data : List UInt8) (codec : CodecId) : Prop :=
  ∃ compressed, encode codec data = .ok compressed ∧ decode codec compressed data.length = .ok data

/-- The length of what the codec makes of the input. -/
def compressedLength (data : List UInt8) (codec : CodecId) : Nat :=
  match encode codec data with
  | .ok compressed => compressed.length
  | .error _ => 0

/-- The evaluation of a codec that gives the input back. -/
def evaluation (score : CodecId → Nat → Option S) (data : List UInt8) (codec : CodecId) : CodecEvaluation S :=
  ⟨codec, data.length, compressedLength data codec, score codec (compressedLength data codec), true⟩

theorem Lossless.evaluateCandidate (lossless : Lossless data codec) :
    evaluateCandidate score data codec = .ok (evaluation score data codec) := by
  obtain ⟨compressed, encoded, decoded⟩ := lossless
  have length : compressedLength data codec = compressed.length := by rw [compressedLength, encoded]
  rw [Codec.evaluateCandidate, encoded, Except.ok_bind, decoded, Except.ok_bind,
    Except.refuseIf_bind (not_not.mpr rfl), evaluation, length]
  rfl

theorem evaluations_lossless (each : ∀ codec ∈ list, Lossless data codec) :
    evaluations score data list = .ok (list.map (evaluation score data)) := by
  induction list with
  | nil => rfl
  | cons codec list hypothesis =>
      obtain ⟨first, others⟩ := List.forall_mem_cons.mp each
      rw [evaluations, first.evaluateCandidate]
      dsimp only
      rw [hypothesis others]
      rfl

theorem lossless_of_ne_xor (short : data.length < 2 ^ 32) (other : codec ≠ .xor) : Lossless data codec := by
  cases codec with
  | raw => exact RawCodec.lossless short
  | rle => exact (RleCodec.rle_lossless short).2
  | bitPack => exact BitPackCodec.lossless short
  | deltaFor => exact DeltaForCodec.lossless short
  | xor => exact absurd rfl other

theorem lossless_xor (short : data.length < 2 ^ 32) (narrow : XorCodec.Narrow (XorCodec.wordsOf data)) :
    Lossless data .xor := by
  have whole := (XorCodec.roundTrip_cases short).1 narrow
  obtain ⟨compressed, encoded, decoded⟩ := Except.bind_eq_ok.mp whole
  refine ⟨compressed, encoded, ?_⟩
  rw [decode, XorCodec.decodeAt_eq, decoded]

theorem evaluateCandidate_xor (short : data.length < 2 ^ 32) (wide : ¬XorCodec.Narrow (XorCodec.wordsOf data)) :
    evaluateCandidate score data .xor = .error .overflow := by
  obtain ⟨body, encoded, -, outcome⟩ := XorCodec.decodeBody_encodeBody short
  rw [evaluateCandidate, encode, XorCodec.encode, encoded, Except.ok_bind, frameCompressed_ok short, Except.ok_bind,
    decode, XorCodec.decodeAt_eq, XorCodec.decode, verifyFrame_frameCompressed short, Except.ok_bind, outcome wide]
  rfl

/-- The raw codec stores the input behind the header. -/
theorem compressedLength_raw (short : data.length < 2 ^ 32) :
    compressedLength data .raw = codecHeaderLen + data.length := by
  rw [compressedLength, encode, RawCodec.encode, frameCompressed_ok short]
  dsimp only
  rw [List.length_append, List.length_append, headerFields_length, LittleEndian.le32_length]
  rfl

end Candidates

section Selection

variable [Crc32fast] [LinearOrder S] {score : CodecId → Nat → Option S} {data : List UInt8}

/-- The winner gives the input back. It stores the input behind the header when no codec does better, and otherwise it
has the lowest score of the codecs that do. -/
structure Wins (score : CodecId → Nat → Option S) (data : List UInt8) (winner : CodecEvaluation S) : Prop where
  lossless : Lossless data winner.codec
  measured : winner = evaluation score data winner.codec
  best : (winner.codec = .raw ∧ ∀ codec, codecHeaderLen + data.length ≤ compressedLength data codec) ∨
    compressedLength data winner.codec < codecHeaderLen + data.length ∧
      ∀ codec, compressedLength data codec < codecHeaderLen + data.length → ∀ low high,
        score winner.codec (compressedLength data winner.codec) = some low →
          score codec (compressedLength data codec) = some high → low ≤ high

/-- Where the differences of neighbouring words fit their field the selection ends with a winner. Otherwise the check of
the last codec ends it. -/
theorem selectBest_exact (short : data.length < 2 ^ 32) (scored : ∀ codec length, score codec length ≠ none) :
    (XorCodec.Narrow (XorCodec.wordsOf data) → ∃ winner, selectBest score data = .ok winner ∧ Wins score data winner) ∧
      (¬XorCodec.Narrow (XorCodec.wordsOf data) → selectBest score data = .error (.codec .overflow)) := by
  constructor
  · intro narrow
    have each : ∀ codec, Lossless data codec := by
      intro codec
      by_cases last : codec = .xor
      · exact last ▸ lossless_xor short narrow
      · exact lossless_of_ne_xor short last
    have raw : (codecs.map (evaluation score data)).find? (·.codec = .raw) = some (evaluation score data .raw) := rfl
    have smaller : ∀ found, found ∈ (codecs.map (evaluation score data)).filter
        (·.compressedBytes < (evaluation score data .raw).compressedBytes) ↔
          ∃ codec, found = evaluation score data codec ∧ compressedLength data codec < codecHeaderLen + data.length := by
      intro found
      rw [List.mem_filter, List.mem_map, decide_eq_true_eq]
      change _ ∧ found.compressedBytes < compressedLength data .raw ↔ _
      rw [compressedLength_raw short]
      constructor
      · rintro ⟨⟨codec, -, rfl⟩, less⟩
        exact ⟨codec, rfl, less⟩
      · rintro ⟨codec, rfl, less⟩
        exact ⟨⟨codec, mem_codecs codec, rfl⟩, less⟩
    rw [selectBest, evaluations_lossless fun codec _ => each codec, Except.ok_bind, raw]
    dsimp only
    cases candidates : (codecs.map (evaluation score data)).filter
        (·.compressedBytes < (evaluation score data .raw).compressedBytes) with
    | nil =>
        refine ⟨evaluation score data .raw, rfl, each .raw, rfl, Or.inl ⟨rfl, fun codec => ?_⟩⟩
        by_contra less
        have member := (smaller _).mpr ⟨codec, rfl, Nat.not_le.mp less⟩
        rw [candidates] at member
        exact absurd member List.not_mem_nil
    | cons first rest =>
        rw [candidates] at smaller
        obtain ⟨winner, folds, member, bound⟩ := @foldlM_better S _ rest first (by
          intro found inside
          obtain ⟨codec, rfl, -⟩ := (smaller found).mp inside
          exact scored _ _)
        obtain ⟨codec, rfl, less⟩ := (smaller winner).mp member
        refine ⟨evaluation score data codec, ?_, each codec, rfl, Or.inr ⟨less, fun other below low high mine theirs => ?_⟩⟩
        · rw [minBy, folds]
          rfl
        · exact bound _ ((smaller _).mpr ⟨other, rfl, below⟩) low high mine theirs
  · intro wide
    have others : ∀ codec, codec ≠ .xor → evaluateCandidate score data codec = .ok (evaluation score data codec) :=
      fun codec other => (lossless_of_ne_xor short other).evaluateCandidate
    have stops : evaluations score data codecs = .error (.codec .overflow) := by
      rw [codecs, evaluations, others .raw nofun, evaluations, others .rle nofun, evaluations, others .bitPack nofun,
        evaluations, others .deltaFor nofun, evaluations, evaluateCandidate_xor short wide]
      rfl
    rw [selectBest, stops, Except.error_bind]

end Selection

/-- Six equal bytes are shorter as a run than as they stand. -/
theorem selectBest_exact_sample : letI := Crc32fast.ieee
    ([7, 7, 7, 7, 7, 7] : List UInt8).length < 2 ^ 32 ∧ (∀ (_ : CodecId) (length : Nat), some length ≠ none) ∧
      ∃ winner, selectBest (fun _ length => some length) [7, 7, 7, 7, 7, 7] = .ok winner ∧
        Wins (fun _ length => some length) [7, 7, 7, 7, 7, 7] winner := by
  generalize Crc32fast.ieee = checksum
  have narrow : XorCodec.Narrow (XorCodec.wordsOf [7, 7, 7, 7, 7, 7]) := List.isChain_nil
  exact ⟨by decide, fun _ _ => Option.some_ne_none _,
    (@selectBest_exact Nat _ _ (fun _ length => some length) _ (by decide) fun _ _ => Option.some_ne_none _).1 narrow⟩

end Temnion.Codec
