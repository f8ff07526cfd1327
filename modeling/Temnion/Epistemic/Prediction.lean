import Temnion.Epistemic.TruthMaintenance

/-
This file models the ledger of predictions and says when later outcomes change what an earlier cutoff counts.
-/

namespace Temnion.Epistemic

open Query OrderedMap

/-- The source counts in sixty-four bits. Exhausting them is left out. -/
abbrev PredictionId := Nat

/-- What the calibration score computes with. -/
class Binary64.Arithmetic [Binary64] where
  zero : Binary64.Carrier
  one : Binary64.Carrier
  add : Binary64.Carrier → Binary64.Carrier → Binary64.Carrier
  sub : Binary64.Carrier → Binary64.Carrier → Binary64.Carrier
  square : Binary64.Carrier → Binary64.Carrier
  divideBy : Binary64.Carrier → Nat → Binary64.Carrier

inductive PredictionOutcome where
  | pending
  | matched (observedAt : Timestamp)
  | refuted (observedAt : Timestamp) (actualValue : Text)
  | inconclusive
  deriving DecidableEq

section Ledger

variable [Binary64]

structure Prediction where
  id : PredictionId
  modelRef : KnowledgeId
  targetEntityShard : UInt32
  targetEntitySlot : UInt32
  targetValidTime : Timestamp
  predictedValue : Text
  confidence : Confidence
  emittedAtKnownTime : Timestamp
  outcome : PredictionOutcome

/-- Every prediction stands under its own id, which was allocated before. -/
structure PredictionLedger where
  nextId : PredictionId
  predictions : OrderedMap PredictionId Prediction
  recorded : ∀ (id : PredictionId) (prediction : Prediction), predictions[id]? = some prediction →
    prediction.id = id ∧ id < nextId

def eqIgnoreAsciiCase (first second : Text) : Bool := first.map Char.toLower == second.map Char.toLower

/-- The prediction with the outcome of an observation. An earlier outcome is replaced. -/
def Prediction.resolved (prediction : Prediction) (observedValue : Text) (observedAt : Timestamp) : Prediction :=
  { prediction with
    outcome :=
      if eqIgnoreAsciiCase prediction.predictedValue observedValue.trim then .matched observedAt
      else .refuted observedAt observedValue }

/-- Whether the prediction matched its outcome, when it was emitted and observed by the cutoff. The clocks are not
compared. -/
def Prediction.verdictAt (prediction : Prediction) (cutoff : Timestamp) : Option Bool :=
  if cutoff.ticks < prediction.emittedAtKnownTime.ticks then none
  else
    match prediction.outcome with
    | .matched observedAt => if observedAt.ticks ≤ cutoff.ticks then some true else none
    | .refuted observedAt _ => if observedAt.ticks ≤ cutoff.ticks then some false else none
    | .pending => none
    | .inconclusive => none

namespace PredictionLedger

def new : PredictionLedger := ⟨1, ∅, by simp⟩

/-- The derived default does not start at one. -/
def default : PredictionLedger := ⟨0, ∅, by simp⟩

def recordPrediction (ledger : PredictionLedger) (modelRef : KnowledgeId) (shard slot : UInt32)
    (targetValidTime : Timestamp) (predictedValue : Text) (confidence : Confidence) (emittedAt : Timestamp) :
    PredictionId × PredictionLedger :=
  let id := ledger.nextId
  let prediction := ⟨id, modelRef, shard, slot, targetValidTime, predictedValue, confidence, emittedAt, .pending⟩
  (id, {
    nextId := ledger.nextId + 1
    predictions := ledger.predictions.insert id prediction
    recorded := by
      intro other present found
      rw [insert_getElem?] at found
      split at found
      · next here =>
          rw [← Option.some.inj found]
          exact ⟨here, here ▸ Nat.lt_succ_self _⟩
      · exact ⟨(ledger.recorded other present found).1, Nat.lt_succ_of_lt (ledger.recorded other present found).2⟩ })

def resolveOutcome (ledger : PredictionLedger) (predictionId : PredictionId) (observedValue : Text)
    (observedAt : Timestamp) : Except Text Unit × PredictionLedger :=
  if predictionId ∈ ledger.predictions then
    (.ok (), { ledger with
      predictions := ledger.predictions.modify predictionId (·.resolved observedValue observedAt)
      recorded := by
        intro other present found
        rw [modify_getElem?] at found
        split at found
        · next here =>
            obtain ⟨before, earlier, rfl⟩ := Option.map_eq_some_iff.mp found
            obtain rfl := here
            exact ledger.recorded _ before earlier
        · exact ledger.recorded other present found })
  else (.error ("Prediction ".toList ++ Text.decimal predictionId ++ " not found".toList), ledger)

/-- The predictions that a cutoff counts, each with whether it matched. -/
def counted (ledger : PredictionLedger) (cutoff : Timestamp) : List (Prediction × Bool) :=
  (ledger.predictions.toList.map Prod.snd).filterMap fun prediction =>
    (prediction.verdictAt cutoff).map fun matched => (prediction, matched)

section Score

variable [Binary64.Arithmetic]

def squaredError (prediction : Prediction) (matched : Bool) : Binary64.Carrier :=
  Binary64.Arithmetic.square (Binary64.Arithmetic.sub prediction.confidence.value
    (if matched then Binary64.Arithmetic.one else Binary64.Arithmetic.zero))

def computeBrierScore (ledger : PredictionLedger) (cutoff : Timestamp) : Except Text Binary64.Carrier :=
  let (count, sumSquaredError) := (ledger.predictions.toList.map Prod.snd).foldl (fun (count, sum) prediction =>
    match prediction.verdictAt cutoff with
    | some matched => (count + 1, Binary64.Arithmetic.add sum (squaredError prediction matched))
    | none => (count, sum)) (0, Binary64.Arithmetic.zero)
  if count = 0 then .error "No resolved predictions available at the requested cutoff time".toList
  else .ok (Binary64.Arithmetic.divideBy sumSquaredError count)

/-- The score depends on nothing but what the cutoff counts. -/
theorem computeBrierScore_congr {first second : PredictionLedger} {cutoff : Timestamp}
    (same : first.counted cutoff = second.counted cutoff) :
    first.computeBrierScore cutoff = second.computeBrierScore cutoff := by
  have folds : ∀ (predictions : List Prediction) (start : Nat × Binary64.Carrier),
      predictions.foldl (fun (count, sum) prediction =>
          match prediction.verdictAt cutoff with
          | some matched => (count + 1, Binary64.Arithmetic.add sum (squaredError prediction matched))
          | none => (count, sum)) start =
        (predictions.filterMap fun prediction => (prediction.verdictAt cutoff).map fun matched => (prediction, matched)).foldl
          (fun (count, sum) entry => (count + 1, Binary64.Arithmetic.add sum (squaredError entry.1 entry.2))) start := by
    intro predictions
    induction predictions with
    | nil => exact fun _ => rfl
    | cons prediction predictions hypothesis =>
        intro start
        rw [List.foldl_cons, List.filterMap_cons]
        cases prediction.verdictAt cutoff with
        | none => exact hypothesis _
        | some matched => exact hypothesis _
  unfold counted at same
  unfold computeBrierScore
  rw [folds, folds, same]

end Score

end PredictionLedger

end Ledger

section Leakage

variable [Binary64]

inductive LedgerCall where
  | recordPrediction (modelRef : KnowledgeId) (shard slot : UInt32) (targetValidTime : Timestamp) (predictedValue : Text)
      (confidence : Confidence) (emittedAt : Timestamp)
  | resolveOutcome (predictionId : PredictionId) (observedValue : Text) (observedAt : Timestamp)

/-- The call is about something that was emitted or observed after the cutoff. -/
def LedgerCall.After (cutoff : Timestamp) : LedgerCall → Prop
  | recordPrediction _ _ _ _ _ _ emittedAt => cutoff.ticks < emittedAt.ticks
  | resolveOutcome _ _ observedAt => cutoff.ticks < observedAt.ticks

/-- The prediction whose outcome the call is about. -/
def LedgerCall.resolvedId : LedgerCall → Option PredictionId
  | recordPrediction _ _ _ _ _ _ _ => none
  | resolveOutcome predictionId _ _ => some predictionId

/-- The prediction was emitted and its outcome observed by the cutoff. -/
def Prediction.SettledBy (prediction : Prediction) (cutoff : Timestamp) : Prop :=
  prediction.emittedAtKnownTime.ticks ≤ cutoff.ticks ∧
    ((∃ observedAt, prediction.outcome = .matched observedAt ∧ observedAt.ticks ≤ cutoff.ticks) ∨
      ∃ observedAt actualValue, prediction.outcome = .refuted observedAt actualValue ∧ observedAt.ticks ≤ cutoff.ticks)

namespace PredictionLedger

def step (ledger : PredictionLedger) : LedgerCall → PredictionLedger
  | .recordPrediction modelRef shard slot targetValidTime predictedValue confidence emittedAt =>
      (ledger.recordPrediction modelRef shard slot targetValidTime predictedValue confidence emittedAt).2
  | .resolveOutcome predictionId observedValue observedAt =>
      (ledger.resolveOutcome predictionId observedValue observedAt).2

def run (ledger : PredictionLedger) (calls : List LedgerCall) : PredictionLedger := calls.foldl step ledger

variable {ledger : PredictionLedger} {cutoff : Timestamp} {prediction : Prediction} {id : PredictionId} {call : LedgerCall}
variable {calls : List LedgerCall} {matched : Bool}

/-- A prediction has a verdict exactly when it was settled by the cutoff. -/
theorem verdictAt_isSome_iff : (prediction.verdictAt cutoff).isSome ↔ prediction.SettledBy cutoff := by
  unfold Prediction.verdictAt Prediction.SettledBy
  rw [← @UInt64.not_lt cutoff.ticks]
  by_cases late : cutoff.ticks < prediction.emittedAtKnownTime.ticks
  · simp [late]
  · cases prediction.outcome <;> simp [late]

theorem mem_counted : (prediction, matched) ∈ ledger.counted cutoff ↔
    ∃ id : PredictionId, ledger.predictions[id]? = some prediction ∧ prediction.verdictAt cutoff = some matched := by
  unfold counted
  simp only [List.mem_filterMap, List.mem_map, Prod.exists, mem_toList, Option.map_eq_some_iff, Prod.mk.injEq,
    exists_eq_right]
  constructor
  · intro listed
    obtain ⟨_, ⟨id, present⟩, verdict, decided, rfl, rfl⟩ := listed
    exact ⟨id, present, decided⟩
  · intro listed
    obtain ⟨id, present, decided⟩ := listed
    exact ⟨prediction, ⟨id, present⟩, matched, decided, rfl, rfl⟩

/-- An outcome after the cutoff leaves the prediction without a verdict. -/
theorem verdictAt_resolved {observedValue : Text} {observedAt : Timestamp} (late : cutoff.ticks < observedAt.ticks) :
    (prediction.resolved observedValue observedAt).verdictAt cutoff = none := by
  have after : ¬observedAt.ticks ≤ cutoff.ticks := UInt64.not_le.mpr late
  unfold Prediction.verdictAt Prediction.resolved
  dsimp only
  split
  · rfl
  · by_cases same : eqIgnoreAsciiCase prediction.predictedValue observedValue.trim
    · rw [if_pos same]
      exact if_neg after
    · rw [if_neg same]
      exact if_neg after

/-- What the cutoff counts under an id. -/
def countedAt (ledger : PredictionLedger) (cutoff : Timestamp) (id : PredictionId) : Option (Prediction × Bool) :=
  (ledger.predictions[id]?).bind fun prediction =>
    (prediction.verdictAt cutoff).map fun matched => (prediction, matched)

theorem mem_counted_iff : (prediction, matched) ∈ ledger.counted cutoff ↔
    ledger.countedAt cutoff prediction.id = some (prediction, matched) := by
  rw [mem_counted, countedAt]
  constructor
  · intro listed
    obtain ⟨id, present, decided⟩ := listed
    rw [(ledger.recorded id prediction present).1, present, Option.bind_some, decided]
    rfl
  · intro listed
    obtain ⟨found, present, listed⟩ := Option.bind_eq_some_iff.mp listed
    obtain ⟨verdict, decided, same⟩ := Option.map_eq_some_iff.mp listed
    obtain ⟨rfl, rfl⟩ := Prod.mk.inj same
    exact ⟨_, present, decided⟩

theorem countedAt_isSome_iff : (ledger.countedAt cutoff id).isSome ↔
    ∃ prediction, ledger.predictions[id]? = some prediction ∧ prediction.SettledBy cutoff := by
  unfold countedAt
  cases present : ledger.predictions[id]? with
  | none => simp
  | some prediction => simp [← verdictAt_isSome_iff]

theorem recordPrediction_getElem? (modelRef : KnowledgeId) (shard slot : UInt32) (targetValidTime : Timestamp)
    (predictedValue : Text) (confidence : Confidence) (emittedAt : Timestamp) (id : PredictionId) :
    (ledger.recordPrediction modelRef shard slot targetValidTime predictedValue confidence emittedAt).2.predictions[id]? =
      if ledger.nextId = id then
        some ⟨ledger.nextId, modelRef, shard, slot, targetValidTime, predictedValue, confidence, emittedAt, .pending⟩
      else ledger.predictions[id]? :=
  insert_getElem? _ _ _ _

theorem resolveOutcome_getElem? (other : PredictionId) (observedValue : Text) (observedAt : Timestamp) (id : PredictionId) :
    (ledger.resolveOutcome other observedValue observedAt).2.predictions[id]? =
      if other = id then (ledger.predictions[id]?).map (·.resolved observedValue observedAt)
      else ledger.predictions[id]? := by
  unfold resolveOutcome
  by_cases known : other ∈ ledger.predictions
  · rw [if_pos known]
    dsimp only
    rw [modify_getElem?]
    split
    · next here => rw [here]
    · rfl
  · rw [if_neg known]
    split
    · next here =>
        rw [← here, Std.ExtTreeMap.getElem?_eq_none known]
        rfl
    · rfl

/-- A call about a later time changes what is counted only under the id that it resolves, where nothing is counted
afterwards. -/
theorem countedAt_step (late : call.After cutoff) :
    (ledger.step call).countedAt cutoff id =
      if call.resolvedId = some id then none else ledger.countedAt cutoff id := by
  cases call with
  | recordPrediction modelRef shard slot targetValidTime predictedValue confidence emittedAt =>
      have hidden : cutoff.ticks < emittedAt.ticks := late
      rw [if_neg (by simp [LedgerCall.resolvedId]), countedAt, countedAt, step, recordPrediction_getElem?]
      split
      · next here =>
          have absent : ledger.predictions[id]? = none := by
            cases present : ledger.predictions[id]? with
            | none => rfl
            | some prediction => exact absurd (ledger.recorded id prediction present).2 (here ▸ Nat.lt_irrefl _)
          rw [absent, Option.bind_some, Prediction.verdictAt, if_pos hidden]
          rfl
      · rfl
  | resolveOutcome other observedValue observedAt =>
      rw [countedAt, step, resolveOutcome_getElem?, LedgerCall.resolvedId]
      by_cases here : other = id
      · rw [if_pos here, if_pos (congrArg some here)]
        cases ledger.predictions[id]? with
        | none => rfl
        | some prediction =>
            rw [Option.map_some, Option.bind_some, verdictAt_resolved late]
            rfl
      · rw [if_neg here, if_neg fun same => here (Option.some.inj same)]
        rfl

/-- Later calls change what is counted only under the ids that they resolve. -/
theorem countedAt_run (late : ∀ call ∈ calls, call.After cutoff) :
    (ledger.run calls).countedAt cutoff id =
      if id ∈ calls.filterMap LedgerCall.resolvedId then none else ledger.countedAt cutoff id := by
  induction calls generalizing ledger with
  | nil => rfl
  | cons call calls hypothesis =>
      rw [run, List.foldl_cons]
      refine (hypothesis fun other member => late other (List.mem_cons_of_mem _ member)).trans ?_
      rw [countedAt_step (late call List.mem_cons_self)]
      simp only [List.mem_filterMap, List.mem_cons, exists_eq_or_imp]
      by_cases first : call.resolvedId = some id <;> simp [first]

/-- Later calls leave what an earlier cutoff counts as it is if and only if none of them resolves a prediction that was
settled by the cutoff. -/
theorem counted_stable_iff (ledger : PredictionLedger) (cutoff : Timestamp) (calls : List LedgerCall)
    (late : ∀ call ∈ calls, call.After cutoff) :
    (∀ entry, entry ∈ (ledger.run calls).counted cutoff ↔ entry ∈ ledger.counted cutoff) ↔
      ∀ id ∈ calls.filterMap LedgerCall.resolvedId, ∀ prediction, ledger.predictions[id]? = some prediction →
        ¬prediction.SettledBy cutoff := by
  constructor
  · intro same id resolved prediction present settled
    obtain ⟨matched, decided⟩ := Option.isSome_iff_exists.mp (verdictAt_isSome_iff.mpr settled)
    have before : (prediction, matched) ∈ ledger.counted cutoff := mem_counted.mpr ⟨id, present, decided⟩
    have after := mem_counted_iff.mp ((same _).mpr before)
    rw [(ledger.recorded id prediction present).1, countedAt_run late, if_pos resolved] at after
    contradiction
  · intro unsettled entry
    obtain ⟨prediction, matched⟩ := entry
    rw [mem_counted_iff, mem_counted_iff, countedAt_run late]
    split
    · next resolved =>
        refine iff_of_false (by simp) fun counted => ?_
        obtain ⟨found, present, settled⟩ := countedAt_isSome_iff.mp (Option.isSome_of_eq_some counted)
        exact unsettled _ resolved found present settled
    · exact Iff.rfl

end PredictionLedger

end Leakage

section Samples

open PredictionLedger

/-- One prediction at tick 10 with an outcome at tick 20. -/
def settledLedger [Binary64] (confidence : Confidence) : PredictionLedger :=
  new.run [.recordPrediction 1 0 0 ⟨1, 30⟩ "failure".toList confidence ⟨1, 10⟩, .resolveOutcome 1 "failure".toList ⟨1, 20⟩]

/-- An outcome for an unknown prediction leaves the settled one in what the cutoff counts. -/
theorem counted_stable_iff_sample :
    letI := Binary64.exact
    let settled : Prediction :=
      ⟨1, 1, 0, 0, ⟨1, 30⟩, "failure".toList, ⟨(1 : ℚ)⟩, ⟨1, 10⟩, .matched ⟨1, 20⟩⟩
    (settled, true) ∈ ((settledLedger ⟨(1 : ℚ)⟩).run [.resolveOutcome 7 "failure".toList ⟨1, 60⟩]).counted ⟨1, 50⟩ := by
  let := Binary64.exact
  intro settled
  apply ((counted_stable_iff (settledLedger ⟨(1 : ℚ)⟩) ⟨1, 50⟩ [.resolveOutcome 7 "failure".toList ⟨1, 60⟩] ?_).mpr
    ?_ _).mpr
  · exact List.mem_singleton.mpr rfl
  · intro call member
    obtain rfl := List.mem_singleton.mp member
    exact UInt64.lt_iff_toNat_lt.mpr (by decide)
  · intro id resolved prediction present
    obtain rfl := List.mem_singleton.mp resolved
    have absent : (settledLedger ⟨(1 : ℚ)⟩).predictions[(7 : PredictionId)]? = none := rfl
    rw [absent] at present
    contradiction

/-- A second outcome at tick 60 takes the prediction out of what the cutoff at tick 50 counts. -/
theorem settled_prediction_is_lost :
    letI := Binary64.exact
    ¬∀ entry, entry ∈ ((settledLedger ⟨(1 : ℚ)⟩).run [.resolveOutcome 1 "nominal".toList ⟨1, 60⟩]).counted ⟨1, 50⟩ ↔
      entry ∈ (settledLedger ⟨(1 : ℚ)⟩).counted ⟨1, 50⟩ := by
  let := Binary64.exact
  intro same
  have late : ∀ call ∈ [LedgerCall.resolveOutcome 1 "nominal".toList ⟨1, 60⟩], call.After ⟨1, 50⟩ := by
    intro call member
    obtain rfl := List.mem_singleton.mp member
    exact UInt64.lt_iff_toNat_lt.mpr (by decide)
  have stable := (counted_stable_iff (settledLedger ⟨(1 : ℚ)⟩) ⟨1, 50⟩ _ late).mp same 1 (List.mem_singleton_self 1)
  exact stable _ rfl ⟨by decide, Or.inl ⟨⟨1, 20⟩, rfl, by decide⟩⟩

end Samples

end Temnion.Epistemic
