import Temnion.Library.Reader
import Temnion.Library.Slices

/-
This file reads values one after the other at a place of a byte string that moves on.
-/

open LittleEndian

namespace Slices

/-- A step reads at the current place and leaves the next one. -/
abbrev Moving (E A : Type) := StateT Nat (Parse E) A

namespace Moving

variable {E A B : Type} {bytes : List UInt8} {offset : Nat}

def readU32 (bytes : List UInt8) (error : E) : Moving E UInt32 := fun offset => do
  refuseIf (bytes.length < offset + 4) (.refused error)
  let value ← u32At bytes offset
  return (value, offset + 4)

def readU64 (bytes : List UInt8) (error : E) : Moving E UInt64 := fun offset => do
  refuseIf (bytes.length < offset + 8) (.refused error)
  let value ← u64At bytes offset
  return (value, offset + 8)

/-- The same step runs a fixed number of times. -/
def many (step : Moving E A) : Nat → Moving E (List A)
  | 0 => return []
  | count + 1 => do
      let value ← step
      let values ← many step count
      return value :: values

section Reads

variable {step : Moving E A} {next : A → Moving E B} {encoded further : List UInt8} {value : A} {result : B}

/-- When these bytes lie ahead, the step gives the value and moves behind them. -/
def Reads (bytes : List UInt8) (step : Moving E A) (encoded : List UInt8) (value : A) : Prop :=
  ∀ offset rest, Ahead bytes offset (encoded ++ rest) → step offset = .ok (value, offset + encoded.length)

theorem Reads.pure (bytes : List UInt8) (value : A) : Reads bytes (Pure.pure value : Moving E A) [] value :=
  fun _ _ _ => rfl

/-- One encoding is read behind the other. -/
theorem Reads.bind (first : Reads bytes step encoded value) (second : Reads bytes (next value) further result) :
    Reads bytes (step >>= next) (encoded ++ further) result := by
  intro offset rest ahead
  rw [List.append_assoc] at ahead
  obtain ⟨_, _, behind⟩ := ahead.part rfl
  have here := first offset _ ahead
  have there := second _ _ behind
  change (step offset >>= fun pair => next pair.1 pair.2) = _
  rw [here, Except.ok_bind, there, List.length_append, Nat.add_assoc]

/-- The last step only computes. -/
theorem Reads.bind_pure {finish : A → B} (first : Reads bytes step encoded value) :
    Reads bytes (step >>= fun value => Pure.pure (finish value)) encoded (finish value) := by
  rw [← List.append_nil encoded]
  exact @Reads.bind _ _ _ _ _ (fun value => Pure.pure (finish value)) _ _ _ _ first (Reads.pure bytes (finish value))

theorem reads_u32 (bytes : List UInt8) (error : E) (value : UInt32) :
    Reads bytes (readU32 bytes error) (le32 value) value := by
  intro offset rest ahead
  obtain ⟨read, further⟩ := ahead.u32 E rfl
  rw [readU32, Except.refuseIf_bind (Nat.not_lt.mpr further.1), read]
  rfl

theorem reads_u64 (bytes : List UInt8) (error : E) (value : UInt64) :
    Reads bytes (readU64 bytes error) (le64 value) value := by
  intro offset rest ahead
  obtain ⟨read, further⟩ := ahead.u64 E rfl
  rw [readU64, Except.refuseIf_bind (Nat.not_lt.mpr further.1), read]
  rfl

/-- Values that are read piece by piece are read one after the other. -/
theorem Reads.many {encode : A → List UInt8} {values : List A}
    (each : ∀ value ∈ values, Reads bytes step (encode value) value) :
    Reads bytes (Moving.many step values.length) (values.flatMap encode) values := by
  induction values with
  | nil => exact Reads.pure bytes []
  | cons value values hypothesis =>
      rw [List.length_cons, Moving.many, List.flatMap_cons]
      apply (each value List.mem_cons_self).bind
      exact (hypothesis fun other member => each other (List.mem_cons_of_mem _ member)).bind_pure

end Reads

section Careful

variable {step : Moving E A} {next : A → Moving E B}

/-- The step panics at no place. -/
def Careful (step : Moving E A) : Prop := ∀ offset, Safe (step offset)

theorem Careful.pure (value : A) : Careful (Pure.pure value : Moving E A) := fun _ => safe_ok _

theorem Careful.bind (first : Careful step) (rest : ∀ value, Careful (next value)) : Careful (step >>= next) :=
  fun offset => (first offset).bind fun pair _ => rest pair.1 pair.2

theorem Careful.fail (error : E) : Careful (throw (.refused error) : Moving E A) := fun _ => safe_refused error

theorem Careful.check (condition : Prop) [Decidable condition] (error : E) :
    Careful (refuseIf condition (Fault.refused error) : Moving E Unit) := by
  unfold refuseIf
  split
  · exact Careful.fail error
  · exact Careful.pure ()

theorem Careful.lift (outcome : Except E A) : Careful (liftM (outcome.mapError Fault.refused) : Moving E A) := by
  intro offset
  cases outcome with
  | error error => exact safe_refused error
  | ok value => exact safe_ok _

theorem careful_u32 (bytes : List UInt8) (error : E) : Careful (readU32 bytes error) := by
  intro offset
  apply Safe.guard
  intro inside
  rw [u32At_ok (Nat.not_lt.mp inside)]
  exact safe_ok _

theorem careful_u64 (bytes : List UInt8) (error : E) : Careful (readU64 bytes error) := by
  intro offset
  apply Safe.guard
  intro inside
  rw [u64At_ok (Nat.not_lt.mp inside)]
  exact safe_ok _

theorem Careful.many (careful : Careful step) (count : Nat) : Careful (Moving.many step count) := by
  induction count with
  | zero => exact Careful.pure []
  | succ count hypothesis =>
      exact careful.bind fun value => hypothesis.bind fun values => Careful.pure (value :: values)

end Careful

section Takes

variable {step : Moving E A} {next : A → Moving E B} {encoded : List UInt8} {value : A} {width more : Nat}

/-- Words that are read without a check. Behind the end they are a fault. -/
def takeU32 (bytes : List UInt8) : Moving E UInt32 := fun offset => do
  let value ← u32At bytes offset
  return (value, offset + 4)

def takeU64 (bytes : List UInt8) : Moving E UInt64 := fun offset => do
  let value ← u64At bytes offset
  return (value, offset + 8)

def takeSlice (bytes : List UInt8) (width : Nat) : Moving E (List UInt8) := fun offset => do
  let part ← sliceAt bytes offset (offset + width)
  return (part, offset + width)

/-- So many bytes have to be there. -/
def room (bytes : List UInt8) (width : Nat) (error : E) : Moving E Unit := fun offset => do
  refuseIf (bytes.length < offset + width) (.refused error)
  return ((), offset)

/-- The step reads so many bytes wherever they are there. -/
def Takes (bytes : List UInt8) (step : Moving E A) (width : Nat) : Prop :=
  ∀ offset, offset + width ≤ bytes.length → ∃ value, step offset = .ok (value, offset + width)

theorem Takes.pure (bytes : List UInt8) (value : A) : Takes bytes (Pure.pure value : Moving E A) 0 :=
  fun _ _ => ⟨value, rfl⟩

theorem Takes.bind (first : Takes bytes step width) (second : ∀ value, Takes bytes (next value) more) :
    Takes bytes (step >>= next) (width + more) := by
  intro offset inside
  obtain ⟨value, here⟩ := first offset (by omega)
  obtain ⟨result, there⟩ := second value (offset + width) (by omega)
  refine ⟨result, ?_⟩
  change (step offset >>= fun pair => next pair.1 pair.2) = _
  rw [here, Except.ok_bind, there, Nat.add_assoc]

theorem takes_u32 (bytes : List UInt8) : Takes bytes (takeU32 bytes : Moving E UInt32) 4 := by
  intro offset inside
  refine ⟨getU32 bytes offset, ?_⟩
  rw [takeU32, u32At_ok inside]
  rfl

theorem takes_u64 (bytes : List UInt8) : Takes bytes (takeU64 bytes : Moving E UInt64) 8 := by
  intro offset inside
  refine ⟨getU64 bytes offset, ?_⟩
  rw [takeU64, u64At_ok inside]
  rfl

theorem takes_slice (bytes : List UInt8) (width : Nat) :
    Takes bytes (takeSlice bytes width : Moving E (List UInt8)) width := by
  intro offset inside
  refine ⟨slice bytes offset (offset + width - offset), ?_⟩
  rw [takeSlice, sliceAt_ok (Nat.le_add_right _ _) inside]
  rfl

theorem Takes.many (takes : Takes bytes step width) (count : Nat) : Takes bytes (Moving.many step count) (count * width) := by
  induction count with
  | zero =>
      rw [Nat.zero_mul]
      exact Takes.pure bytes []
  | succ count hypothesis =>
      have whole := takes.bind fun value => hypothesis.bind fun values => Takes.pure bytes (value :: values)
      rw [Nat.add_zero, Nat.add_comm, ← Nat.succ_mul] at whole
      exact whole

/-- A step that takes bytes that are there does not panic. -/
theorem Takes.safe (takes : Takes bytes step width) (inside : offset + width ≤ bytes.length) : Safe (step offset) := by
  obtain ⟨value, same⟩ := takes offset inside
  rw [same]
  exact safe_ok _

theorem reads_takeU32 (bytes : List UInt8) (value : UInt32) :
    Reads bytes (takeU32 bytes : Moving E UInt32) (le32 value) value := by
  intro offset rest ahead
  rw [takeU32, (ahead.u32 E rfl).1]
  rfl

theorem reads_takeU64 (bytes : List UInt8) (value : UInt64) :
    Reads bytes (takeU64 bytes : Moving E UInt64) (le64 value) value := by
  intro offset rest ahead
  rw [takeU64, (ahead.u64 E rfl).1]
  rfl

theorem reads_takeSlice (bytes part : List UInt8) :
    Reads bytes (takeSlice bytes part.length : Moving E (List UInt8)) part part := by
  intro offset rest ahead
  rw [takeSlice, (ahead.slice E rfl).1]
  rfl

/-- There is room for what is read afterwards. -/
theorem Reads.room {error : E} (reads : Reads bytes step encoded value) (fits : width ≤ encoded.length) :
    Reads bytes (Moving.room bytes width error >>= fun _ => step) encoded value := by
  intro offset rest ahead
  have inside := (ahead.part rfl).1
  change (Moving.room bytes width error offset >>= fun pair => step pair.2) = _
  rw [Moving.room, Except.refuseIf_bind (by omega)]
  exact reads offset rest ahead

end Takes

section Follows

variable {step : Moving E A} {next : A → Moving E B} {reader : Reader E A} {further : A → Reader E B}

/-- From every place inside the bytes the step does what the reader does with the bytes from there on. -/
def Follows (bytes : List UInt8) (step : Moving E A) (reader : Reader E A) : Prop :=
  ∀ offset, offset ≤ bytes.length →
    (∃ error, reader (bytes.drop offset) = .error error ∧ step offset = .error (.refused error)) ∨
      ∃ value place, place ≤ bytes.length ∧ reader (bytes.drop offset) = .ok (value, bytes.drop place) ∧
        step offset = .ok (value, place)

theorem Follows.pure (bytes : List UInt8) (value : A) :
    Follows bytes (Pure.pure value : Moving E A) (Pure.pure value) :=
  fun offset inside => .inr ⟨value, offset, inside, rfl, rfl⟩

theorem Follows.fail (bytes : List UInt8) (error : E) :
    Follows bytes (throw (.refused error) : Moving E A) (throw error) :=
  fun _ _ => .inl ⟨error, rfl, rfl⟩

theorem Follows.lift (bytes : List UInt8) (outcome : Except E A) :
    Follows bytes (liftM (outcome.mapError Fault.refused) : Moving E A) (liftM outcome) := by
  intro offset inside
  cases outcome with
  | error error => exact .inl ⟨error, rfl, rfl⟩
  | ok value => exact .inr ⟨value, offset, inside, rfl, rfl⟩

/-- The second steps need to agree only on what the first reader can give. -/
theorem Follows.bind (first : Follows bytes step reader)
    (second : ∀ value, (∃ before after, reader before = .ok (value, after)) → Follows bytes (next value) (further value)) :
    Follows bytes (step >>= next) (reader >>= further) := by
  intro offset inside
  have step' : (step >>= next) offset = (step offset >>= fun pair => next pair.1 pair.2) := rfl
  have reader' : (reader >>= further) (bytes.drop offset) =
      (reader (bytes.drop offset) >>= fun pair => further pair.1 pair.2) := rfl
  rw [step', reader']
  rcases first offset inside with ⟨error, refuses, stops⟩ | ⟨value, place, reached, gives, moves⟩
  · rw [refuses, stops]
    exact .inl ⟨error, rfl, rfl⟩
  · rw [gives, moves]
    exact second value ⟨_, _, gives⟩ place reached

theorem Follows.check (bytes : List UInt8) (condition : Prop) [Decidable condition] (error : E) :
    Follows bytes (refuseIf condition (Fault.refused error) : Moving E Unit) (refuseIf condition error) := by
  unfold refuseIf
  split
  · exact Follows.fail bytes error
  · exact Follows.pure bytes ()

end Follows

end Moving

end Slices
