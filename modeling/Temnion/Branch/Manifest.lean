import Temnion.Replay.Engine
import Temnion.Library.Reader
import Std.Data.ExtTreeMap

/-
This file models the manifest of the branches and says when its encoding can be read back.
-/

namespace Temnion.Branch

open Format LittleEndian Storage Replay

abbrev BranchId := UInt64

inductive BranchLifecycle where
  | active
  | temporary
  | candidate
  | promoted
  | retired
  deriving DecidableEq, Repr

/-- An input or output error carries only its operation. The last error is not one of the source: it stands for a
walk along a cycle, which never ends. -/
inductive BranchError where
  | io (operation : String)
  | storage (error : StorageError)
  | replay (error : ReplayError)
  | format (message : String)
  | checksumMismatch
  | invalidMagic
  | unsupportedVersion (version : UInt16)
  | branchNotFound (id : BranchId)
  | parentNotFound (id : BranchId)
  | invalidForkSequence (requested maxAvailable : UInt64)
  | branchAlreadyRetired (id : BranchId)
  | outOfSteps

namespace BranchLifecycle

def toU8 : BranchLifecycle → UInt8
  | active => 0
  | temporary => 1
  | candidate => 2
  | promoted => 3
  | retired => 4

def fromU8 (tag : UInt8) : Except BranchError BranchLifecycle :=
  if tag = 0 then .ok active
  else if tag = 1 then .ok temporary
  else if tag = 2 then .ok candidate
  else if tag = 3 then .ok promoted
  else if tag = 4 then .ok retired
  else .error (.format "unknown branch lifecycle tag")

@[simp] theorem fromU8_toU8 (lifecycle : BranchLifecycle) : fromU8 lifecycle.toU8 = .ok lifecycle := by
  cases lifecycle <;> rfl

end BranchLifecycle

/-- A parent stands with the inclusive sequence at which the branch diverged. -/
structure BranchMetadata where
  id : BranchId
  name : String
  parent : Option (BranchId × UInt64)
  lifecycle : BranchLifecycle
  createdAtMs : UInt64
  deriving DecidableEq

abbrev Branches := Std.ExtTreeMap BranchId BranchMetadata compare

structure BranchManifest where
  database : DatabaseId
  branches : Branches

section Names

/-- The bytes of a name. -/
def nameBytes (name : String) : List UInt8 := name.toByteArray.data.toList

/-- The name with these bytes, unless they are no text. -/
def nameOf (bytes : List UInt8) : Option String := String.fromUTF8? ⟨bytes.toArray⟩

theorem nameOf_nameBytes (name : String) : nameOf (nameBytes name) = some name := by
  have same : (⟨(nameBytes name).toArray⟩ : ByteArray) = name.toByteArray := by
    simp [nameBytes]
  rw [nameOf, same, String.fromUTF8?, dif_pos name.isValidUTF8]
  rfl

theorem nameBytes_of_nameOf {bytes : List UInt8} {name : String} (read : nameOf bytes = some name) :
    nameBytes name = bytes := by
  unfold nameOf String.fromUTF8? at read
  split at read
  · obtain rfl := Option.some.inj read
    simp [nameBytes, String.fromUTF8]
  · contradiction

end Names

def manifestMagic : List UInt8 := [0x54, 0x4E, 0x42, 0x4D]

@[simp] theorem manifestMagic_length : manifestMagic.length = 4 := rfl

def manifestVersion : UInt16 := 1

def parentFlag (parent : Option (BranchId × UInt64)) : UInt8 := if parent.isSome then 1 else 0

def parentLink : Option (BranchId × UInt64) → List UInt8
  | some (parent, sequence) => le64 parent ++ le64 sequence
  | none => []

/-- One record of the manifest. The length of a name is narrowed to its field. -/
def branchBytes (id : BranchId) (branch : BranchMetadata) : List UInt8 :=
  (le64 id ++ le16 (UInt16.ofNat (nameBytes branch.name).length)) ++ ((nameBytes branch.name ++
    [parentFlag branch.parent]) ++ (parentLink branch.parent ++ ([branch.lifecycle.toU8] ++ le64 branch.createdAtMs)))

/-- The text of a name. -/
def checkName (bytes : List UInt8) : Except BranchError String :=
  match nameOf bytes with
  | some name => .ok name
  | none => .error (.format "invalid utf8 in branch name")

def readParent (flag : UInt8) : Reader BranchError (Option (BranchId × UInt64)) :=
  if flag = 1 then do
    let link ← Reader.readFixed 16 (.format "truncated parent branch specification")
    return some (getU64 link 0, getU64 link 8)
  else return none

def readBranch : Reader BranchError BranchMetadata := do
  let front ← Reader.readFixed 10 (.format "truncated branch metadata")
  let nameLen := (getU16 front 8).toNat
  let named ← Reader.readFixed (nameLen + 1) (.format "truncated branch name")
  let name ← liftM (checkName (named.take nameLen))
  let parent ← readParent (named.getLastD 0)
  let tail ← Reader.readFixed 9 (.format "truncated branch lifecycle")
  let lifecycle ← liftM (BranchLifecycle.fromU8 (tail.headD 0))
  return ⟨getU64 front 0, name, parent, lifecycle, getU64 tail 1⟩

section Records

/-- A step that reads nothing. -/
theorem liftM_ok {A : Type} {outcome : Except BranchError A} {input rest : List UInt8} {value : A} :
    (liftM outcome : Reader BranchError A) input = .ok (value, rest) ↔ outcome = .ok value ∧ input = rest := by
  cases outcome with
  | error error => simp [liftM, monadLift, MonadLift.monadLift, StateT.lift, bind, Except.bind]
  | ok found => simp [liftM, monadLift, MonadLift.monadLift, StateT.lift, bind, Except.bind, pure, Except.pure]

theorem checkName_ok {bytes : List UInt8} {name : String} : checkName bytes = .ok name ↔ nameOf bytes = some name := by
  unfold checkName
  cases nameOf bytes <;> simp

theorem readParent_parentLink (parent : Option (BranchId × UInt64)) (rest : List UInt8) :
    readParent (parentFlag parent) (parentLink parent ++ rest) = .ok (parent, rest) := by
  cases parent with
  | none => rfl
  | some link =>
      obtain ⟨id, sequence⟩ := link
      have present : parentFlag (some (id, sequence)) = 1 := rfl
      unfold readParent
      rw [if_pos present, Reader.bind_ok]
      refine ⟨le64 id ++ le64 sequence, rest, Reader.readFixed_ok.mpr ⟨by simp, rfl⟩, Reader.pure_ok.mpr ⟨?_, rfl⟩⟩
      have first : getU64 (le64 id ++ le64 sequence) 0 = id := getU64_of_slice (slice_append_left (le64_length _))
      have second : getU64 (le64 id ++ le64 sequence) 8 = sequence := by
        apply getU64_of_slice
        rw [slice_append_right (by simp), le64_length, Nat.sub_self, slice_all (le64_length _)]
      rw [first, second]

/-- A record whose name fits its length field reads back. -/
theorem readBranch_branchBytes {branch : BranchMetadata} (fits : (nameBytes branch.name).length < 2 ^ 16)
    (rest : List UInt8) : readBranch (branchBytes branch.id branch ++ rest) = .ok (branch, rest) := by
  let count := UInt16.ofNat (nameBytes branch.name).length
  have word : count.toNat = (nameBytes branch.name).length := UInt16.toNat_ofNat_of_lt' fits
  let front := le64 branch.id ++ le16 count
  have number : getU64 front 0 = branch.id := getU64_of_slice (slice_append_left (le64_length _))
  have length : (getU16 front 8).toNat = (nameBytes branch.name).length := by
    rw [← word]
    apply congrArg
    apply getU16_of_slice
    rw [slice_append_right (by simp), le64_length, Nat.sub_self, slice_all (le16_length _)]
  let tail := [branch.lifecycle.toU8] ++ le64 branch.createdAtMs
  have created : getU64 tail 1 = branch.createdAtMs := by
    apply getU64_of_slice
    rw [slice_append_right (by simp), List.length_singleton, Nat.sub_self, slice_all (le64_length _)]
  unfold readBranch branchBytes
  rw [List.append_assoc, List.append_assoc, List.append_assoc, Reader.bind_ok]
  refine ⟨front, _, Reader.readFixed_ok.mpr ⟨by simp [front], rfl⟩, ?_⟩
  rw [length, Reader.bind_ok]
  refine ⟨nameBytes branch.name ++ [parentFlag branch.parent], _, Reader.readFixed_ok.mpr ⟨by simp, rfl⟩, ?_⟩
  rw [List.take_left, Reader.bind_ok]
  refine ⟨branch.name, _, liftM_ok.mpr ⟨checkName_ok.mpr (nameOf_nameBytes _), rfl⟩, ?_⟩
  rw [List.getLastD_concat, List.append_assoc, Reader.bind_ok]
  refine ⟨branch.parent, tail ++ rest, readParent_parentLink _ _, ?_⟩
  rw [Reader.bind_ok]
  refine ⟨tail, rest, Reader.readFixed_ok.mpr ⟨by simp [tail], rfl⟩, ?_⟩
  rw [Reader.bind_ok]
  refine ⟨branch.lifecycle, rest, liftM_ok.mpr ⟨BranchLifecycle.fromU8_toU8 _, rfl⟩, ?_⟩
  rw [number, created]
  exact Reader.pure_ok.mpr ⟨rfl, rfl⟩

/-- The name of a record that was read fits its length field. -/
theorem readBranch_name {branch : BranchMetadata} {input rest : List UInt8}
    (read : readBranch input = .ok (branch, rest)) : (nameBytes branch.name).length < 2 ^ 16 := by
  unfold readBranch at read
  obtain ⟨front, _, first, read⟩ := Reader.bind_ok.mp read
  obtain ⟨named, _, second, read⟩ := Reader.bind_ok.mp read
  obtain ⟨name, _, third, read⟩ := Reader.bind_ok.mp read
  obtain ⟨_, _, _, read⟩ := Reader.bind_ok.mp read
  obtain ⟨_, _, _, read⟩ := Reader.bind_ok.mp read
  obtain ⟨_, _, _, read⟩ := Reader.bind_ok.mp read
  obtain ⟨rfl, -⟩ := Reader.pure_ok.mp read
  obtain ⟨found, -⟩ := liftM_ok.mp third
  rw [nameBytes_of_nameOf (checkName_ok.mp found), List.length_take]
  have bound := (getU16 front 8).toNat_lt
  omega

end Records

namespace BranchManifest

/-- The records in the order of their keys. -/
def body (manifest : BranchManifest) : List UInt8 :=
  manifest.branches.toList.flatMap fun entry => branchBytes entry.1 entry.2

/-- Every record stands under its own identity, and a later one replaces an earlier one. -/
def collect (records : List BranchMetadata) : Branches :=
  records.foldl (fun branches record => branches.insert record.id record) ∅

variable [Crc32fast]

/-- The number of branches is narrowed to its field, too. -/
def encode (manifest : BranchManifest) : List UInt8 :=
  manifestMagic ++ (le16 manifestVersion ++ (manifest.database.bytes ++
    (le32 (UInt32.ofNat manifest.branches.size) ++ (le32 (Crc32fast.hash manifest.body) ++ manifest.body))))

def decode (bytes : List UInt8) : Except BranchError BranchManifest := do
  refuseIf (bytes.length < 30) (.format "truncated branch manifest header")
  refuseIf (slice bytes 0 4 ≠ manifestMagic) .invalidMagic
  refuseIf (getU16 bytes 4 ≠ manifestVersion) (.unsupportedVersion (getU16 bytes 4))
  let body := bytes.drop 30
  refuseIf (Crc32fast.hash body ≠ getU32 bytes 26) .checksumMismatch
  let (records, _) ← Reader.readMany readBranch (getU32 bytes 22).toNat body
  return ⟨databaseAt bytes 6, collect records⟩

/-- Every branch stands under its own identity. -/
def Keyed (manifest : BranchManifest) : Prop :=
  ∀ (id : BranchId) (branch : BranchMetadata), manifest.branches[id]? = some branch → branch.id = id

/-- The lengths of the names and the number of branches fit their fields. -/
structure Fits (manifest : BranchManifest) : Prop where
  names : ∀ (id : BranchId) (branch : BranchMetadata), manifest.branches[id]? = some branch →
    (nameBytes branch.name).length < 2 ^ 16
  count : manifest.branches.size < 2 ^ 32

section Collected

omit [Crc32fast]

theorem foldl_insert_origin {records : List BranchMetadata} {start : Branches} {id : BranchId} {branch : BranchMetadata}
    (found : (records.foldl (fun branches record => branches.insert record.id record) start)[id]? = some branch) :
    start[id]? = some branch ∨ branch ∈ records := by
  induction records generalizing start with
  | nil => exact Or.inl found
  | cons record records hypothesis =>
      rcases hypothesis found with before | member
      · rw [Std.ExtTreeMap.getElem?_insert] at before
        split at before
        · obtain rfl := Option.some.inj before
          exact Or.inr List.mem_cons_self
        · exact Or.inl before
      · exact Or.inr (List.mem_cons_of_mem _ member)

theorem foldl_insert_size (records : List BranchMetadata) (start : Branches) :
    (records.foldl (fun branches record => branches.insert record.id record) start).size ≤
      start.size + records.length := by
  induction records generalizing start with
  | nil => exact le_refl _
  | cons record records hypothesis =>
      have one : (start.insert record.id record).size ≤ start.size + 1 := by
        rw [Std.ExtTreeMap.size_insert]
        split <;> omega
      have more := hypothesis (start.insert record.id record)
      rw [List.foldl_cons, List.length_cons]
      omega

theorem foldl_insert_keyed {records : List BranchMetadata} {start : Branches}
    (keyed : ∀ (id : BranchId) (branch : BranchMetadata), start[id]? = some branch → branch.id = id)
    {id : BranchId} {branch : BranchMetadata}
    (found : (records.foldl (fun branches record => branches.insert record.id record) start)[id]? = some branch) :
    branch.id = id := by
  induction records generalizing start with
  | nil => exact keyed id branch found
  | cons record records hypothesis =>
      apply hypothesis _ found
      intro place other present
      rw [Std.ExtTreeMap.getElem?_insert] at present
      split at present
      · next same =>
          rw [← Option.some.inj present]
          exact Std.LawfulEqOrd.compare_eq_iff_eq.mp same
      · exact keyed place other present

/-- Collecting the values of a map under their own identities gives the map back. -/
theorem collect_toList {manifest : BranchManifest} (keyed : manifest.Keyed) :
    collect (manifest.branches.toList.map Prod.snd) = manifest.branches := by
  have pairs : ∀ (entries : List (BranchId × BranchMetadata)) (start : Branches),
      (∀ entry ∈ entries, entry.2.id = entry.1) →
      (entries.map Prod.snd).foldl (fun branches record => branches.insert record.id record) start =
        entries.foldl (fun branches entry => branches.insert entry.1 entry.2) start := by
    intro entries
    induction entries with
    | nil => exact fun start named => rfl
    | cons entry entries hypothesis =>
        intro start named
        rw [List.map_cons, List.foldl_cons, List.foldl_cons, named entry List.mem_cons_self]
        exact hypothesis _ fun other member => named other (List.mem_cons_of_mem _ member)
  have named : ∀ entry ∈ manifest.branches.toList, entry.2.id = entry.1 := fun entry member =>
    keyed entry.1 entry.2 (Std.ExtTreeMap.mem_toList_iff_getElem?_eq_some.mp member)
  rw [collect, pairs _ _ named, ← Std.ExtTreeMap.insertMany_list_eq_foldl]
  apply Std.ExtTreeMap.ext_getElem?
  intro id
  cases found : manifest.branches[id]? with
  | some branch =>
      exact Std.ExtTreeMap.getElem?_insertMany_list_of_mem Std.ReflCmp.compare_self
        manifest.branches.distinct_keys_toList (Std.ExtTreeMap.mem_toList_iff_getElem?_eq_some.mpr found)
  | none =>
      rw [Std.ExtTreeMap.getElem?_insertMany_list_of_contains_eq_false]
      · exact Std.ExtTreeMap.getElem?_empty
      · rw [← Bool.not_eq_true, List.contains_iff_mem]
        intro member
        obtain ⟨entry, inside, rfl⟩ := List.mem_map.mp member
        rw [Std.ExtTreeMap.mem_toList_iff_getElem?_eq_some.mp inside] at found
        contradiction

end Collected

omit [Crc32fast] in
/-- The encoding of the branches is that of their records. -/
theorem body_eq {manifest : BranchManifest} (keyed : manifest.Keyed) :
    manifest.body = (manifest.branches.toList.map Prod.snd).flatMap fun branch => branchBytes branch.id branch := by
  rw [body, List.flatMap_map]
  apply List.flatMap_congr
  intro entry member
  rw [keyed entry.1 entry.2 (Std.ExtTreeMap.mem_toList_iff_getElem?_eq_some.mp member)]

/-- What the decoder finds in an encoding. -/
theorem decode_encode (manifest : BranchManifest) :
    decode manifest.encode = (do
      let (records, _) ← Reader.readMany readBranch (UInt32.ofNat manifest.branches.size).toNat manifest.body
      return ⟨manifest.database, collect records⟩) := by
  have width := manifest.database.length
  have layout : manifest.encode = (manifestMagic ++ (le16 manifestVersion ++ (manifest.database.bytes ++
      (le32 (UInt32.ofNat manifest.branches.size) ++ le32 (Crc32fast.hash manifest.body))))) ++ manifest.body := by
    simp only [encode, List.append_assoc]
  have front : (manifestMagic ++ (le16 manifestVersion ++ (manifest.database.bytes ++
      (le32 (UInt32.ofNat manifest.branches.size) ++ le32 (Crc32fast.hash manifest.body))))).length = 30 := by
    simp [width]
  have long : ¬ manifest.encode.length < 30 := by
    rw [layout, List.length_append, front]
    omega
  have rest : manifest.encode.drop 30 = manifest.body := by
    rw [layout, ← front, List.drop_left]
  have magic : slice manifest.encode 0 4 = manifestMagic := slice_append_left manifestMagic_length
  have version : getU16 manifest.encode 4 = manifestVersion := by
    apply getU16_of_slice
    rw [encode, slice_append_right (by simp)]
    exact slice_append_left (le16_length _)
  have database : databaseAt manifest.encode 6 = manifest.database := by
    apply databaseAt_bytes
    rw [encode, slice_append_right (by simp), slice_append_right (by simp)]
    exact slice_append_left width
  have count : getU32 manifest.encode 22 = UInt32.ofNat manifest.branches.size := by
    apply getU32_of_slice
    rw [encode, slice_append_right (by simp), slice_append_right (by simp), slice_append_right (by simp [width])]
    simp [width, slice_append_left]
  have sum : getU32 manifest.encode 26 = Crc32fast.hash manifest.body := by
    apply getU32_of_slice
    rw [encode, slice_append_right (by simp), slice_append_right (by simp), slice_append_right (by simp [width]),
      slice_append_right (by simp [width])]
    simp [width, slice_append_left]
  unfold decode
  rw [Except.refuseIf_bind long, Except.refuseIf_bind (not_not.mpr magic), Except.refuseIf_bind (not_not.mpr version),
    rest, Except.refuseIf_bind (not_not.mpr sum.symm), count, database]

/-- A manifest that was read has every branch under its own identity. -/
theorem decode_keyed {bytes : List UInt8} {manifest : BranchManifest} (read : decode bytes = .ok manifest) :
    manifest.Keyed := by
  unfold decode at read
  obtain ⟨_, _, read⟩ := Except.bind_eq_ok.mp read
  obtain ⟨_, _, read⟩ := Except.bind_eq_ok.mp read
  obtain ⟨_, _, read⟩ := Except.bind_eq_ok.mp read
  obtain ⟨_, _, read⟩ := Except.bind_eq_ok.mp read
  obtain ⟨_, _, same⟩ := Except.bind_eq_ok.mp read
  rw [← Except.ok.inj same]
  intro id branch found
  apply foldl_insert_keyed _ found
  intro place other absent
  rw [Std.ExtTreeMap.getElem?_empty] at absent
  contradiction

/-- A manifest reads back if and only if its names and its number of branches fit their fields. -/
theorem decode_encode_iff {manifest : BranchManifest} (keyed : manifest.Keyed) :
    decode manifest.encode = .ok manifest ↔ manifest.Fits := by
  rw [decode_encode]
  constructor
  · intro read
    obtain ⟨⟨records, rest⟩, parsed, same⟩ := Except.bind_eq_ok.mp read
    obtain ⟨length, each⟩ := Reader.readMany_origin parsed
    have gathered : collect records = manifest.branches := congrArg BranchManifest.branches (Except.ok.inj same)
    constructor
    · intro id branch found
      rw [← gathered] at found
      rcases foldl_insert_origin found with absent | member
      · rw [Std.ExtTreeMap.getElem?_empty] at absent
        contradiction
      · obtain ⟨before, after, once⟩ := each branch member
        exact readBranch_name once
    · have size := foldl_insert_size records ∅
      change (collect records).size ≤ _ at size
      rw [gathered, Std.ExtTreeMap.size_empty, length] at size
      have word := (UInt32.ofNat manifest.branches.size).toNat_lt
      omega
  · intro fits
    have word : (UInt32.ofNat manifest.branches.size).toNat = (manifest.branches.toList.map Prod.snd).length := by
      rw [List.length_map, Std.ExtTreeMap.length_toList]
      exact UInt32.toNat_ofNat_of_lt' fits.count
    have reads : ∀ branch ∈ manifest.branches.toList.map Prod.snd, ∀ rest,
        readBranch (branchBytes branch.id branch ++ rest) = .ok (branch, rest) := by
      intro branch member rest
      obtain ⟨entry, inside, rfl⟩ := List.mem_map.mp member
      exact readBranch_branchBytes (fits.names _ _ (Std.ExtTreeMap.mem_toList_iff_getElem?_eq_some.mp inside)) rest
    have parsed := Reader.readMany_flatMap reads []
    rw [List.append_nil, ← body_eq keyed, ← word] at parsed
    rw [parsed]
    change Except.ok (⟨manifest.database, collect (manifest.branches.toList.map Prod.snd)⟩ : BranchManifest) = _
    rw [collect_toList keyed]

end BranchManifest

end Temnion.Branch
