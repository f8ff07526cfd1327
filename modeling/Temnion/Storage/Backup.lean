import Temnion.Library.Listing
import Temnion.Storage.ManifestCodec
import Temnion.Storage.Recovery

/-
This file copies the files of a store into a backup, checks them against its manifest, and restores them.
-/

namespace Temnion.Storage

open Format LittleEndian Slices

/-- The files below a directory by their relative path. A later entry replaces an earlier one of its path. -/
abbrev Files := List (Text × List UInt8)

def walPath : Text := "events.wal".toList

def segmentPath (name : String) : Text := "segments/".toList ++ name.toList

def segmentManifestPath : Text := segmentPath "manifest.bin"

def backupManifestPath : Text := "backup_manifest.bin".toList

structure BackupFileEntry where
  relativePath : Text
  sizeBytes : UInt64
  crc32 : UInt32
  deriving DecidableEq, Repr

structure BackupManifest where
  timestampNs : BitVec 128
  files : List BackupFileEntry
  deriving DecidableEq, Repr

/-- A path that is missing fails the operation. -/
def openFile (operation : String) (files : Files) (path : Text) : Parse StorageError (List UInt8) :=
  match files.lookup path with
  | some contents => .ok contents
  | none => .error (.refused (.io operation))

def invalidRecord {A : Type} (reason : String) : Parse StorageError A := .error (.refused (.invalidRecord reason))

/-- A program that never panics. -/
def refusing {A : Type} (outcome : Except StorageError A) : Parse StorageError A := outcome.mapError .refused

/-- The decoder of the segment manifest gives the reasons of invalid records. -/
def asRecord {A : Type} (outcome : Parse String A) : Parse StorageError A :=
  outcome.mapError fun
    | .panicked => .panicked
    | .refused reason => .refused (.invalidRecord reason)

/-- The segment directory below the directory of a store. -/
def segmentsOf (files : Files) : Directory :=
  files.filterMap fun file => (Text.stripPrefix file.1 "segments/".toList).map fun name => (String.ofList name, file.2)

section Below

variable {files : Files} {name : String}

/-- A directory finds what stands below its path. -/
theorem lookup_below (directory : Text) :
    (files.filterMap fun file => (Text.stripPrefix file.1 directory).map fun name => (String.ofList name, file.2)).lookup
      name = files.lookup (directory ++ name.toList) := by
  induction files with
  | nil => rfl
  | cons file files hypothesis =>
      obtain ⟨path, contents⟩ := file
      rw [List.filterMap_cons]
      by_cases below : directory <+: path
      · obtain ⟨rest, rfl⟩ := below
        have stripped := Text.stripPrefix_append directory rest
        rw [stripped, Option.map_some]
        dsimp only
        by_cases same : name = String.ofList rest
        · subst same
          rw [List.lookup_cons_self, String.toList_ofList, List.lookup_cons_self]
        · have other : directory ++ name.toList ≠ directory ++ rest := by
            intro equal
            apply same
            rw [← List.append_cancel_left equal, String.ofList_toList]
          rw [List.lookup_cons, beq_false_of_ne same, List.lookup_cons, beq_false_of_ne other]
          exact hypothesis
      · have skipped : Text.stripPrefix path directory = none :=
          if_neg fun front => below (List.isPrefixOf_iff_prefix.mp front)
        have other : directory ++ name.toList ≠ path := by
          rintro rfl
          exact below (List.prefix_append _ _)
        rw [skipped, Option.map_none, List.lookup_cons, beq_false_of_ne other]
        exact hypothesis

theorem lookup_segmentsOf : (segmentsOf files).lookup name = files.lookup (segmentPath name) := lookup_below _

end Below

namespace BackupManifest

def entryFields (entry : BackupFileEntry) : List UInt8 :=
  le32 (UInt32.ofNat (Utf8.encode entry.relativePath).length) ++ (Utf8.encode entry.relativePath ++
    (le64 entry.sizeBytes ++ le32 entry.crc32))

/-- Everything that the checksum covers. -/
def fields (manifest : BackupManifest) : List UInt8 :=
  bytesOf 16 manifest.timestampNs.toNat ++ (le32 (UInt32.ofNat manifest.files.length) ++
    manifest.files.flatMap entryFields)

def encode [Crc32fast] (manifest : BackupManifest) : List UInt8 :=
  manifest.fields ++ le32 (Crc32fast.hash manifest.fields)

/-- One entry with the place behind it. -/
def readEntry (bytes : List UInt8) (offset : Nat) : Parse StorageError (BackupFileEntry × Nat) := do
  let dataLen := bytes.length - 4
  refuseIf (dataLen < offset + 4) (.refused (.invalidRecord "Truncated manifest file entry"))
  let strLen ← u32At bytes offset
  let stop := offset + 4 + strLen.toNat
  refuseIf (dataLen < stop + 12) (.refused (.invalidRecord "Truncated manifest path string"))
  let raw ← sliceAt bytes (offset + 4) stop
  match Utf8.decode raw with
  | none => invalidRecord "Invalid UTF-8 in manifest path"
  | some path => do
      let sizeBytes ← u64At bytes stop
      let crc32 ← u32At bytes (stop + 8)
      return (⟨path, sizeBytes, crc32⟩, stop + 12)

def readEntries (bytes : List UInt8) : Nat → Nat → Parse StorageError (List BackupFileEntry)
  | 0, _ => .ok []
  | count + 1, offset => do
      let (entry, offset) ← readEntry bytes offset
      let entries ← readEntries bytes count offset
      return entry :: entries

def decode [Crc32fast] (bytes : List UInt8) : Parse StorageError BackupManifest := do
  refuseIf (bytes.length < 24) (.refused (.invalidRecord "Backup manifest too short"))
  let expected ← u32At bytes (bytes.length - 4)
  refuseIf (Crc32fast.hash (bytes.take (bytes.length - 4)) ≠ expected)
    (.refused (.invalidRecord "Backup manifest checksum corruption"))
  let timestamp ← sliceAt bytes 0 16
  let fileCount ← u32At bytes 16
  let files ← readEntries bytes fileCount.toNat 20
  return ⟨BitVec.ofNat 128 (valueOf timestamp), files⟩

section Written

variable {entry : BackupFileEntry} {entries : List BackupFileEntry} {bytes rest : List UInt8} {offset : Nat}

/-- Four bytes hold the length of the path. -/
def Named (entry : BackupFileEntry) : Prop := (Utf8.encode entry.relativePath).length < 2 ^ 32

theorem readEntry_ahead (named : Named entry) (ahead : Slices.Ahead bytes offset (entryFields entry ++ rest))
    (tail : 4 ≤ rest.length) : ∃ next, readEntry bytes offset = .ok (entry, next) ∧ Slices.Ahead bytes next rest := by
  simp only [entryFields, List.append_assoc] at ahead
  obtain ⟨length, ahead⟩ := ahead.u32 StorageError rfl
  obtain ⟨raw, ahead⟩ := ahead.slice StorageError rfl
  obtain ⟨size, ahead⟩ := ahead.u64 StorageError rfl
  obtain ⟨crc32, ahead⟩ := ahead.u32 StorageError rfl
  have narrowed : (UInt32.ofNat (Utf8.encode entry.relativePath).length).toNat =
      (Utf8.encode entry.relativePath).length := UInt32.toNat_ofNat_of_lt' named
  have left := congrArg List.length ahead.2
  rw [List.length_drop] at left
  refine ⟨_, ?_, ahead⟩
  rw [readEntry]
  dsimp only
  rw [Except.refuseIf_bind (by omega), length, Except.ok_bind, narrowed, Except.refuseIf_bind (by omega), raw,
    Except.ok_bind, Utf8.decode_encode]
  dsimp only
  rw [size, Except.ok_bind, crc32, Except.ok_bind]
  rfl

theorem readEntries_ahead (named : ∀ entry ∈ entries, Named entry)
    (ahead : Slices.Ahead bytes offset (entries.flatMap entryFields ++ rest)) (tail : 4 ≤ rest.length) :
    readEntries bytes entries.length offset = .ok entries := by
  induction entries generalizing offset with
  | nil => rfl
  | cons entry entries hypothesis =>
      rw [List.flatMap_cons, List.append_assoc] at ahead
      obtain ⟨next, one, ahead⟩ := readEntry_ahead (named entry List.mem_cons_self) ahead (by
        rw [List.length_append]
        exact Nat.le_trans tail (Nat.le_add_left _ _))
      have others := hypothesis (fun other member => named other (List.mem_cons_of_mem _ member)) ahead
      rw [List.length_cons, readEntries, one, Except.ok_bind]
      dsimp only
      rw [others]
      rfl

/-- A manifest that its counters can hold reads back. -/
theorem decode_encode [Crc32fast] {manifest : BackupManifest} (named : ∀ entry ∈ manifest.files, Named entry)
    (counted : manifest.files.length < 2 ^ 32) : decode manifest.encode = .ok manifest := by
  have start := ahead_start manifest.encode
  have split : manifest.encode = manifest.fields ++ (le32 (Crc32fast.hash manifest.fields) ++ []) := by
    rw [List.append_nil, encode]
  have length : manifest.encode.length - 4 = manifest.fields.length := by
    rw [encode, List.length_append, le32_length, Nat.add_sub_cancel]
  have whole : manifest.encode.length = manifest.fields.length + 4 := by
    rw [encode, List.length_append, le32_length]
  have expected : (u32At manifest.encode manifest.fields.length : Parse StorageError UInt32) =
      .ok (Crc32fast.hash manifest.fields) := u32At_of_split split rfl
  have covered : manifest.encode.take manifest.fields.length = manifest.fields := by
    rw [encode, List.take_left]
  have front : 20 ≤ manifest.fields.length := by
    rw [fields, List.length_append, List.length_append, bytesOf_length, le32_length]
    omega
  nth_rewrite 2 [encode] at start
  simp only [fields, List.append_assoc] at start
  obtain ⟨timestamp, ahead⟩ := start.slice StorageError (show 0 + (bytesOf 16 manifest.timestampNs.toNat).length = 16 by
    rw [bytesOf_length])
  obtain ⟨count, ahead⟩ := ahead.u32 StorageError (show 16 + 4 = 20 from rfl)
  have files := readEntries_ahead named ahead (le32_length _).ge
  have counter : (UInt32.ofNat manifest.files.length).toNat = manifest.files.length :=
    UInt32.toNat_ofNat_of_lt' counted
  have stamp : BitVec.ofNat 128 (valueOf (bytesOf 16 manifest.timestampNs.toNat)) = manifest.timestampNs := by
    have small : manifest.timestampNs.toNat < 256 ^ 16 := manifest.timestampNs.isLt
    rw [valueOf_bytesOf small, BitVec.ofNat_toNat, BitVec.setWidth_eq]
  rw [decode, Except.refuseIf_bind (by omega), length, expected, Except.ok_bind, covered,
    Except.refuseIf_bind (not_not.mpr rfl), timestamp, Except.ok_bind, count, Except.ok_bind, counter, files,
    Except.ok_bind, stamp]
  rfl

end Written

end BackupManifest

section Manager

variable [Crc32fast]

/-- The size and the checksum of a file. -/
def computeCrc32 (contents : List UInt8) : UInt64 × UInt32 :=
  (UInt64.ofNat contents.length, Crc32fast.hash contents)

def entryOf (file : Text × List UInt8) : BackupFileEntry :=
  ⟨file.1, (computeCrc32 file.2).1, (computeCrc32 file.2).2⟩

/-- The copy of one file is what the checksum is taken of. -/
def copyAndChecksum (copied : Files × List BackupFileEntry) (file : Text × List UInt8) :
    Files × List BackupFileEntry := (file :: copied.1, copied.2 ++ [entryOf file])

/-- Every file is copied in the order of the listing. A missing backup directory is created empty. -/
def createBackup (timestampNs : BitVec 128) (store backup : Option Files) :
    Except StorageError (BackupManifest × Files) :=
  match store with
  | none => .error (.invalidRecord "Source database directory does not exist")
  | some files =>
      let copied := files.foldl copyAndChecksum (backup.getD [], [])
      let manifest : BackupManifest := ⟨timestampNs, copied.2⟩
      .ok (manifest, (backupManifestPath, manifest.encode) :: copied.1)

def verifyFile (backup : Files) (entry : BackupFileEntry) : Parse StorageError Unit :=
  match backup.lookup entry.relativePath with
  | none => invalidRecord "Backup file missing"
  | some contents =>
      refuseIf (computeCrc32 contents ≠ (entry.sizeBytes, entry.crc32))
        (.refused (.invalidRecord "Backup file checksum or size mismatch"))

def verifyFiles (backup : Files) : List BackupFileEntry → Parse StorageError Unit
  | [] => .ok ()
  | entry :: entries => do
      verifyFile backup entry
      verifyFiles backup entries

def verifyBackup (backup : Files) : Parse StorageError BackupManifest := do
  let bytes ← openFile "read_backup_manifest" backup backupManifestPath
  let manifest ← BackupManifest.decode bytes
  verifyFiles backup manifest.files
  return manifest

/-- The files of the entries are copied over what the target holds. -/
def restoreFiles (backup : Files) : List BackupFileEntry → Files → Parse StorageError Files
  | [], target => .ok target
  | entry :: entries, target => do
      let contents ← openFile "copy_restore_file" backup entry.relativePath
      restoreFiles backup entries ((entry.relativePath, contents) :: target)

def loadIfExists (files : Files) : Parse StorageError (Option SegmentManifest) :=
  match files.lookup segmentManifestPath with
  | none => .ok none
  | some bytes => (asRecord (SegmentManifest.decode bytes)).map some

/-- The handle on a directory, together with the files that it works on. The limits and the header are checked before
the manifest is read, and the open of the decoded files checks them again. -/
def openDirectory (files : Files) (limits : Limits) (recovery : RecoveryMode) : Parse StorageError (Store × Disk) := do
  refusing (validateLimits limits)
  let wal ← openFile "open WAL" files walPath
  let _ ← refusing (asStorage (decodeWalHeader (wal.take walHeaderLen)))
  let manifest ← loadIfExists files
  match Store.openStore limits recovery ⟨wal, segmentsOf files, manifest, []⟩ with
  | (.ok (store, _), disk) => return (store, disk)
  | (.error error, _) => throw (.refused error)

/-- The restored store is opened under the default limits. -/
def restoreBackup (backup : Files) (target : Option Files) : Parse StorageError (Store × Disk) := do
  let manifest ← verifyBackup backup
  let restored ← restoreFiles backup manifest.files (target.getD [])
  openDirectory restored Limits.default .rejectIncompleteTail

end Manager

section Copies

variable [Crc32fast] {files backup target : Files} {timestampNs : BitVec 128}

theorem copyAndChecksum_eq (copied : Files × List BackupFileEntry) :
    files.foldl copyAndChecksum copied = (files.reverse ++ copied.1, copied.2 ++ files.map entryOf) := by
  induction files generalizing copied with
  | nil => rw [List.foldl_nil, List.reverse_nil, List.nil_append, List.map_nil, List.append_nil]
  | cons file files hypothesis =>
      rw [List.foldl_cons, hypothesis, copyAndChecksum, List.reverse_cons, List.append_assoc, List.singleton_append,
        List.map_cons, List.append_assoc, List.singleton_append]

theorem createBackup_eq (files : Files) (timestampNs : BitVec 128) :
    createBackup timestampNs (some files) none = .ok (⟨timestampNs, files.map entryOf⟩,
      (backupManifestPath, BackupManifest.encode ⟨timestampNs, files.map entryOf⟩) :: files.reverse) := by
  rw [createBackup, copyAndChecksum_eq, Option.getD_none, List.append_nil, List.nil_append]

/-- The backup holds these files. -/
def Holds (backup files : Files) : Prop := ∀ file ∈ files, backup.lookup file.1 = some file.2

theorem verifyFiles_ok (holds : Holds backup files) : verifyFiles backup (files.map entryOf) = .ok () := by
  induction files with
  | nil => rfl
  | cons file files hypothesis =>
      have found := holds file List.mem_cons_self
      have verified : verifyFile backup (entryOf file) = .ok () := by
        rw [verifyFile, entryOf, found]
        exact Except.refuseIf_ok.mpr (not_not.mpr rfl)
      rw [List.map_cons, verifyFiles, verified, Except.ok_bind]
      exact hypothesis fun other member => holds other (List.mem_cons_of_mem _ member)

theorem restoreFiles_ok (holds : Holds backup files) :
    restoreFiles backup (files.map entryOf) target = .ok (files.reverse ++ target) := by
  induction files generalizing target with
  | nil => rfl
  | cons file files hypothesis =>
      have found := holds file List.mem_cons_self
      rw [List.map_cons, restoreFiles, openFile, entryOf, found, Except.ok_bind,
        hypothesis fun other member => holds other (List.mem_cons_of_mem _ member), List.reverse_cons,
        List.append_assoc, List.singleton_append]

omit [Crc32fast] in
/-- A listing that names every file once, and none like the manifest of the backup, is held by its backup. -/
theorem createBackup_holds (distinct : (files.map Prod.fst).Nodup) (foreign : files.lookup backupManifestPath = none)
    (bytes : List UInt8) : Holds ((backupManifestPath, bytes) :: files.reverse) files := by
  intro file member
  have found := Listing.lookup_of_mem distinct member
  have other : file.1 ≠ backupManifestPath := by
    intro same
    rw [same, foreign] at found
    contradiction
  rw [List.lookup_cons, beq_false_of_ne other]
  exact (Listing.lookup_perm distinct (List.reverse_perm files).symm).symm.trans found

/-- A backup that was just created restores to the opened copies of its files. -/
theorem restoreBackup_created (distinct : (files.map Prod.fst).Nodup) (foreign : files.lookup backupManifestPath = none)
    (counted : files.length < 2 ^ 32) (short : ∀ file ∈ files, (Utf8.encode file.1).length < 2 ^ 32) :
    restoreBackup ((backupManifestPath, BackupManifest.encode ⟨timestampNs, files.map entryOf⟩) :: files.reverse) none =
      openDirectory files.reverse Limits.default .rejectIncompleteTail := by
  have holds := createBackup_holds distinct foreign (BackupManifest.encode ⟨timestampNs, files.map entryOf⟩)
  have named : ∀ entry ∈ files.map entryOf, BackupManifest.Named entry := by
    intro entry member
    obtain ⟨file, inside, rfl⟩ := List.mem_map.mp member
    exact short file inside
  have read : BackupManifest.decode (BackupManifest.encode ⟨timestampNs, files.map entryOf⟩) =
      .ok ⟨timestampNs, files.map entryOf⟩ :=
    BackupManifest.decode_encode named (by rwa [List.length_map])
  rw [restoreBackup, verifyBackup, openFile, List.lookup_cons_self]
  dsimp only
  rw [Except.ok_bind, read, Except.ok_bind, verifyFiles_ok holds]
  change (restoreFiles _ (files.map entryOf) (none.getD []) >>= _) = _
  rw [restoreFiles_ok holds, Except.ok_bind, Option.getD_none, List.append_nil]

end Copies

end Temnion.Storage
