import Temnion.Library.OrderedMap
import Temnion.Library.Runs
import Temnion.Library.Words
import Temnion.Query.Sql
import Temnion.Storage.Run

/-
This file gives out handles for open stores and for query results, and says how long a handle stands for its value.
-/

namespace Temnion.Protocol

open Query Storage Format

structure HandleRegistry (T : Type) where
  nextId : UInt64
  items : OrderedMap UInt64 T

namespace HandleRegistry

variable {T : Type}

def new : HandleRegistry T := ⟨1, ∅⟩

def insert (registry : HandleRegistry T) (item : T) : HandleRegistry T × UInt64 :=
  (⟨registry.nextId + 1, registry.items.insert registry.nextId item⟩, registry.nextId)

def get (registry : HandleRegistry T) (id : UInt64) : Option T := registry.items[id]?

def remove (registry : HandleRegistry T) (id : UInt64) : HandleRegistry T × Bool :=
  ({ registry with items := registry.items.erase id }, (registry.items[id]?).isSome)

/-- At most so many handles were given out, and only they have items. -/
structure Issues (count : Nat) (registry : HandleRegistry T) : Prop where
  next : registry.nextId.toNat ≤ count + 1
  known : ∀ id item, registry.get id = some item → id < registry.nextId

/-- A registry changes by at most one new item or by the removal of a handle. -/
inductive Moves (registry : HandleRegistry T) : Option UInt64 → HandleRegistry T → Prop where
  | same : Moves registry none registry
  | insert (item : T) : Moves registry none (registry.insert item).1
  | remove (id : UInt64) : Moves registry (some id) (registry.remove id).1

variable {registry moved : HandleRegistry T} {count : Nat} {removed : Option UInt64} {id : UInt64}

theorem new_get (id : UInt64) : (new : HandleRegistry T).get id = none := Std.ExtTreeMap.getElem?_empty

theorem Issues.new : Issues 0 (new : HandleRegistry T) where
  next := le_refl 1
  known id item found := by
    rw [new_get] at found
    contradiction

theorem insert_get (item : T) (id : UInt64) :
    (registry.insert item).1.get id = if registry.nextId = id then some item else registry.get id :=
  OrderedMap.insert_getElem? _ _ _ _

theorem remove_get (removed id : UInt64) :
    (registry.remove removed).1.get id = if removed = id then none else registry.get id := by
  change (registry.items.erase removed)[id]? = _
  rw [Std.ExtTreeMap.getElem?_erase]
  simp only [compare_eq_iff_eq]
  rfl

/-- The counter does not wrap before it has given out all other handles. -/
theorem Issues.insert_next (issues : Issues count registry) (item : T) (room : count + 2 < 2 ^ 64) :
    (registry.insert item).1.nextId.toNat = registry.nextId.toNat + 1 := by
  have next := issues.next
  change (registry.nextId + 1).toNat = _
  rw [UInt64.toNat_add]
  exact Nat.mod_eq_of_lt (show registry.nextId.toNat + 1 < 2 ^ 64 by omega)

/-- No handle that was given out is given out again. -/
theorem Moves.next (moves : Moves registry removed moved) (issues : Issues count registry)
    (room : count + 2 < 2 ^ 64) : registry.nextId ≤ moved.nextId := by
  cases moves with
  | same => exact le_refl _
  | insert item =>
      rw [UInt64.le_iff_toNat_le, issues.insert_next item room]
      exact Nat.le_succ _
  | remove id => exact le_refl _

theorem Moves.issues (moves : Moves registry removed moved) (issues : Issues count registry)
    (room : count + 2 < 2 ^ 64) : Issues (count + 1) moved where
  next := by
    have next := issues.next
    cases moves with
    | same => omega
    | insert item =>
        rw [issues.insert_next item room]
        omega
    | remove id => exact next.trans (Nat.le_succ _)
  known id item found := by
    cases moves with
    | same => exact issues.known id item found
    | insert other =>
        rw [insert_get] at found
        rw [UInt64.lt_iff_toNat_lt, issues.insert_next other room]
        by_cases same : registry.nextId = id
        · rw [← same]
          exact Nat.lt_succ_self _
        · rw [if_neg same] at found
          exact (UInt64.lt_iff_toNat_lt.mp (issues.known id item found)).trans (Nat.lt_succ_self _)
    | remove other =>
        rw [remove_get] at found
        by_cases same : other = id
        · rw [if_pos same] at found
          contradiction
        · rw [if_neg same] at found
          exact issues.known id item found

/-- A handle that was given out keeps its item until it is removed. -/
theorem Moves.get (moves : Moves registry removed moved) (old : id < registry.nextId) :
    moved.get id = if removed = some id then none else registry.get id := by
  cases moves with
  | same => rfl
  | insert item =>
      rw [insert_get, if_neg (ne_of_gt old)]
      rfl
  | remove other =>
      rw [remove_get]
      simp only [Option.some.injEq]

section Runs

variable {S A : Type} {step : S → A → S} {registry : S → HandleRegistry T} {frees : A → Option UInt64}

theorem run_issues (moves : ∀ state action, Moves (registry state) (frees action) (registry (step state action)))
    (actions : List A) {state : S} {count : Nat} (issues : Issues count (registry state))
    (room : count + actions.length + 1 < 2 ^ 64) :
    Issues (count + actions.length) (registry (actions.foldl step state)) := by
  induction actions generalizing state count with
  | nil => exact issues
  | cons action actions hypothesis =>
      rw [List.length_cons] at room ⊢
      have stepped := (moves state action).issues issues (by omega)
      rw [show count + (actions.length + 1) = count + 1 + actions.length by omega]
      exact hypothesis stepped (by omega)

/-- Through a run, a handle that was given out keeps its item until it is removed. -/
theorem run_get (moves : ∀ state action, Moves (registry state) (frees action) (registry (step state action)))
    (actions : List A) {state : S} {count : Nat} (issues : Issues count (registry state))
    (room : count + actions.length + 1 < 2 ^ 64) (old : id < (registry state).nextId) :
    (registry (actions.foldl step state)).get id =
      if some id ∈ actions.map frees then none else (registry state).get id := by
  induction actions generalizing state count with
  | nil => rfl
  | cons action actions hypothesis =>
      rw [List.length_cons] at room
      have move := moves state action
      rw [List.foldl_cons, hypothesis (move.issues issues (by omega)) (by omega)
        (lt_of_lt_of_le old (move.next issues (by omega))), move.get old, List.map_cons]
      simp only [List.mem_cons, @eq_comm _ (some id) (frees action)]
      by_cases freed : frees action = some id
      · rw [if_pos freed, if_pos (Or.inl freed), ite_self]
      · simp only [freed, if_false, false_or]

end Runs

end HandleRegistry

/-- A store with the directory that it locks. -/
structure OpenStore where
  path : Text
  store : Store

inductive CCall where
  | storeOpen (path : Text)
  | storeClose (handle : UInt64)
  | queryExecute (store : UInt64) (query : Text)
  | resultRowCount (handle : UInt64)
  | resultFree (handle : UInt64)
  deriving DecidableEq

namespace CCall

def closes : CCall → Option UInt64
  | .storeClose handle => some handle
  | _ => none

def frees : CCall → Option UInt64
  | .resultFree handle => some handle
  | _ => none

theorem mem_frees {calls : List CCall} {id : UInt64} :
    some id ∈ calls.map frees ↔ .resultFree id ∈ calls := by
  rw [List.mem_map]
  constructor
  · rintro ⟨call, member, freed⟩
    cases call with
    | resultFree handle =>
        rw [frees, Option.some.injEq] at freed
        rwa [← freed]
    | _ => cases freed
  · exact fun member => ⟨_, member, rfl⟩

theorem mem_closes {calls : List CCall} {id : UInt64} :
    some id ∈ calls.map closes ↔ .storeClose id ∈ calls := by
  rw [List.mem_map]
  constructor
  · rintro ⟨call, member, closed⟩
    cases call with
    | storeClose handle =>
        rw [closes, Option.some.injEq] at closed
        rwa [← closed]
    | _ => cases closed
  · exact fun member => ⟨_, member, rfl⟩

end CCall

variable [Binary64]

/-- The directories, and what was opened and asked through handles. -/
structure CApi where
  files : Text → Option Disk
  stores : HandleRegistry OpenStore
  results : HandleRegistry QueryResult

/-- A status, with the handle that a success writes out, or a number of rows. -/
inductive CReply where
  | status (code : Int)
  | issued (handle : UInt64)
  | count (rows : Nat)
  deriving DecidableEq

def success : Int := 0

def invalidArgument : Int := -1

def notFound : Int := -2

def executionFailed : Int := -3

def panicked : Int := -4

def defaultBudget : QueryBudget := ⟨some 1000, some 100000, some (64 * 1024 * 1024)⟩

/-- The front of the text names its language. -/
def parseCommand [Unicode] (query : Text) : Except SqlError LogicalPlan :=
  let trimmed := Text.trim query
  if Text.startsWith trimmed "tn:".toList || Text.startsWith trimmed "#".toList ||
      Text.startsWith trimmed "$".toList then
    refuse (parseCompactTem query)
  else if Text.startsWith (trimmed.map Char.toLower) "select".toList then parseSql query
  else refuse (parseTemql query)

namespace CApi

def start (files : Text → Option Disk) : CApi := ⟨files, .new, .new⟩

/-- An open store holds the lock of its directory. -/
def Locked (api : CApi) (path : Text) : Prop := ∃ entry ∈ api.stores.items.toList, entry.2.path = path

instance (api : CApi) (path : Text) : Decidable (api.Locked path) :=
  inferInstanceAs (Decidable (∃ entry ∈ api.stores.items.toList, entry.2.path = path))

def setFiles (api : CApi) (path : Text) (disk : Disk) : Text → Option Disk :=
  fun other => if other = path then some disk else api.files other

variable [Crc32fast]

def storeOpen (api : CApi) (path : Text) : CApi × CReply :=
  match api.files path with
  | none => (api, .status executionFailed)
  | some disk =>
      if api.Locked path then (api, .status executionFailed)
      else
        match Store.openStore Limits.default .rejectIncompleteTail disk with
        | (.ok (store, _), reached) =>
            let (stores, handle) := api.stores.insert ⟨path, store⟩
            (⟨api.setFiles path reached, stores, api.results⟩, .issued handle)
        | (.error _, reached) =>
            (⟨api.setFiles path reached, api.stores, api.results⟩, .status executionFailed)

omit [Crc32fast] in
def storeClose (api : CApi) (handle : UInt64) : CApi × CReply :=
  let (stores, removed) := api.stores.remove handle
  (⟨api.files, stores, api.results⟩, .status (if removed then success else notFound))

variable [Unicode]

/-- What a query returns on an open store. -/
def execute (files : Text → Option Disk) (entry : OpenStore) (query : Text) : Except Int QueryResult := do
  let logical ← (parseCommand query).mapError fun error =>
    match error with
    | .refused _ => invalidArgument
    | .panicked => panicked
  match files entry.path with
  | none => throw executionFailed
  | some disk =>
      (executeStorageScan entry.store disk (planQuery logical) defaultBudget).mapError fun _ => executionFailed

def queryExecute (api : CApi) (handle : UInt64) (query : Text) : CApi × CReply :=
  match api.stores.get handle with
  | none => (api, .status notFound)
  | some entry =>
      match execute api.files entry query with
      | .error code => (api, .status code)
      | .ok result =>
          let (results, handle) := api.results.insert result
          (⟨api.files, api.stores, results⟩, .issued handle)

omit [Crc32fast] [Unicode] in
def resultRowCount (api : CApi) (handle : UInt64) : CApi × CReply :=
  (api, .count (((api.results.get handle).map (·.rows.length)).getD 0))

omit [Crc32fast] [Unicode] in
def resultFree (api : CApi) (handle : UInt64) : CApi × CReply :=
  let (results, removed) := api.results.remove handle
  (⟨api.files, api.stores, results⟩, .status (if removed then success else notFound))

def call (api : CApi) : CCall → CApi × CReply
  | .storeOpen path => api.storeOpen path
  | .storeClose handle => api.storeClose handle
  | .queryExecute handle query => api.queryExecute handle query
  | .resultRowCount handle => api.resultRowCount handle
  | .resultFree handle => api.resultFree handle

def step (api : CApi) (call : CCall) : CApi := (api.call call).1

def reply (api : CApi) (call : CCall) : CReply := (api.call call).2

def run (api : CApi) (calls : List CCall) : CApi := calls.foldl step api

variable {api : CApi}

omit [Unicode] in
/-- A directory opens under a new handle, or no handle changes. -/
theorem storeOpen_cases (api : CApi) (path : Text) :
    (∃ disk store recovery reached, api.files path = some disk ∧ ¬ api.Locked path ∧
        Store.openStore Limits.default .rejectIncompleteTail disk = (.ok (store, recovery), reached) ∧
        api.storeOpen path =
          (⟨api.setFiles path reached, (api.stores.insert ⟨path, store⟩).1, api.results⟩,
            .issued api.stores.nextId)) ∨
      ∃ files, api.storeOpen path = (⟨files, api.stores, api.results⟩, .status executionFailed) := by
  unfold storeOpen
  cases found : api.files path with
  | none => exact Or.inr ⟨api.files, rfl⟩
  | some disk =>
      by_cases locked : api.Locked path
      · exact Or.inr ⟨api.files, if_pos locked⟩
      · simp only [if_neg locked]
        cases opening : Store.openStore Limits.default .rejectIncompleteTail disk with
        | mk outcome reached =>
            cases outcome with
            | error error => exact Or.inr ⟨_, rfl⟩
            | ok opened => exact Or.inl ⟨disk, opened.1, opened.2, reached, rfl, locked, opening, rfl⟩

/-- A query puts its result under a new handle, or nothing changes. -/
theorem queryExecute_cases (api : CApi) (handle : UInt64) (query : Text) :
    (∃ entry result, api.stores.get handle = some entry ∧ execute api.files entry query = .ok result ∧
        api.queryExecute handle query =
          (⟨api.files, api.stores, (api.results.insert result).1⟩, .issued api.results.nextId)) ∨
      ∃ code, api.queryExecute handle query = (api, .status code) := by
  unfold queryExecute
  cases found : api.stores.get handle with
  | none => exact Or.inr ⟨notFound, rfl⟩
  | some entry =>
      cases executed : execute api.files entry query with
      | error code => exact Or.inr ⟨code, by simp only [executed]⟩
      | ok result => exact Or.inl ⟨entry, result, rfl, executed, by simp only [executed]; rfl⟩

theorem step_stores (api : CApi) (call : CCall) :
    api.stores.Moves call.closes (api.step call).stores := by
  cases call with
  | storeOpen path =>
      change api.stores.Moves none (api.storeOpen path).1.stores
      obtain ⟨_, store, _, _, _, _, _, opened⟩ | ⟨files, refused⟩ := api.storeOpen_cases path
      · rw [opened]
        exact .insert _
      · rw [refused]
        exact .same
  | storeClose handle => exact .remove handle
  | queryExecute handle query =>
      change api.stores.Moves none (api.queryExecute handle query).1.stores
      obtain ⟨_, _, _, _, executed⟩ | ⟨code, refused⟩ := api.queryExecute_cases handle query
      · rw [executed]
        exact .same
      · rw [refused]
        exact .same
  | resultRowCount handle => exact .same
  | resultFree handle => exact .same

theorem step_results (api : CApi) (call : CCall) :
    api.results.Moves call.frees (api.step call).results := by
  cases call with
  | storeOpen path =>
      change api.results.Moves none (api.storeOpen path).1.results
      obtain ⟨_, store, _, _, _, _, _, opened⟩ | ⟨files, refused⟩ := api.storeOpen_cases path
      · rw [opened]
        exact .same
      · rw [refused]
        exact .same
  | storeClose handle => exact .same
  | queryExecute handle query =>
      change api.results.Moves none (api.queryExecute handle query).1.results
      obtain ⟨_, result, _, _, executed⟩ | ⟨code, refused⟩ := api.queryExecute_cases handle query
      · rw [executed]
        exact .insert _
      · rw [refused]
        exact .same
  | resultRowCount handle => exact .same
  | resultFree handle => exact .remove handle

omit [Crc32fast] [Unicode] in
theorem locked_iff {path : Text} :
    api.Locked path ↔ ∃ id entry, api.stores.get id = some entry ∧ entry.path = path := by
  constructor
  · rintro ⟨entry, member, located⟩
    exact ⟨entry.1, entry.2, OrderedMap.mem_toList.mp member, located⟩
  · rintro ⟨id, entry, found, located⟩
    exact ⟨(id, entry), OrderedMap.mem_toList.mpr found, located⟩

/-- No two handles stand for one directory. -/
def Exclusive (api : CApi) : Prop :=
  ∀ first second one other, api.stores.get first = some one → api.stores.get second = some other →
    one.path = other.path → first = second

omit [Unicode] in
theorem Exclusive.storeOpen (exclusive : api.Exclusive) (path : Text) : (api.storeOpen path).1.Exclusive := by
  obtain ⟨_, store, _, _, _, unlocked, _, opened⟩ | ⟨files, refused⟩ := api.storeOpen_cases path
  · rw [opened]
    have other_path : ∀ id entry, api.stores.get id = some entry → entry.path ≠ path :=
      fun id entry found located => unlocked (locked_iff.mpr ⟨id, entry, found, located⟩)
    intro first second one other first_found second_found same
    rw [HandleRegistry.insert_get] at first_found second_found
    by_cases first_new : api.stores.nextId = first
    · by_cases second_new : api.stores.nextId = second
      · rw [← first_new, ← second_new]
      · rw [if_pos first_new, Option.some.injEq] at first_found
        rw [if_neg second_new] at second_found
        rw [← first_found] at same
        exact absurd same.symm (other_path second other second_found)
    · by_cases second_new : api.stores.nextId = second
      · rw [if_neg first_new] at first_found
        rw [if_pos second_new, Option.some.injEq] at second_found
        rw [← second_found] at same
        exact absurd same (other_path first one first_found)
      · rw [if_neg first_new] at first_found
        rw [if_neg second_new] at second_found
        exact exclusive first second one other first_found second_found same
  · rw [refused]
    exact exclusive

theorem Exclusive.step (exclusive : api.Exclusive) (call : CCall) : (api.step call).Exclusive := by
  cases call with
  | storeOpen path => exact exclusive.storeOpen path
  | storeClose handle =>
      have remaining : ∀ id entry, (api.stores.remove handle).1.get id = some entry →
          api.stores.get id = some entry := by
        intro id entry found
        rw [HandleRegistry.remove_get] at found
        split at found
        · contradiction
        · exact found
      intro first second one other first_found second_found
      exact exclusive first second one other (remaining first one first_found) (remaining second other second_found)
  | queryExecute handle query =>
      change (api.queryExecute handle query).1.Exclusive
      obtain ⟨_, _, _, _, executed⟩ | ⟨code, refused⟩ := api.queryExecute_cases handle query
      · rw [executed]
        exact exclusive
      · rw [refused]
        exact exclusive
  | resultRowCount handle => exact exclusive
  | resultFree handle => exact exclusive

/-- No call touches a directory that another handle holds open. -/
theorem step_files {path : Text} (locked : api.Locked path) (call : CCall) :
    (api.step call).files path = api.files path := by
  cases call with
  | storeOpen other =>
      change (api.storeOpen other).1.files path = _
      unfold CApi.storeOpen
      cases api.files other with
      | none => rfl
      | some disk =>
          by_cases same : path = other
          · rw [same] at locked
            simp only [if_pos locked]
          · dsimp only
            split
            · rfl
            · split
              · exact if_neg same
              · exact if_neg same
  | storeClose handle => rfl
  | queryExecute handle query =>
      change (api.queryExecute handle query).1.files path = _
      obtain ⟨_, _, _, _, executed⟩ | ⟨code, refused⟩ := api.queryExecute_cases handle query
      · rw [executed]
      · rw [refused]
  | resultRowCount handle => rfl
  | resultFree handle => rfl

omit [Binary64] [Unicode] in
/-- The directory of every path is that of a fresh store. -/
def sampleFiles : Text → Option Disk := fun _ => some (System.fresh sampleDatabase 1 1 Limits.default).disk

omit [Binary64] [Unicode] in
theorem sample_opens :
    Store.openStore Limits.default .rejectIncompleteTail (System.fresh sampleDatabase 1 1 Limits.default).disk =
      (.ok (startStore ⟨sampleDatabase, 1, 1⟩ Limits.default 0, ⟨0, 0⟩),
        (System.fresh sampleDatabase 1 1 Limits.default).disk) := by
  have sound : validateLimits Limits.default = .ok () := by decide
  unfold Store.openStore
  rw [Procedure.bind_of_ok (Procedure.read_apply _), opening_ok (List.append_nil _).symm sound]
  rfl

omit [Unicode] in
theorem sample_storeOpen (path : Text) : (start sampleFiles).storeOpen path =
    (⟨(start sampleFiles).setFiles path (System.fresh sampleDatabase 1 1 Limits.default).disk,
      (HandleRegistry.new.insert ⟨path, startStore ⟨sampleDatabase, 1, 1⟩ Limits.default 0⟩).1, .new⟩,
      .issued 1) := by
  have unlocked : ¬ (start sampleFiles).Locked path := by
    rw [locked_iff]
    rintro ⟨id, entry, found, -⟩
    change (HandleRegistry.new : HandleRegistry OpenStore).get id = _ at found
    rw [HandleRegistry.new_get] at found
    contradiction
  unfold storeOpen
  change (if (start sampleFiles).Locked path then _ else _) = _
  rw [if_neg unlocked, sample_opens]
  rfl

section Lifetimes

variable {files : Text → Option Disk} {earlier later : List CCall} {handle id : UInt64} {query path : Text}

theorem run_append (earlier later : List CCall) : api.run (earlier ++ later) = (api.run earlier).run later :=
  List.foldl_append

theorem run_stores_issues (room : earlier.length + 1 < 2 ^ 64) :
    ((start files).run earlier).stores.Issues earlier.length := by
  have issues : ((start files).run earlier).stores.Issues (0 + earlier.length) :=
    HandleRegistry.run_issues step_stores earlier .new (by omega)
  rwa [Nat.zero_add] at issues

theorem run_results_issues (room : earlier.length + 1 < 2 ^ 64) :
    ((start files).run earlier).results.Issues earlier.length := by
  have issues : ((start files).run earlier).results.Issues (0 + earlier.length) :=
    HandleRegistry.run_issues step_results earlier .new (by omega)
  rwa [Nat.zero_add] at issues

/-- A result lasts under a handle of its own until the handle is freed, whatever becomes of its store. -/
theorem results_last (issued : ((start files).run earlier).reply (.queryExecute handle query) = .issued id)
    (room : earlier.length + later.length + 2 < 2 ^ 64) :
    ∃ entry result,
      ((start files).run earlier).stores.get handle = some entry ∧
        execute ((start files).run earlier).files entry query = .ok result ∧
        ((start files).run earlier).results.get id = none ∧
        ((start files).run (earlier ++ .queryExecute handle query :: later)).reply (.resultRowCount id) =
          .count (if .resultFree id ∈ later then 0 else result.rows.length) ∧
        ((start files).run (earlier ++ .queryExecute handle query :: later)).reply (.resultFree id) =
          .status (if .resultFree id ∈ later then notFound else success) := by
  have issues : ((start files).run earlier).results.Issues earlier.length := run_results_issues (by omega)
  rw [run_append]
  generalize (start files).run earlier = api at issued issues
  obtain ⟨entry, result, found, executed, asked⟩ | ⟨code, refused⟩ := api.queryExecute_cases handle query
  · have given : api.results.nextId = id := by
      change (api.queryExecute handle query).2 = .issued id at issued
      rwa [asked, CReply.issued.injEq] at issued
    have fresh : api.results.get id = none := by
      by_contra known
      obtain ⟨item, item_found⟩ := Option.ne_none_iff_exists'.mp known
      exact absurd given.symm (ne_of_lt (issues.known id item item_found))
    have stepped : (api.step (.queryExecute handle query)).results = (api.results.insert result).1 := by
      change (api.queryExecute handle query).1.results = _
      rw [asked]
    have old : id < (api.step (.queryExecute handle query)).results.nextId := by
      rw [stepped, UInt64.lt_iff_toNat_lt, issues.insert_next result (by omega), given]
      exact Nat.lt_succ_self _
    have kept := HandleRegistry.run_get step_results later
      ((step_results api (.queryExecute handle query)).issues issues (by omega)) (by omega) old
    rw [stepped, HandleRegistry.insert_get, if_pos given] at kept
    simp only [CCall.mem_frees] at kept
    refine ⟨entry, result, found, executed, fresh, ?_, ?_⟩
    · change CReply.count (((HandleRegistry.get _ id).map fun (result : QueryResult) => result.rows.length).getD 0) = _
      change HandleRegistry.get (run _ (_ :: later)).results id = _ at kept
      rw [kept]
      split <;> rfl
    · change CReply.status (if (HandleRegistry.get _ id).isSome then success else notFound) = _
      change HandleRegistry.get (run _ (_ :: later)).results id = _ at kept
      rw [kept]
      split <;> rfl
  · change (api.queryExecute handle query).2 = .issued id at issued
    rw [refused] at issued
    cases issued

omit [Crc32fast] [Binary64] [Unicode] in
/-- The result of a query outlives the store. -/
theorem results_last_sample :
    letI := Crc32fast.ieee
    letI := Binary64.exact
    letI := Unicode.ascii
    ((start sampleFiles).run ([.storeOpen "here".toList] ++
      .queryExecute 1 "FROM temnion".toList :: [.storeClose 1])).reply (.resultFree 1) = .status success := by
  let := Binary64.exact
  let := Unicode.ascii
  generalize Crc32fast.ieee = checksum
  have opened : (start sampleFiles).run [.storeOpen "here".toList] =
      ((start sampleFiles).storeOpen "here".toList).1 := rfl
  have issued : ((start sampleFiles).run [.storeOpen "here".toList]).reply (.queryExecute 1 "FROM temnion".toList) =
      .issued 1 := by
    rw [opened, sample_storeOpen]
    rfl
  have room : [CCall.storeOpen "here".toList].length + [CCall.storeClose 1].length + 2 < 2 ^ 64 := by decide
  obtain ⟨entry, result, -, -, -, -, freed⟩ := results_last issued room
  exact freed

theorem run_exclusive (calls : List CCall) : ((start files).run calls).Exclusive := by
  refine List.foldlRecOn calls step (motive := Exclusive) ?_ fun api exclusive call _ => exclusive.step call
  intro first second one other found
  change (HandleRegistry.new : HandleRegistry OpenStore).get first = some one at found
  rw [HandleRegistry.new_get] at found
  contradiction

/-- A run that does not close a handle keeps its store, and the files of its directory. -/
theorem run_held {count : Nat} {entry : OpenStore} (issues : api.stores.Issues count)
    (old : id < api.stores.nextId) (found : api.stores.get id = some entry) (kept : .storeClose id ∉ later)
    (room : count + later.length + 1 < 2 ^ 64) :
    (api.run later).stores.get id = some entry ∧ (api.run later).files entry.path = api.files entry.path := by
  induction later generalizing api count with
  | nil => exact ⟨found, rfl⟩
  | cons call later hypothesis =>
      rw [List.mem_cons, not_or] at kept
      rw [List.length_cons] at room
      have move := step_stores api call
      have open_still : call.closes ≠ some id := fun closed =>
        kept.1 (List.mem_singleton.mp (CCall.mem_closes.mp (List.mem_singleton.mpr closed.symm)))
      have held : (api.step call).stores.get id = some entry := by
        rw [move.get old, if_neg open_still, found]
      have locked : api.Locked entry.path := locked_iff.mpr ⟨id, entry, found, rfl⟩
      have later_on := hypothesis (move.issues issues (by omega))
        (lt_of_lt_of_le old (move.next issues (by omega))) held kept.2 (by omega)
      exact ⟨later_on.1, later_on.2.trans (step_files locked call)⟩

/-- While the handle that opened a directory is not closed, the directory neither opens again nor changes. -/
theorem stores_last (opened : ((start files).run earlier).reply (.storeOpen path) = .issued id)
    (kept : .storeClose id ∉ later) (room : earlier.length + later.length + 2 < 2 ^ 64) :
    ∃ entry,
      entry.path = path ∧
        ((start files).run (earlier ++ .storeOpen path :: later)).stores.get id = some entry ∧
        (∀ query, execute ((start files).run (earlier ++ .storeOpen path :: later)).files entry query =
          execute ((start files).run (earlier ++ [.storeOpen path])).files entry query) ∧
        ((start files).run (earlier ++ .storeOpen path :: later)).reply (.storeOpen path) =
          .status executionFailed ∧
        ∀ other held, ((start files).run (earlier ++ .storeOpen path :: later)).stores.get other = some held →
          held.path = path → other = id := by
  have issues : ((start files).run earlier).stores.Issues earlier.length := run_stores_issues (by omega)
  have exclusive : ((start files).run (earlier ++ .storeOpen path :: later)).Exclusive := run_exclusive _
  rw [run_append] at exclusive ⊢
  rw [run_append]
  generalize (start files).run earlier = api at opened issues exclusive
  obtain ⟨_, store, _, reached, _, unlocked, _, asked⟩ | ⟨files, refused⟩ := api.storeOpen_cases path
  · have given : api.stores.nextId = id := by
      change (api.storeOpen path).2 = .issued id at opened
      rwa [asked, CReply.issued.injEq] at opened
    have stepped : (api.step (.storeOpen path)).stores = (api.stores.insert ⟨path, store⟩).1 := by
      change (api.storeOpen path).1.stores = _
      rw [asked]
    have old : id < (api.step (.storeOpen path)).stores.nextId := by
      rw [stepped, UInt64.lt_iff_toNat_lt, issues.insert_next _ (by omega), given]
      exact Nat.lt_succ_self _
    have found : (api.step (.storeOpen path)).stores.get id = some ⟨path, store⟩ := by
      rw [stepped, HandleRegistry.insert_get, if_pos given]
    obtain ⟨held, same_files⟩ :=
      run_held ((step_stores api (.storeOpen path)).issues issues (by omega)) old found kept (by omega)
    change (api.run (.storeOpen path :: later)).stores.get id = _ at held
    refine ⟨⟨path, store⟩, rfl, held, fun query => ?_, ?_, fun other entry other_found located => ?_⟩
    · unfold execute
      change (api.run (.storeOpen path :: later)).files path = (api.run [.storeOpen path]).files path at same_files
      rw [same_files]
    · have locked := locked_iff.mpr ⟨id, _, held, rfl⟩
      obtain ⟨_, _, _, _, _, unlocked, _⟩ | ⟨files, refused⟩ :=
        (api.run (.storeOpen path :: later)).storeOpen_cases path
      · exact absurd locked unlocked
      · change (storeOpen _ path).2 = _
        rw [refused]
    · exact exclusive other id entry _ other_found held located
  · change (api.storeOpen path).2 = .issued id at opened
    rw [refused] at opened
    cases opened

omit [Crc32fast] [Binary64] [Unicode] in
/-- An open directory does not open twice. -/
theorem stores_last_sample :
    letI := Crc32fast.ieee
    letI := Binary64.exact
    letI := Unicode.ascii
    ((start sampleFiles).run
      ([] ++ .storeOpen "here".toList :: [.storeOpen "there".toList, .storeClose 2])).reply
      (.storeOpen "here".toList) = .status executionFailed := by
  let := Binary64.exact
  let := Unicode.ascii
  generalize Crc32fast.ieee = checksum
  have opened : ((start sampleFiles).run []).reply (.storeOpen "here".toList) = .issued 1 := by
    change ((start sampleFiles).storeOpen "here".toList).2 = _
    rw [sample_storeOpen]
  have kept : CCall.storeClose 1 ∉ [.storeOpen "there".toList, .storeClose 2] := by decide
  obtain ⟨entry, -, -, -, refused, -⟩ :=
    stores_last opened kept (by decide)
  exact refused

end Lifetimes

end CApi

end Temnion.Protocol
