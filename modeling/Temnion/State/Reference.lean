import Temnion.State.Handles

/-
This file compares every run of a slab with a finite map from handles to values.
-/

namespace Temnion.State

/-- What a caller may ask of a slab. A mutable reference is asked for together with the change it is used for. -/
inductive Command (T : Type) where
  | insert (value : T)
  | get (id : EntityId)
  | getMut (id : EntityId) (change : T → T)
  | remove (id : EntityId)

inductive Reply (T : Type) where
  | handle (id : EntityId)
  | value (value : T)
  | failed (error : StateError)

namespace StateSlab

variable {T : Type}

def replyOf : Except StateError T → Reply T
  | .ok value => .value value
  | .error error => .failed error

def step (slab : StateSlab T) : Command T → Reply T × StateSlab T
  | .insert value =>
      match slab.insert value with
      | (.ok handle, reached) => (.handle handle, reached)
      | (.error error, reached) => (.failed error, reached)
  | .get id => (replyOf (slab.get id), slab)
  | .getMut id change => (replyOf (slab.getMut id change).1, (slab.getMut id change).2)
  | .remove id => (replyOf (slab.remove id).1, (slab.remove id).2)

/-- The replies to the commands, and the slab after the last of them. -/
def run (slab : StateSlab T) : List (Command T) → List (Reply T) × StateSlab T
  | [] => ([], slab)
  | command :: commands =>
      let (reply, next) := slab.step command
      let (replies, last) := next.run commands
      (reply :: replies, last)

end StateSlab

/-- The purpose of a slab: the handles returned so far, and the values of those that were not removed. -/
structure Reference (T : Type) where
  issued : Set EntityId
  live : EntityId → Option T

namespace Reference

variable {T : Type}

def empty : Reference T := ⟨∅, fun _ => none⟩

/-- Every slot either has a live handle or returned its last one, and a slot has 2 ^ 32 handles. -/
def Full (capacity : Nat) (reference : Reference T) : Prop :=
  ∀ number < capacity, ∃ id ∈ reference.issued, id.slot.toNat = number ∧
    ((reference.live id).isSome ∨ id.generation = 0xFFFFFFFF)

/-- What the map answers to a command. A failed command changes nothing. -/
inductive Answers (capacity : Nat) (reference : Reference T) : Command T → Reply T → Reference T → Prop where
  | inserted {value : T} {handle : EntityId} (room : ¬reference.Full capacity) (fresh : handle ∉ reference.issued) :
      Answers capacity reference (.insert value) (.handle handle)
        ⟨insert handle reference.issued, Function.update reference.live handle (some value)⟩
  | full {value : T} (full : reference.Full capacity) :
      Answers capacity reference (.insert value) (.failed .capacityExceeded) reference
  | got {id : EntityId} {value : T} (live : reference.live id = some value) :
      Answers capacity reference (.get id) (.value value) reference
  | changed {id : EntityId} {value : T} {change : T → T} (live : reference.live id = some value) :
      Answers capacity reference (.getMut id change) (.value value)
        ⟨reference.issued, Function.update reference.live id (some (change value))⟩
  | removed {id : EntityId} {value : T} (live : reference.live id = some value) :
      Answers capacity reference (.remove id) (.value value) ⟨reference.issued, Function.update reference.live id none⟩
  | invalidGet {id : EntityId} (absent : reference.live id = none) :
      Answers capacity reference (.get id) (.failed (.invalidEntity id)) reference
  | invalidMut {id : EntityId} {change : T → T} (absent : reference.live id = none) :
      Answers capacity reference (.getMut id change) (.failed (.invalidEntity id)) reference
  | invalidRemove {id : EntityId} (absent : reference.live id = none) :
      Answers capacity reference (.remove id) (.failed (.invalidEntity id)) reference

/-- The map gives these replies to these commands, one after the other. -/
inductive Behaves (capacity : Nat) : Reference T → List (Command T) → List (Reply T) → Reference T → Prop where
  | nil {reference : Reference T} : Behaves capacity reference [] [] reference
  | cons {first next last : Reference T} {command : Command T} {reply : Reply T} {commands : List (Command T)}
      {replies : List (Reply T)} (answers : Answers capacity first command reply next)
      (rest : Behaves capacity next commands replies last) :
      Behaves capacity first (command :: commands) (reply :: replies) last

end Reference

/-- The map that a slab stands for. -/
structure StateSlab.Represents {T : Type} (slab : StateSlab T) (reference : Reference T) : Prop where
  well : slab.Well none
  issued : ∀ id, id ∈ reference.issued ↔ slab.Issued id
  live : ∀ id value, reference.live id = some value ↔ slab.get id = .ok value

namespace StateSlab

variable {T : Type} {slab : StateSlab T} {reference : Reference T}

theorem Represents.absent (represents : slab.Represents reference) {id : EntityId} {error : StateError}
    (failed : slab.get id = .error error) : reference.live id = none := by
  rw [Option.eq_none_iff_forall_ne_some]
  intro value live
  rw [(represents.live id value).mp live] at failed
  contradiction

theorem Represents.full_iff (represents : slab.Represents reference) : reference.Full slab.capacity ↔ slab.Full := by
  have same : ∀ id, (reference.live id).isSome ↔ ∃ value, slab.get id = .ok value := by
    intro id
    simp only [Option.isSome_iff_exists, represents.live]
  simp only [Reference.Full, StateSlab.Full, represents.issued, same]

theorem new_represents {shard : ShardId} {capacity : Nat} (created : StateSlab.new shard capacity = .ok slab) :
    slab.Represents Reference.empty ∧ slab.capacity = capacity := by
  obtain ⟨bound, rfl⟩ := new_ok.mp created
  refine ⟨⟨new_well bound, fun id => ?_, fun id value => ?_⟩, rfl⟩
  · refine iff_of_false (Set.notMem_empty id) ?_
    rintro ⟨_, slot, absent, _⟩
    contradiction
  · refine iff_of_false (fun absent => nomatch absent) fun got => ?_
    obtain ⟨_, slot, absent, _⟩ := get_ok.mp got
    contradiction

/-- Every reply of a slab is the answer of its map. -/
theorem Represents.step (represents : slab.Represents reference) (command : Command T) :
    ∃ next, Reference.Answers slab.capacity reference command (slab.step command).1 next ∧
      (slab.step command).2.Represents next ∧ (slab.step command).2.capacity = slab.capacity := by
  have well := represents.well
  cases command with
  | insert value =>
      rcases insert_cases well value with ⟨full, ends⟩ | ⟨room, handle, reached, ends, next, capacity, fresh, issued, get⟩
      · rw [StateSlab.step, ends]
        exact ⟨reference, .full (represents.full_iff.mpr full), represents, rfl⟩
      · rw [StateSlab.step, ends]
        refine ⟨_, .inserted (mt represents.full_iff.mp room) (mt (represents.issued handle).mp fresh),
          ⟨next, fun id => ?_, fun id result => ?_⟩, capacity⟩
        · rw [issued, ← represents.issued, Set.mem_insert_iff]
        · rw [get, ← represents.live]
          by_cases same : id = handle
          · have before : reference.live id ≠ some result := by
              intro live
              have got := (represents.live id result).mp live
              obtain ⟨shard, slot, found, generation, filled, _⟩ := get_ok.mp got
              apply fresh
              rw [← same]
              refine ⟨shard, slot, found, Or.inr ⟨generation, fun member => ?_⟩⟩
              obtain ⟨_, other, there, vacancy⟩ := well.free _ member
              obtain rfl := Option.some.inj (found.symm.trans there)
              exact filled vacancy
            rw [same] at before
            simp [same, before]
          · simp [same]
  | get id =>
      rcases well.get_cases id with ⟨_, value, _, _, got⟩ | ⟨_, failed⟩
      · rw [StateSlab.step, got]
        exact ⟨reference, .got ((represents.live id value).mpr got), represents, rfl⟩
      · rw [StateSlab.step, failed]
        exact ⟨reference, .invalidGet (represents.absent failed), represents, rfl⟩
  | getMut id change =>
      rcases getMut_cases well id change with ⟨value, reached, got, ends, next, capacity, issued, get⟩ | ⟨failed, ends⟩
      · rw [StateSlab.step, ends]
        refine ⟨_, .changed ((represents.live id value).mpr got), ⟨next, fun other => ?_, fun other result => ?_⟩, capacity⟩
        · rw [issued, ← represents.issued]
        · rw [get, ← represents.live]
          by_cases same : other = id
          · simp [same]
          · simp [same]
      · rw [StateSlab.step, ends]
        exact ⟨reference, .invalidMut (represents.absent failed), represents, rfl⟩
  | remove id =>
      rcases remove_cases well id with ⟨value, reached, got, ends, next, capacity, issued, get⟩ | ⟨failed, ends⟩
      · rw [StateSlab.step, ends]
        refine ⟨_, .removed ((represents.live id value).mpr got), ⟨next, fun other => ?_, fun other result => ?_⟩, capacity⟩
        · rw [issued, ← represents.issued]
        · rw [get, ← represents.live]
          by_cases same : other = id
          · simp [same]
          · simp [same]
      · rw [StateSlab.step, ends]
        exact ⟨reference, .invalidRemove (represents.absent failed), represents, rfl⟩

/-- Every run of a slab is a run of its map. -/
theorem Represents.run (represents : slab.Represents reference) (commands : List (Command T)) :
    ∃ last, Reference.Behaves slab.capacity reference commands (slab.run commands).1 last ∧
      (slab.run commands).2.Represents last := by
  induction commands generalizing slab reference with
  | nil => exact ⟨reference, .nil, represents⟩
  | cons command commands ih =>
      obtain ⟨next, answers, represents, capacity⟩ := represents.step command
      obtain ⟨last, behaves, final⟩ := ih represents
      rw [capacity] at behaves
      exact ⟨last, .cons answers behaves, final⟩

/-- A slab answers every run of commands as a finite map from handles to values does, and its iteration yields every
live handle once with its value. -/
theorem run_behaves_as_map {shard : ShardId} {capacity : Nat} (commands : List (Command T))
    (created : StateSlab.new shard capacity = .ok slab) :
    ∃ last, Reference.Behaves capacity Reference.empty commands (slab.run commands).1 last ∧
      ((slab.run commands).2.iter.map Prod.fst).Nodup ∧
      ∀ id value, (id, value) ∈ (slab.run commands).2.iter ↔ last.live id = some value := by
  obtain ⟨represents, rfl⟩ := new_represents created
  obtain ⟨last, behaves, final⟩ := represents.run commands
  exact ⟨last, behaves, final.well.iter_nodup, fun id value => by rw [final.well.mem_iter, final.live]⟩

end StateSlab

theorem StateSlab.run_behaves_as_map_sample :
    ∃ last, Reference.Behaves 1 Reference.empty
      [.insert 5, .getMut ⟨7, 0, 0⟩ (· + 1), .get ⟨7, 0, 0⟩, .insert 8, .remove ⟨7, 0, 0⟩, .get ⟨7, 0, 0⟩, .insert 9]
      [.handle ⟨7, 0, 0⟩, .value 5, .value 6, .failed .capacityExceeded, .value 6, .failed (.invalidEntity ⟨7, 0, 0⟩),
        .handle ⟨7, 0, 1⟩] last ∧
      last.live ⟨7, 0, 1⟩ = some 9 := by
  have created : StateSlab.new 7 1 = .ok (StateSlab.mk 7 1 [] [] [] [] : StateSlab Nat) := rfl
  obtain ⟨last, behaves, _, live⟩ := StateSlab.run_behaves_as_map
    [.insert 5, .getMut ⟨7, 0, 0⟩ (· + 1), .get ⟨7, 0, 0⟩, .insert 8, .remove ⟨7, 0, 0⟩, .get ⟨7, 0, 0⟩, .insert 9] created
  exact ⟨last, behaves, (live _ _).mp (List.mem_singleton_self _)⟩

end Temnion.State
