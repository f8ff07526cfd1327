import Temnion.State.Slab
import Temnion.Library.Fallible

/-
This file shows that the slab behaves as a finite map from the handles that it returns to their values.
-/

namespace Temnion.State

open Dense

theorem toNat_ofNat_u32 {value : Nat} (fits : value < 2 ^ 32) : (UInt32.ofNat value).toNat = value :=
  UInt32.toNat_ofNat_of_lt' fits

/-- Two slots with the same number are the same slot. -/
theorem slot_eq {first second : UInt32} : first.toNat = second.toNat ↔ first = second := UInt32.toNat_inj

namespace StateSlab

variable {T : Type} {slab : StateSlab T} {id : EntityId}

theorem denseIndex_ok {index : Nat} : slab.denseIndex id = .ok index ↔
    id.shard = slab.shard ∧ ∃ slot, slab.slots[id.slot.toNat]? = some slot ∧ id.generation = slot.generation ∧
      slot.denseIndex ≠ vacant ∧ slot.denseIndex.toNat = index := by
  unfold denseIndex
  cases found : slab.slots[id.slot.toNat]? with
  | none => simp
  | some slot =>
      dsimp only
      split
      · next holds =>
          rw [Except.ok.injEq]
          constructor
          · intro same
            exact ⟨holds.1, slot, rfl, holds.2.1, holds.2.2, same⟩
          · rintro ⟨_, other, same, _, _, index⟩
            rw [Option.some.inj same]
            exact index
      · next fails =>
          refine iff_of_false (fun impossible => nomatch impossible) ?_
          rintro ⟨shard, other, same, generation, filled, _⟩
          obtain rfl := Option.some.inj same
          exact fails ⟨shard, generation, filled⟩

theorem valueAt_ok {index : Nat} {value : T} : slab.valueAt index = .ok value ↔ slab.values[index]? = some value := by
  unfold valueAt
  cases slab.values[index]? <;> simp

theorem get_ok {value : T} : slab.get id = .ok value ↔
    id.shard = slab.shard ∧ ∃ slot, slab.slots[id.slot.toNat]? = some slot ∧ id.generation = slot.generation ∧
      slot.denseIndex ≠ vacant ∧ slab.values[slot.denseIndex.toNat]? = some value := by
  unfold get
  rw [Except.bind_eq_ok]
  simp only [denseIndex_ok, valueAt_ok]
  constructor
  · rintro ⟨_, ⟨shard, slot, found, generation, filled, rfl⟩, holds⟩
    exact ⟨shard, slot, found, generation, filled, holds⟩
  · rintro ⟨shard, slot, found, generation, filled, holds⟩
    exact ⟨_, ⟨shard, slot, found, generation, filled, rfl⟩, holds⟩

theorem denseIndex_error {error : StateError} (failed : slab.denseIndex id = .error error) :
    error = .invalidEntity id := by
  unfold denseIndex at failed
  split at failed
  · split at failed
    · contradiction
    · exact (Except.error.inj failed).symm
  · exact (Except.error.inj failed).symm

/-- What links the four vectors of a slab. The slot in hand, if any, is about to receive a value. -/
structure Well (slab : StateSlab T) (inHand : Option UInt32) : Prop where
  capacity : slab.slots.length ≤ slab.capacity
  bound : slab.capacity < 2 ^ 32
  lengths : slab.denseSlots.length = slab.values.length
  dense : ∀ (index : Nat) (s : UInt32), slab.denseSlots[index]? = some s →
    ∃ slot, slab.slots[s.toNat]? = some slot ∧ slot.denseIndex ≠ vacant ∧ slot.denseIndex.toNat = index
  filled : ∀ (s : UInt32) (slot : Slot), slab.slots[s.toNat]? = some slot → slot.denseIndex ≠ vacant →
    slab.denseSlots[slot.denseIndex.toNat]? = some s
  free : ∀ s ∈ slab.freeSlots, some s ≠ inHand ∧ ∃ slot, slab.slots[s.toNat]? = some slot ∧ slot.denseIndex = vacant
  freeOnce : slab.freeSlots.Nodup
  held : ∀ s, inHand = some s → ∃ slot, slab.slots[s.toNat]? = some slot ∧ slot.denseIndex = vacant
  exhausted : ∀ (s : UInt32) (slot : Slot), slab.slots[s.toNat]? = some slot → slot.denseIndex = vacant →
    s ∉ slab.freeSlots → some s ≠ inHand → slot.generation = 0xFFFFFFFF

/-- The handle was returned by an insertion. -/
def Issued (slab : StateSlab T) (id : EntityId) : Prop :=
  id.shard = slab.shard ∧ ∃ slot, slab.slots[id.slot.toNat]? = some slot ∧
    (id.generation < slot.generation ∨ id.generation = slot.generation ∧ id.slot ∉ slab.freeSlots)

/-- Every index of a slot is the number of a slot. -/
theorem Well.index_lt {inHand : Option UInt32} (well : slab.Well inHand) {s : Nat} {slot : Slot}
    (found : slab.slots[s]? = some slot) : s < 2 ^ 32 := by
  obtain ⟨inside, _⟩ := List.getElem?_eq_some_iff.mp found
  have room := well.capacity
  have bound := well.bound
  omega

/-- No slot is listed twice among the dense slots. -/
theorem Well.dense_nodup {inHand : Option UInt32} (well : slab.Well inHand) : slab.denseSlots.Nodup := by
  rw [List.nodup_iff_getElem?_ne_getElem?]
  intro first second order inside same
  obtain ⟨value, there⟩ : ∃ value, slab.denseSlots[second]? = some value :=
    ⟨_, List.getElem?_eq_getElem inside⟩
  obtain ⟨one, foundOne, _, indexOne⟩ := well.dense first value (same.trans there)
  obtain ⟨two, foundTwo, _, indexTwo⟩ := well.dense second value there
  obtain rfl := Option.some.inj (foundOne.symm.trans foundTwo)
  omega

/-- Different slots are no more than there are. -/
theorem length_le_slots {indices : List UInt32} (once : indices.Nodup)
    (inside : ∀ s ∈ indices, ∃ slot, slab.slots[s.toNat]? = some slot) : indices.length ≤ slab.slots.length := by
  have all : indices.map UInt32.toNat ⊆ List.range slab.slots.length := by
    intro number listed
    obtain ⟨place, member, rfl⟩ := List.mem_map.mp listed
    obtain ⟨slot, there⟩ := inside place member
    rw [List.mem_range]
    exact (List.getElem?_eq_some_iff.mp there).1
  have apart : (indices.map UInt32.toNat).Nodup := once.map fun first second same => slot_eq.mp same
  have size := (List.subperm_of_subset apart all).length_le
  rw [List.length_map, List.length_range] at size
  exact size

theorem Well.listed {inHand : Option UInt32} (well : slab.Well inHand) {s : UInt32} (member : s ∈ slab.denseSlots) :
    ∃ slot, slab.slots[s.toNat]? = some slot ∧ slot.denseIndex ≠ vacant := by
  obtain ⟨index, there⟩ := List.getElem?_of_mem member
  obtain ⟨slot, found, filled, _⟩ := well.dense index s there
  exact ⟨slot, found, filled⟩

theorem Well.values_length_lt {inHand : Option UInt32} (well : slab.Well inHand) : slab.values.length < 2 ^ 32 := by
  have size := length_le_slots well.dense_nodup fun s member => (well.listed member).imp fun _ facts => facts.1
  have room := well.capacity
  have bound := well.bound
  rw [well.lengths] at size
  omega

/-- A slot without a value leaves fewer values than slots. -/
theorem Well.values_lt {inHand : Option UInt32} (well : slab.Well inHand) {s : UInt32} {slot : Slot}
    (found : slab.slots[s.toNat]? = some slot) (empty : slot.denseIndex = vacant) :
    slab.values.length < slab.slots.length := by
  have apart : (s :: slab.denseSlots).Nodup := by
    rw [List.nodup_cons]
    refine ⟨fun member => ?_, well.dense_nodup⟩
    obtain ⟨other, there, filled⟩ := well.listed member
    obtain rfl := Option.some.inj (found.symm.trans there)
    exact filled empty
  have size := length_le_slots apart fun place member => by
    rcases List.mem_cons.mp member with rfl | member
    · exact ⟨slot, found⟩
    · exact (well.listed member).imp fun _ facts => facts.1
  rw [List.length_cons, well.lengths] at size
  omega

theorem new_ok {shard : ShardId} {capacity : Nat} : StateSlab.new shard capacity = .ok slab ↔
    capacity < 2 ^ 32 ∧ slab = ⟨shard, capacity, [], [], [], []⟩ := by
  unfold StateSlab.new
  split
  · next large => exact iff_of_false (fun impossible => nomatch impossible) fun holds => by omega
  · next small =>
      rw [Except.ok.injEq]
      exact ⟨fun same => ⟨by omega, same.symm⟩, fun holds => holds.2.symm⟩

theorem new_well {shard : ShardId} {capacity : Nat} (bound : capacity < 2 ^ 32) :
    (StateSlab.mk shard capacity [] [] [] [] : StateSlab T).Well none where
  capacity := Nat.zero_le _
  bound := bound
  lengths := rfl
  dense := fun _ _ absent => nomatch absent
  filled := fun _ _ absent => nomatch absent
  free := fun _ absent => nomatch absent
  freeOnce := List.nodup_nil
  held := fun _ absent => nomatch absent
  exhausted := fun _ _ absent => nomatch absent

section Insert

/-- A slot in hand was free or is new, and its next handle was never returned. -/
structure Takes (slab taken : StateSlab T) (index : UInt32) (slot : Slot) : Prop where
  well : taken.Well (some index)
  shard : taken.shard = slab.shard
  capacity : taken.capacity = slab.capacity
  values : taken.values = slab.values
  found : taken.slots[index.toNat]? = some slot
  empty : slot.denseIndex = vacant
  fresh : ¬slab.Issued ⟨slab.shard, index, slot.generation⟩
  issued : ∀ id, taken.Issued id ↔ id = ⟨slab.shard, index, slot.generation⟩ ∨ slab.Issued id
  place : ∀ id index, taken.denseIndex id = .ok index ↔ slab.denseIndex id = .ok index

theorem takeSlot_free (well : slab.Well none) {index : UInt32} (last : slab.freeSlots.getLast? = some index) :
    ∃ slot, Takes slab { slab with freeSlots := slab.freeSlots.dropLast } index slot := by
  obtain ⟨front, split⟩ := List.getLast?_eq_some_iff.mp last
  have once := well.freeOnce
  rw [split, List.nodup_append] at once
  have absent : index ∉ front := fun member => once.2.2 index member index (List.mem_singleton_self _) rfl
  have rest : slab.freeSlots.dropLast = front := by rw [split, List.dropLast_concat]
  have members : ∀ s, s ∈ slab.freeSlots ↔ s ∈ front ∨ s = index := by
    intro s
    rw [split, List.mem_append, List.mem_singleton]
  obtain ⟨_, slot, found, empty⟩ := well.free index ((members index).mpr (Or.inr rfl))
  rw [rest]
  refine ⟨slot, ?_, rfl, rfl, rfl, found, empty, ?_, ?_, fun id index => Iff.rfl⟩
  · exact {
      capacity := well.capacity
      bound := well.bound
      lengths := well.lengths
      dense := well.dense
      filled := well.filled
      free := by
        intro s member
        refine ⟨fun same => absent ?_, (well.free s ((members s).mpr (Or.inl member))).2⟩
        rw [← Option.some.inj same]
        exact member
      freeOnce := once.1
      held := fun s same => by
        rw [← Option.some.inj same]
        exact ⟨slot, found, empty⟩
      exhausted := by
        intro s other there vacancy outside differs
        apply well.exhausted s other there vacancy _ (Option.some_ne_none s)
        intro member
        rcases (members s).mp member with member | rfl
        · exact outside member
        · exact differs rfl }
  · rintro ⟨_, other, there, older | ⟨_, outside⟩⟩
    · obtain rfl := Option.some.inj (found.symm.trans there)
      exact absurd older (UInt32.lt_irrefl _)
    · exact outside ((members index).mpr (Or.inr rfl))
  · intro id
    constructor
    · rintro ⟨shard, other, there, older | ⟨same, outside⟩⟩
      · exact Or.inr ⟨shard, other, there, Or.inl older⟩
      · by_cases this' : id.slot = index
        · left
          rw [this'] at there
          obtain rfl := Option.some.inj (found.symm.trans there)
          rw [← this', ← same, ← shard]
        · refine Or.inr ⟨shard, other, there, Or.inr ⟨same, fun member => ?_⟩⟩
          rcases (members id.slot).mp member with member | same'
          · exact outside member
          · exact this' same'
    · rintro (rfl | ⟨shard, other, there, older | ⟨same, outside⟩⟩)
      · exact ⟨rfl, slot, found, Or.inr ⟨rfl, absent⟩⟩
      · exact ⟨shard, other, there, Or.inl older⟩
      · exact ⟨shard, other, there, Or.inr ⟨same, fun member => outside ((members id.slot).mpr (Or.inl member))⟩⟩

theorem takeSlot_new (well : slab.Well none) (none' : slab.freeSlots = []) (room : slab.slots.length ≠ slab.capacity) :
    Takes slab { slab with slots := slab.slots ++ [⟨vacant, 0⟩] } (UInt32.ofNat slab.slots.length) ⟨vacant, 0⟩ := by
  have below := well.capacity
  have bound := well.bound
  have number : (UInt32.ofNat slab.slots.length).toNat = slab.slots.length := toNat_ofNat_u32 (by omega)
  have unknown : slab.slots[slab.slots.length]? = none := List.getElem?_eq_none (le_refl _)
  have found : (slab.slots ++ [Slot.mk vacant 0])[(UInt32.ofNat slab.slots.length).toNat]? = some ⟨vacant, 0⟩ := by
    rw [number, List.getElem?_concat_length]
  have kept : ∀ {s : Nat} {slot : Slot}, slab.slots[s]? = some slot → (slab.slots ++ [⟨vacant, 0⟩])[s]? = some slot :=
    fun there => getElem?_concat_eq_some.mpr (Or.inl there)
  refine ⟨?_, rfl, rfl, rfl, found, rfl, ?_, ?_, ?_⟩
  · exact {
      capacity := by
        change (slab.slots ++ [_]).length ≤ slab.capacity
        rw [List.length_append, List.length_singleton]
        omega
      bound := bound
      lengths := well.lengths
      dense := fun index s there => by
        obtain ⟨slot, there, facts⟩ := well.dense index s there
        exact ⟨slot, kept there, facts⟩
      filled := fun s slot there filled => by
        rcases getElem?_concat_eq_some.mp there with there | ⟨_, rfl⟩
        · exact well.filled s slot there filled
        · exact absurd rfl filled
      free := fun s member => by
        rw [none'] at member
        contradiction
      freeOnce := well.freeOnce
      held := fun s same => by
        rw [← Option.some.inj same]
        exact ⟨⟨vacant, 0⟩, found, rfl⟩
      exhausted := fun s slot there empty outside differs => by
        rcases getElem?_concat_eq_some.mp there with there | ⟨place, _⟩
        · exact well.exhausted s slot there empty outside (Option.some_ne_none s)
        · rw [← number, slot_eq] at place
          rw [place] at differs
          exact absurd rfl differs }
  · rintro ⟨_, slot, there, _⟩
    dsimp only at there
    rw [number, unknown] at there
    contradiction
  · intro id
    constructor
    · rintro ⟨shard, slot, there, either⟩
      rcases getElem?_concat_eq_some.mp there with there | ⟨place, rfl⟩
      · exact Or.inr ⟨shard, slot, there, either⟩
      · left
        rw [← number, slot_eq] at place
        rcases either with older | ⟨same, _⟩
        · exact absurd (UInt32.lt_iff_toNat_lt.mp older) (Nat.not_lt_zero _)
        · rw [← place, ← shard, ← same]
    · rintro (rfl | ⟨shard, slot, there, either⟩)
      · refine ⟨rfl, ⟨vacant, 0⟩, found, Or.inr ⟨rfl, fun member => ?_⟩⟩
        rw [none'] at member
        contradiction
      · exact ⟨shard, slot, kept there, either⟩
  · intro id index
    rw [denseIndex_ok, denseIndex_ok]
    refine and_congr_right fun shard => ⟨?_, ?_⟩
    · rintro ⟨slot, there, same, filled, place⟩
      rcases getElem?_concat_eq_some.mp there with there | ⟨_, rfl⟩
      · exact ⟨slot, there, same, filled, place⟩
      · exact absurd rfl filled
    · rintro ⟨slot, there, facts⟩
      exact ⟨slot, kept there, facts⟩

section Occupy

variable {index : UInt32} {slot : Slot}

/-- The dense index of a new value is a number and not the mark of a vacant slot. -/
theorem Well.next_index {inHand : Option UInt32} (well : slab.Well inHand) (found : slab.slots[index.toNat]? = some slot)
    (empty : slot.denseIndex = vacant) :
    (UInt32.ofNat slab.values.length).toNat = slab.values.length ∧ UInt32.ofNat slab.values.length ≠ vacant := by
  have below := well.values_lt found empty
  have room := well.capacity
  have bound := well.bound
  have number : (UInt32.ofNat slab.values.length).toNat = slab.values.length := toNat_ofNat_u32 (by omega)
  refine ⟨number, fun same => ?_⟩
  have large := congrArg UInt32.toNat same
  rw [number] at large
  have mark : vacant.toNat = 2 ^ 32 - 1 := rfl
  omega

/-- A value in the slot in hand keeps the vectors linked. -/
theorem occupy_well (well : slab.Well (some index)) (found : slab.slots[index.toNat]? = some slot)
    (empty : slot.denseIndex = vacant) (value : T) : (slab.occupy index slot value).Well none := by
  obtain ⟨number, real⟩ := well.next_index found empty
  have lengths := well.lengths
  have slots : ∀ {s : UInt32} {other : Slot}, (slab.occupy index slot value).slots[s.toNat]? = some other ↔
      s = index ∧ ⟨UInt32.ofNat slab.values.length, slot.generation⟩ = other ∨
        s ≠ index ∧ slab.slots[s.toNat]? = some other := by
    intro s other
    exact (getElem?_set_eq_some found).trans (by rw [slot_eq, Ne, slot_eq])
  exact {
    capacity := by
      change (slab.slots.set _ _).length ≤ slab.capacity
      rw [List.length_set]
      exact well.capacity
    bound := well.bound
    lengths := by
      change (slab.denseSlots ++ [index]).length = (slab.values ++ [value]).length
      rw [List.length_append, List.length_append, lengths]
      rfl
    dense := fun place s listed => by
      rcases getElem?_concat_eq_some.mp listed with listed | ⟨place', rfl⟩
      · obtain ⟨other, there, filled, place⟩ := well.dense place s listed
        have differs : s ≠ index := by
          intro same
          rw [same] at there
          obtain rfl := Option.some.inj (found.symm.trans there)
          exact filled empty
        exact ⟨other, slots.mpr (Or.inr ⟨differs, there⟩), filled, place⟩
      · refine ⟨_, slots.mpr (Or.inl ⟨rfl, rfl⟩), real, ?_⟩
        rw [number, place', lengths]
    filled := fun s other there filled => by
      apply getElem?_concat_eq_some.mpr
      rcases slots.mp there with ⟨rfl, rfl⟩ | ⟨_, there⟩
      · exact Or.inr ⟨by rw [number, lengths], rfl⟩
      · exact Or.inl (well.filled s other there filled)
    free := fun s member => by
      obtain ⟨differs, other, there, vacancy⟩ := well.free s member
      refine ⟨Option.some_ne_none s, other, slots.mpr (Or.inr ⟨fun same => differs (congrArg some same), there⟩), vacancy⟩
    freeOnce := well.freeOnce
    held := fun s absent => nomatch absent
    exhausted := fun s other there vacancy outside _ => by
      rcases slots.mp there with ⟨rfl, rfl⟩ | ⟨differs, there⟩
      · exact absurd vacancy real
      · exact well.exhausted s other there vacancy outside fun same => differs (Option.some.inj same) }

theorem occupy_issued (found : slab.slots[index.toNat]? = some slot) (value : T) :
    (slab.occupy index slot value).Issued id ↔ slab.Issued id := by
  refine and_congr_right fun shard => ?_
  constructor
  · rintro ⟨other, there, either⟩
    rcases (getElem?_set_eq_some found).mp there with ⟨same, rfl⟩ | ⟨_, there⟩
    · exact ⟨slot, by rw [same]; exact found, either⟩
    · exact ⟨other, there, either⟩
  · rintro ⟨other, there, either⟩
    by_cases same : id.slot.toNat = index.toNat
    · rw [same] at there
      obtain rfl := Option.some.inj (found.symm.trans there)
      exact ⟨_, (getElem?_set_eq_some found).mpr (Or.inl ⟨same, rfl⟩), either⟩
    · exact ⟨other, (getElem?_set_eq_some found).mpr (Or.inr ⟨same, there⟩), either⟩

/-- The new handle finds the new value, and every other handle finds what it found before. -/
theorem occupy_get (well : slab.Well (some index)) (found : slab.slots[index.toNat]? = some slot)
    (empty : slot.denseIndex = vacant) (value result : T) :
    (slab.occupy index slot value).get id = .ok result ↔
      id = ⟨slab.shard, index, slot.generation⟩ ∧ value = result ∨ slab.get id = .ok result := by
  obtain ⟨number, real⟩ := well.next_index found empty
  rw [get_ok, get_ok]
  constructor
  · rintro ⟨shard, other, there, generation, filled, holds⟩
    rcases (getElem?_set_eq_some found).mp there with ⟨same, rfl⟩ | ⟨_, there⟩
    · left
      dsimp only at holds generation
      rw [number] at holds
      rcases getElem?_concat_eq_some.mp holds with holds | ⟨_, same'⟩
      · rw [List.getElem?_eq_none (le_refl _)] at holds
        contradiction
      · exact ⟨by rw [← slot_eq.mp same, ← generation]; exact congrArg (EntityId.mk · id.slot id.generation) shard, same'⟩
    · right
      refine ⟨shard, other, there, generation, filled, ?_⟩
      have listed := well.filled id.slot other there filled
      have inside := (List.getElem?_eq_some_iff.mp listed).1
      rcases getElem?_concat_eq_some.mp holds with holds | ⟨place, _⟩
      · exact holds
      · rw [well.lengths] at inside
        omega
  · rintro (⟨rfl, rfl⟩ | ⟨shard, other, there, generation, filled, holds⟩)
    · refine ⟨rfl, _, (getElem?_set_eq_some found).mpr (Or.inl ⟨rfl, rfl⟩), rfl, real, ?_⟩
      dsimp only
      rw [number]
      exact List.getElem?_concat_length
    · have differs : id.slot.toNat ≠ index.toNat := by
        intro same
        rw [same] at there
        obtain rfl := Option.some.inj (found.symm.trans there)
        exact filled empty
      exact ⟨shard, other, (getElem?_set_eq_some found).mpr (Or.inr ⟨differs, there⟩), generation, filled,
        getElem?_concat_eq_some.mpr (Or.inl holds)⟩

end Occupy

/-- Every slot either has a live handle or returned its last one. -/
def Full (slab : StateSlab T) : Prop :=
  ∀ number < slab.capacity, ∃ id, slab.Issued id ∧ id.slot.toNat = number ∧
    ((∃ value, slab.get id = .ok value) ∨ id.generation = 0xFFFFFFFF)

/-- A slab is full when it has neither a free slot nor room for a new one. -/
theorem Well.full_iff (well : slab.Well none) :
    slab.Full ↔ slab.freeSlots = [] ∧ slab.slots.length = slab.capacity := by
  have room := well.capacity
  have bound := well.bound
  constructor
  · intro full
    constructor
    · rw [List.eq_nil_iff_forall_not_mem]
      intro s member
      obtain ⟨_, slot, found, empty⟩ := well.free s member
      obtain ⟨id, ⟨_, other, there, older⟩, number, either⟩ :=
        full s.toNat ((List.getElem?_eq_some_iff.mp found).1.trans_le room)
      rw [number] at there
      obtain rfl := Option.some.inj (found.symm.trans there)
      have earlier : id.generation < slot.generation := older.resolve_right fun holds => by
        rw [slot_eq.mp number] at holds
        exact holds.2 member
      rcases either with ⟨value, got⟩ | last
      · obtain ⟨_, other, there, generation, _⟩ := get_ok.mp got
        rw [number] at there
        obtain rfl := Option.some.inj (found.symm.trans there)
        rw [generation] at earlier
        exact UInt32.lt_irrefl _ earlier
      · rw [last, UInt32.lt_iff_toNat_lt] at earlier
        have fits := slot.generation.toNat_lt
        change 2 ^ 32 - 1 < slot.generation.toNat at earlier
        omega
    · by_contra less
      obtain ⟨id, ⟨_, slot, there, _⟩, number, _⟩ := full slab.slots.length (by omega)
      rw [number, List.getElem?_eq_none (le_refl _)] at there
      contradiction
  · rintro ⟨none', all⟩ number inside
    have small : number < slab.slots.length := by omega
    have place : (UInt32.ofNat number).toNat = number := toNat_ofNat_u32 (by omega)
    obtain ⟨slot, found⟩ : ∃ slot, slab.slots[(UInt32.ofNat number).toNat]? = some slot := by
      rw [place]
      exact ⟨_, List.getElem?_eq_getElem small⟩
    have outside : UInt32.ofNat number ∉ slab.freeSlots := by
      rw [none']
      exact List.not_mem_nil
    refine ⟨⟨slab.shard, UInt32.ofNat number, slot.generation⟩, ⟨rfl, slot, found, Or.inr ⟨rfl, outside⟩⟩, place, ?_⟩
    by_cases empty : slot.denseIndex = vacant
    · exact Or.inr (well.exhausted _ slot found empty outside (Option.some_ne_none _))
    · left
      have listed := (List.getElem?_eq_some_iff.mp (well.filled _ slot found empty)).1
      rw [well.lengths] at listed
      exact ⟨_, get_ok.mpr ⟨rfl, slot, found, rfl, empty, List.getElem?_eq_getElem listed⟩⟩

/-- An insertion into a full slab fails, and any other returns a handle that was never returned before. -/
theorem insert_cases (well : slab.Well none) (value : T) :
    slab.Full ∧ slab.insert value = (.error .capacityExceeded, slab) ∨
    ¬slab.Full ∧ ∃ handle reached, slab.insert value = (.ok handle, reached) ∧ reached.Well none ∧
      reached.capacity = slab.capacity ∧ ¬slab.Issued handle ∧
      (∀ id, reached.Issued id ↔ id = handle ∨ slab.Issued id) ∧
      ∀ id result, reached.get id = .ok result ↔ id = handle ∧ value = result ∨ slab.get id = .ok result := by
  have whole := well.full_iff
  have finish : ∀ {taken : StateSlab T} {index : UInt32} {slot : Slot}, slab.takeSlot = .ok (index, taken) →
      Takes slab taken index slot → ∃ handle reached, slab.insert value = (.ok handle, reached) ∧ reached.Well none ∧
        reached.capacity = slab.capacity ∧ ¬slab.Issued handle ∧
        (∀ id, reached.Issued id ↔ id = handle ∨ slab.Issued id) ∧
        ∀ id result, reached.get id = .ok result ↔ id = handle ∧ value = result ∨ slab.get id = .ok result := by
    intro taken index slot took takes
    refine ⟨⟨slab.shard, index, slot.generation⟩, taken.occupy index slot value, ?_,
      occupy_well takes.well takes.found takes.empty value, takes.capacity, takes.fresh, fun id => ?_, fun id result => ?_⟩
    · unfold insert
      rw [took]
      dsimp only
      rw [takes.found]
    · exact (occupy_issued takes.found value).trans (takes.issued id)
    · rw [occupy_get takes.well takes.found takes.empty, takes.shard]
      have same : taken.get id = .ok result ↔ slab.get id = .ok result := by
        unfold get valueAt
        rw [Except.bind_eq_ok, Except.bind_eq_ok, takes.values]
        simp only [takes.place]
      rw [same]
  cases last : slab.freeSlots.getLast? with
  | some index =>
      right
      have some' : slab.freeSlots ≠ [] := by
        intro none'
        rw [none'] at last
        contradiction
      obtain ⟨slot, takes⟩ := takeSlot_free well last
      refine ⟨fun full => some' (whole.mp full).1, finish ?_ takes⟩
      rw [takeSlot, last]
  | none =>
      have none' := List.getLast?_eq_none_iff.mp last
      by_cases room : slab.slots.length = slab.capacity
      · left
        refine ⟨whole.mpr ⟨none', room⟩, ?_⟩
        unfold insert takeSlot
        rw [last]
        dsimp only
        rw [if_pos room]
      · right
        refine ⟨fun full => room (whole.mp full).2, finish ?_ (takeSlot_new well none' room)⟩
        unfold takeSlot
        rw [last]
        dsimp only
        rw [if_neg room]

end Insert

/-- Two live handles with the same place are the same handle. -/
theorem Well.place_injective {inHand : Option UInt32} (well : slab.Well inHand) {other : EntityId} {index : Nat}
    (first : slab.denseIndex id = .ok index) (second : slab.denseIndex other = .ok index) : id = other := by
  obtain ⟨shard, slot, found, generation, filled, rfl⟩ := denseIndex_ok.mp first
  obtain ⟨shard', slot', found', generation', filled', same⟩ := denseIndex_ok.mp second
  have here := well.filled id.slot slot found filled
  have there := well.filled other.slot slot' found' filled'
  rw [same, here] at there
  have slots := Option.some.inj there
  rw [← slots, found] at found'
  obtain rfl := Option.some.inj found'
  cases id
  cases other
  simp_all

/-- A place in the dense vectors holds a value. -/
theorem Well.place_lt {inHand : Option UInt32} (well : slab.Well inHand) {index : Nat}
    (placed : slab.denseIndex id = .ok index) : index < slab.values.length := by
  obtain ⟨_, slot, found, _, filled, rfl⟩ := denseIndex_ok.mp placed
  have listed := (List.getElem?_eq_some_iff.mp (well.filled id.slot slot found filled)).1
  rw [well.lengths] at listed
  exact listed

theorem get_ok_iff {value : T} :
    slab.get id = .ok value ↔ ∃ index, slab.denseIndex id = .ok index ∧ slab.values[index]? = some value := by
  unfold get
  rw [Except.bind_eq_ok]
  simp only [valueAt_ok]

/-- A handle finds its value or is invalid. -/
theorem Well.get_cases {inHand : Option UInt32} (well : slab.Well inHand) (id : EntityId) :
    (∃ index value, slab.denseIndex id = .ok index ∧ slab.values[index]? = some value ∧ slab.get id = .ok value) ∨
      slab.denseIndex id = .error (.invalidEntity id) ∧ slab.get id = .error (.invalidEntity id) := by
  cases placed : slab.denseIndex id with
  | ok index =>
      left
      have inside := List.getElem?_eq_getElem (well.place_lt placed)
      exact ⟨index, _, rfl, inside, get_ok_iff.mpr ⟨index, placed, inside⟩⟩
  | error error =>
      right
      obtain rfl := denseIndex_error placed
      refine ⟨rfl, ?_⟩
      unfold get
      rw [placed]
      rfl

/-- A change behind a reference is seen under its handle only. -/
theorem getMut_cases (well : slab.Well none) (id : EntityId) (change : T → T) :
    (∃ value reached, slab.get id = .ok value ∧ slab.getMut id change = (.ok value, reached) ∧ reached.Well none ∧
      reached.capacity = slab.capacity ∧ (∀ other, reached.Issued other ↔ slab.Issued other) ∧
      ∀ other result, reached.get other = .ok result ↔
        other = id ∧ change value = result ∨ other ≠ id ∧ slab.get other = .ok result) ∨
    slab.get id = .error (.invalidEntity id) ∧ slab.getMut id change = (.error (.invalidEntity id), slab) := by
  rcases well.get_cases id with ⟨index, value, placed, holds, got⟩ | ⟨missing, failed⟩
  · left
    refine ⟨value, { slab with values := slab.values.modify index change }, got, ?_, ?_, rfl, fun other => Iff.rfl, ?_⟩
    · unfold getMut
      rw [placed]
      dsimp only
      rw [valueAt_ok.mpr holds]
    · exact {
        capacity := well.capacity
        bound := well.bound
        lengths := by
          rw [List.length_modify]
          exact well.lengths
        dense := well.dense
        filled := well.filled
        free := well.free
        freeOnce := well.freeOnce
        held := well.held
        exhausted := well.exhausted }
    · intro other result
      have place : ∀ place, StateSlab.denseIndex { slab with values := slab.values.modify index change } other = .ok place ↔
          slab.denseIndex other = .ok place := fun place => Iff.rfl
      rw [get_ok_iff, get_ok_iff]
      simp only [place, List.getElem?_modify]
      constructor
      · rintro ⟨position, there, found⟩
        by_cases same : other = id
        · left
          rw [same, placed] at there
          obtain rfl := Except.ok.inj there
          rw [holds] at found
          exact ⟨same, by simpa using found⟩
        · right
          refine ⟨same, position, there, ?_⟩
          have differs : index ≠ position := by
            rintro rfl
            exact same (well.place_injective there placed)
          simpa [differs] using found
      · rintro (⟨rfl, rfl⟩ | ⟨differs, position, there, found⟩)
        · exact ⟨index, placed, by simp [holds]⟩
        · have apart : index ≠ position := by
            rintro rfl
            exact differs (well.place_injective there placed)
          exact ⟨position, there, by simpa [apart] using found⟩
  · right
    refine ⟨failed, ?_⟩
    unfold getMut
    rw [missing]

section Remove

/-- The slot of the last value learns the place of the hole. -/
def movedTo (count hole : Nat) (slot : Slot) : Slot :=
  if slot.denseIndex.toNat + 1 = count then { slot with denseIndex := UInt32.ofNat hole } else slot

variable {hole : Nat}

theorem closeHole_slots (well : slab.Well none) (inside : hole < slab.values.length) (s : UInt32) :
    (slab.closeHole hole).slots[s.toNat]? = slab.slots[s.toNat]?.map (movedTo slab.values.length hole) := by
  have lengths := well.lengths
  have small := well.values_length_lt
  have mark : vacant.toNat = 2 ^ 32 - 1 := rfl
  have number : (UInt32.ofNat hole).toNat = hole := toNat_ofNat_u32 (by omega)
  have last : (swapRemove slab.denseSlots hole)[hole]? =
      if hole + 1 < slab.values.length then slab.denseSlots[slab.values.length - 1]? else none := by
    rw [swapRemove_getElem? (by omega), if_pos rfl, lengths]
  unfold closeHole
  dsimp only
  rw [last]
  by_cases more : hole + 1 < slab.values.length
  · rw [if_pos more]
    obtain ⟨moved, there⟩ : ∃ moved, slab.denseSlots[slab.values.length - 1]? = some moved :=
      ⟨_, List.getElem?_eq_getElem (by omega)⟩
    obtain ⟨old, found, _, place⟩ := well.dense _ moved there
    rw [there]
    dsimp only
    rw [List.getElem?_modify]
    cases other : slab.slots[s.toNat]? with
    | none => rfl
    | some slot =>
        simp only [Option.map_some, Option.map_eq_map, Option.some.injEq]
        by_cases same : moved.toNat = s.toNat
        · rw [if_pos same, movedTo, if_pos]
          rw [same, other] at found
          rw [Option.some.inj found, place]
          omega
        · rw [if_neg same, movedTo, if_neg]
          intro final
          have filled : slot.denseIndex ≠ vacant := by
            intro empty
            rw [empty, mark] at final
            omega
          have listed := well.filled s slot other filled
          have index : slot.denseIndex.toNat = slab.values.length - 1 := by omega
          rw [index, there] at listed
          exact same (congrArg UInt32.toNat (Option.some.inj listed))
  · rw [if_neg more]
    cases other : slab.slots[s.toNat]? with
    | none => rfl
    | some slot =>
        rw [Option.map_some, movedTo]
        split
        · next final =>
            have same : slot.denseIndex = UInt32.ofNat hole := by
              rw [← slot_eq, number]
              omega
            rw [← same]
        · rfl

theorem closeHole_slots_length : (slab.closeHole hole).slots.length = slab.slots.length := by
  unfold closeHole
  dsimp only
  split
  · exact List.length_modify _ _ _
  · rfl

/-- The generation of a slot after it lost its value. -/
def nextGeneration (generation : UInt32) : UInt32 := if generation = 0xFFFFFFFF then generation else generation + 1

/-- What a vacated slot leaves behind. -/
theorem vacate_eq {index : UInt32} {slot : Slot} (found : slab.slots[index.toNat]? = some slot) :
    slab.vacate index = { slab with
      slots := slab.slots.set index.toNat ⟨vacant, nextGeneration slot.generation⟩
      freeSlots := if slot.generation = 0xFFFFFFFF then slab.freeSlots else slab.freeSlots ++ [index] } := by
  unfold vacate nextGeneration
  rw [found]
  dsimp only
  split <;> rfl

theorem movedTo_generation (count : Nat) (slot : Slot) : (movedTo count hole slot).generation = slot.generation := by
  unfold movedTo
  split <;> rfl

/-- A moved slot is vacant exactly when it was. -/
theorem movedTo_vacant {count : Nat} {slot : Slot} (inside : hole < count) (small : count < 2 ^ 32) :
    (movedTo count hole slot).denseIndex = vacant ↔ slot.denseIndex = vacant := by
  have mark : vacant.toNat = 2 ^ 32 - 1 := rfl
  have number : (UInt32.ofNat hole).toNat = hole := toNat_ofNat_u32 (by omega)
  unfold movedTo
  split
  · next last =>
      rw [← slot_eq, ← slot_eq, number, mark]
      omega
  · rfl

/-- A moved slot finds in the shorter list what it found before. -/
theorem swapRemove_movedTo {A : Type} {xs : List A} {slot : Slot} (inside : hole < xs.length)
    (small : xs.length < 2 ^ 32) (below : slot.denseIndex.toNat < xs.length) (differs : slot.denseIndex.toNat ≠ hole) :
    (swapRemove xs hole)[(movedTo xs.length hole slot).denseIndex.toNat]? = xs[slot.denseIndex.toNat]? := by
  have number : (UInt32.ofNat hole).toNat = hole := toNat_ofNat_u32 (by omega)
  rw [swapRemove_getElem? inside]
  unfold movedTo
  split
  · next last =>
      have before : hole + 1 < xs.length := by omega
      have final : xs.length - 1 = slot.denseIndex.toNat := by omega
      simp only [number, before, if_true, final]
  · next earlier =>
      have before : slot.denseIndex.toNat + 1 < xs.length := by omega
      simp only [before, if_true]

/-- The slab after the value of a live handle has left it. -/
structure Removes (slab reached : StateSlab T) (id : EntityId) (index : Nat) (slot : Slot) : Prop where
  shard : reached.shard = slab.shard
  capacity : reached.capacity = slab.capacity
  slots : ∀ (s : UInt32) (other : Slot), reached.slots[s.toNat]? = some other ↔
    s = id.slot ∧ ⟨vacant, nextGeneration slot.generation⟩ = other ∨
      s ≠ id.slot ∧ ∃ old, slab.slots[s.toNat]? = some old ∧ movedTo slab.values.length index old = other
  slotsLength : reached.slots.length = slab.slots.length
  values : reached.values = swapRemove slab.values index
  denseSlots : reached.denseSlots = swapRemove slab.denseSlots index
  freeSlots : reached.freeSlots = if slot.generation = 0xFFFFFFFF then slab.freeSlots else slab.freeSlots ++ [id.slot]

theorem remove_removes (well : slab.Well none) {index : Nat} {slot : Slot} (placed : slab.denseIndex id = .ok index)
    (found : slab.slots[id.slot.toNat]? = some slot) :
    Removes slab ((slab.closeHole index).vacate id.slot) id index slot := by
  have inside := well.place_lt placed
  have there : (slab.closeHole index).slots[id.slot.toNat]? = some (movedTo slab.values.length index slot) := by
    rw [closeHole_slots well inside, found]
    rfl
  rw [vacate_eq there, movedTo_generation]
  refine ⟨rfl, rfl, fun s other => ?_, ?_, rfl, rfl, rfl⟩
  · rw [getElem?_set_eq_some there, closeHole_slots well inside, Option.map_eq_some_iff, Ne, slot_eq]
  · rw [List.length_set, closeHole_slots_length]

section Removed

variable {reached : StateSlab T} {index : Nat} {slot : Slot}

/-- A slot other than the removed one does not have its place. -/
theorem Well.place_ne (well : slab.Well none) (placed : slab.denseIndex id = .ok index) {s : UInt32} {old : Slot}
    (found : slab.slots[s.toNat]? = some old) (filled : old.denseIndex ≠ vacant) (differs : s ≠ id.slot) :
    old.denseIndex.toNat ≠ index := by
  rintro rfl
  obtain ⟨_, slot, there, _, filled', same⟩ := denseIndex_ok.mp placed
  have one := well.filled s old found filled
  have two := well.filled id.slot slot there filled'
  rw [same, one] at two
  exact differs (Option.some.inj two)

/-- The place of a slot with a value is inside the dense vectors. -/
theorem Well.filled_lt (well : slab.Well none) {s : UInt32} {old : Slot} (found : slab.slots[s.toNat]? = some old)
    (filled : old.denseIndex ≠ vacant) : old.denseIndex.toNat < slab.values.length := by
  rw [← well.lengths]
  exact (List.getElem?_eq_some_iff.mp (well.filled s old found filled)).1

/-- The other handles find what they found before, and the removed one finds nothing. -/
theorem Removes.get (removes : Removes slab reached id index slot) (well : slab.Well none)
    (placed : slab.denseIndex id = .ok index) (found : slab.slots[id.slot.toNat]? = some slot)
    (current : id.generation = slot.generation) (owner : id.shard = slab.shard) (other : EntityId) (result : T) :
    reached.get other = .ok result ↔ other ≠ id ∧ slab.get other = .ok result := by
  have inside := well.place_lt placed
  have small := well.values_length_lt
  have moves : ∀ old : Slot, slab.slots[other.slot.toNat]? = some old → old.denseIndex ≠ vacant → other.slot ≠ id.slot →
      reached.values[(movedTo slab.values.length index old).denseIndex.toNat]? = slab.values[old.denseIndex.toNat]? := by
    intro old there filled differs
    rw [removes.values]
    exact swapRemove_movedTo inside small (well.filled_lt there filled) (well.place_ne placed there filled differs)
  rw [get_ok, get_ok, removes.shard]
  constructor
  · rintro ⟨shard, slot', there, generation, filled, holds⟩
    rcases (removes.slots _ _).mp there with ⟨_, rfl⟩ | ⟨differs, old, before, rfl⟩
    · exact absurd rfl filled
    · have filled' := mt (movedTo_vacant inside small).mpr filled
      refine ⟨fun same => differs (congrArg EntityId.slot same), shard, old, before, ?_, filled', ?_⟩
      · rw [generation, movedTo_generation]
      · rw [← moves old before filled' differs, holds]
  · rintro ⟨differs, shard, old, before, generation, filled, holds⟩
    have apart : other.slot ≠ id.slot := by
      intro same
      rw [same, found] at before
      obtain rfl := Option.some.inj before
      apply differs
      cases other
      cases id
      simp_all
    refine ⟨shard, _, (removes.slots _ _).mpr (Or.inr ⟨apart, old, before, rfl⟩), ?_, ?_, ?_⟩
    · rw [generation, movedTo_generation]
    · exact mt (movedTo_vacant inside small).mp filled
    · rw [moves old before filled apart, holds]

theorem Removes.issued (removes : Removes slab reached id index slot) (found : slab.slots[id.slot.toNat]? = some slot)
    (outside : id.slot ∉ slab.freeSlots) (other : EntityId) : reached.Issued other ↔ slab.Issued other := by
  unfold Issued
  rw [removes.shard]
  refine and_congr_right fun _ => ?_
  by_cases same : other.slot = id.slot
  · have here : ∀ slot', reached.slots[id.slot.toNat]? = some slot' ↔
        ⟨vacant, nextGeneration slot.generation⟩ = slot' := by
      intro slot'
      rw [removes.slots]
      simp
    simp only [same, here, exists_eq_left', found, Option.some.injEq, removes.freeSlots]
    unfold nextGeneration
    split
    · rfl
    · next more =>
        have bound := slot.generation.toNat_lt
        have size : (slot.generation + 1).toNat = slot.generation.toNat + 1 := by
          have below : slot.generation.toNat ≠ 2 ^ 32 - 1 := fun full => more (slot_eq.mp full)
          rw [UInt32.toNat_add]
          change (slot.generation.toNat + 1) % 2 ^ 32 = _
          exact Nat.mod_eq_of_lt (by omega)
        rw [UInt32.lt_iff_toNat_lt, UInt32.lt_iff_toNat_lt, ← slot_eq, ← slot_eq, size]
        simp only [List.mem_append, List.mem_singleton, or_true, not_true_eq_false, and_false, or_false, outside,
          not_false_eq_true, and_true]
        omega
  · have here : ∀ slot', reached.slots[other.slot.toNat]? = some slot' ↔
        ∃ old, slab.slots[other.slot.toNat]? = some old ∧ movedTo slab.values.length index old = slot' := by
      intro slot'
      rw [removes.slots]
      simp [same]
    have free : other.slot ∈ reached.freeSlots ↔ other.slot ∈ slab.freeSlots := by
      rw [removes.freeSlots]
      split
      · rfl
      · simp [same]
    simp only [here, free]
    constructor
    · rintro ⟨_, ⟨old, there, rfl⟩, either⟩
      rw [movedTo_generation] at either
      exact ⟨old, there, either⟩
    · rintro ⟨old, there, either⟩
      refine ⟨_, ⟨old, there, rfl⟩, ?_⟩
      rw [movedTo_generation]
      exact either

/-- A removal keeps the vectors linked. -/
theorem Removes.well (removes : Removes slab reached id index slot) (well : slab.Well none)
    (placed : slab.denseIndex id = .ok index) (found : slab.slots[id.slot.toNat]? = some slot)
    (occupied : slot.denseIndex ≠ vacant) : reached.Well none := by
  have inside := well.place_lt placed
  have small := well.values_length_lt
  have lengths := well.lengths
  have outside : id.slot ∉ slab.freeSlots := by
    intro member
    obtain ⟨_, other, there, empty⟩ := well.free _ member
    obtain rfl := Option.some.inj (found.symm.trans there)
    exact occupied empty
  have moves : ∀ (s : UInt32) (old : Slot), slab.slots[s.toNat]? = some old → old.denseIndex ≠ vacant → s ≠ id.slot →
      reached.denseSlots[(movedTo slab.values.length index old).denseIndex.toNat]? = some s := by
    intro s old there filled differs
    rw [removes.denseSlots, ← lengths]
    rw [swapRemove_movedTo (by omega) (by omega) (by rw [lengths]; exact well.filled_lt there filled)
      (well.place_ne placed there filled differs)]
    exact well.filled s old there filled
  have members : ∀ s ∈ reached.freeSlots, s ∈ slab.freeSlots ∨ s = id.slot ∧ slot.generation ≠ 0xFFFFFFFF := by
    intro s member
    rw [removes.freeSlots] at member
    split at member
    · exact Or.inl member
    · next more =>
        rcases List.mem_append.mp member with member | member
        · exact Or.inl member
        · exact Or.inr ⟨List.mem_singleton.mp member, more⟩
  exact {
    capacity := by
      rw [removes.slotsLength, removes.capacity]
      exact well.capacity
    bound := by
      rw [removes.capacity]
      exact well.bound
    lengths := by
      rw [removes.denseSlots, removes.values, swapRemove_length, swapRemove_length, lengths]
    dense := fun place s listed => by
      rw [removes.denseSlots, swapRemove_getElem? (by omega)] at listed
      split at listed
      · next before =>
          have origin : ∃ old, slab.slots[s.toNat]? = some old ∧ old.denseIndex ≠ vacant ∧
              old.denseIndex.toNat = if place = index then slab.values.length - 1 else place := by
            by_cases hole : place = index
            · rw [if_pos hole] at listed ⊢
              rw [lengths] at listed
              exact well.dense _ s listed
            · rw [if_neg hole] at listed ⊢
              exact well.dense _ s listed
          obtain ⟨old, there, filled, position⟩ := origin
          have differs : s ≠ id.slot := by
            intro same
            obtain ⟨_, own, there', _, _, place'⟩ := denseIndex_ok.mp placed
            rw [same] at there
            obtain rfl := Option.some.inj (there.symm.trans there')
            split at position <;> omega
          refine ⟨_, (removes.slots _ _).mpr (Or.inr ⟨differs, old, there, rfl⟩),
            mt (movedTo_vacant inside small).mp filled, ?_⟩
          have number : (UInt32.ofNat index).toNat = index := toNat_ofNat_u32 (by omega)
          unfold movedTo
          split at position
          · next hole =>
              rw [if_pos (by omega)]
              exact number.trans hole.symm
          · rw [if_neg (by omega)]
            exact position
      · contradiction
    filled := fun s other there filled => by
      rcases (removes.slots _ _).mp there with ⟨_, rfl⟩ | ⟨differs, old, before, rfl⟩
      · exact absurd rfl filled
      · exact moves s old before (mt (movedTo_vacant inside small).mpr filled) differs
    free := fun s member => by
      refine ⟨Option.some_ne_none s, ?_⟩
      rcases members s member with member | ⟨rfl, _⟩
      · obtain ⟨_, old, there, empty⟩ := well.free s member
        refine ⟨_, (removes.slots _ _).mpr (Or.inr ⟨?_, old, there, rfl⟩), (movedTo_vacant inside small).mpr empty⟩
        rintro rfl
        exact outside member
      · exact ⟨_, (removes.slots _ _).mpr (Or.inl ⟨rfl, rfl⟩), rfl⟩
    freeOnce := by
      rw [removes.freeSlots]
      split
      · exact well.freeOnce
      · exact List.nodup_append.mpr ⟨well.freeOnce, List.nodup_singleton _, fun first member second single same => by
          rw [List.mem_singleton.mp single] at same
          rw [same] at member
          exact outside member⟩
    held := fun _ absent => nomatch absent
    exhausted := fun s other there empty absent _ => by
      rcases (removes.slots _ _).mp there with ⟨rfl, rfl⟩ | ⟨differs, old, before, rfl⟩
      · rw [removes.freeSlots] at absent
        unfold nextGeneration
        split at absent
        · next full => rw [if_pos full, full]
        · exact absurd (List.mem_append_right _ (List.mem_singleton_self _)) absent
      · rw [movedTo_generation]
        apply well.exhausted s old before ((movedTo_vacant inside small).mp empty) _ (Option.some_ne_none s)
        intro member
        apply absent
        rw [removes.freeSlots]
        split
        · exact member
        · exact List.mem_append_left _ member }

end Removed

/-- A removal takes the value of a live handle, and any other handle is invalid. -/
theorem remove_cases (well : slab.Well none) (id : EntityId) :
    (∃ value reached, slab.get id = .ok value ∧ slab.remove id = (.ok value, reached) ∧ reached.Well none ∧
      reached.capacity = slab.capacity ∧ (∀ other, reached.Issued other ↔ slab.Issued other) ∧
      ∀ other result, reached.get other = .ok result ↔ other ≠ id ∧ slab.get other = .ok result) ∨
    slab.get id = .error (.invalidEntity id) ∧ slab.remove id = (.error (.invalidEntity id), slab) := by
  rcases well.get_cases id with ⟨index, value, placed, holds, got⟩ | ⟨missing, failed⟩
  · left
    obtain ⟨shard, slot, found, generation, filled, _⟩ := denseIndex_ok.mp placed
    have outside : id.slot ∉ slab.freeSlots := by
      intro member
      obtain ⟨_, other, there, empty⟩ := well.free _ member
      obtain rfl := Option.some.inj (found.symm.trans there)
      exact filled empty
    have removes := remove_removes well placed found
    refine ⟨value, _, got, ?_, removes.well well placed found filled, removes.capacity, removes.issued found outside,
      removes.get well placed found generation shard⟩
    unfold remove
    rw [placed]
    dsimp only
    rw [holds]
  · right
    refine ⟨failed, ?_⟩
    unfold remove
    rw [missing]

end Remove

section Iterate

/-- The iteration yields a handle with its value exactly when the handle finds the value. -/
theorem Well.mem_iter {inHand : Option UInt32} (well : slab.Well inHand) {value : T} :
    (id, value) ∈ slab.iter ↔ slab.get id = .ok value := by
  unfold iter
  rw [List.mem_filterMap, get_ok]
  constructor
  · rintro ⟨⟨s, other⟩, member, entry⟩
    obtain ⟨place, there⟩ := List.getElem?_of_mem member
    obtain ⟨listed, holds⟩ := List.getElem?_zip_eq_some.mp there
    obtain ⟨slot, found, filled, position⟩ := well.dense place s listed
    rw [Option.map_eq_some_iff] at entry
    obtain ⟨slot', found', same⟩ := entry
    obtain rfl := Option.some.inj (found.symm.trans found')
    obtain ⟨rfl, rfl⟩ := Prod.mk.inj same
    exact ⟨rfl, slot, found, rfl, filled, by rw [position]; exact holds⟩
  · rintro ⟨shard, slot, found, generation, filled, holds⟩
    refine ⟨(id.slot, value), ?_, ?_⟩
    · exact List.mem_of_getElem? (List.getElem?_zip_eq_some.mpr ⟨well.filled id.slot slot found filled, holds⟩)
    · dsimp only
      rw [found, Option.map_some, ← generation, ← shard]

/-- No handle is yielded twice. -/
theorem Well.iter_nodup {inHand : Option UInt32} (well : slab.Well inHand) : (slab.iter.map Prod.fst).Nodup := by
  have keys : slab.iter.map Prod.fst = slab.denseSlots.filterMap fun index =>
      slab.slots[index.toNat]?.map fun slot => ⟨slab.shard, index, slot.generation⟩ := by
    have front : (slab.denseSlots.zip slab.values).map Prod.fst = slab.denseSlots := List.map_fst_zip well.lengths.le
    rw [iter, List.map_filterMap]
    conv_rhs => rw [← front, List.filterMap_map]
    congr 1
    funext ⟨index, value⟩
    exact Option.map_map _ _ _
  rw [keys]
  apply well.dense_nodup.filterMap
  intro first second handle one two
  obtain ⟨_, _, rfl⟩ := Option.map_eq_some_iff.mp one
  obtain ⟨_, _, same⟩ := Option.map_eq_some_iff.mp two
  exact (congrArg EntityId.slot same).symm

end Iterate

end StateSlab

end Temnion.State
