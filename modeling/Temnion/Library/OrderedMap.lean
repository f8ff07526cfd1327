import Mathlib.Order.Basic
import Mathlib.Tactic

/-
This file keeps a map sorted by its keys, and changes one entry of it at a time.
-/

abbrev OrderedMap (K V : Type) [LinearOrder K] := Std.ExtTreeMap K V compare

instance OrderedMap.lawfulEqOrd {K : Type} [LinearOrder K] : Std.LawfulEqOrd K where
  eq_of_compare := compare_eq_iff_eq.mp

instance OrderedMap.lawfulBEq {K : Type} [LinearOrder K] : LawfulBEq K := instLawfulBEq

instance OrderedMap.transCmp {K : Type} [LinearOrder K] : Std.TransCmp (compare : K → K → Ordering) := inferInstance

namespace OrderedMap

variable {K V : Type} [LinearOrder K]

/-- The entry starts from the default when the map has none for the key. -/
def entry (map : OrderedMap K V) (key : K) (default : V) (change : V → V) : OrderedMap K V :=
  map.alter key fun old => some (change (old.getD default))

@[simp] theorem entry_getElem? (map : OrderedMap K V) (key : K) (default : V) (change : V → V) (other : K) :
    (map.entry key default change)[other]? =
      if key = other then some (change (map[key]?.getD default)) else map[other]? := by
  rw [entry, Std.ExtTreeMap.getElem?_alter]
  simp only [compare_eq_iff_eq]

theorem insert_getElem? (map : OrderedMap K V) (key : K) (value : V) (other : K) :
    (map.insert key value)[other]? = if key = other then some value else map[other]? := by
  rw [Std.ExtTreeMap.getElem?_insert]
  simp only [compare_eq_iff_eq]

theorem modify_getElem? (map : OrderedMap K V) (key : K) (change : V → V) (other : K) :
    (map.modify key change)[other]? = if key = other then (map[key]?).map change else map[other]? := by
  rw [Std.ExtTreeMap.getElem?_modify]
  by_cases same : key = other
  · rw [if_pos same, if_pos (compare_eq_iff_eq.mpr same), same]
  · rw [if_neg same, if_neg fun equal => same (compare_eq_iff_eq.mp equal)]

/-- Two changes of an entry are one. -/
theorem modify_modify (map : OrderedMap K V) (key : K) (first second : V → V) :
    (map.modify key first).modify key second = map.modify key fun value => second (first value) := by
  apply Std.ExtTreeMap.ext_getElem?
  intro other
  rw [modify_getElem?, modify_getElem?, modify_getElem?, modify_getElem?]
  by_cases same : key = other
  · rw [if_pos same, if_pos same, if_pos rfl, Option.map_map]
    rfl
  · rw [if_neg same, if_neg same, if_neg same]

theorem modify_same (map : OrderedMap K V) (key : K) : (map.modify key fun value => value) = map := by
  apply Std.ExtTreeMap.ext_getElem?
  intro other
  rw [modify_getElem?]
  split
  · next same => rw [Option.map_id', same]
  · rfl

/-- An entry of the list is a key with its value. -/
theorem mem_toList {map : OrderedMap K V} {key : K} {value : V} :
    (key, value) ∈ map.toList ↔ map[key]? = some value :=
  Std.ExtTreeMap.mem_toList_iff_getElem?_eq_some

/-- The keys of the list are all different. -/
theorem keys_nodup (map : OrderedMap K V) : (map.toList.map Prod.fst).Nodup := by
  rw [List.Nodup, List.pairwise_map]
  exact map.distinct_keys_toList.imp fun different same => different (compare_eq_iff_eq.mpr same)

theorem toList_nodup (map : OrderedMap K V) : map.toList.Nodup := (keys_nodup map).of_map

/-- A fresh key brings one entry more. -/
theorem toList_insert_fresh {map : OrderedMap K V} {key : K} (value : V) (fresh : map[key]? = none) :
    (map.insert key value).toList.Perm ((key, value) :: map.toList) := by
  have absent : (key, value) ∉ map.toList := by
    rw [mem_toList, fresh]
    nofun
  rw [List.perm_ext_iff_of_nodup (toList_nodup _) (List.nodup_cons.mpr ⟨absent, toList_nodup map⟩)]
  rintro ⟨other, found⟩
  rw [mem_toList, List.mem_cons, mem_toList, Std.ExtTreeMap.getElem?_insert, Prod.mk.injEq]
  simp only [compare_eq_iff_eq]
  by_cases same : key = other
  · subst same
    rw [if_pos rfl, fresh]
    simp [eq_comm]
  · rw [if_neg same]
    simp [Ne.symm same]

/-- One entry stands apart from all others. -/
theorem toList_erase {map : OrderedMap K V} {key : K} {value : V} (found : map[key]? = some value) :
    map.toList.Perm ((key, value) :: (map.erase key).toList) := by
  have missing : (map.erase key)[key]? = none := by rw [Std.ExtTreeMap.getElem?_erase_self]
  have restored : (map.erase key).insert key value = map := by
    apply Std.ExtTreeMap.ext_getElem?
    intro other
    rw [Std.ExtTreeMap.getElem?_insert, Std.ExtTreeMap.getElem?_erase]
    simp only [compare_eq_iff_eq]
    by_cases same : key = other
    · rw [if_pos same, ← same, found]
    · rw [if_neg same, if_neg same]
  have perm := toList_insert_fresh value missing
  rwa [restored] at perm

/-- A replaced value changes one entry. -/
theorem toList_insert {map : OrderedMap K V} {key : K} (value : V) :
    (map.insert key value).toList.Perm ((key, value) :: (map.erase key).toList) := by
  have found : (map.insert key value)[key]? = some value := Std.ExtTreeMap.getElem?_insert_self
  have same : (map.insert key value).erase key = map.erase key := by
    apply Std.ExtTreeMap.ext_getElem?
    intro other
    rw [Std.ExtTreeMap.getElem?_erase, Std.ExtTreeMap.getElem?_erase, Std.ExtTreeMap.getElem?_insert]
    split
    · rfl
    · rfl
  rw [← same]
  exact toList_erase found

/-- Two maps that agree on the chosen entries list them in the same order. -/
theorem filter_toList_congr {first second : OrderedMap K V} {chosen other : K × V → Bool}
    (agree : ∀ key value, first[key]? = some value ∧ chosen (key, value) = true ↔
      second[key]? = some value ∧ other (key, value) = true) :
    first.toList.filter chosen = second.toList.filter other := by
  have same : (first.filter fun key value => chosen (key, value)) = second.filter fun key value => other (key, value) := by
    apply Std.ExtTreeMap.ext_getElem?
    intro key
    apply Option.ext
    intro value
    rw [Std.ExtTreeMap.getElem?_filter', Std.ExtTreeMap.getElem?_filter']
    simpa only [Option.filter_eq_some_iff] using agree key value
  have lists := congrArg Std.ExtTreeMap.toList same
  rw [Std.ExtTreeMap.toList_filter, Std.ExtTreeMap.toList_filter] at lists
  exact lists

/-- A map into which items with different keys are inserted holds the value of each under its key. -/
theorem foldl_insert_getElem? {A : Type} {items : List A} {key : A → K} {value : A → V} (nodup : (items.map key).Nodup)
    {wanted : K} {found : V} :
    (items.foldl (fun map item => map.insert (key item) (value item)) (∅ : OrderedMap K V))[wanted]? = some found ↔
      ∃ item ∈ items, key item = wanted ∧ value item = found := by
  induction items using List.reverseRecOn with
  | nil => simp
  | append_singleton items last hypothesis =>
      rw [List.map_append, List.nodup_append] at nodup
      have fresh : ∀ item ∈ items, key item ≠ key last := fun item member =>
        nodup.2.2 _ (List.mem_map_of_mem member) _ (List.mem_map_of_mem List.mem_cons_self)
      rw [List.foldl_concat, insert_getElem?]
      simp only [List.mem_append, List.mem_singleton, or_and_right, exists_or, exists_eq_left]
      by_cases same : key last = wanted
      · subst same
        have absent : ¬∃ item ∈ items, key item = key last ∧ value item = found := by
          rintro ⟨item, member, same, -⟩
          exact fresh item member same
        simp [absent]
      · rw [if_neg same, hypothesis nodup.1]
        simp [same]

/-- A map is built again from the list of its entries. -/
theorem foldl_insert_toList (map : OrderedMap K V) :
    map.toList.foldl (fun built entry => built.insert entry.1 entry.2) (∅ : OrderedMap K V) = map := by
  apply Std.ExtTreeMap.ext_getElem?
  intro wanted
  apply Option.ext
  intro found
  rw [foldl_insert_getElem? (keys_nodup map), ← mem_toList]
  constructor
  · rintro ⟨entry, member, rfl, rfl⟩
    exact member
  · exact fun member => ⟨_, member, rfl, rfl⟩

theorem size_foldl_insert_le {A : Type} (items : List A) (key : A → K) (value : A → V) (start : OrderedMap K V) :
    (items.foldl (fun map item => map.insert (key item) (value item)) start).size ≤ start.size + items.length := by
  induction items using List.reverseRecOn with
  | nil => exact le_refl _
  | append_singleton items last hypothesis =>
      rw [List.foldl_concat, List.length_append, List.length_singleton, ← Nat.add_assoc]
      exact Std.ExtTreeMap.size_insert_le.trans (Nat.succ_le_succ hypothesis)

/-- The first entries of the list make up the map only when they are all of them. -/
theorem foldl_insert_take_iff (map : OrderedMap K V) (count : Nat) :
    (map.toList.take count).foldl (fun built entry => built.insert entry.1 entry.2) (∅ : OrderedMap K V) = map ↔
      map.size ≤ count := by
  constructor
  · intro same
    have bound := size_foldl_insert_le (map.toList.take count) Prod.fst Prod.snd (∅ : OrderedMap K V)
    rw [same, Std.ExtTreeMap.size_empty, Nat.zero_add] at bound
    exact bound.trans (List.length_take_le _ _)
  · intro enough
    rw [List.take_of_length_le (by rwa [Std.ExtTreeMap.length_toList]), foldl_insert_toList]

/-- Changes of entries that are there touch every entry as often as its key is named. -/
theorem foldl_entry_getElem? {A : Type} {items : List A} {key : A → K} {default : V} {change : A → V → V}
    {map : OrderedMap K V} (present : ∀ item ∈ items, ∃ value, map[key item]? = some value) (wanted : K) :
    (items.foldl (fun map item => map.entry (key item) default (change item)) map)[wanted]? =
      (map[wanted]?).map fun value =>
        (items.filter fun item => key item = wanted).foldl (fun value item => change item value) value := by
  induction items generalizing map with
  | nil => simp
  | cons first rest hypothesis =>
      rw [List.foldl_cons, hypothesis, entry_getElem?]
      · obtain ⟨value, found⟩ := present first List.mem_cons_self
        by_cases same : key first = wanted
        · subst same
          simp [found]
        · simp [same]
      · intro item member
        obtain ⟨value, found⟩ := present item (List.mem_cons_of_mem first member)
        rw [entry_getElem?]
        split
        · exact ⟨_, rfl⟩
        · exact ⟨value, found⟩

end OrderedMap
