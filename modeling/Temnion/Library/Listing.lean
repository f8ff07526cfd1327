import Mathlib.Data.List.Nodup

/-
This file looks keys up in listings that name each key once.
-/

namespace Listing

variable {K V : Type} [BEq K] [LawfulBEq K] {listing other : List (K × V)} {key : K} {value : V}

theorem mem_of_lookup (found : listing.lookup key = some value) : (key, value) ∈ listing := by
  obtain ⟨front, back, rfl, _⟩ := List.lookup_eq_some_iff.mp found
  exact List.mem_append_right _ List.mem_cons_self

theorem lookup_of_mem (distinct : (listing.map Prod.fst).Nodup) (member : (key, value) ∈ listing) :
    listing.lookup key = some value := by
  obtain ⟨front, back, rfl⟩ := List.append_of_mem member
  rw [List.map_append, List.map_cons, List.nodup_append] at distinct
  refine List.lookup_eq_some_iff.mpr ⟨front, back, rfl, ?_⟩
  intro entry earlier
  have different := distinct.2.2 entry.1 (List.mem_map_of_mem earlier) key List.mem_cons_self
  exact bne_iff_ne.mpr different.symm

theorem mem_iff_lookup (distinct : (listing.map Prod.fst).Nodup) :
    (key, value) ∈ listing ↔ listing.lookup key = some value :=
  ⟨lookup_of_mem distinct, mem_of_lookup⟩

/-- The order of a listing does not matter. -/
theorem lookup_perm (distinct : (listing.map Prod.fst).Nodup) (perm : listing.Perm other) :
    listing.lookup key = other.lookup key := by
  have distinct' : (other.map Prod.fst).Nodup := (perm.map Prod.fst).nodup_iff.mp distinct
  apply Option.ext
  intro value
  rw [← mem_iff_lookup distinct, ← mem_iff_lookup distinct']
  exact perm.mem_iff

end Listing
