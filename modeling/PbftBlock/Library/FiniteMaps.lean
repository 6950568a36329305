import Mathlib.Data.List.AList

/-!
# Finite maps with a key/value sweep

Association lists with unique keys already have lookup, insertion and erasure.
What is added here is the sweep that deletes every entry failing a test while
the map is being ranged over, and the default-on-miss read. The order of the
entries is never observable through a lookup.
-/

namespace PbftBlock.Library.FiniteMaps

set_option autoImplicit false

universe u v

variable {Key : Type u} {Value : Type v}

abbrev FiniteMap (Key : Type u) (Value : Type v) := AList fun _ : Key => Value

def retain (keep : Key → Value → Bool) (map : FiniteMap Key Value) : FiniteMap Key Value :=
  ⟨map.entries.filter fun entry => keep entry.1 entry.2,
    map.nodupKeys.sublist List.filter_sublist⟩

variable [DecidableEq Key]

theorem lookup_retain (keep : Key → Value → Bool) (map : FiniteMap Key Value) (key : Key) :
    (retain keep map).lookup key = (map.lookup key).filter (keep key) := by
  apply Option.ext
  intro value
  have kept : (retain keep map).lookup key = some value ↔
      Sigma.mk key value ∈ (retain keep map).entries := AList.mem_lookup_iff
  have stored : map.lookup key = some value ↔ Sigma.mk key value ∈ map.entries :=
    AList.mem_lookup_iff
  rw [kept, Option.filter_eq_some_iff, stored]
  simp [retain]

theorem lookup_retain_some {keep : Key → Value → Bool} {map : FiniteMap Key Value}
    {key : Key} {value : Value} (present : (retain keep map).lookup key = some value) :
    map.lookup key = some value ∧ keep key value = true := by
  rw [lookup_retain, Option.filter_eq_some_iff] at present
  exact present

theorem lookup_retain_of_kept {keep : Key → Value → Bool} {map : FiniteMap Key Value}
    {key : Key} {value : Value} (present : map.lookup key = some value)
    (kept : keep key value = true) : (retain keep map).lookup key = some value := by
  rw [lookup_retain, Option.filter_eq_some_iff]
  exact ⟨present, kept⟩

theorem lookup_insert_self (map : FiniteMap Key Value) (key : Key) (value : Value) :
    (map.insert key value).lookup key = some value :=
  AList.lookup_insert map

theorem lookup_insert_eq (map : FiniteMap Key Value) (key other : Key) (value : Value) :
    (map.insert key value).lookup other =
      if other = key then some value else map.lookup other := by
  by_cases same : other = key
  · subst same
    rw [if_pos rfl, lookup_insert_self]
  · rw [if_neg same]
    exact AList.lookup_insert_ne same

theorem keys_insert_fresh {map : FiniteMap Key Value} {key : Key}
    (absent : map.lookup key = none) (value : Value) :
    (map.insert key value).keys = key :: map.keys := by
  rw [AList.keys_insert, List.erase_of_not_mem]
  rw [← AList.mem_keys, ← AList.lookup_eq_none]
  exact absent

theorem keys_erase_perm {map : FiniteMap Key Value} {key : Key} {value : Value}
    (present : map.lookup key = some value) : map.keys.Perm (key :: (map.erase key).keys) := by
  rw [AList.keys_erase]
  apply List.perm_cons_erase
  rw [← AList.mem_keys, ← AList.lookup_isSome, present]
  rfl

theorem lookup_erase_eq (map : FiniteMap Key Value) (key other : Key) :
    (map.erase key).lookup other = if other = key then none else map.lookup other := by
  by_cases same : other = key
  · subst same
    rw [if_pos rfl]
    exact AList.lookup_erase _ map
  · rw [if_neg same]
    exact AList.lookup_erase_ne same

theorem mem_keys_iff (map : FiniteMap Key Value) (key : Key) :
    key ∈ map.keys ↔ ∃ value, map.lookup key = some value := by
  rw [← AList.mem_keys, ← AList.lookup_isSome, Option.isSome_iff_exists]

end PbftBlock.Library.FiniteMaps
