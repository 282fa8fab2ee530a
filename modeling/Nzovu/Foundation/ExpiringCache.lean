import Mathlib.Data.List.Basic

/-!
# A Cache with Expiry

A map from keys to values of bounded size. An entry lives for a limited time after it was stored,
and when the map grows too large the entry that was used longest ago is dropped. The entries are
listed in the order of their last use, the latest first; a key has at most one entry.
-/

namespace Nzovu.Foundation

/-- One entry with the time it was stored. -/
structure CacheEntry (κ ν : Type) where
  key : κ
  value : ν
  createdAt : Int

/-- The entries of a cache, latest use first. -/
abbrev Cache (κ ν : Type) := List (CacheEntry κ ν)

namespace Cache

variable {κ ν : Type} [DecidableEq κ]

/-- The entry of a key. -/
def find (cache : Cache κ ν) (key : κ) : Option (CacheEntry κ ν) := cache.find? (·.key = key)

/-- The entries of other keys. -/
def remove (cache : Cache κ ν) (key : κ) : Cache κ ν := cache.filter (·.key ≠ key)

/-- Drop what has expired. -/
def cleanup (ttl now : Int) (cache : Cache κ ν) : Cache κ ν :=
  cache.filter fun entry => now - entry.createdAt ≤ ttl

/-- Look a key up: an expired entry is removed, a live one becomes the latest used. -/
def get (ttl now : Int) (cache : Cache κ ν) (key : κ) : Cache κ ν × Option ν :=
  match cache.find key with
  | none => (cache, none)
  | some entry =>
    if ttl < now - entry.createdAt then (cache.remove key, none)
    else (entry :: cache.remove key, some entry.value)

/-- Store a value; a new key may push out the entries used longest ago. -/
def set (ttl : Int) (maxEntries : Nat) (now : Int) (cache : Cache κ ν) (key : κ) (value : ν) :
    Cache κ ν :=
  let live := cache.cleanup ttl now
  let updated := ⟨key, value, now⟩ :: live.remove key
  if (live.find key).isSome then updated else updated.take maxEntries

/-! ## What the operations keep -/

theorem mem_of_find {cache : Cache κ ν} {key : κ} {entry : CacheEntry κ ν}
    (h : cache.find key = some entry) : entry ∈ cache ∧ entry.key = key :=
  ⟨List.mem_of_find?_eq_some h, by simpa using List.find?_some h⟩

theorem mem_remove {cache : Cache κ ν} {key : κ} {entry : CacheEntry κ ν} :
    entry ∈ cache.remove key ↔ entry ∈ cache ∧ entry.key ≠ key := by
  simp [remove]

omit [DecidableEq κ] in
theorem mem_of_mem_cleanup {cache : Cache κ ν} {ttl now : Int} {entry : CacheEntry κ ν}
    (h : entry ∈ cache.cleanup ttl now) : entry ∈ cache :=
  List.mem_of_mem_filter h

/-- A hit returns the value of an entry of the key. -/
theorem get_some {cache : Cache κ ν} {ttl now : Int} {key : κ} {value : ν}
    (h : (cache.get ttl now key).2 = some value) :
    ∃ entry, cache.find key = some entry ∧ entry.value = value ∧ now - entry.createdAt ≤ ttl := by
  unfold get at h
  cases hfind : cache.find key with
  | none => simp [hfind] at h
  | some entry =>
    by_cases hexpired : ttl < now - entry.createdAt
    · simp [hfind, hexpired] at h
    · simp only [hfind, hexpired, if_false, Option.some.injEq] at h
      exact ⟨entry, rfl, h, by omega⟩

theorem mem_of_mem_get {cache : Cache κ ν} {ttl now : Int} {key : κ} {entry : CacheEntry κ ν}
    (h : entry ∈ (cache.get ttl now key).1) : entry ∈ cache := by
  unfold get at h
  cases hfind : cache.find key with
  | none => simpa [hfind] using h
  | some found =>
    by_cases hexpired : ttl < now - found.createdAt
    · simp only [hfind, hexpired, if_true] at h
      exact (mem_remove.mp h).1
    · simp only [hfind, hexpired, if_false, List.mem_cons] at h
      rcases h with rfl | h
      · exact (mem_of_find hfind).1
      · exact (mem_remove.mp h).1

theorem mem_of_mem_set {cache : Cache κ ν} {ttl now : Int} {maxEntries : Nat} {key : κ}
    {value : ν} {entry : CacheEntry κ ν} (h : entry ∈ cache.set ttl maxEntries now key value) :
    entry = ⟨key, value, now⟩ ∨ entry ∈ cache ∧ entry.key ≠ key := by
  have hupdated : entry ∈ (⟨key, value, now⟩ : CacheEntry κ ν) ::
      (cache.cleanup ttl now).remove key := by
    unfold set at h
    dsimp only at h
    split at h
    · exact h
    · exact List.mem_of_mem_take h
  rcases List.mem_cons.mp hupdated with heq | hmem
  · exact .inl heq
  · obtain ⟨hlive, hkey⟩ := mem_remove.mp hmem
    exact .inr ⟨mem_of_mem_cleanup hlive, hkey⟩

end Cache

end Nzovu.Foundation
