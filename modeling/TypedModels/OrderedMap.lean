/-!
# Maps in order of insertion

A map is the list of its entries. A new key goes to the end; a key that is present keeps its place
and takes the new value. No key occurs twice in a map that is built by insertion.

## Main definitions

* `OrderedMap` : lists of entries.
* `OrderedMap.insert`, `OrderedMap.erase`, `OrderedMap.extend` : updates.
* `OrderedMap.keys` : the keys in order. Values are looked up with `List.lookup`.
-/

namespace TypedModels

universe u

/-- The entries of a map in order of insertion. -/
abbrev OrderedMap (α : Type u) := List (String × α)

namespace OrderedMap

variable {α : Type u}

def keys (m : OrderedMap α) : List String := m.map (·.1)

/-- Binds a key, in its old place if it has one. -/
def insert (key : String) (a : α) : OrderedMap α → OrderedMap α
  | [] => [(key, a)]
  | (k, b) :: m => if k = key then (k, a) :: m else (k, b) :: insert key a m

/-- Removes a key and keeps the order of the others. -/
def erase (key : String) (m : OrderedMap α) : OrderedMap α := m.filter (·.1 ≠ key)

/-- Inserts the entries of a second map in order. -/
def extend (m n : OrderedMap α) : OrderedMap α :=
  n.foldl (fun m e => insert e.1 e.2 m) m

/-- The map with the given entries. A key that occurs again keeps its place and takes the later
value. -/
def ofEntries (entries : List (String × α)) : OrderedMap α := extend [] entries

/-! ## Laws -/

@[simp] theorem keys_nil : keys ([] : OrderedMap α) = [] := rfl

@[simp] theorem keys_cons (e : String × α) (m : OrderedMap α) :
    keys (e :: m) = e.1 :: keys m := rfl

theorem lookup_cons {key l : String} {a : α} {m : OrderedMap α} :
    List.lookup l ((key, a) :: m) = if l = key then some a else m.lookup l := by
  by_cases h : l = key
  · simp [h]
  · simp [List.lookup_cons, beq_false_of_ne h, h]

/-! A map whose values have been changed by a function has the same keys. -/

theorem keys_map {β : Type} (g : α → β) (m : OrderedMap α) :
    keys (m.map fun e => (e.1, g e.2)) = keys m := by
  simp [keys]

theorem lookup_map {β : Type} (g : α → β) (m : OrderedMap α) (key : String) :
    (m.map fun e => (e.1, g e.2)).lookup key = (m.lookup key).map g := by
  induction m with
  | nil => rfl
  | cons e m ih =>
    rw [List.map_cons, lookup_cons, lookup_cons, ih]
    split <;> rfl

theorem insert_ne_nil {key : String} {a : α} {m : OrderedMap α} : insert key a m ≠ [] := by
  cases m with
  | nil => simp [insert]
  | cons e m =>
    unfold insert
    split <;> simp

theorem lookup_insert (key l : String) (a : α) (m : OrderedMap α) :
    (insert key a m).lookup l = if l = key then some a else m.lookup l := by
  induction m with
  | nil =>
    by_cases h : l = key
    · simp [insert, h]
    · simp [insert, List.lookup_cons, h, beq_false_of_ne h]
  | cons e m ih =>
    obtain ⟨k, b⟩ := e
    by_cases hk : k = key
    · subst hk
      by_cases h : l = k
      · simp [insert, h]
      · simp [insert, List.lookup_cons, h, beq_false_of_ne h]
    · by_cases hl : l = k
      · subst hl; simp [insert, hk]
      · simp [insert, List.lookup_cons, hk, beq_false_of_ne hl, ih]

theorem keys_insert (key : String) (a : α) (m : OrderedMap α) :
    keys (insert key a m) = if key ∈ keys m then keys m else keys m ++ [key] := by
  induction m with
  | nil => simp [insert]
  | cons e m ih =>
    obtain ⟨k, b⟩ := e
    by_cases hk : k = key
    · simp [insert, hk]
    · by_cases hm : key ∈ keys m <;> simp [insert, hk, ih, hm, Ne.symm hk]

theorem nodup_keys_insert {key : String} {a : α} {m : OrderedMap α} (h : (keys m).Nodup) :
    (keys (insert key a m)).Nodup := by
  rw [keys_insert]
  split
  · exact h
  · next hk => exact List.nodup_append.2 ⟨h, by simp, by rintro _ ha _ hb rfl; simp_all⟩

theorem nodup_keys_extend {m n : OrderedMap α} (h : (keys m).Nodup) :
    (keys (extend m n)).Nodup := by
  induction n generalizing m with
  | nil => exact h
  | cons e n ih => exact ih (nodup_keys_insert h)

theorem nodup_keys_ofEntries (entries : List (String × α)) : (keys (ofEntries entries)).Nodup :=
  nodup_keys_extend List.nodup_nil

theorem mem_of_mem_insert {key : String} {a : α} {e : String × α} {m : OrderedMap α}
    (h : e ∈ insert key a m) : e = (key, a) ∨ e ∈ m := by
  induction m with
  | nil => simpa [insert] using h
  | cons f m ih =>
    obtain ⟨k, b⟩ := f
    unfold insert at h
    split at h
    · next hk =>
      rcases List.mem_cons.1 h with rfl | h
      · exact .inl (by rw [hk])
      · exact .inr (List.mem_cons_of_mem _ h)
    · rcases List.mem_cons.1 h with rfl | h
      · exact .inr List.mem_cons_self
      · exact (ih h).imp_right (List.mem_cons_of_mem _)

theorem mem_of_mem_extend {e : String × α} {m n : OrderedMap α} (h : e ∈ extend m n) :
    e ∈ m ∨ e ∈ n := by
  induction n generalizing m with
  | nil => exact .inl h
  | cons f n ih =>
    rcases ih h with h | h
    · refine (mem_of_mem_insert h).symm.imp_right ?_
      rintro rfl
      exact List.mem_cons_self
    · exact .inr (List.mem_cons_of_mem _ h)

/-- Every entry of a map is one that it was given. -/
theorem mem_of_mem_ofEntries {e : String × α} {entries : List (String × α)}
    (h : e ∈ ofEntries entries) : e ∈ entries := by
  simpa using mem_of_mem_extend h

theorem mem_of_lookup {key : String} {a : α} {m : OrderedMap α} (h : m.lookup key = some a) :
    (key, a) ∈ m := by
  obtain ⟨before, after, rfl, _⟩ := List.lookup_eq_some_iff.1 h
  simp

/-- Where no key occurs twice, a key is bound to whatever stands beside it. -/
theorem lookup_eq_some_iff {key : String} {a : α} {m : OrderedMap α} (h : (keys m).Nodup) :
    m.lookup key = some a ↔ (key, a) ∈ m := by
  refine ⟨mem_of_lookup, fun hm => ?_⟩
  induction m with
  | nil => cases hm
  | cons e m ih =>
    obtain ⟨k, b⟩ := e
    obtain ⟨hk, hn⟩ := List.nodup_cons.1 h
    rcases List.mem_cons.1 hm with he | hm
    · cases he; simp
    · have : key ≠ k := fun he => hk (List.mem_map.2 ⟨(key, a), hm, he⟩)
      simpa [List.lookup_cons, beq_false_of_ne this] using ih hn hm

theorem lookup_eq_none_iff {key : String} {m : OrderedMap α} :
    m.lookup key = none ↔ key ∉ keys m := by
  rw [List.lookup_eq_none_iff, keys, List.mem_map]
  constructor
  · rintro h ⟨e, he, rfl⟩
    simpa using h e he
  · intro h e he
    exact bne_iff_ne.2 fun hk => h ⟨e, he, hk.symm⟩

theorem isSome_lookup_iff {key : String} {m : OrderedMap α} :
    (m.lookup key).isSome = true ↔ key ∈ keys m := by
  rw [Option.isSome_iff_ne_none, ne_eq, lookup_eq_none_iff, Decidable.not_not]

/-- A new key goes to the end. -/
theorem insert_of_lookup_eq_none {key : String} {a : α} {m : OrderedMap α}
    (h : m.lookup key = none) : insert key a m = m ++ [(key, a)] := by
  induction m with
  | nil => rfl
  | cons e m ih =>
    obtain ⟨k, b⟩ := e
    by_cases hk : key = k
    · simp [hk] at h
    · have := ih (by simpa [List.lookup_cons, beq_false_of_ne hk] using h)
      simp [insert, Ne.symm hk, this]

/-- Entries that are added at the end do not change what is bound before. -/
theorem lookup_of_prefix {key : String} {a : α} {m n : OrderedMap α} (hp : m <+: n)
    (h : m.lookup key = some a) : n.lookup key = some a := by
  obtain ⟨rest, rfl⟩ := hp
  simp [List.lookup_append, h]

theorem lookup_erase (key l : String) (m : OrderedMap α) :
    (erase key m).lookup l = if l = key then none else m.lookup l := by
  induction m with
  | nil => simp [erase]
  | cons e m ih =>
    obtain ⟨k, b⟩ := e
    by_cases hk : k = key
    · subst hk
      by_cases h : l = k
      · subst h; simpa [erase] using ih
      · simpa [erase, List.lookup_cons, h, beq_false_of_ne h] using ih
    · by_cases hl : l = k
      · subst hl; simp [erase, hk]
      · simpa [erase, hk, List.lookup_cons, beq_false_of_ne hl] using ih

theorem keys_erase (key : String) (m : OrderedMap α) :
    keys (erase key m) = (keys m).filter (· ≠ key) := by
  simp [keys, erase, List.filter_map, Function.comp_def]

end OrderedMap

end TypedModels
