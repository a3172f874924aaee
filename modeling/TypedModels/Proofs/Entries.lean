import Mathlib.Data.List.Induction
import TypedModels.OrderedMap

/-!
# Maps that are built from entries

A map that is built from entries has a key for every entry, in order of first occurrence. Each key is
bound to the last of its values. To add a map is to add the entries that it was built from, and so
maps may be joined in any grouping.

## Main definitions

* `OrderedMap.LastBinds` : the value of a key in the last map that has the key.
* `OrderedMap.Joins` : a map that holds what other maps hold, where later maps override earlier ones.
-/

namespace TypedModels

/-- Without a second occurrence, nothing is left out. -/
theorem eraseDups_of_nodup {names : List String} (h : names.Nodup) : names.eraseDups = names := by
  induction names with
  | nil => rfl
  | cons name names ih =>
    obtain ⟨hname, hrest⟩ := List.nodup_cons.1 h
    have others : names.filter (fun n => !n == name) = names := by
      refine List.filter_eq_self.2 fun n hn => ?_
      have : n ≠ name := fun he => hname (he ▸ hn)
      simp [this]
    rw [List.eraseDups_cons, others, ih hrest]

/-- A name that occurs before adds nothing. -/
theorem eraseDups_append_cons {before after : List String} {name : String} (h : name ∈ before) :
    (before ++ name :: after).eraseDups = (before ++ after).eraseDups := by
  rw [List.eraseDups_append, List.eraseDups_append, List.cons_removeAll]
  simp [h]

namespace OrderedMap

universe u

variable {α : Type u} {key l : String} {a b : α} {m n : OrderedMap α}

/-! ## Order and values -/

/-- The keys of an extended map: its own, and then those that are new. -/
theorem keys_extend (h : (keys m).Nodup) : keys (extend m n) = (keys m ++ keys n).eraseDups := by
  induction n generalizing m with
  | nil => simp [extend, eraseDups_of_nodup h]
  | cons e n ih =>
    have hstep : keys (extend m (e :: n)) = (keys (insert e.1 e.2 m) ++ keys n).eraseDups :=
      ih (nodup_keys_insert h)
    rw [hstep, keys_insert, keys_cons]
    split
    · next hmem => exact (eraseDups_append_cons hmem).symm
    · rw [List.append_assoc, List.singleton_append]

theorem keys_ofEntries (entries : List (String × α)) :
    keys (ofEntries entries) = (keys entries).eraseDups := keys_extend List.nodup_nil

theorem mem_keys_extend (h : key ∈ keys m) : key ∈ keys (extend m n) := by
  induction n generalizing m with
  | nil => exact h
  | cons e n ih =>
    refine ih ?_
    rw [keys_insert]
    split
    · exact h
    · exact List.mem_append_left _ h

/-- A key of an extended map has a value that was added, or its old one if none was. -/
theorem lookup_extend (h : (extend m n).lookup key = some a) :
    (key, a) ∈ n ∨ (m.lookup key = some a ∧ key ∉ keys n) := by
  induction n generalizing m with
  | nil => exact .inr ⟨h, List.not_mem_nil⟩
  | cons e n ih =>
    rcases ih h with hmem | ⟨hlookup, hrest⟩
    · exact .inl (List.mem_cons_of_mem e hmem)
    · rw [lookup_insert] at hlookup
      split at hlookup
      · next hkey =>
        cases hlookup
        exact .inl (hkey ▸ List.mem_cons_self)
      · next hkey => exact .inr ⟨hlookup, by simp [hkey, hrest]⟩

/-- What is bound is the last value that was added, or the old one if there is none. -/
theorem lookup_extend_eq : (extend m n).lookup key = (n.reverse.lookup key).or (m.lookup key) := by
  induction n generalizing m with
  | nil => simp [extend]
  | cons e n ih =>
    have hstep : (extend m (e :: n)).lookup key = (extend (insert e.1 e.2 m) n).lookup key := rfl
    rw [hstep, ih, lookup_insert, List.reverse_cons, List.lookup_append, lookup_cons]
    cases n.reverse.lookup key <;> by_cases h : key = e.1 <;> simp [h]

/-- A key of a map that is built from entries is bound to the value of its last entry. -/
theorem lookup_ofEntries_iff {entries : List (String × α)} :
    (ofEntries entries).lookup key = some a ↔
      ∃ before after, entries = before ++ (key, a) :: after ∧ key ∉ keys after := by
  rw [ofEntries, lookup_extend_eq, List.lookup_nil, Option.or_none, List.lookup_eq_some_iff]
  constructor
  · rintro ⟨after, before, hsplit, hafter⟩
    refine ⟨before.reverse, after.reverse, ?_, ?_⟩
    · simpa using congrArg List.reverse hsplit
    · intro hkey
      obtain ⟨e, he, rfl⟩ := List.mem_map.1 hkey
      simpa using hafter e (List.mem_reverse.1 he)
  · rintro ⟨before, after, rfl, hafter⟩
    refine ⟨after.reverse, before.reverse, by simp, fun e he => ?_⟩
    have hne : key ≠ e.1 := fun hkey =>
      hafter (hkey ▸ List.mem_map_of_mem (List.mem_reverse.1 he))
    simpa using hne

/-- Where no key occurs twice, the entries are the map. -/
theorem extend_of_nodup (h : (keys (m ++ n)).Nodup) : extend m n = m ++ n := by
  induction n generalizing m with
  | nil => simp [extend]
  | cons e n ih =>
    have hfresh : e.1 ∉ keys m := by
      rw [keys, List.map_append, List.map_cons] at h
      exact fun hmem => (List.nodup_append.1 h).2.2 _ hmem _ List.mem_cons_self rfl
    have hstep : insert e.1 e.2 m = m ++ [e] :=
      insert_of_lookup_eq_none (lookup_eq_none_iff.2 hfresh)
    calc extend m (e :: n)
        = extend (m ++ [e]) n := by rw [← hstep]; rfl
      _ = m ++ e :: n := by rw [ih (by simpa using h)]; simp

theorem ofEntries_of_nodup {entries : List (String × α)} (h : (keys entries).Nodup) :
    ofEntries entries = entries := extend_of_nodup h

/-- Some map has the value under the key, and no later one has the key. -/
def LastBinds (maps : List (OrderedMap α)) (key : String) (a : α) : Prop :=
  ∃ before m after, maps = before ++ m :: after ∧ (key, a) ∈ m ∧ ∀ n ∈ after, key ∉ keys n

/-- The keys of the map are those of the maps, in order of first occurrence, and each is bound as the
last map with the key binds it. -/
structure Joins (maps : List (OrderedMap α)) (m : OrderedMap α) : Prop where
  keys_eq : keys m = (maps.flatMap keys).eraseDups
  lastBinds : ∀ key a, m.lookup key = some a → LastBinds maps key a

section Joined

variable {maps : List (OrderedMap α)}

theorem foldl_extend : maps.foldl extend m = extend m maps.flatten := by
  induction maps generalizing m with
  | nil => rfl
  | cons n maps ih =>
    rw [List.foldl_cons, ih, List.flatten_cons]
    exact List.foldl_append.symm

theorem keys_flatten : keys maps.flatten = maps.flatMap keys := by
  rw [keys, List.map_flatten, List.flatMap]
  rfl

theorem LastBinds.cons (h : LastBinds maps key a) : LastBinds (m :: maps) key a := by
  obtain ⟨before, m', after, rfl, hbinds⟩ := h
  exact ⟨m :: before, m', after, rfl, hbinds⟩

/-- What is bound after maps have been added is what the last map with the key has bound. -/
theorem lastBinds_of_lookup (h : (maps.foldl extend m).lookup key = some a) :
    LastBinds maps key a ∨ (m.lookup key = some a ∧ ∀ n ∈ maps, key ∉ keys n) := by
  induction maps generalizing m with
  | nil => exact .inr ⟨h, List.forall_mem_nil _⟩
  | cons n maps ih =>
    rcases ih h with hlast | ⟨hlookup, hrest⟩
    · exact .inl hlast.cons
    · rcases lookup_extend hlookup with hmem | ⟨hlookup, hkey⟩
      · exact .inl ⟨[], n, maps, rfl, hmem, hrest⟩
      · exact .inr ⟨hlookup, List.forall_mem_cons.2 ⟨hkey, hrest⟩⟩

/-- Maps that are added one after the other are joined. -/
theorem joins_foldl_extend : Joins maps (maps.foldl extend []) where
  keys_eq := by rw [foldl_extend, ← ofEntries, keys_ofEntries, keys_flatten]
  lastBinds _ _ h := (lastBinds_of_lookup h).resolve_right (by simp)

end Joined

/-! ## Regrouping -/

theorem insert_insert_self : insert key a (insert key b m) = insert key a m := by
  induction m with
  | nil => simp [insert]
  | cons e m ih =>
    by_cases h : e.1 = key <;> simp [insert, h, ih]

/-- A key that has its place can be bound before or after another one. -/
theorem insert_comm (h : key ∈ keys m) (hne : l ≠ key) :
    insert key a (insert l b m) = insert l b (insert key a m) := by
  induction m with
  | nil => cases h
  | cons e m ih =>
    obtain ⟨k, c⟩ := e
    by_cases hkey : k = key
    · subst hkey
      simp [insert, hne.symm]
    · have hrest : key ∈ keys m := (List.mem_cons.1 h).resolve_left (Ne.symm hkey)
      by_cases hl : k = l <;> simp [insert, hkey, hl, hne, ih hrest]

theorem insert_extend (hm : key ∈ keys m) (hn : key ∉ keys n) :
    insert key a (extend m n) = extend (insert key a m) n := by
  induction n generalizing m with
  | nil => rfl
  | cons e n ih =>
    obtain ⟨hne, hrest⟩ := List.ne_and_not_mem_of_not_mem_cons hn
    have hkey : key ∈ keys (insert e.1 e.2 m) := mem_keys_extend (n := [e]) hm
    calc insert key a (extend m (e :: n))
        = extend (insert key a (insert e.1 e.2 m)) n := ih hkey hrest
      _ = extend (insert key a m) (e :: n) := by rw [insert_comm hm hne.symm]; rfl

theorem extend_insert (hn : (keys n).Nodup) :
    extend m (insert key a n) = insert key a (extend m n) := by
  induction n generalizing m with
  | nil => rfl
  | cons e n ih =>
    obtain ⟨k, b⟩ := e
    obtain ⟨hk, hrest⟩ := List.nodup_cons.1 hn
    by_cases hkey : k = key
    · subst hkey
      have hplace : k ∈ keys (insert k b m) := by
        rw [keys_insert]
        split <;> simp [*]
      calc extend m (insert k a ((k, b) :: n))
          = extend (insert k a (insert k b m)) n := by rw [insert_insert_self]; simp [insert, extend]
        _ = insert k a (extend m ((k, b) :: n)) := (insert_extend hplace hk).symm
    · have hcons : insert key a ((k, b) :: n) = (k, b) :: insert key a n := by simp [insert, hkey]
      rw [hcons]
      exact ih hrest

/-- To add a map is to add the entries that it was built from. -/
theorem extend_ofEntries (entries : List (String × α)) :
    extend m (ofEntries entries) = extend m entries := by
  induction entries using List.reverseRecOn with
  | nil => rfl
  | append_singleton entries e ih =>
    have last : ∀ m : OrderedMap α, extend m (entries ++ [e]) = insert e.1 e.2 (extend m entries) :=
      fun m => List.foldl_append
    calc extend m (ofEntries (entries ++ [e]))
        = extend m (insert e.1 e.2 (ofEntries entries)) := congrArg (extend m) (last [])
      _ = insert e.1 e.2 (extend m entries) := by
        rw [extend_insert (nodup_keys_ofEntries entries), ih]
      _ = extend m (entries ++ [e]) := (last m).symm

/-- Maps may be joined one by one or in two groups. -/
theorem foldl_extend_append (maps maps' : List (OrderedMap α)) :
    (maps ++ maps').foldl extend [] =
      [maps.foldl extend [], maps'.foldl extend []].foldl extend [] := by
  have group : ∀ (m : OrderedMap α) (maps : List (OrderedMap α)),
      extend m (maps.foldl extend []) = maps.foldl extend m := by
    intro m maps
    rw [foldl_extend, foldl_extend]
    exact extend_ofEntries maps.flatten
  rw [List.foldl_append, List.foldl_cons, List.foldl_cons, List.foldl_nil, group, group]

/-- A new key can be taken out again. -/
theorem erase_insert (h : key ∉ keys m) : erase key (insert key a m) = m := by
  have others : erase key m = m := by
    refine List.filter_eq_self.2 fun e he => ?_
    have : e.1 ≠ key := fun hkey => h (hkey ▸ List.mem_map_of_mem he)
    simpa using this
  rw [insert_of_lookup_eq_none (lookup_eq_none_iff.2 h), erase, List.filter_append]
  change erase key m ++ _ = m
  rw [others]
  simp

/-- What is bound last without a key is bound last with it, for any other key. -/
theorem LastBinds.of_erase {maps : List (OrderedMap α)} (h : LastBinds (maps.map (erase l)) key a)
    (hne : key ≠ l) : LastBinds maps key a := by
  obtain ⟨before, m, after, hmaps, hmem, hlast⟩ := h
  obtain ⟨before, rest, rfl, rfl, hrest⟩ := List.map_eq_append_iff.1 hmaps
  obtain ⟨m, after, rfl, rfl, rfl⟩ := List.map_eq_cons_iff.1 hrest
  refine ⟨before, m, after, rfl, (List.mem_filter.1 hmem).1, fun n hn hkey => ?_⟩
  refine hlast _ (List.mem_map_of_mem hn) ?_
  rw [keys_erase]
  exact List.mem_filter.2 ⟨hkey, by simpa using hne⟩

end OrderedMap

end TypedModels
