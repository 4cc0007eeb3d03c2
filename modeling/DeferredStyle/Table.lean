/-!
# Tables with text keys

A `Table` holds one value per key, in increasing key order.  Keys compare by code point, which is
also the order of their UTF-8 bytes.

* `increasing_insertEntry` — an insertion keeps the keys increasing.
* `find?_insert` — a look-up after an insertion sees the inserted value under its key and the old
  table elsewhere.
* `nodup_keys_of_increasing`, `mem_of_mem_ofList`, `entries_ofList` — what the entries of a table
  are.
-/

set_option autoImplicit false

namespace DeferredStyle

universe u v

/-- Entries whose keys increase, so that each key stands once. -/
def Increasing {α : Type u} (entries : List (String × α)) : Prop :=
  entries.Pairwise fun entry later => entry.1 < later.1

/-- Values by key, in increasing key order. -/
@[ext]
structure Table (α : Type u) where
  entries : List (String × α)
  increasing : Increasing entries

namespace Table

variable {α : Type u} {β : Type v}

/-! ## Entries -/

/-- Put `value` under `key` in a list of entries, before the first greater key. -/
def insertEntry (key : String) (value : α) : List (String × α) → List (String × α)
  | [] => [(key, value)]
  | (k, v) :: rest =>
    if key = k then (key, value) :: rest
    else if key < k then (key, value) :: (k, v) :: rest
    else (k, v) :: insertEntry key value rest

/-- The value of the first entry with the key `key`. -/
def lookup? (key : String) : List (String × α) → Option α
  | [] => none
  | (k, v) :: rest => if key = k then some v else lookup? key rest

/-- What stands in a list of entries after an insertion: the new entry and old ones. -/
theorem mem_insertEntry {key : String} {value : α} {entries : List (String × α)}
    {entry : String × α} (h : entry ∈ insertEntry key value entries) :
    entry = (key, value) ∨ entry ∈ entries := by
  induction entries with
  | nil => simpa [insertEntry] using h
  | cons head rest ih => grind [insertEntry]

/-- An insertion keeps the keys increasing. -/
theorem increasing_insertEntry (key : String) (value : α) {entries : List (String × α)}
    (h : Increasing entries) : Increasing (insertEntry key value entries) := by
  induction entries with
  | nil => exact List.pairwise_singleton _ _
  | cons head rest ih =>
    obtain ⟨k, v⟩ := head
    obtain ⟨hhead, hrest⟩ := List.pairwise_cons.mp h
    simp only [insertEntry]
    split
    · next heq =>
      subst heq
      exact List.pairwise_cons.mpr ⟨hhead, hrest⟩
    · next hne =>
      split
      · next hlt =>
        refine List.pairwise_cons.mpr ⟨fun entry hentry => ?_, h⟩
        rcases List.mem_cons.mp hentry with rfl | hmem
        · exact hlt
        · exact String.lt_trans hlt (hhead entry hmem)
      · next hge =>
        have hlt : k < key := by
          rcases String.le_total key k with hle | hle
          · exact absurd (String.le_antisymm hle (String.not_lt.mp hge)) hne
          · exact String.not_le.mp fun hle' => hne (String.le_antisymm hle' hle)
        refine List.pairwise_cons.mpr ⟨fun entry hentry => ?_, ih hrest⟩
        rcases mem_insertEntry hentry with rfl | hmem
        · exact hlt
        · exact hhead entry hmem

/-- No key stands twice among increasing entries. -/
theorem nodup_keys_of_increasing {entries : List (String × α)} (h : Increasing entries) :
    (entries.map Prod.fst).Nodup := by
  rw [List.Nodup, List.pairwise_map]
  refine h.imp fun {entry later} hlt heq => ?_
  rw [heq] at hlt
  exact String.lt_irrefl _ hlt

/-! ## Tables -/

/-- The table without entries. -/
def empty : Table α := ⟨[], .nil⟩

instance : Inhabited (Table α) := ⟨empty⟩

/-- Put `value` under `key`, in place of any value it had. -/
def insert (table : Table α) (key : String) (value : α) : Table α :=
  ⟨insertEntry key value table.entries, increasing_insertEntry key value table.increasing⟩

/-- The value under `key`. -/
def find? (table : Table α) (key : String) : Option α :=
  lookup? key table.entries

/-- The table without `key`. -/
def erase (table : Table α) (key : String) : Table α :=
  ⟨table.entries.filter fun (k, _) => k ≠ key, table.increasing.filter _⟩

/-- Whether `key` has a value. -/
def contains (table : Table α) (key : String) : Bool :=
  (table.find? key).isSome

/-- The keys in increasing order. -/
def keys (table : Table α) : List String :=
  table.entries.map Prod.fst

/-- The number of keys. -/
def size (table : Table α) : Nat :=
  table.entries.length

/-- The table of a list of pairs, in which the last pair of a key wins. -/
def ofList (pairs : List (String × α)) : Table α :=
  pairs.foldl (fun table (key, value) => table.insert key value) empty

/-- Apply `f` to every value. -/
def map (f : α → β) (table : Table α) : Table β where
  entries := table.entries.map fun entry => (entry.1, f entry.2)
  increasing := by
    have h := table.increasing
    unfold Increasing at h ⊢
    simpa only [List.pairwise_map] using h

/-! ## Look-ups -/

@[simp] theorem find?_empty (key : String) : (empty : Table α).find? key = none := rfl

theorem lookup?_insertEntry (key key' : String) (value : α) (entries : List (String × α)) :
    lookup? key' (insertEntry key value entries) =
      if key' = key then some value else lookup? key' entries := by
  induction entries with
  | nil => simp [insertEntry, lookup?]
  | cons entry rest ih => grind [insertEntry, lookup?]

/-- An insertion is seen under its key and nowhere else. -/
theorem find?_insert (table : Table α) (key key' : String) (value : α) :
    (table.insert key value).find? key' =
      if key' = key then some value else table.find? key' :=
  lookup?_insertEntry key key' value table.entries

/-! ## Tables of pairs -/

/-- The entries of a table that is built from pairs are among the pairs. -/
theorem mem_of_mem_ofList {pairs : List (String × α)} {entry : String × α}
    (h : entry ∈ (ofList pairs).entries) : entry ∈ pairs := by
  suffices hinserted : ∀ (table : Table α),
      entry ∈ (pairs.foldl (fun table pair => table.insert pair.1 pair.2) table).entries →
        entry ∈ table.entries ∨ entry ∈ pairs from
    (hinserted empty h).resolve_left nofun
  clear h
  induction pairs with
  | nil => exact fun table h => .inl h
  | cons pair pairs ih =>
    intro table h
    rcases ih _ h with hmem | hmem
    · rcases mem_insertEntry hmem with rfl | hmem
      · exact .inr List.mem_cons_self
      · exact .inl hmem
    · exact .inr (List.mem_cons_of_mem pair hmem)

/-- A key behind all others goes last. -/
theorem insertEntry_of_greater {key : String} {value : α} {entries : List (String × α)}
    (h : ∀ entry ∈ entries, entry.1 < key) :
    insertEntry key value entries = entries ++ [(key, value)] := by
  induction entries with
  | nil => rfl
  | cons entry entries ih =>
    obtain ⟨k, v⟩ := entry
    have hk : k < key := h (k, v) List.mem_cons_self
    have hne : key ≠ k := fun heq => String.lt_irrefl _ (heq ▸ hk)
    have hnot : ¬key < k := fun hlt => String.lt_irrefl _ (String.lt_trans hk hlt)
    rw [insertEntry, if_neg hne, if_neg hnot, ih fun e he => h e (List.mem_cons_of_mem _ he)]
    rfl

/-- The table of pairs that stand in increasing key order. -/
theorem entries_ofList {pairs : List (String × α)} (h : Increasing pairs) :
    (ofList pairs).entries = pairs := by
  suffices hinserted : ∀ table : Table α,
      (∀ entry ∈ table.entries, ∀ pair ∈ pairs, entry.1 < pair.1) →
        (pairs.foldl (fun table pair => table.insert pair.1 pair.2) table).entries =
          table.entries ++ pairs from
    hinserted empty nofun
  induction pairs with
  | nil => exact fun table _ => (List.append_nil _).symm
  | cons pair pairs ih =>
    intro table htable
    obtain ⟨hpair, hpairs⟩ := List.pairwise_cons.mp h
    have hentries : (table.insert pair.1 pair.2).entries = table.entries ++ [pair] :=
      insertEntry_of_greater fun entry hentry => htable entry hentry pair List.mem_cons_self
    have hstep := ih hpairs (table.insert pair.1 pair.2) fun entry hentry later hlater => by
      rw [hentries] at hentry
      rcases List.mem_append.mp hentry with hold | hnew
      · exact htable entry hold later (List.mem_cons_of_mem pair hlater)
      · rw [List.mem_singleton.mp hnew]
        exact hpair later hlater
    rw [List.foldl_cons, hstep, hentries, List.append_assoc]
    rfl

end Table

end DeferredStyle
