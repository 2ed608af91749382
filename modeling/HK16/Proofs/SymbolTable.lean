import HK16.Assembly.SymbolTable

/-!
# Lookup laws of symbol tables

A table is used through four operations: finding a name, binding a label,
giving a name the next cell, and starting with the predefined names. Each
operation is described here by what every name denotes afterwards and by the
entries in their order, so that the array of entries and its index are not
opened again. The two views together determine a table.
-/

namespace HK16.Assembly.SymbolTable

/-- A name has no entry exactly if the index does not know it. -/
theorem index_eq_none_iff {table : SymbolTable} {name : String} :
    table.index[name]? = none ↔ table.find? name = none := by
  constructor
  · intro h
    simp only [find?, h, Option.bind_none]
  · intro h
    cases hi : table.index[name]? with
    | none => rfl
    | some i =>
      have hlt := lt_size_of_index hi
      simp only [find?, hi, Option.bind_some, Array.getElem?_eq_getElem hlt, reduceCtorEq] at h

/-- The membership test agrees with lookup. -/
theorem contains_eq_isSome (table : SymbolTable) (name : String) :
    table.contains name = (table.find? name).isSome := by
  have h : table.contains name = table.index[name]?.isSome := by
    rw [contains, Std.TreeMap.contains_eq_isSome_getElem?]
  rw [h]
  cases hi : table.index[name]? with
  | none =>
    rw [index_eq_none_iff.mp hi]
    rfl
  | some i =>
    cases hf : table.find? name with
    | none => rw [index_eq_none_iff.mpr hf] at hi; cases hi
    | some symbol => rfl

/-- Binding a name changes what that name denotes and nothing else. -/
theorem find?_insert (table : SymbolTable) (symbol : Symbol) (name : String) :
    (table.insert symbol).find? name =
      if symbol.name = name then some symbol else table.find? name := by
  unfold insert
  split
  · next i h =>
    have hlt := lt_size_of_index h
    have hold := (table.index_eq_some_iff symbol.name i).mp h
    by_cases hn : symbol.name = name
    · subst hn
      simp [find?, h, hlt]
    · rw [if_neg hn]
      simp only [find?]
      cases hj : table.index[name]? with
      | none => rfl
      | some j =>
        have hne : i ≠ j := by
          rintro rfl
          rw [(table.index_eq_some_iff name i).mp hj, Option.some.injEq] at hold
          exact hn hold.symm
        simp [Array.getElem?_set, hne]
  · next h =>
    by_cases hn : symbol.name = name
    · subst hn
      simp [find?]
    · rw [if_neg hn]
      have hc : compare symbol.name name ≠ .eq := by simpa using hn
      simp only [find?, Std.TreeMap.getElem?_insert, hc, if_false]
      cases hj : table.index[name]? with
      | none => rfl
      | some j =>
        have hlt := lt_size_of_index hj
        have hne : j ≠ table.entries.size := by omega
        simp [Array.getElem?_push, hne]

/-- Binding a name takes no variable cell. -/
@[simp] theorem nextVariable_insert (table : SymbolTable) (symbol : Symbol) :
    (table.insert symbol).nextVariable = table.nextVariable := by
  unfold insert
  split <;> rfl

/-- The predefined names with the addresses of the memory map. -/
def predefinedAddress? (name : String) : Option Word := MemoryMap.predefined.lookup name

/-- Predefined addresses have fifteen bits. -/
theorem predefinedAddress?_le {name : String} {address : Word}
    (h : predefinedAddress? name = some address) : address.toNat ≤ 32767 := by
  have hall : ∀ entry ∈ MemoryMap.predefined, entry.2.toNat ≤ 32767 := by decide +kernel
  obtain ⟨before, after, hsplit, -⟩ := List.lookup_eq_some_iff.mp h
  exact hall (name, address) (by rw [hsplit]; simp)

/-- Binding a list of predefined names gives each name its last address in the
list and leaves the other names as they were. -/
theorem find?_foldl_predefined (names : List (String × Word)) (table : SymbolTable)
    (name : String) (hd : (names.map Prod.fst).Nodup) :
    (names.foldl (fun table (name, address) => table.insert ⟨name, .predefined, address⟩)
      table).find? name =
      match names.lookup name with
      | some address => some ⟨name, .predefined, address⟩
      | none => table.find? name := by
  induction names generalizing table with
  | nil => rfl
  | cons entry names ih =>
    obtain ⟨key, address⟩ := entry
    simp only [List.map_cons, List.nodup_cons] at hd
    rw [List.foldl_cons, ih _ hd.2, find?_insert, List.lookup_cons]
    by_cases hk : name = key
    · subst hk
      have hl : names.lookup name = none := by
        rw [List.lookup_eq_none_iff]
        intro entry he
        have hne : name ≠ entry.1 := fun e => hd.1 (e ▸ List.mem_map_of_mem he)
        simpa using hne
      simp [hl]
    · have hb : (name == key) = false := by simpa using hk
      have hk' : ¬ key = name := fun e => hk e.symm
      simp only [hb, if_neg hk']

/-- In the table of predefined names each of them has its address of the memory
map, and no other name is known. -/
theorem find?_predefined (name : String) :
    predefined.find? name = (predefinedAddress? name).map (⟨name, .predefined, ·⟩) := by
  have hd : (MemoryMap.predefined.map Prod.fst).Nodup := by decide +kernel
  rw [predefined, find?_foldl_predefined _ _ _ hd, predefinedAddress?]
  cases MemoryMap.predefined.lookup name with
  | none => simp [find?, empty]
  | some address => rfl

/-! ## The entries in their order -/

/-- What a name denotes is the entry of that name in the list. -/
theorem find?_eq_some_iff {table : SymbolTable} {name : String} {symbol : Symbol} :
    table.find? name = some symbol ↔ symbol ∈ table.toList ∧ symbol.name = name := by
  constructor
  · intro h
    obtain ⟨i, hi, hsymbol⟩ := Option.bind_eq_some_iff.mp h
    have hname := (table.index_eq_some_iff name i).mp hi
    rw [hsymbol, Option.map_some, Option.some.injEq] at hname
    exact ⟨Array.mem_toList_iff.mpr (Array.mem_of_getElem? hsymbol), hname⟩
  · rintro ⟨hmem, rfl⟩
    obtain ⟨i, hsymbol⟩ := Array.mem_iff_getElem?.mp (Array.mem_toList_iff.mp hmem)
    have hi : table.index[symbol.name]? = some i := by
      rw [table.index_eq_some_iff, hsymbol, Option.map_some]
    rw [find?, hi, Option.bind_some, hsymbol]

/-- No name has two entries. -/
theorem nodup_names (table : SymbolTable) : (table.toList.map Symbol.name).Nodup := by
  rw [List.Nodup, List.pairwise_map, List.pairwise_iff_getElem]
  intro i j hi hj hlt hsame
  have hposition {k : Nat} (hk : k < table.toList.length) :
      table.index[table.toList[k].name]? = some k := by
    have hentry : table.entries[k]? = some table.toList[k] := by
      rw [← Array.getElem?_toList]
      exact List.getElem?_eq_getElem hk
    rw [table.index_eq_some_iff, hentry, Option.map_some]
  have hboth := hposition hi
  rw [hsame, hposition hj, Option.some.injEq] at hboth
  omega

/-- The entries after a name was bound. -/
theorem mem_toList_insert {table : SymbolTable} {symbol entry : Symbol} :
    entry ∈ (table.insert symbol).toList ↔
      entry = symbol ∨ entry ∈ table.toList ∧ entry.name ≠ symbol.name := by
  have hfound (table : SymbolTable) :
      entry ∈ table.toList ↔ table.find? entry.name = some entry := by
    rw [find?_eq_some_iff, and_iff_left rfl]
  rw [hfound, hfound, find?_insert]
  by_cases hn : symbol.name = entry.name
  · simp [hn, eq_comm]
  · have hne : entry ≠ symbol := fun e => hn (by rw [e])
    simp [hn, hne, Ne.symm hn]

/-- Binding a name leaves the entries in front of it in their places. -/
theorem take_toList_insert {table : SymbolTable} {symbol : Symbol} {count : Nat}
    (hcount : count ≤ table.toList.length)
    (hname : symbol.name ∉ (table.toList.take count).map Symbol.name) :
    (table.insert symbol).toList.take count = table.toList.take count := by
  unfold insert
  split
  · next i h =>
    have hat := (table.index_eq_some_iff symbol.name i).mp h
    have hbehind : count ≤ i := by
      refine Nat.le_of_not_lt fun hlt => hname ?_
      obtain ⟨old, hold, hsame⟩ := Option.map_eq_some_iff.mp hat
      rw [← Array.getElem?_toList, ← List.getElem?_take_of_lt hlt] at hold
      exact List.mem_map.mpr ⟨old, List.mem_of_getElem? hold, hsame⟩
    simp only [toList, Array.toList_set]
    exact List.take_set_of_le hbehind
  · simp only [toList, Array.toList_push]
    exact List.take_append_of_le_length hcount

/-- Binding a known name again leaves the index as it is. -/
theorem index_insert {table : SymbolTable} {symbol : Symbol}
    (h : table.find? symbol.name ≠ none) : (table.insert symbol).index = table.index := by
  unfold insert
  split
  · rfl
  · next hnone => exact absurd (index_eq_none_iff.mp hnone) h

/-- Tables that know the same names in the same places, give them the same
meaning and have the same next cell are equal. -/
theorem ext_find? {left right : SymbolTable} (hindex : left.index = right.index)
    (hnext : left.nextVariable = right.nextVariable)
    (hfind : ∀ name, left.find? name = right.find? name) : left = right := by
  have hentry {table other : SymbolTable} (hindex : table.index = other.index)
      (hfind : ∀ name, table.find? name = other.find? name) {i : Nat} {symbol : Symbol}
      (h : table.entries[i]? = some symbol) : other.entries[i]? = some symbol := by
    have hi : table.index[symbol.name]? = some i := by
      rw [table.index_eq_some_iff, h, Option.map_some]
    have hsame := hfind symbol.name
    rw [find?, find?, ← hindex, hi, Option.bind_some, Option.bind_some, h] at hsame
    exact hsame.symm
  have hentries : left.entries = right.entries := by
    refine Array.ext_getElem? fun i => Option.ext fun symbol => ?_
    exact ⟨hentry hindex hfind, hentry hindex.symm fun name => (hfind name).symm⟩
  cases left
  cases right
  cases hindex
  cases hnext
  cases hentries
  rfl

end HK16.Assembly.SymbolTable
