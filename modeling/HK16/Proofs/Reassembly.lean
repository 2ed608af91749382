import HK16.Proofs.Layout

/-!
# Assembling a program again

A program that is assembled a second time meets the table that the first time
left behind. Its labels are bound there already, in the end to the same
addresses, and its variables have their cells. So the second time takes the same
way through the three walks and changes nothing. This also holds if the first
time ended in the middle of a walk. Other programs in between are not covered.
-/

namespace HK16.Assembly

open SymbolTable

/-- The second table gives every name of the first one the same meaning. -/
def Extends (before after : SymbolTable) : Prop :=
  ∀ name symbol, before.find? name = some symbol → after.find? name = some symbol

theorem Extends.refl (table : SymbolTable) : Extends table table := fun _ _ h => h

theorem Extends.trans {first second third : SymbolTable} (h : Extends first second)
    (k : Extends second third) : Extends first third :=
  fun name symbol hfound => k name symbol (h name symbol hfound)

/-! ## The first walk -/

/-- What the first walk reports does not depend on the table. -/
theorem snd_bindLabelsFrom (next : Nat) (table other : SymbolTable) (program : List Placed) :
    (bindLabelsFrom next table program).2 = (bindLabelsFrom next other program).2 := by
  induction program generalizing next table other with
  | nil => rfl
  | cons placed program ih =>
    rw [bindLabelsFrom, bindLabelsFrom]
    split
    · exact ih _ _ _
    · split
      · exact ih _ _ _
      · rfl

/-- A walk that fails has walked over the part of the program that fits. -/
theorem exists_walked (next : Nat) (program : List Placed) (h : next ≤ programMax) :
    ∃ walked, ∀ table, (bindLabelsFrom next table walked).2 = .ok () ∧
      (bindLabelsFrom next table program).1 = (bindLabelsFrom next table walked).1 := by
  induction program generalizing next with
  | nil => exact ⟨[], fun table => ⟨rfl, rfl⟩⟩
  | cons placed program ih =>
    cases hs : placed.statement with
    | label name =>
      obtain ⟨walked, hwalked⟩ := ih next h
      refine ⟨placed :: walked, fun table => ?_⟩
      simp only [bindLabelsFrom, hs]
      exact hwalked _
    | address _ | compute _ =>
      by_cases hlt : next < programMax
      · obtain ⟨walked, hwalked⟩ := ih (next + 1) hlt
        refine ⟨placed :: walked, fun table => ?_⟩
        simp only [bindLabelsFrom, hs, if_pos hlt]
        exact hwalked table
      · refine ⟨[], fun table => ⟨rfl, ?_⟩⟩
        simp only [bindLabelsFrom, hs, if_neg hlt]

/-- A label that is known already keeps its place. -/
theorem index_bindLabel {table : SymbolTable} {name : String} (address : Word)
    (h : table.find? name ≠ none) : (table.bindLabel name address).index = table.index := by
  unfold bindLabel
  split
  · rfl
  · exact index_insert h

/-- Labels that are known already keep their places. -/
theorem index_bindLabelsFrom {next : Nat} {table : SymbolTable} {program : List Placed}
    (h : ∀ name, Statement.label name ∈ statements program → table.find? name ≠ none) :
    (bindLabelsFrom next table program).1.index = table.index := by
  induction program generalizing next table with
  | nil => rfl
  | cons placed program ih =>
    rw [statements, List.map_cons] at h
    have hrest : ∀ name, Statement.label name ∈ statements program → table.find? name ≠ none :=
      fun name hname => h name (List.mem_cons_of_mem _ hname)
    rw [bindLabelsFrom]
    split
    · next label hs =>
      have hknown : table.find? label ≠ none := h label (by rw [hs]; exact List.mem_cons_self)
      rw [ih, index_bindLabel _ hknown]
      intro name hname
      rw [find?_bindLabel]
      split
      · exact Option.some_ne_none _
      · exact hrest name hname
    · split
      · exact ih hrest
      · rfl

/-- A table in which the labels of a walk have their final meaning is left as it
is by that walk. On the way a label that is declared twice is bound to its first
address and back again, so the walk is not followed step by step. -/
theorem fst_bindLabelsFrom_of_extends {next : Nat} {table bound : SymbolTable}
    {program : List Placed} (hok : ∀ table, (bindLabelsFrom next table program).2 = .ok ())
    (h : Extends (bindLabelsFrom next table program).1 bound) :
    (bindLabelsFrom next bound program).1 = bound := by
  have hlabel (name : String) (position : Nat)
      (hposition : labelPosition? name (statements program) = some position) :
      bound.kind? name = some .predefined ∨
        bound.find? name = some ⟨name, .label, BitVec.ofNat 16 (next + position)⟩ := by
    have hfound := find?_bindLabelsFrom table program name (hok table)
    rw [hposition] at hfound
    split at hfound
    · next hkind =>
      obtain ⟨symbol, hsymbol, hpredefined⟩ := Option.map_eq_some_iff.mp hkind
      left
      rw [kind?, h name symbol (hfound.trans hsymbol), Option.map_some, hpredefined]
    · exact .inr (h name _ hfound)
  refine ext_find? (index_bindLabelsFrom fun name hname hnone => ?_)
    (nextVariable_bindLabelsFrom next bound program) fun name => ?_
  · cases hposition : labelPosition? name (statements program) with
    | none => exact labelPosition?_eq_none_iff.mp hposition hname
    | some position =>
      rcases hlabel name position hposition with hkind | hfound
      · rw [kind?, hnone] at hkind
        cases hkind
      · rw [hnone] at hfound
        cases hfound
  · rw [find?_bindLabelsFrom bound program name (hok bound)]
    split
    · rfl
    · next hkind =>
      split
      · next position hposition =>
        exact ((hlabel name position hposition).resolve_left hkind).symm
      · rfl

/-- The first walk over a table that extends what it made before changes nothing
and reports the same. -/
theorem bindLabels_of_extends {table bound : SymbolTable} {program : List Placed}
    (h : Extends (bindLabels table program).1 bound) :
    bindLabels bound program = (bound, (bindLabels table program).2) := by
  obtain ⟨walked, hwalked⟩ := exists_walked 0 program (Nat.zero_le _)
  rw [bindLabels, (hwalked table).2] at h
  have hbound := fst_bindLabelsFrom_of_extends (fun table => (hwalked table).1) h
  rw [← (hwalked bound).2] at hbound
  exact Prod.ext hbound (snd_bindLabelsFrom 0 bound table program)

/-! ## The second walk -/

/-- Whether the table knows the symbol of a statement, if it refers to one. -/
def Knows (table : SymbolTable) : Statement → Prop
  | .address (.symbol name) => table.find? name ≠ none
  | _ => True

/-- An extension knows at least as much. -/
theorem Extends.knows {table other : SymbolTable} {statement : Statement} (h : Extends table other)
    (hknows : Knows table statement) : Knows other statement := by
  rcases statement with (value | name) | label | fields
  · trivial
  · obtain ⟨symbol, hfound⟩ := Option.ne_none_iff_exists'.mp hknows
    exact Option.ne_none_iff_exists'.mpr ⟨symbol, h name symbol hfound⟩
  · trivial
  · trivial

/-- A name that is unknown gets a cell without a change to the others. -/
theorem extends_withVariable {table : SymbolTable} {name : String}
    (h : table.find? name = none) : Extends table (withVariable table name) := by
  intro other symbol hfound
  have hne : name ≠ other := by
    rintro rfl
    rw [h] at hfound
    cases hfound
  rw [find?_withVariable, if_neg hne]
  exact hfound

/-- A statement whose symbol is known is passed over. -/
theorem allocateVariables_of_knows {table : SymbolTable} {placed : Placed}
    (h : Knows table placed.statement) (program : List Placed) :
    allocateVariables table (placed :: program) = allocateVariables table program := by
  rw [allocateVariables]
  split
  · next name hs =>
    rw [hs] at h
    rw [contains_eq_isSome, if_pos (Option.isSome_iff_ne_none.mpr h)]
  · rfl

/-- At a symbol that is not known, it gets the next cell and the walk goes on, or
there is no cell and the walk ends. -/
theorem allocateVariables_of_not_knows {table : SymbolTable} {placed : Placed}
    (h : ¬Knows table placed.statement) (program : List Placed) :
    (∃ next, Extends table next ∧ Knows next placed.statement ∧
      allocateVariables table (placed :: program) = allocateVariables next program) ∨
    ∃ fault, allocateVariables table (placed :: program) = (table, .error fault) := by
  obtain ⟨line, (value | name) | label | fields⟩ := placed
  · exact absurd trivial h
  · have hunknown : table.find? name = none := not_not.mp h
    simp only [allocateVariables, contains_eq_isSome, hunknown]
    by_cases hroom : table.nextVariable ≤ Instruction.addressMax
    · rw [allocate_eq_ok name hroom]
      refine .inl ⟨_, extends_withVariable hunknown, ?_, rfl⟩
      rw [Knows, find?_withVariable, if_pos rfl]
      exact Option.some_ne_none _
    · rw [allocate, if_neg hroom]
      exact .inr ⟨_, rfl⟩
  · exact absurd trivial h
  · exact absurd trivial h

/-- The second walk keeps what is known, also if it fails. -/
theorem extends_allocateVariables (table : SymbolTable) (program : List Placed) :
    Extends table (allocateVariables table program).1 := by
  induction program generalizing table with
  | nil => exact Extends.refl table
  | cons placed program ih =>
    by_cases hknows : Knows table placed.statement
    · rw [allocateVariables_of_knows hknows]
      exact ih table
    · rcases allocateVariables_of_not_knows hknows program with
        ⟨next, hnext, -, hwalk⟩ | ⟨fault, hwalk⟩
      · rw [hwalk]
        exact hnext.trans (ih next)
      · rw [hwalk]
        exact Extends.refl table

/-- The second walk over its own table changes nothing and reports the same. -/
theorem allocateVariables_again (table : SymbolTable) (program : List Placed) :
    allocateVariables (allocateVariables table program).1 program =
      allocateVariables table program := by
  induction program generalizing table with
  | nil => rfl
  | cons placed program ih =>
    -- Where the walk went on, the symbol is known at its end and passed over the next time.
    have hpassed {start : SymbolTable} (hknows : Knows start placed.statement) :
        allocateVariables (allocateVariables start program).1 (placed :: program) =
          allocateVariables start program := by
      rw [allocateVariables_of_knows ((extends_allocateVariables start program).knows hknows)]
      exact ih start
    by_cases hknows : Knows table placed.statement
    · rw [allocateVariables_of_knows hknows]
      exact hpassed hknows
    · rcases allocateVariables_of_not_knows hknows program with
        ⟨next, -, hnext, hwalk⟩ | ⟨fault, hwalk⟩
      · rw [hwalk]
        exact hpassed hnext
      · rw [hwalk]
        exact hwalk

/-! ## All walks -/

/-- Assembling a program a second time, from the table that the first time left
behind, gives the same words or the same fault at the same line, and leaves the
table exactly as it is. This holds for every table to begin with, and wherever
the first time ended. -/
theorem assembleProgram_again (table : SymbolTable) (program : List Placed) :
    assembleProgram (assembleProgram table program).1 program = assembleProgram table program := by
  rcases hbind : bindLabels table program with ⟨bound, fault | ⟨⟩⟩
  · have hfirst : assembleProgram table program = (bound, .error fault) := by
      rw [assembleProgram, hbind]
    have hextends : Extends (bindLabels table program).1 bound := by
      rw [hbind]
      exact Extends.refl bound
    have hrebind : bindLabels bound program = (bound, .error fault) := by
      rw [bindLabels_of_extends hextends, hbind]
    rw [hfirst, assembleProgram, hrebind]
  · have hkept := extends_allocateVariables bound program
    have hallocate := allocateVariables_again bound program
    rcases hresult : allocateVariables bound program with ⟨resolved, result⟩
    rw [hresult] at hkept hallocate
    have hextends : Extends (bindLabels table program).1 resolved := by
      rw [hbind]
      exact hkept
    have hrebind : bindLabels resolved program = (resolved, .ok ()) := by
      rw [bindLabels_of_extends hextends, hbind]
    have hfirst : (assembleProgram table program).1 = resolved := by
      rw [assembleProgram, hbind]
      dsimp only
      rw [hresult]
      cases result <;> rfl
    rw [hfirst, assembleProgram, assembleProgram, hrebind, hbind]
    dsimp only
    rw [hallocate, hresult]

end HK16.Assembly
