import HK16.Proofs.Session

/-!
# Label hygiene

Files that are lowered one after the other share one space of names. Functions
bring their own names, labels and calls those of their function with a dollar
sign and more, comparisons and static variables a stem with a point and a
number. The lowering does not look at the names that it is given, so that names
which imitate one another lead to labels that are declared twice or mean
something else, even if nothing is declared twice in the files. Under conditions
on the names this cannot happen, and every label stands for its own declaration.
-/

namespace HK16.Bytecode

open Assembly SymbolTable

/-! ## Several files -/

/-- Lower files, each given by its name and its lines, one after the other, with
the bootstrap in front of the first one if asked for. -/
def Lowering.files (lowering : Lowering) (boot : Bool) :
    List (String × List String) → Except (Located Fault) (List Statement)
  | [] => .ok []
  | (file, lines) :: sources =>
    match (lowering.enterFile file).unit lines boot with
    | (_, .error fault) => .error fault
    | (next, .ok code) => (next.files false sources).map (code ++ ·)

/-- What happens when files are lowered. -/
def fileEvents (boot : Bool) : List (String × List String) → List Event
  | [] => []
  | (file, lines) :: sources =>
    .file file :: ((Operation.unit lines boot).events ++ fileEvents false sources)

/-- The code of files is the code of their events. -/
theorem Lowering.Holds.files {lowering : Lowering} {entry : String} {scope : Scope} {boot : Bool}
    {sources : List (String × List String)} {program : List Statement}
    (h : lowering.Holds entry scope []) (hfiles : lowering.files boot sources = .ok program) :
    program = codeOf entry (trace scope (fileEvents boot sources)) := by
  induction sources generalizing lowering scope boot program with
  | nil =>
    obtain rfl := Except.ok.inj hfiles
    rfl
  | cons source sources ih =>
    obtain ⟨file, lines⟩ := source
    obtain ⟨hnext, hgood, hbad⟩ := (h.enterFile file).unit lines boot
    rw [Lowering.files] at hfiles
    rcases hunit : (lowering.enterFile file).unit lines boot with ⟨next, result⟩
    rw [hunit] at hfiles hnext hgood hbad
    cases hread : readable lines with
    | false =>
      obtain ⟨fault, rfl⟩ := hbad hread
      cases hfiles
    | true =>
      obtain rfl := hgood hread
      dsimp only at hfiles
      cases hrest : next.files false sources with
      | error fault =>
        rw [hrest] at hfiles
        cases hfiles
      | ok rest =>
        rw [hrest] at hfiles
        obtain rfl := Except.ok.inj hfiles
        rw [ih hnext hrest]
        dsimp only
        rw [← codeOf_append, List.append_assoc, ← trace_append]
        rfl

/-- The names under which calls are counted: files, functions and, if there is
one, the bootstrap. -/
def scopeNames (boot : Bool) (sources : List (String × List String)) : List String :=
  (fileEvents boot sources).flatMap Event.entered

/-- The labels of files, lowered from the given beginning on. -/
def labelsIn (start : String) (boot : Bool) (sources : List (String × List String)) :
    List Label :=
  labelsOf (trace (.ofFile start) (fileEvents boot sources))

/-- The commands of files. -/
def commandsOf (sources : List (String × List String)) : List Command :=
  sources.flatMap fun source => executed source.2

/-- The name of the function that a command starts. -/
def Command.functionName? : Command → Option String
  | .function name _ => some name
  | _ => none

/-- The name of the label that a command declares. -/
def Command.placeName? : Command → Option String
  | .label name => some name
  | _ => none

section Events

variable {boot : Bool} {sources : List (String × List String)}

/-- What happens when files are lowered is checked. -/
theorem checked_fileEvents : ∀ event ∈ fileEvents boot sources, event.Checked := by
  induction sources generalizing boot with
  | nil => exact fun _ hmem => absurd hmem List.not_mem_nil
  | cons source sources ih =>
    intro event hevent
    rw [fileEvents, List.mem_cons, List.mem_append] at hevent
    rcases hevent with rfl | hunit | hrest
    · trivial
    · exact Operation.checked_events _ event hunit
    · exact ih event hrest

/-- The commands among the events are those of the files. -/
theorem mem_commandsOf {command : Command} (h : .command command ∈ fileEvents boot sources) :
    command ∈ commandsOf sources := by
  induction sources generalizing boot with
  | nil => cases h
  | cons source sources ih =>
    rw [fileEvents, List.mem_cons, List.mem_append, Operation.events, List.mem_append] at h
    rw [commandsOf, List.flatMap_cons, List.mem_append]
    rcases h with hfile | (hboot | hunit) | hrest
    · cases hfile
    · split at hboot
      · cases List.mem_singleton.mp hboot
      · cases hboot
    · obtain ⟨found, hfound, heq⟩ := List.mem_map.mp hunit
      cases heq
      exact .inl hfound
    · exact .inr (ih hrest)

/-- Every file is entered. -/
theorem file_mem_scopeNames {file : String} (h : file ∈ sources.map Prod.fst) :
    file ∈ scopeNames boot sources := by
  induction sources generalizing boot with
  | nil => cases h
  | cons source sources ih =>
    rw [scopeNames, fileEvents, List.flatMap_cons, List.flatMap_append, List.mem_append,
      List.mem_append]
    rcases List.mem_cons.mp h with rfl | hrest
    · exact .inl (List.mem_singleton.mpr rfl)
    · exact .inr (.inr (ih hrest))

end Events

/-! ## Names with marks -/

theorem toList_marked (front back : String) :
    (front ++ "$" ++ back).toList = front.toList ++ '$' :: back.toList := by
  have hdollar : "$".toList = ['$'] := rfl
  rw [String.toList_append, String.toList_append, hdollar, List.append_assoc,
    List.singleton_append]

/-- A text that continues another one after a dollar sign. -/
theorem exists_marked_of_toList {front whole : String} {rest : List Char}
    (h : whole.toList = front.toList ++ '$' :: rest) : ∃ rest, whole = front ++ "$" ++ rest := by
  refine ⟨String.ofList rest, String.toList_inj.mp ?_⟩
  rw [h, toList_marked, String.toList_ofList]

/-- A dollar sign divides a name in one way, unless one of the two names in front
of it is contained in the other with its dollar sign. -/
theorem marked_inj {front front' back back' : String}
    (h : front ++ "$" ++ back = front' ++ "$" ++ back') :
    (front = front' ∧ back = back') ∨ (∃ rest, front' = front ++ "$" ++ rest) ∨
      ∃ rest, front = front' ++ "$" ++ rest := by
  have hlists := congrArg String.toList h
  rw [toList_marked, toList_marked] at hlists
  rcases append_cons_cases hlists with ⟨hfront, -, hback⟩ | ⟨rest, hrest, -⟩ | ⟨rest, hrest, -⟩
  · exact .inl ⟨String.toList_inj.mp hfront, String.toList_inj.mp hback⟩
  · exact .inr (.inl (exists_marked_of_toList hrest))
  · exact .inr (.inr (exists_marked_of_toList hrest))

/-- A name with a dollar sign that ends in a point and a number has the dollar
sign in front of the point. -/
theorem exists_of_marked_eq_dotted {front back stem : String} {number : Nat}
    (h : front ++ "$" ++ back = stem ++ "." ++ toString number) :
    ∃ rest, stem = front ++ "$" ++ rest := by
  have hpoint : ".".toList = ['.'] := rfl
  have hlists := congrArg String.toList h
  rw [toList_marked, String.toList_append, String.toList_append, hpoint, List.append_assoc,
    List.singleton_append] at hlists
  rcases append_cons_cases hlists with ⟨-, hmark, -⟩ | ⟨rest, hrest, -⟩ | ⟨rest, -, hdigits⟩
  · exact absurd hmark (by decide)
  · exact exists_marked_of_toList hrest
  · have hdollar : '$' ∈ (toString number).toList := by
      rw [hdigits]
      exact List.mem_append_right rest List.mem_cons_self
    exact absurd (isDigit_of_mem_toString hdollar) (by decide)

namespace Label

/-- What stands in front of and behind the dollar sign in the name of a label. -/
def mark? : Label → Option (String × String)
  | place function name => some (function, name)
  | afterCall function number => some (function, "ret." ++ toString number)
  | _ => none

/-- The name that a label belongs to: the function that begins or contains it. -/
def owner? : Label → Option String
  | entry function | place function _ | afterCall function _ => some function
  | _ => none

/-- Whether the label is the beginning of a function. -/
def isEntry : Label → Bool
  | entry _ => true
  | _ => false

/-- Whether the program names the label itself. -/
def isPlace : Label → Bool
  | place _ _ => true
  | _ => false

/-- Labels are all different if those of each family are. -/
theorem nodup_of_families {labels : List Label} (hentries : (labels.filter isEntry).Nodup)
    (hplaces : (labels.filter isPlace).Nodup) (hreturns : (labels.filter isReturn).Nodup)
    (hcomparisons : (labels.filter isComparison).Nodup) : labels.Nodup := by
  rw [List.nodup_iff_count_le_one]
  intro label
  have hcount (p : Label → Bool) (hlabel : p label = true) (h : (labels.filter p).Nodup) :
      labels.count label ≤ 1 := by
    rw [← List.count_filter hlabel]
    exact List.nodup_iff_count_le_one.mp h label
  cases label with
  | entry _ => exact hcount isEntry rfl hentries
  | place _ _ => exact hcount isPlace rfl hplaces
  | afterCall _ _ => exact hcount isReturn rfl hreturns
  | trueBranch _ | afterCompare _ => exact hcount isComparison rfl hcomparisons

/-- The name of a label is that of a function, or it has a dollar sign, or it
belongs to a comparison. -/
theorem shape (label : Label) :
    (∃ function, label = .entry function) ∨
      (∃ front back, label.mark? = some (front, back) ∧ label.owner? = some front ∧
        label.text = front ++ "$" ++ back) ∨
      (label.isComparison = true ∧ ∃ stem ∈ ["CMP_TRUE", "CMP_END"], ∃ number : Nat,
        label.text = stem ++ "." ++ toString number) := by
  cases label with
  | entry function => exact .inl ⟨function, rfl⟩
  | place function name => exact .inr (.inl ⟨function, name, rfl, rfl, rfl⟩)
  | afterCall function number =>
    refine .inr (.inl ⟨function, _, rfl, rfl, ?_⟩)
    have hmark : "$ret." = "$" ++ "ret." := rfl
    rw [text, hmark]
    simp only [String.append_assoc]
  | trueBranch number => exact .inr (.inr ⟨rfl, "CMP_TRUE", by decide, number, rfl⟩)
  | afterCompare number => exact .inr (.inr ⟨rfl, "CMP_END", by decide, number, rfl⟩)

/-- The stems of comparisons contain no dollar sign. -/
theorem marked_ne_dotted {front back stem : String} {number : Nat}
    (h : stem ∈ ["CMP_TRUE", "CMP_END"]) :
    front ++ "$" ++ back ≠ stem ++ "." ++ toString number := by
  intro heq
  obtain ⟨rest, hrest⟩ := exists_of_marked_eq_dotted heq
  have hdollar : '$' ∈ stem.toList := by
    rw [hrest, toList_marked]
    exact List.mem_append_right _ List.mem_cons_self
  have hfree : ∀ stem ∈ ["CMP_TRUE", "CMP_END"], '$' ∉ stem.toList := by decide
  exact hfree stem h hdollar

end Label

/-! ## Where labels come from -/

/-- A label of an event belongs to the function at its place or to a name that the
event enters. The function behind the event is one of these too. -/
theorem Event.owner_step (scope : Scope) (event : Event) :
    (∀ label ∈ event.labels scope, ∀ name, label.owner? = some name →
        name = scope.function ∨ name ∈ event.entered) ∧
      ((event.after scope).function = scope.function ∨
        (event.after scope).function ∈ event.entered) := by
  cases event with
  | file name => simp [labels, after, entered, Scope.enterFile]
  | boot => simp [labels, after, entered, Label.owner?]
  | command added =>
    cases added with
    | arithmetic operation =>
      cases operation <;> simp [labels, Command.labels, after, Scope.after, Label.owner?]
    | function name locals =>
      simp [labels, Command.labels, after, Scope.after, entered, Label.owner?]
    | push _ _ | pop _ _ | label _ | goto _ | ifGoto _ | call _ _ | return_ =>
      simp [labels, Command.labels, after, Scope.after, Label.owner?, eq_comm]

/-- A label of a run belongs to the function at its beginning or to a name that
the run enters. -/
theorem owner_mem {scope : Scope} {events : List Event} {label : Label} {name : String}
    (h : label ∈ labelsOf (trace scope events)) (hname : label.owner? = some name) :
    name = scope.function ∨ name ∈ events.flatMap Event.entered := by
  induction events generalizing scope with
  | nil => cases h
  | cons event events ih =>
    obtain ⟨hlabels, hafter⟩ := event.owner_step scope
    rw [labelsOf_trace_cons, List.mem_append] at h
    rw [List.flatMap_cons, List.mem_append]
    rcases h with hfirst | hrest
    · exact (hlabels label hfirst name hname).imp_right .inl
    · rcases ih hrest with rfl | hlater
      · exact hafter.imp_right .inl
      · exact .inr (.inr hlater)

/-- The functions that begin in a run are names that it enters. -/
theorem entries_sublist (scope : Scope) (events : List Event) :
    (((labelsOf (trace scope events)).filter Label.isEntry).map Label.text).Sublist
      (events.flatMap Event.entered) := by
  have hstep (place : Scope) (event : Event) :
      (((event.labels place).filter Label.isEntry).map Label.text).Sublist event.entered := by
    cases event with
    | file _ | boot => exact List.nil_sublist _
    | command added =>
      cases added with
      | arithmetic operation => cases operation <;> exact List.Sublist.refl _
      | push _ _ | pop _ _ | label _ | goto _ | ifGoto _ | function _ _ | call _ _ | return_ =>
        exact List.Sublist.refl _
  induction events generalizing scope with
  | nil => exact List.Sublist.refl _
  | cons event events ih =>
    rw [labelsOf_trace_cons, List.filter_append, List.map_append, List.flatMap_cons]
    exact (hstep scope event).append (ih (event.after scope))

/-- Every label of a run is one of an event at some place. -/
theorem exists_event_of_mem {scope : Scope} {events : List Event} {label : Label}
    (h : label ∈ labelsOf (trace scope events)) :
    ∃ event ∈ events, ∃ place, label ∈ event.labels place := by
  obtain ⟨item, hitem, hlabel⟩ := List.mem_flatMap.mp h
  exact ⟨item.2, mem_of_mem_trace hitem, item.1, hlabel⟩

/-- Labels that the program names come from the commands that name them. -/
theorem Event.command_of_mem_labels {event : Event} {scope : Scope} {label : Label}
    (h : label ∈ event.labels scope) :
    (∀ name, label = .entry name → ∃ locals, event = .command (.function name locals)) ∧
      ∀ function name, label = .place function name → event = .command (.label name) := by
  cases event with
  | file _ => cases h
  | boot =>
    rw [labels, List.mem_singleton] at h
    subst h
    simp
  | command added =>
    cases added with
    | arithmetic operation =>
      cases operation with
      | eq | gt | lt =>
        simp only [labels, Command.labels, List.mem_cons, List.not_mem_nil, or_false] at h
        rcases h with rfl | rfl <;> simp
      | add | sub | neg | and | or | not => cases h
    | label _ | function _ _ | call _ _ =>
      rw [labels, Command.labels, List.mem_singleton] at h
      subst h
      simp
    | push _ _ | pop _ _ | goto _ | ifGoto _ | return_ => cases h

section Files

variable {start : String} {boot : Bool} {sources : List (String × List String)}

theorem labelsIn_cons (source : String × List String) :
    labelsIn start boot (source :: sources) =
      labelsOf (trace ((Scope.ofFile start).enterFile source.1)
        ((Operation.unit source.2 boot).events ++ fileEvents false sources)) := rfl

theorem scopeNames_cons (source : String × List String) :
    scopeNames boot (source :: sources) = source.1 ::
      ((Operation.unit source.2 boot).events ++ fileEvents false sources).flatMap
        Event.entered := rfl

/-- A label of files belongs to a name that they enter. -/
theorem owner_mem_scopeNames {label : Label} {name : String}
    (h : label ∈ labelsIn start boot sources) (hname : label.owner? = some name) :
    name ∈ scopeNames boot sources := by
  cases sources with
  | nil => cases h
  | cons source sources =>
    rw [labelsIn_cons] at h
    rw [scopeNames_cons, List.mem_cons]
    exact owner_mem h hname

/-- If no name is entered twice, no label behind a call comes twice in files. -/
theorem nodup_returns_labelsIn (h : (scopeNames boot sources).Nodup) :
    ((labelsIn start boot sources).filter Label.isReturn).Nodup := by
  cases sources with
  | nil => exact List.nodup_nil
  | cons source sources =>
    rw [scopeNames_cons] at h
    rw [labelsIn_cons]
    exact nodup_returns h

/-- A label at the beginning of a function comes from that function. -/
theorem function_mem_commandsOf {name : String}
    (h : .entry name ∈ labelsIn start boot sources) :
    ∃ locals, .function name locals ∈ commandsOf sources := by
  obtain ⟨event, hevent, place, hlabel⟩ := exists_event_of_mem h
  obtain ⟨locals, rfl⟩ := (Event.command_of_mem_labels hlabel).1 name rfl
  exact ⟨locals, mem_commandsOf hevent⟩

/-- A label of the program comes from its declaration. -/
theorem label_mem_commandsOf {function name : String}
    (h : .place function name ∈ labelsIn start boot sources) :
    .label name ∈ commandsOf sources := by
  obtain ⟨event, hevent, place, hlabel⟩ := exists_event_of_mem h
  obtain rfl := (Event.command_of_mem_labels hlabel).2 function name rfl
  exact mem_commandsOf hevent

end Files

/-! ## Names that are kept apart -/

/-- Conditions on the names in files. The first two say that nothing is declared
twice; the others, that no name imitates one of another kind. -/
structure WellNamed (start : String) (boot : Bool) (sources : List (String × List String)) :
    Prop where
  /-- Files, functions and the bootstrap have different names. -/
  scopes : (scopeNames boot sources).Nodup
  /-- No label is declared twice in one function. -/
  places : ((labelsIn start boot sources).filter Label.isPlace).Nodup
  /-- None of the names of files, functions and the bootstrap continues another
  one with a dollar sign. -/
  marks : ∀ name ∈ scopeNames boot sources, ∀ other ∈ scopeNames boot sources,
    ∀ rest, other ≠ name ++ "$" ++ rest
  /-- No label is named like the place behind a call. -/
  labels : ∀ label, .label label ∈ commandsOf sources →
    ∀ number : Nat, label ≠ "ret." ++ toString number
  /-- No function is named like a predefined symbol, a label of a comparison or a
  static variable. -/
  functions : ∀ name locals, .function name locals ∈ commandsOf sources →
    predefinedAddress? name = none ∧
      ∀ stem ∈ "CMP_TRUE" :: "CMP_END" :: sources.map Prod.fst, ∀ number : Nat,
        name ≠ stem ++ "." ++ toString number
  /-- No file is named like the labels of comparisons. -/
  files : "CMP_TRUE" ∉ sources.map Prod.fst ∧ "CMP_END" ∉ sources.map Prod.fst

namespace WellNamed

variable {start : String} {boot : Bool} {sources : List (String × List String)}

/-- No label comes twice. -/
theorem nodup_labelsIn (h : WellNamed start boot sources) :
    (labelsIn start boot sources).Nodup :=
  Label.nodup_of_families
    ((h.scopes.sublist (entries_sublist _ _)).of_map _) h.places
    (nodup_returns_labelsIn h.scopes) (nodup_comparisons _ _)

/-- A label that is named like a function is the beginning of that function. -/
theorem eq_entry_of_text (h : WellNamed start boot sources) {name : String} {label : Label}
    (hname : .entry name ∈ labelsIn start boot sources)
    (hlabel : label ∈ labelsIn start boot sources) (htext : name = label.text) :
    label = .entry name := by
  rcases label.shape with ⟨function, rfl⟩ | ⟨front, back, -, howner, hmark⟩ |
    ⟨-, stem, hstem, number, hdot⟩
  · exact congrArg Label.entry htext.symm
  · have hne := h.marks front (owner_mem_scopeNames hlabel howner) name
      (owner_mem_scopeNames hname rfl) back
    exact absurd (htext.trans hmark) hne
  · obtain ⟨locals, hfunction⟩ := function_mem_commandsOf hname
    have hne := (h.functions name locals hfunction).2 stem (List.mem_append_left _ hstem) number
    exact absurd (htext.trans hdot) hne

/-- What stands in front of and behind the dollar sign determines a label. -/
theorem eq_of_mark? (h : WellNamed start boot sources) {label other : Label}
    {mark : String × String} (hlabel : label ∈ labelsIn start boot sources)
    (hother : other ∈ labelsIn start boot sources) (hmark : label.mark? = some mark)
    (hmark' : other.mark? = some mark) : label = other := by
  cases label with
  | place function name =>
    cases hmark
    cases other with
    | place _ _ => cases hmark'; rfl
    | afterCall _ number =>
      cases hmark'
      exact absurd rfl (h.labels _ (label_mem_commandsOf hlabel) number)
    | entry _ | trueBranch _ | afterCompare _ => cases hmark'
  | afterCall function number =>
    cases hmark
    cases other with
    | place _ _ =>
      cases hmark'
      exact absurd rfl (h.labels _ (label_mem_commandsOf hother) number)
    | afterCall _ number' =>
      obtain ⟨rfl, hnumber⟩ := Prod.mk.inj (Option.some.inj hmark')
      rw [String.append_right_inj] at hnumber
      rw [Nat.repr_injective hnumber]
    | entry _ | trueBranch _ | afterCompare _ => cases hmark'
  | entry _ | trueBranch _ | afterCompare _ => cases hmark

/-- Different labels have different names. -/
theorem text_inj (h : WellNamed start boot sources) {label other : Label}
    (hlabel : label ∈ labelsIn start boot sources) (hother : other ∈ labelsIn start boot sources)
    (htext : label.text = other.text) : label = other := by
  rcases label.shape with ⟨function, rfl⟩ | ⟨front, back, hmark, howner, hname⟩ |
    ⟨hcompare, stem, hstem, number, hname⟩
  · exact (h.eq_entry_of_text hlabel hother htext).symm
  · rcases other.shape with ⟨function, rfl⟩ | ⟨front', back', hmark', howner', hname'⟩ |
      ⟨-, stem, hstem, number, hname'⟩
    · exact h.eq_entry_of_text hother hlabel htext.symm
    · rw [hname, hname'] at htext
      have hfront := owner_mem_scopeNames hlabel howner
      have hfront' := owner_mem_scopeNames hother howner'
      rcases marked_inj htext with ⟨rfl, rfl⟩ | ⟨rest, hrest⟩ | ⟨rest, hrest⟩
      · exact h.eq_of_mark? hlabel hother hmark hmark'
      · exact absurd hrest (h.marks front hfront front' hfront' rest)
      · exact absurd hrest (h.marks front' hfront' front hfront rest)
    · rw [hname, hname'] at htext
      exact absurd htext (Label.marked_ne_dotted hstem)
  · rcases other.shape with ⟨function, rfl⟩ | ⟨front', back', hmark', howner', hname'⟩ |
      ⟨hcompare', -⟩
    · exact h.eq_entry_of_text hother hlabel htext.symm
    · rw [hname, hname'] at htext
      exact absurd htext.symm (Label.marked_ne_dotted hstem)
    · exact Label.text_inj_of_isComparison hcompare hcompare' htext

/-- No label has a predefined name. -/
theorem predefinedAddress?_text (h : WellNamed start boot sources) {label : Label}
    (hlabel : label ∈ labelsIn start boot sources) : predefinedAddress? label.text = none := by
  rcases label.shape with ⟨function, rfl⟩ | ⟨front, back, -, -, hname⟩ |
    ⟨-, stem, -, number, hname⟩
  · obtain ⟨locals, hfunction⟩ := function_mem_commandsOf hlabel
    exact (h.functions function locals hfunction).1
  · rw [hname]
    apply predefinedAddress?_eq_none
    rw [toList_marked]
    exact .inr (List.mem_append_right _ List.mem_cons_self)
  · rw [hname]
    exact predefinedAddress?_eq_none (.inl ((Scope.mem_dotted (by decide)).mpr (.inr rfl)))

/-- No label has the name of a static variable of one of the files. -/
theorem text_ne_static (h : WellNamed start boot sources) {label : Label} {file : String}
    (hlabel : label ∈ labelsIn start boot sources) (hfile : file ∈ sources.map Prod.fst)
    (index : Nat) : label.text ≠ file ++ "." ++ toString index := by
  intro htext
  rcases label.shape with ⟨function, rfl⟩ | ⟨front, back, -, howner, hname⟩ |
    ⟨-, stem, hstem, number, hname⟩
  · obtain ⟨locals, hfunction⟩ := function_mem_commandsOf hlabel
    have hne := (h.functions function locals hfunction).2 file
      (List.mem_append_right ["CMP_TRUE", "CMP_END"] hfile) index
    exact hne htext
  · rw [hname] at htext
    obtain ⟨rest, hrest⟩ := exists_of_marked_eq_dotted htext
    exact h.marks front (owner_mem_scopeNames hlabel howner) file (file_mem_scopeNames hfile)
      rest hrest
  · rw [hname, dotted_inj] at htext
    obtain ⟨rfl, -⟩ := htext
    rw [List.mem_cons, List.mem_singleton] at hstem
    rcases hstem with rfl | rfl
    · exact h.files.1 hfile
    · exact h.files.2 hfile

end WellNamed

/-- A label that is declared once and not predefined gets the address of its
declaration in the first walk of the assembler. -/
theorem address?_bindLabels {before after : List Statement} {placed : List Placed} {name : String}
    (hprogram : statements placed = before ++ .label name :: after)
    (hnodup : (labelNames (statements placed)).Nodup)
    (hpredefined : predefinedAddress? name = none)
    (hbind : (bindLabels .predefined placed).2 = .ok ()) :
    (bindLabels .predefined placed).1.address? name =
      some (BitVec.ofNat 16 (wordCount before)) := by
  rw [hprogram] at hnodup
  rw [address?, find?_bindLabels_predefined name hbind, hpredefined, hprogram,
    labelPosition?_append_label (label_notMem_of_nodup hnodup)]
  rfl

/-- The code of well-named files that can be lowered declares the labels of their
functions, labels, calls and comparisons in order. None of them is declared
twice, none is predefined, and none is a static variable of a file, be it used or
not. After the first walk of the assembler every label therefore stands for the
address of its own declaration. -/
theorem declared_labels_apart {start entry : String} {boot : Bool}
    {sources : List (String × List String)} {program : List Statement}
    (hnames : WellNamed start boot sources)
    (hprogram : (Lowering.ofFile start entry).files boot sources = .ok program) :
    labelNames program = (labelsIn start boot sources).map Label.text ∧
      (labelNames program).Nodup ∧
      (∀ name ∈ labelNames program, predefinedAddress? name = none) ∧
      (∀ name ∈ labelNames program, ∀ file ∈ sources.map Prod.fst, ∀ index : Nat,
        name ≠ file ++ "." ++ toString index) ∧
      ∀ placed before name after, statements placed = program →
        program = before ++ .label name :: after →
        (bindLabels .predefined placed).2 = .ok () →
        (bindLabels .predefined placed).1.address? name =
          some (BitVec.ofNat 16 (wordCount before)) := by
  have hcode := (Lowering.holds_ofFile start entry).files hprogram
  have hlabels : labelNames program = (labelsIn start boot sources).map Label.text := by
    rw [hcode]
    exact labelNames_codeOf entry fun item hitem => checked_fileEvents _ (mem_of_mem_trace hitem)
  have hnodup : (labelNames program).Nodup := by
    rw [hlabels]
    exact hnames.nodup_labelsIn.map_on fun label hlabel other hother =>
      hnames.text_inj hlabel hother
  have hpredefined : ∀ name ∈ labelNames program, predefinedAddress? name = none := by
    rw [hlabels, List.forall_mem_map]
    exact fun label => hnames.predefinedAddress?_text
  refine ⟨hlabels, hnodup, hpredefined, ?_, ?_⟩
  · rw [hlabels, List.forall_mem_map]
    exact fun label hlabel file hfile => hnames.text_ne_static hlabel hfile
  · intro placed before name after hplaced hdeclared hbind
    have hmem : name ∈ labelNames program := by
      rw [mem_labelNames, hdeclared]
      exact List.mem_append_right _ List.mem_cons_self
    exact address?_bindLabels (hplaced.trans hdeclared) (hplaced ▸ hnodup)
      (hpredefined name hmem) hbind

/-- A name that does not end in a digit ends in no number. -/
theorem ne_dotted {name stem : String} (h : name.toList.getLast?.any Char.isDigit = false)
    (number : Nat) : name ≠ stem ++ "." ++ toString number := by
  rintro rfl
  have hdigits : (toString number).toList ≠ [] := by
    rw [Nat.toString_eq_repr, Nat.toList_repr]
    exact Nat.toDigits_ne_nil
  rw [String.toList_append, List.getLast?_append_of_ne_nil _ hdigits,
    List.getLast?_eq_some_getLast hdigits, Option.any_some,
    isDigit_of_mem_toString (List.getLast_mem hdigits)] at h
  cases h

/-- Two files with a bootstrap, in which the same label stands in two functions. -/
def sampleFiles : List (String × List String) :=
  [("Main", ["function Main.main 0", "label LOOP", "eq", "call Math.next 0"]),
    ("Math", ["function Math.next 0", "label LOOP", "pop static 0"])]

theorem fileEvents_sampleFiles :
    fileEvents true sampleFiles =
      [.file "Main", .boot, .command (.function "Main.main" 0), .command (.label "LOOP"),
        .command (.arithmetic .eq), .command (.call "Math.next" 0), .file "Math",
        .command (.function "Math.next" 0), .command (.label "LOOP"),
        .command (.pop .static 0)] := by
  decide +kernel

theorem wellNamed_sampleFiles : WellNamed "" true sampleFiles where
  scopes := by
    rw [scopeNames, fileEvents_sampleFiles]
    decide
  places := by
    rw [labelsIn, fileEvents_sampleFiles]
    decide
  marks name _ other hother rest := by
    have hfree : ∀ name ∈ scopeNames true sampleFiles, '$' ∉ name.toList := by
      rw [scopeNames, fileEvents_sampleFiles]
      decide
    rintro rfl
    refine hfree _ hother ?_
    rw [toList_marked]
    exact List.mem_append_right _ List.mem_cons_self
  labels label hlabel number := by
    have hall : (commandsOf sampleFiles).filterMap Command.placeName? = ["LOOP", "LOOP"] := by
      decide +kernel
    have hmem : label ∈ ["LOOP", "LOOP"] := hall ▸ List.mem_filterMap.mpr ⟨_, hlabel, rfl⟩
    obtain rfl : label = "LOOP" := by simpa using hmem
    have hne : "LOOP" ≠ "ret" ++ "." ++ toString number := ne_dotted rfl number
    exact hne
  functions name locals hfunction := by
    have hall : (commandsOf sampleFiles).filterMap Command.functionName? =
        ["Main.main", "Math.next"] := by decide +kernel
    have hmem : name ∈ ["Main.main", "Math.next"] :=
      hall ▸ List.mem_filterMap.mpr ⟨_, hfunction, rfl⟩
    rw [List.mem_cons, List.mem_singleton] at hmem
    rcases hmem with rfl | rfl
    · exact ⟨by decide +kernel, fun stem _ number => ne_dotted rfl number⟩
    · exact ⟨by decide +kernel, fun stem _ number => ne_dotted rfl number⟩
  files := by decide

theorem sampleFiles_apart :
    ∃ program, (Lowering.ofFile "" "Main.main").files true sampleFiles = .ok program ∧
      "Math.next$LOOP" ∈ labelNames program ∧ (labelNames program).Nodup := by
  have hlabels : ((Lowering.ofFile "" "Main.main").files true sampleFiles).map labelNames =
      .ok ["Bootstrap$ret.1", "Main.main", "Main.main$LOOP", "CMP_TRUE.1", "CMP_END.1",
        "Main.main$ret.1", "Math.next", "Math.next$LOOP"] := by decide +kernel
  cases hprogram : (Lowering.ofFile "" "Main.main").files true sampleFiles with
  | error fault => rw [hprogram] at hlabels; cases hlabels
  | ok program =>
    rw [hprogram] at hlabels
    have hnames := Except.ok.inj hlabels
    refine ⟨program, rfl, ?_, (declared_labels_apart wellNamed_sampleFiles hprogram).2.1⟩
    rw [hnames]
    decide

/-! ## Names that imitate others -/

/-- That nothing is declared twice as it is written: no file, no function, and no
label in one function. -/
def DeclaredOnce (start : String) (boot : Bool) (sources : List (String × List String)) : Prop :=
  (sources.map Prod.fst).Nodup ∧
    ((commandsOf sources).filterMap Command.functionName?).Nodup ∧
    ((labelsIn start boot sources).filter Label.isPlace).Nodup

instance (start : String) (boot : Bool) (sources : List (String × List String)) :
    Decidable (DeclaredOnce start boot sources) :=
  inferInstanceAs (Decidable (_ ∧ _ ∧ _))

/-- The symbols of the static variables that files use. -/
def staticNames (sources : List (String × List String)) : List String :=
  sources.flatMap fun source =>
    (staticIndices (executed source.2)).map (Scope.ofFile source.1).staticName

/-- The labels that files declare, if they can be lowered. -/
def declaredLabels (boot : Bool) (sources : List (String × List String)) :
    Except (Located Fault) (List String) :=
  ((Lowering.ofFile "" Lowering.defaultEntry).files boot sources).map labelNames

/-- Files together with the labels that they declare. -/
structure NamingSample where
  /-- Whether the bootstrap stands in front. -/
  boot : Bool
  /-- The names and lines of the files. -/
  sources : List (String × List String)
  /-- The labels in order. -/
  labels : List String

/-- A label that imitates the place behind a call, and functions that imitate a
label of another function, their file, the bootstrap and a comparison. -/
def sampleImitations : List NamingSample :=
  [⟨false, [("Main", ["function F 0", "label ret.1", "call F 0"])], ["F", "F$ret.1", "F$ret.1"]⟩,
    ⟨false, [("Main", ["function A 0", "label B", "function A$B 0"])], ["A", "A$B", "A$B"]⟩,
    ⟨false, [("Main", ["call F 0", "function Main 0", "call F 0"])],
      ["Main$ret.1", "Main", "Main$ret.1"]⟩,
    ⟨true, [("Main", ["function Bootstrap 0", "call F 0"])],
      ["Bootstrap$ret.1", "Bootstrap", "Bootstrap$ret.1"]⟩,
    ⟨false, [("Main", ["eq", "function CMP_TRUE.1 0"])],
      ["CMP_TRUE.1", "CMP_END.1", "CMP_TRUE.1"]⟩]

/-- A function that imitates a static variable, and a file that imitates a
comparison. -/
def sampleStatics : List NamingSample :=
  [⟨false, [("Main", ["push static 0", "function Main.0 0"])], ["Main.0"]⟩,
    ⟨false, [("CMP_TRUE", ["push static 1", "eq"])], ["CMP_TRUE.1", "CMP_END.1"]⟩]

theorem imitated_names_collide :
    (∀ sample ∈ sampleImitations, DeclaredOnce "" sample.boot sample.sources ∧
      declaredLabels sample.boot sample.sources = .ok sample.labels ∧ ¬sample.labels.Nodup) ∧
    (∀ sample ∈ sampleStatics, DeclaredOnce "" sample.boot sample.sources ∧
      declaredLabels sample.boot sample.sources = .ok sample.labels ∧
      ∃ name ∈ sample.labels, name ∈ staticNames sample.sources) ∧
    DeclaredOnce "" false [("Main", ["function SP 0"])] ∧
      declaredLabels false [("Main", ["function SP 0"])] = .ok ["SP"] ∧
      predefinedAddress? "SP" ≠ none := by
  decide +kernel

end HK16.Bytecode
