import HK16.Proofs.Segments
import HK16.Proofs.Writing

/-!
# Which units are refused

A unit of source lines is refused exactly if one of its lines cannot be read, and
the fault is that of the first such line, with its number. Commands that were read
are never refused later: their indices and counts were checked, so that every cell
they name exists and no address that is computed for their code overflows. Neither
the state of the lowering nor the bootstrap matters for this.
-/

namespace HK16.Bytecode

open Assembly

/-! ## The first line that cannot be read -/

/-- The line with the index is the first one that cannot be read, and this is why. -/
structure FirstFault (lines : List String) (index : Nat) (cause : Fault) : Prop where
  /-- The line cannot be read. -/
  fails : ∃ line, lines[index]? = some line ∧ Line.parse line.toList = .error cause
  /-- All lines in front of it can. -/
  earlier : ∀ i < index, ∀ line, lines[i]? = some line →
    ∃ content, Line.parse line.toList = .ok content

variable {line : String} {lines : List String} {index : Nat} {cause : Fault}

/-- If the first line cannot be read, it is the one. -/
theorem firstFault_cons_of_error {fault : Fault} (h : Line.parse line.toList = .error fault) :
    FirstFault (line :: lines) index cause ↔ index = 0 ∧ cause = fault := by
  constructor
  · rintro ⟨⟨found, hfound, hfault⟩, hearlier⟩
    cases index with
    | zero =>
      cases hfound
      rw [h] at hfault
      exact ⟨rfl, (Except.error.inj hfault).symm⟩
    | succ i =>
      obtain ⟨content, hcontent⟩ := hearlier 0 (Nat.succ_pos i) line rfl
      rw [h] at hcontent
      cases hcontent
  · rintro ⟨rfl, rfl⟩
    exact ⟨⟨line, rfl, h⟩, fun i hi => absurd hi (Nat.not_lt_zero i)⟩

/-- If the first line can be read, the one is among the others. -/
theorem firstFault_cons_of_ok {content : Line} (h : Line.parse line.toList = .ok content) :
    FirstFault (line :: lines) index cause ↔ ∃ i, index = i + 1 ∧ FirstFault lines i cause := by
  constructor
  · rintro ⟨⟨found, hfound, hfault⟩, hearlier⟩
    cases index with
    | zero =>
      cases hfound
      rw [h] at hfault
      cases hfault
    | succ i =>
      refine ⟨i, rfl, ⟨found, hfound, hfault⟩, fun j hj other hother => ?_⟩
      exact hearlier (j + 1) (Nat.succ_lt_succ hj) other hother
  · rintro ⟨i, rfl, ⟨found, hfound, hfault⟩, hearlier⟩
    refine ⟨⟨found, hfound, hfault⟩, fun j hj other hother => ?_⟩
    cases j with
    | zero =>
      cases hother
      exact ⟨content, h⟩
    | succ j => exact hearlier j (Nat.lt_of_succ_lt_succ hj) other hother

/-- If some line cannot be read, there is a first one. -/
theorem exists_firstFault_iff :
    (∃ index cause, FirstFault lines index cause) ↔
      ∃ line ∈ lines, ∃ cause, Line.parse line.toList = .error cause := by
  constructor
  · rintro ⟨index, cause, ⟨line, hline, hfault⟩, -⟩
    exact ⟨line, List.mem_of_getElem? hline, cause, hfault⟩
  · induction lines with
    | nil =>
      rintro ⟨line, hmem, -⟩
      cases hmem
    | cons first lines ih =>
      rintro ⟨line, hmem, cause, hfault⟩
      cases hfirst : Line.parse first.toList with
      | error fault => exact ⟨0, fault, (firstFault_cons_of_error hfirst).mpr ⟨rfl, rfl⟩⟩
      | ok content =>
        have hrest : line ∈ lines := by
          rcases List.mem_cons.mp hmem with rfl | hrest
          · rw [hfirst] at hfault
            cases hfault
          · exact hrest
        obtain ⟨index, other, hother⟩ := ih ⟨line, hrest, cause, hfault⟩
        exact ⟨index + 1, other, (firstFault_cons_of_ok hfirst).mpr ⟨index, rfl, hother⟩⟩

/-! ## Lines and units -/

/-- Lines are refused with the fault of the first one that cannot be read, and
with its number. -/
theorem linesFrom_eq_error_iff (fault : Located Fault) (lines : List String) (start : Nat)
    (lowering : Lowering) :
    (Lowering.linesFrom start lowering lines).2 = .error fault ↔
      ∃ index cause, FirstFault lines index cause ∧ fault = ⟨some (start + index + 1), cause⟩ := by
  induction lines generalizing start lowering with
  | nil =>
    constructor
    · intro h
      cases h
    · rintro ⟨index, cause, ⟨⟨line, hline, -⟩, -⟩, -⟩
      cases hline
  | cons line lines ih =>
    -- A line that is read moves the first fault of the others by one.
    have hread {content : Line} (hcontent : Line.parse line.toList = .ok content)
        (next : Lowering) :
        (Lowering.linesFrom (start + 1) next lines).2 = .error fault ↔
          ∃ index cause, FirstFault (line :: lines) index cause ∧
            fault = ⟨some (start + index + 1), cause⟩ := by
      rw [ih]
      constructor
      · rintro ⟨index, cause, hfirst, rfl⟩
        refine ⟨index + 1, cause, (firstFault_cons_of_ok hcontent).mpr ⟨index, rfl, hfirst⟩, ?_⟩
        rw [Nat.add_right_comm start 1 index]
        rfl
      · rintro ⟨index, cause, hfirst, rfl⟩
        obtain ⟨i, rfl, hrest⟩ := (firstFault_cons_of_ok hcontent).mp hfirst
        refine ⟨i, cause, hrest, ?_⟩
        rw [Nat.add_right_comm start 1 i]
        rfl
    cases hparse : Line.parse line.toList with
    | error cause =>
      simp only [Lowering.linesFrom, hparse, firstFault_cons_of_error hparse]
      constructor
      · intro h
        exact ⟨0, cause, ⟨rfl, rfl⟩, (Except.error.inj h).symm⟩
      · rintro ⟨index, other, ⟨rfl, rfl⟩, rfl⟩
        rfl
    | ok content =>
      cases content with
      | blank =>
        simp only [Lowering.linesFrom, hparse]
        exact hread hparse lowering
      | unknown word =>
        simp only [Lowering.linesFrom, hparse]
        exact hread hparse _
      | command command =>
        have hcode := Command.compile_of_check lowering.scope (check_of_parse hparse)
        simp only [Lowering.linesFrom, hparse, hcode]
        exact hread hparse _

/-- A unit is refused exactly if its lines are. -/
theorem unit_eq_error_iff {fault : Located Fault} (lowering : Lowering) (boot : Bool) :
    (lowering.unit lines boot).2 = .error fault ↔
      ∃ index cause, FirstFault lines index cause ∧ fault = ⟨some (index + 1), cause⟩ := by
  have hlines := linesFrom_eq_error_iff fault lines 0
    (if boot then lowering.bootstrap else lowering)
  simp only [Nat.zero_add] at hlines
  rw [← hlines, Lowering.unit]
  rcases Lowering.linesFrom 0 (if boot then lowering.bootstrap else lowering) lines with
    ⟨next, other | value⟩
  · simp only [Except.map, Except.error.injEq]
  · simp only [Except.map, reduceCtorEq]

/-! ## Code of commands that were read -/

/-- Code is made of the command at its place without a fault, and no address
that is computed for it overflows. -/
structure Command.Generates (scope : Scope) (command : Command) : Prop where
  /-- The command has a code. -/
  code : ∃ code, command.code scope = .ok code
  /-- The cell that is moved from or to exists. -/
  cell : ∀ segment index, command.Moves segment index →
    ∃ found, Code.cell scope segment index = .ok found
  /-- The address of a temporary cell does not overflow. -/
  temp : ∀ index, command.Moves .temp index →
    (MemoryMap.tempBase + index).toNat = MemoryMap.tempBase.toNat + index.toNat
  /-- The number of arguments and saved words does not overflow. -/
  frame : ∀ name arguments, command = .call name arguments →
    (arguments + BitVec.ofNat 16 Command.frameSize).toNat =
      arguments.toNat + Command.frameSize

/-- A checked move has an index of its segment. -/
theorem Command.Moves.checkIndex {command : Command} {segment : Segment} {index : Word}
    (h : command.Moves segment index) (hcheck : command.check = .ok ()) :
    Command.checkIndex segment index = .ok () := by
  rcases h with rfl | rfl
  · exact hcheck
  · exact (Command.checkIndex_of_pop hcheck).2

/-- What is checked has code, without faults and overflows. -/
theorem Command.generates_of_check {command : Command} (scope : Scope)
    (h : command.check = .ok ()) : command.Generates scope where
  code := ⟨_, Command.code_of_compile (Command.compile_of_check scope h)⟩
  cell segment index hmoves := exists_cell scope (hmoves.checkIndex h)
  temp index hmoves := by
    have hle : index.toNat ≤ 7 := by
      have hindex := hmoves.checkIndex h
      rw [Command.checkIndex] at hindex
      split at hindex
      · assumption
      · cases hindex
    rw [MemoryMap.tempBase]
    bv_omega
  frame name arguments hcall := by
    subst hcall
    have hle : arguments.toNat ≤ 32762 := count_le_of_checkCount h
    rw [Command.frameSize]
    bv_omega

/-- A lowering in any state refuses a unit exactly if one of its lines cannot be
read. The fault is then that of the first such line, with the number of the line.
Every command that is read from a line has code at every place: the cells it moves
words from and to exist, and no address in its code overflows. -/
theorem unit_refused_at_first_fault (lowering : Lowering) (lines : List String) (boot : Bool) :
    ((∃ fault, (lowering.unit lines boot).2 = .error fault) ↔
      ∃ line ∈ lines, ∃ cause, Line.parse line.toList = .error cause) ∧
    (∀ fault, (lowering.unit lines boot).2 = .error fault ↔
      ∃ index cause, FirstFault lines index cause ∧ fault = ⟨some (index + 1), cause⟩) ∧
    ∀ (line : List Char) (command : Command), Line.parse line = .ok (.command command) →
      ∀ scope, command.Generates scope := by
  refine ⟨?_, fun fault => unit_eq_error_iff lowering boot,
    fun line command hline scope => Command.generates_of_check scope (check_of_parse hline)⟩
  rw [← exists_firstFault_iff]
  constructor
  · rintro ⟨fault, hfault⟩
    obtain ⟨index, cause, hfirst, -⟩ := (unit_eq_error_iff lowering boot).mp hfault
    exact ⟨index, cause, hfirst⟩
  · rintro ⟨index, cause, hfirst⟩
    exact ⟨_, (unit_eq_error_iff lowering boot).mpr ⟨index, cause, hfirst, rfl⟩⟩

/-- Lines of which the first is a command, the second none, and the others wrong. -/
def sampleWrongLines : List String :=
  ["call F 32762 // the greatest number", "what is this", "pop constant 0", "push temp 8"]

theorem sampleWrongLines_refused :
    ((Lowering.ofFile "Main" "Sys.init").unit sampleWrongLines true).2 =
        .error ⟨some 3, .popConstant⟩ ∧
      FirstFault sampleWrongLines 2 .popConstant ∧
      Line.parse "call F 32762 // the greatest number".toList =
        .ok (.command (.call "F" 32762)) ∧
      (Command.call "F" 32762).Generates (.ofFile "Main") := by
  obtain ⟨-, hrefused, hcode⟩ :=
    unit_refused_at_first_fault (.ofFile "Main" "Sys.init") sampleWrongLines true
  have hfault : ((Lowering.ofFile "Main" "Sys.init").unit sampleWrongLines true).2 =
      .error ⟨some 3, .popConstant⟩ := by decide +kernel
  have hparse : Line.parse "call F 32762 // the greatest number".toList =
      .ok (.command (.call "F" 32762)) := by decide +kernel
  obtain ⟨index, cause, hfirst, hlocated⟩ := (hrefused _).mp hfault
  obtain ⟨hnumber, rfl⟩ := Located.mk.inj hlocated
  obtain rfl : 2 = index := Nat.succ.inj (Option.some.inj hnumber)
  exact ⟨hfault, hfirst, hparse, hcode _ _ hparse _⟩

end HK16.Bytecode
