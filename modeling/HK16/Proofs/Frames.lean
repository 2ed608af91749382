import HK16.Proofs.StackMachine

/-!
# Frames

A call pushes the return address and four pointers and moves two pointers; the
entry of a function pushes a zero for each local variable. A return reads the
frame back from the cells in front of the local variables. Here all of this is
described on data memory alone, with what each cell holds before and after.
-/

namespace HK16.Bytecode

namespace Stack

variable {memory : Memory}

/-- Put several values on the stack. -/
def pushAll (memory : Memory) (values : List Word) : Memory := values.foldl push memory

/-- The first value is pushed first. -/
theorem pushAll_cons (value : Word) (values : List Word) :
    pushAll memory (value :: values) = pushAll (push memory value) values := rfl

/-- Pushing values moves the pointer up by their number. -/
theorem pointer_pushAll (values : List Word) :
    pointer (pushAll memory values) = pointer memory + BitVec.ofNat 16 values.length := by
  induction values generalizing memory with
  | nil => exact (BitVec.add_zero _).symm
  | cons value values ih =>
    rw [pushAll_cons, ih, pointer_push, List.length_cons, BitVec.add_assoc]
    congr 1
    rw [Nat.add_comm, BitVec.ofNat_add]
    rfl

/-- Cells outside of the range that is written keep their values. -/
theorem get_pushAll_of_outside {address : Word} (values : List Word) (h0 : address ≠ 0)
    (hs : (pointer memory).toNat + values.length ≤ 65535)
    (h : address.toNat < (pointer memory).toNat ∨
      (pointer memory).toNat + values.length ≤ address.toNat) :
    (pushAll memory values).get address = memory.get address := by
  induction values generalizing memory with
  | nil => rfl
  | cons value values ih =>
    rw [List.length_cons] at hs h
    have hnext : (pointer memory + 1).toNat = (pointer memory).toNat + 1 := by
      bv_omega
    have hne : pointer memory ≠ address := by
      rintro rfl
      omega
    rw [pushAll_cons, ih (by rw [pointer_push, hnext]; omega) (by rw [pointer_push, hnext]; omega),
      get_push value h0, if_neg hne]

/-- The values stand one behind the other. -/
theorem get_pushAll {values : List Word} {i : Nat} {value : Word} (hi : values[i]? = some value)
    (h0 : pointer memory ≠ 0) (hs : (pointer memory).toNat + values.length ≤ 65535) :
    (pushAll memory values).get (pointer memory + BitVec.ofNat 16 i) = value := by
  induction values generalizing memory i with
  | nil => cases hi
  | cons first values ih =>
    rw [List.length_cons] at hs
    have hnext : (pointer memory + 1).toNat = (pointer memory).toNat + 1 := by
      bv_omega
    rw [pushAll_cons]
    cases i with
    | zero =>
      rw [List.getElem?_cons_zero, Option.some.injEq] at hi
      have hplace : pointer memory + BitVec.ofNat 16 0 = pointer memory := BitVec.add_zero _
      rw [hplace, get_pushAll_of_outside values h0 (by rw [pointer_push, hnext]; omega)
        (by rw [pointer_push, hnext]; omega), get_push first h0, if_pos rfl, hi]
    | succ i =>
      rw [List.getElem?_cons_succ] at hi
      have hplace : pointer memory + BitVec.ofNat 16 (i + 1) =
          pointer (push memory first) + BitVec.ofNat 16 i := by
        rw [pointer_push, BitVec.add_assoc, Nat.add_comm, BitVec.ofNat_add]
        rfl
      rw [hplace]
      exact ih hi (by rw [pointer_push]; bv_omega) (by rw [pointer_push, hnext]; omega)

/-- Pushing leaves the other pointers as they are. -/
theorem map_get_push {pointers : List Pointer} (value : Word) (hp : Pointer.sp ∉ pointers)
    (hlow : 256 ≤ (pointer memory).toNat) :
    (pointers.map fun pointer => (push memory value).get pointer.address) =
      pointers.map fun pointer => memory.get pointer.address := by
  refine List.map_congr_left fun pointer hmem => ?_
  have h0 : pointer.address ≠ 0 := by
    cases pointer with
    | sp => exact absurd hmem hp
    | lcl | arg | thisBase | thatBase => decide
  rw [get_push value h0, if_neg (pointer_ne_of_le hlow).symm]

end Stack

/-! ## The frame of a call -/

namespace Frame

/-- Memory once a call has set up its frame. -/
def enter (memory : Memory) (returnAddress arguments : Word) : Memory :=
  ((Stack.pushAll memory
    (returnAddress :: Code.savedPointers.map fun pointer => memory.get pointer.address)).set
      Pointer.arg.address (Stack.pointer memory - arguments)).set
      Pointer.lcl.address (Stack.pointer memory + 5)

/-- Memory once the entry of a function is done, too. -/
def enterBody (memory : Memory) (returnAddress arguments locals : Word) : Memory :=
  Stack.pushAll (enter memory returnAddress arguments) (List.replicate locals.toNat 0)

/-- Take pointers back one after the other from the cells below the one that
`R13` points to. -/
def restore (memory : Memory) : List Pointer → Memory
  | [] => memory
  | pointer :: pointers =>
    let source := memory.get (Register.address Code.noteRegister) - 1
    restore ((memory.set (Register.address Code.noteRegister) source).set pointer.address
      (memory.get source)) pointers

/-- Memory once a return has noted the frame and the return address. -/
def note (memory : Memory) : Memory :=
  let frame := memory.get Pointer.lcl.address
  (memory.set (Register.address Code.noteRegister) frame).set
    (Register.address Code.linkRegister) (memory.get (frame - 5))

/-- Memory once the topmost value stands in place of the first argument, and
nothing behind it. -/
def giveResult (memory : Memory) : Memory :=
  let target := memory.get Pointer.arg.address
  ((Stack.drop memory).set target (Stack.top memory)).set Pointer.sp.address (target + 1)

/-- Memory once a return is done. -/
def leave (memory : Memory) : Memory :=
  restore (giveResult (note memory)) Code.savedPointers.reverse

variable {memory : Memory}

/-- Noting the frame changes two registers only. -/
theorem get_note_of_ne {address : Word} (h13 : Register.address Code.noteRegister ≠ address)
    (h14 : Register.address Code.linkRegister ≠ address) :
    (note memory).get address = memory.get address := by
  rw [note, Memory.get_set_of_ne _ _ h14, Memory.get_set_of_ne _ _ h13]

/-- The pointers are still there once the frame is noted. -/
theorem get_note_pointer (pointer : Pointer) :
    (note memory).get pointer.address = memory.get pointer.address :=
  get_note_of_ne (by cases pointer <;> decide) (by cases pointer <;> decide)

/-- `R13` holds the frame. -/
theorem get_note_frame :
    (note memory).get (Register.address Code.noteRegister) = memory.get Pointer.lcl.address := by
  rw [note, Memory.get_set_of_ne _ _ (by decide), Memory.get_set_self]

/-- Giving the result changes `SP` and the cell of the first argument only. -/
theorem get_giveResult_of_ne {address : Word} (h0 : Pointer.sp.address ≠ address)
    (htarget : memory.get Pointer.arg.address ≠ address) :
    (giveResult memory).get address = memory.get address := by
  rw [giveResult, Memory.get_set_of_ne _ _ h0, Memory.get_set_of_ne _ _ htarget,
    Stack.get_drop h0.symm]

/-- `R13` is not a pointer. -/
theorem pointer_ne_register (pointer : Pointer) :
    pointer.address ≠ Register.address Code.noteRegister := by
  cases pointer <;> decide

/-- Restoring one pointer moves `R13` down. -/
theorem get_register_restored (pointer : Pointer) (source value : Word) :
    ((memory.set (Register.address Code.noteRegister) source).set pointer.address value).get
      (Register.address Code.noteRegister) = source := by
  rw [Memory.get_set_of_ne _ _ (pointer_ne_register pointer), Memory.get_set_self]

/-- Restoring pointers changes these and `R13` only. -/
theorem get_restore_of_ne {address : Word} (pointers : List Pointer)
    (hregister : Register.address Code.noteRegister ≠ address)
    (h : ∀ pointer ∈ pointers, pointer.address ≠ address) :
    (restore memory pointers).get address = memory.get address := by
  induction pointers generalizing memory with
  | nil => rfl
  | cons first pointers ih =>
    rw [List.forall_mem_cons] at h
    rw [restore, ih h.2, Memory.get_set_of_ne _ _ h.1, Memory.get_set_of_ne _ _ hregister]

/-- Each restored pointer has the value of its cell. -/
theorem get_restore {pointers : List Pointer} {i : Nat} {pointer : Pointer}
    (hi : pointers[i]? = some pointer) (hd : pointers.Nodup)
    (hlow : 256 + pointers.length ≤ (memory.get (Register.address Code.noteRegister)).toNat) :
    (restore memory pointers).get pointer.address =
      memory.get (memory.get (Register.address Code.noteRegister) - BitVec.ofNat 16 (i + 1)) := by
  induction pointers generalizing memory i with
  | nil => cases hi
  | cons first pointers ih =>
    rw [List.nodup_cons] at hd
    rw [List.length_cons] at hlow
    rw [restore]
    cases i with
    | zero =>
      rw [List.getElem?_cons_zero, Option.some.injEq] at hi
      subst hi
      have hother : ∀ pointer ∈ pointers, pointer.address ≠ first.address := by
        intro pointer hmem heq
        have hsame : pointer = first := by
          revert heq
          cases pointer <;> cases first <;> decide
        exact hd.1 (hsame ▸ hmem)
      rw [get_restore_of_ne pointers (pointer_ne_register first).symm hother,
        Memory.get_set_self]
      rfl
    | succ i =>
      rw [List.getElem?_cons_succ] at hi
      have hlength : i < pointers.length := (List.getElem?_eq_some_iff.mp hi).1
      rw [ih hi hd.2 (by rw [get_register_restored]; bv_omega), get_register_restored]
      have hplace : memory.get (Register.address Code.noteRegister) - 1 - BitVec.ofNat 16 (i + 1) =
          memory.get (Register.address Code.noteRegister) - BitVec.ofNat 16 (i + 1 + 1) := by
        bv_omega
      have hcell : 256 ≤ (memory.get (Register.address Code.noteRegister) -
          BitVec.ofNat 16 (i + 1 + 1)).toNat := by
        bv_omega
      rw [hplace, Memory.get_set_of_ne _ _ (Stack.pointer_ne_of_le hcell),
        Memory.get_set_of_ne _ _ (Stack.register_ne_of_le hcell)]

variable {returnAddress arguments locals : Word}

/-- Memory at the first instruction of a function behind its entry, compared with
memory before the call. -/
structure Entered (before after : Memory) (returnAddress arguments locals : Word) : Prop where
  /-- The first cell of the frame is the return address. -/
  returnCell : after.get (Stack.pointer before) = returnAddress
  /-- The second cell is the caller's `LCL`. -/
  savedLcl : after.get (Stack.pointer before + 1) = before.get Pointer.lcl.address
  /-- The third cell is the caller's `ARG`. -/
  savedArg : after.get (Stack.pointer before + 2) = before.get Pointer.arg.address
  /-- The fourth cell is the caller's `THIS`. -/
  savedThis : after.get (Stack.pointer before + 3) = before.get Pointer.thisBase.address
  /-- The fifth cell is the caller's `THAT`. -/
  savedThat : after.get (Stack.pointer before + 4) = before.get Pointer.thatBase.address
  /-- The local variables start behind the frame. -/
  lcl : after.get Pointer.lcl.address = Stack.pointer before + 5
  /-- The arguments are what the caller pushed last. -/
  arg : after.get Pointer.arg.address = Stack.pointer before - arguments
  /-- `THIS` is still the caller's. -/
  thisBase : after.get Pointer.thisBase.address = before.get Pointer.thisBase.address
  /-- `THAT` is still the caller's. -/
  thatBase : after.get Pointer.thatBase.address = before.get Pointer.thatBase.address
  /-- Every local variable is zero. -/
  zeros : ∀ i < locals.toNat, after.get (Stack.pointer before + 5 + BitVec.ofNat 16 i) = 0
  /-- The stack continues behind the local variables. -/
  pointer : Stack.pointer after = Stack.pointer before + 5 + locals
  /-- Nothing else has changed. -/
  rest : ∀ address, address ∉ [Pointer.sp.address, Pointer.lcl.address, Pointer.arg.address] →
    (address.toNat < (Stack.pointer before).toNat ∨
      (Stack.pointer before).toNat + 5 + locals.toNat ≤ address.toNat) →
    after.get address = before.get address

/-- Memory behind a return, compared with memory before the call and with memory
before the return. -/
structure Left (before leaving after : Memory) (arguments : Word) : Prop where
  /-- The arguments are replaced by one value. -/
  pointer : Stack.pointer after = Stack.pointer before - arguments + 1
  /-- It is the value that was topmost before the return. -/
  result : after.get (Stack.pointer before - arguments) =
    leaving.get (Stack.pointer leaving - 1)
  /-- The caller has its four other pointers again. -/
  restored : ∀ pointer : Pointer, pointer ≠ .sp →
    after.get pointer.address = before.get pointer.address
  /-- Nothing else has changed but two registers. -/
  rest : ∀ address, (∀ pointer : Pointer, pointer.address ≠ address) →
    Register.address 13 ≠ address → Register.address 14 ≠ address →
    Stack.pointer before - arguments ≠ address → after.get address = leaving.get address

/-- The stack of a function starts behind the frame. -/
theorem pointer_enter (memory : Memory) (returnAddress arguments : Word) :
    Stack.pointer (enter memory returnAddress arguments) = Stack.pointer memory + 5 := by
  have harg : Pointer.arg.address ≠ Pointer.sp.address := by decide
  have hlcl : Pointer.lcl.address ≠ Pointer.sp.address := by decide
  rw [Stack.pointer, enter, Memory.get_set_of_ne _ _ hlcl, Memory.get_set_of_ne _ _ harg]
  exact Stack.pointer_pushAll _

/-- Apart from the two pointers, setting up a frame is pushing. -/
theorem get_enter_of_ne {address : Word} (harg : Pointer.arg.address ≠ address)
    (hlcl : Pointer.lcl.address ≠ address) :
    (enter memory returnAddress arguments).get address =
      (Stack.pushAll memory (returnAddress ::
        Code.savedPointers.map fun pointer => memory.get pointer.address)).get address := by
  rw [enter, Memory.get_set_of_ne _ _ hlcl, Memory.get_set_of_ne _ _ harg]

/-- The frame ends where the stack of the function starts. -/
theorem toNat_pointer_enter (memory : Memory) (returnAddress arguments : Word)
    (hhigh : (Stack.pointer memory).toNat + 5 ≤ 65535) :
    (Stack.pointer (enter memory returnAddress arguments)).toNat =
      (Stack.pointer memory).toNat + 5 := by
  rw [pointer_enter]
  bv_omega

/-- Local variables lie between the frame and the end of the stack. -/
theorem get_enterBody_of_outside {address : Word} (h0 : address ≠ 0)
    (hhigh : (Stack.pointer memory).toNat + 5 + locals.toNat ≤ 65535)
    (h : address.toNat < (Stack.pointer memory).toNat + 5 ∨
      (Stack.pointer memory).toNat + 5 + locals.toNat ≤ address.toNat) :
    (enterBody memory returnAddress arguments locals).get address =
      (enter memory returnAddress arguments).get address := by
  have hpointer := toNat_pointer_enter memory returnAddress arguments (by omega)
  refine Stack.get_pushAll_of_outside _ h0 ?_ ?_
  · rwa [hpointer, List.length_replicate]
  · rwa [hpointer, List.length_replicate]

/-- The cells of the frame hold what the call pushed. -/
theorem get_enterBody_saved {i : Nat} {value : Word}
    (hlow : 256 ≤ (Stack.pointer memory).toNat)
    (hhigh : (Stack.pointer memory).toNat + 5 + locals.toNat ≤ 65535)
    (hvalue : (returnAddress ::
      Code.savedPointers.map fun pointer => memory.get pointer.address)[i]? = some value) :
    (enterBody memory returnAddress arguments locals).get
      (Stack.pointer memory + BitVec.ofNat 16 i) = value := by
  have hi : i < 5 := (List.getElem?_eq_some_iff.mp hvalue).1
  have hcell : (Stack.pointer memory + BitVec.ofNat 16 i).toNat =
      (Stack.pointer memory).toNat + i := by
    bv_omega
  have hstack : 256 ≤ (Stack.pointer memory + BitVec.ofNat 16 i).toNat := by omega
  rw [get_enterBody_of_outside (Stack.pointer_ne_of_le hstack : Pointer.sp.address ≠ _).symm hhigh
    (.inl (by omega)),
    get_enter_of_ne (Stack.pointer_ne_of_le hstack) (Stack.pointer_ne_of_le hstack)]
  refine Stack.get_pushAll hvalue (Stack.pointer_ne_of_le hlow : Pointer.sp.address ≠ _).symm ?_
  exact Nat.le_trans (Nat.le_add_right _ _) hhigh

/-- The entry of a function does not touch the pointers. -/
theorem get_enterBody_pointer {pointer : Pointer} (hp : pointer ≠ .sp)
    (hhigh : (Stack.pointer memory).toNat + 5 + locals.toNat ≤ 65535) :
    (enterBody memory returnAddress arguments locals).get pointer.address =
      (enter memory returnAddress arguments).get pointer.address := by
  have hsmall : pointer.address.toNat < 5 := by cases pointer <;> decide
  have hne : pointer.address ≠ 0 := by
    cases pointer with
    | sp => exact absurd rfl hp
    | lcl | arg | thisBase | thatBase => decide
  exact get_enterBody_of_outside hne hhigh (.inl (by omega))

/-- A frame followed by zeros is what a function finds at its start. -/
theorem entered_enterBody (returnAddress arguments : Word)
    (hlow : 256 ≤ (Stack.pointer memory).toNat)
    (hhigh : (Stack.pointer memory).toNat + 5 + locals.toNat ≤ 65535) :
    Entered memory (enterBody memory returnAddress arguments locals) returnAddress arguments
      locals := by
  have hpointer := toNat_pointer_enter memory returnAddress arguments (by omega)
  have hrest : ∀ address,
      address ∉ [Pointer.sp.address, Pointer.lcl.address, Pointer.arg.address] →
      (address.toNat < (Stack.pointer memory).toNat ∨
        (Stack.pointer memory).toNat + 5 + locals.toNat ≤ address.toNat) →
      (enterBody memory returnAddress arguments locals).get address = memory.get address := by
    intro address hnot houtside
    simp only [List.mem_cons, List.not_mem_nil, or_false, not_or] at hnot
    rw [get_enterBody_of_outside hnot.1 hhigh (houtside.imp (by omega) id),
      get_enter_of_ne (Ne.symm hnot.2.2) (Ne.symm hnot.2.1)]
    refine Stack.get_pushAll_of_outside _ hnot.1 ?_ ?_
    · exact Nat.le_trans (Nat.le_add_right _ _) hhigh
    · exact houtside.imp id fun h => Nat.le_trans (Nat.le_add_right _ _) h
  constructor
  case returnCell =>
    have hfirst : (enterBody memory returnAddress arguments locals).get
        (Stack.pointer memory + BitVec.ofNat 16 0) = returnAddress :=
      get_enterBody_saved hlow hhigh rfl
    rwa [BitVec.add_zero] at hfirst
  case savedLcl => exact get_enterBody_saved (i := 1) hlow hhigh rfl
  case savedArg => exact get_enterBody_saved (i := 2) hlow hhigh rfl
  case savedThis => exact get_enterBody_saved (i := 3) hlow hhigh rfl
  case savedThat => exact get_enterBody_saved (i := 4) hlow hhigh rfl
  case lcl =>
    rw [get_enterBody_pointer (by decide) hhigh]
    exact Memory.get_set_self _ _ _
  case arg =>
    rw [get_enterBody_pointer (by decide) hhigh, enter, Memory.get_set_of_ne _ _ (by decide)]
    exact Memory.get_set_self _ _ _
  case thisBase => exact hrest _ (by decide) (.inl (Nat.lt_of_lt_of_le (by decide) hlow))
  case thatBase => exact hrest _ (by decide) (.inl (Nat.lt_of_lt_of_le (by decide) hlow))
  case zeros =>
    intro i hi
    rw [← pointer_enter memory returnAddress arguments]
    refine Stack.get_pushAll ?_ ?_ ?_
    · rw [List.getElem?_replicate, if_pos hi]
    · exact (Stack.pointer_ne_of_le (by omega) : Pointer.sp.address ≠ _).symm
    · rwa [hpointer, List.length_replicate]
  case pointer =>
    rw [enterBody, Stack.pointer_pushAll, pointer_enter, List.length_replicate,
      BitVec.ofNat_toNat, BitVec.setWidth_eq]
  case rest => exact hrest

/-- Until the pointers are restored, a return leaves the frame above the return
address and `R13` as they are. -/
theorem get_giveResult_note {address : Word}
    (htarget : 256 ≤ (memory.get Pointer.arg.address).toNat)
    (h : (memory.get Pointer.arg.address).toNat < address.toNat) :
    (giveResult (note memory)).get address = memory.get address := by
  have hstack : 256 ≤ address.toNat := by omega
  rw [get_giveResult_of_ne (Stack.pointer_ne_of_le hstack),
    get_note_of_ne (Stack.register_ne_of_le hstack) (Stack.register_ne_of_le hstack)]
  rw [get_note_pointer]
  rintro rfl
  omega

/-- A return takes the pointers from the four cells below the local variables. -/
theorem get_leave_pointer {i : Nat} {pointer : Pointer}
    (hi : Code.savedPointers.reverse[i]? = some pointer)
    (htarget : 256 ≤ (memory.get Pointer.arg.address).toNat)
    (hframe : (memory.get Pointer.arg.address).toNat + 5 ≤
      (memory.get Pointer.lcl.address).toNat) :
    (leave memory).get pointer.address =
      memory.get (memory.get Pointer.lcl.address - BitVec.ofNat 16 (i + 1)) := by
  have hlength : i < 4 := (List.getElem?_eq_some_iff.mp hi).1
  have hregister : (giveResult (note memory)).get (Register.address Code.noteRegister) =
      memory.get Pointer.lcl.address := by
    rw [get_giveResult_of_ne (by decide), get_note_frame]
    rw [get_note_pointer]
    exact (Stack.register_ne_of_le htarget).symm
  have hcount : Code.savedPointers.reverse.length = 4 := rfl
  rw [leave, get_restore hi (by decide) (by rw [hregister, hcount]; omega), hregister,
    get_giveResult_note htarget (by bv_omega)]

/-- A return finds the frame if the function has kept it. -/
theorem left_leave {before entered leaving : Memory}
    (hentered : Entered before entered returnAddress arguments locals)
    (hlow : 256 + arguments.toNat ≤ (Stack.pointer before).toNat)
    (hlcl : leaving.get Pointer.lcl.address = Stack.pointer before + 5)
    (harg : leaving.get Pointer.arg.address = Stack.pointer before - arguments)
    (hkept : ∀ i < 5, leaving.get (Stack.pointer before + BitVec.ofNat 16 i) =
      entered.get (Stack.pointer before + BitVec.ofNat 16 i))
    (htop : (Stack.pointer before).toNat + 5 < (Stack.pointer leaving).toNat) :
    Left before leaving (leave leaving) arguments := by
  have htarget : 256 ≤ (leaving.get Pointer.arg.address).toNat := by
    rw [harg]
    bv_omega
  -- Without arguments the result takes the cell of the return address itself. It
  -- still lies below the four saved pointers, which are read afterwards.
  have hframe : (leaving.get Pointer.arg.address).toNat + 5 ≤
      (leaving.get Pointer.lcl.address).toNat := by
    rw [harg, hlcl]
    bv_omega
  have hcell : 256 ≤ (Stack.pointer leaving - 1).toNat := by bv_omega
  have hpointer : Stack.pointer (note leaving) = Stack.pointer leaving := get_note_pointer .sp
  have hsaved {i j : Nat} {pointer : Pointer} (hi : Code.savedPointers.reverse[i]? = some pointer)
      (hj : j < 5) (hij : i + 1 + j = 5) :
      (leave leaving).get pointer.address =
        entered.get (Stack.pointer before + BitVec.ofNat 16 j) := by
    rw [get_leave_pointer hi htarget hframe, hlcl, ← hkept j hj]
    congr 1
    bv_omega
  constructor
  case pointer =>
    rw [Stack.pointer, leave, get_restore_of_ne _ (by decide) (by decide), giveResult,
      Memory.get_set_self, get_note_pointer, harg]
  case result =>
    rw [← harg, leave, get_restore_of_ne _ (Stack.register_ne_of_le htarget)
      (fun pointer _ => Stack.pointer_ne_of_le htarget), giveResult, get_note_pointer,
      Memory.get_set_of_ne _ _ (Stack.pointer_ne_of_le htarget), Memory.get_set_self, Stack.top,
      hpointer, get_note_of_ne (Stack.register_ne_of_le hcell) (Stack.register_ne_of_le hcell)]
  case restored =>
    intro pointer hp
    cases pointer with
    | sp => exact absurd rfl hp
    | lcl => exact (hsaved (i := 3) rfl (by decide) rfl).trans hentered.savedLcl
    | arg => exact (hsaved (i := 2) rfl (by decide) rfl).trans hentered.savedArg
    | thisBase => exact (hsaved (i := 1) rfl (by decide) rfl).trans hentered.savedThis
    | thatBase => exact (hsaved (i := 0) rfl (by decide) rfl).trans hentered.savedThat
  case rest =>
    intro address hpointers h13 h14 hresult
    rw [leave, get_restore_of_ne _ h13 (fun pointer _ => hpointers pointer),
      get_giveResult_of_ne (hpointers .sp) (by rwa [get_note_pointer, harg]),
      get_note_of_ne h13 h14]

end Frame

end HK16.Bytecode
