import HK16.Machine.Loading
import HK16.Proofs.Disassembly
import HK16.Proofs.WrittenFiles

/-!
# Sources and images load alike

The machine takes a program as a source, which it assembles, or as an image that
the assembler wrote. Both give the same words: the digits of an image are read
back as its words, and the file that the assembler writes is found again beside
its source. Since the assembler refuses what program memory cannot hold, neither
way ends with a program that is too large. An image that is given the extension
of sources is not covered, for it would be assembled.
-/

namespace HK16

/-! ## Names of images -/

namespace Files.Path

/-- A text without slashes is one part. -/
theorem splitFrom_of_notMem {text : List Char} (h : '/' ∉ text) (part : List Char) :
    splitFrom text part = [part.reverse ++ text] := by
  induction text generalizing part with
  | nil => rw [splitFrom, List.append_nil]
  | cons c text ih =>
    rw [List.mem_cons, not_or] at h
    rw [splitFrom, if_neg (Ne.symm h.1), ih h.2, List.reverse_cons, List.append_assoc,
      List.singleton_append]

/-- A text without slashes behind a path belongs to its last part. -/
theorem splitFrom_append {tail : List Char} (h : '/' ∉ tail) (text part : List Char) :
    ∃ front last, splitFrom (text ++ tail) part = front ++ [last ++ tail] := by
  induction text generalizing part with
  | nil => exact ⟨[], part.reverse, splitFrom_of_notMem h part⟩
  | cons c text ih =>
    rw [List.cons_append, splitFrom]
    split
    · obtain ⟨front, last, hsplit⟩ := ih []
      exact ⟨part.reverse :: front, last, by rw [hsplit, List.cons_append]⟩
    · exact ih (c :: part)

/-- A path that ends like an image does not name a source. -/
theorem extension?_append_hack (path : String) : extension? (path ++ ".hack") ≠ some "asm" := by
  have hslash : '/' ∉ ".hack".toList := by decide
  obtain ⟨front, last, hparts⟩ := splitFrom_append hslash path.toList []
  have hsplit : split (path ++ ".hack") =
      front.map String.ofList ++ [String.ofList (last ++ ".hack".toList)] := by
    rw [split, String.toList_append, hparts, List.map_append, List.map_singleton]
  -- The name has five letters at least, so it is none of the parts that do not count.
  have hlong {other : String} (hother : other.length < 5) :
      String.ofList (last ++ ".hack".toList) ≠ other := by
    intro h
    have hlength : last.length + 5 = other.length := by
      rw [← h, String.length_ofList, List.length_append]
      rfl
    omega
  have hname := fileName?_of_split hsplit (hlong (by decide)) (hlong (by decide))
  rw [if_neg (hlong (by decide))] at hname
  have htake : (last ++ ".hack".toList).reverse.takeWhile (· ≠ '.') = ['k', 'c', 'a', 'h'] := by
    rw [List.reverse_append]
    rfl
  have hdrop : (last ++ ".hack".toList).reverse.dropWhile (· ≠ '.') = '.' :: last.reverse := by
    rw [List.reverse_append]
    rfl
  rw [extension?, hname, Option.bind_some, splitName, String.toList_ofList, htake, hdrop]
  dsimp only
  split
  · exact (Option.some_ne_none _).symm
  · exact fun h => absurd (Option.some.inj h) (by decide)

end Files.Path

/-! ## Images in program memory -/

theorem Word.length_binary (word : Word) : word.binary.length = 16 := by
  rw [binary, String.length_ofList, List.length_map, List.length_range]

/-- The digits of source lines are those of their words. -/
theorem Assembly.exists_of_assembleDigits {table : SymbolTable} {lines digits : List String}
    (h : (assembleDigits table lines).2 = .ok digits) :
    ∃ words, (assembleLines table lines).2 = .ok words ∧ digits = words.map Word.binary := by
  rw [assembleDigits, Prod.map_snd] at h
  cases hwords : (assembleLines table lines).2 with
  | error fault =>
    rw [hwords] at h
    cases h
  | ok words =>
    rw [hwords] at h
    exact ⟨words, rfl, (Except.ok.inj h).symm⟩

namespace Machine

open Assembly (assemble)
open Files (Disk Path.extension?)

variable {words : List Word} {path text : String}

theorem readImageFrom_binary (number : Nat) (done words : List Word) :
    readImageFrom number done (words.map Word.binary) = .ok (done.reverse ++ words) := by
  induction words generalizing number done with
  | nil => rw [List.map_nil, readImageFrom, List.append_nil]
  | cons word words ih =>
    rw [List.map_cons, readImageFrom, imageLine_binary]
    dsimp only
    rw [ih, List.reverse_cons, List.append_assoc, List.singleton_append]

/-- A text with the digits of one word on each line is an image of these words. -/
theorem readImage_of_lines (h : Text.lines text = words.map Word.binary) :
    readImage text = .ok words := by
  rw [readImage, h, readImageFrom_binary, List.reverse_nil, List.nil_append]

/-- Words can be loaded exactly if there are not more of them than the assembler
emits at most. -/
theorem exists_load_iff (state : State) (words : List Word) :
    (∃ loaded, state.load words = .ok loaded) ↔ words.length ≤ 32768 := by
  rw [State.load, Rom.ofWords]
  by_cases hsize : words.toArray.size ≤ 32768
  · rw [dif_pos hsize]
    exact ⟨fun _ => hsize, fun _ => ⟨_, rfl⟩⟩
  · rw [dif_neg hsize]
    constructor
    · rintro ⟨loaded, h⟩
      cases h
    · exact fun h => absurd h hsize

theorem readProgram_source (hpath : Path.extension? path = some "asm")
    (h : assemble (Text.lines text) = .ok words) : readProgram path text = .ok words := by
  rw [readProgram, if_pos hpath, h]
  rfl

theorem readProgram_image (hpath : Path.extension? path ≠ some "asm") (words : List Word) :
    readProgram path (Console.imageText words) = .ok words := by
  rw [readProgram, if_neg hpath]
  exact readImage_of_lines (lines_imageText words)

/-- What becomes of a machine that loads a program file. -/
def loadFrom (disk : Disk) (state : State) (path : String) : Except Fault State :=
  ((loadProgram path : StateM Disk (Except Fault (List Word))).run disk).1.bind state.load

/-- Loading reads the file and takes its words, and reports every file that it
cannot read. -/
theorem loadFrom_eq (disk : Disk) (state : State) (path : String) :
    loadFrom disk state path =
      match disk.readText path with
      | .ok text => (readProgram path text).bind state.load
      | .error _ => .error (.file (.cannotOpen path)) := by
  simp only [loadFrom, loadProgram, Files.Workspace.readText, StateT.run_bind, StateT.run_get,
    pure_bind, StateT.run_pure]
  cases disk.readText path with
  | ok text => rfl
  | error refusal => rfl

/-- A source never ends in a program that is too large for program memory. -/
theorem loadFrom_source_ne (disk : Disk) (state : State)
    (hpath : Path.extension? path = some "asm") (count : Nat) :
    loadFrom disk state path ≠ .error (.programTooLarge count) := by
  rw [loadFrom_eq]
  cases disk.readText path with
  | error refusal =>
    intro h
    cases h
  | ok text =>
    dsimp only
    rw [readProgram, if_pos hpath]
    cases hwords : assemble (Text.lines text) with
    | error fault =>
      intro h
      cases h
    | ok words =>
      obtain ⟨loaded, hload⟩ := (exists_load_iff state words).mpr
        (Assembly.canonical_of_assemble hwords).1
      intro h
      have hok : state.load words = .error (.programTooLarge count) := h
      rw [hload] at hok
      cases hok

end Machine

/-! ## What the assembler leaves on a disk -/

namespace Console

open Files

/-- The source that the assembler is asked to read. -/
def sourcePath (request : Request) : String := request.plain.getD "main.asm"

/-- The image that the assembler is asked to write. -/
def imagePath (request : Request) : String :=
  (request.value? "output").getD (Path.dropSuffix (sourcePath request) ".asm" ++ ".hack")

/-- The disk on which the image of a source stands, if there is one. -/
def imaged? (disk : Disk) (source image : String) : Option Disk :=
  match disk.readText source with
  | .error _ => none
  | .ok text =>
    match Assembly.assemble (Text.lines text) with
    | .error _ => none
    | .ok words => disk.writeText image (imageText words)

/-- The disk with an image is the one where the words of the source were written. -/
theorem imaged?_eq_some_iff {disk next : Disk} {source image : String} :
    imaged? disk source image = some next ↔
      ∃ text words, disk.readText source = .ok text ∧
        Assembly.assemble (Text.lines text) = .ok words ∧
        disk.writeText image (imageText words) = some next := by
  constructor
  · intro h
    rw [imaged?] at h
    split at h
    · cases h
    · next text htext =>
      split at h
      · cases h
      · next words hwords => exact ⟨text, words, htext, hwords, h⟩
  · rintro ⟨text, words, htext, hwords, hnext⟩
    simp only [imaged?, htext, hwords, hnext]

theorem imaged?_isSome_iff {disk : Disk} {source image : String} :
    (imaged? disk source image).isSome = true ↔
      ∃ text words, disk.readText source = .ok text ∧
        Assembly.assemble (Text.lines text) = .ok words ∧
        (disk.writeText image (imageText words)).isSome = true := by
  simp only [Option.isSome_iff_exists, imaged?_eq_some_iff]
  constructor
  · rintro ⟨next, text, words, htext, hwords, hnext⟩
    exact ⟨text, words, htext, hwords, next, hnext⟩
  · rintro ⟨text, words, htext, hwords, next, hnext⟩
    exact ⟨next, text, words, htext, hwords, hnext⟩

section

variable (disk : Disk)

theorem run_say (line : String) :
    (say line : StateM Disk Unit).run disk =
      pure ((), { disk with printed := disk.printed ++ (line ++ "\n") }) := rfl

theorem run_readText (path : String) :
    (Workspace.readText path : StateM Disk (Except Refusal String)).run disk =
      pure (disk.readText path, disk) := rfl

theorem run_writeText (path text : String) :
    (Workspace.writeText path text : StateM Disk Bool).run disk =
      pure ((disk.writeText path text).isSome, (disk.writeText path text).getD disk) := by
  simp only [Workspace.writeText, StateT.run_bind, StateT.run_get, pure_bind]
  cases disk.writeText path text with
  | some next => rfl
  | none => rfl

/-- Assembling statements writes the image of their words, if they have words,
and apart from that only prints. -/
theorem run_assembleProgram (shown input output : String) (listing : Bool) (lines : List String)
    (program : List Assembly.Placed) :
    ∃ printed, (assembleProgram input output listing lines program : StateM Disk Bool).run
        { disk with printed := shown } =
      match (Assembly.assembleProgram .predefined program).2 with
      | .error _ => (false, { disk with printed })
      | .ok words =>
        ((disk.writeText output (imageText words)).isSome,
          { (disk.writeText output (imageText words)).getD disk with printed }) := by
  simp only [assembleProgram, StateT.run_bind, run_say, pure_bind]
  split
  · next table fault hfault =>
    rw [hfault]
    exact ⟨_, rfl⟩
  · next table words hwords =>
    simp only [StateT.run_bind, run_say, pure_bind, run_writeText, hwords, Disk.writeText_printed]
    cases disk.writeText output (imageText words) with
    | none => exact ⟨_, rfl⟩
    | some next =>
      cases listing with
      | false => exact ⟨_, rfl⟩
      | true => exact ⟨_, rfl⟩

/-- The assembler goes well exactly if it leaves an image of its source, and
apart from that only prints. -/
theorem run_assembleBody (request : Request) :
    ∃ printed, (assembleBody request : StateM Disk Bool).run disk =
      ((imaged? disk (sourcePath request) (imagePath request)).isSome,
        { (imaged? disk (sourcePath request) (imagePath request)).getD disk with printed }) := by
  have hsource : request.plain.getD "main.asm" = sourcePath request := rfl
  have himage : (request.value? "output").getD
      (Path.dropSuffix (sourcePath request) ".asm" ++ ".hack") = imagePath request := rfl
  simp only [assembleBody, StateT.run_bind, run_say, pure_bind, run_readText,
    Disk.readText_printed, hsource, himage]
  cases htext : disk.readText (sourcePath request) with
  | error refusal =>
    simp only [imaged?, htext]
    exact ⟨_, rfl⟩
  | ok text =>
    simp only [imaged?, htext, Assembly.assemble, Assembly.assembleLines]
    cases Assembly.readLines (Text.lines text) with
    | error fault => exact ⟨_, rfl⟩
    | ok program =>
      obtain ⟨printed, hrun⟩ := run_assembleProgram disk _ (sourcePath request)
        (imagePath request) (request.has "dump") (Text.lines text) program
      refine ⟨printed, hrun.trans ?_⟩
      cases (Assembly.assembleProgram .predefined program).2 with
      | error fault => rfl
      | ok words => rfl

end

/-- A source and the image that the assembler wrote of it load alike. -/
theorem exists_loadFrom_imaged {disk next : Disk} {source image : String}
    (h : imaged? disk source image = some next) (hsource : Path.extension? source = some "asm")
    (himage : Path.extension? image ≠ some "asm") (printed : String) (state : Machine.State) :
    ∃ loaded, Machine.loadFrom { next with printed } state source = .ok loaded ∧
      Machine.loadFrom { next with printed } state image = .ok loaded := by
  obtain ⟨text, words, htext, hwords, hnext⟩ := imaged?_eq_some_iff.mp h
  obtain ⟨name, hname, -⟩ := Option.bind_eq_some_iff.mp hsource
  have hne : Path.fileName? image ≠ some name := by
    intro hsame
    apply himage
    rw [← hsource, Path.extension?, Path.extension?, hname, hsame]
  have hkept : next.readText source = .ok text :=
    Disk.readText_writeText_of_ne hnext htext hname hne
  have hwritten : next.readText image = .ok (imageText words) := Disk.readText_writeText hnext
  obtain ⟨loaded, hload⟩ := (Machine.exists_load_iff state words).mpr
    (Assembly.canonical_of_assemble hwords).1
  refine ⟨loaded, ?_, ?_⟩
  · rw [Machine.loadFrom_eq, Disk.readText_printed, hkept]
    dsimp only
    rw [Machine.readProgram_source hsource hwords]
    exact hload
  · rw [Machine.loadFrom_eq, Disk.readText_printed, hwritten]
    dsimp only
    rw [Machine.readProgram_image himage]
    exact hload

/-- Without a name of its own the image is not called like a source. -/
theorem extension?_imagePath {request : Request}
    (h : ∀ output, request.value? "output" = some output → Path.extension? output ≠ some "asm") :
    Path.extension? (imagePath request) ≠ some "asm" := by
  rw [imagePath]
  cases houtput : request.value? "output" with
  | some output => exact h output houtput
  | none => exact Path.extension?_append_hack _

end Console

/-! ## Both ways -/

namespace Machine

open Assembly Console Files

/-- A program can be loaded as a source or as an image. The digits that the
assembler gives for source lines, one word a line, are read as the words that it
gives for them. The assembler goes well exactly if its source can be read and
assembles and the image can be written; on the disk that it then leaves, source
and image bring every machine into the same state. No source ends in a program
that is too large. -/
theorem source_and_image_load_alike :
    (∀ (table : SymbolTable) (lines digits : List String),
      (assembleDigits table lines).2 = .ok digits →
      ∃ words, (assembleLines table lines).2 = .ok words ∧
        (∀ row ∈ digits, row.length = 16) ∧ Text.lines (Text.unlines digits) = digits ∧
        ∀ text, Text.lines text = digits → readImage text = .ok words) ∧
    (∀ (request : Request) (disk next : Disk) (well : Bool),
      Path.extension? (sourcePath request) = some "asm" →
      (∀ output, request.value? "output" = some output → Path.extension? output ≠ some "asm") →
      (assembleBody request : StateM Disk Bool).run disk = (well, next) →
      (well = true ↔ ∃ text words, disk.readText (sourcePath request) = .ok text ∧
        assemble (Text.lines text) = .ok words ∧
        (disk.writeText (imagePath request) (imageText words)).isSome = true) ∧
      (well = true → ∀ state, ∃ loaded,
        loadFrom next state (sourcePath request) = .ok loaded ∧
          loadFrom next state (imagePath request) = .ok loaded)) ∧
    (∀ (disk : Disk) (state : State) (path : String) (count : Nat),
      Path.extension? path = some "asm" →
      loadFrom disk state path ≠ .error (.programTooLarge count)) := by
  refine ⟨?_, ?_, ?_⟩
  · intro table lines digits h
    obtain ⟨words, hwords, rfl⟩ := exists_of_assembleDigits h
    have hrows : ∀ row ∈ words.map Word.binary, row.length = 16 := by
      rw [List.forall_mem_map]
      exact fun word _ => word.length_binary
    exact ⟨words, hwords, hrows, lines_imageText words, fun text => readImage_of_lines⟩
  · intro request disk next well hsource houtput hrun
    have himage := extension?_imagePath houtput
    obtain ⟨printed, hspec⟩ := run_assembleBody disk request
    obtain ⟨rfl, rfl⟩ := Prod.mk.inj (hrun.symm.trans hspec)
    refine ⟨imaged?_isSome_iff, fun hwell state => ?_⟩
    obtain ⟨written, hwritten⟩ := Option.isSome_iff_exists.mp hwell
    rw [hwritten]
    exact exists_loadFrom_imaged hwritten hsource himage printed state
  · intro disk state path count hpath
    exact loadFrom_source_ne disk state hpath count

/-- A source with a comment, blanks and a label. -/
def sampleLoopText : String := "(LOOP)\n@LOOP // again\n0;JMP\nD = A\n"

/-- A disk with that source in the working directory. -/
def sampleDisk : Disk := ⟨[(["main.asm"], .file sampleLoopText.toUTF8)], [], ""⟩

theorem sampleDisk_loads :
    (∃ next, (assembleBody ⟨[], none⟩ : StateM Disk Bool).run sampleDisk = (true, next) ∧
      ∀ state, ∃ loaded, loadFrom next state "main.asm" = .ok loaded ∧
        loadFrom next state "main.hack" = .ok loaded) ∧
    readImage "0000000000000111\n1110110000010000\n" = .ok [7, 0xEC10] ∧
    loadFrom sampleDisk .initial "main.asm" ≠ .error (.programTooLarge 32769) := by
  obtain ⟨hdigits, htool, hlarge⟩ := source_and_image_load_alike
  refine ⟨?_, ?_, hlarge _ _ _ _ (by decide)⟩
  · have hread : sampleDisk.readText "main.asm" = .ok sampleLoopText :=
      Disk.readText_of_node? (by rfl) (by rfl) (Disk.fromUTF8?_toUTF8 _)
    have hwords : assemble (Text.lines sampleLoopText) = .ok [0x0000, 0xEA87, 0xEC10] := by
      decide +kernel
    rcases hrun : (assembleBody ⟨[], none⟩ : StateM Disk Bool).run sampleDisk with ⟨well, next⟩
    obtain ⟨hwell, hload⟩ := htool ⟨[], none⟩ sampleDisk next well (by decide) nofun hrun
    have htrue : well = true := hwell.mpr ⟨_, _, hread, hwords, by rfl⟩
    exact ⟨next, by rw [htrue], hload htrue⟩
  · obtain ⟨words, hwords, -, -, himage⟩ := hdigits .predefined ["@7", "D=A"]
      ["0000000000000111", "1110110000010000"] (by decide +kernel)
    have hexpected : (assembleLines .predefined ["@7", "D=A"]).2 = .ok [7, 0xEC10] := by
      decide +kernel
    rw [hexpected] at hwords
    rw [Except.ok.inj hwords]
    exact himage _ (by decide +kernel)

end Machine

end HK16
