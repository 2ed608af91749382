/-!
# Names

Labels, variables and functions have names made of ASCII letters, digits and the
four marks `_`, `.`, `$` and `:`. A name is not empty and does not start with a
digit.
-/

namespace HK16.Text

/-- Whether a character may stand in a name. -/
def isNameChar (c : Char) : Bool :=
  c.isAlphanum || c == '_' || c == '.' || c == '$' || c == ':'

/-- Whether the text is a name. -/
def isName : List Char → Bool
  | [] => false
  | c :: rest => !c.isDigit && isNameChar c && rest.all isNameChar

/-- Names are made of name characters. -/
theorem isNameChar_of_mem {text : List Char} (h : isName text = true) {c : Char}
    (hc : c ∈ text) : isNameChar c = true := by
  cases text with
  | nil => simp [isName] at h
  | cons d rest =>
    simp only [isName, Bool.and_eq_true, List.all_eq_true] at h
    rcases List.mem_cons.mp hc with rfl | hm
    · exact h.1.2
    · exact h.2 c hm

end HK16.Text
