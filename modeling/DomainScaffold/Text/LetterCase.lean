import DomainScaffold.Text.LetterCaseTable
import DomainScaffold.Text.CodeRange

/-!
# Upper and lower case

The case of a character and the case mappings of characters and texts, for all scripts. A
character may have several characters as its upper-case form; a capital sigma at the end of a
word has a lower-case form of its own.

Results:
* `upper_of_lt`, `lower_of_lt`: on ASCII the mappings are those of core.
-/

namespace DomainScaffold.Text

/-! ## Classes -/

/-- Whether a character is an upper-case one. -/
def isUppercase (c : Char) : Bool :=
  if c.toNat < 128 then c.isUpper else inStrides uppercaseStrides c.toNat

/-- Whether a character is a lower-case one. -/
def isLowercase (c : Char) : Bool :=
  if c.toNat < 128 then c.isLower else inStrides lowercaseStrides c.toNat

/-- Whether a character has a case. -/
def isCased (c : Char) : Bool :=
  if c.toNat < 128 then c.isAlpha else inRanges casedRanges c.toNat

/-- Whether a character is skipped when the end of a word is looked for. -/
def isCaseIgnorable (c : Char) : Bool :=
  if c.toNat < 128 then c ∈ ['\'', '.', ':', '^', '`']
  else inRanges caseIgnorableRanges c.toNat

/-! ## Mappings of one character -/

/-- The code point `n` moved by the first row that holds it. -/
def shiftBy (rows : List (Nat × Nat × Nat × Int)) (n : Nat) : Nat :=
  match rows.find? fun r => inStride (r.1, r.2.1, r.2.2.1) n with
  | some r => ((n : Int) + r.2.2.2).toNat
  | none => n

/-- The mapping of a code point: its expansion if it has one, else its shifted form. -/
def mapCode (expansions : List (Nat × List Nat)) (rows : List (Nat × Nat × Nat × Int))
    (n : Nat) : List Char :=
  match expansions.lookup n with
  | some form => form.map Char.ofNat
  | none => [Char.ofNat (shiftBy rows n)]

/-- The upper-case form of a character. -/
def upperForm (c : Char) : List Char :=
  if c.toNat < 128 then [c.toUpper] else mapCode upperExpansions upperRows c.toNat

/-- The lower-case form of a character. -/
def lowerForm (c : Char) : List Char :=
  if c.toNat < 128 then [c.toLower] else mapCode lowerExpansions lowerRows c.toNat

theorem upperForm_of_lt {c : Char} (h : c.toNat < 128) : upperForm c = [c.toUpper] := by
  simp [upperForm, h]

theorem lowerForm_of_lt {c : Char} (h : c.toNat < 128) : lowerForm c = [c.toLower] := by
  simp [lowerForm, h]

/-! ## Mappings of a text -/

/-- Whether the first character that is not skipped has a case. -/
def meetsCased (cs : List Char) : Bool :=
  match cs.dropWhile isCaseIgnorable with
  | [] => false
  | c :: _ => isCased c

/-- The lower-case form of `cs` after the characters `before`, which are given backwards. A
    capital sigma that ends a word becomes a final sigma. -/
def lowerChars (before : List Char) : List Char → List Char
  | [] => []
  | c :: cs =>
    (if c = 'Σ' then if meetsCased before && !meetsCased cs then ['ς'] else ['σ']
      else lowerForm c) ++ lowerChars (c :: before) cs

/-- The upper-case form of a text. -/
def upper (s : String) : String := String.ofList (s.toList.flatMap upperForm)

/-- The lower-case form of a text. -/
def lower (s : String) : String := String.ofList (lowerChars [] s.toList)

theorem flatMap_upperForm_of_lt {cs : List Char} (h : ∀ c ∈ cs, c.toNat < 128) :
    cs.flatMap upperForm = cs.map Char.toUpper := by
  induction cs with
  | nil => rfl
  | cons c cs ih =>
    rw [List.flatMap_cons, upperForm_of_lt (h c (by simp)),
      ih fun d hd => h d (List.mem_cons_of_mem _ hd)]
    rfl

theorem lowerChars_of_lt {cs : List Char} (h : ∀ c ∈ cs, c.toNat < 128) (before : List Char) :
    lowerChars before cs = cs.map Char.toLower := by
  induction cs generalizing before with
  | nil => rfl
  | cons c cs ih =>
    have hc := h c (by simp)
    have hs : c ≠ 'Σ' := by rintro rfl; exact absurd hc (by decide)
    rw [lowerChars, if_neg hs, lowerForm_of_lt hc,
      ih (fun d hd => h d (List.mem_cons_of_mem _ hd)) (c :: before)]
    rfl

theorem upper_of_lt {s : String} (h : ∀ c ∈ s.toList, c.toNat < 128) :
    upper s = String.ofList (s.toList.map Char.toUpper) := by
  rw [upper, flatMap_upperForm_of_lt h]

theorem lower_of_lt {s : String} (h : ∀ c ∈ s.toList, c.toNat < 128) :
    lower s = String.ofList (s.toList.map Char.toLower) := by
  rw [lower, lowerChars_of_lt h []]

/-! ## Equality up to ASCII case -/

/-- The text with its ASCII letters in lower case. -/
def foldAscii (s : String) : String := String.ofList (s.toList.map Char.toLower)

/-- Whether two texts are equal when the case of ASCII letters is ignored. -/
def sameIgnoringCase (s t : String) : Bool := foldAscii s == foldAscii t

theorem sameIgnoringCase_iff {s t : String} :
    sameIgnoringCase s t = true ↔ s.toList.map Char.toLower = t.toList.map Char.toLower := by
  simp [sameIgnoringCase, foldAscii, String.ofList_inj]

theorem sameIgnoringCase_refl (s : String) : sameIgnoringCase s s = true := by
  simp [sameIgnoringCase]

theorem sameIgnoringCase_comm (s t : String) : sameIgnoringCase s t = sameIgnoringCase t s := by
  simp [sameIgnoringCase, Bool.beq_comm]

end DomainScaffold.Text
