import DomainScaffold.Text.Alphanumeric
import DomainScaffold.Text.LetterCase
import DomainScaffold.Text.Split

/-!
# Words of a label

Labels are free text ("Add Building", "add-building", "addBuilding"). A label is split into words
at characters that are neither letter nor digit and at changes of case, and the words are put
together again in one of several spellings.

Results:
* `ne_nil_of_mem_collectWords`: no word is empty.
* `flatten_collectWords`: the words hold exactly the letters and digits of the label, in order.
-/

namespace DomainScaffold.Naming

open Text

/-! ## Splitting -/

/-- Whether a new word starts at `c`, which follows `before` in the label: an upper-case character
    after a lower-case one or a digit, or the last capital of a run that goes on in lower case. -/
def startsWord (before c : Char) (next : Option Char) : Bool :=
  isUppercase c &&
    (isLowercase before || before.isDigit || (isUppercase before && next.any isLowercase))

/-- The words of a label; `word` is the word read so far, backwards. -/
def collectWords (word : List Char) : List Char → List (List Char)
  | [] => if word.isEmpty then [] else [word.reverse]
  | c :: cs =>
    if isAlphanumeric c then
      match word with
      | [] => collectWords [c] cs
      | before :: _ =>
        if startsWord before c cs.head? then word.reverse :: collectWords [c] cs
        else collectWords (c :: word) cs
    else if word.isEmpty then collectWords [] cs
    else word.reverse :: collectWords [] cs

/-- The words of a label. -/
def splitWords (s : String) : List String := (collectWords [] s.toList).map String.ofList

theorem ne_nil_of_mem_collectWords (cs : List Char) :
    ∀ word, ∀ w ∈ collectWords word cs, w ≠ [] := by
  induction cs with
  | nil =>
    intro word w hw
    cases word with
    | nil => simp [collectWords] at hw
    | cons d ds => simp [collectWords] at hw; simp [hw]
  | cons c cs ih =>
    intro word w hw
    cases word with
    | nil =>
      rw [collectWords] at hw
      split at hw
      · exact ih _ w hw
      · exact ih _ w (by simpa using hw)
    | cons d ds =>
      rw [collectWords] at hw
      split at hw
      · split at hw
        · rcases List.mem_cons.1 hw with rfl | hw
          · simp
          · exact ih _ w hw
        · exact ih _ w hw
      · simp only [List.isEmpty_cons, Bool.false_eq_true, if_false] at hw
        rcases List.mem_cons.1 hw with rfl | hw
        · simp
        · exact ih _ w hw

theorem flatten_collectWords (cs : List Char) :
    ∀ word, (collectWords word cs).flatten = word.reverse ++ cs.filter isAlphanumeric := by
  induction cs with
  | nil => intro word; cases word <;> simp [collectWords]
  | cons c cs ih =>
    intro word
    cases word with
    | nil => rw [collectWords]; split <;> simp_all
    | cons d ds =>
      rw [collectWords]
      split
      · split <;> simp_all
      · simp_all

/-! ## Spellings -/

/-- The word with its first character in upper case. -/
def capitalize (word : String) : String :=
  match word.toList with
  | [] => ""
  | c :: cs => String.ofList (upperForm c ++ cs)

/-- The words one after the other, each with an upper-case start: `AddBuilding`. -/
def pascal (s : String) : String := String.join ((splitWords s).map capitalize)

/-- As `pascal`, with the first word in lower case: `addBuilding`. -/
def camel (s : String) : String :=
  match splitWords s with
  | [] => ""
  | first :: rest => lower first ++ String.join (rest.map capitalize)

/-- The words in lower case between underscores: `add_building`. -/
def snake (s : String) : String := String.intercalate "_" ((splitWords s).map lower)

/-- The words in upper case between underscores: `ADD_BUILDING`. -/
def upperSnake (s : String) : String := String.intercalate "_" ((splitWords s).map upper)

/-- The words in lower case between hyphens: `add-building`. -/
def kebab (s : String) : String := String.intercalate "-" ((splitWords s).map lower)

/-! ## Plurals -/

/-- Whether a lower-case word ends in `y` after a letter other than a vowel. -/
def endsInConsonantY (cs : List Char) : Bool :=
  match cs.reverse with
  | 'y' :: before :: _ => !("aeiou".toList.contains before)
  | _ => false

/-- The English plural of the last word, keeping the rest of the label as it is. -/
def plural (s : String) : String :=
  if s.isEmpty then ""
  else
    let low := lower s
    if endsInConsonantY low.toList then
      String.ofList s.toList.dropLast ++ (if Text.endsWith "Y" s then "IES" else "ies")
    else
      let es := ["s", "x", "z", "ch", "sh"].any fun tail => Text.endsWith tail low
      let capital := s.toList.getLast?.any isUppercase
      s ++ match es, capital with
        | true, true => "ES"
        | true, false => "es"
        | false, true => "S"
        | false, false => "s"

end DomainScaffold.Naming
