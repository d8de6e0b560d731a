/-!
# PHP expressions

The expressions that generated code is made of. An expression of any other form, as hand-written
code may hold, is kept as its text.

Results:
* `Expr.same_iff`: equality of expressions is decidable.
-/

namespace DomainScaffold.Php

/-- A PHP expression. -/
inductive Expr where
  /-- `$name`; the name is kept without its sign. -/
  | var (name : String)
  /-- A plain or qualified name of a constant, class or function. -/
  | name (text : String)
  /-- `Class::NAME`, also `Class::class`. -/
  | classConst (className name : String)
  /-- A single-quoted string, by its value. -/
  | text (value : String)
  | int (value : Int)
  /-- A number with a fraction or exponent, as written. -/
  | float (text : String)
  | bool (value : Bool)
  | null
  /-- An array literal: values, each with its key if it has one. -/
  | array (items : List (Option Expr × Expr))
  | call (function : String) (args : List Expr)
  | methodCall (object : Expr) (method : String) (args : List Expr)
  | staticCall (className method : String) (args : List Expr)
  | property (object : Expr) (name : String)
  | new (className : String) (args : List Expr)
  | clone (value : Expr)
  | yield (value : Option Expr)
  | assign (target value : Expr)
  | binary (left : Expr) (op : String) (right : Expr)
  /-- The text of an expression of another form. -/
  | raw (text : String)
  deriving Inhabited, Repr

namespace Expr

/-! ## Equality -/

mutual

/-- Whether two expressions are equal. -/
def same : Expr → Expr → Bool
  | var a, var b => a == b
  | name a, name b => a == b
  | classConst a m, classConst b n => a == b && m == n
  | text a, text b => a == b
  | int a, int b => a == b
  | float a, float b => a == b
  | bool a, bool b => a == b
  | null, null => true
  | array as, array bs => sameItems as bs
  | call f as, call g bs => f == g && sameArgs as bs
  | methodCall o m as, methodCall p n bs => same o p && m == n && sameArgs as bs
  | staticCall c m as, staticCall d n bs => c == d && m == n && sameArgs as bs
  | property o m, property p n => same o p && m == n
  | new c as, new d bs => c == d && sameArgs as bs
  | clone a, clone b => same a b
  | yield a, yield b => sameOption a b
  | assign a v, assign b w => same a b && same v w
  | binary a o v, binary b p w => same a b && o == p && same v w
  | raw a, raw b => a == b
  | _, _ => false

/-- Whether two lists of expressions are equal. -/
def sameArgs : List Expr → List Expr → Bool
  | [], [] => true
  | a :: as, b :: bs => same a b && sameArgs as bs
  | _, _ => false

/-- Whether two expressions that may be absent are equal. -/
def sameOption : Option Expr → Option Expr → Bool
  | none, none => true
  | some a, some b => same a b
  | _, _ => false

/-- Whether two lists of array items are equal. -/
def sameItems : List (Option Expr × Expr) → List (Option Expr × Expr) → Bool
  | [], [] => true
  | (j, a) :: as, (k, b) :: bs => sameOption j k && same a b && sameItems as bs
  | _, _ => false

end

mutual

theorem same_iff : ∀ a b : Expr, same a b = true ↔ a = b
  | var _, b => by cases b <;> simp [same]
  | name _, b => by cases b <;> simp [same]
  | classConst _ _, b => by cases b <;> simp [same]
  | text _, b => by cases b <;> simp [same]
  | int _, b => by cases b <;> simp [same]
  | float _, b => by cases b <;> simp [same]
  | bool _, b => by cases b <;> simp [same]
  | null, b => by cases b <;> simp [same]
  | array as, b => by cases b <;> simp [same, sameItems_iff as]
  | call _ as, b => by cases b <;> simp [same, sameArgs_iff as]
  | methodCall o _ as, b => by cases b <;> simp [same, same_iff o, sameArgs_iff as, and_assoc]
  | staticCall _ _ as, b => by cases b <;> simp [same, sameArgs_iff as, and_assoc]
  | property o _, b => by cases b <;> simp [same, same_iff o]
  | new _ as, b => by cases b <;> simp [same, sameArgs_iff as]
  | clone a, b => by cases b <;> simp [same, same_iff a]
  | yield a, b => by cases b <;> simp [same, sameOption_iff a]
  | assign a v, b => by cases b <;> simp [same, same_iff a, same_iff v]
  | binary a _ v, b => by cases b <;> simp [same, same_iff a, same_iff v, and_assoc]
  | raw _, b => by cases b <;> simp [same]

theorem sameArgs_iff : ∀ as bs : List Expr, sameArgs as bs = true ↔ as = bs
  | [], bs => by cases bs <;> simp [sameArgs]
  | a :: as, bs => by cases bs <;> simp [sameArgs, same_iff a, sameArgs_iff as]

theorem sameOption_iff : ∀ a b : Option Expr, sameOption a b = true ↔ a = b
  | none, b => by cases b <;> simp [sameOption]
  | some a, b => by cases b <;> simp [sameOption, same_iff a]

theorem sameItems_iff : ∀ as bs : List (Option Expr × Expr), sameItems as bs = true ↔ as = bs
  | [], bs => by cases bs <;> simp [sameItems]
  | (k, a) :: as, [] => by simp [sameItems]
  | (k, a) :: as, (l, b) :: bs => by
    simp [sameItems, sameOption_iff k, same_iff a, sameItems_iff as]

end

instance : DecidableEq Expr := fun a b => decidable_of_iff _ (same_iff a b)

end Expr

end DomainScaffold.Php
