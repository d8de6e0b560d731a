import DomainScaffold.Php.Tree

/-!
# Building PHP

Short forms for the declarations and expressions that generated code is put together from.

Results:
* `names_constant`, `names_property`: a declaration built here declares the one name it is given.
-/

namespace DomainScaffold.Php

/-! ## Expressions -/

namespace Expr

/-- `$this`. -/
def this : Expr := var "this"

/-- `$this->name`. -/
def ofThis (name : String) : Expr := property this name

/-- `Class::class`. -/
def classRef (className : String) : Expr := classConst className "class"

/-- `self::NAME`. -/
def selfConst (name : String) : Expr := classConst "self" name

/-- `[a, b]`. -/
def list (values : List Expr) : Expr := array (values.map fun v => (none, v))

end Expr

/-! ## Declarations -/

namespace ConstantDecl

/-- A public constant. -/
def publicOne (name : String) (value : Expr) : ConstantDecl := ⟨some .pub, [(name, value)]⟩

theorem names_constant (name : String) (value : Expr) :
    (publicOne name value).entries.map Prod.fst = [name] := rfl

end ConstantDecl

namespace PropertyDecl

/-- A private property. -/
def privateOne (typeHint : Option String) (name : String) (preset : Option Expr) : PropertyDecl :=
  ⟨some .priv, false, false, typeHint, [(name, preset)]⟩

theorem names_property (typeHint : Option String) (name : String) (preset : Option Expr) :
    (privateOne typeHint name preset).entries.map Prod.fst = [name] := rfl

end PropertyDecl

namespace Param

/-- A parameter without a type. -/
def untyped (name : String) : Param := ⟨[], none, none, false, false, name, none⟩

/-- A parameter with a type. -/
def typed (typeHint name : String) : Param := { untyped name with typeHint := some typeHint }

end Param

namespace MethodDecl

/-- A method without attributes and further modifiers. -/
def plain (visibility : Visibility) (isStatic : Bool) (name : String) (params : List Param)
    (returnType : Option String) (body : List Statement) : MethodDecl where
  attributes := []
  visibility := some visibility
  isStatic := isStatic
  isAbstract := false
  isFinal := false
  byReference := false
  name := name
  params := params
  returnType := returnType
  body := some body

/-- A public method. -/
def publicOne (name : String) (params : List Param) (returnType : Option String)
    (body : List Statement) : MethodDecl := plain .pub false name params returnType body

/-- A public static method. -/
def publicStatic (name : String) (params : List Param) (returnType : Option String)
    (body : List Statement) : MethodDecl := plain .pub true name params returnType body

/-- A private method. -/
def privateOne (name : String) (params : List Param) (returnType : Option String)
    (body : List Statement) : MethodDecl := plain .priv false name params returnType body

end MethodDecl

end DomainScaffold.Php
