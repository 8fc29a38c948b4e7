/-
**The statements and terms of the generated program.**

The two ECMAScript languages share one tree. Terms say what is computed, statements how a function body goes
about it. List patterns have statements of their own for taking lists apart and for searching them, with their
conditions, and a switch keeps the value that its labels are compared with. Names are kept as they are written.
-/

import DerwLang.Syntax.Operator

namespace DerwLang.Ecma

/-- The two languages: they differ only in whether types are stated. -/
inductive Dialect
  | typeScript
  | javaScript
deriving DecidableEq, Repr

/-- Types are stated. -/
def Dialect.typed : Dialect → Bool
  | .typeScript => true
  | .javaScript => false

/-! ## Conditions -/

/-- What an element of a list is compared with. -/
inductive Anchor
  | tag (name : String)
  | quoted (text : String)
  | template (text : String)
deriving DecidableEq, Repr

/-- An element and what it has to be. -/
structure ElementTest where
  subject : String
  anchor : Anchor
deriving DecidableEq, Repr

/-- The conditions that list patterns need. -/
inductive Condition
  | lengthIs (list : String) (length : Nat)
  | lengthAtLeast (list : String) (length : Nat)
  | notEmpty (list : String)
  | isFound (index : String)
  | elements (tests : List ElementTest)
deriving DecidableEq, Repr

/-- What a switch compares its labels with. -/
inductive Subject
  | value (name : String)
  | lengthOf (name : String)
  | kindOf (name : String)
deriving DecidableEq, Repr

/-- The labels of a switch. -/
inductive Label
  | quoted (text : String)
  | template (text : String)
  | zero
  | lengthOf (name : String)
  | otherwise
deriving DecidableEq, Repr

/-! ## Terms and statements -/

mutual

/-- What is computed. -/
inductive Term
  /-- a name or a number -/
  | verbatim (text : String)
  | quoted (text : String)
  | template (text : String)
  | array (items : List Term)
  /-- the whole numbers between two bounds -/
  | span (first last : String)
  | record (base : Option String) (fields : List TermField)
  | conditional (test whenTrue whenFalse : Term)
  | operation (operator : BinaryOperator) (left right : Term)
  /-- an element in front of a list -/
  | prepend (head tail : Term)
  | call (name : String) (arguments : List Term)
  /-- any function applied to one argument -/
  | application (function argument : Term)
  | function (parameters : List String) (body : List Statement)
  | functionCall (parameters : List String) (body : List Statement) (arguments : List Term)
  | construct (tag : String) (base : Option String) (fields : List TermField)
  /-- a value of another module -/
  | member (path : List String) (value : Term)
  /-- statements that are run where a term is needed -/
  | immediate (body : List Statement)

/-- One field of a record. -/
structure TermField where
  name : String
  value : Term

/-- One step of a function body. -/
inductive Statement
  | returning (value : Term)
  | declaring (declaration : Declaration)
  /-- the value that a case looks at, under a name of its own -/
  | temporary (name : String) (value : Term)
  | bindName (name list : String)
  /-- the first elements of a list, and perhaps all after them -/
  | bindElements (names : List String) (rest : Option String) (list : String)
  | bindFields (names : List String) (subject : String)
  | bindElementAt (name list index : String)
  | bindBefore (name list index : String)
  | bindAfter (name list index : String)
  /-- the index of the first element that passes a test, or else minus one -/
  | search (found cursor list : String) (anchor : Anchor)
  | guarded (condition : Condition) (body : List Statement)
  | choose (test : Term) (whenTrue whenFalse : List Statement)
  | switch (subject : Subject) (cases : List SwitchCase)

/-- A label of a switch and what is run from there. -/
structure SwitchCase where
  label : Label
  body : List Statement

/-- A definition with its head as it is written, or any other declaration. -/
inductive Declaration
  | function (head : String) (body : List Statement)
  | constant (binder : String) (value : Term)
  | verbatim (text : String)

end

end DerwLang.Ecma
