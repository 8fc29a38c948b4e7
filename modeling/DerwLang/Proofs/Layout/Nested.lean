/-
**Declarations at any depth.**

Definitions hold local definitions, in their own `let` and in those of the branches and conditionals below. A fact about
every single declaration in which checks hold everywhere is a fact about all declarations of a module, at whatever depth
they stand (`Module.Everywhere.declarations`).
-/

import DerwLang.Proofs.Layout.Everywhere

namespace DerwLang

/-- The condition holds of declarations. -/
def Checks.ofBlock (holds : Block → Prop) : Checks where
  block := holds

section Declarations

variable {checks : Checks} {holds : Block → Prop}

/-- The inner conditions on expressions come one by one. -/
theorem inside_each {items : List Expression}
    (each : ∀ item ∈ items, item.Inside checks → item.Inside (Checks.ofBlock holds))
    (inside : Expression.EverywhereEach checks items) : Expression.EverywhereEach (Checks.ofBlock holds) items := by
  rw [Expression.everywhereEach] at inside ⊢
  exact fun item member => ⟨trivial, each item member (inside item member).2⟩

theorem inside_fields {fields : List Field}
    (each : ∀ field ∈ fields, field.value.Inside checks → field.value.Inside (Checks.ofBlock holds))
    (inside : Field.EverywhereEach checks fields) : Field.EverywhereEach (Checks.ofBlock holds) fields := by
  rw [Field.everywhereEach] at inside ⊢
  exact fun field member => ⟨trivial, each field member (inside field member).2⟩

theorem inside_branches {branches : List Branch}
    (each : ∀ branch ∈ branches, branch.body.Everywhere checks → branch.body.Everywhere (Checks.ofBlock holds))
    (inside : Branch.EverywhereEach checks branches) : Branch.EverywhereEach (Checks.ofBlock holds) branches := by
  rw [Branch.everywhereEach] at inside ⊢
  exact fun branch member => ⟨trivial, each branch member (inside branch member).2⟩

/-- What holds of each declaration in which the checks hold everywhere holds of all that stand in one. -/
theorem steps_ofBlock (each : ∀ block : Block, block.Everywhere checks → holds block) :
    Steps (fun expression => expression.Inside checks → expression.Inside (Checks.ofBlock holds))
      (fun body => body.Everywhere checks → body.Everywhere (Checks.ofBlock holds))
      (fun block => block.Everywhere checks → block.Everywhere (Checks.ofBlock holds)) where
  value _ := id
  string _ := id
  formatString _ := id
  list _ := inside_each
  range _ _ := id
  record _ _ := inside_fields
  conditional _ _ _ predicate whenTrue whenFalse := fun ⟨condition, chosen, other⟩ =>
    ⟨⟨trivial, predicate condition.2⟩, whenTrue chosen, whenFalse other⟩
  caseOf _ _ predicate branches := fun ⟨subject, inside⟩ =>
    ⟨⟨trivial, predicate subject.2⟩, inside_branches branches inside⟩
  binary _ _ _ left right := fun ⟨first, second⟩ => ⟨⟨trivial, left first.2⟩, trivial, right second.2⟩
  call _ _ := inside_each
  lambda _ _ body := fun inside => ⟨trivial, body inside.2⟩
  lambdaCall _ _ _ body arguments := fun ⟨inside, items⟩ => ⟨⟨trivial, body inside.2⟩, inside_each arguments items⟩
  construct _ _ _ := inside_fields
  reference _ _ _ value := value
  body locals _ blocks result := fun ⟨_, declared, inside⟩ => by
    rw [Block.everywhereEach] at declared
    refine ⟨trivial, Block.everywhereEach.mpr fun block member => ?_, trivial, result inside.2⟩
    exact blocks block member (declared block member)
  function _ _ _ _ body := fun everywhere => ⟨each _ everywhere, body everywhere.2⟩
  constant _ _ _ body := fun everywhere => ⟨each _ everywhere, body everywhere.2⟩
  imports _ := each _
  exports _ := each _
  union _ := each _
  typeAlias _ := each _
  comment _ := each _
  multilineComment _ := each _

/-- **What holds of each declaration in which the checks hold everywhere holds of all declarations of a module** in which
they do, local ones among them. -/
theorem Module.Everywhere.declarations {module : Module} (everywhere : module.Everywhere checks)
    (each : ∀ block : Block, block.Everywhere checks → holds block) : module.Everywhere (Checks.ofBlock holds) :=
  fun block member => (steps_ofBlock each).block block (everywhere block member)

end Declarations

end DerwLang
