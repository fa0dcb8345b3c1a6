/-!
# The two ends of a text

What precedes and follows: the rest of a list after a given front, the front that two lists have
in common, and a list without the elements at its end, or at both ends, that satisfy a test.
-/

namespace DeclOrder.Text

/-- What follows the front, if the list starts with it. -/
def after? {α : Type} [DecidableEq α] (front elements : List α) : Option (List α) :=
  match front, elements with
  | [], rest => some rest
  | _ :: _, [] => none
  | expected :: front, first :: rest => if expected = first then after? front rest else none

/-- A list starts with the front and goes on with the rest exactly if it is both in a row. -/
theorem after?_eq_some_iff {α : Type} [DecidableEq α] {front elements rest : List α} :
    after? front elements = some rest ↔ elements = front ++ rest := by
  fun_induction after? front elements with
  | case1 rest => simp [eq_comm]
  | case2 => simp
  | case3 expected front rest ih => simp [ih]
  | case4 expected front first rest different => simp [Ne.symm different]

/-- The longest front that two lists have in common. -/
def commonFront {α : Type} [DecidableEq α] : List α → List α → List α
  | left :: lefts, right :: rights => if left = right then left :: commonFront lefts rights else []
  | _, _ => []

/-- The longest back that two lists have in common. -/
def commonBack {α : Type} [DecidableEq α] (left right : List α) : List α :=
  (commonFront left.reverse right.reverse).reverse

/-- The list without its longest tail whose elements all satisfy the test. -/
def dropTailWhile {α : Type} (test : α → Bool) : List α → List α
  | [] => []
  | first :: rest =>
    match dropTailWhile test rest with
    | [] => if test first then [] else [first]
    | kept => first :: kept

/-- The list without the elements at either end that satisfy the test. -/
def strip {α : Type} (test : α → Bool) (elements : List α) : List α :=
  dropTailWhile test (elements.dropWhile test)

end DeclOrder.Text
