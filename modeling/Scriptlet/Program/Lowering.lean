import Scriptlet.Program.Basic

/-!
# Lowering

Turns structured statements into jumps. Every branch and loop becomes a few
jumps around the code of its parts; a counting loop is first spelled out as a
loop with a condition. Labels are numbered in the order in which the code is
made, and none of them is a label of the statement itself.
-/

namespace Scriptlet.Bound

/-- The condition of a counting loop: its variable has not passed the bound. -/
def countingCondition (target : Variable) (upper : Expr) : Expr :=
  .binary (.name target) ⟨.lessEquals, .lessOrEqual, .int, .int, .bool⟩ upper

/-- The last step of a round of a counting loop: its variable grows by one. -/
def countingStep (target : Variable) : Stmt :=
  .expression (.assignment target
    (.binary (.name target) ⟨.plus, .addition, .int, .int, .int⟩ (.literal (.int 1))))

namespace Stmt

mutual

/-- Number of labels that the code of a statement makes. -/
def labelCount : Stmt → Nat
  | block statements => labelCountAll statements
  | ifThen _ consequence => consequence.labelCount + 1
  | ifElse _ consequence alternative => consequence.labelCount + alternative.labelCount + 2
  | whileLoop _ body => body.labelCount + 3
  | forLoop _ _ _ body => body.labelCount + 3
  | _ => 0

/-- Number of labels that the code of a row of statements makes. -/
def labelCountAll : List Stmt → Nat
  | [] => 0
  | s :: ss => s.labelCount + labelCountAll ss

end

mutual

/-- A number above the identities of all labels that a statement mentions. -/
def labelBound : Stmt → Nat
  | block statements => labelBoundAll statements
  | ifThen _ consequence => consequence.labelBound
  | ifElse _ consequence alternative => max consequence.labelBound alternative.labelBound
  | whileLoop _ body => body.labelBound
  | forLoop _ _ _ body => body.labelBound
  | goto target => target.id + 1
  | gotoIf target _ _ => target.id + 1
  | label placed => placed.id + 1
  | declaration .. | expression _ => 0

/-- A number above the identities of all labels that a row of statements
mentions. -/
def labelBoundAll : List Stmt → Nat
  | [] => 0
  | s :: ss => max s.labelBound (labelBoundAll ss)

end

/-- The code of a loop around the code of its body. The condition is tested at
the end of a round, and the loop is entered there. -/
def loopCode (check body finish : Label) (condition : Expr) (bodyCode : Program) : Program :=
  [goto check, label body] ++ bodyCode ++
    [label check, gotoIf body condition true, label finish]

mutual

/-- The code of a statement. `fresh k` is the label of number `k`, and the code
uses the numbers behind `n`. -/
def code (fresh : Nat → Label) (n : Nat) : Stmt → Program
  | block statements => codeAll fresh n statements
  | ifThen condition consequence =>
    let finish := fresh (n + 1)
    gotoIf finish condition false :: consequence.code fresh (n + 1) ++ [label finish]
  | ifElse condition consequence alternative =>
    let otherwise := fresh (n + 1)
    let finish := fresh (n + 2)
    gotoIf otherwise condition false :: consequence.code fresh (n + 2) ++
      [goto finish, label otherwise] ++
      alternative.code fresh (n + 2 + consequence.labelCount) ++ [label finish]
  | whileLoop condition body =>
    loopCode (fresh (n + 1)) (fresh (n + 2)) (fresh (n + 3)) condition (body.code fresh (n + 3))
  | forLoop target lower upper body =>
    declaration target lower ::
      loopCode (fresh (n + 1)) (fresh (n + 2)) (fresh (n + 3)) (countingCondition target upper)
        (body.code fresh (n + 3) ++ [countingStep target])
  | s => [s]

/-- The code of a row of statements, one after the other. -/
def codeAll (fresh : Nat → Label) (n : Nat) : List Stmt → Program
  | [] => []
  | s :: ss => s.code fresh n ++ codeAll fresh (n + s.labelCount) ss

end

/-- The label of a number, apart from all labels with identities below a bound. -/
def freshLabel (bound k : Nat) : Label := ⟨bound + k, s!"Label{k}"⟩

/-- The flat program of a statement. -/
def lower (s : Stmt) : Program := s.code (freshLabel s.labelBound) 0

/-- Fresh labels are as different as their numbers. -/
theorem freshLabel_injective {bound j k : Nat} (h : freshLabel bound j = freshLabel bound k) :
    j = k := by
  have ids := congrArg Label.id h
  simp only [freshLabel] at ids
  omega

end Stmt

end Scriptlet.Bound
