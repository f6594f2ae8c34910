import Lox.Proofs.Syntax.Relined
import Lox.Proofs.Tree.Saved
import Lox.Tree.OfSyntax

/-!
The trees of parsed programs: different programs have different trees, and if no line
number is too long to be read back, the trees can be saved.
-/

namespace Lox

section Injective

theorem Literal.toTree_inj {left right : Literal} (same : left.toTree = right.toTree) :
    left = right := by
  cases left <;> cases right <;> simp_all [toTree]

theorem Literal.toJson_inj {left right : Literal} (same : left.toJson = right.toJson) :
    left = right := by
  cases left <;> cases right <;> simp_all [toJson]

theorem Token.toTree_inj {left right : Token} (same : left.toTree = right.toTree) :
    left = right := by
  obtain ⟨kind, lexeme, line, literal⟩ := left
  obtain ⟨kind', lexeme', line', literal'⟩ := right
  simp only [toTree, saved, Tree.token.injEq, SavedToken.mk.injEq, Json.string.injEq,
    Text.ofString_inj, Json.int.injEq] at same
  obtain ⟨rfl, rfl, rfl, literals⟩ := same
  rw [Literal.toJson_inj literals]

namespace Expr

mutual

theorem toTree_inj (left right : Expr) (same : left.toTree = right.toTree) : left = right := by
  cases left with
  | literal value =>
    cases right <;> simp only [toTree, reduceCtorEq, Tree.literal.injEq] at same
    rw [Literal.toTree_inj same]
  | grouping inner =>
    cases right <;> simp only [toTree, reduceCtorEq, Tree.grouping.injEq] at same
    rw [toTree_inj inner _ same]
  | unary token expr | assign token expr =>
    cases right <;>
      simp only [toTree, reduceCtorEq, Tree.unary.injEq, Tree.assign.injEq] at same
    rw [Token.toTree_inj same.1, toTree_inj expr _ same.2]
  | binary first token second | logical first token second | setMember first token second =>
    cases right <;>
      simp only [toTree, reduceCtorEq, Tree.binary.injEq, Tree.logical.injEq,
        Tree.setMember.injEq] at same
    rw [toTree_inj first _ same.1, Token.toTree_inj same.2.1, toTree_inj second _ same.2.2]
  | ident token | this token =>
    cases right <;> simp only [toTree, reduceCtorEq, Tree.ident.injEq, Tree.this.injEq] at same
    rw [Token.toTree_inj same]
  | call callee paren arguments =>
    cases right <;> simp only [toTree, reduceCtorEq, Tree.call.injEq, Tree.list.injEq] at same
    rw [toTree_inj callee _ same.1, Token.toTree_inj same.2.1, toTrees_inj arguments _ same.2.2]
  | member target name =>
    cases right <;> simp only [toTree, reduceCtorEq, Tree.member.injEq] at same
    rw [toTree_inj target _ same.1, Token.toTree_inj same.2]
  | super keyword method =>
    cases right <;> simp only [toTree, reduceCtorEq, Tree.super.injEq] at same
    rw [Token.toTree_inj same.1, Token.toTree_inj same.2]

theorem toTrees_inj (left right : List Expr) (same : toTrees left = toTrees right) :
    left = right := by
  cases left with
  | nil => cases right <;> simp_all [toTrees]
  | cons first rest =>
    cases right <;> simp only [toTrees, reduceCtorEq, List.cons.injEq] at same
    rw [toTree_inj first _ same.1, toTrees_inj rest _ same.2]

end

theorem toTree_ne_nil (expr : Expr) : expr.toTree ≠ .nil := by
  cases expr <;> simp [toTree]

theorem optionTree_inj {left right : Option Expr} (same : optionTree left = optionTree right) :
    left = right := by
  cases left with
  | none =>
    cases right with
    | none => rfl
    | some expr => exact absurd same.symm (toTree_ne_nil expr)
  | some first =>
    cases right with
    | none => exact absurd same (toTree_ne_nil first)
    | some second => rw [toTree_inj first second same]

end Expr

theorem Token.map_toTree_inj {left right : List Token}
    (same : left.map toTree = right.map toTree) : left = right :=
  (List.map_inj_right fun _ _ => toTree_inj).1 same

def Function.parts : Function → Tree × Tree × Tree
  | .mk name params body =>
      (name.toTree, .list (params.map Token.toTree), .list (Stmt.toTrees body))

theorem Function.toTree_eq (declaration : Function) :
    declaration.toTree =
      .function declaration.parts.1 declaration.parts.2.1 declaration.parts.2.2 := by
  cases declaration
  rfl

theorem Stmt.toTree_ne_nil (stmt : Stmt) : stmt.toTree ≠ .nil := by
  cases stmt with
  | function declaration => cases declaration; simp [toTree, Function.toTree]
  | _ => simp [toTree]

mutual

theorem Stmt.toTree_inj (left right : Stmt) (same : left.toTree = right.toTree) : left = right := by
  cases left with
  | expr value | print value =>
    cases right <;>
      simp only [Stmt.toTree, Function.toTree_eq, reduceCtorEq, Tree.expr.injEq,
        Tree.print.injEq] at same
    rw [Expr.toTree_inj value _ same]
  | var token value | returnStmt token value =>
    cases right <;>
      simp only [Stmt.toTree, Function.toTree_eq, reduceCtorEq, Tree.var.injEq,
        Tree.returnStmt.injEq] at same
    rw [Token.toTree_inj same.1, Expr.optionTree_inj same.2]
  | block body =>
    cases right <;>
      simp only [Stmt.toTree, Function.toTree_eq, reduceCtorEq, Tree.block.injEq,
        Tree.list.injEq] at same
    rw [Stmt.toTrees_inj body _ same]
  | ifThen condition thenBranch =>
    cases right with
    | ifElse _ _ elseBranch =>
      simp only [Stmt.toTree, Tree.ifThen.injEq] at same
      exact absurd same.2.2.symm elseBranch.toTree_ne_nil
    | ifThen =>
      simp only [Stmt.toTree, Tree.ifThen.injEq] at same
      rw [Expr.toTree_inj condition _ same.1, Stmt.toTree_inj thenBranch _ same.2.1]
    | _ => simp only [Stmt.toTree, Function.toTree_eq, reduceCtorEq] at same
  | ifElse condition thenBranch elseBranch =>
    cases right with
    | ifThen =>
      simp only [Stmt.toTree, Tree.ifThen.injEq] at same
      exact absurd same.2.2 elseBranch.toTree_ne_nil
    | ifElse =>
      simp only [Stmt.toTree, Tree.ifThen.injEq] at same
      rw [Expr.toTree_inj condition _ same.1, Stmt.toTree_inj thenBranch _ same.2.1,
        Stmt.toTree_inj elseBranch _ same.2.2]
    | _ => simp only [Stmt.toTree, Function.toTree_eq, reduceCtorEq] at same
  | whileLoop condition body =>
    cases right <;>
      simp only [Stmt.toTree, Function.toTree_eq, reduceCtorEq, Tree.whileLoop.injEq] at same
    rw [Expr.toTree_inj condition _ same.1, Stmt.toTree_inj body _ same.2]
  | function declaration =>
    cases right with
    | function => rw [Function.toTree_inj declaration _ same]
    | _ => simp only [Stmt.toTree, Function.toTree_eq, reduceCtorEq] at same
  | classDecl name superclass methods =>
    cases right with
    | classDecl _ other =>
      simp only [Stmt.toTree, Tree.classDecl.injEq, Tree.list.injEq] at same
      obtain ⟨names, parents, bodies⟩ := same
      have inherited : superclass = other := by
        cases superclass <;> cases other <;> simp only [reduceCtorEq, Tree.ident.injEq] at parents
        · rfl
        · rw [Token.toTree_inj parents]
      rw [Token.toTree_inj names, inherited, Function.toTrees_inj methods _ bodies]
    | _ => simp only [Stmt.toTree, Function.toTree_eq, reduceCtorEq] at same
termination_by structural left

theorem Stmt.toTrees_inj (left right : List Stmt) (same : Stmt.toTrees left = Stmt.toTrees right) :
    left = right := by
  cases left with
  | nil => cases right <;> simp_all [Stmt.toTrees]
  | cons first rest =>
    cases right <;> simp only [Stmt.toTrees, reduceCtorEq, List.cons.injEq] at same
    rw [Stmt.toTree_inj first _ same.1, Stmt.toTrees_inj rest _ same.2]
termination_by structural left

theorem Function.toTree_inj (left right : Function) (same : left.toTree = right.toTree) :
    left = right := by
  obtain ⟨name, params, body⟩ := left
  obtain ⟨name', params', body'⟩ := right
  simp only [Function.toTree, Tree.function.injEq, Tree.list.injEq] at same
  rw [Token.toTree_inj same.1, Token.map_toTree_inj same.2.1, Stmt.toTrees_inj body _ same.2.2]
termination_by structural left

theorem Function.toTrees_inj (left right : List Function)
    (same : Function.toTrees left = Function.toTrees right) : left = right := by
  cases left with
  | nil => cases right <;> simp_all [Function.toTrees]
  | cons first rest =>
    cases right <;> simp only [Function.toTrees, reduceCtorEq, List.cons.injEq] at same
    rw [Function.toTree_inj first _ same.1, Function.toTrees_inj rest _ same.2]
termination_by structural left

end

end Injective

section Savable

theorem Literal.savable_toTree (literal : Literal) : literal.toTree.Savable := by
  cases literal with
  | text value => exact ⟨value, rfl⟩
  | _ => exact trivial

theorem Literal.writable_toJson (literal : Literal) : literal.toJson.Writable := by
  cases literal with
  | nil => exact .null
  | bool value => exact .bool value
  | number value => exact .float value
  | text value => exact .string value

def ShortLines (relabel : Int → Int) : Prop :=
  ∀ line, (relabel line).natAbs < 10 ^ Json.maxDigits

/-- Lines with numbers too long to be read back count as none. -/
def shorten (line : Int) : Int :=
  if line.natAbs < 10 ^ Json.maxDigits then line else 0

theorem shortLines_shorten : ShortLines shorten := by
  intro line
  rw [shorten]
  split
  next fits => exact fits
  next => exact Nat.pow_pos (by decide)

variable {relabel : Int → Int}

theorem Token.savable_toTree (short : ShortLines relabel) (token : Token) :
    (token.relined relabel).toTree.Savable :=
  ⟨.string token.lexeme, .int (short token.line), token.literal.writable_toJson⟩

theorem Token.savable_map_toTree (short : ShortLines relabel) (tokens : List Token) :
    Tree.SavableAll ((tokens.map (Token.relined relabel)).map Token.toTree) := by
  induction tokens with
  | nil => exact trivial
  | cons first rest ih => exact ⟨Token.savable_toTree short first, ih⟩

mutual

theorem Expr.savable_toTree (short : ShortLines relabel) :
    (expr : Expr) → (expr.relined relabel).toTree.Savable
  | .literal value => value.savable_toTree
  | .grouping inner => Expr.savable_toTree short inner
  | .unary token expr | .assign token expr =>
      ⟨Token.savable_toTree short token, Expr.savable_toTree short expr⟩
  | .binary first token second | .logical first token second | .setMember first token second =>
      ⟨Expr.savable_toTree short first, Token.savable_toTree short token,
        Expr.savable_toTree short second⟩
  | .ident token | .this token => Token.savable_toTree short token
  | .call callee paren arguments =>
      ⟨Expr.savable_toTree short callee, Token.savable_toTree short paren,
        Expr.savable_toTrees short arguments⟩
  | .member target name => ⟨Expr.savable_toTree short target, Token.savable_toTree short name⟩
  | .super keyword method =>
      ⟨Token.savable_toTree short keyword, Token.savable_toTree short method⟩

theorem Expr.savable_toTrees (short : ShortLines relabel) : (exprs : List Expr) →
    Tree.SavableAll (Expr.toTrees (Expr.relinedAll relabel exprs))
  | [] => trivial
  | first :: rest => ⟨Expr.savable_toTree short first, Expr.savable_toTrees short rest⟩

end

theorem Expr.savable_optionTree (short : ShortLines relabel) (value : Option Expr) :
    (Expr.optionTree (value.map (Expr.relined relabel))).Savable := by
  cases value with
  | none => exact trivial
  | some expr => exact expr.savable_toTree short

mutual

theorem Stmt.savable_toTree (short : ShortLines relabel) :
    (stmt : Stmt) → (stmt.relined relabel).toTree.Savable
  | .expr value | .print value => value.savable_toTree short
  | .var token value | .returnStmt token value =>
      ⟨Token.savable_toTree short token, Expr.savable_optionTree short value⟩
  | .block body => Stmt.savable_toTrees short body
  | .ifThen condition thenBranch =>
      ⟨condition.savable_toTree short, Stmt.savable_toTree short thenBranch, trivial⟩
  | .ifElse condition thenBranch elseBranch =>
      ⟨condition.savable_toTree short, Stmt.savable_toTree short thenBranch,
        Stmt.savable_toTree short elseBranch⟩
  | .whileLoop condition body => ⟨condition.savable_toTree short, Stmt.savable_toTree short body⟩
  | .function declaration => Function.savable_toTree short declaration
  | .classDecl name none methods =>
      ⟨Token.savable_toTree short name, trivial, Function.savable_toTrees short methods⟩
  | .classDecl name (some superclass) methods =>
      ⟨Token.savable_toTree short name, Token.savable_toTree short superclass,
        Function.savable_toTrees short methods⟩

theorem Stmt.savable_toTrees (short : ShortLines relabel) : (statements : List Stmt) →
    Tree.SavableAll (Stmt.toTrees (Stmt.relinedAll relabel statements))
  | [] => trivial
  | first :: rest => ⟨Stmt.savable_toTree short first, Stmt.savable_toTrees short rest⟩

theorem Function.savable_toTree (short : ShortLines relabel) : (declaration : Function) →
    (declaration.relined relabel).toTree.Savable
  | .mk name params body =>
      ⟨Token.savable_toTree short name, Token.savable_map_toTree short params,
        Stmt.savable_toTrees short body⟩

theorem Function.savable_toTrees (short : ShortLines relabel) : (functions : List Function) →
    Tree.SavableAll (Function.toTrees (Function.relinedAll relabel functions))
  | [] => trivial
  | first :: rest => ⟨Function.savable_toTree short first, Function.savable_toTrees short rest⟩

end

end Savable

end Lox
