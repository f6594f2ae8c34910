import Lox.Proofs.Tree.Form
import Lox.Proofs.Tree.OfSyntax

/-!
What a parsed program is printed as: printing its tree never fails, and gives the text of its
form.
-/

namespace Lox

section Syntax

def Token.form (token : Token) : Form :=
  .word token.lexeme

def Literal.form : Literal → Form
  | .nil => .word "nil"
  | .bool value => .word (if value then "true" else "false")
  | .number value => .word (Number.text value)
  | .text value => .quoted value

mutual

def Expr.form : Expr → Form
  | .literal value => value.form
  | .grouping inner => .list [.word "group", inner.form]
  | .unary operator operand => .list [operator.form, operand.form]
  | .binary left operator right => .list [operator.form, left.form, right.form]
  | .logical left operator right => .list [operator.form, left.form, right.form]
  | .ident name => name.form
  | .assign name value => .list [.word "=", name.form, value.form]
  | .call callee _ arguments => .list (.word "call" :: callee.form :: Expr.forms arguments)
  | .member target name => .list [.word ".", target.form, name.form]
  | .setMember target name value => .list [.word "=", target.form, name.form, value.form]
  | .this _ => .word "this"
  | .super _ method => .list [.word "super", method.form]

def Expr.forms : List Expr → List Form
  | [] => []
  | first :: rest => first.form :: Expr.forms rest

end

mutual

def Stmt.form : Stmt → Form
  | .expr value => .list [.word ";", value.form]
  | .print value => .list [.word "print", value.form]
  | .var name none => .list [.word "var", name.form]
  | .var name (some initial) => .list [.word "var", name.form, .word "=", initial.form]
  | .block body => .list (.word "block" :: Stmt.forms body)
  | .ifThen condition thenBranch => .list [.word "if", condition.form, thenBranch.form]
  | .ifElse condition thenBranch elseBranch =>
      .list [.word "if-else", condition.form, thenBranch.form, elseBranch.form]
  | .whileLoop condition body => .list [.word "while", condition.form, body.form]
  | .function declaration => declaration.form
  | .returnStmt _ none => .list [.word "return"]
  | .returnStmt _ (some value) => .list [.word "return", value.form]
  | .classDecl name none methods => .list (.word "class" :: name.form :: Function.forms methods)
  | .classDecl name (some superclass) methods =>
      .list (.word "class" :: name.form :: .word "<" :: superclass.form :: Function.forms methods)

def Stmt.forms : List Stmt → List Form
  | [] => []
  | first :: rest => first.form :: Stmt.forms rest

def Function.form : Function → Form
  | .mk name params body =>
      .list (.word "fun" :: name.form :: .list (params.map Token.form) :: Stmt.forms body)

def Function.forms : List Function → List Form
  | [] => []
  | first :: rest => first.form :: Function.forms rest

end

theorem Expr.forms_eq_map (exprs : List Expr) : Expr.forms exprs = exprs.map Expr.form := by
  induction exprs with
  | nil => rfl
  | cons first rest ih => rw [Expr.forms, ih, List.map_cons]

theorem Stmt.forms_eq_map (statements : List Stmt) :
    Stmt.forms statements = statements.map Stmt.form := by
  induction statements with
  | nil => rfl
  | cons first rest ih => rw [Stmt.forms, ih, List.map_cons]

theorem Function.forms_eq_map (functions : List Function) :
    Function.forms functions = functions.map Function.form := by
  induction functions with
  | nil => rfl
  | cons first rest ih => rw [Function.forms, ih, List.map_cons]

end Syntax

namespace Text

theorem ofChars_inj {left right : List Char} (same : ofChars left = ofChars right) :
    left = right := by
  have codes : left.map Char.toNat = right.map Char.toNat := congrArg Text.codes same
  exact List.map_injective_iff.2 (fun _ _ => Char.toNat_inj.1) codes

theorem ofChars_append (left right : List Char) :
    ofChars left ++ ofChars right = ofChars (left ++ right) :=
  congrArg Text.mk (List.map_append).symm

theorem enclosed (opening closing : String) (inner : List Char) :
    ofString opening ++ ofChars inner ++ ofString closing =
      ofChars (opening.toList ++ inner ++ closing.toList) := by
  rw [ofString, ofString, ofChars_append, ofChars_append]

theorem intercalate_ofChars (separator : String) (texts : List (List Char)) :
    intercalate separator (texts.map ofChars) =
      ofChars (separator.toList.intercalate texts) := by
  have codes (left : List Char) (others : List (List Char)) :
      (left.map Char.toNat).intercalate (others.map (List.map Char.toNat)) =
        (left.intercalate others).map Char.toNat := by
    induction others with
    | nil => rfl
    | cons first rest ih =>
        cases rest with
        | nil => simp
        | cons second rest =>
            simp only [List.map_cons, List.intercalate_cons_cons, List.map_append] at ih ⊢
            rw [ih]
  unfold intercalate
  rw [List.map_map]
  exact congrArg Text.mk (codes separator.toList texts)

end Text

theorem mapM_map_pure {m : Type → Type} [Monad m] [LawfulMonad m] {α β γ : Type} {step : β → m γ}
    {source : α → β} {result : α → γ} {items : List α}
    (each : ∀ item ∈ items, step (source item) = pure (result item)) :
    (items.map source).mapM step = pure (items.map result) := by
  induction items with
  | nil => rfl
  | cons first rest ih =>
      obtain ⟨eachFirst, eachRest⟩ := List.forall_mem_cons.1 each
      rw [List.map_cons, List.mapM_cons, eachFirst, ih eachRest, pure_bind, pure_bind,
        List.map_cons]

def Form.text (form : Form) : Text :=
  .ofChars form.chars

namespace Tree

def printedForm (form : Form) : Json :=
  .string form.text

theorem joined_forms (separator : String) (items : List Form) :
    joined separator (items.map printedForm) =
      .ok (.ofChars (separator.toList.intercalate (items.map Form.chars))) := by
  unfold joined
  rw [@mapM_map_pure _ _ _ _ _ _ _ printedForm Form.text, ← Text.intercalate_ofChars, List.map_map]
  · rfl
  · exact fun _ _ => rfl

theorem form_forms (head : Form) (parts : List Form) :
    form (printedForm head) (parts.map printedForm) =
      .ok (printedForm (.list (head :: parts))) := by
  have text := joined_forms " " (head :: parts)
  rw [List.map_cons] at text
  unfold form
  rw [text, printedForm, Form.text, Form.chars, Form.charsAll_eq_map]
  exact congrArg (Except.ok ∘ Json.string) (Text.enclosed "(" ")" _)

theorem wordForm_forms (head : String) (parts : List Form) :
    wordForm head (parts.map printedForm) = .ok (printedForm (.list (.word head :: parts))) :=
  form_forms (.word head) parts

theorem lexeme_toTree (token : Token) : lexeme token.toTree = .ok (printedForm token.form) :=
  rfl

theorem paramPart_toTree (params : List Token) :
    paramPart (.list (params.map Token.toTree)) =
      .ok (printedForm (.list (params.map Token.form))) := by
  have names : (params.map Token.toTree).mapM lexeme =
      .ok (params.map (printedForm ∘ Token.form)) :=
    mapM_map_pure fun param _ => lexeme_toTree param
  change ((params.map Token.toTree).mapM lexeme >>= _) = _
  rw [names, ← List.map_map]
  change (joined " " ((params.map Token.form).map printedForm) >>= _) = _
  rw [joined_forms, printedForm, Form.text, Form.chars, Form.charsAll_eq_map]
  exact congrArg (Except.ok ∘ Json.string) (Text.enclosed "(" ")" _)

theorem printedPart_literal (value : Literal) :
    printedPart (.literal value.toTree) = .ok (printedForm value.form) := by
  cases value with
  | text value =>
      rw [Literal.toTree, printedPart]
      exact congrArg (Except.ok ∘ Json.string) (Text.enclosed "\"" "\"" value.toList)
  | bool value => cases value <;> rfl
  | _ => rfl

mutual

theorem printedPart_expr : (expr : Expr) → printedPart expr.toTree = .ok (printedForm expr.form)
  | .literal value => printedPart_literal value
  | .grouping inner => by
      rw [Expr.toTree, printedPart, printedPart_expr inner]
      exact wordForm_forms "group" [inner.form]
  | .unary operator operand => by
      rw [Expr.toTree, printedPart, lexeme_toTree, printedPart_expr operand]
      exact form_forms operator.form [operand.form]
  | .binary left operator right => by
      rw [Expr.toTree, printedPart, lexeme_toTree, printedPart_expr left, printedPart_expr right]
      exact form_forms operator.form [left.form, right.form]
  | .logical left operator right => by
      rw [Expr.toTree, printedPart, lexeme_toTree, printedPart_expr left, printedPart_expr right]
      exact form_forms operator.form [left.form, right.form]
  | .ident name => lexeme_toTree name
  | .assign name value => by
      rw [Expr.toTree, printedPart, lexeme_toTree, printedPart_expr value]
      exact wordForm_forms "=" [name.form, value.form]
  | .call callee paren arguments => by
      rw [Expr.toTree, printedPart, printedPart_expr callee, printedAll,
        printedParts_exprs arguments]
      exact wordForm_forms "call" (callee.form :: Expr.forms arguments)
  | .member target name => by
      rw [Expr.toTree, printedPart, lexeme_toTree, printedPart_expr target]
      exact wordForm_forms "." [target.form, name.form]
  | .setMember target name value => by
      rw [Expr.toTree, printedPart, lexeme_toTree, printedPart_expr target, printedPart_expr value]
      exact wordForm_forms "=" [target.form, name.form, value.form]
  | .this keyword => rfl
  | .super keyword method => by
      rw [Expr.toTree, printedPart, lexeme_toTree]
      exact wordForm_forms "super" [method.form]

theorem printedParts_exprs : (exprs : List Expr) →
    printedParts (Expr.toTrees exprs) = .ok ((Expr.forms exprs).map printedForm)
  | [] => rfl
  | first :: rest => by
      rw [Expr.toTrees, printedParts, printedPart_expr first, printedParts_exprs rest]
      rfl

end

mutual

theorem printedPart_stmt : (statement : Stmt) →
    printedPart statement.toTree = .ok (printedForm statement.form)
  | .expr value => by
      rw [Stmt.toTree, printedPart, printedPart_expr value]
      exact wordForm_forms ";" [value.form]
  | .print value => by
      rw [Stmt.toTree, printedPart, printedPart_expr value]
      exact wordForm_forms "print" [value.form]
  | .var name none => by
      rw [Stmt.toTree, Expr.optionTree, printedPart, lexeme_toTree]
      exact wordForm_forms "var" [name.form]
  | .var name (some initial) => by
      rw [Stmt.toTree, Expr.optionTree, printedPart, lexeme_toTree, printedPart_expr initial]
      · exact wordForm_forms "var" [name.form, .word "=", initial.form]
      · exact initial.toTree_ne_nil
  | .block body => by
      rw [Stmt.toTree, printedPart, printedAll, printedParts_stmts body]
      exact wordForm_forms "block" (Stmt.forms body)
  | .ifThen condition thenBranch => by
      rw [Stmt.toTree, printedPart, printedPart_expr condition, printedPart_stmt thenBranch]
      exact wordForm_forms "if" [condition.form, thenBranch.form]
  | .ifElse condition thenBranch elseBranch => by
      rw [Stmt.toTree, printedPart, printedPart_expr condition, printedPart_stmt thenBranch,
        printedPart_stmt elseBranch]
      · exact wordForm_forms "if-else" [condition.form, thenBranch.form, elseBranch.form]
      · exact elseBranch.toTree_ne_nil
  | .whileLoop condition body => by
      rw [Stmt.toTree, printedPart, printedPart_expr condition, printedPart_stmt body]
      exact wordForm_forms "while" [condition.form, body.form]
  | .function declaration => printedPart_function declaration
  | .returnStmt keyword none => rfl
  | .returnStmt keyword (some value) => by
      rw [Stmt.toTree, Expr.optionTree, printedPart, printedPart_expr value]
      · exact wordForm_forms "return" [value.form]
      · exact value.toTree_ne_nil
  | .classDecl name none methods => by
      rw [Stmt.toTree, printedPart, lexeme_toTree, printedAll, printedParts_functions methods]
      exact wordForm_forms "class" (name.form :: Function.forms methods)
  | .classDecl name (some superclass) methods => by
      rw [Stmt.toTree, printedPart, lexeme_toTree, printedAll, printedParts_functions methods]
      · exact wordForm_forms "class"
          (name.form :: .word "<" :: superclass.form :: Function.forms methods)
      · nofun

theorem printedParts_stmts : (statements : List Stmt) →
    printedParts (Stmt.toTrees statements) = .ok ((Stmt.forms statements).map printedForm)
  | [] => rfl
  | first :: rest => by
      rw [Stmt.toTrees, printedParts, printedPart_stmt first, printedParts_stmts rest]
      rfl

theorem printedPart_function : (declaration : Function) →
    printedPart declaration.toTree = .ok (printedForm declaration.form)
  | .mk name params body => by
      rw [Function.toTree, printedPart, paramPart_toTree, lexeme_toTree, printedAll,
        printedParts_stmts body]
      exact wordForm_forms "fun"
        (name.form :: .list (params.map Token.form) :: Stmt.forms body)

theorem printedParts_functions : (functions : List Function) →
    printedParts (Function.toTrees functions) = .ok ((Function.forms functions).map printedForm)
  | [] => rfl
  | first :: rest => by
      rw [Function.toTrees, printedParts, printedPart_function first, printedParts_functions rest]
      rfl

end

theorem printed_stmt (statement : Stmt) :
    printed statement.toTree = .ok (printedForm statement.form) := by
  have part := printedPart_stmt statement
  cases statement with
  | function declaration =>
      cases declaration
      exact part
  | _ => exact part

/-- A parsed program is printed as the forms of its statements, one to a line. -/
theorem printedProgram_toTrees (statements : List Stmt) :
    printedProgram (Stmt.toTrees statements) =
      .ok (.ofChars (['\n'].intercalate ((statements.map Stmt.form).map Form.chars))) := by
  have forms : (statements.map Stmt.toTree).mapM printed =
      .ok (statements.map (printedForm ∘ Stmt.form)) :=
    mapM_map_pure fun statement _ => printed_stmt statement
  unfold printedProgram
  rw [Stmt.toTrees_eq_map, forms, ← List.map_map]
  exact joined_forms "\n" (statements.map Stmt.form)

end Tree

end Lox
