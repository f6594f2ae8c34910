import Lox.Proofs.Number.Text
import Lox.Proofs.Syntax.MadeOf
import Lox.Proofs.Syntax.Relined
import Lox.Proofs.Tree.Printed

/-!
What printing forgets of a program: the lines of its tokens, and that a number is infinite.  The
tokens of a program are spelled as their kinds say, so that its form has plain words only.
-/

namespace Lox

section Canonical

def Literal.isInfinite : Literal → Bool
  | .number value => Binary64.magnitude value = Binary64.infinity
  | _ => false

def Token.infinite : Token :=
  ⟨.identifier, "inf", 0, .nil⟩

namespace Expr

mutual

def named : Expr → Expr
  | literal value => if value.isInfinite then ident Token.infinite else literal value
  | grouping inner => grouping (named inner)
  | unary operator operand => unary operator (named operand)
  | binary left operator right => binary (named left) operator (named right)
  | logical left operator right => logical (named left) operator (named right)
  | ident name => ident name
  | assign name value => assign name (named value)
  | call callee paren arguments => call (named callee) paren (namedAll arguments)
  | member target name => member (named target) name
  | setMember target name value => setMember (named target) name (named value)
  | this keyword => this keyword
  | super keyword method => super keyword method

def namedAll : List Expr → List Expr
  | [] => []
  | first :: rest => named first :: namedAll rest

end

theorem namedAll_eq_map (exprs : List Expr) : namedAll exprs = exprs.map named := by
  induction exprs with
  | nil => rfl
  | cons first rest ih => rw [namedAll, ih, List.map_cons]

def canonical (expr : Expr) : Expr :=
  expr.named.relined fun _ => 0

end Expr

mutual

def Stmt.named : Stmt → Stmt
  | .expr value => .expr value.named
  | .print value => .print value.named
  | .var name initial => .var name (initial.map Expr.named)
  | .block body => .block (Stmt.namedAll body)
  | .ifThen condition thenBranch => .ifThen condition.named thenBranch.named
  | .ifElse condition thenBranch elseBranch =>
      .ifElse condition.named thenBranch.named elseBranch.named
  | .whileLoop condition body => .whileLoop condition.named body.named
  | .function declaration => .function declaration.named
  | .returnStmt keyword value => .returnStmt keyword (value.map Expr.named)
  | .classDecl name superclass methods => .classDecl name superclass (Function.namedAll methods)

def Stmt.namedAll : List Stmt → List Stmt
  | [] => []
  | first :: rest => first.named :: Stmt.namedAll rest

def Function.named : Function → Function
  | .mk name params body => .mk name params (Stmt.namedAll body)

def Function.namedAll : List Function → List Function
  | [] => []
  | first :: rest => first.named :: Function.namedAll rest

end

theorem Stmt.namedAll_eq_map (statements : List Stmt) :
    Stmt.namedAll statements = statements.map Stmt.named := by
  induction statements with
  | nil => rfl
  | cons first rest ih => rw [Stmt.namedAll, ih, List.map_cons]

theorem Function.namedAll_eq_map (functions : List Function) :
    Function.namedAll functions = functions.map Function.named := by
  induction functions with
  | nil => rfl
  | cons first rest ih => rw [Function.namedAll, ih, List.map_cons]

def Stmt.canonical (statement : Stmt) : Stmt :=
  statement.named.relined fun _ => 0

def Function.canonical (declaration : Function) : Function :=
  declaration.named.relined fun _ => 0

theorem Expr.canonical_call (callee : Expr) (paren : Token) (arguments : List Expr) :
    (Expr.call callee paren arguments).canonical =
      .call callee.canonical (paren.relined fun _ => 0) (arguments.map Expr.canonical) := by
  rw [canonical, named, relined, namedAll_eq_map, relinedAll_eq_map, List.map_map]
  rfl

theorem Stmt.canonical_block (body : List Stmt) :
    (Stmt.block body).canonical = .block (body.map Stmt.canonical) := by
  rw [canonical, named, relined, namedAll_eq_map, relinedAll_eq_map, List.map_map]
  rfl

theorem Function.canonical_mk (name : Token) (params : List Token) (body : List Stmt) :
    (Function.mk name params body).canonical =
      .mk (name.relined fun _ => 0) (params.map (Token.relined fun _ => 0))
        (body.map Stmt.canonical) := by
  rw [canonical, named, relined, Stmt.namedAll_eq_map, Stmt.relinedAll_eq_map, List.map_map]
  rfl

theorem Stmt.canonical_classDecl (name : Token) (superclass : Option Token)
    (methods : List Function) :
    (Stmt.classDecl name superclass methods).canonical =
      .classDecl (name.relined fun _ => 0) (superclass.map (Token.relined fun _ => 0))
        (methods.map Function.canonical) := by
  rw [canonical, named, relined, Function.namedAll_eq_map, Function.relinedAll_eq_map,
    List.map_map]
  rfl

end Canonical

section Words

theorem Form.isBreak_of_isWordPart {c : Char} (part : Piece.isWordPart c) : isBreak c = false := by
  by_contra breaks
  simp only [isBreak, Bool.not_eq_false, Bool.or_eq_true, beq_iff_eq] at breaks
  rcases breaks with (((rfl | rfl) | rfl) | rfl) | rfl <;> cases part

open Form in
theorem Lexical.Terminal.unbroken {kind : Kind} {text : List Char}
    (terminal : Terminal (.token kind text))
    (clear : kind ∉ [.leftParen, .rightParen, .string]) : ∀ c ∈ text, Form.isBreak c = false := by
  have digits {digit : Char} {others : List Char} (first : Piece.isDigit digit)
      (all : ∀ c ∈ others, Piece.isDigit c) : ∀ c ∈ digit :: others, Form.isBreak c = false := by
    refine List.forall_mem_cons.2 ⟨isBreak_of_isWordPart ?_, fun c member =>
      isBreak_of_isWordPart ?_⟩
    · simp [Piece.isWordPart, first]
    · simp [Piece.isWordPart, all c member]
  intro c member
  cases terminal with
  | operator listed =>
      have checked : ∀ entry ∈ operators, entry.1 ∉ [.leftParen, .rightParen, .string] →
          ∀ c ∈ entry.2, Form.isBreak c = false := by simp [operators, isBreak]
      exact checked _ listed clear c member
  | word letter others =>
      rcases List.mem_cons.1 member with rfl | member
      · exact isBreak_of_isWordPart (by simp [Piece.isWordPart, letter])
      · exact isBreak_of_isWordPart (others c member)
  | whole digit others => exact digits digit others c member
  | fraction digit others place places =>
      rcases List.mem_append.1 member with whole | fraction
      · exact digits digit others c whole
      rcases List.mem_cons.1 fraction with rfl | member
      · rfl
      · exact digits place places c member
  | string => exact absurd (by decide) clear

variable {kinds : List Kind} {token : Token}

/-- A token that is spelled as its kind says; the end of a source is not spelled. -/
def Token.Known (token : Token) : Prop :=
  token.kind ≠ .eof → token.Scanned

theorem Token.Fits.scanned (fits : token.Fits Token.Known kinds) (inner : .eof ∉ kinds) :
    token.Scanned :=
  fits.1 fun ends => inner (ends ▸ fits.2)

theorem Token.Scanned.plain (scanned : token.Scanned)
    (clear : token.kind ∉ [.leftParen, .rightParen, .string]) : token.form.Plain :=
  .word (Form.isWord_iff.2 ⟨scanned.terminal.text_ne_nil, scanned.terminal.unbroken clear⟩)

theorem Token.Fits.plain (fits : token.Fits Token.Known kinds)
    (clear : ∀ kind ∈ kinds, kind ∉ [.leftParen, .rightParen, .string] ∧ kind ≠ .eof) :
    token.form.Plain := by
  obtain ⟨unbracketed, inner⟩ := clear _ fits.2
  exact (fits.1 inner).plain unbracketed

theorem Form.plain_list {head : String} {parts : List Form}
    (isWord : isWord head) (plain : ∀ part ∈ parts, part.Plain) :
    (Form.list (.word head :: parts)).Plain :=
  .list (List.forall_mem_cons.2 ⟨.word isWord, plain⟩)

theorem Literal.MadeOf.known {value : Literal} (made : value.MadeOf Token.Known) :
    (∀ x, value = .number x →
      Binary64.isNegative x = false ∧ Binary64.magnitude x ≤ Binary64.infinity) ∧
    ∀ text, value = .text text → '"' ∉ text.toList := by
  cases made with
  | nil => exact ⟨nofun, nofun⟩
  | bool => exact ⟨nofun, nofun⟩
  | @word token fits =>
      have scanned := fits.scanned (by decide)
      have kinds : token.kind = .number ∨ token.kind = .string := by simpa using fits.2
      rcases kinds with kind | kind
      · have literal := scanned.literal
        rw [kind] at literal
        rw [literal]
        refine ⟨?_, nofun⟩
        rintro x ⟨⟩
        rw [Decimal.isNegative_toFloat, Decimal.magnitude_toFloat]
        exact ⟨rfl, Decimal.toWord_le_infinity _⟩
      · obtain ⟨text, literal, within⟩ := scanned.exists_text kind
        rw [literal]
        refine ⟨nofun, ?_⟩
        rintro _ ⟨⟩
        exact within

theorem Literal.MadeOf.plain {value : Literal} (made : value.MadeOf Token.Known) :
    value.form.Plain := by
  obtain ⟨number, text⟩ := made.known
  cases value with
  | nil => exact .word rfl
  | bool value => cases value <;> exact .word rfl
  | text value => exact .quoted (text value rfl)
  | number x =>
      obtain ⟨positive, atMost⟩ := number x rfl
      rcases Nat.lt_or_eq_of_le atMost with finite | infinite
      · exact (Number.scanned_text finite positive 0).plain (by simp)
      · rw [form, Number.text_of_infinite infinite positive]
        exact .word rfl

theorem Expr.MadeOf.plain {expr : Expr} (made : expr.MadeOf Token.Known) : expr.form.Plain := by
  induction made with
  | literal made => exact made.plain
  | grouping _ ih => exact Form.plain_list rfl (by simpa using ih)
  | unary fits _ ih => exact .list (by simpa using ⟨fits.plain (by decide), ih⟩)
  | binary _ fits _ left right =>
      exact .list (by simpa using ⟨fits.plain (by decide), left, right⟩)
  | logical _ fits _ left right =>
      exact .list (by simpa using ⟨fits.plain (by decide), left, right⟩)
  | ident fits => exact fits.plain (by decide)
  | assign fits _ ih =>
      exact Form.plain_list rfl (by simpa using ⟨fits.plain (by decide), ih⟩)
  | call _ fits _ callee arguments =>
      rw [form, forms_eq_map]
      exact Form.plain_list rfl (by simpa using ⟨callee, arguments⟩)
  | member _ fits ih =>
      exact Form.plain_list rfl (by simpa using ⟨ih, fits.plain (by decide)⟩)
  | setMember _ fits _ target value =>
      exact Form.plain_list rfl (by simpa using ⟨target, fits.plain (by decide), value⟩)
  | this => exact .word rfl
  | super _ method =>
      exact Form.plain_list rfl (by simpa using method.plain (by decide))

theorem Stmt.MadeOf.plain {statement : Stmt} (made : statement.MadeOf Token.Known) :
    statement.form.Plain := by
  induction made with
  | expr value => exact Form.plain_list rfl (by simpa using value.plain)
  | print value => exact Form.plain_list rfl (by simpa using value.plain)
  | @var name initial fits made =>
      have plain := fits.plain (by decide)
      cases initial with
      | none => exact Form.plain_list rfl (by simpa using plain)
      | some value =>
          refine Form.plain_list rfl ?_
          simpa using ⟨plain, .word rfl, (made value rfl).plain⟩
  | block _ ih =>
      rw [form, forms_eq_map]
      exact Form.plain_list rfl (by simpa using ih)
  | ifThen condition _ ih =>
      exact Form.plain_list rfl (by simpa using ⟨condition.plain, ih⟩)
  | ifElse condition _ _ thenIh elseIh =>
      exact Form.plain_list rfl (by simpa using ⟨condition.plain, thenIh, elseIh⟩)
  | whileLoop condition _ ih =>
      exact Form.plain_list rfl (by simpa using ⟨condition.plain, ih⟩)
  | function fits paramsFit _ ih =>
      have params := Form.Plain.list
        (List.forall_mem_map.2 fun param member => (paramsFit param member).plain (by decide))
      rw [form, Function.form, forms_eq_map]
      exact Form.plain_list rfl (by simpa using ⟨fits.plain (by decide), params, ih⟩)
  | @returnStmt keyword value _ made =>
      cases value with
      | none => exact Form.plain_list rfl nofun
      | some value => exact Form.plain_list rfl (by simpa using (made value rfl).plain)
  | @classDecl name superclass methods fits superclassFits _ ih =>
      have plain := fits.plain (by decide)
      have methodsPlain : ∀ method ∈ methods, method.form.Plain := ih
      cases superclass with
      | none =>
          rw [form, Function.forms_eq_map]
          exact Form.plain_list rfl (by simpa using ⟨plain, methodsPlain⟩)
      | some superclass =>
          have superclassPlain := (superclassFits superclass rfl).plain (by decide)
          rw [form, Function.forms_eq_map]
          refine Form.plain_list rfl ?_
          simpa using ⟨plain, .word rfl, superclassPlain, methodsPlain⟩

end Words

section Forms

theorem Literal.MadeOf.form_canonical {value : Literal} (made : value.MadeOf Token.Known) :
    (Expr.literal value).canonical.form = value.form := by
  rw [Expr.canonical, Expr.named]
  split
  next infinite =>
    cases value with
    | number x =>
        -- Not being negative, it is printed without a sign, as the identifier is.
        obtain ⟨positive, -⟩ := made.known.1 x rfl
        rw [form, Number.text_of_infinite (of_decide_eq_true infinite) positive]
        rfl
    | _ => cases infinite
  next => rfl

/-- What is forgotten of an expression is not printed. -/
theorem Expr.MadeOf.form_canonical {expr : Expr} (made : expr.MadeOf Token.Known) :
    expr.canonical.form = expr.form := by
  induction made with
  | literal made => exact made.form_canonical
  | grouping _ ih => rw [form, ← ih]; rfl
  | unary _ _ ih => rw [form, ← ih]; rfl
  | binary _ _ _ left right => rw [form, ← left, ← right]; rfl
  | logical _ _ _ left right => rw [form, ← left, ← right]; rfl
  | ident => rfl
  | assign _ _ ih => rw [form, ← ih]; rfl
  | call _ _ _ callee arguments =>
      rw [canonical_call, form, form, callee, forms_eq_map, forms_eq_map, List.map_map]
      exact congrArg _ (congrArg _ (congrArg _ (List.map_congr_left arguments)))
  | member _ _ ih => rw [form, ← ih]; rfl
  | setMember _ _ _ target value => rw [form, ← target, ← value]; rfl
  | this => rfl
  | super => rfl

theorem Stmt.MadeOf.form_canonical {statement : Stmt} (made : statement.MadeOf Token.Known) :
    statement.canonical.form = statement.form := by
  induction made with
  | expr value => rw [form, ← value.form_canonical]; rfl
  | print value => rw [form, ← value.form_canonical]; rfl
  | @var _ initial _ made =>
      cases initial with
      | none => rfl
      | some value => rw [form, ← (made value rfl).form_canonical]; rfl
  | block _ ih =>
      rw [canonical_block, form, form, forms_eq_map, forms_eq_map, List.map_map]
      exact congrArg _ (congrArg _ (List.map_congr_left ih))
  | ifThen condition _ ih => rw [form, ← condition.form_canonical, ← ih]; rfl
  | ifElse condition _ _ thenIh elseIh =>
      rw [form, ← condition.form_canonical, ← thenIh, ← elseIh]; rfl
  | whileLoop condition _ ih => rw [form, ← condition.form_canonical, ← ih]; rfl
  | @function name params body _ _ _ ih =>
      have bodies := List.map_congr_left ih
      change (Function.mk name params body).canonical.form = (Function.mk name params body).form
      rw [Function.canonical_mk, Function.form, Function.form, forms_eq_map, forms_eq_map,
        List.map_map, List.map_map, ← bodies]
      rfl
  | @returnStmt _ value _ made =>
      cases value with
      | none => rfl
      | some value => rw [form, ← (made value rfl).form_canonical]; rfl
  | @classDecl name superclass methods _ _ _ ih =>
      have forms : Function.forms (methods.map Function.canonical) = Function.forms methods := by
        rw [Function.forms_eq_map, Function.forms_eq_map, List.map_map]
        exact List.map_congr_left ih
      rw [canonical_classDecl]
      cases superclass with
      | none => rw [form, ← forms]; rfl
      | some superclass => rw [form, ← forms]; rfl

end Forms

end Lox
