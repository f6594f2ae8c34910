import Lox.Proofs.Syntax.Bounds

/-!
Whatever the parser builds, also next to problems, is made of the tokens it was given, and
each of them stands where its kind belongs.
-/

namespace Lox

open Lox.Parser

def Token.Fits (fit : Token → Prop) (kinds : List Kind) (token : Token) : Prop :=
  fit token ∧ token.kind ∈ kinds

section

variable (fit : Token → Prop)

inductive Literal.MadeOf : Literal → Prop
  | nil : MadeOf .nil
  | bool (value : Bool) : MadeOf (.bool value)
  | word {token : Token} : token.Fits fit [.number, .string] → MadeOf token.literal

inductive Expr.MadeOf : Expr → Prop
  | literal {value : Literal} : value.MadeOf fit → MadeOf (.literal value)
  | grouping {inner : Expr} : MadeOf inner → MadeOf (.grouping inner)
  | unary {operator : Token} {operand : Expr} :
      operator.Fits fit [.bang, .minus] → MadeOf operand → MadeOf (.unary operator operand)
  | binary {left right : Expr} {operator : Token} :
      MadeOf left →
      operator.Fits fit [.bangEqual, .equalEqual, .greater, .greaterEqual, .less, .lessEqual,
        .minus, .plus, .slash, .star] →
      MadeOf right → MadeOf (.binary left operator right)
  | logical {left right : Expr} {operator : Token} :
      MadeOf left → operator.Fits fit [.orWord, .andWord] → MadeOf right →
      MadeOf (.logical left operator right)
  | ident {name : Token} : name.Fits fit [.identifier] → MadeOf (.ident name)
  | assign {name : Token} {value : Expr} :
      name.Fits fit [.identifier] → MadeOf value → MadeOf (.assign name value)
  | call {callee : Expr} {paren : Token} {arguments : List Expr} :
      MadeOf callee → paren.Fits fit [.rightParen] →
      (∀ argument ∈ arguments, MadeOf argument) → MadeOf (.call callee paren arguments)
  | member {target : Expr} {name : Token} :
      MadeOf target → name.Fits fit [.identifier] → MadeOf (.member target name)
  | setMember {target value : Expr} {name : Token} :
      MadeOf target → name.Fits fit [.identifier] → MadeOf value →
      MadeOf (.setMember target name value)
  | this {keyword : Token} : keyword.Fits fit [.thisWord] → MadeOf (.this keyword)
  | super {keyword method : Token} :
      keyword.Fits fit [.superWord] → method.Fits fit [.identifier] →
      MadeOf (.super keyword method)

inductive Stmt.MadeOf : Stmt → Prop
  | expr {value : Expr} : value.MadeOf fit → MadeOf (.expr value)
  | print {value : Expr} : value.MadeOf fit → MadeOf (.print value)
  | var {name : Token} {initial : Option Expr} :
      name.Fits fit [.identifier] → (∀ value ∈ initial, value.MadeOf fit) →
      MadeOf (.var name initial)
  | block {body : List Stmt} : (∀ statement ∈ body, MadeOf statement) → MadeOf (.block body)
  | ifThen {condition : Expr} {thenBranch : Stmt} :
      condition.MadeOf fit → MadeOf thenBranch → MadeOf (.ifThen condition thenBranch)
  | ifElse {condition : Expr} {thenBranch elseBranch : Stmt} :
      condition.MadeOf fit → MadeOf thenBranch → MadeOf elseBranch →
      MadeOf (.ifElse condition thenBranch elseBranch)
  | whileLoop {condition : Expr} {body : Stmt} :
      condition.MadeOf fit → MadeOf body → MadeOf (.whileLoop condition body)
  | function {name : Token} {params : List Token} {body : List Stmt} :
      name.Fits fit [.identifier] → (∀ param ∈ params, param.Fits fit [.identifier]) →
      (∀ statement ∈ body, MadeOf statement) → MadeOf (.function (.mk name params body))
  | returnStmt {keyword : Token} {value : Option Expr} :
      keyword.Fits fit [.returnWord] → (∀ result ∈ value, result.MadeOf fit) →
      MadeOf (.returnStmt keyword value)
  | classDecl {name : Token} {superclass : Option Token} {methods : List Function} :
      name.Fits fit [.identifier] → (∀ token ∈ superclass, token.Fits fit [.identifier]) →
      (∀ method ∈ methods, MadeOf (.function method)) →
      MadeOf (.classDecl name superclass methods)

end

namespace Parser

variable {α β : Type} {fit : Token → Prop} {stop : Token}

/-- From fitting tokens every value the step gives, with or without notes, is of the given
form, and the tokens it leaves fit. -/
def Yields (fit : Token → Prop) (form : α → Prop) (step : Parser α) : Prop :=
  ∀ tokens, (∀ token ∈ tokens, fit token) →
    (∀ value ∈ (step tokens).value, form value) ∧ ∀ token ∈ (step tokens).rest, fit token

theorem yields_still {form : α → Prop} {step : Parser α}
    (stays : ∀ tokens, (step tokens).rest = tokens)
    (formed : ∀ tokens, (∀ token ∈ tokens, fit token) →
      ∀ value ∈ (step tokens).value, form value) : Yields fit form step := by
  intro tokens all
  rw [stays]
  exact ⟨formed tokens all, all⟩

theorem yields_pure {form : α → Prop} {value : α} (formed : form value) :
    Yields fit form (pure value) := by
  refine yields_still (fun _ => rfl) ?_
  rintro tokens - other ⟨⟩
  exact formed

theorem yields_abandon (form : α → Prop) : Yields fit form (upTo stop).abandon :=
  yields_still (fun _ => rfl) (by rintro _ _ _ ⟨⟩)

theorem yields_fail (form : α → Prop) (what : String) :
    Yields fit form ((upTo stop).fail what) :=
  yields_still (fun _ => rfl) (by rintro _ _ _ ⟨⟩)

theorem yields_next (fits : fit stop) : Yields fit fit (upTo stop).next := by
  refine yields_still (fun _ => rfl) ?_
  rintro tokens all token ⟨⟩
  cases tokens with
  | nil => exact fits
  | cons first rest => exact all first List.mem_cons_self

theorem yields_note (token : Token) (problem : Problem) :
    Yields fit (fun _ => True) ((upTo stop).note token problem) :=
  yields_still (fun _ => rfl) fun _ _ _ _ => trivial

theorem yields_blockEnds : Yields fit (fun _ => True) (upTo stop).blockEnds :=
  yields_still (fun _ => rfl) fun _ _ _ _ => trivial

theorem yields_atEnd : Yields fit (fun _ => True) (upTo stop).atEnd :=
  yields_still (fun _ => rfl) fun _ _ _ _ => trivial

theorem yields_skip : Yields fit (fun _ => True) (upTo stop).skip :=
  fun _ all => ⟨fun _ _ => trivial, fun token member => all token (List.mem_of_mem_tail member)⟩

theorem yields_accept? (kinds : List Kind) :
    Yields fit (fun answer => ∀ token ∈ answer, token.Fits fit kinds)
      ((upTo stop).accept? kinds) := by
  intro tokens all
  change (∀ answer ∈ (accept? kinds tokens).value, _) ∧ ∀ token ∈ (accept? kinds tokens).rest, _
  unfold accept?
  split
  next token rest =>
    obtain ⟨fits, others⟩ := List.forall_mem_cons.1 all
    split
    next member => exact ⟨by rintro _ ⟨⟩ _ ⟨⟩; exact ⟨fits, member⟩, others⟩
    next => exact ⟨by rintro _ ⟨⟩ _ ⟨⟩, all⟩
  next => exact ⟨by rintro _ ⟨⟩ _ ⟨⟩, by simp⟩

theorem Yields.bind {middle : α → Prop} {form : β → Prop} {first : Parser α}
    {next : α → Parser β} (yields : Yields fit middle first)
    (yieldsNext : ∀ value, middle value → Yields fit form (next value)) :
    Yields fit form (first >>= next) := by
  intro tokens all
  obtain ⟨formed, left⟩ := yields tokens all
  change (∀ result ∈ (Parser.bind first next tokens).value, _) ∧
    ∀ token ∈ (Parser.bind first next tokens).rest, _
  unfold Parser.bind
  cases parsed : first tokens with
  | mk value rest notes =>
      rw [parsed] at formed left
      cases value with
      | none => exact ⟨by rintro _ ⟨⟩, left⟩
      | some value => exact yieldsNext value (formed value rfl) rest left

theorem Yields.map {form : α → Prop} {result : β → Prop} {step : Parser α} {change : α → β}
    (yields : Yields fit form step) (formed : ∀ value, form value → result (change value)) :
    Yields fit result (change <$> step) :=
  yields.bind fun value held => yields_pure (formed value held)

theorem Yields.andThen {middle : α → Prop} {form : β → Prop} {first : Parser α}
    {next : α → Parser β} (yields : Yields fit middle first)
    (yieldsNext : ∀ value, Yields fit form (next value)) : Yields fit form (first >>= next) :=
  yields.bind fun value _ => yieldsNext value

theorem yields_expect (kind : Kind) (what : String) :
    Yields fit (Token.Fits fit [kind]) ((upTo stop).expect kind what) := by
  refine (yields_accept? [kind]).bind fun answer fits => ?_
  cases answer with
  | none => exact yields_fail _ what
  | some token => exact yields_pure (fits token rfl)

theorem yields_limit (fits : fit stop) (count : Nat) (problem : Problem) :
    Yields fit (fun _ => True) ((upTo stop).limit count problem) := by
  unfold Reader.limit
  split
  · exact (yields_next fits).andThen fun token => yields_note token problem
  · exact yields_pure trivial

theorem Yields.ifSees {form : α → Prop} {kind : Kind} {present absent : Parser α}
    (yields : Yields fit form present) (yieldsAbsent : Yields fit form absent) :
    Yields fit form
      ((upTo stop).sees kind >>= fun seen => if seen = true then present else absent) := by
  have sees : Yields fit (fun _ => True) ((upTo stop).sees kind) :=
    yields_still (fun _ => rfl) fun _ _ _ _ => trivial
  refine sees.andThen fun seen => ?_
  split
  · exact yields
  · exact yieldsAbsent

theorem Yields.unlessSees {form : α → Prop} {kind : Kind} {absent : α} {present : Parser α}
    (formed : form absent) (yields : Yields fit form present) :
    Yields fit form ((upTo stop).unlessSees kind absent present) :=
  Yields.ifSees (yields_pure formed) yields

theorem Yields.behind? {form : α → Prop} {kinds : List Kind} {present : Parser α}
    (yields : Yields fit form present) :
    Yields fit (fun answer => ∀ value ∈ answer, form value)
      ((upTo stop).behind? kinds present) := by
  refine (yields_accept? kinds).andThen fun answer => ?_
  cases answer with
  | none => exact yields_pure (by simp)
  | some token => exact yields.map fun value formed other found => by cases found; exact formed

theorem dropStatement_subset (last : Token) (tokens : List Token) :
    dropStatement last tokens ⊆ tokens := by
  induction tokens generalizing last with
  | nil => exact fun _ => id
  | cons token rest ih =>
      unfold dropStatement
      split
      · exact fun _ => id
      · exact fun other member => List.mem_cons_of_mem _ (ih token member)

theorem synchronize_subset (tokens : List Token) : synchronize tokens ⊆ tokens := by
  cases tokens with
  | nil => exact fun _ => id
  | cons token rest =>
      exact fun other member => List.mem_cons_of_mem _ (dropStatement_subset token rest member)

theorem Yields.recover {form : α → Prop} {step : Parser α} (yields : Yields fit form step) :
    Yields fit (fun answer => ∀ value ∈ answer, form value) ((upTo stop).recover step) := by
  intro tokens all
  obtain ⟨formed, left⟩ := yields tokens all
  rw [upTo_recover]
  unfold Parser.recover
  cases parsed : step tokens with
  | mk value rest notes =>
      rw [parsed] at formed left
      cases value with
      | none =>
          refine ⟨?_, fun token member => left token (synchronize_subset _ member)⟩
          rintro _ ⟨⟩ _ ⟨⟩
      | some value => exact ⟨by rintro _ ⟨⟩; exact formed, left⟩

end Parser

namespace Expr

def LevelMade (fit : Token → Prop) (level : Level) : Prop :=
  ∀ {left operator right}, MadeOf fit left → operator.Fits fit level.operators →
    MadeOf fit right → MadeOf fit (level.build left operator right)

theorem levels_made (fit : Token → Prop) : ∀ level ∈ levels, LevelMade fit level := by
  have logical {operators : List Kind} (known : operators ⊆ [.orWord, .andWord]) :
      LevelMade fit ⟨operators, .logical⟩ :=
    fun left fits right => .logical left ⟨fits.1, known fits.2⟩ right
  have binary {operators : List Kind} (known : operators ⊆ [.bangEqual, .equalEqual, .greater,
      .greaterEqual, .less, .lessEqual, .minus, .plus, .slash, .star]) :
      LevelMade fit ⟨operators, .binary⟩ :=
    fun left fits right => .binary left ⟨fits.1, known fits.2⟩ right
  simp only [levels, List.mem_cons, List.not_mem_nil, or_false]
  rintro level (rfl | rfl | rfl | rfl | rfl | rfl)
  · exact logical (by decide)
  · exact logical (by decide)
  all_goals exact binary (by decide)

structure Yields (fit : Token → Prop) (stop : Token) (budget : Nat) : Prop where
  parse : Parser.Yields fit (MadeOf fit) ((upTo stop).parseExpr budget)
  level : ∀ higher, (∀ level ∈ higher, LevelMade fit level) →
    Parser.Yields fit (MadeOf fit) ((upTo stop).parseLevel budget higher)
  operands : ∀ level higher left, LevelMade fit level → (∀ level ∈ higher, LevelMade fit level) →
    MadeOf fit left →
    Parser.Yields fit (MadeOf fit) ((upTo stop).parseOperands budget level higher left)
  unary : Parser.Yields fit (MadeOf fit) ((upTo stop).parseUnary budget)
  calls : ∀ callee, MadeOf fit callee →
    Parser.Yields fit (MadeOf fit) ((upTo stop).parseCalls budget callee)
  arguments : ∀ count, Parser.Yields fit (fun arguments => ∀ argument ∈ arguments,
    MadeOf fit argument) ((upTo stop).parseArguments budget count)
  primary : Parser.Yields fit (MadeOf fit) ((upTo stop).parsePrimary budget)

variable {fit : Token → Prop} {stop : Token} {budget : Nat}

theorem Yields.parse_succ (yields : Yields fit stop budget) :
    Parser.Yields fit (MadeOf fit) ((upTo stop).parseExpr (budget + 1)) := by
  rw [Reader.parseExpr]
  refine (yields.level levels (levels_made fit)).bind fun target targetMade => ?_
  refine (yields_accept? _).andThen fun answer => ?_
  cases answer with
  | none => exact yields_pure targetMade
  | some equals =>
      refine yields.parse.bind fun value valueMade => ?_
      split
      · cases targetMade with
        | ident name => exact yields_pure (.assign name valueMade)
      · cases targetMade with
        | member object name => exact yields_pure (.setMember object name valueMade)
      · exact (yields_note _ _).andThen fun _ => yields_pure targetMade

theorem Yields.operands_succ (yields : Yields fit stop budget) {level : Level}
    {higher : List Level} {left : Expr} (levelMade : LevelMade fit level)
    (higherMade : ∀ level ∈ higher, LevelMade fit level) (leftMade : MadeOf fit left) :
    Parser.Yields fit (MadeOf fit)
      ((upTo stop).parseOperands (budget + 1) level higher left) := by
  rw [Reader.parseOperands]
  refine (yields_accept? level.operators).bind fun answer fits => ?_
  cases answer with
  | none => exact yields_pure leftMade
  | some operator =>
      refine (yields.level higher higherMade).bind fun right rightMade => ?_
      exact yields.operands level higher _ levelMade higherMade
        (levelMade leftMade (fits operator rfl) rightMade)

theorem Yields.unary_succ (yields : Yields fit stop budget) :
    Parser.Yields fit (MadeOf fit) ((upTo stop).parseUnary (budget + 1)) := by
  rw [Reader.parseUnary]
  refine (yields_accept? _).bind fun answer fits => ?_
  cases answer with
  | none => exact yields.primary.bind fun callee => yields.calls callee
  | some operator =>
      exact yields.unary.bind fun operand operandMade =>
        yields_pure (.unary (fits operator rfl) operandMade)

theorem Yields.calls_succ (yields : Yields fit stop budget) {callee : Expr}
    (calleeMade : MadeOf fit callee) :
    Parser.Yields fit (MadeOf fit) ((upTo stop).parseCalls (budget + 1) callee) := by
  rw [Reader.parseCalls]
  refine Parser.Yields.ifSees ?_ (Parser.Yields.ifSees ?_ (yields_pure calleeMade))
  · refine yields_skip.andThen fun _ => ?_
    refine (Parser.Yields.unlessSees (by simp) (yields.arguments 0)).bind fun arguments made => ?_
    exact (yields_expect _ _).bind fun paren fits => yields.calls _ (.call calleeMade fits made)
  · refine yields_skip.andThen fun _ => ?_
    exact (yields_expect _ _).bind fun name fits => yields.calls _ (.member calleeMade fits)

theorem Yields.arguments_succ (fits : fit stop) (yields : Yields fit stop budget) (count : Nat) :
    Parser.Yields fit (fun arguments => ∀ argument ∈ arguments, MadeOf fit argument)
      ((upTo stop).parseArguments (budget + 1) count) := by
  rw [Reader.parseArguments]
  refine (yields_limit fits _ _).andThen fun _ => yields.parse.bind fun argument made => ?_
  refine (yields_accept? _).andThen fun answer => ?_
  cases answer with
  | none => exact yields_pure (by simpa using made)
  | some comma =>
      exact (yields.arguments (count + 1)).bind fun arguments others =>
        yields_pure (List.forall_mem_cons.2 ⟨made, others⟩)

theorem Yields.primary_succ (fits : fit stop) (yields : Yields fit stop budget) :
    Parser.Yields fit (MadeOf fit) ((upTo stop).parsePrimary (budget + 1)) := by
  rw [Reader.parsePrimary]
  refine (yields_next fits).bind fun token tokenFits => ?_
  have placed {kind : Kind} {kinds : List Kind} (same : token.kind = kind)
      (member : kind ∈ kinds) : token.Fits fit kinds := ⟨tokenFits, same ▸ member⟩
  split
  case h_1 | h_2 => exact yields_skip.andThen fun _ => yields_pure (.literal (.bool _))
  case h_3 => exact yields_skip.andThen fun _ => yields_pure (.literal .nil)
  case h_4 kind =>
    exact yields_skip.andThen fun _ => yields_pure (.literal (.word (placed kind (by decide))))
  case h_5 kind =>
    exact yields_skip.andThen fun _ => yields_pure (.literal (.word (placed kind (by decide))))
  case h_6 kind => exact yields_skip.andThen fun _ => yields_pure (.this (placed kind (by decide)))
  case h_7 kind =>
    refine yields_skip.andThen fun _ => (yields_expect _ _).andThen fun _ => ?_
    exact (yields_expect _ _).bind fun method methodFits =>
      yields_pure (.super (placed kind (by decide)) methodFits)
  case h_8 kind =>
    exact yields_skip.andThen fun _ => yields_pure (.ident (placed kind (by decide)))
  case h_9 =>
    refine yields_skip.andThen fun _ => yields.parse.bind fun inner made => ?_
    exact (yields_expect _ _).andThen fun _ => yields_pure (.grouping made)
  case h_10 => exact yields_fail _ _

theorem yields (fits : fit stop) (budget : Nat) : Yields fit stop budget := by
  induction budget with
  | zero =>
      have spent {α : Type} (form : α → Prop) : Parser.Yields fit form (upTo stop).abandon :=
        yields_abandon form
      constructor <;> intros <;>
        simp only [Reader.parseExpr, Reader.parseUnary, Reader.parseLevel, Reader.parseOperands,
          Reader.parseCalls, Reader.parseArguments, Reader.parsePrimary, spent]
  | succ budget ih =>
      exact {
        parse := ih.parse_succ
        level := by
          intro higher made
          cases higher with
          | nil =>
              rw [Reader.parseLevel]
              exact ih.unary
          | cons level higher =>
              obtain ⟨levelMade, higherMade⟩ := List.forall_mem_cons.1 made
              rw [Reader.parseLevel]
              exact (ih.level higher higherMade).bind fun left leftMade =>
                ih.operands level higher left levelMade higherMade leftMade
        operands := fun _ _ _ => ih.operands_succ
        unary := ih.unary_succ
        calls := fun _ => ih.calls_succ
        arguments := ih.arguments_succ fits
        primary := ih.primary_succ fits
      }

end Expr

namespace Stmt

structure Yields (fit : Token → Prop) (stop : Token) (budget : Nat) : Prop where
  declaration : Parser.Yields fit (fun answer => ∀ statement ∈ answer, MadeOf fit statement)
    ((upTo stop).parseDeclaration budget)
  unbroken : Parser.Yields fit (MadeOf fit) ((upTo stop).parseUnbroken budget)
  classDecl : Parser.Yields fit (MadeOf fit) ((upTo stop).parseClass budget)
  methods : Parser.Yields fit (fun methods => ∀ method ∈ methods, MadeOf fit (.function method))
    ((upTo stop).parseMethods budget)
  definition : ∀ role, Parser.Yields fit (fun function => MadeOf fit (.function function))
    ((upTo stop).parseFunction budget role)
  block : Parser.Yields fit (fun body => ∀ statement ∈ body, MadeOf fit statement)
    ((upTo stop).parseBlock budget)
  statement : Parser.Yields fit (MadeOf fit) ((upTo stop).parseStmt budget)

variable {fit : Token → Prop} {stop : Token} {budget : Nat}

theorem yields_parseParams (fits : fit stop) (budget count : Nat) :
    Parser.Yields fit (fun params => ∀ param ∈ params, param.Fits fit [.identifier])
      ((upTo stop).parseParams budget count) := by
  induction budget generalizing count with
  | zero => exact yields_abandon _
  | succ budget ih =>
      rw [Reader.parseParams]
      refine (yields_limit fits _ _).andThen fun _ => ?_
      refine (yields_expect _ _).bind fun param paramFits => ?_
      refine (yields_accept? _).andThen fun answer => ?_
      cases answer with
      | none => exact yields_pure (by simpa using paramFits)
      | some comma =>
          exact (ih (count + 1)).bind fun params others =>
            yields_pure (List.forall_mem_cons.2 ⟨paramFits, others⟩)

theorem yields_parseClosed (fits : fit stop) (budget : Nat) (what : String) :
    Parser.Yields fit (Expr.MadeOf fit) ((upTo stop).parseClosed budget what) :=
  (Expr.yields fits budget).parse.bind fun _ made =>
    (yields_expect _ _).andThen fun _ => yields_pure made

theorem yields_parseOptional (fits : fit stop) (budget : Nat) (closing : Kind) :
    Parser.Yields fit (fun answer => ∀ value ∈ answer, value.MadeOf fit)
      ((upTo stop).parseOptional budget closing) :=
  Parser.Yields.unlessSees (by simp) ((Expr.yields fits budget).parse.map fun value made other
    found => by cases found; exact made)

theorem yields_parseVar (fits : fit stop) (budget : Nat) :
    Parser.Yields fit (MadeOf fit) ((upTo stop).parseVar budget) := by
  refine (yields_expect _ _).bind fun name nameFits => ?_
  refine (Expr.yields fits budget).parse.behind?.bind fun initial made => ?_
  exact (yields_expect _ _).andThen fun _ => yields_pure (.var nameFits made)

theorem yields_parseInitial (fits : fit stop) (budget : Nat) :
    Parser.Yields fit (fun answer => ∀ statement ∈ answer, MadeOf fit statement)
      ((upTo stop).parseInitial budget) := by
  refine Parser.Yields.ifSees ?_ (Parser.Yields.ifSees ?_ ?_)
  · exact yields_skip.andThen fun _ => yields_pure (by simp)
  · exact yields_skip.andThen fun _ => (yields_parseVar fits budget).map
      fun statement made other found => by cases found; exact made
  · exact (yields_parseClosed fits budget _).bind fun value made =>
      yields_pure fun other found => by cases found; exact .expr made

theorem MadeOf.pair {first second : Stmt} (firstMade : MadeOf fit first)
    (secondMade : MadeOf fit second) : MadeOf fit (.block [first, second]) :=
  .block (by simpa using ⟨firstMade, secondMade⟩)

theorem forLoop_made {initial : Option Stmt} {condition increment : Option Expr} {body : Stmt}
    (initialMade : ∀ statement ∈ initial, MadeOf fit statement)
    (conditionMade : ∀ value ∈ condition, value.MadeOf fit)
    (incrementMade : ∀ value ∈ increment, value.MadeOf fit) (bodyMade : MadeOf fit body) :
    MadeOf fit (forLoop initial condition increment body) := by
  have test : (condition.getD (.literal (.bool true))).MadeOf fit := by
    cases condition with
    | none => exact .literal (.bool true)
    | some value => exact conditionMade value rfl
  cases initial with
  | none =>
      cases increment with
      | none => exact .whileLoop test bodyMade
      | some increment =>
          exact .whileLoop test (.pair bodyMade (.expr (incrementMade increment rfl)))
  | some initial =>
      refine .pair (initialMade initial rfl) ?_
      cases increment with
      | none => exact .whileLoop test bodyMade
      | some increment =>
          exact .whileLoop test (.pair bodyMade (.expr (incrementMade increment rfl)))

theorem Yields.statement_succ (fits : fit stop) (yields : Yields fit stop budget) :
    Parser.Yields fit (MadeOf fit) ((upTo stop).parseStmt (budget + 1)) := by
  have expression := (Expr.yields fits budget).parse
  rw [Reader.parseStmt]
  refine (yields_next fits).bind fun token tokenFits => ?_
  split
  · refine yields_skip.andThen fun _ => (yields_expect _ _).andThen fun _ => ?_
    refine (yields_parseInitial fits budget).bind fun initial initialMade => ?_
    refine (yields_parseOptional fits budget _).bind fun condition conditionMade => ?_
    refine (yields_expect _ _).andThen fun _ => ?_
    refine (yields_parseOptional fits budget _).bind fun increment incrementMade => ?_
    refine (yields_expect _ _).andThen fun _ => yields.statement.bind fun body bodyMade => ?_
    exact yields_pure (forLoop_made initialMade conditionMade incrementMade bodyMade)
  · refine yields_skip.andThen fun _ => (yields_expect _ _).andThen fun _ => ?_
    refine expression.bind fun condition made => (yields_expect _ _).andThen fun _ => ?_
    refine yields.statement.bind fun thenBranch thenMade =>
      (yields_accept? _).andThen fun answer => ?_
    cases answer with
    | none => exact yields_pure (.ifThen made thenMade)
    | some _ => exact yields.statement.bind fun elseBranch elseMade =>
        yields_pure (.ifElse made thenMade elseMade)
  · exact yields_skip.andThen fun _ => (yields_parseClosed fits budget _).map fun _ => .print
  next kind =>
    refine yields_skip.andThen fun _ => ?_
    refine (yields_parseOptional fits budget _).bind fun value made => ?_
    exact (yields_expect _ _).andThen fun _ =>
      yields_pure (.returnStmt ⟨tokenFits, by simp [kind]⟩ made)
  · refine yields_skip.andThen fun _ => (yields_expect _ _).andThen fun _ => ?_
    refine expression.bind fun condition made => (yields_expect _ _).andThen fun _ => ?_
    exact yields.statement.bind fun body bodyMade => yields_pure (.whileLoop made bodyMade)
  · exact yields_skip.andThen fun _ => yields.block.map fun _ => .block
  · exact (yields_parseClosed fits budget _).map fun _ => .expr

theorem Yields.definition_succ (fits : fit stop) (yields : Yields fit stop budget)
    (role : String) :
    Parser.Yields fit (fun function => MadeOf fit (.function function))
      ((upTo stop).parseFunction (budget + 1) role) := by
  rw [Reader.parseFunction]
  refine (yields_expect _ _).bind fun name nameFits => (yields_expect _ _).andThen fun _ => ?_
  refine (Parser.Yields.unlessSees (by simp) (yields_parseParams fits budget 0)).bind
    fun params paramsFit => ?_
  refine (yields_expect _ _).andThen fun _ => (yields_expect _ _).andThen fun _ => ?_
  exact yields.block.bind fun body made => yields_pure (.function nameFits paramsFit made)

theorem Yields.classDecl_succ (yields : Yields fit stop budget) :
    Parser.Yields fit (MadeOf fit) ((upTo stop).parseClass (budget + 1)) := by
  rw [Reader.parseClass]
  refine (yields_expect _ _).bind fun name nameFits => ?_
  refine (yields_expect _ _).behind?.bind fun superclass superclassFits => ?_
  refine (yields_expect _ _).andThen fun _ => yields.methods.bind fun methods made => ?_
  exact (yields_expect _ _).andThen fun _ => yields_pure (.classDecl nameFits superclassFits made)

theorem Yields.methods_succ (yields : Yields fit stop budget) :
    Parser.Yields fit (fun methods => ∀ method ∈ methods, MadeOf fit (.function method))
      ((upTo stop).parseMethods (budget + 1)) := by
  rw [Reader.parseMethods]
  refine yields_blockEnds.andThen fun ended => ?_
  split
  · exact yields_pure (by simp)
  · exact (yields.definition "method").bind fun method made => yields.methods.bind
      fun methods others => yields_pure (List.forall_mem_cons.2 ⟨made, others⟩)

theorem made_append {answer : Option Stmt} {statements : List Stmt}
    (first : ∀ statement ∈ answer, MadeOf fit statement)
    (rest : ∀ statement ∈ statements, MadeOf fit statement) :
    ∀ statement ∈ answer.toList ++ statements, MadeOf fit statement := by
  intro statement member
  rcases List.mem_append.1 member with found | found
  · exact first statement (by simpa using found)
  · exact rest statement found

theorem Yields.block_succ (yields : Yields fit stop budget) :
    Parser.Yields fit (fun body => ∀ statement ∈ body, MadeOf fit statement)
      ((upTo stop).parseBlock (budget + 1)) := by
  rw [Reader.parseBlock]
  refine yields_blockEnds.andThen fun ended => ?_
  split
  · exact (yields_expect _ _).andThen fun _ => yields_pure (by simp)
  · exact yields.declaration.bind fun answer first => yields.block.bind
      fun statements rest => yields_pure (made_append first rest)

theorem yields (fits : fit stop) (budget : Nat) : Yields fit stop budget := by
  induction budget with
  | zero =>
      have spent {α : Type} (form : α → Prop) : Parser.Yields fit form (upTo stop).abandon :=
        yields_abandon form
      constructor <;> intros <;>
        simp only [Reader.parseDeclaration, Reader.parseUnbroken, Reader.parseClass,
          Reader.parseMethods, Reader.parseFunction, Reader.parseBlock, Reader.parseStmt, spent]
  | succ budget ih =>
      exact {
        declaration := by
          rw [Reader.parseDeclaration]
          exact ih.unbroken.recover
        unbroken := by
          rw [Reader.parseUnbroken]
          refine Parser.Yields.ifSees ?_ (Parser.Yields.ifSees ?_ (Parser.Yields.ifSees ?_ ?_))
          · exact yields_skip.andThen fun _ => ih.classDecl
          · exact yields_skip.andThen fun _ => (ih.definition "function").map fun _ => id
          · exact yields_skip.andThen fun _ => yields_parseVar fits budget
          · exact ih.statement
        classDecl := ih.classDecl_succ
        methods := ih.methods_succ
        definition := ih.definition_succ fits
        block := ih.block_succ
        statement := ih.statement_succ fits
      }

theorem yields_parseAll (fits : fit stop) (budget : Nat) :
    Parser.Yields fit (fun statements => ∀ statement ∈ statements, MadeOf fit statement)
      ((upTo stop).parseAll budget) := by
  induction budget with
  | zero => exact yields_abandon _
  | succ budget ih =>
      rw [Reader.parseAll]
      refine yields_atEnd.andThen fun ended => ?_
      split
      · exact yields_pure (by simp)
      · exact (yields fits budget).declaration.bind fun answer first => ih.bind
          fun statements rest => yields_pure (made_append first rest)

end Stmt

namespace Program

variable {fit : Token → Prop}

theorem parseBody_made {stop : Token} {tokens : List Token} (fits : fit stop)
    (all : ∀ token ∈ tokens, fit token) :
    ∀ statement ∈ (parseBody stop tokens).statements, statement.MadeOf fit := by
  simp only [parseBody]
  cases parsed : ((upTo stop).parseAll (budgetFor tokens.length) tokens).value with
  | none => simp
  | some statements => exact (Stmt.yields_parseAll fits _ tokens all).1 statements parsed

theorem ofSource_made {source : String} (all : ∀ token ∈ (scan source).tokens, fit token) :
    ∀ statement ∈ (ofSource source).statements, statement.MadeOf fit := by
  simp only [ofSource]
  split
  · cases parsed : parse? (scan source).tokens with
    | none => simp
    | some program =>
        obtain ⟨body, stop, others, split, rfl⟩ := parse?_eq_some parsed
        rw [split, List.forall_mem_append, List.forall_mem_cons] at all
        exact parseBody_made all.2.1 all.1
  · simp

end Program

end Lox
