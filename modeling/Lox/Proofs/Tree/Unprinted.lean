import Lox.Proofs.Tree.Canonical

/-!
The printed form of a program determines it, but for the lines of its tokens and for infinite
numbers, which are printed as an identifier is.  A form is read back part by part: the head of a
list says which node it is.
-/

namespace Lox

section Reading

def Expr.ofWord? (word : String) : Option Expr := do
  let token ← Token.alone? word
  match token.kind with
  | .nilWord => some (.literal .nil)
  | .trueWord => some (.literal (.bool true))
  | .falseWord => some (.literal (.bool false))
  | .number => some (.literal token.literal)
  | .thisWord => some (.this token)
  | .identifier => some (.ident token)
  | _ => none

/-- The expression with the given head and parts.  Unary and binary operators share their words,
and so do the two assignments: how many parts there are tells them apart. -/
def Expr.ofParts? (head : Token) (parts : List Expr) : Option Expr :=
  match head.kind, parts with
  | .identifier, first :: others =>
      -- `call` and `group` are no keywords of the language.
      if head.lexeme = "call" then some (.call first ⟨.rightParen, ")", 0, .nil⟩ others)
      else some (.grouping first)
  | .equal, [.ident name, value] => some (.assign name value)
  | .equal, [target, .ident name, value] => some (.setMember target name value)
  | .dot, [target, .ident name] => some (.member target name)
  | .superWord, [.ident method] => some (.super head method)
  | .orWord, [left, right] => some (.logical left head right)
  | .andWord, [left, right] => some (.logical left head right)
  | _, [operand] => some (.unary head operand)
  | _, [left, right] => some (.binary left head right)
  | _, _ => none

namespace Form

mutual

def expr? : Form → Option Expr
  | word text => Expr.ofWord? text
  | quoted text => some (.literal (.text text))
  | list (word head :: parts) => do Expr.ofParts? (← Token.alone? head) (← exprs? parts)
  | _ => none

def exprs? : List Form → Option (List Expr)
  | [] => some []
  | first :: rest => do return (← expr? first) :: (← exprs? rest)

end

def name? : Form → Option Token
  | word text => Token.alone? text
  | _ => none

end Form

def Stmt.function? : Stmt → Option Function
  | .function declaration => some declaration
  | _ => none

namespace Form

mutual

def stmt? : Form → Option Stmt
  | list [word ";", value] => return .expr (← value.expr?)
  | list [word "print", value] => return .print (← value.expr?)
  | list [word "var", name] => return .var (← name.name?) none
  | list [word "var", name, _, initial] => return .var (← name.name?) (some (← initial.expr?))
  | list (word "block" :: body) => return .block (← stmts? body)
  | list [word "if", condition, thenBranch] =>
      return .ifThen (← condition.expr?) (← stmt? thenBranch)
  | list [word "if-else", condition, thenBranch, elseBranch] =>
      return .ifElse (← condition.expr?) (← stmt? thenBranch) (← stmt? elseBranch)
  | list [word "while", condition, body] => return .whileLoop (← condition.expr?) (← stmt? body)
  | list [word "return"] => some (.returnStmt ⟨.returnWord, "return", 0, .nil⟩ none)
  | list [word "return", value] =>
      return .returnStmt ⟨.returnWord, "return", 0, .nil⟩ (some (← value.expr?))
  | list (word "fun" :: name :: list params :: body) =>
      return .function (.mk (← name.name?) (← params.mapM name?) (← stmts? body))
  | list (word "class" :: name :: word "<" :: superclass :: methods) => do
      let functions ← (← stmts? methods).mapM Stmt.function?
      return .classDecl (← name.name?) (some (← superclass.name?)) functions
  | list (word "class" :: name :: methods) => do
      let functions ← (← stmts? methods).mapM Stmt.function?
      return .classDecl (← name.name?) none functions
  | _ => none

def stmts? : List Form → Option (List Stmt)
  | [] => some []
  | first :: rest => do return (← stmt? first) :: (← stmts? rest)

end

end Form

end Reading

section Exprs

variable {kinds : List Kind} {token : Token}

theorem Token.Fits.alone? (fits : token.Fits Token.Known kinds) (inner : .eof ∉ kinds) :
    Token.alone? token.lexeme = some (token.relined fun _ => 0) :=
  (fits.scanned inner).alone?

theorem Token.Fits.ofWord? (fits : token.Fits Token.Known [.identifier]) :
    Expr.ofWord? token.lexeme = some (.ident (token.relined fun _ => 0)) := by
  have kind : (token.relined fun _ => 0).kind = .identifier := List.mem_singleton.1 fits.2
  simp [Expr.ofWord?, fits.alone? (by decide), kind]

namespace Form

theorem exprs?_cons {first : Form} {rest : List Form} {expr : Expr} {exprs : List Expr}
    (readFirst : first.expr? = some expr) (readRest : exprs? rest = some exprs) :
    exprs? (first :: rest) = some (expr :: exprs) := by
  rw [exprs?, readFirst, readRest]
  rfl

theorem expr?_list {head : String} {token : Token} {parts : List Form} {exprs : List Expr}
    {expr : Expr} (alone : Token.alone? head = some token) (read : exprs? parts = some exprs)
    (made : Expr.ofParts? token exprs = some expr) :
    expr? (.list (.word head :: parts)) = some expr := by
  rw [expr?, alone, read]
  exact made

theorem exprs?_forms {exprs : List Expr}
    (read : ∀ expr ∈ exprs, expr.form.expr? = some expr.canonical) :
    exprs? (Expr.forms exprs) = some (exprs.map Expr.canonical) := by
  induction exprs with
  | nil => rfl
  | cons first rest ih =>
      obtain ⟨readFirst, readRest⟩ := List.forall_mem_cons.1 read
      rw [Expr.forms]
      exact exprs?_cons readFirst (ih readRest)

end Form

namespace Expr

theorem ofParts?_setMember {head : Token} (kind : head.kind = .equal) (target value : Expr)
    (name : Token) :
    ofParts? head [target, .ident name, value] = some (.setMember target name value) := by
  obtain ⟨kind, lexeme, line, literal⟩ := head
  subst kind
  -- The reader looks at the first part before it counts them.
  cases target <;> rfl

theorem ofParts?_unary {head : Token} (kinds : head.kind ∈ [.bang, .minus]) (operand : Expr) :
    ofParts? head [operand] = some (.unary head operand) := by
  obtain ⟨kind, lexeme, line, literal⟩ := head
  simp only [List.mem_cons, List.not_mem_nil, or_false] at kinds
  rcases kinds with rfl | rfl <;> rfl

theorem ofParts?_logical {head : Token} (kinds : head.kind ∈ [.orWord, .andWord])
    (left right : Expr) : ofParts? head [left, right] = some (.logical left head right) := by
  obtain ⟨kind, lexeme, line, literal⟩ := head
  simp only [List.mem_cons, List.not_mem_nil, or_false] at kinds
  rcases kinds with rfl | rfl <;> rfl

theorem ofParts?_binary {head : Token}
    (kinds : head.kind ∈ [.bangEqual, .equalEqual, .greater, .greaterEqual, .less, .lessEqual,
      .minus, .plus, .slash, .star]) (left right : Expr) :
    ofParts? head [left, right] = some (.binary left head right) := by
  obtain ⟨kind, lexeme, line, literal⟩ := head
  simp only [List.mem_cons, List.not_mem_nil, or_false] at kinds
  rcases kinds with rfl | rfl | rfl | rfl | rfl | rfl | rfl | rfl | rfl | rfl <;> rfl

end Expr

theorem Literal.MadeOf.expr? {value : Literal} (made : value.MadeOf Token.Known) :
    value.form.expr? = some (Expr.literal value).canonical := by
  obtain ⟨number, -⟩ := made.known
  cases value with
  | nil => rfl
  | bool value => cases value <;> rfl
  | text value => rfl
  | number x =>
      obtain ⟨positive, atMost⟩ := number x rfl
      change Expr.ofWord? (Number.text x) = _
      rcases Nat.lt_or_eq_of_le atMost with finite | infinite
      -- A finite number is printed as a word that is scanned as that number.
      · have plain : (Literal.number x).isInfinite = false := by
          simp [Literal.isInfinite, Nat.ne_of_lt finite]
        have alone := (Number.scanned_text finite positive 0).alone?
        dsimp only at alone
        simp [Expr.ofWord?, alone, Expr.canonical, Expr.named, Expr.relined, plain, Token.relined]
      -- An infinite one is printed as `inf`, which is scanned as an identifier.
      · have known : (Literal.number x).isInfinite = true := by
          simp [Literal.isInfinite, infinite]
        rw [Number.text_of_infinite infinite positive, Expr.canonical, Expr.named, if_pos known]
        rfl

open Form in
theorem Expr.MadeOf.expr? {expr : Expr} (made : expr.MadeOf Token.Known) :
    expr.form.expr? = some expr.canonical := by
  induction made with
  | literal made => exact made.expr?
  | grouping _ ih => exact expr?_list rfl (exprs?_cons ih rfl) rfl
  | unary fits _ ih =>
      exact expr?_list (fits.alone? (by decide)) (exprs?_cons ih rfl)
        (ofParts?_unary (by exact fits.2) _)
  | binary _ fits _ left right =>
      exact expr?_list (fits.alone? (by decide)) (exprs?_cons left (exprs?_cons right rfl))
        (ofParts?_binary (by exact fits.2) _ _)
  | logical _ fits _ left right =>
      exact expr?_list (fits.alone? (by decide)) (exprs?_cons left (exprs?_cons right rfl))
        (ofParts?_logical (by exact fits.2) _ _)
  | ident fits => exact fits.ofWord?
  | assign fits _ ih => exact expr?_list rfl (exprs?_cons fits.ofWord? (exprs?_cons ih rfl)) rfl
  | @call callee paren arguments _ fits _ calleeIh argumentsIh =>
      have closing := (fits.scanned (by decide)).relined_eq .rightParen ")"
        (List.mem_singleton.1 fits.2) (by decide) (by decide)
      rw [canonical_call, closing]
      exact expr?_list rfl (exprs?_cons calleeIh (exprs?_forms argumentsIh)) rfl
  | member _ fits ih => exact expr?_list rfl (exprs?_cons ih (exprs?_cons fits.ofWord? rfl)) rfl
  | setMember _ fits _ target value =>
      exact expr?_list rfl
        (exprs?_cons target (exprs?_cons fits.ofWord? (exprs?_cons value rfl)))
        (ofParts?_setMember rfl _ _ _)
  | this fits =>
      have keyword := (fits.scanned (by decide)).relined_eq .thisWord "this"
        (List.mem_singleton.1 fits.2) (by decide) (by decide)
      rw [canonical, named, relined, keyword]
      rfl
  | super fits method =>
      have keyword := (fits.scanned (by decide)).relined_eq .superWord "super"
        (List.mem_singleton.1 fits.2) (by decide) (by decide)
      rw [canonical, named, relined, keyword]
      exact expr?_list rfl (exprs?_cons method.ofWord? rfl) rfl

end Exprs

section Stmts

namespace Form

theorem stmts?_map {α : Type} {form : α → Form} {result : α → Stmt} {items : List α}
    (read : ∀ item ∈ items, (form item).stmt? = some (result item)) :
    stmts? (items.map form) = some (items.map result) := by
  induction items with
  | nil => rfl
  | cons first rest ih =>
      obtain ⟨readFirst, readRest⟩ := List.forall_mem_cons.1 read
      rw [List.map_cons, stmts?, readFirst, ih readRest]
      rfl

theorem names?_map {tokens : List Token}
    (fits : ∀ token ∈ tokens, token.Fits Token.Known [.identifier]) :
    (tokens.map Token.form).mapM name? = some (tokens.map (Token.relined fun _ => 0)) :=
  mapM_map_pure fun token member => (fits token member).alone? (by decide)

theorem functions?_map (methods : List Function) :
    (methods.map fun method => (Stmt.function method).canonical).mapM Stmt.function? =
      some (methods.map Function.canonical) :=
  mapM_map_pure fun _ _ => rfl

theorem forms_ne_word (methods : List Function) (head : Form) (tail : List Form) :
    Function.forms methods = .word "<" :: head :: tail → False := by
  cases methods with
  | nil => exact nofun
  | cons first rest =>
      cases first
      exact nofun

end Form

open Form in
theorem Stmt.MadeOf.stmt? {statement : Stmt} (made : statement.MadeOf Token.Known) :
    statement.form.stmt? = some statement.canonical := by
  induction made with
  | expr value =>
      rw [form, Form.stmt?, value.expr?]
      rfl
  | print value =>
      rw [form, Form.stmt?, value.expr?]
      rfl
  | @var name initial fits made =>
      have known : name.form.name? = _ := fits.alone? (by decide)
      cases initial with
      | none =>
          rw [form, Form.stmt?, known]
          rfl
      | some value =>
          rw [form, Form.stmt?, known, (made value rfl).expr?]
          rfl
  | block _ ih =>
      rw [form, Form.stmt?, Stmt.forms_eq_map, stmts?_map ih, canonical_block]
      rfl
  | ifThen condition _ ih =>
      rw [form, Form.stmt?, condition.expr?, ih]
      rfl
  | ifElse condition _ _ thenIh elseIh =>
      rw [form, Form.stmt?, condition.expr?, thenIh, elseIh]
      rfl
  | whileLoop condition _ ih =>
      rw [form, Form.stmt?, condition.expr?, ih]
      rfl
  | @function name params body fits paramsFit _ ih =>
      have known : name.form.name? = _ := fits.alone? (by decide)
      rw [form, Function.form, Form.stmt?, known, names?_map paramsFit, Stmt.forms_eq_map,
        stmts?_map ih]
      exact congrArg (some ∘ Stmt.function) (Function.canonical_mk name params body).symm
  | @returnStmt keyword value fits made =>
      have spelled := (fits.scanned (by decide)).relined_eq .returnWord "return"
        (List.mem_singleton.1 fits.2) (by decide) (by decide)
      rw [canonical, named, relined, spelled]
      cases value with
      | none => rfl
      | some value =>
          rw [form, Form.stmt?, (made value rfl).expr?]
          rfl
  | @classDecl name superclass methods fits superclassFits _ ih =>
      have known : name.form.name? = _ := fits.alone? (by decide)
      have read : stmts? (Function.forms methods) = some _ :=
        (congrArg stmts? (Function.forms_eq_map methods)).trans (stmts?_map ih)
      rw [canonical_classDecl]
      cases superclass with
      | none =>
          rw [form, Form.stmt?, read, known]
          · change ((methods.map _).mapM Stmt.function? >>= _) = _
            rw [functions?_map]
            rfl
          -- No method is printed as a word, so the first one is not taken for a superclass.
          · exact forms_ne_word methods
      | some superclass =>
          have knownSuperclass : superclass.form.name? = _ :=
            (superclassFits superclass rfl).alone? (by decide)
          rw [form, Form.stmt?, read, known, knownSuperclass]
          change ((methods.map _).mapM Stmt.function? >>= _) = _
          rw [functions?_map]
          rfl

end Stmts

section Programs

variable {statements others : List Stmt}

theorem Stmt.forms_eq_iff (made : ∀ statement ∈ statements, statement.MadeOf Token.Known)
    (madeOthers : ∀ statement ∈ others, statement.MadeOf Token.Known) :
    statements.map Stmt.form = others.map Stmt.form ↔
      statements.map Stmt.canonical = others.map Stmt.canonical := by
  have read {statements : List Stmt}
      (made : ∀ statement ∈ statements, statement.MadeOf Token.Known) :
      Form.stmts? (statements.map Stmt.form) = some (statements.map Stmt.canonical) :=
    Form.stmts?_map fun statement member => (made statement member).stmt?
  have printed {statements : List Stmt}
      (made : ∀ statement ∈ statements, statement.MadeOf Token.Known) :
      (statements.map Stmt.canonical).map Stmt.form = statements.map Stmt.form := by
    rw [List.map_map]
    exact List.map_congr_left fun statement member => (made statement member).form_canonical
  constructor
  · intro same
    have both := congrArg Form.stmts? same
    rw [read made, read madeOthers] at both
    exact Option.some.inj both
  · intro same
    rw [← printed made, ← printed madeOthers, same]

theorem Program.ofSource_known (source : String) :
    ∀ statement ∈ (ofSource source).statements, statement.MadeOf Token.Known :=
  ofSource_made fun _ member => Token.scanned_of_mem member

/-- Every program is printed, and two of them in the same way exactly when they are the same but
for the lines of their tokens, with infinite numbers read as the identifier `inf`. -/
theorem Tree.printedProgram_eq_iff (source other : String) :
    ∃ text otherText,
      printedProgram (Stmt.toTrees (Program.ofSource source).statements) = .ok text ∧
      printedProgram (Stmt.toTrees (Program.ofSource other).statements) = .ok otherText ∧
      (text = otherText ↔
        (Program.ofSource source).statements.map Stmt.canonical =
          (Program.ofSource other).statements.map Stmt.canonical) := by
  have made := Program.ofSource_known source
  have madeOther := Program.ofSource_known other
  have plain {statements : List Stmt}
      (made : ∀ statement ∈ statements, statement.MadeOf Token.Known) :
      ∀ form ∈ statements.map Stmt.form, form.Plain :=
    List.forall_mem_map.2 fun statement member => (made statement member).plain
  refine ⟨_, _, printedProgram_toTrees _, printedProgram_toTrees _, ?_⟩
  rw [← Stmt.forms_eq_iff made madeOther]
  constructor
  · intro same
    exact Form.lines_inj (plain made) (plain madeOther) (Text.ofChars_inj same)
  · intro same
    rw [same]

end Programs

end Lox
