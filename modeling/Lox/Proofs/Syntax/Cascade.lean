import Mathlib.Data.List.Forall2
import Lox.Proofs.Syntax.Bounds
import Lox.Proofs.Syntax.Fenced

/-!
How many problems one mistake can cause.  A step blames tokens in the order in which it passes
them, and the one that it breaks at; only the end of the source is blamed more than once, at most
once more than there are braces open.
-/

namespace Lox

open Lox.Diagnostic

def Diagnostic.Blame (diagnostics : List Diagnostic) (tokens : List Token) : Prop :=
  List.Forall₂ (fun diagnostic token => ∃ what, diagnostic = atToken token (.expected what))
    diagnostics tokens

theorem Diagnostic.Blame.expected (token : Token) (what : String) :
    Blame (fatal [atToken token (.expected what)]) [token] :=
  .cons ⟨what, rfl⟩ .nil

theorem Diagnostic.Blame.append {first second : List Diagnostic} {blamed others : List Token}
    (blame : Blame first blamed) (more : Blame second others) :
    Blame (first ++ second) (blamed ++ others) :=
  List.rel_append blame more

theorem Diagnostic.Blame.lines {diagnostics : List Diagnostic} {blamed : List Token}
    (blame : Blame diagnostics blamed) :
    diagnostics.map (·.line) = blamed.map (·.line) := by
  induction blame with
  | nil => rfl
  | cons same _ ih =>
      obtain ⟨what, rfl⟩ := same
      rw [List.map_cons, List.map_cons, ih]
      rfl

def Token.openings (tokens : List Token) : Nat :=
  tokens.countP (·.kind = .leftBrace)

theorem Token.openings_append (first second : List Token) :
    openings (first ++ second) = openings first + openings second :=
  List.countP_append

namespace Parser

open Lox.Token

variable {α β : Type} {stop : Token} {spare : Nat} {recovers : Prop}
  {tokens passed left blamed : List Token} {notes : List Diagnostic}

/-- What a step reports that reads from the front of the tokens.  At the end it may blame one
more token than blocks were opened, and the spare ones, and it only goes on from there if it
recovers. -/
inductive Charges (stop : Token) (spare : Nat) (recovers : Prop) : List Token → Parsed α → Prop
  | behind {value : Option α} {passed rest blamed : List Token} {notes : List Diagnostic} :
      blamed.Sublist passed → Blame (fatal notes) blamed →
      Charges stop spare recovers (passed ++ rest) ⟨value, rest, notes⟩
  | broken {token : Token} {passed rest blamed : List Token} {notes : List Diagnostic} :
      blamed.Sublist passed → Blame (fatal notes) (blamed ++ [token]) →
      Charges stop spare recovers (passed ++ token :: rest) ⟨none, token :: rest, notes⟩
  | ended {value : Option α} {count : Nat} {passed blamed : List Token}
      {notes : List Diagnostic} :
      (value.isSome → recovers) → blamed.Sublist passed → count ≤ openings passed + 1 + spare →
      Blame (fatal notes) (blamed ++ List.replicate count stop) →
      Charges stop spare recovers passed ⟨value, [], notes⟩

def Charging (stop : Token) (spare : Nat) (step : Parser α) : Prop :=
  ∀ tokens, Charges stop spare False tokens (step tokens)

theorem Charges.weaken {more : Nat} {goesOn : Prop} {parsed : Parsed α}
    (charges : Charges stop spare recovers tokens parsed) (atMost : spare ≤ more)
    (value : Option β) (found : value.isSome → parsed.value.isSome)
    (final : value.isSome → recovers → goesOn) :
    Charges stop more goesOn tokens ⟨value, parsed.rest, parsed.notes⟩ := by
  cases charges with
  | behind sublist blame => exact .behind sublist blame
  | broken sublist blame =>
      have missing : value = none := by simpa using found
      subst missing
      exact .broken sublist blame
  | ended recovered sublist few blame =>
      exact .ended (fun some => final some (recovered (found some))) sublist (by omega) blame

theorem Charges.after {inside : Nat} {parsed : Parsed α}
    (charges : Charges stop inside recovers left parsed)
    (atMost : inside ≤ openings passed + spare)
    (sublist : blamed.Sublist passed) (blame : Blame (fatal notes) blamed) :
    Charges stop spare recovers (passed ++ left)
      ⟨parsed.value, parsed.rest, notes ++ parsed.notes⟩ := by
  cases charges with
  | behind sublistMore blameMore =>
      rw [← List.append_assoc]
      refine .behind (sublist.append sublistMore) ?_
      rw [fatal_append]
      exact blame.append blameMore
  | broken sublistMore blameMore =>
      rw [← List.append_assoc]
      refine .broken (sublist.append sublistMore) ?_
      rw [fatal_append, List.append_assoc]
      exact blame.append blameMore
  | @ended _ count _ others more final sublistMore few blameMore =>
      have whole : Blame (fatal (notes ++ more))
          (blamed ++ others ++ List.replicate count stop) := by
        rw [fatal_append, List.append_assoc]
        exact blame.append blameMore
      refine .ended final (sublist.append sublistMore) ?_ whole
      rw [openings_append]
      omega

def Ending (stop : Token) (extra : Nat) (recovers : Prop) (step : Parser α) : Prop :=
  ∃ value count notes, step [] = ⟨value, [], notes⟩ ∧ (value.isSome → recovers) ∧
    count ≤ extra ∧ Blame (fatal notes) (List.replicate count stop)

/-- A step goes on behind one that does not recover only where that has not reached the end, and
behind one that recovers it blames the end in addition. -/
theorem Charges.bind (extra : Nat) {goesOn : Prop} {first : Parser α} {next : α → Parser β}
    (charges : Charges stop spare recovers tokens (first tokens))
    (rest : ∀ value left, Charges stop (spare + extra) goesOn left (next value left))
    (ending : recovers → ∀ value, Ending stop extra goesOn (next value)) :
    Charges stop (spare + extra) goesOn tokens ((first >>= next) tokens) := by
  cases parsed : first tokens with
  | mk value left notes =>
      rw [parsed] at charges
      cases value with
      | none =>
          rw [bind_of_none parsed]
          exact charges.weaken (Nat.le_add_right _ _) none nofun nofun
      | some value =>
          cases charges with
          | behind sublist blame =>
              rw [bind_of_some parsed rfl]
              exact (rest value left).after (Nat.le_add_left _ _) sublist blame
          | @ended _ count _ blamed _ final sublist few blame =>
              -- A value here means that the first step recovers, so the second one meets the end.
              obtain ⟨found, others, more, ended, last, fewer, blameMore⟩ :=
                ending (final rfl) value
              have whole : Blame (fatal (notes ++ more))
                  (blamed ++ List.replicate (count + others) stop) := by
                rw [fatal_append, ← List.replicate_append_replicate, ← List.append_assoc]
                exact blame.append blameMore
              rw [bind_of_some parsed ended]
              exact .ended last sublist (by omega) whole

theorem Charges.map {step : Parser α} (charges : Charges stop spare recovers tokens (step tokens))
    (change : α → β) : Charges stop spare recovers tokens ((change <$> step) tokens) := by
  rw [map_apply]
  exact charges.weaken (Nat.le_refl _) _ (fun found => (Option.isSome_map ..).symm.trans found)
    fun _ => id

theorem Charging.bind {first : Parser α} {next : α → Parser β}
    (charging : Charging stop spare first) (rest : ∀ value, Charging stop spare (next value)) :
    Charging stop spare (first >>= next) :=
  fun tokens => (charging tokens).bind 0 rest False.elim

theorem Charging.map {step : Parser α} (charging : Charging stop spare step) (change : α → β) :
    Charging stop spare (change <$> step) :=
  fun tokens => (charging tokens).map change

theorem charges_silent (value : Option α) (passed rest : List Token) :
    Charges stop spare recovers (passed ++ rest) ⟨value, rest, []⟩ :=
  .behind (List.nil_sublist passed) .nil

theorem charging_pure (value : α) : Charging stop spare (pure value) :=
  charges_silent (some value) []

theorem charging_abandon : Charging stop spare ((upTo stop).abandon : Parser α) :=
  charges_silent none []

theorem charging_next : Charging stop spare (upTo stop).next :=
  fun tokens => charges_silent _ [] tokens

theorem charging_sees (kind : Kind) : Charging stop spare ((upTo stop).sees kind) :=
  fun tokens => charges_silent _ [] tokens

theorem charging_blockEnds : Charging stop spare (upTo stop).blockEnds :=
  fun tokens => charges_silent _ [] tokens

theorem charging_skip : Charging stop spare (upTo stop).skip := by
  intro tokens
  cases tokens with
  | nil => exact charges_silent _ [] []
  | cons token rest => exact charges_silent _ [token] rest

theorem charging_note (token : Token) {problem : Problem} (harmless : problem.isFatal = false) :
    Charging stop spare ((upTo stop).note token problem) := by
  have silent : fatal [atToken token problem] = [] := by simp [fatal, atToken, harmless]
  have blame : Blame (fatal [atToken token problem]) [] := by
    rw [silent]
    exact .nil
  exact fun tokens => .behind (List.nil_sublist []) blame

theorem charging_fail (what : String) :
    Charging stop spare ((upTo stop).fail what : Parser α) := by
  intro tokens
  cases tokens with
  | nil =>
      have once : 1 ≤ openings [] + 1 + spare := Nat.le_add_right _ _
      exact .ended nofun (List.nil_sublist []) once (.expected stop what)
  | cons token rest => exact .broken (List.nil_sublist []) (.expected token what)

theorem charging_accept? (kinds : List Kind) :
    Charging stop spare ((upTo stop).accept? kinds) := by
  intro tokens
  cases tokens with
  | nil => exact charges_silent _ [] []
  | cons token rest =>
      by_cases member : token.kind ∈ kinds
      · have accepted : (upTo stop).accept? kinds (token :: rest) = ⟨some (some token), rest, []⟩ :=
          if_pos member
        rw [accepted]
        exact charges_silent _ [token] rest
      · have refused : (upTo stop).accept? kinds (token :: rest) = ⟨some none, token :: rest, []⟩ :=
          if_neg member
        rw [refused]
        exact charges_silent _ [] (token :: rest)

theorem charging_expect (kind : Kind) (what : String) :
    Charging stop spare ((upTo stop).expect kind what) := by
  refine (charging_accept? [kind]).bind fun answer => ?_
  cases answer with
  | none => exact charging_fail what
  | some token => exact charging_pure token

theorem charging_limit (count : Nat) {problem : Problem} (harmless : problem.isFatal = false) :
    Charging stop spare ((upTo stop).limit count problem) := by
  unfold Reader.limit
  split
  · exact charging_next.bind fun token => charging_note token harmless
  · exact charging_pure ()

theorem Charging.ofSees {kind : Kind} {present absent : Parser α}
    (chargingPresent : Charging stop spare present) (chargingAbsent : Charging stop spare absent) :
    Charging stop spare ((upTo stop).sees kind >>= fun seen =>
      if seen = true then present else absent) := by
  refine (charging_sees kind).bind fun seen => ?_
  cases seen with
  | false => exact chargingAbsent
  | true => exact chargingPresent

theorem Charging.unlessSees {kind : Kind} {absent : α} {present : Parser α}
    (charging : Charging stop spare present) :
    Charging stop spare ((upTo stop).unlessSees kind absent present) :=
  .ofSees (charging_pure absent) charging

theorem Charging.behind? {kinds : List Kind} {present : Parser α}
    (charging : Charging stop spare present) :
    Charging stop spare ((upTo stop).behind? kinds present) := by
  refine (charging_accept? kinds).bind fun answer => ?_
  cases answer with
  | none => exact charging_pure none
  | some token => exact charging.map some

theorem Charging.skipped {step : Parser α} (charging : Charging stop spare step) :
    Charging stop spare ((upTo stop).skip >>= fun _ => step) :=
  charging_skip.bind fun _ => charging

/-- A brace that is passed makes up for the block behind it, which may not be closed. -/
theorem Charging.opened {token : Token} {step : Parser α}
    (charging : Charging stop (spare + 1) step) (kind : token.kind = .leftBrace)
    (rest : List Token) : Charges stop spare False (token :: rest) (step rest) := by
  have opens : openings [token] = 1 := by simp [openings, kind]
  have silent : Blame (fatal []) [] := .nil
  exact (charging rest).after (by omega) (List.nil_sublist [token]) silent

theorem expect_of_clear {kind : Kind} (clear : Clear [kind] tokens) (what : String) :
    (upTo stop).expect kind what tokens = (upTo stop).fail what tokens :=
  bind_of_reads (reads_accept?.2 (.inr ⟨rfl, clear, rfl⟩))

theorem Charging.behindBrace {step : Parser α} (charging : Charging stop (spare + 1) step)
    (what : String) :
    Charging stop spare ((upTo stop).expect .leftBrace what >>= fun _ => step) := by
  intro tokens
  by_cases clear : Clear [.leftBrace] tokens
  · rw [bind_of_none (expect_of_clear clear what)]
    exact charging_fail what tokens
  · cases tokens with
    | nil => simp at clear
    | cons token rest =>
        have kind : token.kind = .leftBrace := by simpa using clear
        have expected : Reads ((upTo stop).expect .leftBrace what) (token :: rest) token rest :=
          reads_expect.2 ⟨kind, rfl⟩
        rw [bind_of_reads expected]
        exact charging.opened kind rest

theorem Ending.bind {extra : Nat} {goesOn : Prop} {first : Parser α}
    (ending : Ending stop extra False first) (next : α → Parser β) :
    Ending stop extra goesOn (first >>= next) := by
  obtain ⟨value, count, notes, ended, final, few, blame⟩ := ending
  cases value with
  | none => exact ⟨none, count, notes, bind_of_none ended, nofun, few, blame⟩
  | some value => exact (final rfl).elim

theorem Ending.map {extra : Nat} {step : Parser α} (ending : Ending stop extra recovers step)
    (change : α → β) : Ending stop extra recovers (change <$> step) := by
  obtain ⟨value, count, notes, ended, final, few, blame⟩ := ending
  refine ⟨value.map change, count, notes, ?_, fun found => ?_, few, blame⟩
  · rw [map_apply, ended]
  · exact final ((Option.isSome_map ..).symm.trans found)

theorem ending_parseBlock (budget : Nat) : Ending stop 1 False ((upTo stop).parseBlock budget) := by
  cases budget with
  | zero => exact ⟨none, 0, [], rfl, nofun, Nat.zero_le 1, .nil⟩
  | succ budget =>
      have ended : Reads (upTo stop).blockEnds [] true [] := by simp
      refine ⟨none, 1, _, ?_, nofun, Nat.le_refl 1, Blame.expected stop "'\x7d' after block"⟩
      rw [Reader.parseBlock, bind_of_reads ended, if_pos rfl,
        bind_of_none (expect_of_clear (clear_nil _) _)]
      rfl

theorem ending_parseAll (budget : Nat) : Ending stop 0 True ((upTo stop).parseAll budget) := by
  cases budget with
  | zero => exact ⟨none, 0, [], rfl, fun _ => trivial, Nat.le_refl 0, .nil⟩
  | succ budget => exact ⟨some [], 0, [], rfl, fun _ => trivial, Nat.le_refl 0, .nil⟩

theorem charges_dropped {value : Option α} {rest further : List Token}
    (suffix : further <:+ rest) (sublist : blamed.Sublist passed)
    (blame : Blame (fatal notes) blamed) :
    Charges stop spare recovers (passed ++ rest) ⟨value, further, notes⟩ := by
  obtain ⟨dropped, rfl⟩ := suffix
  rw [← List.append_assoc]
  exact .behind (sublist.trans (List.sublist_append_left passed dropped)) blame

theorem Charging.recover {step : Parser α} (charging : Charging stop 0 step) (tokens : List Token) :
    Charges stop 0 True tokens ((upTo stop).recover step tokens) := by
  rw [upTo_recover, Parser.recover]
  have charges := charging tokens
  cases parsed : step tokens with
  | mk value rest notes =>
      rw [parsed] at charges
      cases value with
      | some value => exact charges.weaken (Nat.le_refl 0) _ (fun _ => rfl) fun _ => False.elim
      | none =>
          cases charges with
          | behind sublist blame =>
              have suffix := (synchronize_suffix rest).trans (List.tail_suffix rest)
              exact charges_dropped suffix sublist blame
          | @broken token passed rest blamed _ sublist blame =>
              rw [← List.singleton_append, ← List.append_assoc]
              exact charges_dropped (dropStatement_suffix token rest) (sublist.append_right [token])
                blame
          | ended _ sublist few blame => exact .ended (fun _ => trivial) sublist few blame

end Parser

open Lox.Parser

structure Expr.Charging (stop : Token) (budget : Nat) : Prop where
  parse : Parser.Charging stop 0 ((upTo stop).parseExpr budget)
  level : ∀ levels, Parser.Charging stop 0 ((upTo stop).parseLevel budget levels)
  operands : ∀ level higher left,
    Parser.Charging stop 0 ((upTo stop).parseOperands budget level higher left)
  unary : Parser.Charging stop 0 ((upTo stop).parseUnary budget)
  calls : ∀ callee, Parser.Charging stop 0 ((upTo stop).parseCalls budget callee)
  arguments : ∀ count, Parser.Charging stop 0 ((upTo stop).parseArguments budget count)
  primary : Parser.Charging stop 0 ((upTo stop).parsePrimary budget)

namespace Expr

variable {stop : Token} {budget : Nat}

theorem Charging.parse_succ (charging : Expr.Charging stop budget) :
    Parser.Charging stop 0 ((upTo stop).parseExpr (budget + 1)) := by
  simp only [Reader.parseExpr]
  refine (charging.level levels).bind fun target => ?_
  refine (charging_accept? _).bind fun answer => ?_
  cases answer with
  | none => exact charging_pure target
  | some equals =>
      refine charging.parse.bind fun value => ?_
      cases target with
      | ident name => exact charging_pure _
      | member object name => exact charging_pure _
      | _ => exact (charging_note equals rfl).bind fun _ => charging_pure _

theorem Charging.level_succ (charging : Expr.Charging stop budget) (levels : List Level) :
    Parser.Charging stop 0 ((upTo stop).parseLevel (budget + 1) levels) := by
  cases levels with
  | nil =>
      simp only [Reader.parseLevel]
      exact charging.unary
  | cons level higher =>
      simp only [Reader.parseLevel]
      exact (charging.level higher).bind fun left => charging.operands level higher left

theorem Charging.operands_succ (charging : Expr.Charging stop budget) (level : Level)
    (higher : List Level) (left : Expr) :
    Parser.Charging stop 0 ((upTo stop).parseOperands (budget + 1) level higher left) := by
  simp only [Reader.parseOperands]
  refine (charging_accept? _).bind fun answer => ?_
  cases answer with
  | none => exact charging_pure left
  | some operator =>
      exact (charging.level higher).bind fun right => charging.operands level higher _

theorem Charging.unary_succ (charging : Expr.Charging stop budget) :
    Parser.Charging stop 0 ((upTo stop).parseUnary (budget + 1)) := by
  simp only [Reader.parseUnary]
  refine (charging_accept? _).bind fun answer => ?_
  cases answer with
  | none => exact charging.primary.bind fun callee => charging.calls callee
  | some operator => exact charging.unary.bind fun operand => charging_pure _

theorem Charging.calls_succ (charging : Expr.Charging stop budget) (callee : Expr) :
    Parser.Charging stop 0 ((upTo stop).parseCalls (budget + 1) callee) := by
  simp only [Reader.parseCalls]
  refine .ofSees ?_ (.ofSees ?_ (charging_pure callee))
  · refine Parser.Charging.skipped ((charging.arguments 0).unlessSees.bind fun arguments => ?_)
    exact (charging_expect _ _).bind fun paren => charging.calls _
  · exact Parser.Charging.skipped ((charging_expect _ _).bind fun name => charging.calls _)

theorem Charging.arguments_succ (charging : Expr.Charging stop budget) (count : Nat) :
    Parser.Charging stop 0 ((upTo stop).parseArguments (budget + 1) count) := by
  simp only [Reader.parseArguments]
  refine (charging_limit count rfl).bind fun _ => ?_
  refine charging.parse.bind fun argument => ?_
  refine (charging_accept? _).bind fun answer => ?_
  cases answer with
  | none => exact charging_pure [argument]
  | some comma => exact (charging.arguments (count + 1)).bind fun arguments => charging_pure _

theorem Charging.primary_succ (charging : Expr.Charging stop budget) :
    Parser.Charging stop 0 ((upTo stop).parsePrimary (budget + 1)) := by
  simp only [Reader.parsePrimary]
  refine charging_next.bind fun token => ?_
  cases token.kind with
  | falseWord | trueWord | nilWord | number | string | thisWord | identifier =>
      exact (charging_pure _).skipped
  | superWord =>
      refine Parser.Charging.skipped ((charging_expect .dot _).bind fun _ => ?_)
      exact (charging_expect .identifier _).bind fun name => charging_pure (Expr.super token name)
  | leftParen =>
      refine Parser.Charging.skipped (charging.parse.bind fun inner => ?_)
      exact (charging_expect _ _).bind fun _ => charging_pure _
  | _ => exact charging_fail "expression"

theorem charging (stop : Token) (budget : Nat) : Expr.Charging stop budget := by
  induction budget with
  | zero => constructor <;> intros <;> exact charging_abandon
  | succ budget charging =>
      exact {
        parse := charging.parse_succ
        level := charging.level_succ
        operands := charging.operands_succ
        unary := charging.unary_succ
        calls := charging.calls_succ
        arguments := charging.arguments_succ
        primary := charging.primary_succ
      }

end Expr

namespace Stmt

variable {stop : Token} {budget : Nat}

theorem charging_parseParams (budget count : Nat) :
    Parser.Charging stop 0 ((upTo stop).parseParams budget count) := by
  induction budget generalizing count with
  | zero => exact charging_abandon
  | succ budget ih =>
      simp only [Reader.parseParams]
      refine (charging_limit count rfl).bind fun _ => ?_
      refine (charging_expect _ _).bind fun param => ?_
      refine (charging_accept? _).bind fun answer => ?_
      cases answer with
      | none => exact charging_pure [param]
      | some comma => exact (ih (count + 1)).bind fun params => charging_pure _

theorem charging_parseClosed (budget : Nat) (what : String) :
    Parser.Charging stop 0 ((upTo stop).parseClosed budget what) :=
  (Expr.charging stop budget).parse.bind fun value =>
    (charging_expect .semicolon what).bind fun _ => charging_pure value

theorem charging_parseOptional (budget : Nat) (closing : Kind) :
    Parser.Charging stop 0 ((upTo stop).parseOptional budget closing) :=
  ((Expr.charging stop budget).parse.map some).unlessSees

theorem charging_parseVar (budget : Nat) :
    Parser.Charging stop 0 ((upTo stop).parseVar budget) := by
  unfold Reader.parseVar
  refine (charging_expect .identifier _).bind fun name => ?_
  refine (Expr.charging stop budget).parse.behind?.bind fun initial => ?_
  exact (charging_expect .semicolon _).bind fun _ => charging_pure _

theorem charging_parseInitial (budget : Nat) :
    Parser.Charging stop 0 ((upTo stop).parseInitial budget) := by
  unfold Reader.parseInitial
  refine .ofSees (charging_pure none).skipped (.ofSees ?_ ?_)
  · exact ((charging_parseVar budget).map some).skipped
  · exact (charging_parseClosed budget _).bind fun value => charging_pure _

structure Charging (stop : Token) (budget : Nat) : Prop where
  declaration : ∀ tokens, Charges stop 0 True tokens ((upTo stop).parseDeclaration budget tokens)
  unbroken : Parser.Charging stop 0 ((upTo stop).parseUnbroken budget)
  classDecl : Parser.Charging stop 0 ((upTo stop).parseClass budget)
  methods : Parser.Charging stop 0 ((upTo stop).parseMethods budget)
  definition : ∀ role, Parser.Charging stop 0 ((upTo stop).parseFunction budget role)
  block : Parser.Charging stop 1 ((upTo stop).parseBlock budget)
  statement : Parser.Charging stop 0 ((upTo stop).parseStmt budget)

theorem Charging.unbroken_succ (charging : Stmt.Charging stop budget) :
    Parser.Charging stop 0 ((upTo stop).parseUnbroken (budget + 1)) := by
  simp only [Reader.parseUnbroken]
  refine .ofSees charging.classDecl.skipped (.ofSees ?_ (.ofSees ?_ charging.statement))
  · exact ((charging.definition "function").map Stmt.function).skipped
  · exact (charging_parseVar budget).skipped

theorem Charging.classDecl_succ (charging : Stmt.Charging stop budget) :
    Parser.Charging stop 0 ((upTo stop).parseClass (budget + 1)) := by
  simp only [Reader.parseClass]
  refine (charging_expect .identifier _).bind fun name => ?_
  refine (charging_expect .identifier _).behind?.bind fun superclass => ?_
  refine (charging_expect .leftBrace _).bind fun _ => ?_
  refine charging.methods.bind fun methods => ?_
  exact (charging_expect .rightBrace _).bind fun _ => charging_pure _

theorem Charging.methods_succ (charging : Stmt.Charging stop budget) :
    Parser.Charging stop 0 ((upTo stop).parseMethods (budget + 1)) := by
  simp only [Reader.parseMethods]
  refine charging_blockEnds.bind fun ended => ?_
  cases ended with
  | true => exact charging_pure []
  | false =>
      exact (charging.definition "method").bind fun method =>
        charging.methods.bind fun methods => charging_pure _

theorem Charging.definition_succ (charging : Stmt.Charging stop budget) (role : String) :
    Parser.Charging stop 0 ((upTo stop).parseFunction (budget + 1) role) := by
  simp only [Reader.parseFunction]
  refine (charging_expect .identifier _).bind fun name => ?_
  refine (charging_expect .leftParen _).bind fun _ => ?_
  refine (charging_parseParams budget 0).unlessSees.bind fun params => ?_
  refine (charging_expect .rightParen _).bind fun _ => ?_
  exact Parser.Charging.behindBrace (charging.block.bind fun body => charging_pure _) _

theorem Charging.block_succ (charging : Stmt.Charging stop budget) :
    Parser.Charging stop 1 ((upTo stop).parseBlock (budget + 1)) := by
  simp only [Reader.parseBlock]
  refine charging_blockEnds.bind fun ended => ?_
  cases ended with
  | true => exact (charging_expect .rightBrace _).bind fun _ => charging_pure []
  | false =>
      intro tokens
      refine (charging.declaration tokens).bind 1 (fun statement => ?_) fun _ statement => ?_
      · exact charging.block.bind fun statements => charging_pure _
      · exact (ending_parseBlock budget).bind _

theorem Charging.statement_succ (charging : Stmt.Charging stop budget)
    (stopped : stop.kind = .eof) :
    Parser.Charging stop 0 ((upTo stop).parseStmt (budget + 1)) := by
  have closed : Parser.Charging stop 0
      (Stmt.expr <$> (upTo stop).parseClosed budget "';' after value") :=
    (charging_parseClosed budget _).map Stmt.expr
  intro tokens
  simp only [Reader.parseStmt]
  cases tokens with
  | nil =>
      have next : Reads (upTo stop).next [] stop [] := by simp
      rw [bind_of_reads next, stopped]
      exact closed []
  | cons token rest =>
      have next : Reads (upTo stop).next (token :: rest) token (token :: rest) := by simp
      rw [bind_of_reads next]
      cases kind : token.kind with
      | forWord =>
          refine (Parser.Charging.skipped ?_) _
          refine (charging_expect .leftParen _).bind fun _ => ?_
          refine (charging_parseInitial budget).bind fun initial => ?_
          refine (charging_parseOptional budget .semicolon).bind fun condition => ?_
          refine (charging_expect .semicolon _).bind fun _ => ?_
          refine (charging_parseOptional budget .rightParen).bind fun increment => ?_
          refine (charging_expect .rightParen _).bind fun _ => ?_
          exact charging.statement.bind fun body => charging_pure _
      | ifWord =>
          refine (Parser.Charging.skipped ?_) _
          refine (charging_expect .leftParen _).bind fun _ => ?_
          refine (Expr.charging stop budget).parse.bind fun condition => ?_
          refine (charging_expect .rightParen _).bind fun _ => ?_
          refine charging.statement.bind fun thenBranch => ?_
          refine (charging_accept? _).bind fun answer => ?_
          cases answer with
          | none => exact charging_pure _
          | some separator => exact charging.statement.bind fun elseBranch => charging_pure _
      | printWord => exact ((charging_parseClosed budget _).map Stmt.print).skipped _
      | returnWord =>
          refine (Parser.Charging.skipped ?_) _
          refine (charging_parseOptional budget .semicolon).bind fun value => ?_
          exact (charging_expect .semicolon _).bind fun _ => charging_pure _
      | whileWord =>
          refine (Parser.Charging.skipped ?_) _
          refine (charging_expect .leftParen _).bind fun _ => ?_
          refine (Expr.charging stop budget).parse.bind fun condition => ?_
          refine (charging_expect .rightParen _).bind fun _ => ?_
          exact charging.statement.bind fun body => charging_pure _
      | leftBrace =>
          have skipped : Reads (upTo stop).skip (token :: rest) () rest := by simp
          dsimp only
          rw [bind_of_reads skipped]
          exact (charging.block.map Stmt.block).opened kind rest
      | _ => exact closed _

theorem charging (stopped : stop.kind = .eof) (budget : Nat) : Stmt.Charging stop budget := by
  induction budget with
  | zero =>
      constructor <;> intros
      · exact .behind (List.nil_sublist []) .nil
      all_goals exact charging_abandon
  | succ budget charging =>
      exact {
        declaration := charging.unbroken.recover
        unbroken := charging.unbroken_succ
        classDecl := charging.classDecl_succ
        methods := charging.methods_succ
        definition := charging.definition_succ
        block := charging.block_succ
        statement := charging.statement_succ stopped
      }

theorem charges_parseAll (stopped : stop.kind = .eof) (budget : Nat) (tokens : List Token) :
    Charges stop 0 True tokens ((upTo stop).parseAll budget tokens) := by
  induction budget generalizing tokens with
  | zero => exact charges_silent none [] tokens
  | succ budget ih =>
      by_cases empty : tokens = []
      · subst empty
        exact charges_silent (some []) [] []
      · have goesOn : Reads (upTo stop).atEnd tokens false tokens := by simp [empty]
        rw [Reader.parseAll, bind_of_reads goesOn, if_neg Bool.false_ne_true]
        have first := (charging stopped budget).declaration tokens
        refine first.bind 0 (fun statement left => ?_) fun _ statement => ?_
        · exact (ih left).map _
        · exact (ending_parseAll budget).map _

end Stmt

namespace Program

theorem parseBody_blames {stop : Token} (stopped : stop.kind = .eof) (body : List Token) :
    ∃ blamed count, Blame (fatal (parseBody stop body).diagnostics)
        (blamed ++ List.replicate count stop) ∧
      blamed.Sublist body ∧ count ≤ 1 + Token.openings body := by
  obtain ⟨statements, notes, total⟩ := Stmt.parseAll_total stopped body
  have parsed := total _ (enough_of_budgetFor_le (Nat.le_refl (budgetFor body.length)))
  have charges := Stmt.charges_parseAll stopped (budgetFor body.length) body
  rw [parsed] at charges
  rw [parseBody, parsed]
  cases charges with
  | @behind _ passed _ blamed _ sublist blame =>
      rw [List.append_nil]
      exact ⟨blamed, 0, by simpa using blame, sublist, Nat.zero_le _⟩
  | @ended _ count _ blamed _ _ sublist few blame =>
      exact ⟨blamed, count, blame, sublist, by omega⟩

/-- Problems do not pile up.  Where each token up to the end of a source stands on a later line
than the one before it, the fatal problems are reported on later and later lines, and at the end
at most once more than blocks are opened. -/
theorem parse?_blames_once {before others : List Token} {stop : Token}
    (stopped : stop.kind = .eof) (inner : ∀ token ∈ before, token.kind ≠ .eof)
    (rising : (before ++ [stop]).Pairwise (·.line < ·.line)) :
    ∃ program blamed count, parse? (before ++ stop :: others) = some program ∧
      Blame (fatal program.diagnostics) (blamed ++ List.replicate count stop) ∧
      blamed.Sublist before ∧
      (fatal program.diagnostics).map (·.line) =
        blamed.map (·.line) ++ List.replicate count stop.line ∧
      (blamed.map (·.line) ++ [stop.line]).Pairwise (· < ·) ∧
      (∀ token ∈ before, (fatal program.diagnostics).countP (·.line = token.line) ≤ 1) ∧
      (fatal program.diagnostics).countP (·.line = stop.line) = count ∧
      count ≤ 1 + before.countP (·.kind = .leftBrace) := by
  obtain ⟨blamed, count, blame, sublist, few⟩ := parseBody_blames stopped before
  have lines := blame.lines
  rw [List.map_append, List.map_replicate] at lines
  have increasing : (blamed.map (·.line) ++ [stop.line]).Pairwise (· < ·) := by
    have ordered := rising.sublist (sublist.append_right [stop])
    simpa using List.pairwise_map.2 ordered
  obtain ⟨ordered, -, last⟩ := List.pairwise_append.1 increasing
  have once : (blamed.map (·.line)).Nodup := ordered.imp Int.ne_of_lt
  have counted (line : Int) : (fatal (parseBody stop before).diagnostics).countP (·.line = line) =
      (blamed.map (·.line)).count line + (List.replicate count stop.line).count line := by
    rw [← List.count_append, ← lines, List.count, List.countP_map]
    rfl
  refine ⟨parseBody stop before, blamed, count, parse?_append stopped inner, blame, sublist, lines,
    increasing, fun token member => ?_, ?_, few⟩
  · have earlier : token.line < stop.line :=
      (List.pairwise_append.1 rising).2.2 token member stop (List.mem_singleton_self stop)
    have notLast : token.line ≠ stop.line := Int.ne_of_lt earlier
    rw [counted, List.count_replicate, if_neg (by simpa using notLast.symm)]
    exact List.nodup_iff_count.1 once _
  · have absent : stop.line ∉ blamed.map (·.line) := fun member =>
      Int.lt_irrefl _ (last stop.line member stop.line (List.mem_singleton_self _))
    rw [counted, List.count_eq_zero.2 absent, List.count_replicate_self, Nat.zero_add]

/-- A missing name, and behind it two open blocks and another name that is missing at the end. -/
theorem parse?_blames_once_nested :
    let broken := [⟨.varWord, "var", 1, .nil⟩, ⟨.semicolon, ";", 2, .nil⟩,
      ⟨.leftBrace, "\x7b", 3, .nil⟩, ⟨.leftBrace, "\x7b", 4, .nil⟩, ⟨.varWord, "var", 5, .nil⟩]
    let last := ⟨.eof, "", 6, .nil⟩
    ∃ program blamed, parse? (broken ++ [last]) = some program ∧
      Blame (fatal program.diagnostics) (blamed ++ List.replicate 3 last) ∧
      blamed.Sublist broken ∧ (fatal program.diagnostics).map (·.line) = [2, 6, 6, 6] ∧
      3 ≤ 1 + broken.countP (·.kind = .leftBrace) := by
  intro broken last
  have stopped : last.kind = .eof := rfl
  have inner : ∀ token ∈ broken, token.kind ≠ .eof := by decide
  have rising : (broken ++ [last]).Pairwise (·.line < ·.line) := by decide
  obtain ⟨program, blamed, count, parsed, blame, sublist, -, -, -, atEnd, few⟩ :=
    parse?_blames_once stopped inner rising
  have same : program = parseBody last broken :=
    Option.some.inj (parsed.symm.trans (parse?_body stopped inner))
  have lines : (fatal program.diagnostics).map (·.line) = [2, 6, 6, 6] := by
    rw [same]
    decide +kernel
  have three : count = 3 := by
    rw [← atEnd, same]
    decide +kernel
  subst three
  exact ⟨program, blamed, parsed, blame, sublist, lines, few⟩

end Program

end Lox
