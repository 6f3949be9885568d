import Scriptlet.Token

/-!
# Reading tokens

A parser reads a value off the front of a token list. It answers with the value or the fault
that stopped it, the number of tokens it used, and the errors that it reported on the way
without stopping. What it leaves is the list without the used tokens, so no parser can read
backwards or make tokens up.
-/

namespace Scriptlet

inductive SyntaxFault where
  | expectedExpression
  | expectedClosingParen
  | expectedVariableName
  | expectedSemicolonAfterDeclaration
  | expectedSemicolonAfterValue
  | expectedSemicolonAfterExpression
  | expectedParenAfterIf
  | expectedParenAfterIfCondition
  | expectedParenAfterWhile
  | expectedParenAfterWhileCondition
  | expectedClosingBrace
  | invalidTarget
  | tooMuchNesting
  deriving DecidableEq, Repr

def SyntaxFault.message : SyntaxFault → String
  | expectedExpression => "expect expression."
  | expectedClosingParen => "expect ')' after expression."
  | expectedVariableName => "expect variable name."
  | expectedSemicolonAfterDeclaration => "expect ';' after variable declaration."
  | expectedSemicolonAfterValue => "expect ';' after value."
  | expectedSemicolonAfterExpression => "expect ';' after expression."
  | expectedParenAfterIf => "expect '(' after 'if'."
  | expectedParenAfterIfCondition => "expect ')' after if condition."
  | expectedParenAfterWhile => "expect '(' after 'while'."
  | expectedParenAfterWhileCondition => "expect ')' after condition."
  | expectedClosingBrace => "expect '\x7d' after block."
  | invalidTarget => "invalid assignment target."
  | tooMuchNesting => "too much nesting."

/-- A fault and the token it is blamed on, which is none at the end of input. -/
structure Complaint where
  fault : SyntaxFault
  blamed : Option Token
  deriving DecidableEq

structure Reading (α : Type) where
  value : α
  used : Nat
  reported : List Complaint

/-- The same reading after `n` tokens more. -/
def Reading.after {α : Type} (n : Nat) (r : Reading α) : Reading α :=
  { r with used := n + r.used }

/-- A fault is blamed on the first token that was not used. -/
def Parser (α : Type) : Type := List Token → Reading (Except SyntaxFault α)

namespace Parser
variable {α β : Type}

def succeed (a : α) : Parser α := fun _ => ⟨.ok a, 0, []⟩

def fail (fault : SyntaxFault) : Parser α := fun _ => ⟨.error fault, 0, []⟩

def andThen (p : Parser α) (f : α → Parser β) : Parser β := fun ts =>
  let r := p ts
  match r.value with
  | .error fault => ⟨.error fault, r.used, r.reported⟩
  | .ok a =>
    let s := f a (ts.drop r.used)
    ⟨s.value, r.used + s.used, r.reported ++ s.reported⟩

/-- A reading that no fault can stop. -/
def always (read : List Token → Reading α) : Parser α := fun ts =>
  let r := read ts
  ⟨.ok r.value, r.used, r.reported⟩

instance : Monad Parser where
  pure := succeed
  bind := andThen

/-- Reports a fault on a token and goes on. -/
def report (fault : SyntaxFault) (token : Token) : Parser Unit := fun _ =>
  ⟨.ok (), 0, [⟨fault, some token⟩]⟩

/-- Uses the front token and goes on as `choose` says for it, or else leaves it to
`otherwise`. -/
def onFront (choose : Token → Option (Parser α)) (otherwise : Parser α) : Parser α
  | [] => otherwise []
  | t :: ts =>
    match choose t with
    | some p => (p ts).after 1
    | none => otherwise (t :: ts)

/-- Uses the front token if it has the kind. -/
def accept (kind : TokenKind) : Parser (Option Token) :=
  onFront (fun t => if t.kind = kind then some (succeed (some t)) else none) (succeed none)

def expect (kind : TokenKind) (fault : SyntaxFault) : Parser Token :=
  onFront (fun t => if t.kind = kind then some (succeed t) else none) (fail fault)

end Parser
end Scriptlet
