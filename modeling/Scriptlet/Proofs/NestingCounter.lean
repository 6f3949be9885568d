import Scriptlet.Proofs.ErrorContainment
import Scriptlet.Proofs.NestingBound

/-!
# The nesting counter

The grammar hands down how many levels are left. Here the same grammar is read with one counter for
all of it, which is raised before a nested part is read and lowered when that part returns, be it
with a value or with a fault, and which alone refuses to nest deeper. Every call writes down how
many nested parts were being read around it and what the counter was before and behind it.

Both read alike, because wherever a call is made the counter is the number of nested parts that are
being read, and it is the same number again behind the call.
-/

namespace Scriptlet

/-- A call of a part of the parser: how many nested parts were being read around it, and the counter
when it began and when it returned. -/
structure Call where
  inside : Nat
  entered : Nat
  returned : Nat

/-- A reading, the counter behind it, and the calls that were made for it. -/
structure Return (α : Type) extends Reading α where
  counter : Nat
  calls : List Call

/-- Reads tokens, given how many nested parts are being read around and the counter. -/
abbrev Counted (α : Type) : Type := Nat → Nat → List Token → Return α

def CountingParser (α : Type) : Type := Counted (Except SyntaxFault α)

namespace CountingParser
variable {α β : Type}

/-- Reads what nests nothing. -/
def flat (p : Parser α) : CountingParser α := fun _ counter ts => ⟨p ts, counter, []⟩

def andThen (p : CountingParser α) (f : α → CountingParser β) : CountingParser β :=
  fun inside counter ts =>
    let r := p inside counter ts
    match r.value with
    | .error fault => ⟨⟨.error fault, r.used, r.reported⟩, r.counter, r.calls⟩
    | .ok a =>
      let s := f a inside r.counter (ts.drop r.used)
      ⟨⟨s.value, r.used + s.used, r.reported ++ s.reported⟩, s.counter, r.calls ++ s.calls⟩

instance : Monad CountingParser where
  pure a := flat (.succeed a)
  bind := andThen

def always (read : Counted α) : CountingParser α := fun inside counter ts =>
  let r := read inside counter ts
  ⟨⟨.ok r.value, r.used, r.reported⟩, r.counter, r.calls⟩

def onFront (choose : Token → Option (CountingParser α)) (otherwise : CountingParser α) :
    CountingParser α
  | inside, counter, [] => otherwise inside counter []
  | inside, counter, t :: ts =>
    match choose t with
    | some p =>
      let r := p inside counter ts
      { r with toReading := r.toReading.after 1 }
    | none => otherwise inside counter (t :: ts)

/-- Reads one level deeper, or refuses to when the counter has reached the limit. -/
def nested (p : CountingParser α) : CountingParser α := fun inside counter ts =>
  if maxNesting ≤ counter then flat Grammar.tooDeep inside counter ts
  else
    let r := p (inside + 1) (counter + 1) ts
    { r with counter := r.counter - 1 }

end CountingParser

/-- The same reading, with the call that made it. -/
def called {α : Type} (read : Counted α) : Counted α := fun inside counter ts =>
  let r := read inside counter ts
  { r with calls := ⟨inside, counter, r.counter⟩ :: r.calls }

namespace Counting
open CountingParser

def operandFrom (operandBelow exprBelow : CountingParser Expr) (t : Token) :
    Option (CountingParser Expr) :=
  match t.kind with
  | .symbol .bang | .symbol .minus => some do
    let operand ← nested operandBelow
    return .unary t operand
  | .symbol .leftParen => some do
    let inner ← nested exprBelow
    let _ ← flat (.expect (.symbol .rightParen) .expectedClosingParen)
    return .grouping inner
  | .keyword .kwFalse => some (pure (.literal (.bool false)))
  | .keyword .kwTrue => some (pure (.literal (.bool true)))
  | .keyword .kwNil => some (pure (.literal .nil))
  | .number | .string => some (pure (.literal (t.literal.getD .nil)))
  | .identifier => some (pure (.ref t))
  | _ => none

def operandOver (operandBelow exprBelow : CountingParser Expr) : CountingParser Expr :=
  called (onFront (operandFrom operandBelow exprBelow) (flat (.fail .expectedExpression)))

def operations (operand : CountingParser Expr) (left : Expr) (inside counter : Nat)
    (ts : List Token) : Return (Except SyntaxFault Expr) :=
  match ts with
  | [] => ⟨⟨.ok left, 0, []⟩, counter, []⟩
  | op :: rest =>
    if op.kind.precedence?.isSome then
      let r := operand inside counter rest
      match r.value with
      | .error fault => ⟨⟨.error fault, 1 + r.used, r.reported⟩, r.counter, r.calls⟩
      | .ok right =>
        let s := operations operand (left.attach op right) inside r.counter (rest.drop r.used)
        ⟨⟨s.value, 1 + r.used + s.used, r.reported ++ s.reported⟩, s.counter, r.calls ++ s.calls⟩
    else ⟨⟨.ok left, 0, []⟩, counter, []⟩
termination_by ts.length
decreasing_by
  simp only [List.length_drop, List.length_cons]
  omega

def exprOver (operandBelow exprBelow : CountingParser Expr) : CountingParser Expr :=
  called (show CountingParser Expr from do
    let operand := operandOver operandBelow exprBelow
    let first ← operand
    let left ← (called (operations operand first) : CountingParser Expr)
    match ← flat (.accept (.symbol .equal)) with
    | none => return left
    | some equals =>
      let value ← nested exprBelow
      flat (Grammar.assignment left equals value))

mutual

/-- Where no level of the stack is left the call is written down and nothing is read. -/
def operand (stack : Nat) : CountingParser Expr :=
  match stack with
  | 0 => called (flat Grammar.tooDeep)
  | stack + 1 => operandOver (operand stack) (expr stack)

def expr (stack : Nat) : CountingParser Expr :=
  match stack with
  | 0 => called (flat Grammar.tooDeep)
  | stack + 1 => exprOver (operand stack) (expr stack)

end

def declarationRest (expr : CountingParser Expr) : CountingParser Stmt :=
  called (show CountingParser Stmt from do
    let name ← flat (.expect .identifier .expectedVariableName)
    let init : Option Expr ← (do
      match ← flat (.accept (.symbol .equal)) with
      | none => return none
      | some _ => return some (← expr))
    let _ ← flat (.expect (.symbol .semicolon) .expectedSemicolonAfterDeclaration)
    return .declare name init)

def ifRest (expr : CountingParser Expr) (branch : CountingParser Stmt) : CountingParser Stmt :=
  called (show CountingParser Stmt from do
    let _ ← flat (.expect (.symbol .leftParen) .expectedParenAfterIf)
    let condition ← expr
    let _ ← flat (.expect (.symbol .rightParen) .expectedParenAfterIfCondition)
    let yes ← nested branch
    match ← flat (.accept (.keyword .kwElse)) with
    | none => return .ifThen condition yes
    | some _ => return .ifElse condition yes (← nested branch))

def whileRest (expr : CountingParser Expr) (body : CountingParser Stmt) : CountingParser Stmt :=
  called (show CountingParser Stmt from do
    let _ ← flat (.expect (.symbol .leftParen) .expectedParenAfterWhile)
    let condition ← expr
    let _ ← flat (.expect (.symbol .rightParen) .expectedParenAfterWhileCondition)
    return .whileDo condition (← nested body))

def printRest (keyword : Token) (expr : CountingParser Expr) : CountingParser Stmt := do
  let e ← expr
  let _ ← flat (.expect (.symbol .semicolon) .expectedSemicolonAfterValue)
  return .print keyword e

def expressionStatement (expr : CountingParser Expr) : CountingParser Stmt := do
  let e ← expr
  let _ ← flat (.expect (.symbol .semicolon) .expectedSemicolonAfterExpression)
  return .expr e

def statementOver (expr : CountingParser Expr) (branch : CountingParser Stmt)
    (body : CountingParser (List Stmt)) : CountingParser Stmt :=
  called (onFront
    (fun t =>
      match t.kind with
      | .keyword .kwIf => some (ifRest expr branch)
      | .keyword .kwWhile => some (whileRest expr branch)
      | .keyword .kwPrint => some (printRest t expr)
      | .symbol .leftBrace => some (.block <$> nested body)
      | _ => none)
    (expressionStatement expr))

/-- Skipping leaves the counter as the statement left it. -/
def recovering (p : CountingParser Stmt) : Counted (Option Stmt) := fun inside counter ts =>
  let r := p inside counter ts
  ⟨Grammar.recovering (fun _ => r.toReading) ts, r.counter, r.calls⟩

def itemOver (expr : CountingParser Expr) (statement : CountingParser Stmt) :
    Counted (Option Stmt) :=
  called <| recovering <| onFront
    (fun t => if t.kind = .keyword .kwVar then some (declarationRest expr) else none)
    statement

def items (closes : Token → Bool) (item : Counted (Option Stmt)) (inside counter : Nat)
    (ts : List Token) : Return (List Stmt) :=
  match ts with
  | [] => ⟨⟨[], 0, []⟩, counter, []⟩
  | t :: rest =>
    if closes t then ⟨⟨[], 0, []⟩, counter, []⟩
    else
      let r := item inside counter (t :: rest)
      let s := items closes item inside r.counter (rest.drop (r.used - 1))
      ⟨⟨r.value.toList ++ s.value, r.used + s.used, r.reported ++ s.reported⟩, s.counter,
        r.calls ++ s.calls⟩
termination_by ts.length
decreasing_by
  simp only [List.length_drop, List.length_cons]
  omega

def blockOver (item : Counted (Option Stmt)) : CountingParser (List Stmt) :=
  called (show CountingParser (List Stmt) from do
    let body ← always (items (·.kind == .symbol .rightBrace) item)
    let _ ← flat (.expect (.symbol .rightBrace) .expectedClosingBrace)
    return body)

mutual

def statement (stack : Nat) : CountingParser Stmt :=
  match stack with
  | 0 => called (flat Grammar.tooDeep)
  | stack + 1 => statementOver (expr (stack + 1)) (statement stack) (blockRest stack)

def blockRest (stack : Nat) : CountingParser (List Stmt) :=
  match stack with
  | 0 => called (flat Grammar.tooDeep)
  | stack + 1 =>
    blockOver (itemOver (expr (stack + 1))
      (statementOver (expr (stack + 1)) (statement stack) (blockRest stack)))

end

def item (stack : Nat) : Counted (Option Stmt) := itemOver (expr stack) (statement stack)

/-- Reads a program with the counter at zero. The calls may lie in each other as deep as the stack
allows. -/
def program (stack : Nat) (ts : List Token) : Return (List Stmt) :=
  items (fun _ => false) (item stack) 0 0 ts

end Counting

/-- The counter was the number of nested parts that were being read, before the call and behind it,
and it was within the limit. -/
def Call.Steady (c : Call) : Prop :=
  c.entered = c.inside ∧ c.returned = c.inside ∧ c.inside ≤ maxNesting

/-- The reading is the one given, the counter is `k`, and all calls were steady. -/
structure Return.Mirrors {α : Type} (k : Nat) (r : Return α) (r' : Reading α) : Prop where
  reading : r.toReading = r'
  counter : r.counter = k
  calls : ∀ c ∈ r.calls, c.Steady

/-- Inside of `k` nested parts, with the counter at `k`, both read alike and the counter comes back
to `k`. -/
def Mirrors {α : Type} (k : Nat) (read : Counted α) (read' : List Token → Reading α) : Prop :=
  ∀ ts, (read k k ts).Mirrors k (read' ts)

section combinators
open CountingParser
variable {α β : Type} {k : Nat} {p : CountingParser α} {p' : Parser α} {f : α → CountingParser β}
  {f' : α → Parser β}

lemma mirrors_flat (p : Parser α) : Mirrors k (flat p) p :=
  fun _ => ⟨rfl, rfl, fun _ h => absurd h List.not_mem_nil⟩

lemma mirrors_called {read : Counted α} {read' : List Token → Reading α} (hk : k ≤ maxNesting)
    (h : Mirrors k read read') : Mirrors k (called read) read' := by
  intro ts
  obtain ⟨hreading, hcounter, hcalls⟩ := h ts
  exact ⟨hreading, hcounter, List.forall_mem_cons.mpr ⟨⟨rfl, hcounter, hk⟩, hcalls⟩⟩

lemma Return.Mirrors.andThen {ts : List Token} (hp : (p k k ts).Mirrors k (p' ts))
    (hf : ∀ a, (p' ts).value = .ok a →
      (f a k k (ts.drop (p' ts).used)).Mirrors k (f' a (ts.drop (p' ts).used))) :
    (p.andThen f k k ts).Mirrors k (p'.andThen f' ts) := by
  obtain ⟨hreading, hcounter, hcalls⟩ := hp
  unfold CountingParser.andThen Parser.andThen
  simp only [hreading, hcounter]
  cases hv : (p' ts).value with
  | error fault => exact ⟨rfl, rfl, hcalls⟩
  | ok a =>
    obtain ⟨hfreading, hfcounter, hfcalls⟩ := hf a hv
    simp only [hfreading]
    exact ⟨rfl, hfcounter, List.forall_mem_append.mpr ⟨hcalls, hfcalls⟩⟩

lemma Mirrors.andThen (hp : Mirrors k p p') (hf : ∀ a, Mirrors k (f a) (f' a)) :
    Mirrors k (p.andThen f) (p'.andThen f') :=
  fun ts => (hp ts).andThen (fun a _ => hf a _)

lemma Mirrors.onFront {choose : Token → Option (CountingParser α)}
    {choose' : Token → Option (Parser α)} {otherwise : CountingParser α} {otherwise' : Parser α}
    (hc : ∀ t, Option.Rel (Mirrors k) (choose t) (choose' t))
    (ho : Mirrors k otherwise otherwise') :
    Mirrors k (onFront choose otherwise) (Parser.onFront choose' otherwise') := by
  intro ts
  cases ts with
  | nil => exact ho []
  | cons t rest =>
    have hchoice := hc t
    rw [CountingParser.onFront, Parser.onFront]
    generalize choose t = q, choose' t = q' at hchoice
    cases hchoice with
    | none => exact ho (t :: rest)
    | some h =>
      obtain ⟨hreading, hcounter, hcalls⟩ := h rest
      exact ⟨congrArg (Reading.after 1) hreading, hcounter, hcalls⟩

lemma mirrors_nested_of_lt (hk : k < maxNesting) (h : Mirrors (k + 1) p p') :
    Mirrors k (nested p) p' := by
  intro ts
  obtain ⟨hreading, hcounter, hcalls⟩ := h ts
  unfold nested
  rw [if_neg (Nat.not_le.mpr hk)]
  exact ⟨hreading, congrArg (· - 1) hcounter, hcalls⟩

lemma mirrors_nested_of_eq (hk : k = maxNesting) :
    Mirrors k (nested p) (Grammar.tooDeep : Parser α) := by
  intro ts
  unfold nested
  rw [if_pos (Nat.le_of_eq hk.symm)]
  exact mirrors_flat _ ts

lemma mirrors_nested {n : Nat} {levels : Nat → Parser α} (hzero : levels 0 = Grammar.tooDeep)
    (hk : k + n = maxNesting) (h : ∀ m, n = m + 1 → Mirrors (k + 1) p (levels (m + 1))) :
    Mirrors k (nested p) (levels n) := by
  cases n with
  | zero =>
    rw [hzero]
    exact mirrors_nested_of_eq hk
  | succ m => exact mirrors_nested_of_lt (by omega) (h m rfl)

end combinators

section productions
open CountingParser
variable {k : Nat} (hk : k ≤ maxNesting)

section expressions
variable {operandBelow exprBelow : CountingParser Expr} {operandBelow' exprBelow' : Parser Expr}

lemma mirrors_operandFrom (ho : Mirrors k (nested operandBelow) operandBelow')
    (he : Mirrors k (nested exprBelow) exprBelow') (t : Token) :
    Option.Rel (Mirrors k) (Counting.operandFrom operandBelow exprBelow t)
      (Grammar.operandFrom operandBelow' exprBelow' t) := by
  unfold Counting.operandFrom Grammar.operandFrom
  generalize t.kind = kind
  cases kind with
  | symbol s =>
    cases s with
    | bang | minus => exact .some (ho.andThen (fun _ => mirrors_flat _))
    | leftParen =>
      exact .some (he.andThen (fun _ => (mirrors_flat _).andThen (fun _ => mirrors_flat _)))
    | _ => exact .none
  | keyword k =>
    cases k with
    | kwFalse | kwTrue | kwNil => exact .some (mirrors_flat _)
    | _ => exact .none
  | number | string | identifier => exact .some (mirrors_flat _)
  | endOfInput => exact .none

include hk

lemma mirrors_operandOver (ho : Mirrors k (nested operandBelow) operandBelow')
    (he : Mirrors k (nested exprBelow) exprBelow') :
    Mirrors k (Counting.operandOver operandBelow exprBelow)
      (Grammar.operandOver operandBelow' exprBelow') :=
  mirrors_called hk (Mirrors.onFront (mirrors_operandFrom ho he) (mirrors_flat _))

omit hk in
lemma mirrors_operations {operand : CountingParser Expr} {operand' : Parser Expr}
    (h : Mirrors k operand operand') (left : Expr) :
    Mirrors k (Counting.operations operand left) (Grammar.operations operand' left) := by
  intro ts
  fun_induction Grammar.operations operand' left ts with
  | case1 left =>
    rw [Counting.operations]
    exact mirrors_flat (.succeed left) []
  | case2 left op rest hop r fault hr =>
    obtain ⟨hreading, hcounter, hcalls⟩ := h rest
    rw [Counting.operations, if_pos hop]
    simp only [hreading]
    simp only [r] at hr
    simp only [hr]
    exact ⟨rfl, hcounter, hcalls⟩
  | case3 left op rest hop r right hr s ih =>
    obtain ⟨hreading, hcounter, hcalls⟩ := h rest
    obtain ⟨hsreading, hscounter, hscalls⟩ := ih
    rw [Counting.operations, if_pos hop]
    simp only [r] at hr hsreading hscounter hscalls
    simp only [hreading, hr, hcounter, hsreading]
    exact ⟨rfl, hscounter, List.forall_mem_append.mpr ⟨hcalls, hscalls⟩⟩
  | case4 left op rest hop =>
    rw [Counting.operations, if_neg hop]
    exact mirrors_flat (.succeed left) (op :: rest)

lemma mirrors_exprOver (ho : Mirrors k (nested operandBelow) operandBelow')
    (he : Mirrors k (nested exprBelow) exprBelow') :
    Mirrors k (Counting.exprOver operandBelow exprBelow)
      (Grammar.exprOver operandBelow' exprBelow') := by
  have hoperand := mirrors_operandOver hk ho he
  refine mirrors_called hk (hoperand.andThen (fun first =>
    (mirrors_called hk (mirrors_operations hoperand first)).andThen (fun left =>
      (mirrors_flat _).andThen (fun equals => ?_))))
  cases equals with
  | none => exact mirrors_flat _
  | some equals => exact he.andThen (fun _ => mirrors_flat _)

end expressions

section statements
variable {expr : CountingParser Expr} {expr' : Parser Expr} {branch : CountingParser Stmt}
  {branch' : Parser Stmt} {body : CountingParser (List Stmt)} {body' : Parser (List Stmt)}

lemma mirrors_upTo {α : Type} {p : CountingParser α} {p' : Parser α} (hp : Mirrors k p p')
    {kind : TokenKind} {fault : SyntaxFault} {make : α → Stmt} :
    Mirrors k (p.andThen (fun a => (flat (.expect kind fault)).andThen
        (fun _ => flat (.succeed (make a)))))
      (p'.andThen (fun a => (Parser.expect kind fault).andThen (fun _ => .succeed (make a)))) :=
  hp.andThen (fun _ => (mirrors_flat _).andThen (fun _ => mirrors_flat _))

include hk

lemma mirrors_declarationRest (he : Mirrors k expr expr') :
    Mirrors k (Counting.declarationRest expr) (Grammar.declarationRest expr') := by
  refine mirrors_called hk ((mirrors_flat _).andThen (fun name => mirrors_upTo ?_))
  refine (mirrors_flat _).andThen (fun equals => ?_)
  cases equals with
  | none => exact mirrors_flat _
  | some _ => exact he.andThen (fun _ => mirrors_flat _)

lemma mirrors_ifRest (he : Mirrors k expr expr') (hb : Mirrors k (nested branch) branch') :
    Mirrors k (Counting.ifRest expr branch) (Grammar.ifRest expr' branch') := by
  refine mirrors_called hk ((mirrors_flat _).andThen (fun _ => he.andThen (fun condition =>
    (mirrors_flat _).andThen (fun _ => hb.andThen (fun yes =>
      (mirrors_flat _).andThen (fun otherwise => ?_))))))
  cases otherwise with
  | none => exact mirrors_flat _
  | some _ => exact hb.andThen (fun _ => mirrors_flat _)

lemma mirrors_whileRest (he : Mirrors k expr expr') (hb : Mirrors k (nested branch) branch') :
    Mirrors k (Counting.whileRest expr branch) (Grammar.whileRest expr' branch') :=
  mirrors_called hk ((mirrors_flat _).andThen (fun _ => he.andThen (fun _ =>
    (mirrors_flat _).andThen (fun _ => hb.andThen (fun _ => mirrors_flat _)))))

lemma mirrors_statementOver (he : Mirrors k expr expr') (hb : Mirrors k (nested branch) branch')
    (hs : Mirrors k (nested body) body') :
    Mirrors k (Counting.statementOver expr branch body)
      (Grammar.statementOver expr' branch' body') := by
  refine mirrors_called hk (Mirrors.onFront (fun t => ?_) (mirrors_upTo he))
  generalize t.kind = kind
  cases kind with
  | symbol s =>
    cases s with
    | leftBrace => exact .some (hs.andThen (fun _ => mirrors_flat _))
    | _ => exact .none
  | keyword k =>
    cases k with
    | kwIf => exact .some (mirrors_ifRest hk he hb)
    | kwWhile => exact .some (mirrors_whileRest hk he hb)
    | kwPrint => exact .some (mirrors_upTo he)
    | _ => exact .none
  | _ => exact .none

omit hk in
lemma mirrors_recovering {p : CountingParser Stmt} {p' : Parser Stmt} (h : Mirrors k p p') :
    Mirrors k (Counting.recovering p) (Grammar.recovering p') := by
  intro ts
  obtain ⟨hreading, hcounter, hcalls⟩ := h ts
  refine ⟨?_, hcounter, hcalls⟩
  rw [Counting.recovering, hreading]
  rfl

lemma mirrors_itemOver {statement : CountingParser Stmt} {statement' : Parser Stmt}
    (he : Mirrors k expr expr') (hs : Mirrors k statement statement') :
    Mirrors k (Counting.itemOver expr statement) (Grammar.itemOver expr' statement') := by
  refine mirrors_called hk (mirrors_recovering (Mirrors.onFront (fun t => ?_) hs))
  split
  · exact .some (mirrors_declarationRest hk he)
  · exact .none

omit hk in
lemma mirrors_items (closes : Token → Bool) {item : Counted (Option Stmt)}
    {item' : List Token → Reading (Option Stmt)} (h : Mirrors k item item') :
    Mirrors k (Counting.items closes item) (Grammar.items closes item') := by
  intro ts
  fun_induction Grammar.items closes item' ts with
  | case1 =>
    rw [Counting.items]
    exact ⟨rfl, rfl, fun _ hc => absurd hc List.not_mem_nil⟩
  | case2 t rest hc =>
    rw [Counting.items, if_pos hc]
    exact ⟨rfl, rfl, fun _ hc => absurd hc List.not_mem_nil⟩
  | case3 t rest hc r s ih =>
    obtain ⟨hreading, hcounter, hcalls⟩ := h (t :: rest)
    obtain ⟨hsreading, hscounter, hscalls⟩ := ih
    rw [Counting.items, if_neg hc]
    simp only [r] at hsreading hscounter hscalls
    simp only [hreading, hcounter, hsreading]
    exact ⟨rfl, hscounter, List.forall_mem_append.mpr ⟨hcalls, hscalls⟩⟩

lemma mirrors_blockOver {item : Counted (Option Stmt)}
    {item' : List Token → Reading (Option Stmt)} (h : Mirrors k item item') :
    Mirrors k (Counting.blockOver item) (Grammar.blockOver item') := by
  have hbody : Mirrors k
      (CountingParser.always (Counting.items (·.kind == .symbol .rightBrace) item))
      (Parser.always (Grammar.items (·.kind == .symbol .rightBrace) item')) := by
    intro ts
    obtain ⟨hreading, hcounter, hcalls⟩ := mirrors_items (·.kind == .symbol .rightBrace) h ts
    unfold CountingParser.always Parser.always
    simp only [hreading]
    exact ⟨rfl, hcounter, hcalls⟩
  exact mirrors_called hk (hbody.andThen (fun _ =>
    (mirrors_flat _).andThen (fun _ => mirrors_flat _)))

end statements
end productions

section levels
open CountingParser
variable {k n stack : Nat}

/-- With the counter at `k` as many levels are left as the limit is above `k`. -/
lemma mirrors_operand_expr (hk : k + n = maxNesting) (hstack : n < stack) :
    Mirrors k (Counting.operand stack) (Grammar.operand (n + 1)) ∧
      Mirrors k (Counting.expr stack) (Grammar.expr (n + 1)) := by
  induction n using Nat.strongRecOn generalizing k stack with
  | _ n ih =>
    obtain ⟨below, rfl⟩ := Nat.exists_eq_add_one_of_ne_zero (Nat.ne_zero_of_lt hstack)
    have hbelow (m : Nat) (hm : n = m + 1) :
        Mirrors (k + 1) (Counting.operand below) (Grammar.operand (m + 1)) ∧
          Mirrors (k + 1) (Counting.expr below) (Grammar.expr (m + 1)) :=
      ih m (by omega) (by omega) (by omega)
    have ho := mirrors_nested Grammar.operand_zero hk (fun m hm => (hbelow m hm).1)
    have he := mirrors_nested Grammar.expr_zero hk (fun m hm => (hbelow m hm).2)
    rw [Grammar.operand_succ, Grammar.expr_succ]
    exact ⟨mirrors_operandOver (by omega) ho he, mirrors_exprOver (by omega) ho he⟩

lemma mirrors_statement_blockRest (hk : k + n = maxNesting) (hstack : n < stack) :
    Mirrors k (Counting.statement stack) (Grammar.statement (n + 1)) ∧
      Mirrors k (Counting.blockRest stack) (Grammar.blockRest (n + 1)) := by
  induction n using Nat.strongRecOn generalizing k stack with
  | _ n ih =>
    obtain ⟨below, rfl⟩ := Nat.exists_eq_add_one_of_ne_zero (Nat.ne_zero_of_lt hstack)
    have hbelow (m : Nat) (hm : n = m + 1) :
        Mirrors (k + 1) (Counting.statement below) (Grammar.statement (m + 1)) ∧
          Mirrors (k + 1) (Counting.blockRest below) (Grammar.blockRest (m + 1)) :=
      ih m (by omega) (by omega) (by omega)
    have hb := mirrors_nested Grammar.statement_zero hk (fun m hm => (hbelow m hm).1)
    have hs := mirrors_nested Grammar.blockRest_zero hk (fun m hm => (hbelow m hm).2)
    have hexpr := (mirrors_operand_expr hk hstack).2
    have hstatement : Mirrors k (Counting.statement (below + 1)) (Grammar.statement (n + 1)) := by
      rw [Grammar.statement_succ]
      exact mirrors_statementOver (by omega) hexpr hb hs
    refine ⟨hstatement, ?_⟩
    rw [Grammar.blockRest_succ_eq]
    exact mirrors_blockOver (by omega) (mirrors_itemOver (by omega) hexpr hstatement)

lemma mirrors_program (hstack : maxNesting < stack) (ts : List Token) :
    (Counting.program stack ts).Mirrors 0 (Grammar.program ts) := by
  have hk : 0 + maxNesting = maxNesting := Nat.zero_add maxNesting
  have hexpr := (mirrors_operand_expr hk hstack).2
  have hstatement := (mirrors_statement_blockRest hk hstack).1
  exact mirrors_items (fun _ => false) (mirrors_itemOver (Nat.zero_le _) hexpr hstatement) ts

end levels
end Scriptlet
