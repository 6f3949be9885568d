import Scriptlet.Proofs.ParserSoundness
import Scriptlet.Proofs.SpelledTokens
import Scriptlet.Syntax.Text

/-!
# The printed tree tells the tree

Trees are printed as prefix forms. A tree that was read from a source is determined by its form, but
for the lines of its tokens, unless a string or an infinite number hides how it was written.
-/

namespace Scriptlet

/-- A mark whose text tells it. -/
def Mark.Plain : Mark → Prop
  | .kind _ => True
  | .exactly t => t.Spelled
  | .denoting v => v.Plain

namespace Expr

def withoutLines : Expr → Expr
  | literal v => literal v
  | grouping e => grouping e.withoutLines
  | unary op e => unary op.withoutLine e.withoutLines
  | binary l op r => binary l.withoutLines op.withoutLine r.withoutLines
  | ref name => ref name.withoutLine
  | assign name e => assign name.withoutLine e.withoutLines

def form : Expr → PrefixForm
  | literal v => .word v.text
  | grouping e => .apply "group" [e.form]
  | unary op e => .apply op.lexeme [e.form]
  | binary l op r => .apply op.lexeme [l.form, r.form]
  | ref name => .word name.lexeme
  | assign name e => .apply "=" [.word name.lexeme, e.form]

lemma chars_form (e : Expr) : e.form.chars = e.text.toList := by
  induction e with
  | literal v => rfl
  | ref name => rfl
  | grouping e ih => simp [form, text, PrefixForm.chars, PrefixForm.argsChars, ih]
  | unary op e ih => simp [form, text, PrefixForm.chars, PrefixForm.argsChars, ih]
  | binary l op r ihl ihr => simp [form, text, PrefixForm.chars, PrefixForm.argsChars, ihl, ihr]
  | assign name e ih => simp [form, text, PrefixForm.chars, PrefixForm.argsChars, ih]

section operators
variable {op : Token}

lemma isWord_unary (h : op.Spelled) (hop : op.kind = .symbol .bang ∨ op.kind = .symbol .minus) :
    IsWord op.lexeme := by
  rcases hop with hop | hop <;> exact h.isWord (by simp [hop]) (by simp [hop]) (by simp [hop])

lemma isWord_binary (h : op.Spelled) {p : Nat} (hop : op.kind.precedence? = some p) :
    IsWord op.lexeme := by
  apply h.isWord <;>
  · intro hk
    rw [hk] at hop
    cases hop

lemma isWord_name (h : op.Spelled) (hop : op.kind = .identifier) : IsWord op.lexeme :=
  h.isWord (by simp [hop]) (by simp [hop]) (by simp [hop])

lemma unary_ne_group (h : op.Spelled)
    (hop : op.kind = .symbol .bang ∨ op.kind = .symbol .minus) : op.lexeme ≠ "group" := by
  rcases hop with hop | hop <;>
  · rw [h.lexeme_symbol hop]
    decide

lemma binary_ne_equal (h : op.Spelled) {p : Nat} (hop : op.kind.precedence? = some p) :
    op.lexeme ≠ "=" := by
  intro heq
  have hlexeme := h.lexeme
  rw [heq] at hlexeme
  rw [hlexeme.kind_unique (Lexeme.symbol .equal)] at hop
  cases hop

end operators

lemma plain_form {e : Expr} (he : e.Canonical) (hm : ∀ m ∈ e.marks, m.Plain) : e.form.Plain := by
  induction e with
  | literal v => exact Value.isWord_text (hm (.denoting v) List.mem_cons_self)
  | grouping e ih =>
    simp only [marks, List.forall_mem_cons, List.forall_mem_append] at hm
    exact ⟨by decide, ih he hm.2.1, trivial⟩
  | unary op e ih =>
    simp only [marks, List.forall_mem_cons] at hm
    exact ⟨isWord_unary hm.1 he.1, ih he.2.2 hm.2, trivial⟩
  | binary l op r ihl ihr =>
    simp only [marks, List.forall_mem_cons, List.forall_mem_append] at hm
    obtain ⟨p, hop, -, -, hl, hr⟩ := he
    exact ⟨isWord_binary hm.2.1 hop, ihl hl hm.1, ihr hr hm.2.2, trivial⟩
  | ref name => exact isWord_name (hm (.exactly name) List.mem_cons_self) he
  | assign name e ih =>
    simp only [marks, List.forall_mem_cons] at hm
    exact ⟨by decide, isWord_name hm.1 he.1, ih he.2 hm.2.2, trivial⟩

lemma form_injective {e e' : Expr} (he : e.Canonical) (he' : e'.Canonical)
    (hm : ∀ m ∈ e.marks, m.Plain) (hm' : ∀ m ∈ e'.marks, m.Plain) (h : e.form = e'.form) :
    e.withoutLines = e'.withoutLines := by
  -- forms of different shapes differ in their heads or in how many arguments these have
  induction e generalizing e' with
  | literal v =>
    have hv : v.Plain := hm (.denoting v) List.mem_cons_self
    cases e' with
    | literal v' =>
      have hv' : v'.Plain := hm' (.denoting v') List.mem_cons_self
      rw [Value.text_injective hv hv' (PrefixForm.word.inj h)]
    | ref name =>
      have hname : name.Spelled := hm' (.exactly name) List.mem_cons_self
      exact absurd (PrefixForm.word.inj h) (Value.text_ne_name hv hname he')
    | _ => cases h
  | grouping e ih =>
    simp only [marks, List.forall_mem_cons, List.forall_mem_append] at hm
    cases e' with
    | grouping inner =>
      have hinner : inner.Canonical := he'
      simp only [marks, List.forall_mem_cons, List.forall_mem_append] at hm'
      simp only [form, PrefixForm.apply.injEq, List.cons.injEq, and_true, true_and] at h
      rw [withoutLines, withoutLines, ih he hinner hm.2.1 hm'.2.1 h]
    | unary op e' =>
      have hop : op.Spelled := hm' (.exactly op) List.mem_cons_self
      exact absurd (PrefixForm.apply.inj h).1.symm (unary_ne_group hop he'.1)
    | _ => simp [form] at h
  | unary op e ih =>
    simp only [marks, List.forall_mem_cons] at hm
    cases e' with
    | grouping e' => exact absurd (PrefixForm.apply.inj h).1 (unary_ne_group hm.1 he.1)
    | unary op' e' =>
      simp only [marks, List.forall_mem_cons] at hm'
      simp only [form, PrefixForm.apply.injEq, List.cons.injEq, and_true] at h
      rw [withoutLines, withoutLines, hm.1.withoutLine_eq hm'.1 h.1,
        ih he.2.2 he'.2.2 hm.2 hm'.2 h.2]
    | _ => simp [form] at h
  | binary l op r ihl ihr =>
    simp only [marks, List.forall_mem_cons, List.forall_mem_append] at hm
    obtain ⟨p, hop, -, -, hl, hr⟩ := he
    cases e' with
    | binary l' op' r' =>
      simp only [marks, List.forall_mem_cons, List.forall_mem_append] at hm'
      obtain ⟨p', hop', -, -, hl', hr'⟩ := he'
      simp only [form, PrefixForm.apply.injEq, List.cons.injEq, and_true] at h
      rw [withoutLines, withoutLines, hm.2.1.withoutLine_eq hm'.2.1 h.1,
        ihl hl hl' hm.1 hm'.1 h.2.1, ihr hr hr' hm.2.2 hm'.2.2 h.2.2]
    | assign name e' =>
      exact absurd (PrefixForm.apply.inj h).1 (binary_ne_equal hm.2.1 hop)
    | _ => simp [form] at h
  | ref name =>
    have hname : name.Spelled := hm (.exactly name) List.mem_cons_self
    cases e' with
    | literal v' =>
      have hv' : v'.Plain := hm' (.denoting v') List.mem_cons_self
      exact absurd (PrefixForm.word.inj h).symm (Value.text_ne_name hv' hname he)
    | ref name' =>
      have hname' : name'.Spelled := hm' (.exactly name') List.mem_cons_self
      rw [withoutLines, withoutLines, hname.withoutLine_eq hname' (PrefixForm.word.inj h)]
    | _ => cases h
  | assign name e ih =>
    simp only [marks, List.forall_mem_cons] at hm
    cases e' with
    | binary l' op' r' =>
      simp only [marks, List.forall_mem_cons, List.forall_mem_append] at hm'
      obtain ⟨p', hop', -⟩ := he'
      exact absurd (PrefixForm.apply.inj h).1.symm (binary_ne_equal hm'.2.1 hop')
    | assign name' e' =>
      simp only [marks, List.forall_mem_cons] at hm'
      simp only [form, PrefixForm.apply.injEq, List.cons.injEq, PrefixForm.word.injEq, and_true,
        true_and] at h
      rw [withoutLines, withoutLines, hm.1.withoutLine_eq hm'.1 h.1,
        ih he.2 he'.2 hm.2.2 hm'.2.2 h.2]
    | _ => simp [form] at h

end Expr

namespace Stmt

mutual

def withoutLines : Stmt → Stmt
  | expr e => expr e.withoutLines
  | print keyword e => print keyword.withoutLine e.withoutLines
  | declare name init => declare name.withoutLine (init.map Expr.withoutLines)
  | block body => block (withoutLinesAll body)
  | ifThen condition yes => ifThen condition.withoutLines yes.withoutLines
  | ifElse condition yes no =>
    ifElse condition.withoutLines yes.withoutLines no.withoutLines
  | whileDo condition body => whileDo condition.withoutLines body.withoutLines

def withoutLinesAll : List Stmt → List Stmt
  | [] => []
  | s :: rest => s.withoutLines :: withoutLinesAll rest

end

/-- A declared value stands behind an equals sign. -/
def initForms : Option Expr → List PrefixForm
  | none => []
  | some e => [.word "=", e.form]

mutual

def form : Stmt → PrefixForm
  | expr e => .apply ";" [e.form]
  | print _ e => .apply "print" [e.form]
  | declare name init => .apply "var" (.word name.lexeme :: initForms init)
  | block body => .apply "block" (forms body)
  | ifThen condition yes => .apply "if" [condition.form, yes.form]
  | ifElse condition yes no => .apply "if" [condition.form, yes.form, no.form]
  | whileDo condition body => .apply "while" [condition.form, body.form]

def forms : List Stmt → List PrefixForm
  | [] => []
  | s :: rest => s.form :: forms rest

end

mutual

lemma chars_form (s : Stmt) : s.form.chars = s.text.toList := by
  cases s with
  | expr e => simp [form, text, PrefixForm.chars, PrefixForm.argsChars, Expr.chars_form]
  | print keyword e => simp [form, text, PrefixForm.chars, PrefixForm.argsChars, Expr.chars_form]
  | declare name init =>
    cases init with
    | none => simp [form, initForms, text, PrefixForm.chars, PrefixForm.argsChars]
    | some e =>
      simp [form, initForms, text, PrefixForm.chars, PrefixForm.argsChars, Expr.chars_form]
  | block body => simp [form, text, PrefixForm.chars, argsChars_forms body]
  | ifThen condition yes =>
    simp [form, text, PrefixForm.chars, PrefixForm.argsChars, Expr.chars_form, chars_form yes]
  | ifElse condition yes no =>
    simp [form, text, PrefixForm.chars, PrefixForm.argsChars, Expr.chars_form, chars_form yes,
      chars_form no]
  | whileDo condition body =>
    simp [form, text, PrefixForm.chars, PrefixForm.argsChars, Expr.chars_form, chars_form body]

lemma argsChars_forms (ss : List Stmt) :
    PrefixForm.argsChars (forms ss) = (textAll ss).toList ++ [')'] := by
  cases ss with
  | nil => rfl
  | cons s rest =>
    simp [forms, textAll, PrefixForm.argsChars, chars_form s, argsChars_forms rest]

end

mutual

lemma plain_form {s : Stmt} (hs : s.Canonical) (hm : ∀ m ∈ s.marks, m.Plain) : s.form.Plain := by
  cases s with
  | expr e =>
    simp only [marks, List.forall_mem_append] at hm
    exact ⟨by decide, Expr.plain_form hs hm.1, trivial⟩
  | print keyword e =>
    simp only [marks, List.forall_mem_cons, List.forall_mem_append] at hm
    obtain ⟨-, he, -⟩ := hm
    exact ⟨by decide, Expr.plain_form hs.2 he, trivial⟩
  | declare name init =>
    cases init with
    | none =>
      simp only [marks, List.forall_mem_cons] at hm
      obtain ⟨-, hname, -⟩ := hm
      exact ⟨by decide, Expr.isWord_name hname hs, trivial⟩
    | some e =>
      simp only [marks, List.forall_mem_cons, List.forall_mem_append] at hm
      obtain ⟨-, hname, -, he, -⟩ := hm
      have hequal : IsWord "=" := by decide
      exact ⟨by decide, Expr.isWord_name hname hs.1, hequal, Expr.plain_form hs.2 he, trivial⟩
  | block body =>
    simp only [marks, List.forall_mem_cons, List.forall_mem_append] at hm
    obtain ⟨-, hbody, -⟩ := hm
    exact ⟨by decide, plainAll_forms hs hbody⟩
  | ifThen condition yes =>
    obtain ⟨hc, hy, -⟩ := hs
    simp only [marks, List.forall_mem_cons, List.forall_mem_append] at hm
    obtain ⟨-, -, hcondition, -, hyes⟩ := hm
    exact ⟨by decide, Expr.plain_form hc hcondition, plain_form hy hyes, trivial⟩
  | ifElse condition yes no =>
    obtain ⟨hc, hy, -, -, hn, -⟩ := hs
    simp only [marks, List.forall_mem_cons, List.forall_mem_append] at hm
    obtain ⟨-, -, hcondition, -, hyes, -, hno⟩ := hm
    exact ⟨by decide, Expr.plain_form hc hcondition, plain_form hy hyes, plain_form hn hno, trivial⟩
  | whileDo condition body =>
    obtain ⟨hc, hb, -⟩ := hs
    simp only [marks, List.forall_mem_cons, List.forall_mem_append] at hm
    obtain ⟨-, -, hcondition, -, hbody⟩ := hm
    exact ⟨by decide, Expr.plain_form hc hcondition, plain_form hb hbody, trivial⟩

lemma plainAll_forms {ss : List Stmt} (hs : CanonicalAll ss) (hm : ∀ m ∈ marksAll ss, m.Plain) :
    PrefixForm.PlainAll (forms ss) := by
  cases ss with
  | nil => trivial
  | cons s rest =>
    simp only [marksAll, List.forall_mem_append] at hm
    exact ⟨plain_form hs.1 hm.1, plainAll_forms hs.2 hm.2⟩

end

lemma form_declare_injective {name name' : Token} {init init' : Option Expr}
    (hs : (declare name init).Canonical) (hs' : (declare name' init').Canonical)
    (hm : ∀ m ∈ (declare name init).marks, m.Plain)
    (hm' : ∀ m ∈ (declare name' init').marks, m.Plain)
    (h : (declare name init).form = (declare name' init').form) :
    (declare name init).withoutLines = (declare name' init').withoutLines := by
  simp only [form, PrefixForm.apply.injEq, List.cons.injEq, PrefixForm.word.injEq, true_and] at h
  obtain ⟨hlexeme, hinit⟩ := h
  cases init with
  | none =>
    cases init' with
    | none =>
      simp only [marks, List.forall_mem_cons] at hm hm'
      rw [withoutLines, withoutLines, hm.2.1.withoutLine_eq hm'.2.1 hlexeme]
    | some e' => cases hinit
  | some e =>
    cases init' with
    | none => cases hinit
    | some e' =>
      simp only [marks, List.forall_mem_cons, List.forall_mem_append] at hm hm'
      obtain ⟨-, hname, -, he, -⟩ := hm
      obtain ⟨-, hname', -, he', -⟩ := hm'
      simp only [initForms, List.cons.injEq, and_true, true_and] at hinit
      rw [withoutLines, withoutLines, hname.withoutLine_eq hname' hlexeme, Option.map_some,
        Option.map_some, Expr.form_injective hs.2 hs'.2 he he' hinit]

mutual

lemma form_injective {s s' : Stmt} (hs : s.Canonical) (hs' : s'.Canonical)
    (hm : ∀ m ∈ s.marks, m.Plain) (hm' : ∀ m ∈ s'.marks, m.Plain) (h : s.form = s'.form) :
    s.withoutLines = s'.withoutLines := by
  cases s with
  | declare name init =>
    cases s' with
    | declare name' init' => exact form_declare_injective hs hs' hm hm' h
    | _ => simp [form] at h
  | expr e =>
    cases s' with
    | expr e' =>
      simp only [marks, List.forall_mem_append] at hm hm'
      simp only [form, PrefixForm.apply.injEq, List.cons.injEq, and_true, true_and] at h
      rw [withoutLines, withoutLines, Expr.form_injective hs hs' hm.1 hm'.1 h]
    | _ => simp [form] at h
  | print keyword e =>
    cases s' with
    | print keyword' e' =>
      simp only [marks, List.forall_mem_cons, List.forall_mem_append] at hm hm'
      obtain ⟨hkeyword, he, -⟩ := hm
      obtain ⟨hkeyword', he', -⟩ := hm'
      have hlexeme : keyword.lexeme = keyword'.lexeme := by
        rw [hkeyword.lexeme_keyword hs.1, hkeyword'.lexeme_keyword hs'.1]
      simp only [form, PrefixForm.apply.injEq, List.cons.injEq, and_true, true_and] at h
      rw [withoutLines, withoutLines, hkeyword.withoutLine_eq hkeyword' hlexeme,
        Expr.form_injective hs.2 hs'.2 he he' h]
    | _ => simp [form] at h
  | block body =>
    cases s' with
    | block body' =>
      simp only [marks, List.forall_mem_cons, List.forall_mem_append] at hm hm'
      simp only [form, PrefixForm.apply.injEq, true_and] at h
      rw [withoutLines, withoutLines, forms_injective hs hs' hm.2.1 hm'.2.1 h]
    | _ => simp [form] at h
  | ifThen condition yes =>
    cases s' with
    | ifThen condition' yes' =>
      obtain ⟨hc, hy, -⟩ := hs
      obtain ⟨hc', hy', -⟩ := hs'
      simp only [marks, List.forall_mem_cons, List.forall_mem_append] at hm hm'
      obtain ⟨-, -, hcondition, -, hyes⟩ := hm
      obtain ⟨-, -, hcondition', -, hyes'⟩ := hm'
      simp only [form, PrefixForm.apply.injEq, List.cons.injEq, and_true, true_and] at h
      rw [withoutLines, withoutLines, Expr.form_injective hc hc' hcondition hcondition' h.1,
        form_injective hy hy' hyes hyes' h.2]
    | _ => simp [form] at h
  | ifElse condition yes no =>
    cases s' with
    | ifElse condition' yes' no' =>
      obtain ⟨hc, hy, -, -, hn, -⟩ := hs
      obtain ⟨hc', hy', -, -, hn', -⟩ := hs'
      simp only [marks, List.forall_mem_cons, List.forall_mem_append] at hm hm'
      obtain ⟨-, -, hcondition, -, hyes, -, hno⟩ := hm
      obtain ⟨-, -, hcondition', -, hyes', -, hno'⟩ := hm'
      simp only [form, PrefixForm.apply.injEq, List.cons.injEq, and_true, true_and] at h
      rw [withoutLines, withoutLines, Expr.form_injective hc hc' hcondition hcondition' h.1,
        form_injective hy hy' hyes hyes' h.2.1, form_injective hn hn' hno hno' h.2.2]
    | _ => simp [form] at h
  | whileDo condition body =>
    cases s' with
    | whileDo condition' body' =>
      obtain ⟨hc, hb, -⟩ := hs
      obtain ⟨hc', hb', -⟩ := hs'
      simp only [marks, List.forall_mem_cons, List.forall_mem_append] at hm hm'
      obtain ⟨-, -, hcondition, -, hbody⟩ := hm
      obtain ⟨-, -, hcondition', -, hbody'⟩ := hm'
      simp only [form, PrefixForm.apply.injEq, List.cons.injEq, and_true, true_and] at h
      rw [withoutLines, withoutLines, Expr.form_injective hc hc' hcondition hcondition' h.1,
        form_injective hb hb' hbody hbody' h.2]
    | _ => simp [form] at h

lemma forms_injective {ss ss' : List Stmt} (hs : CanonicalAll ss) (hs' : CanonicalAll ss')
    (hm : ∀ m ∈ marksAll ss, m.Plain) (hm' : ∀ m ∈ marksAll ss', m.Plain)
    (h : forms ss = forms ss') : withoutLinesAll ss = withoutLinesAll ss' := by
  cases ss with
  | nil =>
    cases ss' with
    | nil => rfl
    | cons s' rest' => cases h
  | cons s rest =>
    cases ss' with
    | nil => cases h
    | cons s' rest' =>
      simp only [marksAll, List.forall_mem_append] at hm hm'
      simp only [forms, List.cons.injEq] at h
      rw [withoutLinesAll, withoutLinesAll, form_injective hs.1 hs'.1 hm.1 hm'.1 h.1,
        forms_injective hs.2 hs'.2 hm.2 hm'.2 h.2]

end

lemma forms_eq_of_text {ss ss' : List Stmt} (hs : CanonicalAll ss) (hs' : CanonicalAll ss')
    (hm : ∀ m ∈ marksAll ss, m.Plain) (hm' : ∀ m ∈ marksAll ss', m.Plain)
    (h : ss.map text = ss'.map text) : forms ss = forms ss' := by
  induction ss generalizing ss' with
  | nil =>
    rw [List.map_nil] at h
    rw [List.map_eq_nil_iff.mp h.symm]
  | cons s rest ih =>
    cases ss' with
    | nil => cases h
    | cons s' rest' =>
      obtain ⟨htext, hrest⟩ := List.cons.inj h
      simp only [marksAll, List.forall_mem_append] at hm hm'
      have hform : s.form = s'.form := by
        apply PrefixForm.chars_injective (plain_form hs.1 hm.1) (plain_form hs'.1 hm'.1)
        rw [chars_form, chars_form, htext]
      rw [forms, forms, hform, ih hs.2 hs'.2 hm.2 hm'.2 hrest]

end Stmt

def Value.isInfinite : Value → Bool
  | .number x => (Number.form x matches .infinite _)
  | _ => false

/-- A source without errors, in which no string stands and no number that is read as an infinity. -/
structure Unambiguous (source : String) : Prop where
  scans : (scan source).errors = []
  parses : (parse (scan source).tokens).errors = []
  noString : ∀ t ∈ (scan source).tokens, t.kind ≠ .string
  noInfinity : ∀ t ∈ (scan source).tokens, t.literal.any Value.isInfinite = false

lemma plain_numberValue {text : List Char}
    (h : (Value.number (Piece.numberValue text)).isInfinite = false) :
    (Value.number (Piece.numberValue text)).Plain := by
  change Number.IsFinite _
  unfold Value.isInfinite at h
  cases hform : Number.form (Piece.numberValue text) with
  | nan => exact absurd hform (Number.form_ofDigits_ne_nan _ _)
  | infinite negative => simp [hform] at h
  | finite negative significand exponent => exact ⟨negative, significand, exponent, hform⟩

lemma Mark.plain_of_fits {x : Mark} {t : Token} (ht : t.Spelled) (hstring : t.kind ≠ .string)
    (hinfinite : t.literal.any Value.isInfinite = false) (h : x.Fits t) : x.Plain := by
  cases x with
  | kind k => trivial
  | exactly kept => exact (h : t = kept) ▸ ht
  | denoting v =>
    have hdenotes : t.denotes? = some v := h
    unfold Token.denotes? at hdenotes
    split at hdenotes
    · cases hdenotes
      trivial
    · cases hdenotes
      trivial
    · cases hdenotes
      trivial
    · rename_i hnumber
      have hliteral := ht.literal
      rw [hnumber] at hliteral
      rw [hliteral] at hdenotes hinfinite
      cases hdenotes
      exact plain_numberValue hinfinite
    · rename_i hkind
      exact absurd hkind hstring
    · cases hdenotes

lemma Written.forall_plain {marks : List Mark} {ts : List Token} (h : Written marks ts)
    (hts : ∀ t ∈ ts, ∀ x : Mark, x.Fits t → x.Plain) : ∀ x ∈ marks, x.Plain := by
  induction h with
  | nil => simp
  | @cons x t marks ts hfits _ ih =>
    obtain ⟨ht, hrest⟩ := List.forall_mem_cons.mp hts
    exact List.forall_mem_cons.mpr ⟨ht x hfits, ih hrest⟩

lemma Unambiguous.plain_marks {source : String} (h : Unambiguous source) :
    ∀ x ∈ Stmt.marksAll (parse (scan source).tokens).statements, x.Plain := by
  refine (readStmts_parse h.parses).written.forall_plain (fun t ht x hx => ?_)
  have hmem : t ∈ (scan source).tokens := (List.takeWhile_sublist _).subset ht
  exact Mark.plain_of_fits (spelled_of_mem_scan ht) (h.noString t hmem) (h.noInfinity t hmem) hx

/-- Unambiguous sources whose statements are printed alike have the same statements, but for the
lines of their tokens. -/
theorem parse_printed_unique {a b : String} (ha : Unambiguous a) (hb : Unambiguous b)
    (h : (parse (scan a).tokens).statements.map Stmt.text =
      (parse (scan b).tokens).statements.map Stmt.text) :
    Stmt.withoutLinesAll (parse (scan a).tokens).statements =
      Stmt.withoutLinesAll (parse (scan b).tokens).statements := by
  have hcan := (readStmts_parse ha.parses).canonical
  have hcan' := (readStmts_parse hb.parses).canonical
  have hforms := Stmt.forms_eq_of_text hcan hcan' ha.plain_marks hb.plain_marks h
  exact Stmt.forms_injective hcan hcan' ha.plain_marks hb.plain_marks hforms

theorem parse_printed_unique_layout :
    let a := "if (!a)\n  b = -2.50;"
    let b := "if(!a)b=- 2.5;"
    Unambiguous a ∧ Unambiguous b ∧
      (parse (scan a).tokens).statements.map Stmt.text = ["(if (! a) (; (= b (- 2.5))))"] ∧
      (parse (scan b).tokens).statements.map Stmt.text = ["(if (! a) (; (= b (- 2.5))))"] ∧
      Stmt.withoutLinesAll (parse (scan a).tokens).statements =
        Stmt.withoutLinesAll (parse (scan b).tokens).statements := by
  intro a b
  have ha : Unambiguous a :=
    ⟨by decide +kernel, by decide +kernel, by decide +kernel, by decide +kernel⟩
  have hb : Unambiguous b :=
    ⟨by decide +kernel, by decide +kernel, by decide +kernel, by decide +kernel⟩
  have htext : (parse (scan a).tokens).statements.map Stmt.text =
      ["(if (! a) (; (= b (- 2.5))))"] := by decide +kernel
  have htext' : (parse (scan b).tokens).statements.map Stmt.text =
      ["(if (! a) (; (= b (- 2.5))))"] := by decide +kernel
  exact ⟨ha, hb, htext, htext', parse_printed_unique ha hb (htext.trans htext'.symm)⟩

end Scriptlet
