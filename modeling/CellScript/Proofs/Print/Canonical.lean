import CellScript.Proofs.Print.Spelling

/-!
# Trees that can be printed

Not every tree is the tree of a text: names are names, numbers are not negative, colors have one,
three or four components, only places are incremented, and an `else` belongs to the nearest `if`
without one. A canonical tree keeps these rules, and it has no includes and no reals.

* `Expr.located`, `Expr.asOperand`: a place as it was read, and as an operand;
* `Expr.Canonical`, `Stmt.Canonical`: the trees that can be printed;
* `Expr.Canonical.inner`: an expression is printed in lexemes that are scanned back;
* `Stmt.endsOpen`: an `else` behind the statement would become part of it;
* `Stmt.Row`: statements in a row that can be printed.
-/

namespace CellScript

/-! ## Expressions -/

namespace Expr

/-- The expression as it is read: a place is a location until it becomes an operand. -/
def located : Expr → Expr
  | name n _ l => name n .location l
  | member t n _ l => member t n .location l
  | index t i _ l => index t i .location l
  | e => e

/-- An operand: no place that would be made when it is missing. -/
def IsOperand (e : Expr) : Prop := e.asOperand = e

/-- An expression as it is read. -/
def IsLocated (e : Expr) : Prop := e.located = e

/-- The expressions that can be printed. -/
inductive Canonical : Expr → Prop
  | integer {v : Nat} {l : Nat} : Canonical (.integer v l)
  | string {s : String} {l : Nat} : Canonical (.string s l)
  | boolean {b : Bool} {l : Nat} : Canonical (.boolean b l)
  | undefined {l : Nat} : Canonical (.undefined l)
  | color {cs : List Expr} {l : Nat} : cs.length = 1 ∨ cs.length = 3 ∨ cs.length = 4 →
    (∀ c ∈ cs, c.IsOperand) → (∀ c ∈ cs, c.Canonical) → Canonical (.color cs l)
  | vector {x y : Expr} {l : Nat} : x.IsOperand → y.IsOperand → x.Canonical → y.Canonical →
    Canonical (.vector x y l)
  | list {es : List Expr} {l : Nat} : (∀ e ∈ es, e.IsOperand) → (∀ e ∈ es, e.Canonical) →
    Canonical (.list es l)
  | name {n : String} {u : Use} {l : Nat} : IsName n → Canonical (.name n u l)
  | member {t : Expr} {n : String} {u : Use} {l : Nat} : t.IsOperand → t.Canonical → IsName n →
    Canonical (.member t n u l)
  | index {t i : Expr} {u : Use} {l : Nat} : t.IsOperand → i.IsOperand → t.Canonical →
    i.Canonical → Canonical (.index t i u l)
  | call {f : Expr} {es : List Expr} {l : Nat} : f.IsOperand → (∀ e ∈ es, e.IsOperand) →
    f.Canonical → (∀ e ∈ es, e.Canonical) → Canonical (.call f es l)
  | new {t : String} {es : List Expr} {l : Nat} : IsName t → (∀ e ∈ es, e.IsOperand) →
    (∀ e ∈ es, e.Canonical) → Canonical (.new t es l)
  | negate {e : Expr} {l : Nat} : e.IsOperand → e.Canonical → Canonical (.negate e l)
  | not {e : Expr} {l : Nat} : e.IsOperand → e.Canonical → Canonical (.not e l)
  | preIncrement {e : Expr} {d : Direction} {l : Nat} : e.isLocation = true → e.Canonical →
    Canonical (.preIncrement e d l)
  | postIncrement {e : Expr} {d : Direction} {l : Nat} : e.isLocation = true → e.Canonical →
    Canonical (.postIncrement e d l)
  | arithmetic {op : ArithmeticOp} {a b : Expr} {l : Nat} : a.IsOperand → b.IsOperand →
    a.Canonical → b.Canonical → Canonical (.arithmetic op a b l)
  | relational {op : RelationalOp} {a b : Expr} {l : Nat} : a.IsOperand → b.IsOperand →
    a.Canonical → b.Canonical → Canonical (.relational op a b l)
  | logical {op : LogicalOp} {a b : Expr} {l : Nat} : a.IsOperand → b.IsOperand →
    a.Canonical → b.Canonical → Canonical (.logical op a b l)

theorem isOperand_asOperand (e : Expr) : e.asOperand.IsOperand := by cases e <;> rfl

theorem isOperand_of_mem_map {es : List Expr} {e : Expr} (h : e ∈ es.map Expr.asOperand) :
    e.IsOperand := by
  obtain ⟨e, -, rfl⟩ := List.mem_map.1 h
  exact isOperand_asOperand e

/-- How a place is used is not printed. -/
theorem Canonical.asOperand {e : Expr} (h : e.Canonical) : e.asOperand.Canonical := by
  cases e with
  | name =>
    cases h with
    | name hn => exact .name hn
  | member =>
    cases h with
    | member ht hc hn => exact .member ht hc hn
  | index =>
    cases h with
    | index ht hi hc hd => exact .index ht hi hc hd
  | _ => exact h

/-! ## Lexemes of expressions -/

theorem lexemes_ne_nil (e : Expr) : e.lexemes ≠ [] := by
  cases e <;> simp [lexemes, Lexeme.parens]

/-- The first token of an expression. -/
def opens : TokenKind → Bool
  | .ident | .integer | .string => true
  | .keyword .undefined | .keyword .true | .keyword .false | .keyword .new => true
  | .mark .bar | .mark .less | .mark .leftBracket | .mark .leftParen => true
  | .mark .sub | .mark .not | .mark .increment | .mark .decrement => true
  | _ => false

/-- The lexemes begin as an expression does. -/
def Opening (ls : List Lexeme) : Prop := ∃ l rest, ls = l :: rest ∧ opens l.kind = true

theorem Opening.append {ls : List Lexeme} (h : Opening ls) (more : List Lexeme) :
    Opening (ls ++ more) := by
  obtain ⟨l, rest, rfl, hl⟩ := h
  exact ⟨l, rest ++ more, rfl, hl⟩

theorem Opening.bracketed {ls : List Lexeme} (h : Opening ls) (needed : Bool) :
    Opening (Lexeme.bracketed needed ls) := by
  cases needed with
  | false => exact h
  | true => exact ⟨_, _, rfl, rfl⟩

theorem Canonical.opening {e : Expr} (h : e.Canonical) : Opening e.lexemes := by
  have first {l : Lexeme} {rest : List Lexeme} (hl : opens l.kind = true) : Opening (l :: rest) :=
    ⟨l, rest, rfl, hl⟩
  induction h with
  | integer | string | undefined | color | vector | list | name | new | negate | not =>
    exact first rfl
  | @boolean b => cases b <;> exact first rfl
  | @preIncrement _ d => cases d <;> exact first rfl
  | member _ _ _ ih => exact (ih.bracketed _).append _
  | index _ _ _ _ ih _ => exact (ih.bracketed _).append _
  | call _ _ _ _ ih _ => exact (ih.bracketed _).append _
  | postIncrement _ _ ih => exact (ih.bracketed _).append _
  | arithmetic _ _ _ _ ih _ => exact (ih.bracketed _).append _
  | relational _ _ _ _ ih _ => exact (ih.bracketed _).append _
  | logical _ _ _ _ ih _ => exact (ih.bracketed _).append _

/-- Lexemes that are scanned back, with no brace among them. -/
def Inner (ls : List Lexeme) : Prop := ∀ l ∈ ls, l.Spelled ∧ l.kind ≠ .mark .leftBrace

namespace Inner

variable {ls ms : List Lexeme}

theorem nil : Inner [] := nofun

theorem cons {l : Lexeme} (hl : l.Spelled) (hk : l.kind ≠ .mark .leftBrace) (h : Inner ls) :
    Inner (l :: ls) :=
  List.forall_mem_cons.2 ⟨⟨hl, hk⟩, h⟩

theorem append (h : Inner ls) (h' : Inner ms) : Inner (ls ++ ms) :=
  List.forall_mem_append.2 ⟨h, h'⟩

theorem mark {m : Mark} (hm : m ≠ .leftBrace) (h : Inner ls) : Inner (.mark m :: ls) :=
  cons (.mark m) (fun hk => hm (TokenKind.mark.inj hk)) h

theorem parens (h : Inner ls) : Inner (Lexeme.parens ls) :=
  mark nofun (h.append (mark nofun nil))

theorem bracketed (h : Inner ls) (needed : Bool) : Inner (Lexeme.bracketed needed ls) := by
  cases needed with
  | false => exact h
  | true => exact h.parens

theorem moreLexemes (level : Nat) {es : List Expr} (h : ∀ e ∈ es, Inner e.lexemes) :
    Inner (Expr.moreLexemes level es) := by
  induction es with
  | nil => exact nil
  | cons e es ih =>
    exact mark nofun (((h e List.mem_cons_self).bracketed _).append
      (ih fun e he => h e (List.mem_cons_of_mem _ he)))

theorem itemLexemes (level : Nat) {es : List Expr} (h : ∀ e ∈ es, Inner e.lexemes) :
    Inner (Expr.itemLexemes level es) := by
  cases es with
  | nil => exact nil
  | cons e es =>
    exact ((h e List.mem_cons_self).bracketed _).append
      (moreLexemes level fun e he => h e (List.mem_cons_of_mem _ he))

end Inner

theorem Canonical.inner {e : Expr} (h : e.Canonical) : Inner e.lexemes := by
  induction h with
  | integer => exact .cons (.integer _) nofun .nil
  | string => exact .cons (.string _) nofun .nil
  | boolean => exact .cons (.keyword _) nofun .nil
  | undefined => exact .cons (.keyword _) nofun .nil
  | color _ _ _ ih => exact .mark nofun ((Inner.itemLexemes 3 ih).append (.mark nofun .nil))
  | vector _ _ _ _ ihx ihy =>
    exact .mark nofun ((ihx.bracketed _).append
      (.mark nofun ((ihy.bracketed _).append (.mark nofun .nil))))
  | list _ _ ih => exact .mark nofun ((Inner.itemLexemes 0 ih).append (.mark nofun .nil))
  | name hn => exact .cons (.name hn) nofun .nil
  | member _ _ hn ih => exact (ih.bracketed _).append (.mark nofun (.cons (.name hn) nofun .nil))
  | index _ _ _ _ iht ihi =>
    exact (iht.bracketed _).append (.mark nofun (ihi.append (.mark nofun .nil)))
  | call _ _ _ _ ihf ih => exact (ihf.bracketed _).append (Inner.itemLexemes 0 ih).parens
  | new hn _ _ ih =>
    exact .cons (.keyword _) nofun (.cons (.name hn) nofun (Inner.itemLexemes 0 ih).parens)
  | negate _ _ ih => exact .mark nofun (ih.bracketed _)
  | not _ _ ih => exact .mark nofun (ih.bracketed _)
  | @preIncrement _ d _ _ _ ih => exact .mark (by cases d <;> exact nofun) (ih.bracketed _)
  | @postIncrement _ d _ _ _ ih =>
    exact (ih.bracketed _).append (.mark (by cases d <;> exact nofun) .nil)
  | @arithmetic op _ _ _ _ _ _ _ iha ihb =>
    exact (iha.bracketed _).append (.mark (by cases op <;> exact nofun) (ihb.bracketed _))
  | @relational op _ _ _ _ _ _ _ iha ihb =>
    exact (iha.bracketed _).append (.mark (by cases op <;> exact nofun) (ihb.bracketed _))
  | @logical op _ _ _ _ _ _ _ iha ihb =>
    exact (iha.bracketed _).append (.mark (by cases op <;> exact nofun) (ihb.bracketed _))

end Expr

/-! ## Statements -/

mutual

/-- Whether a statement ends with an `if` that an `else` behind it would belong to. -/
def Stmt.endsOpen : Stmt → Bool
  | .branch _ _ negative _ => Stmt.elseEndsOpen negative
  | .loop body _ => body.endsOpen
  | .whileLoop _ body _ => body.endsOpen
  | .forLoop _ _ _ body _ => body.endsOpen
  | _ => false

/-- Whether the second way of an `if` is missing or ends like that. -/
def Stmt.elseEndsOpen : Option Stmt → Bool
  | none => true
  | some s => s.endsOpen

end

namespace Stmt

/-- Whether a statement is the empty one. -/
def isNop : Stmt → Bool
  | .nop _ => true
  | _ => false

/-- Expressions and assignments that can be printed. -/
inductive Simple : Stmt → Prop
  | expression {e : Expr} : e.IsLocated → e.Canonical → Simple (.expression e)
  | assign {t v : Expr} {l : Nat} : t.isLocation = true → v.IsOperand → t.Canonical →
    v.Canonical → Simple (.assign t v l)
  | update {op : ArithmeticOp} {t v : Expr} {l : Nat} : t.isLocation = true → v.IsOperand →
    t.Canonical → v.Canonical → Simple (.update op t v l)

/-- The name of a function: a name, or `operator` with an operator behind it. -/
def IsFunctionName (n : String) : Prop :=
  IsName n ∨ ∃ m s, Parser.overloadable? (.mark m) = some s ∧ n = "operator" ++ s

/-- What is fixed in a definition whose body can be printed. -/
structure HasSignature (f : FunctionDef Stmt) : Prop where
  name : IsFunctionName f.name
  parameters : ∀ p ∈ f.parameters, IsName p
  distinct : f.parameters.Nodup
  body : ∀ s ∈ f.body, s.isNop = false

/-- The statements that can be printed. -/
inductive Canonical : Stmt → Prop
  | simple {s : Stmt} : s.Simple → Canonical s
  | nop {l : Nat} : Canonical (.nop l)
  | realize {t : String} {body : List Stmt} {l : Nat} : IsName t → (∀ s ∈ body, s.isNop = false) →
    (∀ s ∈ body, s.Canonical) → Canonical (.realize t body l)
  | block {body : List Stmt} {l : Nat} : (∀ s ∈ body, s.isNop = false) →
    (∀ s ∈ body, s.Canonical) → Canonical (.block body l)
  | branch {c : Expr} {positive : Stmt} {negative : Option Stmt} {l : Nat} : c.IsOperand →
    c.Canonical → (negative.isSome = true → positive.endsOpen = false) → positive.Canonical →
    (∀ s ∈ negative, s.Canonical) → Canonical (.branch c positive negative l)
  | loop {body : Stmt} {l : Nat} : body.Canonical → Canonical (.loop body l)
  | whileLoop {c : Expr} {body : Stmt} {l : Nat} : c.IsOperand → c.Canonical → body.Canonical →
    Canonical (.whileLoop c body l)
  | doWhile {c : Expr} {body : Stmt} {l : Nat} : c.IsOperand → c.Canonical → body.Canonical →
    Canonical (.doWhile c body l)
  | forLoop {init step body : Stmt} {c : Expr} {l : Nat} : (init.Simple ∨ init.isNop = true) →
    c.IsOperand → c.Canonical → (step.Simple ∨ step.isNop = true) → body.Canonical →
    Canonical (.forLoop init c step body l)
  | «break» {l : Nat} : Canonical (.break l)
  | «continue» {l : Nat} : Canonical (.continue l)
  | «return» {value : Option Expr} {l : Nat} : (∀ e ∈ value, e.IsOperand ∧ e.Canonical) →
    Canonical (.return value l)
  | global {n : String} {l : Nat} : IsName n → Canonical (.global n l)
  | function {f : FunctionDef Stmt} : HasSignature f → (∀ s ∈ f.body, s.Canonical) →
    Canonical (.function f)
  | classDef {isInstant : Bool} {n : String} {methods : List (FunctionDef Stmt)} {id : DefId}
    {l : Nat} : IsName n → (methods.map FunctionDef.name).Nodup → (∀ f ∈ methods, HasSignature f) →
    (∀ f ∈ methods, ∀ s ∈ f.body, s.Canonical) → Canonical (.classDef isInstant n methods id l)

/-- Statements in a row that can be printed: the empty statement gives no node. -/
structure Row (ss : List Stmt) : Prop where
  noNop : ∀ s ∈ ss, s.isNop = false
  canonical : ∀ s ∈ ss, s.Canonical

end Stmt

end CellScript
