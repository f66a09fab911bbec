import CellScript.Syntax.Tree

/-!
# Agreement of trees

Two trees agree when they have the same shape, lines and contents. How a place is used and the
identities of definitions do not count. Doubles are compared as numbers.
-/

namespace CellScript

mutual

/-- Whether two expressions agree. -/
def Expr.agrees : Expr → Expr → Bool
  | .integer a l, .integer b m => a == b && l == m
  | .real a l, .real b m => a == b && l == m
  | .string a l, .string b m => a == b && l == m
  | .boolean a l, .boolean b m => a == b && l == m
  | .undefined l, .undefined m => l == m
  | .color cs l, .color ds m => Expr.agreesList cs ds && l == m
  | .vector a b l, .vector c d m => a.agrees c && b.agrees d && l == m
  | .list cs l, .list ds m => Expr.agreesList cs ds && l == m
  | .name a _ l, .name b _ m => a == b && l == m
  | .member t a _ l, .member u b _ m => t.agrees u && a == b && l == m
  | .index a b _ l, .index c d _ m => a.agrees c && b.agrees d && l == m
  | .call f as l, .call g bs m => f.agrees g && Expr.agreesList as bs && l == m
  | .new t as l, .new u bs m => t == u && Expr.agreesList as bs && l == m
  | .negate a l, .negate b m => a.agrees b && l == m
  | .not a l, .not b m => a.agrees b && l == m
  | .preIncrement a d l, .preIncrement b e m => a.agrees b && d == e && l == m
  | .postIncrement a d l, .postIncrement b e m => a.agrees b && d == e && l == m
  | .arithmetic o a b l, .arithmetic p c d m => o == p && a.agrees c && b.agrees d && l == m
  | .relational o a b l, .relational p c d m => o == p && a.agrees c && b.agrees d && l == m
  | .logical o a b l, .logical p c d m => o == p && a.agrees c && b.agrees d && l == m
  | _, _ => false

/-- Whether two lists of expressions agree. -/
def Expr.agreesList : List Expr → List Expr → Bool
  | [], [] => true
  | a :: as, b :: bs => a.agrees b && Expr.agreesList as bs
  | _, _ => false

end

/-- Whether two optional expressions agree. -/
def Expr.agreesOption : Option Expr → Option Expr → Bool
  | none, none => true
  | some a, some b => a.agrees b
  | _, _ => false

mutual

/-- Whether two statements agree. -/
def Stmt.agrees : Stmt → Stmt → Bool
  | .expression a, .expression b => a.agrees b
  | .assign a b l, .assign c d m => a.agrees c && b.agrees d && l == m
  | .update o a b l, .update p c d m => o == p && a.agrees c && b.agrees d && l == m
  | .realize t ss l, .realize u rs m => t == u && Stmt.agreesList ss rs && l == m
  | .nop l, .nop m => l == m
  | .include p ss l, .include q rs m => p == q && Stmt.agreesList ss rs && l == m
  | .block ss l, .block rs m => Stmt.agreesList ss rs && l == m
  | .branch c s t l, .branch d r u m =>
    c.agrees d && s.agrees r && Stmt.agreesOption t u && l == m
  | .loop s l, .loop r m => s.agrees r && l == m
  | .whileLoop c s l, .whileLoop d r m => c.agrees d && s.agrees r && l == m
  | .doWhile c s l, .doWhile d r m => c.agrees d && s.agrees r && l == m
  | .forLoop i c p s l, .forLoop j d q r m =>
    i.agrees j && c.agrees d && p.agrees q && s.agrees r && l == m
  | .break l, .break m => l == m
  | .continue l, .continue m => l == m
  | .return a l, .return b m => Expr.agreesOption a b && l == m
  | .global a l, .global b m => a == b && l == m
  | .function f, .function g => FunctionDef.agrees f g
  | .classDef i a fs _ l, .classDef j b gs _ m =>
    i == j && a == b && FunctionDef.agreesList fs gs && l == m
  | _, _ => false

/-- Whether two lists of statements agree. -/
def Stmt.agreesList : List Stmt → List Stmt → Bool
  | [], [] => true
  | a :: as, b :: bs => a.agrees b && Stmt.agreesList as bs
  | _, _ => false

/-- Whether two optional statements agree. -/
def Stmt.agreesOption : Option Stmt → Option Stmt → Bool
  | none, none => true
  | some a, some b => a.agrees b
  | _, _ => false

/-- Whether two function definitions agree. -/
def FunctionDef.agrees : FunctionDef Stmt → FunctionDef Stmt → Bool
  | ⟨n, ps, ss, bl, _, l⟩, ⟨k, qs, rs, bm, _, m⟩ =>
    n == k && ps == qs && Stmt.agreesList ss rs && bl == bm && l == m

/-- Whether two lists of function definitions agree. -/
def FunctionDef.agreesList : List (FunctionDef Stmt) → List (FunctionDef Stmt) → Bool
  | [], [] => true
  | a :: as, b :: bs => FunctionDef.agrees a b && FunctionDef.agreesList as bs
  | _, _ => false

end

/-- Whether two scripts agree. -/
def Script.agrees (s t : Script) : Bool := Stmt.agreesList s.statements t.statements

end CellScript
