import CellScript.Proofs.Congruence.Basic

/-!
# The turns of a loop

The interpreter has a loop that asks before each turn and one that asks behind it. Of the loops that
have a condition it is said here in one way what they do before their body runs for the first time
(`Exec.entering`) and what they do between two turns of it (`Exec.betweenTurns`):

* `executeWith_loop`: a loop is entered, runs its body once and goes on from there;
* `afterBody_succ`: behind its body a loop ends if the body has left it; else it does what is
  between two turns, takes `continue` back and runs the body again.
-/

namespace CellScript

/-- The body of a loop that has a condition. -/
def Stmt.body? : Stmt → Option Stmt
  | .whileLoop _ body _ => some body
  | .doWhile _ body _ => some body
  | .forLoop _ _ _ body _ => some body
  | _ => none

namespace Exec

/-- What a loop does between two turns of its body: the step of a `for`, and then the condition. -/
def betweenTurns (self : Interp) : Stmt → Exec Bool
  | .whileLoop condition _ line => holds self condition line
  | .doWhile condition _ line => holds self condition line
  | .forLoop _ condition step _ line => do
    self.execute step
    if ← isRaised .loopExit then return false
    holds self condition line
  | _ => return true

/-- A loop that asks before each turn asks for the first time. -/
def askingFirst (condition : Exec Bool) : Exec Bool := do
  clear .ofBreak
  if ← isRaised .loopExit then return false
  condition

/-- What a loop does before its body is run for the first time. -/
def entering (self : Interp) : Stmt → Exec Bool
  | .whileLoop condition _ line => askingFirst (holds self condition line)
  | .doWhile _ _ _ => do
    clear .ofBreak
    return true
  | .forLoop init condition _ _ line => do
    self.execute init
    askingFirst (holds self condition line)
  | _ => return false

/-- A turn of a loop that asks before its body. -/
def turnBefore (condition : Exec Bool) (body next : Exec Unit) : Exec Bool := do
  if ← isRaised .loopExit then return false
  if !(← condition) then return false
  clear .ofContinue
  body
  if ← isRaised .loopExit then return false
  next
  return true

/-- A turn of a loop that asks behind its body. -/
def turnAfter (condition : Exec Bool) (body : Exec Unit) : Exec Bool := do
  clear .ofContinue
  body
  if ← isRaised .loopExit then return false
  condition

/-- What a loop does behind its body, with `n` turns left. -/
def afterBody (self : Interp) (n : Nat) : Stmt → Exec Unit
  | .whileLoop condition body line => do
    if ← isRaised .loopExit then return
    iterate n (turnBefore (holds self condition line) (self.execute body) (pure ()))
  | .doWhile condition body line => do
    if ← isRaised .loopExit then return
    if ← holds self condition line then
      iterate n (turnAfter (holds self condition line) (self.execute body))
  | .forLoop _ condition step body line => do
    if ← isRaised .loopExit then return
    self.execute step
    iterate n (turnBefore (holds self condition line) (self.execute body) (self.execute step))
  | _ => pure ()

theorem iterate_turnBefore (n : Nat) (condition : Exec Bool) (body next : Exec Unit) :
    iterate (n + 1) (turnBefore condition body next) = (do
      if ← isRaised .loopExit then return
      if ← condition then
        clear .ofContinue
        body
        if ← isRaised .loopExit then return
        next
        iterate n (turnBefore condition body next)) := by
  rw [iterate_succ]
  refine (bind_assoc ..).trans (bind_congr fun stop => ?_)
  cases stop with
  | true => rfl
  | false =>
    refine (bind_assoc ..).trans (bind_congr fun again => ?_)
    cases again with
    | false => rfl
    | true =>
      refine (bind_assoc ..).trans (bind_congr fun _ => (bind_assoc ..).trans (bind_congr fun _ =>
        (bind_assoc ..).trans (bind_congr fun stop => ?_)))
      cases stop with
      | true => rfl
      | false => exact (bind_assoc ..).trans (bind_congr fun _ => rfl)

theorem iterate_turnAfter (n : Nat) (condition : Exec Bool) (body : Exec Unit) :
    iterate (n + 1) (turnAfter condition body) = (do
      clear .ofContinue
      body
      if ← isRaised .loopExit then return
      if ← condition then iterate n (turnAfter condition body)) := by
  rw [iterate_succ]
  refine (bind_assoc ..).trans (bind_congr fun _ => (bind_assoc ..).trans (bind_congr fun _ =>
    (bind_assoc ..).trans (bind_congr fun stop => ?_)))
  cases stop with
  | true => rfl
  | false => rfl

theorem isRaised_bind_apply {α : Type} (f : Flags) (k : Bool → Exec α) (s : State) :
    (isRaised f >>= k) s = k (s.flags.meets f) s := rfl

/-- Between two runs of its body a loop does what is between two turns. -/
theorem afterBody_succ (self : Interp) (n : Nat) {loop body : Stmt}
    (h : loop.body? = some body) :
    afterBody self (n + 1) loop = (do
      if ← isRaised .loopExit then return
      if ← betweenTurns self loop then
        clear .ofContinue
        self.execute body
        afterBody self n loop) := by
  cases loop with
  | whileLoop condition body line =>
    cases h
    funext s
    simp only [afterBody, betweenTurns]
    rw [isRaised_bind_apply, isRaised_bind_apply, iterate_turnBefore]
    cases stop : s.flags.meets .loopExit with
    | true => rfl
    | false =>
      simp only [Bool.false_eq_true, if_false]
      rw [isRaised_bind_apply, stop]
      rfl
  | doWhile condition body line =>
    cases h
    simp only [afterBody, betweenTurns]
    rw [iterate_turnAfter]
  | forLoop init condition step body line =>
    cases h
    simp only [afterBody, betweenTurns]
    refine bind_congr fun stop => ?_
    cases stop with
    | true => rfl
    | false =>
      simp only [Bool.false_eq_true, if_false]
      rw [iterate_turnBefore, bind_assoc]
      refine bind_congr fun _ => (?_ : _ = _).trans (bind_assoc ..).symm
      refine bind_congr fun stop => ?_
      cases stop <;> rfl
  | _ => cases h

/-! ## Loops by their turns -/

theorem loopBefore_succ (n : Nat) (condition : Exec Bool) (body next : Exec Unit) :
    loopBefore (n + 1) condition body next = (do
      if ← askingFirst condition then
        clear .ofContinue
        body
        if ← isRaised .loopExit then pure () else
          next
          iterate n (turnBefore condition body next)
      clear .loopOwned) := by
  change (clear .ofBreak >>= fun _ =>
    iterate (n + 1) (turnBefore condition body next) >>= fun _ => clear .loopOwned) = _
  rw [iterate_turnBefore, askingFirst]
  simp only [bind_assoc]
  refine bind_congr fun _ => bind_congr fun stop => ?_
  cases stop with
  | true => rfl
  | false =>
    refine (bind_assoc ..).trans (bind_congr fun again => ?_)
    cases again with
    | false => rfl
    | true =>
      simp only [if_true, bind_assoc]
      refine bind_congr fun _ => bind_congr fun _ => bind_congr fun stop => ?_
      cases stop with
      | true => rfl
      | false => exact bind_assoc ..

theorem loopAfter_succ (n : Nat) (condition : Exec Bool) (body : Exec Unit) :
    loopAfter (n + 1) condition body = (do
      clear .ofBreak
      clear .ofContinue
      body
      if ← isRaised .loopExit then pure () else
        if ← condition then iterate n (turnAfter condition body)
      clear .loopOwned) := by
  change (clear .ofBreak >>= fun _ =>
    iterate (n + 1) (turnAfter condition body) >>= fun _ => clear .loopOwned) = _
  rw [iterate_turnAfter]
  simp only [bind_assoc]
  refine bind_congr fun _ => bind_congr fun _ => bind_congr fun _ => bind_congr fun stop => ?_
  cases stop with
  | true => rfl
  | false => exact (bind_assoc ..).trans (bind_congr fun again => by cases again <;> rfl)

/-- A loop is entered and runs its body once, and goes on from there. -/
theorem executeWith_loop (self : Interp) (n : Nat) {loop body : Stmt}
    (h : loop.body? = some body) :
    executeWith (n + 1) self loop = inBlock (do
      if ← entering self loop then
        clear .ofContinue
        self.execute body
        afterBody self n loop
      clear .loopOwned) := by
  cases loop with
  | whileLoop condition body line =>
    cases h
    refine congrArg inBlock ((loopBefore_succ n _ _ (pure ())).trans ?_)
    refine bind_congr fun first => ?_
    cases first with
    | false => rfl
    | true =>
      simp only [if_true, afterBody, bind_assoc, pure_bind]
      refine bind_congr fun _ => bind_congr fun _ => bind_congr fun stop => ?_
      cases stop <;> rfl
  | doWhile condition body line =>
    cases h
    refine congrArg inBlock ?_
    refine (loopAfter_succ n _ _).trans ?_
    simp only [entering, bind_assoc, pure_bind, if_true, afterBody]
    refine bind_congr fun _ => bind_congr fun _ => bind_congr fun _ => bind_congr fun stop => ?_
    cases stop with
    | true => rfl
    | false => exact (bind_congr fun again => by cases again <;> rfl).trans (bind_assoc ..).symm
  | forLoop init condition step body line =>
    cases h
    refine congrArg inBlock ((bind_congr fun _ => loopBefore_succ n _ _ _).trans ?_)
    refine (bind_assoc ..).symm.trans (bind_congr fun first => ?_)
    cases first with
    | false => rfl
    | true =>
      simp only [if_true, afterBody, bind_assoc]
      refine bind_congr fun _ => bind_congr fun _ => bind_congr fun stop => ?_
      cases stop with
      | true => rfl
      | false => exact (bind_assoc ..).symm
  | _ => cases h

end Exec

end CellScript
