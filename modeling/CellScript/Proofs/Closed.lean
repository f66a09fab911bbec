import CellScript.Context

/-!
# Programs whose jumps stay in their loops

A statement is closed when every `break` and `continue` in it has a loop to act on: a loop of the
same function body, the same realization and the same file. `Stmt.closed true` is for statements
that stand in such a loop already.

A state is sound when every program that it holds is closed and none of its functions belongs to a
host, and when it has a global scope. All that a run can call is then a closed script function or
one of the functions defined in `Eval.Library`.
-/

namespace CellScript

/-! ## Syntax -/

mutual

/-- Whether the jumps of a statement have a loop, given whether the statement stands in one. -/
def Stmt.closed (inLoop : Bool) : Stmt → Bool
  | .realize _ body _ => Stmt.closedAll false body
  | .include _ body _ => Stmt.closedAll false body
  | .block body _ => Stmt.closedAll inLoop body
  | .branch _ positive negative _ => positive.closed inLoop && Stmt.closedOption inLoop negative
  | .loop body _ => body.closed true
  | .whileLoop _ body _ => body.closed true
  | .doWhile _ body _ => body.closed true
  | .forLoop init _ step body _ => init.closed false && step.closed false && body.closed true
  | .break _ => inLoop
  | .continue _ => inLoop
  | .function f => FunctionDef.closed f
  | .classDef _ _ methods _ _ => FunctionDef.closedAll methods
  | _ => true

/-- Whether the jumps of all statements have a loop. -/
def Stmt.closedAll (inLoop : Bool) : List Stmt → Bool
  | [] => true
  | s :: ss => s.closed inLoop && Stmt.closedAll inLoop ss

/-- Whether the jumps of a statement, if there is one, have a loop. -/
def Stmt.closedOption (inLoop : Bool) : Option Stmt → Bool
  | none => true
  | some s => s.closed inLoop

/-- Whether the jumps in the body of a function have a loop there. -/
def FunctionDef.closed : FunctionDef Stmt → Bool
  | ⟨_, _, body, _, _, _⟩ => Stmt.closedAll false body

/-- Whether the jumps in the bodies of all functions have a loop there. -/
def FunctionDef.closedAll : List (FunctionDef Stmt) → Bool
  | [] => true
  | f :: fs => FunctionDef.closed f && FunctionDef.closedAll fs

end

theorem Stmt.closedAll_iff {inLoop : Bool} {ss : List Stmt} :
    Stmt.closedAll inLoop ss = true ↔ ∀ s ∈ ss, s.closed inLoop = true := by
  induction ss with
  | nil => simp [Stmt.closedAll]
  | cons s ss ih => simp [Stmt.closedAll, ih]

theorem FunctionDef.closed_eq (f : FunctionDef Stmt) : f.closed = Stmt.closedAll false f.body := by
  cases f
  rfl

theorem FunctionDef.closedAll_iff {fs : List (FunctionDef Stmt)} :
    FunctionDef.closedAll fs = true ↔ ∀ f ∈ fs, Stmt.closedAll false f.body = true := by
  induction fs with
  | nil => simp [FunctionDef.closedAll]
  | cons f fs ih => simp [FunctionDef.closedAll, FunctionDef.closed_eq, ih]

/-- A statement is one of the given ones or stands inside one of them, at any depth. -/
inductive Stmt.Among (st : Stmt) : List Stmt → Prop
  | here {ss : List Stmt} : Among st (st :: ss)
  | later {s : Stmt} {ss : List Stmt} : Among st ss → Among st (s :: ss)
  | realize {t : String} {body ss : List Stmt} {l : Nat} : Among st body →
    Among st (.realize t body l :: ss)
  | include {path : String} {body ss : List Stmt} {l : Nat} : Among st body →
    Among st (.include path body l :: ss)
  | block {body ss : List Stmt} {l : Nat} : Among st body → Among st (.block body l :: ss)
  | positive {e : Expr} {s : Stmt} {o : Option Stmt} {ss : List Stmt} {l : Nat} : Among st [s] →
    Among st (.branch e s o l :: ss)
  | negative {e : Expr} {s t : Stmt} {ss : List Stmt} {l : Nat} : Among st [t] →
    Among st (.branch e s (some t) l :: ss)
  | loop {s : Stmt} {ss : List Stmt} {l : Nat} : Among st [s] → Among st (.loop s l :: ss)
  | whileLoop {e : Expr} {s : Stmt} {ss : List Stmt} {l : Nat} : Among st [s] →
    Among st (.whileLoop e s l :: ss)
  | doWhile {e : Expr} {s : Stmt} {ss : List Stmt} {l : Nat} : Among st [s] →
    Among st (.doWhile e s l :: ss)
  | forLoop {e : Expr} {init step s : Stmt} {ss : List Stmt} {l : Nat} :
    Among st [init, step, s] → Among st (.forLoop init e step s l :: ss)
  | function {f : FunctionDef Stmt} {ss : List Stmt} : Among st f.body →
    Among st (.function f :: ss)
  | method {i : Bool} {name : String} {fs : List (FunctionDef Stmt)} {f : FunctionDef Stmt}
    {id : DefId} {ss : List Stmt} {l : Nat} : f ∈ fs → Among st f.body →
    Among st (.classDef i name fs id l :: ss)

/-- Every statement inside closed ones is closed, in a loop or not. -/
theorem Stmt.Among.closed {st : Stmt} {ss : List Stmt} (h : st.Among ss) :
    (∀ s ∈ ss, ∃ b, s.closed b = true) → ∃ b, st.closed b = true := by
  have each {b : Bool} {body : List Stmt} (hb : Stmt.closedAll b body = true) :
      ∀ s ∈ body, ∃ b, s.closed b = true := fun s hs => ⟨b, Stmt.closedAll_iff.1 hb s hs⟩
  induction h with
  | here => exact fun hs => hs st List.mem_cons_self
  | later _ ih => exact fun hs => ih fun s h => hs s (List.mem_cons_of_mem _ h)
  | realize _ ih | «include» _ ih | block _ ih =>
    intro hs
    obtain ⟨b, hb⟩ := hs _ List.mem_cons_self
    exact ih (each (by simpa only [Stmt.closed] using hb))
  | positive _ ih =>
    intro hs
    obtain ⟨b, hb⟩ := hs _ List.mem_cons_self
    simp only [Stmt.closed, Bool.and_eq_true] at hb
    exact ih (List.forall_mem_singleton.2 ⟨b, hb.1⟩)
  | negative _ ih =>
    intro hs
    obtain ⟨b, hb⟩ := hs _ List.mem_cons_self
    simp only [Stmt.closed, Stmt.closedOption, Bool.and_eq_true] at hb
    exact ih (List.forall_mem_singleton.2 ⟨b, hb.2⟩)
  | loop _ ih | whileLoop _ ih | doWhile _ ih =>
    intro hs
    obtain ⟨b, hb⟩ := hs _ List.mem_cons_self
    simp only [Stmt.closed] at hb
    exact ih (List.forall_mem_singleton.2 ⟨true, hb⟩)
  | forLoop _ ih =>
    intro hs
    obtain ⟨b, hb⟩ := hs _ List.mem_cons_self
    simp only [Stmt.closed, Bool.and_eq_true] at hb
    exact ih (List.forall_mem_cons.2 ⟨⟨false, hb.1.1⟩, List.forall_mem_cons.2
      ⟨⟨false, hb.1.2⟩, List.forall_mem_singleton.2 ⟨true, hb.2⟩⟩⟩)
  | function _ ih =>
    intro hs
    obtain ⟨b, hb⟩ := hs _ List.mem_cons_self
    simp only [Stmt.closed, FunctionDef.closed_eq] at hb
    exact ih (each hb)
  | method hf _ ih =>
    intro hs
    obtain ⟨b, hb⟩ := hs _ List.mem_cons_self
    simp only [Stmt.closed, FunctionDef.closedAll_iff] at hb
    exact ih (each (hb _ hf))

/-! ## Functions, types and values -/

/-- Whether a function is a closed one of a script or one of the language itself. -/
def Callable.closed : Callable → Bool
  | .script _ body _ => Stmt.closedAll false body
  | .host _ _ => false
  | _ => true

/-- All methods of the type are closed. -/
def ObjectType.Closed (t : ObjectType) : Prop := ∀ m ∈ t.methods.entries, m.2.closed = true

/-- What a value can call is closed. -/
def Value.Closed : Value → Prop
  | .function f _ => f.closed = true
  | .objectType t => t.Closed
  | _ => True

/-- Every program in the state is closed, and there is a global scope. -/
structure State.Sound (s : State) : Prop where
  cells : ∀ v ∈ s.store.cells, v.Closed
  types : ∀ scope ∈ s.globals, ∀ t ∈ scope.types.entries, t.2.Closed
  globals : s.globals ≠ []

/-! ## Entries of bindings -/

namespace Bindings

variable {α : Type}

theorem mem_of_lookup {name : String} {a : α} {xs : List (String × α)}
    (h : lookup name xs = some a) : (name, a) ∈ xs := by
  induction xs with
  | nil => simp [lookup] at h
  | cons x rest ih =>
    obtain ⟨n, y⟩ := x
    by_cases hn : n = name
    · simp only [lookup, hn, beq_self_eq_true, if_true, Option.some.injEq] at h
      simp [hn, h]
    · simp only [lookup, beq_iff_eq, hn, if_false] at h
      exact List.mem_cons_of_mem _ (ih h)

theorem contains_of_mem {name : String} {a : α} {b : Bindings α} (h : (name, a) ∈ b.entries) :
    b.contains name = true := by
  have go : ∀ xs : List (String × α), (name, a) ∈ xs → (lookup name xs).isSome = true := by
    intro xs
    induction xs with
    | nil => simp
    | cons x rest ih =>
      intro hx
      by_cases hn : x.1 = name
      · simp [lookup, hn]
      · have hrest : (name, a) ∈ rest := by
          rcases List.mem_cons.1 hx with rfl | hx
          · exact absurd rfl hn
          · exact hx
        simpa [lookup, hn] using ih hrest
  exact go b.entries h

/-- What stands in a table after a name was bound is the new entry or was there before. -/
theorem mem_put {name : String} {a : α} {xs : List (String × α)} {x : String × α}
    (h : x ∈ put name a xs) : x = (name, a) ∨ x ∈ xs := by
  induction xs with
  | nil => simpa [put] using h
  | cons y rest ih =>
    obtain ⟨n, b⟩ := y
    by_cases hn : n = name
    · simp only [put, hn, beq_self_eq_true, if_true, List.mem_cons] at h
      rcases h with h | h
      · exact Or.inl h
      · exact Or.inr (List.mem_cons_of_mem _ h)
    · simp only [put, beq_iff_eq, hn, if_false, List.mem_cons] at h
      rcases h with h | h
      · exact Or.inr (h ▸ List.mem_cons_self)
      · exact (ih h).imp_right (List.mem_cons_of_mem _)

/-- What stands in a table made of a list stands in the list. -/
theorem mem_ofList {xs : List (String × α)} {x : String × α} (h : x ∈ (ofList xs).entries) :
    x ∈ xs := by
  have go : ∀ (xs : List (String × α)) (b : Bindings α),
      x ∈ (xs.foldl (fun b y => b.insert y.1 y.2) b).entries → x ∈ xs ∨ x ∈ b.entries := by
    intro xs
    induction xs with
    | nil => exact fun b h => .inr h
    | cons y rest ih =>
      intro b h
      rcases ih _ h with h | h
      · exact .inl (List.mem_cons_of_mem _ h)
      · refine (mem_put h).imp_left ?_
        rintro rfl
        exact List.mem_cons_self
  exact (go xs .empty h).resolve_right (by simp [empty])

end Bindings

namespace State.Sound

variable {s : State}

/-- The value of a cell is closed. -/
theorem value (h : s.Sound) (c : Cell) : (s.store.get c).Closed := by
  unfold Store.get
  cases hv : s.store.cells[c.index]? with
  | none => exact trivial
  | some v => exact h.cells v (Array.mem_of_getElem? hv)

/-- The type of a name is closed. -/
theorem type (h : s.Sound) {name : String} {t : ObjectType} (ht : s.findType? name = some t) :
    t.Closed := by
  have go : ∀ scopes : List Scope, (∀ scope ∈ scopes, ∀ t ∈ scope.types.entries, t.2.Closed) →
      State.findTypeIn name scopes = some t → t.Closed := by
    intro scopes
    induction scopes with
    | nil => intro _ h; simp [State.findTypeIn] at h
    | cons scope below ih =>
      intro hs h
      unfold State.findTypeIn at h
      split at h
      · next u hu =>
        cases h
        exact hs scope List.mem_cons_self _ (Bindings.mem_of_lookup hu)
      · exact ih (fun sc hsc => hs sc (List.mem_cons_of_mem _ hsc)) h
  exact go s.globals h.types ht

end State.Sound

end CellScript
