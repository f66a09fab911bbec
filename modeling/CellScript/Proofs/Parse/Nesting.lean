import CellScript.Proofs.Closed
import CellScript.Proofs.Parse.Progress

/-!
# Parsers of statements make progress

A statement takes at least one token, like an expression, and it gives no include whose file is one
of the files around it. The file of an include is read from its own tokens, so what the parser of
such files does is an assumption here.

* `Stmt.IncludesApart outer`: no file is included inside itself or inside one of `outer`;
* `Parser.Reads E n k Q`: where `E` holds and with fewer than `n` tokens to come, the parser stays
  below its bound, takes at least `k` tokens, and what it gives satisfies `Q`;
* `Parser.statement_reads`, `Parser.program_ends`: statements and whole files.
-/

namespace CellScript

/-! ## Includes inside includes -/

/-- Whether a statement has no room for others inside it. -/
def Stmt.isLeaf : Stmt → Bool
  | .expression _ | .assign .. | .update .. | .nop _ | .break _ | .continue _ | .return .. => true
  | .global .. => true
  | _ => false

/-- No included file is one of `outer`, and none is included again inside itself. -/
def Stmt.IncludesApart (outer : List String) (ss : List Stmt) : Prop :=
  ∀ path body l, (Stmt.include path body l).Among ss → path ∉ outer ∧
    ∀ path' body' l', (Stmt.include path' body' l').Among body → path' ≠ path

namespace Stmt.IncludesApart

variable {outer : List String} {s : Stmt} {ss body : List Stmt} {l : Nat}

theorem nil : IncludesApart outer [] := nofun

theorem cons (hs : IncludesApart outer [s]) (hss : IncludesApart outer ss) :
    IncludesApart outer (s :: ss) := by
  intro path body l h
  cases h with
  | later h => exact hss path body l h
  | here => exact hs _ _ _ .here
  | realize h => exact hs _ _ _ (.realize h)
  | «include» h => exact hs _ _ _ (.include h)
  | block h => exact hs _ _ _ (.block h)
  | positive h => exact hs _ _ _ (.positive h)
  | negative h => exact hs _ _ _ (.negative h)
  | loop h => exact hs _ _ _ (.loop h)
  | whileLoop h => exact hs _ _ _ (.whileLoop h)
  | doWhile h => exact hs _ _ _ (.doWhile h)
  | forLoop h => exact hs _ _ _ (.forLoop h)
  | function h => exact hs _ _ _ (.function h)
  | method hf h => exact hs _ _ _ (.method hf h)

theorem leaf (h : s.isLeaf = true) : IncludesApart outer [s] := by
  intro path body l hi
  cases hi with
  | later hi => cases hi
  | _ => cases h

theorem realize {t : String} (h : IncludesApart outer body) :
    IncludesApart outer [.realize t body l] := by
  intro path body' l' hi
  cases hi with
  | later hi => cases hi
  | realize hi => exact h path body' l' hi

theorem block (h : IncludesApart outer body) : IncludesApart outer [.block body l] := by
  intro path body' l' hi
  cases hi with
  | later hi => cases hi
  | block hi => exact h path body' l' hi

theorem branch {e : Expr} {o : Option Stmt} (hs : IncludesApart outer [s])
    (ho : ∀ t ∈ o, IncludesApart outer [t]) : IncludesApart outer [.branch e s o l] := by
  intro path body' l' hi
  cases hi with
  | later hi => cases hi
  | positive hi => exact hs path body' l' hi
  | negative hi => exact ho _ rfl path body' l' hi

theorem loop (h : IncludesApart outer [s]) : IncludesApart outer [.loop s l] := by
  intro path body' l' hi
  cases hi with
  | later hi => cases hi
  | loop hi => exact h path body' l' hi

theorem whileLoop {e : Expr} (h : IncludesApart outer [s]) :
    IncludesApart outer [.whileLoop e s l] := by
  intro path body' l' hi
  cases hi with
  | later hi => cases hi
  | whileLoop hi => exact h path body' l' hi

theorem doWhile {e : Expr} (h : IncludesApart outer [s]) :
    IncludesApart outer [.doWhile e s l] := by
  intro path body' l' hi
  cases hi with
  | later hi => cases hi
  | doWhile hi => exact h path body' l' hi

theorem forLoop {e : Expr} {init step : Stmt} (hinit : IncludesApart outer [init])
    (hstep : IncludesApart outer [step]) (h : IncludesApart outer [s]) :
    IncludesApart outer [.forLoop init e step s l] := by
  intro path body' l' hi
  cases hi with
  | later hi => cases hi
  | forLoop hi => exact (hinit.cons (hstep.cons h)) path body' l' hi

theorem function {f : FunctionDef Stmt} (h : IncludesApart outer f.body) :
    IncludesApart outer [.function f] := by
  intro path body' l' hi
  cases hi with
  | later hi => cases hi
  | function hi => exact h path body' l' hi

theorem classDef {i : Bool} {name : String} {fs : List (FunctionDef Stmt)} {id : DefId}
    (h : ∀ f ∈ fs, IncludesApart outer f.body) :
    IncludesApart outer [.classDef i name fs id l] := by
  intro path body' l' hi
  cases hi with
  | later hi => cases hi
  | method hf hi => exact h _ hf path body' l' hi

/-- The file of an include is one of the files around its own statements. -/
theorem included {file : String} (hfile : file ∉ outer)
    (h : IncludesApart (outer ++ [file]) body) : IncludesApart outer [.include file body l] := by
  intro path body' l' hi
  cases hi with
  | later hi => cases hi
  | here =>
    refine ⟨hfile, fun path' body'' l'' hi' heq => ?_⟩
    exact (h path' body'' l'' hi').1 (by simp [heq])
  | «include» hi =>
    obtain ⟨hne, hin⟩ := h path body' l' hi
    exact ⟨fun hm => hne (List.mem_append_left _ hm), hin⟩

end Stmt.IncludesApart

namespace Parser

variable {α β : Type} {E : ParseEnv → Prop} {n m k : Nat} {P : α → Prop} {Q : β → Prop}

/-- Where `E` holds and with fewer than `n` tokens to come, the parser stays below its bound, takes
`k` tokens or more, and gives what `Q` says. -/
def Reads (E : ParseEnv → Prop) (n k : Nat) (Q : α → Prop) (p : Parser α) : Prop :=
  ∀ env s, E env → s.left < n → p.Ends env s (fun a t => t.left + k ≤ s.left ∧ Q a) Bounded

theorem Advances.reads {p : Parser α} (h : Advances m p) (hn : n ≤ m) :
    Reads E n 1 (fun _ => True) p :=
  fun env s _ hs => (h env s (by omega)).imp fun _ _ ht => ⟨ht, trivial⟩

theorem Stays.reads {p : Parser α} (h : Stays m p) (hn : n ≤ m) :
    Reads E n 0 (fun _ => True) p :=
  fun env s _ hs => (h env s (by omega)).imp fun _ _ ht => ⟨ht, trivial⟩

namespace Reads

/-- A parser and what follows it, however much the first one takes. -/
theorem bind {p : Parser α} {f : α → Parser β} (hp : Reads E n k P p)
    (hf : ∀ a, P a → Reads E n 0 Q (f a)) : Reads E n 0 Q (p >>= f) := by
  intro env s he hs
  refine (hp env s he hs).bind fun a t ⟨ht, ha⟩ => ?_
  refine (hf a ha env t he (by omega)).imp fun b u ⟨hu, hb⟩ => ⟨?_, hb⟩
  omega

/-- What follows a parser that takes a token has fewer to come. -/
theorem first {p : Parser α} {f : α → Parser β} (hp : Reads E (n + 1) 1 P p)
    (hf : ∀ a, P a → Reads E n 0 Q (f a)) : Reads E (n + 1) 1 Q (p >>= f) := by
  intro env s he hs
  refine (hp env s he hs).bind fun a t ⟨ht, ha⟩ => ?_
  refine (hf a ha env t he (by omega)).imp fun b u ⟨hu, hb⟩ => ⟨?_, hb⟩
  omega

theorem pure {b : β} (h : Q b) : Reads E n 0 Q (pure b) := by
  intro env s _ _
  rw [ends_pure]
  exact ⟨Nat.le_refl _, h⟩

theorem fail (cause : ParseCause) : Reads E n k Q (fail cause) := by
  intro env s _ _
  rw [ends_fail]
  exact bounded_malformed _

theorem failAt (cause : ParseCause) (l : Nat) : Reads E n k Q (failAt cause l) := by
  intro env s _ _
  rw [ends_failAt]
  exact bounded_malformed _

theorem line {f : Nat → Parser β} (hf : ∀ l, Reads E n k Q (f l)) :
    Reads E n k Q (line >>= f) := by
  intro env s he hs
  rw [ends_line_bind]
  exact hf _ env s he hs

theorem freshId {f : DefId → Parser β} (hf : ∀ id, Reads E n 0 Q (f id)) :
    Reads E n 0 Q (freshId >>= f) := by
  refine bind (k := 0) (P := fun _ => True) (fun env s _ _ => ⟨?_⟩) fun id _ => hf id
  exact ⟨Nat.le_refl _, trivial⟩

theorem withLoop {b : Bool} {p : Parser β} (hE : ∀ env b, E env → E { env with inLoop := b })
    (h : Reads E n k Q p) : Reads E n k Q (withLoop b p) :=
  fun env s he hs => ends_withLoop (h _ s (hE env b he) hs)

/-- Behind the token at hand there is one token less to come. -/
theorem behind {f : Unit → Parser β} (h : Reads E n 0 Q (f ())) {env : ParseEnv} {s : ParseState}
    (he : E env) (hs : s.left < n + 1) (hne : s.reader.current.kind ≠ .endOfSource) :
    (advance >>= f).Ends env s (fun b t => t.left + 1 ≤ s.left ∧ Q b) Bounded := by
  refine (advance_ends hne).bind fun _ t ht => ?_
  refine (h env t he (by omega)).imp fun b u ⟨hu, hb⟩ => ⟨?_, hb⟩
  omega

end Reads

/-! ## Statements without statements inside -/

section

variable {outer : List String}

/-- Whether an assignment follows or not, a simple statement begins with an expression. -/
theorem simpleStatement_reads (hn : n + 1 ≤ m) :
    Reads E (n + 1) 1 (fun st => st.isLeaf = true) (simpleStatement m) := by
  have hexpr := expression_advances m
  refine Reads.first (hexpr.reads hn) fun target _ env s he hs => ?_
  have value {node : Expr → Stmt} (h : s.reader.current.kind ≠ .endOfSource)
      (hnode : ∀ e, (node e).isLeaf = true) : (do
        advance
        let value ← expression m
        return node value).Ends env s (fun st t => t.left + 0 ≤ s.left ∧ st.isLeaf = true)
          Bounded :=
    (Reads.behind ((hexpr.reads (by omega)).bind fun e _ => Reads.pure (hnode e)) he
      (Nat.lt_succ_of_lt hs) h).imp fun _ _ ⟨ht, hst⟩ => ⟨Nat.le_of_lt ht, hst⟩
  have refused {f : Unit → Parser Stmt} :=
    (Reads.fail (E := E) (n := n) (k := 0) (Q := fun _ => False) .assignmentTarget).bind (f := f)
      (Q := fun st => st.isLeaf = true) (fun _ h => h.elim) env s he hs
  rw [ends_current_bind]
  split
  · next op h =>
    have hne : s.reader.current.kind ≠ .endOfSource := fun hend => by
      rw [hend] at h
      cases h
    rw [ends_line_bind]
    split
    · exact refused
    · exact value hne fun _ => rfl
  · split
    · next h =>
      have hne : s.reader.current.kind ≠ .endOfSource := by
        rw [eq_of_beq h]
        exact nofun
      rw [ends_line_bind]
      split
      · exact refused
      · exact value hne fun _ => rfl
    · exact Reads.pure (Q := fun st : Stmt => st.isLeaf = true) rfl env s he hs

theorem conditionOf_reads (hn : n ≤ m) : Reads E n 0 (fun _ => True) (conditionOf m) :=
  ((expect_advances _).reads hn).bind fun _ _ => ((expression_advances m).reads hn).bind fun _ _ =>
    ((expect_advances _).reads hn).bind fun _ _ => Reads.pure trivial

section

variable {env : ParseEnv} {s : ParseState} (he : E env) (hs : s.left < n + 1)
  (hne : s.reader.current.kind ≠ .endOfSource)

include he hs hne

theorem returnStatement_ends (hn : n ≤ m) : (returnStatement m).Ends env s
    (fun st t => t.left + 1 ≤ s.left ∧ st.isLeaf = true) Bounded := by
  have node (value : Option Expr) (l : Nat) : Reads E n 0 (fun st => st.isLeaf = true) (do
      expect .semicolon
      return Stmt.return value l) :=
    ((expect_advances _).reads (Nat.le_refl n)).bind fun _ _ => Reads.pure rfl
  unfold returnStatement
  rw [ends_line_bind]
  refine Reads.behind (fun env t he ht => ?_) he hs hne
  rw [ends_atMark_bind]
  split
  · exact (Reads.bind (P := fun _ => True) (.pure trivial) fun value _ => node value _) env t he ht
  · exact (((expression_advances m).reads hn).bind fun e _ =>
      Reads.bind (P := fun _ => True) (.pure trivial) fun value _ => node value _) env t he ht

theorem globalStatement_ends : globalStatement.Ends env s
    (fun st t => t.left + 1 ≤ s.left ∧ st.isLeaf = true) Bounded := by
  unfold globalStatement
  rw [ends_line_bind]
  refine Reads.behind ?_ he hs hne
  exact ((expectName_advances _).reads (Nat.le_refl n)).bind fun _ _ =>
    ((expect_advances _).reads (Nat.le_refl n)).bind fun _ _ => Reads.pure rfl

theorem jumpStatement_ends (outside : ParseCause) {node : Nat → Stmt}
    (hnode : ∀ l, (node l).isLeaf = true) : (jumpStatement outside node).Ends env s
      (fun st t => t.left + 1 ≤ s.left ∧ st.isLeaf = true) Bounded := by
  unfold jumpStatement
  rw [ends_read_bind]
  split
  · exact Ends.bind_fail (by rw [ends_fail]; exact bounded_malformed _)
  · rw [ends_line_bind]
    refine Reads.behind ?_ he hs hne
    exact ((expect_advances _).reads (Nat.le_refl n)).bind fun _ _ => Reads.pure (hnode _)

end

end

/-! ## Includes -/

/-- What is asked of the parser of included files in the environments that `E` allows: they all
stand in the files `outer`, and a file that is none of those is read below the bound. -/
structure Loads (E : ParseEnv → Prop) (outer : List String) (load : String → Parser (List Stmt)) :
    Prop where
  including : ∀ env, E env → env.including = outer
  withLoop : ∀ env b, E env → E { env with inLoop := b }
  ends : ∀ env s name path, E env → env.sources.resolve? env.path name = some path →
    path ∉ outer → (load path).Ends env s (fun ss t => t.left ≤ s.left ∧
      Stmt.IncludesApart (outer ++ [path]) ss) Bounded

/-- An include is a token of the file around it; its own file is read by `load`. -/
theorem includeStatement_ends {outer : List String} {load : String → Parser (List Stmt)}
    (hl : Loads E outer load) {env : ParseEnv} {s : ParseState} (he : E env)
    (hs : s.left < n + 1) (hne : s.reader.current.kind ≠ .endOfSource) :
    (includeStatement load).Ends env s
      (fun st t => t.left + 1 ≤ s.left ∧ Stmt.IncludesApart outer [st]) Bounded := by
  unfold includeStatement
  rw [ends_line_bind]
  refine Reads.behind (fun env t he ht => ?_) he hs hne
  rw [ends_token_bind]
  split
  · exact Ends.bind_fail (by rw [ends_fail]; exact bounded_malformed _)
  · next h =>
    have hne : t.reader.current.kind ≠ .endOfSource := by
      rw [show t.reader.current.kind = .string by simpa using h]
      exact nofun
    refine (Reads.behind ?_ he (Nat.lt_succ_of_lt ht) hne).imp
      fun _ _ ⟨hu, hst⟩ => ⟨Nat.le_of_lt hu, hst⟩
    refine ((expect_advances _).reads (Nat.le_refl n)).bind fun _ _ env u he hu => ?_
    rw [ends_read_bind]
    split
    · exact Reads.failAt _ _ env u he hu
    · next path hpath =>
      split
      · exact Ends.bind_fail (by rw [ends_failAt]; exact bounded_malformed _)
      · next hnew =>
        have hfile : path ∉ outer := by
          rw [← hl.including env he]
          simpa using hnew
        have noted : (noteInclude path).Ends env u (fun _ v => v.left = u.left) Bounded := ⟨rfl⟩
        refine noted.bind fun _ v hv => ?_
        refine (hl.ends env v _ path he hpath hfile).bind fun ss w ⟨hw, hss⟩ => ?_
        rw [ends_pure]
        exact ⟨by omega, .included hfile hss⟩

/-! ## Parameters and names -/

theorem functionName_reads : Reads E n 0 (fun _ => True) functionName := by
  refine ((expectName_advances _).reads (Nat.le_refl n)).bind fun name _ env s he hs => ?_
  have done : Reads E n 0 (fun _ => True) (pure name) := .pure trivial
  split
  · rw [ends_current_bind]
    split
    · next symbol h =>
      have hne : s.reader.current.kind ≠ .endOfSource := fun hend => by
        rw [hend] at h
        cases h
      refine (advance_ends hne).bind fun _ t ht => ?_
      rw [ends_pure]
      exact ⟨Nat.le_of_lt ht, trivial⟩
    · exact done env s he hs
  · exact done env s he hs

theorem moreParameters_stays (n : Nat) (before : List String) :
    Stays n (moreParameters n before) := by
  induction n generalizing before with
  | zero => exact fun _ s hs => absurd hs (Nat.not_lt_zero _)
  | succ n ih =>
    intro env s hs
    unfold moreParameters
    rw [ends_atMark_bind]
    split
    · next h =>
      refine (advance_from (eq_of_beq h) nofun).bind fun _ t ht => ?_
      refine (expectName_advances _ env t (Nat.lt_succ_self _)).bind fun name u hu => ?_
      split
      · exact Ends.bind_fail (by rw [ends_fail]; exact bounded_malformed _)
      · refine (ih _ env u (by omega)).imp fun _ v hv => ?_
        omega
    · exact stays_pure _ env s hs

theorem parameters_stays (n : Nat) : Stays n (parameters n) := by
  intro env s hs
  unfold parameters
  rw [ends_current_bind]
  split
  · exact ((expectName_advances _).stays.bind fun name => moreParameters_stays n _) env s hs
  · exact stays_pure _ env s hs

/-! ## Statements with statements inside -/

section

variable {outer : List String} {inner : Parser (Option Stmt)}
  (hE : ∀ env b, E env → E { env with inLoop := b })
  (hi : Reads E n 1 (fun o => ∀ st ∈ o, Stmt.IncludesApart outer [st]) inner) (hn : n + 1 ≤ m)

include hi

theorem statementsOf_reads (m : Nat) :
    Reads E (min m n) 0 (Stmt.IncludesApart outer) (statementsOf inner m) := by
  induction m with
  | zero => exact fun _ s _ hs => absurd hs (by omega)
  | succ m ih =>
    intro env s he hs
    unfold statementsOf
    rw [ends_current_bind]
    split
    · refine (hi env s he (by omega)).bind ?_
      rintro o t ⟨ht, ho⟩
      refine (ih env t he (by omega)).bind ?_
      rintro ss u ⟨hu, hss⟩
      rw [ends_pure]
      refine ⟨by omega, ?_⟩
      cases o with
      | none => exact hss
      | some st => exact (ho st rfl).cons hss
    · exact Reads.pure .nil env s he hs

include hn

theorem bracedOf_reads : Reads E (n + 1) 1 (Stmt.IncludesApart outer) (bracedOf inner m) := by
  have hstatements := statementsOf_reads hi m
  rw [Nat.min_eq_right (by omega)] at hstatements
  exact Reads.first ((expect_advances _).reads (Nat.le_refl _)) fun _ _ => hstatements.bind
    fun ss hss => ((expect_advances _).reads (Nat.le_refl _)).bind fun _ _ => Reads.pure hss

omit hn in
theorem bodyOf_reads : Reads E n 0 (fun st => Stmt.IncludesApart outer [st]) (bodyOf inner) := by
  intro env s he hs
  unfold bodyOf
  rw [ends_current_bind]
  split
  · refine hi.bind (fun o ho => ?_) env s he hs
    cases o with
    | some st => exact Reads.pure (ho st rfl)
    | none => exact Reads.line fun l => Reads.pure (.leaf rfl)
  · exact Reads.fail _ env s he hs

include hE

omit hn in
theorem loopBodyOf_reads :
    Reads E n 0 (fun st => Stmt.IncludesApart outer [st]) (loopBodyOf inner) :=
  Reads.withLoop hE (bodyOf_reads hi)

theorem functionOf_ends {env : ParseEnv} {s : ParseState} (he : E env) (hs : s.left < n + 1)
    (hne : s.reader.current.kind ≠ .endOfSource) : (functionOf inner m).Ends env s
      (fun f t => t.left + 1 ≤ s.left ∧ Stmt.IncludesApart outer f.body) Bounded := by
  have hbody : Reads E n 0 (Stmt.IncludesApart outer) (withLoop false (bracedOf inner m)) :=
    Reads.withLoop hE fun env s he hs => (bracedOf_reads hi hn env s he (by omega)).imp
      fun _ _ ⟨ht, hss⟩ => ⟨Nat.le_of_lt ht, hss⟩
  unfold functionOf
  rw [ends_line_bind]
  refine Reads.behind ?_ he hs hne
  exact functionName_reads.bind fun _ _ =>
    ((expect_advances _).reads (Nat.le_refl n)).bind fun _ _ =>
    ((parameters_stays m).reads (by omega)).bind fun _ _ =>
    ((expect_advances _).reads (Nat.le_refl n)).bind fun _ _ => Reads.line fun _ =>
    hbody.bind fun _ hss => Reads.freshId fun _ => Reads.pure hss

/-- Each method begins with a keyword. -/
theorem methodsOf_reads (k : Nat) (before : List (FunctionDef Stmt))
    (hb : ∀ f ∈ before, Stmt.IncludesApart outer f.body) :
    Reads E (min k n) 0 (fun fs => ∀ f ∈ fs, Stmt.IncludesApart outer f.body)
      (methodsOf inner m k before) := by
  induction k generalizing before with
  | zero => exact fun _ s _ hs => absurd hs (by omega)
  | succ k ih =>
    intro env s he hs
    unfold methodsOf
    rw [ends_current_bind]
    split
    · next h =>
      have hne : s.reader.current.kind ≠ .endOfSource := by
        rw [eq_of_beq h]
        exact nofun
      refine (functionOf_ends hE hi hn he (by omega) hne).bind fun f t ⟨ht, hf⟩ => ?_
      split
      · exact Ends.bind_fail (by rw [ends_failAt]; exact bounded_malformed _)
      · have hall : ∀ g ∈ before ++ [f], Stmt.IncludesApart outer g.body := by
          intro g hg
          rcases List.mem_append.1 hg with hg | hg
          · exact hb g hg
          · rwa [List.mem_singleton.1 hg]
        refine (ih _ hall env t he (by omega)).imp fun fs u ⟨hu, hfs⟩ => ⟨?_, hfs⟩
        omega
    · exact Reads.pure hb env s he hs

section

variable {env : ParseEnv} {s : ParseState} (he : E env) (hs : s.left < n + 1)
  (hne : s.reader.current.kind ≠ .endOfSource)

include he hs hne

theorem classOf_ends : (classOf inner m).Ends env s
    (fun st t => t.left + 1 ≤ s.left ∧ Stmt.IncludesApart outer [st]) Bounded := by
  have hmethods := methodsOf_reads hE hi hn m [] nofun
  rw [Nat.min_eq_right (by omega)] at hmethods
  unfold classOf
  rw [ends_line_bind, ends_current_bind]
  refine Reads.behind ?_ he hs hne
  refine ((expectName_advances _).reads (Nat.le_refl n)).bind fun name _ =>
    ((expect_advances _).reads (Nat.le_refl n)).bind fun _ _ => hmethods.bind
    fun methods hm env t he ht => ?_
  rw [ends_atMark_bind]
  split
  · exact Ends.bind_fail (by rw [ends_fail]; exact bounded_malformed _)
  · next h =>
    have hne : t.reader.current.kind ≠ .endOfSource := by
      rw [show t.reader.current.kind = .mark .rightBrace by simpa using h]
      exact nofun
    refine (Reads.behind ?_ he (Nat.lt_succ_of_lt ht) hne).imp
      fun _ _ ⟨hu, hst⟩ => ⟨Nat.le_of_lt hu, hst⟩
    exact Reads.freshId fun _ => Reads.pure (.classDef hm)

omit hne in
theorem realizationOf_ends : (realizationOf inner m).Ends env s
    (fun st t => t.left + 1 ≤ s.left ∧ Stmt.IncludesApart outer [st]) Bounded := by
  unfold realizationOf
  rw [ends_line_bind]
  refine Reads.first ((expectName_advances _).reads (Nat.le_refl _)) (fun name _ => ?_) env s he hs
  refine Reads.withLoop hE (k := 1) (fun env s he hs => ?_) |>.bind fun ss hss =>
    Reads.pure (.realize hss)
  exact bracedOf_reads hi hn env s he (by omega)

omit hE in
theorem ifStatement_ends : (ifStatement inner m).Ends env s
    (fun st t => t.left + 1 ≤ s.left ∧ Stmt.IncludesApart outer [st]) Bounded := by
  unfold ifStatement
  rw [ends_line_bind]
  refine Reads.behind ?_ he hs hne
  refine (conditionOf_reads (by omega)).bind fun condition _ => (bodyOf_reads hi).bind
    fun positive hp env t he ht => ?_
  rw [ends_current_bind]
  split
  · next h =>
    have hne : t.reader.current.kind ≠ .endOfSource := by
      rw [eq_of_beq h]
      exact nofun
    refine (Reads.behind ?_ he (Nat.lt_succ_of_lt ht) hne).imp
      fun _ _ ⟨hu, hst⟩ => ⟨Nat.le_of_lt hu, hst⟩
    exact (bodyOf_reads hi).bind fun negative hq => Reads.pure (.branch hp fun _ h => by
      cases h
      exact hq)
  · rw [ends_pure]
    exact ⟨Nat.le_refl _, .branch hp fun _ h => nomatch h⟩

theorem whileStatement_ends : (whileStatement inner m).Ends env s
    (fun st t => t.left + 1 ≤ s.left ∧ Stmt.IncludesApart outer [st]) Bounded := by
  unfold whileStatement
  rw [ends_line_bind]
  refine Reads.behind ?_ he hs hne
  exact (conditionOf_reads (by omega)).bind fun _ _ => (loopBodyOf_reads hE hi).bind
    fun _ hb => Reads.pure (.whileLoop hb)

omit hn in
theorem loopStatement_ends : (loopStatement inner).Ends env s
    (fun st t => t.left + 1 ≤ s.left ∧ Stmt.IncludesApart outer [st]) Bounded := by
  unfold loopStatement
  rw [ends_line_bind]
  refine Reads.behind ?_ he hs hne
  exact (loopBodyOf_reads hE hi).bind fun _ hb => Reads.pure (.loop hb)

theorem doStatement_ends : (doStatement inner m).Ends env s
    (fun st t => t.left + 1 ≤ s.left ∧ Stmt.IncludesApart outer [st]) Bounded := by
  unfold doStatement
  rw [ends_line_bind]
  refine Reads.behind ?_ he hs hne
  refine (loopBodyOf_reads hE hi).bind fun body hb env t he ht => ?_
  rw [ends_current_bind]
  split
  · exact Ends.bind_fail (by rw [ends_fail]; exact bounded_malformed _)
  · next h =>
    have hne : t.reader.current.kind ≠ .endOfSource := by
      rw [show t.reader.current.kind = .keyword .while by simpa using h]
      exact nofun
    refine (Reads.behind ?_ he (Nat.lt_succ_of_lt ht) hne).imp
      fun _ _ ⟨hu, hst⟩ => ⟨Nat.le_of_lt hu, hst⟩
    refine (conditionOf_reads (by omega)).bind fun condition _ env u he hu => ?_
    rw [ends_atMark_bind]
    split
    · next h =>
      refine (advance_from (eq_of_beq h) nofun).bind fun _ v hv => ?_
      rw [ends_pure]
      exact ⟨Nat.le_of_lt hv, .doWhile hb⟩
    · exact (ends_pure _ _).2 ⟨Nat.le_refl _, .doWhile hb⟩

omit hE hi he hs hne in
theorem forPart_reads (close : Mark) (l : Nat) :
    Reads E n 0 (fun st => st.isLeaf = true) (forPart close l m) := by
  intro env s he hs
  unfold forPart
  rw [ends_atMark_bind]
  split
  · exact Reads.pure (Q := fun st : Stmt => st.isLeaf = true) rfl env s he hs
  · exact (simpleStatement_reads hn env s he (by omega)).imp
      fun _ _ ⟨ht, hst⟩ => ⟨Nat.le_of_lt ht, hst⟩

omit hE hi he hs hne in
theorem forCondition_reads (l : Nat) : Reads E n 0 (fun _ => True) (forCondition l m) := by
  intro env s he hs
  unfold forCondition
  rw [ends_atMark_bind]
  split
  · exact Reads.pure (Q := fun _ => True) trivial env s he hs
  · exact (((expression_advances m).reads (by omega)).bind fun e _ =>
      Reads.pure trivial) env s he hs

theorem forStatement_ends : (forStatement inner m).Ends env s
    (fun st t => t.left + 1 ≤ s.left ∧ Stmt.IncludesApart outer [st]) Bounded := by
  unfold forStatement
  rw [ends_line_bind]
  refine Reads.behind ?_ he hs hne
  exact ((expect_advances _).reads (Nat.le_refl n)).bind fun _ _ =>
    (forPart_reads hn _ _).bind fun init hinit =>
    ((expect_advances _).reads (Nat.le_refl n)).bind fun _ _ =>
    (forCondition_reads hn _).bind fun condition _ =>
    ((expect_advances _).reads (Nat.le_refl n)).bind fun _ _ =>
    (forPart_reads hn _ _).bind fun step hstep =>
    ((expect_advances _).reads (Nat.le_refl n)).bind fun _ _ =>
    (loopBodyOf_reads hE hi).bind fun body hb =>
    Reads.pure (.forLoop (.leaf hinit) (.leaf hstep) hb)

end

/-- A statement takes a token if the statements inside it do. -/
theorem statementOf_reads {load : String → Parser (List Stmt)} (hl : Loads E outer load) :
    Reads E (n + 1) 1 (fun o => ∀ st ∈ o, Stmt.IncludesApart outer [st])
      (statementOf load inner m) := by
  intro env s he hs
  have given {st : Stmt} (h : Stmt.IncludesApart outer [st]) :
      ∀ st' ∈ some st, Stmt.IncludesApart outer [st'] := fun _ h' => by
    cases h'
    exact h
  have one {p : Parser Stmt} (hp : p.Ends env s
      (fun st t => t.left + 1 ≤ s.left ∧ Stmt.IncludesApart outer [st]) Bounded) :
      (do return some (← p)).Ends env s
        (fun o t => t.left + 1 ≤ s.left ∧ ∀ st ∈ o, Stmt.IncludesApart outer [st]) Bounded :=
    hp.bind fun st t ⟨ht, hst⟩ => (ends_pure _ _).2 ⟨ht, given hst⟩
  have leaf {p : Parser Stmt} (hp : p.Ends env s
      (fun st t => t.left + 1 ≤ s.left ∧ st.isLeaf = true) Bounded) :=
    one (hp.imp fun _ _ ⟨ht, hst⟩ => ⟨ht, Stmt.IncludesApart.leaf hst⟩)
  have here {kind : TokenKind} (h : s.reader.current.kind = kind) (hk : kind ≠ .endOfSource) :
      s.reader.current.kind ≠ .endOfSource := h ▸ hk
  have simple : Reads E (n + 1) 1 (fun o => ∀ st ∈ o, Stmt.IncludesApart outer [st]) (do
      let st ← simpleStatement m
      expect .semicolon
      return some st) :=
    Reads.first (simpleStatement_reads hn) fun st hst =>
      ((expect_advances _).reads (Nat.le_refl n)).bind fun _ _ =>
        Reads.pure (given (.leaf hst))
  unfold statementOf
  rw [ends_current_bind]
  split
  · next h =>
    refine (advance_from h nofun).bind fun _ t ht => ?_
    rw [ends_pure]
    exact ⟨ht, fun _ h => nomatch h⟩
  · rw [ends_line_bind]
    refine (bracedOf_reads hi hn env s he hs).bind fun ss t ⟨ht, hss⟩ => ?_
    rw [ends_pure]
    exact ⟨ht, given (.block hss)⟩
  · next h =>
    refine (functionOf_ends hE hi hn he hs (here h nofun)).bind fun f t ⟨ht, hf⟩ => ?_
    rw [ends_pure]
    exact ⟨ht, given (.function hf)⟩
  · next h => exact leaf (returnStatement_ends he hs (here h nofun) (by omega))
  · next h => exact leaf (globalStatement_ends he hs (here h nofun))
  · next h => exact one (ifStatement_ends hi hn he hs (here h nofun))
  · next h => exact one (whileStatement_ends hE hi hn he hs (here h nofun))
  · next h => exact one (doStatement_ends hE hi hn he hs (here h nofun))
  · next h => exact one (forStatement_ends hE hi hn he hs (here h nofun))
  · next h => exact one (loopStatement_ends hE hi he hs (here h nofun))
  · next h => exact leaf (jumpStatement_ends he hs (here h nofun) _ fun _ => rfl)
  · next h => exact leaf (jumpStatement_ends he hs (here h nofun) _ fun _ => rfl)
  · next h => exact one (classOf_ends hE hi hn he hs (here h nofun))
  · next h => exact one (classOf_ends hE hi hn he hs (here h nofun))
  · next h => exact one (includeStatement_ends hl he hs (here h nofun))
  · split
    · have looked : (ofReader Reader.isBlockStartAhead).Ends env s
          (fun _ t => t.left ≤ s.left) Bounded :=
        ofReader_ends fun _ _ h => (Reader.left_isBlockStartAhead h).1
      refine looked.bind fun isBlock t ht => ?_
      split
      · refine (realizationOf_ends hE hi hn he (by omega)).bind fun st u ⟨hu, hst⟩ => ?_
        rw [ends_pure]
        exact ⟨by omega, given hst⟩
      · refine (simple env t he (by omega)).imp fun o u ⟨hu, ho⟩ => ⟨?_, ho⟩
        omega
    · exact simple env s he hs

end

/-! ## Whole files -/

section

variable {outer : List String} {load : String → Parser (List Stmt)} (hl : Loads E outer load)

include hl

/-- The bound on nesting falls with every statement inside another, and so do the tokens. -/
theorem statement_reads (n : Nat) :
    Reads E (n - 1) 1 (fun o => ∀ st ∈ o, Stmt.IncludesApart outer [st]) (statement load n) := by
  induction n with
  | zero => exact fun _ s _ hs => absurd hs (Nat.not_lt_zero _)
  | succ n ih =>
    cases n with
    | zero => exact fun _ s _ hs => absurd hs (Nat.not_lt_zero _)
    | succ n => exact statementOf_reads hl.withLoop ih (Nat.le_refl _) hl

/-- The bounds of a whole file are above the number of its tokens. -/
theorem program_ends (env : ParseEnv) (s : ParseState) (he : E env) (hs : s.reader.ahead = none) :
    (program load).Ends env s (fun ss _ => Stmt.IncludesApart outer ss) Bounded := by
  have hleft : s.left ≤ s.reader.stream.steps.length + 1 := by
    have := Reader.weight_le s.reader.current
    simp only [ParseState.left, Reader.left, hs, Option.elim]
    omega
  unfold program
  rw [ends_tokensLeft_bind]
  have hstatements := statementsOf_reads (statement_reads hl (s.reader.stream.steps.length + 3))
    (s.reader.stream.steps.length + 3) env s he (by omega)
  refine hstatements.bind fun ss t h => ?_
  obtain ⟨-, hss⟩ := h
  rw [ends_current_bind]
  split
  · exact Ends.bind_fail (by rw [ends_fail]; exact bounded_malformed _)
  · exact (ends_pure _ _).2 hss

end

end Parser

end CellScript
