import CellScript.Proofs.Parse.Within

/-!
# Parsers with included files masked

A parser fails by itself or in a file that it includes. `masked` tells the two apart: it hides the
failures of included files, so that a parser with it fails alike for its own faults, and for those
of an included file by another failure, in the state in which that file was to be read.

* `Stmt.places`, `Script.places`: the nodes of a tree, each by its file and its line;
* `Parser.Tracks`: a parser beside the same one with included files masked, and what holds of the
  statements that it gives;
* `Parser.program_tracks`: whole sources, by one lemma for each production.
-/

namespace CellScript

/-! ## Places of nodes -/

/-- A place of a node: the file, if it is an included one, and the line. -/
abbrev SourcePlace : Type := Option String × Nat

/-- Lines of a file. -/
def placesIn (file : Option String) (lines : List Nat) : List SourcePlace := lines.map (file, ·)

mutual

/-- The places of a statement and of what is in it, if the statement is in the given file. The
statements of an included file are in that one. -/
def Stmt.places (file : Option String) : Stmt → List SourcePlace
  | .expression e => placesIn file e.lines
  | .assign target value l => placesIn file (l :: (target.lines ++ value.lines))
  | .update _ target value l => placesIn file (l :: (target.lines ++ value.lines))
  | .realize _ body l => (file, l) :: Stmt.placesAll file body
  | .nop l => [(file, l)]
  | .include path body l => (file, l) :: Stmt.placesAll (some path) body
  | .block body l => (file, l) :: Stmt.placesAll file body
  | .branch condition positive negative l =>
    placesIn file (l :: condition.lines) ++ positive.places file ++
      Stmt.placesOption file negative
  | .loop body l => (file, l) :: body.places file
  | .whileLoop condition body l => placesIn file (l :: condition.lines) ++ body.places file
  | .doWhile condition body l => placesIn file (l :: condition.lines) ++ body.places file
  | .forLoop init condition step body l =>
    placesIn file (l :: condition.lines) ++ init.places file ++ step.places file ++
      body.places file
  | .break l => [(file, l)]
  | .continue l => [(file, l)]
  | .return value l => placesIn file (l :: value.elim [] Expr.lines)
  | .global _ l => [(file, l)]
  | .function f => FunctionDef.places file f
  | .classDef _ _ methods _ l => (file, l) :: FunctionDef.placesAll file methods

/-- The places of statements and of what is in them. -/
def Stmt.placesAll (file : Option String) : List Stmt → List SourcePlace
  | [] => []
  | s :: ss => s.places file ++ Stmt.placesAll file ss

/-- The places of a statement, if there is one. -/
def Stmt.placesOption (file : Option String) : Option Stmt → List SourcePlace
  | none => []
  | some s => s.places file

/-- The places of a function definition; its body is a node of its own. -/
def FunctionDef.places (file : Option String) : FunctionDef Stmt → List SourcePlace
  | ⟨_, _, body, bodyLine, _, line⟩ =>
    (file, line) :: (file, bodyLine) :: Stmt.placesAll file body

/-- The places of function definitions. -/
def FunctionDef.placesAll (file : Option String) : List (FunctionDef Stmt) → List SourcePlace
  | [] => []
  | f :: fs => FunctionDef.places file f ++ FunctionDef.placesAll file fs

end

/-- The places of all nodes of a script. The script itself is a node on the first line. -/
def Script.places (script : Script) : List SourcePlace :=
  (none, 1) :: Stmt.placesAll none script.statements

/-- The lines of the nodes that a statement consists of, without those inside of them. -/
@[simp]
def Stmt.ownLines : Stmt → List Nat
  | .expression _ => []
  | .assign _ _ l | .update _ _ _ l | .realize _ _ l | .nop l | .include _ _ l | .block _ l => [l]
  | .branch _ _ _ l | .loop _ l | .whileLoop _ _ l | .doWhile _ _ l | .forLoop _ _ _ _ l => [l]
  | .break l | .continue l | .return _ l | .global _ l => [l]
  | .function f => [f.line, f.bodyLine]
  | .classDef _ _ methods _ l => l :: methods.flatMap fun f => [f.line, f.bodyLine]

/-- The file of what stands inside of a statement. -/
@[simp]
def Stmt.fileInside (file : Option String) : Stmt → Option String
  | .include path _ _ => some path
  | _ => file

/-- The nodes of the statement are where `P` allows it, and its reals have no sign. -/
inductive Stmt.Within (P : Option String → Nat → Prop) : Option String → Stmt → Prop
  | node {file : Option String} {st : Stmt} (lines : ∀ l ∈ st.ownLines, P file l)
    (parts : ∀ part ∈ st.parts, part.2.Within (P file))
    (inner : ∀ s ∈ st.inner false, Stmt.Within P (st.fileInside file) s.2) : Stmt.Within P file st

section

variable {P : Option String → Nat → Prop} {file : Option String}

theorem Stmt.mem_placesAll {place : SourcePlace} {ss : List Stmt} :
    place ∈ placesAll file ss ↔ ∃ s ∈ ss, place ∈ s.places file := by
  induction ss with
  | nil => simp [placesAll]
  | cons s ss ih => simp [placesAll, ih]

theorem FunctionDef.places_eq (f : FunctionDef Stmt) :
    f.places file = (file, f.line) :: (file, f.bodyLine) :: Stmt.placesAll file f.body := by
  cases f
  rfl

theorem FunctionDef.mem_placesAll {place : SourcePlace} {fs : List (FunctionDef Stmt)} :
    place ∈ placesAll file fs ↔ ∃ f ∈ fs, place ∈ f.places file := by
  induction fs with
  | nil => simp [placesAll]
  | cons f fs ih => simp [placesAll, ih]

theorem mem_placesIn {lines : List Nat} {place : SourcePlace} :
    place ∈ placesIn file lines ↔ place.1 = file ∧ place.2 ∈ lines := by
  obtain ⟨g, l⟩ := place
  simp only [placesIn, List.mem_map, Prod.mk.injEq]
  exact ⟨fun ⟨k, hk, hg, hl⟩ => ⟨hg.symm, hl ▸ hk⟩, fun ⟨hg, hl⟩ => ⟨l, hl, hg.symm, rfl⟩⟩

/-- All places of a statement are where `P` allows it. -/
theorem Stmt.Within.places {st : Stmt} (h : st.Within P file) :
    ∀ place ∈ st.places file, P place.1 place.2 := by
  induction h with
  | @node file st lines parts inner ih =>
    have parts : ∀ part ∈ st.parts, ∀ l ∈ part.2.lines, P file l := fun part hpart =>
      (parts part hpart).lines
    intro place hplace
    cases st with
    | function f =>
      have ih : ∀ s ∈ f.body, ∀ place ∈ s.places file, P place.1 place.2 := by simpa using ih
      simp only [Stmt.places, FunctionDef.places_eq, List.mem_cons, Stmt.mem_placesAll] at hplace
      grind [Stmt.ownLines]
    | classDef _ _ methods _ l =>
      have ih : ∀ f ∈ methods, ∀ s ∈ f.body, ∀ place ∈ s.places file, P place.1 place.2 :=
        fun f hf s hs => ih (false, s) (by simpa using ⟨f, hf, hs⟩)
      simp only [Stmt.places, FunctionDef.mem_placesAll, FunctionDef.places_eq, List.mem_cons,
        Stmt.mem_placesAll] at hplace
      simp only [Stmt.ownLines, List.mem_cons, List.mem_flatMap] at lines
      grind
    | branch condition positive negative l =>
      cases negative <;>
        simp [Stmt.places, Stmt.placesOption, mem_placesIn] at hplace lines parts ih <;> grind
    | «return» value l =>
      cases value <;> simp [Stmt.places, mem_placesIn] at hplace lines parts <;> grind
    | _ =>
      simp [Stmt.places, mem_placesIn, Stmt.mem_placesAll] at hplace lines parts ih
      grind

end

/-! ## A parser beside itself -/

namespace Parser

/-- Included files with their failures hidden: where one is met, the parser fails because it cannot
read the file, in the state in which the file was to be read. -/
def masked (load : String → Parser (List Stmt)) (path : String) : Parser (List Stmt) := fun env s =>
  match load path env s with
  | .ok ss t => .ok ss t
  | .error _ _ => .error (.unreadable path .notFound) s

section

variable {α β : Type} {sources : Sources} {load : String → Parser (List Stmt)} {L : Nat → Prop}
  {P : α → Prop} {Q : β → Prop}

/-- As long as the parser `p` succeeds, so does `q`, with the same result, of which `Q` holds, and
in the same state. Where `p` fails by itself, `q` fails alike, and the failure is located in the
file that `p` is in. Where `p` fails in an included file, `q` fails because it cannot read this
one. -/
def Tracks (sources : Sources) (load : String → Parser (List Stmt)) (L : Nat → Prop) (Q : β → Prop)
    (p q : Parser β) : Prop :=
  ∀ env s, env.sources = sources → s.reader.Within L →
    match p env s with
    | .ok b t => q env s = .ok b t ∧ t.reader.Within L ∧ Q b
    | .error f t =>
      (q env s = .error f t ∧ f.At env.path L) ∨
        ∃ path inLoop u, q env s = .error (.unreadable path .notFound) u ∧
          load path { env with inLoop } u = .error f t

namespace Tracks

/-- A parser that includes nothing. -/
theorem own {p : Parser β} (h : Within L Q p) : Tracks sources load L Q p p := by
  intro env s _ hs
  have ends := h env s hs
  cases hp : p env s with
  | ok b t => exact ⟨rfl, ends.ok hp⟩
  | error f t => exact .inl ⟨rfl, ends.error hp⟩

theorem pure {b : β} (h : Q b) : Tracks sources load L Q (pure b) (pure b) := own (.pure h)

theorem bind {p q : Parser α} {f g : α → Parser β} (hp : Tracks sources load L P p q)
    (hf : ∀ a, P a → Tracks sources load L Q (f a) (g a)) :
    Tracks sources load L Q (p >>= f) (q >>= g) := by
  intro env s henv hs
  have run (p : Parser α) (f : α → Parser β) : (p >>= f) env s =
      match p env s with
      | .ok a t => f a env t
      | .error f t => .error f t := by
    change EStateM.bind (p env) (fun a => f a env) s = _
    unfold EStateM.bind
    cases p env s <;> rfl
  have hstep := hp env s henv hs
  rw [run p f, run q g]
  cases hout : p env s with
  | ok a t =>
    rw [hout] at hstep
    obtain ⟨hq, ht, ha⟩ := hstep
    rw [hq]
    exact hf a ha env t henv ht
  | error x t =>
    rw [hout] at hstep
    rcases hstep with ⟨hq, hx⟩ | ⟨path, inLoop, u, hq, hload⟩
    · rw [hq]
      exact .inl ⟨rfl, hx⟩
    · rw [hq]
      exact .inr ⟨path, inLoop, u, rfl, hload⟩

/-- Something is read that includes nothing. -/
theorem after {p : Parser α} {f g : α → Parser β} (hp : Within L P p)
    (hf : ∀ a, P a → Tracks sources load L Q (f a) (g a)) :
    Tracks sources load L Q (p >>= f) (p >>= g) :=
  (own hp).bind hf

/-- What stands behind a failure is not read. -/
theorem fail_bind (cause : ParseCause) (f g : α → Parser β) :
    Tracks sources load L Q (Parser.fail cause >>= f) (Parser.fail cause >>= g) :=
  after (.fail (Q := fun _ => False) cause) fun _ h => h.elim

theorem withLoop (c : Bool) {p q : Parser β} (h : Tracks sources load L Q p q) :
    Tracks sources load L Q (withLoop c p) (withLoop c q) :=
  fun env s henv hs => h { env with inLoop := c } s henv hs

end Tracks

end

/-! ## Statements that include nothing -/

section

variable {P : Option String → Nat → Prop} {file : Option String} {n : Nat}

/-- The parser gives a statement of the file. -/
abbrev StmtWithin (P : Option String → Nat → Prop) (file : Option String) (p : Parser Stmt) :
    Prop :=
  Within (P file) (·.Within P file) p

theorem simpleStatement_within : StmtWithin P file (simpleStatement n) := by
  refine (expression_within n).bind fun target ht => Within.current.after fun kind => ?_
  split
  · refine Within.line.bind fun l hl => ?_
    split
    · exact .fail_bind _ _
    · exact Within.advance.after fun _ => (expression_within n).bind fun value hv =>
        .pure (.node (by simpa using hl) (by simp [ht, hv.asOperand]) nofun)
  · split
    · refine Within.line.bind fun l hl => ?_
      split
      · exact .fail_bind _ _
      · exact Within.advance.after fun _ => (expression_within n).bind fun value hv =>
          .pure (.node (by simpa using hl) (by simp [ht, hv.asOperand]) nofun)
    · exact .pure (.node nofun (by simpa using ht) nofun)

theorem returnStatement_within : StmtWithin P file (returnStatement n) := by
  have node {l : Nat} (hl : P file l) (value : Option Expr)
      (hv : ∀ e ∈ value, e.Within (P file)) : StmtWithin P file (do
        expect .semicolon
        return Stmt.return value l) :=
    (Within.expect _).after fun _ => .pure (.node (by simpa using hl) (by simpa using hv) nofun)
  refine Within.line.bind fun l hl => Within.advance.after fun _ =>
    (Within.atMark _).after fun missing => ?_
  split
  · exact (Within.pure (Q := fun o : Option Expr => ∀ e ∈ o, e.Within (P file)) (by simp)).bind
      (node hl)
  · refine (expression_within n).bind fun e he =>
      (Within.pure (Q := fun o : Option Expr => ∀ e ∈ o, e.Within (P file)) ?_).bind (node hl)
    simpa using he.asOperand

theorem globalStatement_within : StmtWithin P file globalStatement :=
  Within.line.bind fun _ hl => Within.advance.after fun _ => (Within.expectName _).after fun _ =>
    (Within.expect _).after fun _ => .pure (.node (by simpa using hl) nofun nofun)

theorem jumpStatement_within (outside : ParseCause) {node : Nat → Stmt}
    (hn : ∀ l, P file l → (node l).Within P file) :
    StmtWithin P file (jumpStatement outside node) := by
  refine Within.read.after fun env => ?_
  split
  · exact .fail_bind _ _
  · exact Within.line.bind fun l hl => Within.advance.after fun _ =>
      (Within.expect _).after fun _ => .pure (hn l hl)

theorem conditionOf_within : ExprWithin (P file) (conditionOf n) :=
  (Within.expect _).after fun _ => (expression_within n).bind fun _ he =>
    (Within.expect _).after fun _ => .pure he.asOperand

theorem forPart_within (close : Mark) {l : Nat} (hl : P file l) :
    StmtWithin P file (forPart close l n) := by
  refine (Within.atMark _).after fun missing => ?_
  split
  · exact .pure (.node (by simpa using hl) nofun nofun)
  · exact simpleStatement_within

theorem forCondition_within {l : Nat} (hl : P file l) : ExprWithin (P file) (forCondition l n) := by
  refine (Within.atMark _).after fun missing => ?_
  split
  · exact node_within hl nofun nofun
  · exact (expression_within n).bind fun _ he => .pure he.asOperand

theorem functionName_within : Within (P file) (fun _ => True) functionName := by
  refine (Within.expectName _).after fun name => ?_
  split
  · refine Within.current.after fun kind => ?_
    split
    · exact Within.advance.after fun _ => .pure trivial
    · exact .pure trivial
  · exact .pure trivial

theorem moreParameters_within (before : List String) :
    Within (P file) (fun _ => True) (moreParameters n before) := by
  induction n generalizing before with
  | zero => exact .throw fun _ => trivial
  | succ n ih =>
    refine (Within.atMark _).after fun more => ?_
    split
    · refine Within.advance.after fun _ => (Within.expectName _).after fun name => ?_
      split
      · exact .fail_bind _ _
      · exact ih _
    · exact .pure trivial

theorem parameters_within : Within (P file) (fun _ => True) (parameters n) := by
  refine Within.current.after fun kind => ?_
  split
  · exact (Within.expectName _).after fun name => moreParameters_within _
  · exact .pure trivial

end

/-! ## Statements -/

section

variable {sources : Sources} {load : String → Parser (List Stmt)}
  {P : Option String → Nat → Prop} {file : Option String} {n : Nat}

/-- The parsers give a statement of the file. -/
abbrev StmtTracks (sources : Sources) (load : String → Parser (List Stmt))
    (P : Option String → Nat → Prop) (file : Option String) (p q : Parser Stmt) : Prop :=
  Tracks sources load (P file) (·.Within P file) p q

/-- The parsers give statements of the file. -/
abbrev StmtsTrack (sources : Sources) (load : String → Parser (List Stmt))
    (P : Option String → Nat → Prop) (file : Option String) (p q : Parser (List Stmt)) : Prop :=
  Tracks sources load (P file) (fun ss => ∀ st ∈ ss, st.Within P file) p q

/-- The parsers give a statement of the file, if they give one. -/
abbrev OptionTracks (sources : Sources) (load : String → Parser (List Stmt))
    (P : Option String → Nat → Prop) (file : Option String) (p q : Parser (Option Stmt)) : Prop :=
  Tracks sources load (P file) (fun o => ∀ st ∈ o, st.Within P file) p q

/-- Included files give statements of their own, and leave the reader where it is. -/
def LoadsWithin (sources : Sources) (load : String → Parser (List Stmt))
    (P : Option String → Nat → Prop) : Prop :=
  ∀ path env s ss t, env.sources = sources → load path env s = .ok ss t →
    t.reader = s.reader ∧ ∀ st ∈ ss, st.Within P (some path)

/-- The one place where a parser differs from the masked one. -/
theorem includeStatement_tracks (hl : LoadsWithin sources load P) :
    StmtTracks sources load P file (includeStatement load) (includeStatement (masked load)) := by
  have body (path : String) : Tracks sources load (P file)
      (fun ss => ∀ st ∈ ss, st.Within P (some path)) (load path) (masked load path) := by
    intro env s henv hs
    unfold masked
    cases hload : load path env s with
    | ok ss t =>
      obtain ⟨hreader, hss⟩ := hl path env s ss t henv hload
      exact ⟨rfl, hreader ▸ hs, hss⟩
    | error f t => exact .inr ⟨path, env.inLoop, s, rfl, hload⟩
  have note (path : String) : Within (P file) (fun _ => True) (noteInclude path) :=
    fun _ _ hs => ⟨hs, trivial⟩
  have node (path : String) {l : Nat} (hline : P file l) : StmtTracks sources load P file
      (do noteInclude path; return Stmt.include path (← load path) l)
      (do noteInclude path; return Stmt.include path (← masked load path) l) :=
    .after (note path) fun _ _ => (body path).bind fun _ hss =>
      .pure (.node (by simpa using hline) nofun (by simpa using hss))
  refine .after .line fun l hline => .after .advance fun _ _ => .after .token fun t _ => ?_
  split
  · exact .fail_bind _ _ _
  · refine .after .advance fun _ _ => .after (.expect _) fun _ _ => .after .read fun env _ => ?_
    split
    · exact .own (.failAt _ hline)
    · next path _ =>
      split
      · exact .after (.failAt (Q := fun _ => False) _ hline) fun _ h => h.elim
      · exact node path hline

variable {inner inner' : Parser (Option Stmt)}
  (hi : OptionTracks sources load P file inner inner')

include hi

theorem statementsOf_tracks :
    StmtsTrack sources load P file (statementsOf inner n) (statementsOf inner' n) := by
  induction n with
  | zero => exact .own (.throw fun _ => trivial)
  | succ n ih =>
    refine .after .current fun kind _ => ?_
    split
    · exact hi.bind fun o ho => ih.bind fun ss hss =>
        .pure (List.forall_mem_append.2 ⟨by simpa using ho, hss⟩)
    · exact .pure nofun

theorem bracedOf_tracks :
    StmtsTrack sources load P file (bracedOf inner n) (bracedOf inner' n) :=
  .after (.expect _) fun _ _ => (statementsOf_tracks hi).bind fun _ hss =>
    .after (.expect _) fun _ _ => .pure hss

theorem bodyOf_tracks : StmtTracks sources load P file (bodyOf inner) (bodyOf inner') := by
  refine .after .current fun kind _ => ?_
  split
  · refine hi.bind fun o ho => ?_
    cases o with
    | some st => exact .pure (ho st rfl)
    | none => exact .after .line fun l hl => .pure (.node (by simpa using hl) nofun nofun)
  · exact .own (.fail _)

theorem loopBodyOf_tracks :
    StmtTracks sources load P file (loopBodyOf inner) (loopBodyOf inner') :=
  .withLoop true (bodyOf_tracks hi)

theorem ifStatement_tracks :
    StmtTracks sources load P file (ifStatement inner n) (ifStatement inner' n) := by
  refine .after .line fun l hl => .after .advance fun _ _ =>
    .after conditionOf_within fun condition hc => (bodyOf_tracks hi).bind fun positive hp =>
    .after .current fun kind _ => ?_
  split
  · exact .after .advance fun _ _ => (bodyOf_tracks hi).bind fun negative hn =>
      .pure (.node (by simpa using hl) (by simpa using hc) (by simp [hp, hn]))
  · exact .pure (.node (by simpa using hl) (by simpa using hc) (by simpa using hp))

theorem whileStatement_tracks :
    StmtTracks sources load P file (whileStatement inner n) (whileStatement inner' n) :=
  .after .line fun _ hl => .after .advance fun _ _ => .after conditionOf_within fun _ hc =>
    (loopBodyOf_tracks hi).bind fun _ hbody =>
    .pure (.node (by simpa using hl) (by simpa using hc) (by simpa using hbody))

theorem loopStatement_tracks :
    StmtTracks sources load P file (loopStatement inner) (loopStatement inner') :=
  .after .line fun _ hl => .after .advance fun _ _ => (loopBodyOf_tracks hi).bind fun _ hbody =>
    .pure (.node (by simpa using hl) nofun (by simpa using hbody))

theorem doStatement_tracks :
    StmtTracks sources load P file (doStatement inner n) (doStatement inner' n) := by
  refine .after .line fun l hl => .after .advance fun _ _ =>
    (loopBodyOf_tracks hi).bind fun body hbody => .after .current fun kind _ => ?_
  have rest : StmtWithin P file (do
      advance
      let condition ← conditionOf n
      if ← atMark .semicolon then advance
      return Stmt.doWhile condition body l) := by
    refine Within.advance.after fun _ => conditionOf_within.bind fun condition hc =>
      (Within.atMark _).after fun atEnd => ?_
    have hst : (Stmt.doWhile condition body l).Within P file :=
      .node (by simpa using hl) (by simpa using hc) (by simpa using hbody)
    split
    · exact Within.advance.after fun _ => .pure hst
    · exact .pure hst
  split
  · exact .fail_bind _ _ _
  · exact .own rest

theorem forStatement_tracks :
    StmtTracks sources load P file (forStatement inner n) (forStatement inner' n) := by
  refine .after .line fun l hl => .after .advance fun _ _ => .after (.expect _) fun _ _ =>
    .after (forPart_within _ hl) fun init hinit => .after (.expect _) fun _ _ =>
    .after (forCondition_within hl) fun condition hc => .after (.expect _) fun _ _ =>
    .after (forPart_within _ hl) fun step hstep => .after (.expect _) fun _ _ =>
    (loopBodyOf_tracks hi).bind fun body hbody =>
    .pure (.node (by simpa using hl) (by simpa using hc) ?_)
  simp [hinit, hstep, hbody]

/-- A function of the file. -/
structure FunctionWithin (P : Option String → Nat → Prop) (file : Option String)
    (f : FunctionDef Stmt) : Prop where
  line : P file f.line
  bodyLine : P file f.bodyLine
  body : ∀ st ∈ f.body, st.Within P file

theorem functionOf_tracks :
    Tracks sources load (P file) (FunctionWithin P file) (functionOf inner n)
      (functionOf inner' n) :=
  .after .line fun _ hl => .after .advance fun _ _ => .after functionName_within fun _ _ =>
    .after (.expect _) fun _ _ => .after parameters_within fun _ _ =>
    .after (.expect _) fun _ _ => .after .line fun _ hbl =>
    (Tracks.withLoop false (bracedOf_tracks hi)).bind fun _ hbody =>
    .after .freshId fun _ _ => .pure ⟨hl, hbl, hbody⟩

theorem methodsOf_tracks {turns : Nat} {before : List (FunctionDef Stmt)}
    (hbefore : ∀ f ∈ before, FunctionWithin P file f) :
    Tracks sources load (P file) (fun fs => ∀ f ∈ fs, FunctionWithin P file f)
      (methodsOf inner n turns before) (methodsOf inner' n turns before) := by
  induction turns generalizing before with
  | zero => exact .own (.throw fun _ => trivial)
  | succ turns ih =>
    refine .after .current fun kind _ => ?_
    split
    · refine (functionOf_tracks hi).bind fun f hf => ?_
      split
      · exact .after (.failAt (Q := fun _ => False) _ hf.line) fun _ h => h.elim
      · exact ih (List.forall_mem_append.2 ⟨hbefore, List.forall_mem_singleton.2 hf⟩)
    · exact .pure hbefore

theorem classOf_tracks : StmtTracks sources load P file (classOf inner n) (classOf inner' n) := by
  refine .after .line fun l hl => .after .current fun kind _ => .after .advance fun _ _ =>
    .after (.expectName _) fun name _ => .after (.expect _) fun _ _ =>
    (methodsOf_tracks hi (by simp)).bind fun methods hm => .after (.atMark _) fun atEnd _ => ?_
  split
  · exact .fail_bind _ _ _
  · refine .after .advance fun _ _ => .after .freshId fun id _ => .pure (.node ?_ nofun ?_)
    · have own (f : FunctionDef Stmt) (hf : f ∈ methods) :
          ∀ l ∈ [f.line, f.bodyLine], P file l := by
        simp [(hm f hf).line, (hm f hf).bodyLine]
      refine List.forall_mem_cons.2 ⟨hl, fun k hk => ?_⟩
      obtain ⟨f, hf, hmem⟩ := List.mem_flatMap.1 hk
      exact own f hf k hmem
    · intro s hs
      obtain ⟨f, hf, hbody⟩ := List.mem_flatMap.1 hs
      obtain ⟨st, hst, rfl⟩ := List.mem_map.1 hbody
      exact (hm f hf).body st hst

theorem realizationOf_tracks :
    StmtTracks sources load P file (realizationOf inner n) (realizationOf inner' n) :=
  .after .line fun _ hl => .after (.expectName _) fun _ _ =>
    (Tracks.withLoop false (bracedOf_tracks hi)).bind fun _ hbody =>
    .pure (.node (by simpa using hl) nofun (by simpa using hbody))

theorem statementOf_tracks (hl : LoadsWithin sources load P) :
    OptionTracks sources load P file (statementOf load inner n)
      (statementOf (masked load) inner' n) := by
  have given {st : Stmt} (hst : st.Within P file) :
      OptionTracks sources load P file (pure (some st)) (pure (some st)) :=
    .pure (by simpa using hst)
  have one {p q : Parser Stmt} (hp : StmtTracks sources load P file p q) :
      OptionTracks sources load P file (do return some (← p)) (do return some (← q)) :=
    hp.bind fun _ hst => given hst
  have simple : OptionTracks sources load P file
      (do let s ← simpleStatement n; expect .semicolon; return some s)
      (do let s ← simpleStatement n; expect .semicolon; return some s) :=
    .after simpleStatement_within fun _ hst => .after (.expect _) fun _ _ => given hst
  refine .after .current fun kind _ => ?_
  cases kind with
  | keyword k =>
    cases k with
    | function =>
      refine (functionOf_tracks hi).bind fun f hf => given (.node ?_ nofun ?_)
      · simp [hf.line, hf.bodyLine]
      · simpa using hf.body
    | «return» => exact one (.own returnStatement_within)
    | global => exact one (.own globalStatement_within)
    | «if» => exact one (ifStatement_tracks hi)
    | «while» => exact one (whileStatement_tracks hi)
    | «do» => exact one (doStatement_tracks hi)
    | «for» => exact one (forStatement_tracks hi)
    | loop => exact one (loopStatement_tracks hi)
    | «break» =>
      exact one (.own (jumpStatement_within _ fun _ hl => .node (by simpa using hl) nofun nofun))
    | «continue» =>
      exact one (.own (jumpStatement_within _ fun _ hl => .node (by simpa using hl) nofun nofun))
    | classDef => exact one (classOf_tracks hi)
    | «instant» => exact one (classOf_tracks hi)
    | «include» => exact one (includeStatement_tracks hl)
    | _ => exact simple
  | mark m =>
    cases m with
    | semicolon => exact .after .advance fun _ _ => .pure (by simp)
    | leftBrace =>
      exact .after .line fun l hline => (bracedOf_tracks hi).bind fun ss hss =>
        given (.node (by simpa using hline) nofun (by simpa using hss))
    | _ => exact simple
  | ident =>
    refine .after (.ofReader Reader.Within.isBlockStartAhead) fun ahead _ => ?_
    split
    · exact one (realizationOf_tracks hi)
    · exact simple
  | _ => exact simple

omit hi in
theorem statement_tracks (hl : LoadsWithin sources load P) (n : Nat) :
    OptionTracks sources load P file (statement load n) (statement (masked load) n) := by
  induction n with
  | zero => exact .own (.throw fun _ => trivial)
  | succ n ih => exact statementOf_tracks ih hl

omit hi in
theorem program_tracks (hl : LoadsWithin sources load P) :
    StmtsTrack sources load P file (program load) (program (masked load)) := by
  refine .after .tokensLeft fun n _ => (statementsOf_tracks (statement_tracks hl n)).bind
    fun ss hss => .after .current fun kind _ => ?_
  split
  · exact .fail_bind _ _ _
  · exact .pure hss

end

end Parser

end CellScript
