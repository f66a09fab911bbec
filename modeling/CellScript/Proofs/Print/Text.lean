import CellScript.Parse.Script
import CellScript.Proofs.Print.Statements

/-!
# Printed texts

A canonical script is printed in lexemes that are scanned back, so the parser reads its text as the
script, up to lines and the identities of definitions.

* `Stmt.Canonical.spelled`: the lexemes of a canonical statement are scanned back;
* `Parser.openText_texts`: a printed text begins with the first of its lexemes, and all are to come;
* `Script.parseText_print`: the text of a canonical script is read as the script.
-/

namespace CellScript

/-- All lexemes are scanned back as what they are. -/
def Lexeme.AllSpelled (ls : List Lexeme) : Prop := ∀ l ∈ ls, l.Spelled

namespace Lexeme.AllSpelled

variable {ls ms : List Lexeme}

theorem nil : AllSpelled [] := nofun

theorem cons {l : Lexeme} (hl : l.Spelled) (h : AllSpelled ls) : AllSpelled (l :: ls) :=
  List.forall_mem_cons.2 ⟨hl, h⟩

theorem append (h : AllSpelled ls) (h' : AllSpelled ms) : AllSpelled (ls ++ ms) :=
  List.forall_mem_append.2 ⟨h, h'⟩

theorem mark {m : Mark} (h : AllSpelled ls) : AllSpelled (.mark m :: ls) := cons (.mark m) h

theorem keyword {k : Keyword} (h : AllSpelled ls) : AllSpelled (.keyword k :: ls) :=
  cons (.keyword k) h

theorem parens (h : AllSpelled ls) : AllSpelled (Lexeme.parens ls) := mark (h.append (mark nil))

theorem braces (h : AllSpelled ls) : AllSpelled (Lexeme.braces ls) := mark (h.append (mark nil))

theorem of_expression {e : Expr} (h : e.Canonical) : AllSpelled e.lexemes :=
  fun l hl => (h.inner l hl).1

theorem leading (h : AllSpelled ls) : AllSpelled (Lexeme.leading ls) := by
  unfold Lexeme.leading bracketed
  split
  · exact h.parens
  · exact h

theorem names {ps : List String} (h : ∀ p ∈ ps, IsName p) : AllSpelled (Lexeme.names ps) := by
  cases ps with
  | nil => exact nil
  | cons p ps =>
    refine cons (.name (h p List.mem_cons_self)) fun l hl => ?_
    obtain ⟨q, hq, hl⟩ := List.mem_flatMap.1 hl
    have hpair : AllSpelled [.mark .comma, .name q] :=
      mark (cons (.name (h q (List.mem_cons_of_mem _ hq))) nil)
    exact hpair l hl

/-- The word in front of an operator is a name. -/
theorem isName_operator : IsName "operator" :=
  ⟨⟨'o', ['p', 'e', 'r', 'a', 't', 'o', 'r'], by decide, by decide +kernel,
    List.all_eq_true.1 (by decide +kernel)⟩, by decide⟩

theorem functionName {n : String} (h : Stmt.IsFunctionName n) :
    AllSpelled (Lexeme.functionName n) := by
  unfold Lexeme.functionName
  split
  · exact cons (.name isName_operator) (mark nil)
  · next hfind =>
    rcases h with h | ⟨m, symbol, hm, rfl⟩
    · exact cons (.name h) nil
    · have hnone := List.find?_eq_none.1 hfind m (Mark.mem_all m)
      rw [hm] at hnone
      simp at hnone

theorem lexemesAll {ss : List Stmt} (h : ∀ st ∈ ss, AllSpelled st.lexemes) :
    AllSpelled (Stmt.lexemesAll ss) := by
  induction ss with
  | nil => exact nil
  | cons st ss ih =>
    exact (h st List.mem_cons_self).append (ih fun st hst => h st (List.mem_cons_of_mem _ hst))

theorem definition {f : FunctionDef Stmt} (hsig : Stmt.HasSignature f)
    (h : ∀ st ∈ f.body, AllSpelled st.lexemes) : AllSpelled (FunctionDef.lexemes f) := by
  obtain ⟨name, ps, body, bodyLine, id, l⟩ := f
  exact keyword ((functionName hsig.name).append
    ((parens (names hsig.parameters)).append (braces (lexemesAll h))))

theorem definitions {fs : List (FunctionDef Stmt)} (hsig : ∀ f ∈ fs, Stmt.HasSignature f)
    (h : ∀ f ∈ fs, ∀ st ∈ f.body, AllSpelled st.lexemes) :
    AllSpelled (FunctionDef.lexemesAll fs) := by
  induction fs with
  | nil => exact nil
  | cons f fs ih =>
    exact (definition (hsig f List.mem_cons_self) (h f List.mem_cons_self)).append
      (ih (fun f hf => hsig f (List.mem_cons_of_mem _ hf))
        fun f hf => h f (List.mem_cons_of_mem _ hf))

theorem simple {st : Stmt} (h : st.Simple) {front : List Lexeme → List Lexeme}
    (hfront : ∀ ls, AllSpelled ls → AllSpelled (front ls)) :
    AllSpelled (st.simpleLexemes front) := by
  cases h with
  | expression _ hc => exact hfront _ (of_expression hc)
  | assign _ _ hct hcv => exact (hfront _ (of_expression hct)).append (mark (of_expression hcv))
  | update _ _ hct hcv => exact (hfront _ (of_expression hct)).append (mark (of_expression hcv))

theorem part {st : Stmt} (h : st.Simple ∨ st.isNop = true) : AllSpelled (st.simpleLexemes id) := by
  rcases h with h | h
  · exact simple h fun _ h => h
  · cases st <;> first | exact nil | cases h

end Lexeme.AllSpelled

open Lexeme (AllSpelled) in
theorem Stmt.Canonical.spelled {st : Stmt} (h : st.Canonical) : AllSpelled st.lexemes := by
  induction h with
  | simple hs =>
    rw [hs.lexemes_eq]
    exact (AllSpelled.simple hs fun _ h => h.leading).append (.mark .nil)
  | nop => exact .mark .nil
  | realize hn _ _ ih => exact .cons (.name hn) (.braces (.lexemesAll ih))
  | block _ _ ih => exact .braces (.lexemesAll ih)
  | @branch _ _ negative _ _ hc _ _ _ ihp ihn =>
    refine .keyword ((AllSpelled.of_expression hc).parens.append (ihp.append ?_))
    cases negative with
    | none => exact .nil
    | some st => exact .keyword (ihn st rfl)
  | loop _ ih => exact .keyword ih
  | whileLoop _ hc _ ih => exact .keyword ((AllSpelled.of_expression hc).parens.append ih)
  | doWhile _ hc _ ih =>
    exact .keyword (ih.append (.keyword ((AllSpelled.of_expression hc).parens.append (.mark .nil))))
  | forLoop hinit _ hc hstep _ ih =>
    exact .keyword ((((AllSpelled.part hinit).append (.mark ((AllSpelled.of_expression hc).append
      (.mark (.part hstep)))))).parens.append ih)
  | «break» => exact .keyword (.mark .nil)
  | «continue» => exact .keyword (.mark .nil)
  | @«return» value _ hv =>
    refine .keyword (AllSpelled.append ?_ (.mark .nil))
    cases value with
    | none => exact .nil
    | some e => exact .of_expression (hv e rfl).2
  | global hn => exact .keyword (.cons (.name hn) (.mark .nil))
  | function hsig _ ih => exact .definition hsig ih
  | classDef hn _ hsig _ ih => exact .keyword (.cons (.name hn) (.braces (.definitions hsig ih)))

/-! ## Reading the text -/

/-- A reader opened on a printed text faces its lexemes. -/
theorem Parser.openText_texts {ls : List Lexeme} (h : Lexeme.AllSpelled ls) (path : Option String) :
    ∃ r, openText path (Lexeme.texts ls) = .ok r ∧ r.Faces ls ∧
      ls.length ≤ r.stream.steps.length + 1 := by
  obtain ⟨ts, hts, hls⟩ := Lexeme.steps_ofChars fun l hl => (h l hl).formed
  unfold openText Reader.ofStream TokenStream.next
  rw [hts]
  subst hls
  cases ts with
  | nil => exact ⟨_, rfl, ⟨[], hts, 1, rfl⟩, by simp⟩
  | cons t ts => exact ⟨_, rfl, ⟨ts, rfl, 0, (List.append_nil _).symm⟩, by simp⟩

/-- A program reads the statements that it faces, up to the end. -/
theorem Parser.program_faces {load : String → Parser (List Stmt)} {env : ParseEnv} {s : ParseState}
    {ss : List Stmt} (hrow : Stmt.Row ss) (hclosed : Stmt.closedAll env.inLoop ss = true)
    (hs : s.Faces (Stmt.lexemesAll ss))
    (hlen : (Stmt.lexemesAll ss).length ≤ s.reader.stream.steps.length + 1) :
    (program load).Ends env s (fun as _ => Stmt.unplacedAll as = Stmt.unplacedAll ss) Never := by
  have hreads : ∀ st ∈ ss, Stmt.ReadsAs load env.inLoop st := fun st hst =>
    (hrow.canonical st hst).readsAs _ (Stmt.closedAll_iff.1 hclosed st hst)
  unfold program
  rw [ends_tokensLeft_bind]
  rw [← List.append_nil (Stmt.lexemesAll ss)] at hs hlen
  refine Ends.bind (statementsOf_faces hreads (fun st hst => (hrow.canonical st hst).starting)
    hrow.noNop rfl (fun h => by cases h) hs (by omega) (by omega)) fun as t ⟨ht, has⟩ => ?_
  have hend : t.reader.current.kind = .endOfSource := ht.kind
  rw [ends_current_bind, hend]
  exact (ends_pure _ _).2 has

/-- The text of a script that can be printed is read as the script. -/
theorem Script.parseText_print {script : Script} (hrow : Stmt.Row script.statements)
    (hclosed : Stmt.closedAll false script.statements = true) (sources : Sources) (unit : Nat)
    (path : Option String) :
    ∃ again, (parseText sources unit path script.print).result = .ok again ∧
      again.unplaced = script.unplaced := by
  obtain ⟨r, hopen, hfaces, hlen⟩ := Parser.openText_texts
    (.lexemesAll fun st hst => (hrow.canonical st hst).spelled) path
  have hprogram : (Parser.program (Parser.load (Parser.includeDepth sources))).Ends
      ⟨sources, path, [], unit, false⟩ ⟨r, 0, []⟩
      (fun as _ => Stmt.unplacedAll as = Stmt.unplacedAll script.statements) Parser.Never :=
    Parser.program_faces hrow hclosed hfaces hlen
  unfold parseText Parser.run Script.print
  rw [String.toList_ofList]
  rw [show (.ok _ >>= Parser.openText path) = Except.ok r from hopen]
  dsimp only
  split
  · next ss s hparse => exact ⟨⟨ss⟩, rfl, congrArg Script.mk (hprogram.ok hparse)⟩
  · next f s hparse => exact (hprogram.error hparse).elim

end CellScript
