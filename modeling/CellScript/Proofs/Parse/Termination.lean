import Mathlib.Data.List.Perm.Subperm
import CellScript.Proofs.Files.Resolved
import CellScript.Proofs.Parse.Nesting
import CellScript.Proofs.Token.Scan

/-!
# Parsing ends

The parser is bounded in three ways: by the tokens of a file, by the depth of includes, and by the
characters of a text. None of the bounds is ever reached, whatever the files are and however they
include each other. Inside a file every statement takes a token. From file to file the paths on the
way from the root differ from each other, and each but the first belongs to a file of the tree.

* `Parser.loads`: the bound on the depth of includes is enough, by induction on it;
* `Parser.Settled`: the outcome is a script with its includes apart, or a fault of the source;
* `Sources.parse_ends`: texts and files are settled.
-/

namespace CellScript

namespace Parser

/-! ## Opening files -/

theorem bounded_of_readText {sources : Sources} {path : String} {f : ParseFailure}
    (h : readText sources path = .error f) : Bounded f := by
  unfold readText at h
  split at h
  · cases h
    exact nofun
  · split at h
    · cases h
      exact nofun
    · cases h

theorem bounded_of_openText {path : Option String} {text : List Char} {f : ParseFailure}
    (h : openText path text = .error f) : Bounded f := by
  unfold openText at h
  split at h
  · cases h
  · cases h
    exact nofun

theorem ahead_of_openText {path : Option String} {text : List Char} {r : Reader}
    (h : openText path text = .ok r) : r.ahead = none := by
  unfold openText Reader.ofStream at h
  split at h
  · next hr =>
    cases h
    split at hr
    · cases hr
      rfl
    · cases hr
  · cases h

/-- A text is opened at its first token, or there is a fault in it. -/
theorem bind_openText (path : Option String) (text : Except ParseFailure (List Char))
    (ht : ∀ f, text = .error f → Bounded f) :
    (∃ f, (text >>= openText path) = .error f ∧ Bounded f) ∨
      ∃ r, (text >>= openText path) = .ok r ∧ r.ahead = none := by
  cases text with
  | error f => exact .inl ⟨f, rfl, ht f rfl⟩
  | ok cs =>
    change (∃ f, openText path cs = .error f ∧ Bounded f) ∨ ∃ r, openText path cs = .ok r ∧ _
    cases h : openText path cs with
    | error f => exact .inl ⟨f, rfl, bounded_of_openText h⟩
    | ok r => exact .inr ⟨r, rfl, ahead_of_openText h⟩

/-! ## Files inside files -/

/-- The environments of a file: the sources at hand, and the files on the way to it. -/
def InFiles (sources : Sources) (outer : List String) (env : ParseEnv) : Prop :=
  env.sources = sources ∧ env.including = outer

variable {sources : Sources} (hdir : Path.isAbsolute sources.files.workingDirectory = true)

include hdir

/-- Files on the way to an included one are different files of the tree, so that the depth of
includes has room for the rest of them. -/
theorem loads (depth : Nat) (root way : List String) (hway : way.Nodup)
    (hfiles : way ⊆ sources.files.filePaths)
    (hroom : sources.files.filePaths.length < depth + way.length) :
    Loads (InFiles sources (root ++ way)) (root ++ way) (load depth) := by
  induction depth generalizing way with
  | zero =>
    have := (List.subperm_of_subset hway hfiles).length_le
    omega
  | succ depth ih =>
    refine ⟨fun _ he => he.2, fun _ _ he => he, ?_⟩
    intro env s name path he hpath hnew
    have hway' : (way ++ [path]).Nodup := by
      refine List.nodup_append.2 ⟨hway, by simp, fun p hp q hq heq => hnew ?_⟩
      rw [List.mem_singleton.1 hq] at heq
      exact List.mem_append_right _ (heq ▸ hp)
    have hfiles' : way ++ [path] ⊆ sources.files.filePaths := by
      refine List.append_subset.2 ⟨hfiles, List.cons_subset.2 ⟨?_, List.nil_subset _⟩⟩
      exact Sources.mem_filePaths_of_resolve? hdir (he.1 ▸ hpath)
    have hinner := ih (way ++ [path]) hway' hfiles'
      (by rw [List.length_append, List.length_singleton]; omega)
    rw [← List.append_assoc] at hinner
    constructor
    unfold load insideFile
    rcases bind_openText (some path) (readText env.sources path)
      (fun _ => bounded_of_readText) with ⟨f, hopen, hf⟩ | ⟨r, hopen, hr⟩
    · rw [hopen]
      exact hf
    · rw [hopen]
      have hprogram := program_ends hinner { env with
        path := some path, including := env.including ++ [path], inLoop := false }
        { s with reader := r } ⟨he.1, by rw [he.2]⟩ hr
      dsimp only
      split
      · next hok =>
        split at hok
        · next hp =>
          cases hok
          exact ⟨Nat.le_refl _, hprogram.ok hp⟩
        · cases hok
      · next herr =>
        split at herr
        · cases herr
        · next hp =>
          cases herr
          exact hprogram.error hp

/-! ## Whole sources -/

omit hdir

/-- Parsing gave a script in which no file is included inside itself or inside one of `outer`, or
it found a fault; it did not stop because of a bound. -/
def Settled (outer : List String) (o : ParseOutcome) : Prop :=
  (∃ script, o.result = .ok script ∧ Stmt.IncludesApart outer script.statements) ∨
    ∃ f, o.result = .error f ∧ f ≠ .outOfFuel

include hdir

theorem run_settled (unit : Nat) (path : Option String) (root : List String)
    (text : Except ParseFailure (List Char)) (ht : ∀ f, text = .error f → Bounded f) :
    Settled root (run sources unit path root text) := by
  have hloads := loads hdir (includeDepth sources) root [] List.nodup_nil
    (List.nil_subset _) (by rw [FileTree.length_filePaths]; unfold includeDepth; omega)
  rw [List.append_nil] at hloads
  unfold run
  rcases bind_openText path text ht with ⟨f, hopen, hf⟩ | ⟨r, hopen, hr⟩
  · rw [hopen]
    exact .inr ⟨f, rfl, hf⟩
  · rw [hopen]
    have hprogram := program_ends hloads ⟨sources, path, root, unit, false⟩ ⟨r, 0, []⟩
      ⟨rfl, rfl⟩ hr
    dsimp only
    split
    · next hp => exact .inl ⟨_, rfl, hprogram.ok hp⟩
    · next hp => exact .inr ⟨_, rfl, hprogram.error hp⟩

end Parser

/-- Parsing a text or a file ends with a script or with a fault of the sources, whatever files there
are and however they include each other. In the script no file is included inside itself, nor is the
file that was parsed. The lexer ends too: it takes at most one turn for each character. -/
theorem Sources.parse_ends (sources : Sources) (unit : Nat)
    (hdir : Path.isAbsolute sources.files.workingDirectory = true) :
    (∀ path text, Parser.Settled [] (parseText sources unit path text)) ∧
      (∀ path, Parser.Settled [sources.files.absolute path] (parseFile sources unit path)) ∧
      ∀ turns (text : List Char), text.length ≤ turns →
        TokenStream.scanFrom turns .start text = TokenStream.ofChars text := by
  refine ⟨fun path text => ?_, fun path => ?_, fun turns text h => ?_⟩
  · unfold parseText
    exact Parser.run_settled hdir unit path [] (.ok text.toList) nofun
  · unfold parseFile
    exact Parser.run_settled hdir unit _ _ _ fun _ => Parser.bounded_of_readText
  · exact TokenStream.scanFrom_of_le .start h (Nat.le_refl _)

/-- Two files that include each other. -/
def mutualIncludes : Sources where
  files := .ofFiles "/w"
    [("a", "include \"b\";".toUTF8.toList), ("b", "include \"a\";".toUTF8.toList)]
  includeDirs := []
  searchPath := []

theorem Sources.parse_ends_mutual :
    Path.isAbsolute mutualIncludes.files.workingDirectory = true ∧
      (parseFile mutualIncludes 0 "a").result =
        .error (.malformed ⟨.recursiveInclude "a", 1, some "/w/b"⟩) ∧
      Parser.Settled ["/w/a"] (parseFile mutualIncludes 0 "a") ∧
      Parser.Settled [] (parseText mutualIncludes 0 none "include \"a\";") := by
  have hdir : Path.isAbsolute mutualIncludes.files.workingDirectory = true := by decide +kernel
  have hfull : mutualIncludes.files.absolute "a" = "/w/a" := by decide +kernel
  have hcycle : (match (parseFile mutualIncludes 0 "a").result with
      | .error f => decide (f = .malformed ⟨.recursiveInclude "a", 1, some "/w/b"⟩)
      | .ok _ => false) = true := by decide +kernel
  obtain ⟨htext, hfile, -⟩ := parse_ends mutualIncludes 0 hdir
  refine ⟨hdir, ?_, hfull ▸ hfile "a", htext none _⟩
  split at hcycle
  · next f hf => rw [hf, of_decide_eq_true hcycle]
  · cases hcycle

end CellScript
