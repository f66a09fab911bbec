import CellScript.Proofs.Parse.Masked

/-!
# Positions in sources

Every node of a script stands on a line of the file that it was read from, and an error that points
into a source names the file that was being parsed, and a line of it.

Files are parsed inside of each other, so the second statement has to say which one was being
parsed. A file with its included files masked either stops by itself, or at one of them, and then
the parser stops in that one or below: from one file to the next this leads to the file in which the
parser stops.

* `Parser.load_within`: the nodes of included files;
* `Parser.Visit.stopsIn`: the file in which the parser stops;
* `source_positions_real`: the positions of trees and of errors.
-/

namespace CellScript

/-- Where a parser stands in a file that is included. -/
def ParseEnv.inside (env : ParseEnv) (path : String) : ParseEnv :=
  { env with path := some path, including := env.including ++ [path], inLoop := false }

namespace Parser

/-! ## Files -/

/-- The text of a file of a script: of the one read first, or of an included one. -/
def textOf (sources : Sources) (text : List Char) :
    Option String → Except ParseFailure (List Char)
  | none => .ok text
  | some path => readText sources path

/-- The file has a text, and the text such a line. -/
def IsPlace (sources : Sources) (text : List Char) (file : Option String) (line : Nat) : Prop :=
  ∃ cs, textOf sources text file = .ok cs ∧ InLines cs line

theorem openText_within {L : Nat → Prop} {text : List Char} (path : Option String)
    (h : ∀ l, InLines text l → L l) :
    match openText path text with
    | .ok r => r.Within L
    | .error f => f.At path L := by
  have hstream := Reader.Within.ofStream (TokenStream.within_ofChars h)
  unfold openText
  cases hopen : Reader.ofStream (.ofChars text) with
  | ok r =>
    rw [hopen] at hstream
    exact hstream
  | error e =>
    rw [hopen] at hstream
    exact ⟨rfl, hstream⟩

/-- What cannot be read is no fault of a source. -/
theorem readText_ne_malformed (sources : Sources) (path : String) (e : ParseError) :
    readText sources path ≠ .error (.malformed e) := by
  unfold readText
  split
  · nofun
  · split <;> nofun

section

variable {env : ParseEnv} {s : ParseState} {path : String} (depth : Nat)

theorem load_of_error {f : ParseFailure} (hread : readText env.sources path = .error f) :
    load (depth + 1) path env s = .error f s := by
  unfold load insideFile
  rw [hread]
  rfl

/-- An included file is parsed from its first token on, and then the reader is put back. -/
theorem load_of_ok {text : List Char} (hread : readText env.sources path = .ok text) :
    load (depth + 1) path env s =
      match openText (some path) text with
      | .error f => .error f s
      | .ok r =>
        match program (load depth) (env.inside path) { s with reader := r } with
        | .ok ss t => .ok ss { t with reader := s.reader }
        | .error f t => .error f t := by
  unfold load insideFile
  rw [hread]
  rfl

end

/-- The nodes of an included file are on its lines. -/
theorem load_within {sources : Sources} (text : List Char) (depth : Nat) :
    LoadsWithin sources (load depth) (IsPlace sources text) := by
  induction depth with
  | zero =>
    intro path env s ss t _ h
    cases h
  | succ depth ih =>
    intro path env s ss t henv h
    cases hread : readText env.sources path with
    | error f =>
      rw [load_of_error depth hread] at h
      cases h
    | ok inside =>
      have hopen := openText_within (L := IsPlace sources text (some path)) (some path)
        fun l hl => ⟨inside, henv ▸ hread, hl⟩
      rw [load_of_ok depth hread] at h
      split at h
      · cases h
      · next r hr =>
        rw [hr] at hopen
        have htracks := program_tracks ih (env.inside path) { s with reader := r } henv hopen
        split at h
        · next ss t hprogram =>
          rw [hprogram] at htracks
          cases h
          exact ⟨rfl, htracks.2.2⟩
        · cases h

/-! ## The file in which the parser stops -/

/-- A file that is being read: where the parser stands, its text, and what was read before it. -/
structure Visit where
  env : ParseEnv
  text : List Char
  /-- The number of its first definition. -/
  ordinal : Nat
  /-- The files included before, last first. -/
  included : List String

namespace Visit

/-- The included file at which a file stops, if it does not stop by itself, and the state in which
that one was to be read. -/
def faultyInclude? (load : String → Parser (List Stmt)) (v : Visit) :
    Option (String × ParseState) :=
  match openText v.env.path v.text with
  | .error _ => none
  | .ok r =>
    match program (masked load) v.env ⟨r, v.ordinal, v.included⟩ with
    | .error (.unreadable path _) s => some (path, s)
    | _ => none

/-- The file that is being parsed when the parser stops: this one, or the one in which the parser
stops when it reads the included file at which this one stops. -/
def stopsIn : (depth : Nat) → Visit → Visit
  | 0, v => v
  | depth + 1, v =>
    match v.faultyInclude? (load depth) with
    | none => v
    | some (path, s) =>
      match readText v.env.sources path with
      | .error _ => v
      | .ok text => stopsIn depth ⟨v.env.inside path, text, s.ordinal, s.included⟩

/-- Where a fault of a source is said to be: in this file, on one of its lines. -/
def Locates (v : Visit) (e : ParseError) : Prop := e.path = v.env.path ∧ InLines v.text e.line

/-- A file at whose first token there is a fault stops there. -/
theorem stopsIn_of_openText {v : Visit} {f : ParseFailure}
    (h : openText v.env.path v.text = .error f) (depth : Nat) : v.stopsIn depth = v := by
  cases depth with
  | zero => rfl
  | succ depth =>
    unfold stopsIn faultyInclude?
    rw [h]

theorem locates_of_at {v : Visit} {e : ParseError}
    (h : ParseFailure.At v.env.path (IsPlace v.env.sources v.text none) (.malformed e)) :
    v.Locates e := by
  obtain ⟨hpath, cs, hcs, hline⟩ := h
  cases hcs
  exact ⟨hpath, hline⟩

/-- The file in which the parser stops is this one, or an included one with its own text. -/
theorem stopsIn_eq_or (depth : Nat) (v : Visit) :
    v.stopsIn depth = v ∨ ∃ path, (v.stopsIn depth).env.path = some path ∧
      readText v.env.sources path = .ok (v.stopsIn depth).text := by
  induction depth generalizing v with
  | zero => exact .inl rfl
  | succ depth ih =>
    unfold stopsIn
    split
    · exact .inl rfl
    · next path s _ =>
      split
      · exact .inl rfl
      · next text hread =>
        rcases ih ⟨v.env.inside path, text, s.ordinal, s.included⟩ with hself | hbelow
        · rw [hself]
          exact .inr ⟨path, rfl, hread⟩
        · exact .inr hbelow

/-- A fault at the first token is located in the file. -/
theorem locates_of_openText {v : Visit} {e : ParseError}
    (h : openText v.env.path v.text = .error (.malformed e)) : v.Locates e := by
  have hopen := openText_within (L := IsPlace v.env.sources v.text none) v.env.path
    fun l hl => ⟨v.text, rfl, hl⟩
  rw [h] at hopen
  exact locates_of_at hopen

/-- The file that a file stops at is read next. -/
theorem stopsIn_of_faultyInclude? {v : Visit} {depth : Nat} {path : String} {s : ParseState}
    {text : List Char} (h : v.faultyInclude? (load depth) = some (path, s))
    (hread : readText v.env.sources path = .ok text) :
    v.stopsIn (depth + 1) =
      stopsIn depth ⟨v.env.inside path, text, s.ordinal, s.included⟩ := by
  rw [stopsIn, h]
  dsimp only
  rw [hread]

/-- An error of a file is located in the file that is being parsed when the parser stops. -/
theorem stopsIn_locates (depth : Nat) (v : Visit) {r : Reader} {e : ParseError} {t : ParseState}
    (hopen : openText v.env.path v.text = .ok r)
    (h : program (load depth) v.env ⟨r, v.ordinal, v.included⟩ = .error (.malformed e) t) :
    (v.stopsIn (depth + 1)).Locates e := by
  induction depth using Nat.strongRecOn generalizing v r with
  | ind depth ih =>
    have hwithin := openText_within (L := IsPlace v.env.sources v.text none) v.env.path
      fun l hl => ⟨v.text, rfl, hl⟩
    rw [hopen] at hwithin
    have htracks := program_tracks (load_within v.text depth) v.env ⟨r, v.ordinal, v.included⟩ rfl
      hwithin
    rw [h] at htracks
    rcases htracks with ⟨hmasked, hat⟩ | ⟨path, inLoop, u, hmasked, hload⟩
    · have hself : v.stopsIn (depth + 1) = v := by
        rw [stopsIn, faultyInclude?, hopen]
        dsimp only
        rw [hmasked]
      rw [hself]
      exact locates_of_at hat
    · have hfaulty : v.faultyInclude? (load depth) = some (path, u) := by
        rw [faultyInclude?, hopen]
        dsimp only
        rw [hmasked]
      cases depth with
      | zero => cases hload
      | succ depth =>
        -- Whether the include stands in a loop is forgotten in the included file.
        have forgotten : load (depth + 1) path { v.env with inLoop } u =
            load (depth + 1) path v.env u := rfl
        rw [forgotten] at hload
        cases hread : readText v.env.sources path with
        | error f =>
          rw [load_of_error depth hread] at hload
          cases hload
          exact absurd hread (readText_ne_malformed _ _ _)
        | ok text =>
          rw [load_of_ok depth hread] at hload
          rw [stopsIn_of_faultyInclude? hfaulty hread]
          split at hload
          · next f hf =>
            cases hload
            rw [stopsIn_of_openText hf]
            exact locates_of_openText hf
          · next r' hr =>
            split at hload
            · cases hload
            · next f w hprogram =>
              cases hload
              exact ih depth (Nat.lt_succ_self _) _ hr hprogram

end Visit

end Parser

/-! ## Whole sources -/

namespace ParseOutcome

/-- The positions of what came of parsing a file: the nodes of the script are on lines of the files
that they were read from. An error is located in the file that was being parsed, which is this one
or an included one. -/
structure Positioned (out : ParseOutcome) (v : Parser.Visit) (stop : Parser.Visit) : Prop where
  nodes : ∀ script, out.result = .ok script → ∀ place ∈ script.places,
    Parser.IsPlace v.env.sources v.text place.1 place.2
  error : ∀ e, out.result = .error (.malformed e) → stop.Locates e
  file : stop = v ∨ ∃ path, stop.env.path = some path ∧
    Parser.readText v.env.sources path = .ok stop.text

end ParseOutcome

namespace Parser.Visit

/-- The file that is read first. -/
def first (sources : Sources) (unit : Nat) (path : Option String) (including : List String)
    (text : List Char) : Visit :=
  ⟨⟨sources, path, including, unit, false⟩, text, 0, []⟩

/-- The file that is being parsed when the parser stops, of the files below the first one. -/
def stop (v : Visit) : Visit := v.stopsIn (includeDepth v.env.sources + 1)

end Parser.Visit

/-- What is in a parsed script is on lines of its files. -/
theorem Parser.within_of_run {sources : Sources} {unit : Nat} {path : Option String}
    {including : List String} {text : List Char} {script : Script}
    (h : (run sources unit path including (.ok text)).result = .ok script) :
    ∀ st ∈ script.statements, st.Within (IsPlace sources text) none := by
  have hopen := openText_within (L := IsPlace sources text none) path
    fun l hl => ⟨text, rfl, hl⟩
  unfold run at h
  dsimp only [bind, Except.bind] at h
  cases hr : openText path text with
  | error f =>
    rw [hr] at h
    cases h
  | ok r =>
    rw [hr] at h hopen
    have htracks := program_tracks (load_within text (includeDepth sources))
      (Visit.first sources unit path including text).env ⟨r, 0, []⟩ rfl hopen
    dsimp only at h
    split at h
    · next ss s hprogram =>
      cases h
      have hprogram : program (load (includeDepth sources))
        (Visit.first sources unit path including text).env ⟨r, 0, []⟩ = .ok ss s := hprogram
      rw [hprogram] at htracks
      exact htracks.2.2
    · cases h

theorem Parser.run_positioned (sources : Sources) (unit : Nat) (path : Option String)
    (including : List String) (text : List Char) :
    let v := Visit.first sources unit path including text
    (run sources unit path including (.ok text)).Positioned v v.stop := by
  intro v
  refine ⟨fun script hscript => ?_, fun e he => ?_, v.stopsIn_eq_or _⟩
  · have firstLine : InLines text 1 := ⟨Nat.le_refl 1, Nat.le_add_right 1 _⟩
    refine List.forall_mem_cons.2 ⟨⟨text, rfl, firstLine⟩, fun place hplace => ?_⟩
    obtain ⟨st, hst, hmem⟩ := Stmt.mem_placesAll.1 hplace
    exact (within_of_run hscript st hst).places place hmem
  · unfold run at he
    dsimp only [bind, Except.bind] at he
    cases hr : openText path text with
    | error f =>
      rw [hr] at he
      cases he
      rw [Visit.stop, Visit.stopsIn_of_openText hr]
      exact Visit.locates_of_openText hr
    | ok r =>
      rw [hr] at he
      dsimp only at he
      split at he
      · cases he
      · next f s hprogram =>
        cases he
        exact Visit.stopsIn_locates _ v hr hprogram

/-- Source positions are real, whatever the text and the files. Of a script that is parsed, every
node has a line of the file that it was read from, the nodes inside of an include a line of the
included file. Of an error that points into a source, the path is that of the file that was being
parsed, and the line is one of its lines. A file that cannot be read gives no such error. -/
theorem source_positions_real (sources : Sources) (unit : Nat) :
    (∀ path text,
      let v := Parser.Visit.first sources unit path [] text.toList
      (parseText sources unit path text).Positioned v v.stop) ∧
    ∀ path,
      let full := sources.files.absolute path
      match Parser.readText sources full with
      | .ok text =>
        let v := Parser.Visit.first sources unit (some full) [full] text
        (parseFile sources unit path).Positioned v v.stop
      | .error f => (parseFile sources unit path).result = .error f ∧ ∀ e, f ≠ .malformed e := by
  refine ⟨fun path text => Parser.run_positioned sources unit path [] text.toList,
    fun path => ?_⟩
  dsimp only
  unfold parseFile
  dsimp only
  cases hread : Parser.readText sources (sources.files.absolute path) with
  | ok text => exact Parser.run_positioned sources unit _ _ text
  | error f =>
    refine ⟨rfl, fun e he => ?_⟩
    rw [he] at hread
    exact Parser.readText_ne_malformed _ _ _ hread

/-- A fault on the last of the three lines of an included file, which is included on the second. -/
theorem source_positions_real_included :
    let sources : Sources := ⟨.ofFiles "/" [("/part", [10, 10, 41])], [], []⟩
    ∃ e, (parseText sources 0 none "\ninclude \"/part\";").result = .error (.malformed e) ∧
      e.path = some "/part" ∧ 1 ≤ e.line ∧ e.line ≤ 3 := by
  intro sources
  have positioned := (source_positions_real sources 0).1 none "\ninclude \"/part\";"
  have fails : (match (parseText sources 0 none "\ninclude \"/part\";").result with
      | .error f => decide (f = .malformed ⟨.syntaxError, 3, some "/part"⟩)
      | .ok _ => false) = true := by decide +kernel
  have stops : let w := (Parser.Visit.first sources 0 none [] "\ninclude \"/part\";".toList).stop
      w.env.path = some "/part" ∧ w.text = ['\n', '\n', ')'] := by decide +kernel
  split at fails
  · next f hf =>
    rw [of_decide_eq_true fails] at hf
    obtain ⟨hpath, hline⟩ := positioned.error _ hf
    rw [stops.1] at hpath
    rw [stops.2] at hline
    exact ⟨_, hf, hpath, hline⟩
  · cases fails

end CellScript
