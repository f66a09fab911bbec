import CellScript.Console.Repl
import CellScript.Proofs.Session.Globals

/-!
# Failures in a dialogue

What a user types fails while it is read and evaluated, or while its value is turned into the text
that is shown. The failure of a script at the first stage is always reported, and the dialogue goes
on with its globals. At the second stage nothing is reported and the dialogue ends with the failure,
so that a dialogue survives its inputs exactly if the text of no value fails.

* `Repl.Asked`, `Repl.Meets`: the inputs that a dialogue comes to and runs;
* `Repl.Meets.whole`: what the answer to an input means for the whole dialogue, by induction on the
  entries;
* `Repl.dialogue_survives_iff`: which dialogues survive.
-/

namespace CellScript

namespace Repl

variable {host : Host}

/-! ## The inputs of a dialogue -/

/-- The input that ends with a line, if it is one to be run: not a word for the dialogue itself, and
not a comment. -/
def input? (r : Repl) (line : String) : Option String :=
  let word := String.ofList (trim line.toList)
  let pending := r.pending.add line
  let source := pending.text
  if (word == "exit" || word == "quit") && r.pending.lines.isEmpty then none
  else if !pending.isComplete then none
  else if source.isEmpty || ['/', '/'].isPrefixOf source.toList then none
  else if lowerCase source == "verbose-mode" || lowerCase source == "reset" then none
  else some source

/-- An input that a dialogue comes to: the dialogue then, the text, what has been written so far,
and the entries that are left. -/
structure Asked where
  repl : Repl
  source : String
  output : Output
  rest : List (Option String)

/-- A dialogue comes to an input. -/
inductive Meets (host : Host) : Repl → Output → List (Option String) → Asked → Prop
  | here {r : Repl} {o : Output} {line source : String} {rest : List (Option String)}
      (h : r.input? line = some source) :
      Meets host r o (some line :: rest)
        ⟨{ r with pending := .empty }, source, o.write r.prompt, rest⟩
  | later {r r' : Repl} {o o' : Output} {line : String} {rest : List (Option String)} {a : Asked}
      (h : r.enter host line (o.write r.prompt) = (o', .ok r')) (ha : Meets host r' o' rest a) :
      Meets host r o (some line :: rest) a

namespace Asked

/-- How the dialogue answers. -/
def answered (host : Host) (a : Asked) : Output × Except Ending Repl :=
  a.repl.answer host a.source a.output

/-- Evaluating the input fails. -/
def EvaluationFails (host : Host) (a : Asked) (f : SessionFailure) (s : Session) : Prop :=
  evaluate host a.source a.repl.session = .error f s

/-- The input has a value, but showing it fails. -/
def ShowingFails (host : Host) (a : Asked) (f : SessionFailure) (s : Session) : Prop :=
  ∃ c t, evaluate host a.source a.repl.session = .ok c t ∧ shown host c t = .error f s

/-- With a failure in this session, the dialogue reports it and goes on with the entries that are
left, in that session, with nothing pending and with the globals from before the input. -/
def Survives (host : Host) (whole : Output × Ending) (a : Asked) (f : SessionFailure)
    (s : Session) : Prop :=
  ∀ kind message, report? f = some (kind, message) →
    let (r, o) := flush { a.repl with session := s } a.output
    whole = r.converse host (o.line (reportText r.verbose kind message)) a.rest ∧
      r.pending = .empty ∧ a.repl.session.state.KeepsGlobals r.session.state

end Asked

/-! ## Steps -/

theorem enter_of_input? {r : Repl} {line source : String} (h : r.input? line = some source)
    (o : Output) :
    r.enter host line o = { r with pending := .empty }.answer host source o := by
  unfold input? at h
  dsimp only at h
  split at h
  · cases h
  next hword =>
  split at h
  · cases h
  next hcomplete =>
  split at h
  · cases h
  next hrun =>
  split at h
  · cases h
  next hcommand =>
  cases h
  rw [Bool.or_eq_true, not_or] at hcommand
  have complete : (r.pending.add line).isComplete = true := by simpa using hcomplete
  unfold enter perform
  simp only [hword, complete, hrun, hcommand.1, hcommand.2, Bool.false_eq_true, if_false, if_true]

/-- What is not run is no failure. -/
theorem enter_of_not_input? (host : Host) {r : Repl} {line : String} (h : r.input? line = none)
    (o : Output) :
    (∃ o', r.enter host line o = (o', .error (.exit 0))) ∨
      ∃ o' r', r.enter host line o = (o', .ok r') := by
  unfold enter
  dsimp only
  split
  · exact .inl ⟨_, rfl⟩
  next hword =>
  split
  · next hcomplete =>
    unfold perform
    split
    · exact .inr ⟨_, _, rfl⟩
    next hrun =>
    split
    · exact .inr ⟨_, _, rfl⟩
    next hverbose =>
    split
    · obtain ⟨s, hs⟩ := Session.reset_completes r.session
      rw [hs]
      exact .inr ⟨_, _, rfl⟩
    next hreset =>
    -- Here the text would have been run.
    unfold input? at h
    simp [hword, hcomplete, hrun, hverbose, hreset] at h
  · exact .inr ⟨_, _, rfl⟩

theorem converse_cons (r : Repl) (o : Output) (line : String) (rest : List (Option String)) :
    r.converse host o (some line :: rest) =
      match r.enter host line (o.write r.prompt) with
      | (o, .ok r) => r.converse host o rest
      | (o, .error ending) => (o, ending) := by
  cases h : r.enter host line (o.write r.prompt) with
  | mk o answer => cases answer <;> simp only [converse, h]

/-! ## Answers -/

section

variable {α β : Type}

/-- If the step fails, then something that was run has failed, and nothing was parsed. -/
def OnlyRuns (x : SessionM α) : Prop := ∀ s f t, x s = .error f t → ∃ g, f = .run g

theorem OnlyRuns.pure (a : α) : OnlyRuns (pure a) := fun _ _ _ h => nomatch h

theorem OnlyRuns.lift (x : Exec α) : OnlyRuns (Session.lift x) := by
  intro s f t h
  unfold Session.lift at h
  dsimp only at h
  split at h
  · cases h
  · cases h
    exact ⟨_, rfl⟩

theorem OnlyRuns.bind {x : SessionM α} {k : α → SessionM β} (hx : OnlyRuns x)
    (hk : ∀ a, OnlyRuns (k a)) : OnlyRuns (x >>= k) := by
  intro s f t h
  change EStateM.bind x k s = _ at h
  unfold EStateM.bind at h
  split at h
  · exact hk _ _ _ _ h
  · next herror =>
    cases h
    exact hx _ _ _ herror

theorem onlyRuns_shown (c : Cell) : OnlyRuns (shown host c) := by
  refine (OnlyRuns.lift (Exec.kindOf c)).bind fun kind => ?_
  split
  · exact .pure _
  · exact (OnlyRuns.lift (Exec.fullText (Session.interp host) c none)).bind fun _ => .pure _

end

namespace Asked

variable {a : Asked} {f : SessionFailure} {s : Session}

/-- A script's failure to be evaluated is reported. -/
theorem answered_of_evaluationFails (h : a.EvaluationFails host f s) {kind message : String}
    (hf : report? f = some (kind, message)) :
    a.answered host =
      let (r, o) := flush { a.repl with session := s } a.output
      (o.line (reportText r.verbose kind message), .ok r) := by
  unfold EvaluationFails at h
  unfold answered answer
  simp only [h, hf]

/-- Failing to be shown ends the dialogue. -/
theorem answered_of_showingFails (h : a.ShowingFails host f s) :
    a.answered host = ((flush { a.repl with session := s } a.output).2, .error (.failure f)) := by
  obtain ⟨c, t, hc, hs⟩ := h
  unfold answered answer
  simp only [hc, hs]

/-- Only these failures end the dialogue. -/
theorem fails_of_answered {o : Output} {e : Ending} (h : a.answered host = (o, .error e)) :
    ∃ f s, e = .failure f ∧
      (a.EvaluationFails host f s ∧ report? f = none ∨ a.ShowingFails host f s) := by
  unfold answered answer at h
  split at h
  · next f s hs =>
    dsimp only at h
    split at h
    · cases h
    · next hf =>
      cases h
      exact ⟨f, s, rfl, .inl ⟨hs, hf⟩⟩
  · next c t hc =>
    split at h
    · next f s hs =>
      cases h
      exact ⟨f, s, rfl, .inr ⟨c, t, hc, hs⟩⟩
    · cases h

theorem ShowingFails.ran (h : a.ShowingFails host f s) : ∃ g, f = .run g := by
  obtain ⟨c, t, -, hs⟩ := h
  exact onlyRuns_shown c t f s hs

theorem keepsGlobals (hh : Host.Steady (fun _ => False) host) (h : a.EvaluationFails host f s) :
    a.repl.session.state.KeepsGlobals s.state := by
  have ran {source : String} {t u : Session} {g : SessionFailure}
      (ht : a.repl.session.state.KeepsGlobals t.state)
      (hu : Session.run host source (some "<repl>") t = .error g u) :
      a.repl.session.state.KeepsGlobals u.state := by
    have kept := Session.keepsGlobals_run hh source (some "<repl>") a.repl.session.state t ht
    rwa [hu] at kept
  have begun : a.repl.session.state.KeepsGlobals a.repl.session.state := .of_eq rfl
  unfold EvaluationFails evaluate at h
  split at h
  · next hrun =>
    split at h
    · cases h
      exact ran begun hrun
    · split at h
      · next hagain =>
        cases h
        exact ran (ran begun hrun) hagain
      · exact ran (ran begun hrun) h
  · exact ran begun h

end Asked

/-! ## Dialogues -/

/-- The answer to an input decides what comes of the dialogue. -/
theorem Meets.whole {r : Repl} {o : Output} {entries : List (Option String)} {a : Asked}
    (h : Meets host r o entries a) :
    r.converse host o entries =
      match a.answered host with
      | (o, .ok r) => r.converse host o a.rest
      | (o, .error ending) => (o, ending) := by
  induction h with
  | here h => rw [converse_cons, enter_of_input? h]; rfl
  | later h _ ih => rw [converse_cons, h]; exact ih

/-- An input that is run is no longer pending. -/
theorem Meets.pending {r : Repl} {o : Output} {entries : List (Option String)} {a : Asked}
    (h : Meets host r o entries a) : a.repl.pending = .empty := by
  induction h with
  | here => rfl
  | later _ _ ih => exact ih

/-- A dialogue that ends with a failure does so at an input. -/
theorem exists_meets {r : Repl} {o : Output} {entries : List (Option String)} {f : SessionFailure}
    (h : (r.converse host o entries).2 = .failure f) :
    ∃ a o', Meets host r o entries a ∧ a.answered host = (o', .error (.failure f)) := by
  induction entries generalizing r o with
  | nil => cases h
  | cons entry rest ih =>
    cases entry with
    | none => cases h
    | some line =>
      rw [converse_cons] at h
      cases hinput : r.input? line with
      | some source =>
        have met : Meets host r o (some line :: rest) _ := .here hinput
        rw [enter_of_input? hinput] at h
        cases hanswer : Repl.answer host { r with pending := .empty } source (o.write r.prompt) with
        | mk o' result =>
          rw [hanswer] at h
          cases result with
          | error ending =>
            cases h
            exact ⟨_, o', met, hanswer⟩
          | ok r' =>
            obtain ⟨a, o'', ha, failed⟩ := ih h
            exact ⟨a, o'', .later ((enter_of_input? hinput _).trans hanswer) ha, failed⟩
      | none =>
        rcases enter_of_not_input? host hinput (o.write r.prompt) with
          ⟨o', hleft⟩ | ⟨o', r', hstays⟩
        · rw [hleft] at h
          cases h
        · rw [hstays] at h
          obtain ⟨a, o'', ha, failed⟩ := ih h
          exact ⟨a, o'', .later hstays ha, failed⟩

/-- A dialogue comes to an input, from its greeting on. -/
def Asks (host : Host) (verbose tracing : Bool) (sources : Sources)
    (entries : List (Option String)) (a : Asked) : Prop :=
  let (r, o) := (start verbose tracing sources).flush (Output.empty.line greeting)
  Meets host r o entries a

/-- Only the failures of a script are reported. -/
theorem report?_isSome {f : SessionFailure} (h : (report? f).isSome = true) :
    (∃ e, f = .parse (.malformed e)) ∨ ∃ cause line, f = .run (.script cause line) := by
  unfold report? at h
  split at h
  · exact .inl ⟨_, rfl⟩
  · exact .inr ⟨_, _, rfl⟩
  · cases h

/-- No malformed source ends a dialogue. The failure of a script while an input is evaluated is
reported, and the dialogue goes on with the entries that are left and with the globals. The failure
of a script ends the dialogue exactly if it arises while a value is shown; so all failures of
scripts are reported and survived exactly if none of them arises there. -/
theorem dialogue_survives_iff (hh : Host.Steady (fun _ => False) host) (verbose tracing : Bool)
    (sources : Sources) (entries : List (Option String)) :
    let whole := run host verbose tracing sources entries
    let asks := Asks host verbose tracing sources entries
    (∀ e, whole.2 ≠ .failure (.parse (.malformed e))) ∧
    (∀ a f s, asks a → a.EvaluationFails host f s → a.Survives host whole f s) ∧
    (∀ cause line, whole.2 = .failure (.run (.script cause line)) ↔
      ∃ a s, asks a ∧ a.ShowingFails host (.run (.script cause line)) s) ∧
    (((∀ f, (report? f).isSome = true → whole.2 ≠ .failure f) ∧
        ∀ a f s, asks a → a.EvaluationFails host f s ∨ a.ShowingFails host f s →
          a.Survives host whole f s) ↔
      ∀ a cause line s, asks a → ¬ a.ShowingFails host (.run (.script cause line)) s) := by
  intro whole asks
  have parsed (e : ParseError) : whole.2 ≠ .failure (.parse (.malformed e)) := by
    intro h
    obtain ⟨a, o, -, failed⟩ := exists_meets h
    obtain ⟨f, s, hf, ⟨-, hnone⟩ | hshow⟩ := Asked.fails_of_answered failed
    · cases hf
      cases hnone
    · obtain ⟨g, rfl⟩ := hshow.ran
      cases hf
  have evaluated (a : Asked) (f : SessionFailure) (s : Session) (ha : asks a)
      (h : a.EvaluationFails host f s) : a.Survives host whole f s := by
    intro kind message hf
    have decided : whole = _ := Meets.whole ha
    rw [Asked.answered_of_evaluationFails h hf] at decided
    exact ⟨decided, Meets.pending ha, (Asked.keepsGlobals hh h).trans (.of_eq rfl)⟩
  have shows (cause : Cause) (line : Option Nat) :
      whole.2 = .failure (.run (.script cause line)) ↔
        ∃ a s, asks a ∧ a.ShowingFails host (.run (.script cause line)) s := by
    constructor
    · intro h
      obtain ⟨a, o, ha, failed⟩ := exists_meets h
      obtain ⟨f, s, hf, ⟨-, hnone⟩ | hshow⟩ := Asked.fails_of_answered failed
      · cases hf
        cases hnone
      · cases hf
        exact ⟨a, s, ha, hshow⟩
    · rintro ⟨a, s, ha, hshow⟩
      have decided : whole = _ := Meets.whole ha
      rw [Asked.answered_of_showingFails hshow] at decided
      rw [decided]
  refine ⟨parsed, evaluated, shows, ?_, ?_⟩
  · rintro ⟨hends, -⟩ a cause line s ha hshow
    exact hends _ rfl ((shows cause line).2 ⟨a, s, ha, hshow⟩)
  · intro hshows
    refine ⟨fun f hf => ?_, fun a f s ha hfails => ?_⟩
    · obtain ⟨e, rfl⟩ | ⟨cause, line, rfl⟩ := report?_isSome hf
      · exact parsed e
      · intro h
        obtain ⟨a, s, ha, hshow⟩ := (shows cause line).1 h
        exact hshows a cause line s ha hshow
    · obtain heval | hshow := hfails
      · exact evaluated a f s ha heval
      · intro kind message hf
        obtain ⟨e, rfl⟩ | ⟨cause, line, rfl⟩ := report?_isSome (f := f) (by simp [hf])
        · obtain ⟨g, hg⟩ := hshow.ran
          cases hg
        · exact absurd hshow (hshows a cause line s ha)

/-- A dialogue in which the user divides by zero, types what is no script, and then a script. -/
theorem dialogue_survives_iff_reported :
    let host : Host := fun _ => return none
    let sources : Sources := ⟨.ofFiles "/" [], [], []⟩
    let entries := [some "x = 1 / 0;", some "1 +", some "2"]
    let asks := Asks host false false sources entries
    let whole := run host false false sources entries
    Host.Steady (fun _ => False) host ∧ whole.2 = .exit 0 ∧
      (∀ a cause line s, asks a → ¬ a.ShowingFails host (.run (.script cause line)) s) ∧
      ∀ a f s, asks a → a.EvaluationFails host f s → a.Survives host whole f s := by
  intro host sources entries asks whole
  have steady : Host.Steady (fun _ => False) host := fun _ _ => .of_eq rfl rfl rfl
  have ending : whole.2 = .exit 0 := by decide +kernel
  obtain ⟨-, evaluated, shows, -⟩ := dialogue_survives_iff steady false false sources entries
  refine ⟨steady, ending, fun a cause line s ha hshow => ?_, evaluated⟩
  have failed := (shows cause line).2 ⟨a, s, ha, hshow⟩
  change whole.2 = _ at failed
  rw [ending] at failed
  cases failed

/-- The text of an object is made by a function of its class, and that may fail: nothing is
reported, and the last line is not read. -/
theorem failing_text_ends_dialogue :
    run (fun _ => return none) false false ⟨.ofFiles "/" [], [], []⟩
      [some "class T \x7b function ToString() \x7b return 1 / 0; \x7d \x7d", some "new T()",
        some "1 + 1"] =
      (⟨"Velox REPL. Type 'exit' or 'quit' to leave.\nvelox> velox> ", ""⟩,
        .failure (.run (.script .divisionByZero (some 1)))) := by
  decide +kernel

end Repl

end CellScript
