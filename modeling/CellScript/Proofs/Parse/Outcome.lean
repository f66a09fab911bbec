import CellScript.Parse.Script

/-!
# What a parser leads to

`Parser.Ends p env s Q F` says of the parser `p`, begun in the state `s`, that `Q` holds of its
result and of the state in which it ends, or `F` of its failure. There is one lemma for each way in
which parsers are put together, and one for each primitive.
-/

namespace CellScript

namespace Parser

variable {α β : Type}

/-- Begun in `s`, the parser succeeds as `Q` says or fails as `F` says. -/
structure Ends (p : Parser α) (env : ParseEnv) (s : ParseState) (Q : α → ParseState → Prop)
    (F : ParseFailure → Prop) : Prop where
  outcome : match p env s with
    | .ok a t => Q a t
    | .error f _ => F f

section

variable {p : Parser α} {env : ParseEnv} {s t : ParseState} {Q : α → ParseState → Prop}
  {F : ParseFailure → Prop}

theorem Ends.ok {a : α} (h : Ends p env s Q F) (hp : p env s = .ok a t) : Q a t := by
  simpa only [hp] using h.outcome

theorem Ends.error {f : ParseFailure} (h : Ends p env s Q F) (hp : p env s = .error f t) : F f := by
  simpa only [hp] using h.outcome

theorem ends_iff : Ends p env s Q F ↔
    (∀ a t, p env s = .ok a t → Q a t) ∧ ∀ f t, p env s = .error f t → F f := by
  refine ⟨fun h => ⟨fun _ _ => h.ok, fun _ _ => h.error⟩, fun h => ⟨?_⟩⟩
  cases hp : p env s with
  | ok a t => exact h.1 a t hp
  | error f t => exact h.2 f t hp

theorem Ends.mono {R : α → ParseState → Prop} {G : ParseFailure → Prop} (h : Ends p env s Q F)
    (hQ : ∀ a t, Q a t → R a t) (hF : ∀ f, F f → G f) : Ends p env s R G :=
  ends_iff.2 ⟨fun a t hp => hQ a t (h.ok hp), fun f _ hp => hF f (h.error hp)⟩

theorem Ends.imp {R : α → ParseState → Prop} (h : Ends p env s Q F)
    (hQ : ∀ a t, Q a t → R a t) : Ends p env s R F :=
  h.mono hQ fun _ h => h

theorem Ends.bind {R : β → ParseState → Prop} {f : α → Parser β} (h : Ends p env s Q F)
    (hf : ∀ a t, Q a t → Ends (f a) env t R F) : Ends (p >>= f) env s R F := by
  constructor
  change match EStateM.bind (p env) (fun a => f a env) s with
    | .ok a t => R a t
    | .error f _ => F f
  unfold EStateM.bind
  cases hp : p env s with
  | ok a t => exact (hf a t (h.ok hp)).outcome
  | error f t => exact h.error hp

end

/-! ## Primitives -/

section

variable {env : ParseEnv} {s : ParseState} {F : ParseFailure → Prop}

theorem ends_of {p : Parser α} {Q : α → ParseState → Prop} {P : Prop}
    (h : (match p env s with | .ok a t => Q a t | .error f _ => F f) ↔ P) :
    Ends p env s Q F ↔ P :=
  ⟨fun ⟨h'⟩ => h.1 h', fun h' => ⟨h.2 h'⟩⟩

@[simp] theorem ends_pure (a : α) (Q : α → ParseState → Prop) :
    Ends (pure a) env s Q F ↔ Q a s := ends_of Iff.rfl

@[simp] theorem ends_throw (f : ParseFailure) (Q : α → ParseState → Prop) :
    Ends (throw f : Parser α) env s Q F ↔ F f := ends_of Iff.rfl

@[simp] theorem ends_failAt (cause : ParseCause) (line : Nat) (Q : α → ParseState → Prop) :
    Ends (failAt cause line : Parser α) env s Q F ↔ F (.malformed ⟨cause, line, env.path⟩) :=
  ends_of Iff.rfl

@[simp] theorem ends_fail (cause : ParseCause) (Q : α → ParseState → Prop) :
    Ends (fail cause : Parser α) env s Q F ↔
      F (.malformed ⟨cause, s.reader.current.line, env.path⟩) :=
  ends_of Iff.rfl

theorem ends_bind_of (p : Parser α) {f : α → Parser β} {a : α} {t : ParseState}
    (hp : p env s = .ok a t) (Q : β → ParseState → Prop) :
    Ends (p >>= f) env s Q F ↔ Ends (f a) env t Q F := by
  have h : (p >>= f) env s = f a env t := by
    change EStateM.bind (p env) (fun a => f a env) s = _
    unfold EStateM.bind
    rw [hp]
  exact ⟨fun ⟨h'⟩ => ⟨h ▸ h'⟩, fun ⟨h'⟩ => ⟨h ▸ h'⟩⟩

@[simp] theorem ends_current_bind (f : TokenKind → Parser β) (Q : β → ParseState → Prop) :
    Ends (current >>= f) env s Q F ↔ Ends (f s.reader.current.kind) env s Q F :=
  ends_bind_of current rfl Q

@[simp] theorem ends_token_bind (f : Token → Parser β) (Q : β → ParseState → Prop) :
    Ends (token >>= f) env s Q F ↔ Ends (f s.reader.current) env s Q F :=
  ends_bind_of token rfl Q

@[simp] theorem ends_line_bind (f : Nat → Parser β) (Q : β → ParseState → Prop) :
    Ends (line >>= f) env s Q F ↔ Ends (f s.reader.current.line) env s Q F :=
  ends_bind_of line rfl Q

@[simp] theorem ends_read_bind (f : ParseEnv → Parser β) (Q : β → ParseState → Prop) :
    Ends (read >>= f) env s Q F ↔ Ends (f env) env s Q F :=
  ends_bind_of read rfl Q

@[simp] theorem ends_atMark_bind (m : Mark) (f : Bool → Parser β) (Q : β → ParseState → Prop) :
    Ends (atMark m >>= f) env s Q F ↔ Ends (f (s.reader.current.kind == .mark m)) env s Q F :=
  ends_bind_of (atMark m) rfl Q

@[simp] theorem ends_tokensLeft_bind (f : Nat → Parser β) (Q : β → ParseState → Prop) :
    Ends (tokensLeft >>= f) env s Q F ↔ Ends (f (s.reader.stream.steps.length + 3)) env s Q F :=
  ends_bind_of tokensLeft rfl Q

theorem ends_withLoop {inLoop : Bool} {p : Parser α} {Q : α → ParseState → Prop}
    (h : Ends p { env with inLoop } s Q F) : Ends (withLoop inLoop p) env s Q F :=
  ⟨h.outcome⟩

/-- A parser that always fails can be followed by anything. -/
theorem Ends.bind_fail {p : Parser α} {f : α → Parser β} {Q : β → ParseState → Prop}
    (h : Ends p env s (fun _ _ => False) F) : Ends (p >>= f) env s Q F :=
  h.bind fun _ _ h => h.elim

/-- A program is at its end behind its first statement, if the text is. -/
theorem Ends.program {load : String → Parser (List Stmt)} {R : Option Stmt → Prop}
    (hstarts : startsStatement s.reader.current.kind = true)
    (h : (statement load (s.reader.stream.steps.length + 3)).Ends env s
      (fun st t => t.reader.current.kind = .endOfSource ∧ R st) F) :
    (Parser.program load).Ends env s (fun ss _ => ∃ st, R st ∧ ss = st.toList) F := by
  have rest (inner : Parser (Option Stmt)) (n : Nat) {t : ParseState}
      (ht : t.reader.current.kind = .endOfSource) :
      (statementsOf inner (n + 1)).Ends env t (fun ss u => ss = [] ∧ u = t) F := by
    unfold statementsOf
    rw [ends_current_bind, ht]
    exact (ends_pure _ _).2 ⟨rfl, rfl⟩
  unfold Parser.program
  rw [ends_tokensLeft_bind]
  refine Ends.bind (Q := fun ss t => t.reader.current.kind = .endOfSource ∧
    ∃ st, R st ∧ ss = st.toList) ?_ ?_
  · unfold statementsOf
    rw [ends_current_bind, if_pos hstarts]
    refine h.bind ?_
    rintro st t ⟨hend, hst⟩
    refine (rest _ _ hend).bind ?_
    rintro ss u ⟨rfl, rfl⟩
    exact (ends_pure _ _).2 ⟨hend, st, hst, List.append_nil _⟩
  · rintro ss t ⟨hend, hss⟩
    rw [ends_current_bind, hend]
    exact (ends_pure _ _).2 hss

end

end Parser

end CellScript
