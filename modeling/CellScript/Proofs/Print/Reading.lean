import CellScript.Proofs.Parse.Outcome
import CellScript.Proofs.Print.Canonical

/-!
# Facing lexemes

A reader faces lexemes if they are the tokens to come, with the end of the source behind them. Every
primitive of the parser takes the lexemes that it asks for.

* `Reader.Faces`: the tokens to come are the given lexemes;
* `Parser.Never`: no failure at all;
* `Parser.advance_faces`, `Parser.expect_faces`, `Parser.expectName_faces`: one lexeme is taken.
-/

namespace CellScript

/-- The lexeme of the end of the source. -/
def Lexeme.stop : Lexeme := ⟨.endOfSource, ""⟩

/-- The kind of the first of some lexemes, or the end of the source if there are none. -/
def Lexeme.firstKind : List Lexeme → TokenKind
  | [] => .endOfSource
  | l :: _ => l.kind

/-- The tokens to come are the given ones, and nothing but the end of the source behind them. A
token that was looked at may be the end, too. -/
def Reader.Faces (r : Reader) (ls : List Lexeme) : Prop :=
  ∃ ts : List Token, r.stream.steps = ts.map .ok ∧
    ∃ k, (r.current :: (r.ahead.toList ++ ts)).map Token.lexeme = ls ++ List.replicate k .stop

namespace Reader.Faces

variable {r r' : Reader} {l : Lexeme} {ls : List Lexeme}

theorem kind (h : r.Faces ls) : r.current.kind = Lexeme.firstKind ls := by
  obtain ⟨ts, -, k, hk⟩ := h
  rw [List.map_cons] at hk
  cases ls with
  | nil =>
    cases k with
    | zero => cases hk
    | succ k => exact congrArg Lexeme.kind (List.cons.inj hk).1
  | cons l ls => exact congrArg Lexeme.kind (List.cons.inj hk).1

theorem current (h : r.Faces (l :: ls)) : r.current.lexeme = l := by
  obtain ⟨ts, -, k, hk⟩ := h
  exact (List.cons.inj hk).1

/-- Moving on takes the first lexeme. -/
theorem advance (h : r.Faces (l :: ls)) (hl : l.kind ≠ .endOfSource) :
    ∃ r', Reader.advance r = .ok () r' ∧ r'.Faces ls := by
  have hcurrent : r.current.kind ≠ .endOfSource := by
    rw [h.kind]
    exact hl
  obtain ⟨ts, hts, k, hk⟩ := h
  obtain ⟨cur, ahead, steps, stop⟩ := r
  have htail := (List.cons.inj hk).2
  cases ahead with
  | some t =>
    refine ⟨⟨t, none, ⟨steps, stop⟩⟩, ?_, ts, hts, k, htail⟩
    unfold Reader.advance
    rw [if_neg hcurrent]
  | none =>
    dsimp only at hts
    cases ts with
    | cons t ts =>
      refine ⟨⟨t, none, ⟨ts.map .ok, stop⟩⟩, ?_, ts, rfl, k, htail⟩
      unfold Reader.advance
      rw [if_neg hcurrent, hts]
      rfl
    | nil =>
      refine ⟨⟨.endAt stop, none, ⟨[], stop⟩⟩, ?_, [], rfl, 1, ?_⟩
      · unfold Reader.advance
        rw [if_neg hcurrent, hts]
        rfl
      · cases ls with
        | nil => rfl
        | cons => cases htail

/-- Looking ahead changes nothing, and sees the second lexeme. -/
theorem isBlockStartAhead (h : r.Faces (l :: ls)) :
    ∃ r', Reader.isBlockStartAhead r = .ok (Lexeme.firstKind ls == .mark .leftBrace) r' ∧
      r'.Faces (l :: ls) := by
  obtain ⟨ts, hts, k, hk⟩ := h
  obtain ⟨cur, ahead, steps, stop⟩ := r
  have htail := (List.cons.inj hk).2
  have second {t : Token} {more : List Token}
      (h : (t :: more).map Token.lexeme = ls ++ List.replicate k .stop) :
      t.kind = Lexeme.firstKind ls := by
    cases ls with
    | nil =>
      cases k with
      | zero => cases h
      | succ k => exact congrArg Lexeme.kind (List.cons.inj h).1
    | cons => exact congrArg Lexeme.kind (List.cons.inj h).1
  cases ahead with
  | some t =>
    refine ⟨⟨cur, some t, ⟨steps, stop⟩⟩, ?_, ts, hts, k, hk⟩
    unfold Reader.isBlockStartAhead
    rw [← second htail]
  | none =>
    dsimp only at hts
    cases ts with
    | cons t ts =>
      refine ⟨⟨cur, some t, ⟨ts.map .ok, stop⟩⟩, ?_, ts, rfl, k, hk⟩
      unfold Reader.isBlockStartAhead
      rw [hts, ← second htail]
      rfl
    | nil =>
      have hls : ls = [] := by
        cases ls with
        | nil => rfl
        | cons => cases htail
      subst hls
      refine ⟨⟨cur, some (.endAt stop), ⟨[], stop⟩⟩, ?_, [], rfl, 1, ?_⟩
      · unfold Reader.isBlockStartAhead
        rw [hts]
        rfl
      · have hcur := (List.cons.inj hk).1
        exact congrArg (· :: [Lexeme.stop]) hcur

end Reader.Faces

/-- The tokens to come are the given ones. -/
def ParseState.Faces (s : ParseState) (ls : List Lexeme) : Prop := s.reader.Faces ls

namespace Parser

variable {α β : Type} {env : ParseEnv} {s : ParseState} {l : Lexeme} {ls : List Lexeme}

/-- No failure at all. -/
def Never (_ : ParseFailure) : Prop := False

theorem ofReader_faces {step : EStateM LexError Reader α} {a : α}
    (h : ∃ r, step s.reader = .ok a r ∧ r.Faces ls) :
    (ofReader step).Ends env s (fun b t => b = a ∧ t.Faces ls) Never := by
  obtain ⟨r, hr, hf⟩ := h
  constructor
  unfold ofReader
  rw [hr]
  exact ⟨rfl, hf⟩

theorem advance_faces (h : s.Faces (l :: ls)) (hl : l.kind ≠ .endOfSource) :
    advance.Ends env s (fun _ t => t.Faces ls) Never :=
  (ofReader_faces (h.advance hl)).imp fun _ _ ht => ht.2

/-- A mark that is there. -/
theorem atMark_true {m : Mark} (h : s.Faces (.mark m :: ls)) :
    (s.reader.current.kind == .mark m) = true :=
  beq_of_eq h.kind

/-- A mark that is not there. -/
theorem atMark_false {m : Mark} (h : s.Faces ls) (hm : Lexeme.firstKind ls ≠ .mark m) :
    (s.reader.current.kind == .mark m) = false :=
  beq_eq_false_iff_ne.2 fun hk => hm (h.kind.symm.trans hk)

theorem expect_faces {m : Mark} (h : s.Faces (.mark m :: ls)) :
    (expect m).Ends env s (fun _ t => t.Faces ls) Never := by
  unfold expect
  rw [ends_atMark_bind, if_pos (atMark_true h)]
  exact advance_faces h nofun

theorem expectName_faces {n : String} (otherwise : ParseCause) (h : s.Faces (.name n :: ls)) :
    (expectName otherwise).Ends env s (fun m t => m = n ∧ t.Faces ls) Never := by
  unfold expectName
  have hk : s.reader.current.kind = .ident := h.kind
  rw [ends_token_bind, if_pos (beq_of_eq hk)]
  refine (advance_faces h nofun).bind fun _ t ht => ?_
  rw [ends_pure]
  exact ⟨congrArg Lexeme.value h.current, ht⟩

theorem ends_bind_assoc {γ : Type} {p : Parser α} {q : α → Parser β} {r : β → Parser γ}
    {Q : γ → ParseState → Prop} {F : ParseFailure → Prop} :
    ((p >>= q) >>= r).Ends env s Q F ↔ (p >>= fun a => q a >>= r).Ends env s Q F := by
  rw [bind_assoc]

/-- What fails before the rest cannot be part of what never fails. -/
theorem Ends.bind_absurd {p : Parser α} {f : α → Parser β} {Q : β → ParseState → Prop}
    {F : ParseFailure → Prop} (hp : p.Ends env s (fun _ _ => False) F)
    (h : (p >>= f).Ends env s Q Never) : False := by
  cases hps : p env s with
  | ok a t => exact hp.ok hps
  | error e t =>
    have hfails : (p >>= f) env s = .error e t := by
      change EStateM.bind (p env) (fun a => f a env) s = .error e t
      rw [EStateM.bind, hps]
    exact h.error hfails

end Parser

end CellScript
