import CellScript.Parse.Script
import CellScript.Proofs.Text.Numerals
import CellScript.Proofs.Token.Scan
import Mathlib.Data.List.Chain

/-!
# Cutting a source at a number

The parser cannot go on at a number whose text stands for none. What it would do there is told by a
source that is cut: it has the number `0` in its place, and then nothing but a lexical fault. If the
parser runs into that fault, it has taken the number.

`Parser.Follows c p p' env s` compares a parser with another one on the cut source, or on the same
source if `c` gives no fault to cut with: as long as both go on they give the same and stay in step,
and they fail for the same reason, unless the one stops at the number and the other at the cut. The
lemmas go by the ways in which parsers are put together.

* `Token.fault?`: what is wrong with a number;
* `TokenStream.cut`, `ParseState.cut`: sources cut at the first such number;
* `Parser.Retraces`, `Parser.RetracesAt`: parsers that follow each other wherever they begin, or
  where they begin at a token of a kind.
-/

namespace CellScript

/-! ## Numbers without a value -/

/-- Why the parser cannot take a token for a number, if it is written like one. -/
def Token.fault? (t : Token) : Option ParseFailure :=
  match t.kind with
  | .integer =>
    match t.integerValue with
    | .error f => some (.notAnInteger t.value f)
    | .ok _ => none
  | .real => if t.realValue?.isNone then some (.notAReal t.value) else none
  | _ => none

/-- The same token with the text `0`. -/
def Token.zero (t : Token) : Token := { t with value := "0" }

namespace TokenStream

/-- What is wrong with the first number that the parser cannot take. -/
def fault? (s : TokenStream) : Option ParseFailure :=
  s.steps.findSome? fun
    | .ok t => t.fault?
    | .error _ => none

/-- A stream that has a fault for every step, and one more of them. -/
def barred (e : LexError) (s : TokenStream) : TokenStream :=
  ⟨.error e :: s.steps.map fun _ => .error e, s.stop⟩

/-- Steps up to the first number that the parser cannot take, which is turned into `0`, and then
nothing but a fault. -/
def cutSteps (e : LexError) : List (Except LexError Token) → List (Except LexError Token)
  | [] => []
  | .error x :: rest => .error x :: cutSteps e rest
  | .ok t :: rest =>
    if t.fault?.isSome then .ok t.zero :: .error e :: rest.map fun _ => .error e
    else .ok t :: cutSteps e rest

/-- The stream cut at the first number that the parser cannot take. -/
def cut (e : LexError) (s : TokenStream) : TokenStream := ⟨cutSteps e s.steps, s.stop⟩

end TokenStream

/-- The reader of the cut stream. -/
def Reader.cut (e : LexError) (r : Reader) : Reader :=
  if r.current.fault?.isSome then ⟨r.current.zero, none, r.stream.barred e⟩
  else match r.ahead with
    | some t =>
      if t.fault?.isSome then ⟨r.current, some t.zero, r.stream.barred e⟩
      else ⟨r.current, some t, r.stream.cut e⟩
    | none => ⟨r.current, none, r.stream.cut e⟩

/-- What is wrong with the first number to come that the parser cannot take. -/
def Reader.fault? (r : Reader) : Option ParseFailure :=
  (r.current.fault?.or (r.ahead.bind Token.fault?)).or r.stream.fault?

/-- There is no include among some tokens: nowhere does its word stand in front of a string. -/
def IncludeFree (ts : List Token) : Prop :=
  ts.IsChain fun t u => t.kind = .keyword .include → u.kind ≠ .string

/-- There is no include among the tokens to come. -/
def Reader.IncludeFree (r : Reader) : Prop :=
  CellScript.IncludeFree (r.current :: (r.ahead.toList ++ r.stream.tokens.1))

/-- The state of a parser on the cut source, if there is a fault to cut with. -/
def ParseState.cut (c : Option LexError) (s : ParseState) : ParseState :=
  match c with
  | some e => { s with reader := s.reader.cut e }
  | none => s

@[simp]
theorem ParseState.cut_none (s : ParseState) : s.cut none = s := rfl

@[simp]
theorem ParseState.cut_some (e : LexError) (s : ParseState) :
    s.cut (some e) = { s with reader := s.reader.cut e } := rfl

/-- Before a token is looked ahead to, the current one comes first. -/
@[simp]
theorem Reader.fault?_mk_none (t : Token) (s : TokenStream) :
    Reader.fault? ⟨t, none, s⟩ = t.fault?.or s.fault? := by
  simp [Reader.fault?]

/-! ## Readers -/

/-- Cutting takes no steps away. -/
theorem TokenStream.length_cutSteps (e : LexError) (steps : List (Except LexError Token)) :
    steps.length ≤ (cutSteps e steps).length := by
  induction steps with
  | nil => exact Nat.le_refl _
  | cons step rest ih =>
    cases step with
    | error x => simpa [cutSteps] using ih
    | ok t =>
      unfold cutSteps
      split
      · simp
      · simpa using ih

theorem ParseState.length_cut (c : Option LexError) (s : ParseState) :
    s.reader.stream.steps.length ≤ (s.cut c).reader.stream.steps.length := by
  cases c with
  | none => exact Nat.le_refl _
  | some e =>
    have kept := TokenStream.length_cutSteps e s.reader.stream.steps
    simp only [cut, Reader.cut]
    split
    · simp [TokenStream.barred]
    · split
      · split
        · simp [TokenStream.barred]
        · exact kept
      · exact kept

theorem Token.fault?_zero (t : Token) : t.zero.fault? = none := by
  obtain ⟨kind, value, place⟩ := t
  cases kind with
  | integer =>
    have hdigits : ∀ c ∈ "0".toList, isDigit c = true := by
      rw [← List.all_eq_true]
      decide +kernel
    have hread : readInteger "0".toList = .ok 0 := by decide +kernel
    have hvalue : integerValue ⟨.integer, "0", place⟩ = .ok 0 :=
      (integerValue_decimal hdigits).trans hread
    simp only [zero, fault?, hvalue]
  | real =>
    have hvalue : (readReal? "0".toList).isNone = false := by decide +kernel
    simp only [zero, fault?, realValue?, hvalue, Bool.false_eq_true, if_false]
  | _ => rfl

/-- Only numbers are looked at for a value. -/
theorem Token.fault?_of_kind {t : Token} (h : t.kind ≠ .integer) (h' : t.kind ≠ .real) :
    t.fault? = none := by
  unfold fault?
  split
  · exact absurd ‹_› h
  · exact absurd ‹_› h'
  · rfl

/-- What the next step of a stream is on the cut one. -/
theorem TokenStream.next_cut (s : TokenStream) :
    (∃ x rest, s.next = (.error x, rest) ∧ ∀ e, ∃ rest', (s.cut e).next = (.error x, rest')) ∨
    ∃ t rest, s.next = (.ok t, rest) ∧ s.fault? = t.fault?.or rest.fault? ∧
      ∀ e, (s.cut e).next = if t.fault?.isSome then (.ok t.zero, rest.barred e)
        else (.ok t, rest.cut e) := by
  obtain ⟨steps, stop⟩ := s
  cases steps with
  | nil => exact .inr ⟨_, _, rfl, rfl, fun _ => rfl⟩
  | cons step rest =>
    cases step with
    | error x => exact .inl ⟨x, _, rfl, fun _ => ⟨_, rfl⟩⟩
    | ok t =>
      refine .inr ⟨t, ⟨rest, stop⟩, rfl, ?_, fun e => ?_⟩
      · simp only [fault?, List.findSome?_cons]
        cases t.fault? <;> rfl
      · by_cases ht : t.fault?.isSome = true <;> simp [cut, cutSteps, next, ht, barred]

/-- Behind a token, the stream goes on without an include. -/
theorem TokenStream.includeFree_next {s rest : TokenStream} {t u : Token}
    (hnext : s.next = (.ok t, rest)) (h : IncludeFree (u :: s.tokens.1)) :
    IncludeFree (u :: t :: rest.tokens.1) := by
  obtain ⟨steps, stop⟩ := s
  cases steps with
  | nil =>
    cases hnext
    exact List.isChain_cons_cons.2 ⟨List.rel_of_isChain_cons_cons h,
      List.isChain_cons_cons.2 ⟨fun _ => nofun, .singleton _⟩⟩
  | cons step steps =>
    cases hnext
    have htokens : (⟨.ok t :: steps, stop⟩ : TokenStream).tokens.1 =
        t :: (⟨steps, stop⟩ : TokenStream).tokens.1 :=
      congrArg Prod.fst (tokens_cons_ok t ⟨steps, stop⟩)
    rwa [htokens] at h

namespace Reader

variable {α : Type} {r : Reader} {e : LexError}

/-- On the cut source, the step of a reader gives the same, and the tokens to come are alike. -/
def Kept (e : LexError) (step : EStateM LexError Reader α) (r : Reader) : Prop :=
  match step r with
  | .ok a r' => r'.IncludeFree ∧ r'.fault? = r.fault? ∧ step (r.cut e) = .ok a (r'.cut e)
  | .error x _ => ∃ u, step (r.cut e) = .error x u

theorem cut_kind : (r.cut e).current.kind = r.current.kind := by
  unfold cut
  split
  · rfl
  · split
    · split <;> rfl
    · rfl

theorem cut_line : (r.cut e).current.line = r.current.line := by
  unfold cut
  split
  · rfl
  · split
    · split <;> rfl
    · rfl

theorem cut_current (h : r.current.fault? = none) : (r.cut e).current = r.current := by
  unfold cut
  rw [h]
  split
  · cases ‹_›
  · split
    · split <;> rfl
    · rfl

/-- Behind a token that is no number without a value, the token that was looked at is cut or, where
it is such a number, taken away with all that follows. -/
theorem cut_some {cur t : Token} {stream : TokenStream} (h : cur.fault? = none) :
    (⟨cur, some t, stream⟩ : Reader).cut e =
      if t.fault?.isSome then ⟨cur, some t.zero, stream.barred e⟩
      else ⟨cur, some t, stream.cut e⟩ := by
  simp [cut, h]

theorem cut_none {cur : Token} {stream : TokenStream} (h : cur.fault? = none) :
    (⟨cur, none, stream⟩ : Reader).cut e = ⟨cur, none, stream.cut e⟩ := by
  simp [cut, h]

/-- The reader moves on from a token that is no number without a value. -/
theorem advance_kept (hfree : r.IncludeFree) (h : r.current.fault? = none) :
    Kept e advance r := by
  obtain ⟨cur, ahead, stream⟩ := r
  change cur.fault? = none at h
  by_cases hend : cur.kind = .endOfSource
  · have hstay {r : Reader} (hr : r.current.kind = .endOfSource) : advance r = .ok () r := by
      simp [advance, hr]
    unfold Kept
    rw [hstay hend]
    exact ⟨hfree, rfl, hstay (by rw [cut_kind]; exact hend)⟩
  cases ahead with
  | some t =>
    unfold Kept
    rw [cut_some h]
    simp only [advance, hend, if_false]
    refine ⟨List.IsChain.tail hfree, by simp [fault?, h], ?_⟩
    by_cases ht : t.fault?.isSome = true <;> simp [cut, hend, ht]
  | none =>
    unfold Kept
    rw [cut_none h]
    simp only [advance, hend, if_false, pull]
    rcases stream.next_cut with ⟨x, rest, hnext, hcut⟩ | ⟨t, rest, hnext, hfault, hcut⟩
    · obtain ⟨rest', hnext'⟩ := hcut e
      rw [hnext, hnext']
      exact ⟨_, rfl⟩
    · rw [hnext, hcut e]
      refine ⟨List.IsChain.tail (TokenStream.includeFree_next hnext hfree),
        by simp [fault?, h, hfault], ?_⟩
      by_cases ht : t.fault?.isSome = true <;> simp [cut, ht]

/-- The reader looks behind a token that is no number without a value. -/
theorem isBlockStartAhead_kept (hfree : r.IncludeFree) (h : r.current.fault? = none) :
    Kept e isBlockStartAhead r := by
  obtain ⟨cur, ahead, stream⟩ := r
  change cur.fault? = none at h
  cases ahead with
  | some t =>
    unfold Kept
    rw [cut_some h]
    refine ⟨hfree, rfl, ?_⟩
    rw [cut_some h]
    split <;> rfl
  | none =>
    unfold Kept
    rw [cut_none h]
    simp only [isBlockStartAhead, pull]
    rcases stream.next_cut with ⟨x, rest, hnext, hcut⟩ | ⟨t, rest, hnext, hfault, hcut⟩
    · obtain ⟨rest', hnext'⟩ := hcut e
      rw [hnext, hnext']
      exact ⟨_, rfl⟩
    · rw [hnext, hcut e]
      refine ⟨TokenStream.includeFree_next hnext hfree, by simp [fault?, h, hfault], ?_⟩
      by_cases ht : t.fault?.isSome = true <;> simp [cut, Token.zero, h, ht]

/-- Behind the word of an include there is no string. -/
theorem advance_ne_string {r' : Reader} (hfree : r.IncludeFree)
    (h : r.current.kind = .keyword .include) (ha : advance r = .ok () r') :
    r'.current.kind ≠ .string := by
  obtain ⟨cur, ahead, stream⟩ := r
  change cur.kind = _ at h
  simp only [advance, h, reduceCtorEq, if_false] at ha
  cases ahead with
  | some t =>
    cases ha
    exact List.rel_of_isChain_cons_cons hfree h
  | none =>
    unfold pull at ha
    cases hnext : stream.next with
    | mk step rest =>
      rw [hnext] at ha
      cases step with
      | ok t =>
        cases ha
        exact List.rel_of_isChain_cons_cons (TokenStream.includeFree_next hnext hfree) h
      | error x => cases ha

end Reader

/-! ## Parsers -/

namespace Parser

variable {α β : Type} {c : Option LexError}

/-- What a parser fails with on the cut source when it takes the number at the cut, if it fails with
`f` there on the whole source. -/
def atCut (c : Option LexError) (path : Option String) (f : ParseFailure) : ParseFailure :=
  c.elim f fun e => .malformed ⟨.lexical e.fault, e.line, path⟩

@[simp]
theorem atCut_none (path : Option String) (f : ParseFailure) : atCut none path f = f := rfl

@[simp]
theorem atCut_some (e : LexError) (path : Option String) (f : ParseFailure) :
    atCut (some e) path f = .malformed ⟨.lexical e.fault, e.line, path⟩ := rfl

/-- As long as the parser `p` goes on, `p'` gives the same on the cut source and the tokens to come
are alike. If `p` fails, it has run out of fuel, or `p'` fails for the same fault of the source, or
`p` fails because of the first number without a value, and `p'` has taken it. -/
def Follows (c : Option LexError) (p p' : Parser α) (env : ParseEnv) (s : ParseState) : Prop :=
  s.reader.IncludeFree →
    match p env s with
    | .ok a t => t.reader.IncludeFree ∧ t.reader.fault? = s.reader.fault? ∧
      p' env (s.cut c) = .ok a (t.cut c)
    | .error f _ => f = .outOfFuel ∨
      (∃ x u, f = .malformed x ∧ p' env (s.cut c) = .error f u) ∨
      ∃ u, s.reader.fault? = some f ∧ p' env (s.cut c) = .error (atCut c env.path f) u

/-- The parsers follow each other wherever they begin. -/
def Retraces (c : Option LexError) (p p' : Parser α) : Prop := ∀ env s, Follows c p p' env s

/-- The parsers follow each other where they begin at a token of the kind. -/
def RetracesAt (c : Option LexError) (kind : TokenKind) (p p' : Parser α) : Prop :=
  ∀ env s, s.reader.current.kind = kind → Follows c p p' env s

theorem cut_kind (s : ParseState) : (s.cut c).reader.current.kind = s.reader.current.kind := by
  cases c with
  | none => rfl
  | some e => exact Reader.cut_kind

theorem cut_line (s : ParseState) : (s.cut c).reader.current.line = s.reader.current.line := by
  cases c with
  | none => rfl
  | some e => exact Reader.cut_line

namespace Follows

variable {env : ParseEnv} {s : ParseState}

theorem pure (a : α) : Follows c (pure a) (pure a) env s := fun hfree => ⟨hfree, rfl, rfl⟩

theorem throw (p' : Parser α) : Follows c (throw .outOfFuel) p' env s := fun _ => .inl rfl

theorem failAt (cause : ParseCause) (line : Nat) :
    Follows (α := α) c (failAt cause line) (failAt cause line) env s :=
  fun _ => .inr (.inl ⟨_, _, rfl, rfl⟩)

theorem bind {p p' : Parser α} {f f' : α → Parser β} (h : Follows c p p' env s)
    (hf : ∀ a t, p env s = .ok a t → Follows c (f a) (f' a) env t) :
    Follows c (p >>= f) (p' >>= f') env s := by
  intro hfree
  have hp := h hfree
  have run (q : Parser α) (g : α → Parser β) (u : ParseState) :
      (q >>= g) env u = match q env u with
        | .ok a t => g a env t
        | .error f t => .error f t := by
    change EStateM.bind (q env) (fun a => g a env) u = _
    unfold EStateM.bind
    cases q env u <;> rfl
  rw [run p f, run p' f']
  cases hout : p env s with
  | ok a t =>
    rw [hout] at hp
    obtain ⟨ht, hfault, hp'⟩ := hp
    rw [hp', ← hfault]
    exact hf a t hout ht
  | error x t =>
    rw [hout] at hp
    rcases hp with hfuel | ⟨e, u, he, hp'⟩ | ⟨u, hx, hp'⟩
    · exact .inl hfuel
    · rw [hp']
      exact .inr (.inl ⟨e, u, he, rfl⟩)
    · rw [hp']
      exact .inr (.inr ⟨u, hx, rfl⟩)

/-- A step of the reader that is kept by cutting. -/
theorem ofReader {step : EStateM LexError Reader α}
    (h : s.reader.IncludeFree → ∀ e, Reader.Kept e step s.reader) :
    Follows c (ofReader step) (ofReader step) env s := by
  intro hfree
  unfold Parser.ofReader
  cases hstep : step s.reader with
  | ok a r =>
    have kept := fun e => h hfree e
    unfold Reader.Kept at kept
    simp only [hstep] at kept
    refine ⟨(kept ⟨.stringNotClosed, 0⟩).1, (kept ⟨.stringNotClosed, 0⟩).2.1, ?_⟩
    cases c with
    | none => simp only [ParseState.cut_none, hstep]
    | some e => simp only [ParseState.cut_some, (kept e).2.2]
  | error x r =>
    refine .inr (.inl ⟨⟨.lexical x.fault, x.line, env.path⟩, ?_⟩)
    cases c with
    | none => exact ⟨{ s with reader := r }, rfl, by simp only [ParseState.cut_none, hstep]⟩
    | some e =>
      have kept := h hfree e
      unfold Reader.Kept at kept
      rw [hstep] at kept
      obtain ⟨u, hu⟩ := kept
      exact ⟨{ s with reader := u }, rfl, by simp only [ParseState.cut_some, hu]⟩

theorem advance (h : s.reader.current.fault? = none) : Follows c advance advance env s :=
  ofReader fun hfree _ => Reader.advance_kept hfree h

theorem isBlockStartAhead (h : s.reader.current.fault? = none) :
    Follows c (Parser.ofReader Reader.isBlockStartAhead) (Parser.ofReader Reader.isBlockStartAhead)
      env s :=
  ofReader fun hfree _ => Reader.isBlockStartAhead_kept hfree h

/-- Something is read off the state. -/
theorem observe {p : Parser α} {a a' : α} {f f' : α → Parser β} (hp : p env s = .ok a s)
    (hcut : p env (s.cut c) = .ok a' (s.cut c)) (hf : Follows c (f a) (f' a') env s) :
    Follows c (p >>= f) (p >>= f') env s := by
  have run {a : α} (g : α → Parser β) {u : ParseState} (hu : p env u = .ok a u) :
      (p >>= g) env u = g a env u := by
    change EStateM.bind (p env) (fun a => g a env) u = _
    unfold EStateM.bind
    rw [hu]
  unfold Follows
  rw [run f hp, run f' hcut]
  exact hf

theorem current {f f' : TokenKind → Parser β}
    (hf : Follows c (f s.reader.current.kind) (f' s.reader.current.kind) env s) :
    Follows c (current >>= f) (current >>= f') env s :=
  observe rfl (by rw [← cut_kind (c := c) s]; rfl) hf

theorem line {f f' : Nat → Parser β}
    (hf : Follows c (f s.reader.current.line) (f' s.reader.current.line) env s) :
    Follows c (line >>= f) (line >>= f') env s :=
  observe rfl (by rw [← cut_line (c := c) s]; rfl) hf

theorem read {f f' : ParseEnv → Parser β} (hf : Follows c (f env) (f' env) env s) :
    Follows c (read >>= f) (read >>= f') env s :=
  observe rfl rfl hf

theorem token {f f' : Token → Parser β}
    (hf : Follows c (f s.reader.current) (f' (s.cut c).reader.current) env s) :
    Follows c (token >>= f) (token >>= f') env s :=
  observe rfl rfl hf

/-- A token that is no number without a value is the same on the cut source. -/
theorem cut_current (h : s.reader.current.fault? = none) :
    (s.cut c).reader.current = s.reader.current := by
  cases c with
  | none => rfl
  | some e => exact Reader.cut_current h

end Follows

/-! ## Parsers wherever they begin -/

section

variable {kind : TokenKind} {p p' : Parser α} {f f' : α → Parser β}

theorem Retraces.pure (a : α) : Retraces c (pure a) (pure a) := fun _ _ => .pure a

theorem Retraces.throw (p' : Parser α) : Retraces c (throw .outOfFuel) p' := fun _ _ => .throw p'

theorem Retraces.failAt (cause : ParseCause) (line : Nat) :
    Retraces (α := α) c (Parser.failAt cause line) (Parser.failAt cause line) :=
  fun _ _ => .failAt cause line

theorem Retraces.bind (h : Retraces c p p') (hf : ∀ a, Retraces c (f a) (f' a)) :
    Retraces c (p >>= f) (p' >>= f') :=
  fun env s => (h env s).bind fun a t _ => hf a env t

/-- The kind of the token that the parser begins at. -/
theorem Retraces.current {f f' : TokenKind → Parser β} (hf : ∀ k, RetracesAt c k (f k) (f' k)) :
    Retraces c (Parser.current >>= f) (Parser.current >>= f') :=
  fun env s => .current (hf _ env s rfl)

theorem Retraces.line {f f' : Nat → Parser β} (hf : ∀ l, Retraces c (f l) (f' l)) :
    Retraces c (Parser.line >>= f) (Parser.line >>= f') :=
  fun env s => .line (hf _ env s)

theorem Retraces.withLoop (b : Bool) (h : Retraces c p p') :
    Retraces c (withLoop b p) (withLoop b p') :=
  fun env s => h { env with inLoop := b } s

theorem Retraces.freshId : Retraces c freshId freshId := by
  intro env s hfree
  refine ⟨hfree, rfl, ?_⟩
  cases c <;> rfl

theorem Retraces.fail (cause : ParseCause) :
    Retraces (α := α) c (Parser.fail cause) (Parser.fail cause) :=
  .line fun _ => .failAt _ _

theorem RetracesAt.of (h : Retraces c p p') : RetracesAt c kind p p' := fun env s _ => h env s

theorem RetracesAt.pure (a : α) : RetracesAt c kind (pure a) (pure a) := .of (.pure a)

theorem RetracesAt.fail (cause : ParseCause) :
    RetracesAt (α := α) c kind (Parser.fail cause) (Parser.fail cause) := .of (.fail cause)

theorem RetracesAt.bind (h : RetracesAt c kind p p') (hf : ∀ a, Retraces c (f a) (f' a)) :
    RetracesAt c kind (p >>= f) (p' >>= f') :=
  fun env s hk => (h env s hk).bind fun a t _ => hf a env t

theorem RetracesAt.line {f f' : Nat → Parser β} (hf : ∀ l, RetracesAt c kind (f l) (f' l)) :
    RetracesAt c kind (Parser.line >>= f) (Parser.line >>= f') :=
  fun env s hk => .line (hf _ env s hk)

theorem RetracesAt.current {f f' : TokenKind → Parser β}
    (hf : RetracesAt c kind (f kind) (f' kind)) :
    RetracesAt c kind (Parser.current >>= f) (Parser.current >>= f') :=
  fun env s hk => .current (by rw [hk]; exact hf env s hk)

/-- Whether tokens of a kind are numbers. -/
def isNumber (kind : TokenKind) : Bool := kind == .integer || kind == .real

theorem fault?_of_isNumber {t : Token} (h : isNumber t.kind = false) : t.fault? = none := by
  simp only [isNumber, Bool.or_eq_false_iff, beq_eq_false_iff_ne] at h
  exact Token.fault?_of_kind h.1 h.2

section

variable (hkind : isNumber kind = false)

include hkind

theorem RetracesAt.advance : RetracesAt c kind advance advance := fun _ _ hk =>
  .advance (fault?_of_isNumber (by rw [hk]; exact hkind))

theorem RetracesAt.token {f f' : Token → Parser β}
    (hf : ∀ t, t.kind = kind → RetracesAt c kind (f t) (f' t)) :
    RetracesAt c kind (Parser.token >>= f) (Parser.token >>= f') :=
  fun env s hk => .token (by
    rw [Follows.cut_current (fault?_of_isNumber (by rw [hk]; exact hkind))]
    exact hf _ hk env s hk)

theorem RetracesAt.isBlockStartAhead :
    RetracesAt c kind (ofReader Reader.isBlockStartAhead) (ofReader Reader.isBlockStartAhead) :=
  fun _ _ hk => .isBlockStartAhead (fault?_of_isNumber (by rw [hk]; exact hkind))

end

/-- What stands behind a failure is not read. -/
theorem RetracesAt.fail_bind (cause : ParseCause) (f f' : α → Parser β) :
    RetracesAt c kind (Parser.fail cause >>= f) (Parser.fail cause >>= f') := by
  have stop (g : α → Parser β) : (Parser.fail cause >>= g) = Parser.fail cause := rfl
  rw [stop f, stop f']
  exact .fail cause

/-- At a mark the one way is taken, and the other one wherever else. -/
theorem Retraces.atMark (m : Mark) {f f' : Bool → Parser β}
    (hyes : RetracesAt c (.mark m) (f true) (f' true)) (hno : Retraces c (f false) (f' false)) :
    Retraces c (Parser.atMark m >>= f) (Parser.atMark m >>= f') := by
  intro env s
  have run (g : Bool → Parser β) : (Parser.atMark m >>= g) =
      (Parser.current >>= fun k => g (k == .mark m)) := rfl
  rw [run f, run f']
  refine .current ?_
  cases h : s.reader.current.kind == .mark m with
  | true => exact hyes env s (eq_of_beq h)
  | false => exact hno env s

theorem Retraces.expect (m : Mark) : Retraces c (Parser.expect m) (Parser.expect m) :=
  .atMark m (.advance rfl) (.fail _)

theorem Retraces.expectName (otherwise : ParseCause) :
    Retraces c (Parser.expectName otherwise) (Parser.expectName otherwise) := by
  intro env s
  by_cases hk : s.reader.current.kind = .ident
  · refine (RetracesAt.token rfl fun t ht => ?_ : RetracesAt c .ident _ _) env s hk
    rw [ht]
    exact RetracesAt.bind (.advance rfl) fun _ => .pure _
  · have other {t : Token} (ht : t.kind ≠ .ident) :
        (if t.kind == .ident then do Parser.advance; return t.value else Parser.fail otherwise) =
          Parser.fail otherwise := by
      simp [ht]
    refine .token ?_
    rw [other hk, other (by rwa [cut_kind])]
    exact Retraces.fail otherwise env s

end

end Parser

end CellScript
