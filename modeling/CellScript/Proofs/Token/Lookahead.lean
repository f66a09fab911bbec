import CellScript.Proofs.Token.Driven
import CellScript.Token.Reader

/-!
# Looking ahead is not seen

A reader keeps the current token, perhaps one token that it has looked at, and a stream that gives
up its tokens one by one. Which of the three a token is in depends on what has been asked before.
What the reader will come to does not (`Reader.upcoming`): a look leaves it as it is, and moving on
takes one token off its front. So whatever a reader is asked, and in whichever order, it answers
from the tokens that the text has when it is read on its own (`Read.Lexes`).

* `TokenStream.next_upcoming`, `Reader.advance_upcoming`, `Reader.isBlockStartAhead_upcoming`: what
  one step does to the tokens to come;
* `Reader.follow_eq`: the answers to a list of moves;
* `Reader.lookahead_invisible`: these are the answers from the plain sequence of tokens.
-/

namespace CellScript

/-! ## The tokens to come -/

namespace TokenStream

/-- The token that comes after `k` others. Behind the last one the end repeats. -/
def upcoming (s : TokenStream) (k : Nat) : Token := s.tokens.1[k]?.getD (.endAt s.stop)

/-- There is no fault to come. -/
def Faultless (s : TokenStream) : Prop := s.tokens.2 = none

/-- A stream without faults gives up the first of its tokens. -/
theorem next_upcoming {s : TokenStream} (h : s.Faultless) :
    ∃ rest, s.next = (.ok (s.upcoming 0), rest) ∧ rest.Faultless ∧
      ∀ k, rest.upcoming k = s.upcoming (k + 1) := by
  obtain ⟨steps, stop⟩ := s
  cases steps with
  | nil => exact ⟨⟨[], stop⟩, rfl, rfl, fun k => by cases k <;> rfl⟩
  | cons step steps =>
    cases step with
    | error e => cases h
    | ok t =>
      have tokens : TokenStream.tokens ⟨.ok t :: steps, stop⟩ = _ := tokens_cons_ok t ⟨steps, stop⟩
      have later : Faultless ⟨steps, stop⟩ := (congrArg Prod.snd tokens).symm.trans h
      refine ⟨⟨steps, stop⟩, ?_, later, fun k => ?_⟩
      · unfold upcoming
        rw [tokens]
        rfl
      · unfold upcoming
        rw [tokens]
        rfl

/-- A stream without faults has the end as its last token. -/
theorem tokens_getLast? {s : TokenStream} (h : s.Faultless) :
    s.tokens.1.getLast? = some (.endAt s.stop) := by
  obtain ⟨steps, stop⟩ := s
  induction steps with
  | nil => rfl
  | cons step steps ih =>
    cases step with
    | error e => cases h
    | ok t =>
      have tokens : TokenStream.tokens ⟨.ok t :: steps, stop⟩ = _ := tokens_cons_ok t ⟨steps, stop⟩
      have last := ih ((congrArg Prod.snd tokens).symm.trans h)
      rw [tokens, List.getLast?_cons, last]
      rfl

end TokenStream

namespace Reader

/-- The token that is current after `k` moves. -/
def upcoming (r : Reader) : Nat → Token
  | 0 => r.current
  | k + 1 =>
    match r.ahead, k with
    | none, k => r.stream.upcoming k
    | some t, 0 => t
    | some _, k + 1 => r.stream.upcoming k

/-- There is no fault to come, and behind the end of the source there is nothing else. -/
structure Sound (r : Reader) : Prop where
  faultless : r.stream.Faultless
  ends (k : Nat) : (r.upcoming k).kind = .endOfSource → r.upcoming (k + 1) = r.upcoming k

/-- A reader of the same tokens is sound too. -/
theorem Sound.congr {r q : Reader} (h : r.Sound) (faultless : q.stream.Faultless) (n : Nat)
    (same : ∀ k, q.upcoming k = r.upcoming (n + k)) : q.Sound where
  faultless := faultless
  ends k hk := by
    rw [same] at hk
    rw [same, same]
    exact h.ends (n + k) hk

/-- From the end of the source on there is nothing else. -/
theorem Sound.stays {r : Reader} (h : r.Sound) (atEnd : r.current.kind = .endOfSource) (k : Nat) :
    r.upcoming k = r.current := by
  induction k with
  | zero => rfl
  | succ k ih => rw [h.ends k (ih ▸ atEnd), ih]

/-- A new reader comes to the tokens of its stream. -/
theorem ofStream_upcoming {s : TokenStream} (h : s.Faultless) :
    ∃ r, ofStream s = .ok r ∧ r.stream.Faultless ∧ ∀ k, r.upcoming k = s.upcoming k := by
  obtain ⟨rest, next, faultless, later⟩ := TokenStream.next_upcoming h
  refine ⟨⟨s.upcoming 0, none, rest⟩, ?_, faultless, fun k => ?_⟩
  · unfold ofStream
    rw [next]
  · cases k with
    | zero => rfl
    | succ k => exact later k

/-! ## Moves -/

/-- Taking a token from the stream. -/
theorem pull_upcoming {r : Reader} (h : r.stream.Faultless) :
    ∃ rest, pull r = .ok (r.stream.upcoming 0) { r with stream := rest } ∧ rest.Faultless ∧
      ∀ k, rest.upcoming k = r.stream.upcoming (k + 1) := by
  obtain ⟨rest, next, faultless, later⟩ := TokenStream.next_upcoming h
  refine ⟨rest, ?_, faultless, later⟩
  unfold pull
  rw [next]

/-- Moving on takes one token off what is to come. -/
theorem advance_upcoming {r : Reader} (h : r.Sound) :
    ∃ q, advance r = .ok () q ∧ q.Sound ∧ ∀ k, q.upcoming k = r.upcoming (k + 1) := by
  by_cases atEnd : r.current.kind = .endOfSource
  · refine ⟨r, ?_, h, fun k => (h.stays atEnd k).trans (h.stays atEnd (k + 1)).symm⟩
    unfold advance
    rw [if_pos atEnd]
  · have moved (q : Reader) (faultless : q.stream.Faultless)
        (same : ∀ k, q.upcoming k = r.upcoming (k + 1)) : q.Sound :=
      h.congr faultless 1 fun k => by rw [same, Nat.add_comm]
    obtain ⟨current, ahead, stream⟩ := r
    cases ahead with
    | some t =>
      have same (k : Nat) :
          upcoming ⟨t, none, stream⟩ k = upcoming ⟨current, some t, stream⟩ (k + 1) :=
        by cases k <;> rfl
      refine ⟨⟨t, none, stream⟩, ?_, moved _ h.faultless same, same⟩
      unfold advance
      rw [if_neg atEnd]
    | none =>
      obtain ⟨rest, pulled, faultless, later⟩ := pull_upcoming h.faultless
      have same (k : Nat) : upcoming ⟨stream.upcoming 0, none, rest⟩ k =
          upcoming ⟨current, none, stream⟩ (k + 1) := by
        cases k with
        | zero => rfl
        | succ k => exact later k
      refine ⟨⟨stream.upcoming 0, none, rest⟩, ?_, moved _ faultless same, same⟩
      unfold advance
      rw [if_neg atEnd]
      dsimp only
      rw [pulled]

/-- Looking ahead tells whether the next token opens a block, and leaves what is to come. -/
theorem isBlockStartAhead_upcoming {r : Reader} (h : r.Sound) :
    ∃ q, isBlockStartAhead r = .ok ((r.upcoming 1).kind == .mark .leftBrace) q ∧ q.Sound ∧
      ∀ k, q.upcoming k = r.upcoming k := by
  obtain ⟨current, ahead, stream⟩ := r
  cases ahead with
  | some t => exact ⟨⟨current, some t, stream⟩, rfl, h, fun _ => rfl⟩
  | none =>
    obtain ⟨rest, pulled, faultless, later⟩ := pull_upcoming h.faultless
    have same (k : Nat) : upcoming ⟨current, some (stream.upcoming 0), rest⟩ k =
        upcoming ⟨current, none, stream⟩ k := by
      match k with
      | 0 => rfl
      | 1 => rfl
      | k + 2 => exact later k
    refine ⟨⟨current, some (stream.upcoming 0), rest⟩, ?_,
      h.congr faultless 0 fun k => by rw [same, Nat.zero_add], same⟩
    unfold isBlockStartAhead
    dsimp only
    rw [pulled]
    rfl

/-! ## Sequences of moves -/

/-- What a reader can be asked to do. -/
inductive Move
  | advance
  | lookAhead
  deriving DecidableEq, Repr

/-- What a reader tells: which token is current, or whether a block is opened behind it. -/
inductive Answer
  | current (t : Token)
  | opensBlock (b : Bool)
  deriving DecidableEq, Repr

/-- Move on and tell the token that is current then, or look ahead. -/
def move : Move → EStateM LexError Reader Answer
  | .advance => do
    advance
    return .current (← get).current
  | .lookAhead => return .opensBlock (← isBlockStartAhead)

/-- Make moves in order. -/
def follow : List Move → EStateM LexError Reader (List Answer)
  | [] => return []
  | m :: ms => do
    let a ← move m
    let as ← follow ms
    return a :: as

/-- The answers from a plain sequence of tokens, when `k` moves on have been made. -/
def answers (token : Nat → Token) : (k : Nat) → List Move → List Answer
  | _, [] => []
  | k, .advance :: ms => .current (token (k + 1)) :: answers token (k + 1) ms
  | k, .lookAhead :: ms =>
    .opensBlock ((token (k + 1)).kind == .mark .leftBrace) :: answers token k ms

/-- A reader that has moved on `k` times answers from the plain sequence, and goes on doing so. -/
theorem follow_eq {token : Nat → Token} {r : Reader} (h : r.Sound) {k : Nat}
    (same : ∀ i, r.upcoming i = token (k + i)) (ms : List Move) :
    ∃ q, follow ms r = .ok (answers token k ms) q ∧ q.current = token (k + ms.count .advance) := by
  induction ms generalizing k r with
  | nil => exact ⟨r, rfl, same 0⟩
  | cons m ms ih =>
    have rest {a : Answer} {q p : Reader} {as : List Answer} (moved : move m r = .ok a q)
        (followed : follow ms q = .ok as p) : follow (m :: ms) r = .ok (a :: as) p := by
      change EStateM.bind (move m) _ r = _
      rw [EStateM.bind, moved]
      change EStateM.bind (follow ms) _ q = _
      rw [EStateM.bind, followed]
      rfl
    cases m with
    | advance =>
      obtain ⟨q, advanced, sound, later⟩ := advance_upcoming h
      have next (i : Nat) : q.upcoming i = token (k + 1 + i) := by
        rw [later, same, Nat.add_assoc, Nat.add_comm 1 i]
      obtain ⟨p, followed, current⟩ := ih sound next
      have moved : move .advance r = .ok (.current (token (k + 1))) q := by
        change EStateM.bind advance _ r = _
        rw [EStateM.bind, advanced, ← next 0]
        rfl
      refine ⟨p, rest moved followed, ?_⟩
      rw [current, List.count_cons_self, Nat.add_assoc, Nat.add_comm 1]
    | lookAhead =>
      obtain ⟨q, looked, sound, unchanged⟩ := isBlockStartAhead_upcoming h
      have next (i : Nat) : q.upcoming i = token (k + i) := (unchanged i).trans (same i)
      obtain ⟨p, followed, current⟩ := ih sound next
      have moved : move .lookAhead r =
          .ok (.opensBlock ((token (k + 1)).kind == .mark .leftBrace)) q := by
        change EStateM.bind isBlockStartAhead _ r = _
        rw [EStateM.bind, looked, same 1]
        rfl
      exact ⟨p, rest moved followed, current⟩

end Reader

/-! ## Texts -/

/-- A text that is read to its end has one token that stands for this end, behind all others. -/
theorem Read.Lexes.ends {c : Cursor} {ts : List Token} (h : Lexes c ts none) :
    ∃ front stop, ts = front ++ [stop] ∧ stop.kind = .endOfSource ∧
      ∀ t ∈ front, t.kind ≠ .endOfSource := by
  generalize he : (none : Option LexError) = e at h
  induction h with
  | @stop _ _ t _ ht => exact ⟨[], t, rfl, ht, by simp⟩
  | @token _ _ t _ _ _ ht _ ih =>
    obtain ⟨front, stop, rfl, hstop, hfront⟩ := ih he
    exact ⟨t :: front, stop, rfl, hstop, List.forall_mem_cons.2 ⟨ht, hfront⟩⟩
  | fault _ => cases he

/-- The `k`-th token of a sequence; behind the last one that one repeats. -/
def tokenAt (ts : List Token) (stop : Token) (k : Nat) : Token := ts[k]?.getD stop

theorem tokenAt_stays {front : List Token} {stop : Token}
    (hfront : ∀ t ∈ front, t.kind ≠ .endOfSource) {k : Nat}
    (hk : (tokenAt (front ++ [stop]) stop k).kind = .endOfSource) :
    tokenAt (front ++ [stop]) stop (k + 1) = tokenAt (front ++ [stop]) stop k := by
  have behind {i : Nat} (hi : front.length ≤ i) : tokenAt (front ++ [stop]) stop i = stop := by
    unfold tokenAt
    rw [List.getElem?_append_right hi]
    cases i - front.length <;> rfl
  rcases Nat.lt_or_ge k front.length with inside | outside
  · unfold tokenAt at hk
    rw [List.getElem?_append_left inside, List.getElem?_eq_getElem inside] at hk
    exact absurd hk (hfront _ (List.getElem_mem inside))
  · rw [behind outside, behind (Nat.le_succ_of_le outside)]

/-- Looking ahead is not seen. Where a text is read to its end without a fault, a reader of it can
be moved on and asked to look ahead in any order and as often as one likes, also at the end: no
move fails, the token that is current after `k` moves on is the `k`-th one of the text, the token
of the end once these are used up, and a look tells whether the token behind the current one opens
a block. -/
theorem Reader.lookahead_invisible {text : String} {ts : List Token}
    (h : Read.Lexes (.ofList text.toList) ts none) :
    ∃ r stop, ofStream (.ofString text) = .ok r ∧ ts.getLast? = some stop ∧
      stop.kind = .endOfSource ∧ r.current = tokenAt ts stop 0 ∧
      ∀ ms, ∃ q, follow ms r = .ok (answers (tokenAt ts stop) 0 ms) q ∧
        q.current = tokenAt ts stop (ms.count .advance) := by
  have tokens : (TokenStream.ofString text).tokens = (ts, none) := (Read.lexes_iff _ _ _).1 h
  obtain ⟨r, made, faultless, upcoming⟩ := ofStream_upcoming (congrArg Prod.snd tokens)
  obtain ⟨front, stop, rfl, hstop, hfront⟩ := h.ends
  have last := TokenStream.tokens_getLast? (congrArg Prod.snd tokens)
  rw [tokens, List.getLast?_concat, Option.some.injEq] at last
  have plain (k : Nat) : r.upcoming k = tokenAt (front ++ [stop]) stop k := by
    rw [upcoming, TokenStream.upcoming, tokens, last]
    rfl
  have sound : r.Sound := ⟨faultless, fun k hk => by
    rw [plain] at hk
    rw [plain, plain]
    exact tokenAt_stays hfront hk⟩
  refine ⟨r, stop, made, List.getLast?_concat, hstop, plain 0, fun ms => ?_⟩
  obtain ⟨q, followed, current⟩ :=
    follow_eq sound (k := 0) (fun i => by rw [plain, Nat.zero_add]) ms
  exact ⟨q, followed, by rw [current, Nat.zero_add]⟩

/-- Looks and moves on in a text of four tokens, also behind its end: the block behind `T` is seen
twice before it is entered, and nothing is lost by it. -/
theorem Reader.lookahead_invisible_block :
    Read.Lexes (.ofList "T \x7b\x7d".toList)
        [⟨.ident, "T", ⟨1, 1⟩⟩, ⟨.mark .leftBrace, "\x7b", ⟨1, 3⟩⟩,
          ⟨.mark .rightBrace, "\x7d", ⟨1, 4⟩⟩, .endAt ⟨1, 5⟩] none ∧
      ∃ r q, ofStream (.ofString "T \x7b\x7d") = .ok r ∧
        follow [.lookAhead, .lookAhead, .advance, .advance, .lookAhead, .advance, .advance] r =
          .ok [.opensBlock true, .opensBlock true, .current ⟨.mark .leftBrace, "\x7b", ⟨1, 3⟩⟩,
            .current ⟨.mark .rightBrace, "\x7d", ⟨1, 4⟩⟩, .opensBlock false,
            .current (.endAt ⟨1, 5⟩), .current (.endAt ⟨1, 5⟩)] q ∧
        q.current = .endAt ⟨1, 5⟩ := by
  have lexed : Read.Lexes (.ofList "T \x7b\x7d".toList)
      [⟨.ident, "T", ⟨1, 1⟩⟩, ⟨.mark .leftBrace, "\x7b", ⟨1, 3⟩⟩,
        ⟨.mark .rightBrace, "\x7d", ⟨1, 4⟩⟩, .endAt ⟨1, 5⟩] none :=
    (Read.lexes_iff _ _ _).2 (by rfl)
  obtain ⟨r, stop, made, last, -, -, runs⟩ := Reader.lookahead_invisible lexed
  obtain ⟨q, followed, current⟩ := runs [.lookAhead, .lookAhead, .advance, .advance, .lookAhead,
    .advance, .advance]
  cases last
  exact ⟨lexed, r, q, made, followed, current⟩

end CellScript
