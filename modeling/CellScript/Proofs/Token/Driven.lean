import CellScript.Proofs.Token.Shape
import CellScript.Source.Cursor

/-!
# Reading tokens through a cursor

`scan` cuts a list of characters. Here the same pieces are read the way a stream is read: one
character at a time, by looking at what lies ahead and moving over it, where a move beyond the end
of the text is a failure of its own (`ReadFailure.pastEnd`).

* `Read.nextToken`: skip blanks and comments, then read one token;
* `Read.nextToken_cons`: it finds what `scan` finds, and stands behind it afterwards, also where
  `scan` finds a fault;
* `Read.lexes_iff`: calling it until the end of the source or a fault gives the tokens of the
  text, and `Read.nextToken_ne_pastEnd`: no call moves beyond the end.
-/

namespace CellScript

theorem Position.step_line {c : Char} (hc : c ≠ '\n') (p : Position) :
    (p.step c).line = p.line := by
  simp [Position.step, hc]

/-- What can go wrong while a text is read: a move beyond its end, or a fault in the text. -/
inductive ReadFailure
  | pastEnd (message : String)
  | fault (e : LexError)
  deriving DecidableEq, Repr

/-- What reading ends in. -/
abbrev ReadResult := EStateM.Result ReadFailure Cursor

/-- Steps that move a cursor. -/
abbrev Read := EStateM ReadFailure Cursor

namespace Read

/-! ## Moving and looking -/

/-- Move over the next character. -/
def advance : Read Char := fun c =>
  match c.next? with
  | some (x, d) => .ok x d
  | none => .error (.pastEnd c.pastEndMessage) c

/-- Move over some characters. -/
def skip : Nat → Read Unit
  | 0 => pure ()
  | n + 1 => do
    let _ ← advance
    skip n

/-- Report a fault that began on a line. -/
def fail {α : Type} (f : LexFault) (line : Nat) : Read α := throw (.fault ⟨f, line⟩)

theorem fail_apply {α : Type} (f : LexFault) (line : Nat) (c : Cursor) :
    fail (α := α) f line c = .error (.fault ⟨f, line⟩) c := rfl

/-- What was read, changed. -/
def after {α β : Type} (f : α → β) : ReadResult α → ReadResult β
  | .ok a c => .ok (f a) c
  | .error e c => .error e c

/-- Steps that only change what was read. -/
theorem bind_pure_apply {α β : Type} (x : Read α) (f : α → β) (c : Cursor) :
    (x >>= fun a => pure (f a)) c = after f (x c) := by
  change EStateM.bind x _ c = _
  unfold EStateM.bind
  split <;> next h => rw [h]; rfl

theorem after_after {α β γ : Type} (f : β → γ) (g : α → β) (r : ReadResult α) :
    after f (after g r) = after (fun a => f (g a)) r := by
  cases r <;> rfl

theorem ahead_lt_of_next? {c d : Cursor} {x : Char} (h : c.next? = some (x, d)) :
    d.ahead.length < c.ahead.length := by
  obtain ⟨passed, ahead, place⟩ := c
  cases ahead with
  | nil => cases h
  | cons y rest =>
    cases h
    exact Nat.lt_succ_self _

/-- Read characters for as long as the next one is in a class. -/
def takeWhile (p : Char → Bool) (c : Cursor) : ReadResult (List Char) :=
  if (c.peek? 0).any p then
    match _h : c.next? with
    | some (x, d) => after (x :: ·) (takeWhile p d)
    | none => .error (.pastEnd c.pastEndMessage) c
  else .ok [] c
termination_by c.ahead.length
decreasing_by exact ahead_lt_of_next? _h

/-- A class stops where the first character outside of it stands. -/
theorem takeWhile_eq (p : Char → Bool) (passed cs : List Char) (place : Position) :
    takeWhile p ⟨passed, cs, place⟩ =
      .ok (cs.takeWhile p)
        ⟨(cs.takeWhile p).reverse ++ passed, cs.dropWhile p, place.advance (cs.takeWhile p)⟩ := by
  induction cs generalizing passed place with
  | nil =>
    rw [takeWhile]
    rfl
  | cons x cs ih =>
    rw [takeWhile]
    cases hx : p x with
    | false =>
      have hpeek : (Cursor.peek? ⟨passed, x :: cs, place⟩ 0).any p = false := hx
      simp [hpeek, hx, Position.advance_nil]
    | true =>
      have hpeek : (Cursor.peek? ⟨passed, x :: cs, place⟩ 0).any p = true := hx
      simp [hpeek, hx, Cursor.next?, ih, after, Position.advance]

/-! ## Blanks and comments -/

/-- Read a block comment, begun on a line, behind its opening. -/
def closeComment (line : Nat) (c : Cursor) : ReadResult Unit :=
  if c.atEnd then fail .commentNotClosed line c
  else if c.peek? 0 == some '*' && c.peek? 1 == some '/' then skip 2 c
  else
    match _h : c.next? with
    | some (_, d) => closeComment line d
    | none => .error (.pastEnd c.pastEndMessage) c
termination_by c.ahead.length
decreasing_by exact ahead_lt_of_next? _h

/-- Read a block comment. -/
def blockComment : Read Unit := do
  let line := (← get).place.line
  skip 2
  closeComment line

/-- Skip one blank or comment, and say whether there was one ahead. -/
def skipGap : Read Bool := fun c =>
  if (c.peek? 0).any isGap then after (fun _ => true) (skip 1 c)
  else if c.peek? 0 == some '/' && c.peek? 1 == some '/' then
    after (fun _ => true) (takeWhile Lexer.inLine c)
  else if c.peek? 0 == some '/' && c.peek? 1 == some '*' then after (fun _ => true) (blockComment c)
  else .ok false c

end Read

/-- A text that opens with a slash and another character. -/
theorem Lexer.eq_of_opens {c d : Char} {cs : List Char}
    (h : (c == '/' && cs.head? == some d) = true) : c = '/' ∧ ∃ rest, cs = d :: rest := by
  rw [Bool.and_eq_true, beq_iff_eq, beq_iff_eq] at h
  cases cs with
  | nil => cases h.2
  | cons e rest =>
    cases h.2
    exact ⟨h.1, rest, rfl⟩

/-- The piece at the front of a text that begins with neither a blank nor a comment. -/
def Lexer.scanToken (c : Char) (cs : List Char) : Scan :=
  if isNameStart c then scanName c cs
  else if isDigit c then scanNumber c cs
  else if c == '.' && startsWithDigit cs then scanFraction [] cs
  else if c == '"' then scanString cs
  else scanMark c cs

/-- The cursor behind a piece. -/
def Cursor.behind (c : Cursor) (s : Lexer.Scan) : Cursor :=
  ⟨s.lexeme.reverse ++ c.passed, s.rest, c.place.advance s.lexeme⟩

namespace Read

theorem closeComment_eq (line : Nat) (passed cs : List Char) (place : Position) :
    closeComment line ⟨passed, cs, place⟩ =
      match Lexer.splitComment cs with
      | some (body, rest) => .ok () ⟨body.reverse ++ passed, rest, place.advance body⟩
      | none =>
        .error (.fault ⟨.commentNotClosed, line⟩) ⟨cs.reverse ++ passed, [], place.advance cs⟩ := by
  fun_induction Lexer.splitComment cs generalizing passed place with
  | case1 =>
    rw [closeComment]
    rfl
  | case2 rest =>
    rw [closeComment]
    rfl
  | case3 c cs hopen ih =>
    have hpeek : (Cursor.peek? ⟨passed, c :: cs, place⟩ 0 == some '*' &&
        Cursor.peek? ⟨passed, c :: cs, place⟩ 1 == some '/') = false := by
      cases cs with
      | nil => simp [Cursor.peek?]
      | cons d rest =>
        rw [Bool.eq_false_iff]
        intro h
        simp only [Cursor.peek?, Bool.and_eq_true, beq_iff_eq] at h
        have hc : c = '*' := by simpa using h.1
        have hd : d = '/' := by simpa using h.2
        exact hopen rest hc (by rw [hd])
    rw [closeComment, if_neg (by simp [Cursor.atEnd]), if_neg (by simp [hpeek])]
    simp only [Cursor.next?, ih]
    cases Lexer.splitComment cs with
    | none => simp [Position.advance]
    | some split => simp [Position.advance]

/-- What a scan says about the text in front of a cursor: nothing for a gap, else a token or a
fault, and the cursor behind it. -/
def told (c : Cursor) (s : Lexer.Scan) : ReadResult (Option Token) :=
  match s.piece with
  | .gap => .ok none (c.behind s)
  | .token kind value => .ok (some ⟨kind, value, c.place⟩) (c.behind s)
  | .fault f => .error (.fault ⟨f, c.place.line⟩) (c.behind s)

/-- Skipping takes a gap, meets the fault of a comment, or stays where it is. -/
theorem skipGap_cons (passed : List Char) (x : Char) (xs : List Char) (place : Position) :
    let c : Cursor := ⟨passed, x :: xs, place⟩
    skipGap c = .ok true (c.behind (Lexer.scan x xs)) ∧ (Lexer.scan x xs).piece = .gap ∨
    (∃ f, skipGap c = .error (.fault ⟨f, place.line⟩) (c.behind (Lexer.scan x xs)) ∧
      (Lexer.scan x xs).piece = .fault f) ∨
    skipGap c = .ok false c ∧ Lexer.scan x xs = Lexer.scanToken x xs := by
  intro c
  have hfirst : c.peek? 0 = some x := rfl
  have hsecond : c.peek? 1 = xs.head? := by cases xs <;> rfl
  have hslash (d : Char) : (c.peek? 0 == some '/' && c.peek? 1 == some d) =
      (x == '/' && xs.head? == some d) := by
    rw [hfirst, hsecond]
    rfl
  have hblank : (c.peek? 0).any isGap = isGap x := rfl
  unfold skipGap Lexer.scan
  rw [hblank, hslash, hslash]
  split
  · exact .inl ⟨rfl, rfl⟩
  split
  · next h =>
    obtain ⟨rfl, rest, rfl⟩ := Lexer.eq_of_opens h
    refine .inl ⟨?_, rfl⟩
    rw [takeWhile_eq]
    rfl
  split
  · next h =>
    obtain ⟨rfl, rest, rfl⟩ := Lexer.eq_of_opens h
    have hblock : blockComment c = closeComment place.line
      ⟨'*' :: '/' :: passed, rest, (place.step '/').step '*'⟩ := rfl
    rw [hblock, closeComment_eq, Lexer.scanBlockComment, List.tail_cons]
    cases hsplit : Lexer.splitComment rest with
    | none =>
      refine .inr (.inl ⟨.commentNotClosed, ?_, rfl⟩)
      simp [after, Cursor.behind, Position.advance, c]
    | some split => exact .inl ⟨by simp [after, Cursor.behind, Position.advance, c], rfl⟩
  · exact .inr (.inr ⟨rfl, rfl⟩)

theorem ahead_lt_of_skipGap {c d : Cursor} (h : skipGap c = .ok true d) :
    d.ahead.length < c.ahead.length := by
  obtain ⟨passed, cs, place⟩ := c
  cases cs with
  | nil => cases h
  | cons x xs =>
    have hrest := Lexer.scan_rest_length x xs
    rcases skipGap_cons passed x xs place with ⟨hskip, -⟩ | ⟨f, hskip, -⟩ | ⟨hskip, -⟩
    · rw [hskip] at h
      cases h
      exact Nat.lt_succ_of_le hrest
    · rw [hskip] at h
      cases h
    · rw [hskip] at h
      cases h

/-- Skip all blanks and comments ahead. -/
def skipGaps (c : Cursor) : ReadResult Unit :=
  match _h : skipGap c with
  | .ok true d => skipGaps d
  | .ok false d => .ok () d
  | .error f d => .error f d
termination_by c.ahead.length
decreasing_by exact ahead_lt_of_skipGap _h

/-! ## Numbers -/

/-- Read the digits of a number, begun on a line, and at most one point among them; say whether
there was one. -/
def digits (line : Nat) (dotted : Bool) (c : Cursor) : ReadResult (Bool × List Char) :=
  if (c.peek? 0).any fun x => isDigit x || x == '.' then
    if c.peek? 0 == some '.' && dotted then fail .malformedReal line c
    else
      match _h : c.next? with
      | some (x, d) => after (fun r => (r.1, x :: r.2)) (digits line (dotted || x == '.') d)
      | none => .error (.pastEnd c.pastEndMessage) c
  else .ok (dotted, []) c
termination_by c.ahead.length
decreasing_by exact ahead_lt_of_next? _h

/-- Read a hexadecimal number. -/
def hex : Read Token := do
  let place := (← get).place
  let zero ← advance
  let x ← advance
  let ds ← takeWhile Lexer.isHexDigit
  if ds.isEmpty then fail .hexDigitsExpected place.line
  else return ⟨.integer, String.ofList (zero :: x :: ds), place⟩

/-- Read a decimal number. -/
def decimal : Read Token := do
  let place := (← get).place
  let (dotted, ds) ← digits place.line false
  return ⟨if dotted then .real else .integer, String.ofList ds, place⟩

/-- Read a number. -/
def number : Read Token := fun c =>
  if c.peek? 0 == some '0' && (c.peek? 1 == some 'x' || c.peek? 1 == some 'X') then hex c
  else decimal c

/-! ## Strings -/

/-- Read a string, begun on a line, behind its opening quote. -/
def contents (line : Nat) (c : Cursor) : ReadResult (List Char) :=
  if c.atEnd || c.peek? 0 == some '\n' then fail .stringNotClosed line c
  else
    match _h : c.next? with
    | none => .error (.pastEnd c.pastEndMessage) c
    | some (x, d) =>
      if x == '"' then .ok [] d
      else if x == '\\' then
        match (d.peek? 0).bind Lexer.escaped? with
        | none => fail .unknownEscape d.place.line d
        | some y =>
          match _h' : d.next? with
          | none => .error (.pastEnd d.pastEndMessage) d
          | some (_, e) => after (y :: ·) (contents line e)
      else after (x :: ·) (contents line d)
termination_by c.ahead.length
decreasing_by
  · exact Nat.lt_trans (ahead_lt_of_next? _h') (ahead_lt_of_next? _h)
  · exact ahead_lt_of_next? _h

/-- Read a string. -/
def string : Read Token := do
  let place := (← get).place
  skip 1
  let text ← contents place.line
  return ⟨.string, String.ofList text, place⟩

/-! ## Tokens -/

/-- The next characters, or those that are left. -/
def upTo (c : Cursor) (n : Nat) : List Char :=
  (List.range n).filterMap fun k : Nat => c.peek? k

/-- The longest mark among the next three characters. -/
def markAhead? (c : Cursor) : Option Mark :=
  (Mark.ofChars? (upTo c 3)).or ((Mark.ofChars? (upTo c 2)).or (Mark.ofChars? (upTo c 1)))

/-- Read a name or a keyword. -/
def name : Read Token := do
  let place := (← get).place
  let cs ← takeWhile isNameChar
  let value := String.ofList cs
  let kind := match Keyword.ofSpelling? value with
    | some k => TokenKind.keyword k
    | none => .ident
  return ⟨kind, value, place⟩

/-- Read a mark, or a character that starts nothing. -/
def mark : Read Token := do
  let c ← get
  match markAhead? c with
  | some m =>
    skip m.chars.length
    return ⟨.mark m, m.spelling, c.place⟩
  | none => return ⟨.invalid, String.ofList [← advance], c.place⟩

/-- Read the token ahead. -/
def token : Read Token := fun c =>
  if (c.peek? 0).any isNameStart then name c
  else if (c.peek? 0).any isDigit || c.peek? 0 == some '.' && (c.peek? 1).any isDigit then number c
  else if c.peek? 0 == some '"' then string c
  else mark c

/-- Skip blanks and comments, and read the token behind them or the end of the source. -/
def nextToken : Read Token := do
  skipGaps
  let c ← get
  if c.atEnd then return .endAt c.place
  else token

/-! ## Agreement with the pieces of the text -/

section Agreement

variable (passed : List Char) (place : Position)

/-- A run of digits is read to its end. -/
theorem digits_run (line : Nat) (dotted : Bool) (cs : List Char) :
    digits line dotted ⟨passed, cs, place⟩ =
      after (fun r => (r.1, cs.takeWhile isDigit ++ r.2)) (digits line dotted
        ⟨(cs.takeWhile isDigit).reverse ++ passed, cs.dropWhile isDigit,
          place.advance (cs.takeWhile isDigit)⟩) := by
  have hid (r : ReadResult (Bool × List Char)) : after (fun r => (r.1, [] ++ r.2)) r = r := by
    cases r <;> rfl
  induction cs generalizing passed place with
  | nil => exact (hid _).symm
  | cons x cs ih =>
    cases hx : isDigit x with
    | false =>
      rw [List.takeWhile_cons_of_neg (by simp [hx]), List.dropWhile_cons_of_neg (by simp [hx])]
      exact (hid _).symm
    | true =>
      have hdot : (x == '.') = false := by
        rw [beq_eq_false_iff_ne]
        rintro rfl
        revert hx
        decide +kernel
      rw [List.takeWhile_cons_of_pos hx, List.dropWhile_cons_of_pos hx, digits]
      have hpeek : Cursor.peek? ⟨passed, x :: cs, place⟩ 0 = some x := rfl
      rw [hpeek, if_pos (by simp [hx]), if_neg (by simp_all)]
      simp only [Cursor.next?, hdot, Bool.or_false]
      rw [ih, after_after]
      simp [Position.advance]

/-- Digits end where neither a digit nor a point stands. -/
theorem digits_stop (line : Nat) (dotted : Bool) {cs : List Char}
    (hcs : ∀ x ∈ cs.head?, isDigit x = false ∧ x ≠ '.') :
    digits line dotted ⟨passed, cs, place⟩ = .ok (dotted, []) ⟨passed, cs, place⟩ := by
  rw [digits]
  cases cs with
  | nil => rfl
  | cons x cs =>
    obtain ⟨hdigit, hdot⟩ := hcs x rfl
    have hpeek : Cursor.peek? ⟨passed, x :: cs, place⟩ 0 = some x := rfl
    rw [hpeek, if_neg (by simp [hdigit, hdot])]

/-- The first point is read like a digit. -/
theorem digits_point (line : Nat) (cs : List Char) :
    digits line false ⟨passed, '.' :: cs, place⟩ = after (fun r => (r.1, '.' :: r.2))
      (digits line true ⟨'.' :: passed, cs, place.step '.'⟩) := by
  rw [digits]
  rfl

/-- Behind a run of digits no digit stands. -/
theorem head?_dropWhile_isDigit {cs : List Char}
    (hdot : ∀ rest, cs.dropWhile isDigit ≠ '.' :: rest) :
    ∀ x ∈ (cs.dropWhile isDigit).head?, isDigit x = false ∧ x ≠ '.' := by
  intro x hx
  refine ⟨Lexer.head?_dropWhile x hx, ?_⟩
  rintro rfl
  obtain ⟨rest, hrest⟩ := List.head?_eq_some_iff.1 hx
  exact hdot rest hrest

/-- The digits behind a point: a second point is a fault. -/
theorem digits_second_point (line : Nat) {cs rest : List Char}
    (h : cs.dropWhile isDigit = '.' :: rest) :
    digits line true ⟨passed, cs, place⟩ = .error (.fault ⟨.malformedReal, line⟩)
      ⟨(cs.takeWhile isDigit).reverse ++ passed, '.' :: rest,
        place.advance (cs.takeWhile isDigit)⟩ := by
  rw [digits_run, h, digits]
  rfl

/-- The digits behind a point, up to something else. -/
theorem digits_dotted (line : Nat) {cs : List Char}
    (h : ∀ rest, cs.dropWhile isDigit ≠ '.' :: rest) :
    digits line true ⟨passed, cs, place⟩ = .ok (true, cs.takeWhile isDigit)
      ⟨(cs.takeWhile isDigit).reverse ++ passed, cs.dropWhile isDigit,
        place.advance (cs.takeWhile isDigit)⟩ := by
  rw [digits_run, digits_stop _ _ _ _ (head?_dropWhile_isDigit h)]
  simp [after]

/-- A decimal number is read as it is scanned. -/
theorem decimal_eq (cs : List Char) :
    after some (decimal ⟨passed, cs, place⟩) = told ⟨passed, cs, place⟩
      (match cs.dropWhile isDigit with
      | '.' :: rest => Lexer.scanFraction (cs.takeWhile isDigit) rest
      | rest =>
        ⟨.token .integer (String.ofList (cs.takeWhile isDigit)), cs.takeWhile isDigit, rest⟩) := by
  have hdecimal : decimal ⟨passed, cs, place⟩ =
      after (fun r => ⟨if r.1 then .real else .integer, String.ofList r.2, place⟩)
        (digits place.line false ⟨passed, cs, place⟩) :=
    bind_pure_apply (digits place.line false) _ _
  rw [hdecimal, digits_run]
  split
  · next rest hrest =>
    rw [hrest, digits_point]
    unfold Lexer.scanFraction
    dsimp only
    split
    · next again hagain =>
      rw [digits_second_point _ _ _ hagain]
      simp [after, told, Cursor.behind, Position.advance]
    · next hplain =>
      rw [digits_dotted _ _ _ hplain]
      simp [after, told, Cursor.behind, Position.advance]
  · next hdot =>
    rw [digits_stop _ _ _ _ (head?_dropWhile_isDigit hdot)]
    simp [after, told, Cursor.behind]

/-- A hexadecimal number is read as it is scanned. -/
theorem hex_eq (y : Char) (cs : List Char) :
    after some (hex ⟨passed, '0' :: y :: cs, place⟩) =
      told ⟨passed, '0' :: y :: cs, place⟩ (Lexer.scanHex y cs) := by
  have hhex : hex ⟨passed, '0' :: y :: cs, place⟩ =
      match takeWhile Lexer.isHexDigit ⟨y :: '0' :: passed, cs, (place.step '0').step y⟩ with
      | .ok ds d => if ds.isEmpty then fail .hexDigitsExpected place.line d
          else .ok ⟨.integer, String.ofList ('0' :: y :: ds), place⟩ d
      | .error f d => .error f d := by
    change EStateM.bind (takeWhile Lexer.isHexDigit) _ _ = _
    unfold EStateM.bind
    split
    · next ds d h =>
      rw [h]
      dsimp only
      split <;> rfl
    · next h => rw [h]
  rw [hhex, takeWhile_eq]
  unfold Lexer.scanHex told
  dsimp only
  cases (cs.takeWhile Lexer.isHexDigit).isEmpty with
  | true => simp [fail_apply, after, Cursor.behind, Position.advance]
  | false => simp [after, Cursor.behind, Position.advance]

/-- A number is read as it is scanned. -/
theorem number_eq {x : Char} (hx : isDigit x = true) (xs : List Char) :
    after some (number ⟨passed, x :: xs, place⟩) =
      told ⟨passed, x :: xs, place⟩ (Lexer.scanNumber x xs) := by
  unfold Lexer.scanNumber
  split
  · exact hex_eq passed place 'x' _
  · exact hex_eq passed place 'X' _
  · next hlower hupper =>
    have hdecimal : number ⟨passed, x :: xs, place⟩ = decimal ⟨passed, x :: xs, place⟩ := by
      refine if_neg ?_
      cases xs with
      | nil => simp [Cursor.peek?]
      | cons y rest =>
        simp only [Cursor.peek?, Bool.and_eq_true, Bool.or_eq_true, beq_iff_eq]
        rintro ⟨hzero, hx | hx⟩
        · exact hlower rest (by simpa using hzero) (by simpa using hx)
        · exact hupper rest (by simpa using hzero) (by simpa using hx)
    rw [hdecimal, decimal_eq, List.takeWhile_cons_of_pos hx, List.dropWhile_cons_of_pos hx]
    rfl

/-- What a scan of the inside of a string says about the text in front of a cursor. -/
def toldContents (c : Cursor) (s : Lexer.Contents) : ReadResult (List Char) :=
  match s.value with
  | .ok text => .ok text ⟨s.lexeme.reverse ++ c.passed, s.rest, c.place.advance s.lexeme⟩
  | .error f => .error (.fault ⟨f, c.place.line⟩)
      ⟨s.lexeme.reverse ++ c.passed, s.rest, c.place.advance s.lexeme⟩

theorem toldContents_push {written : List Char} (hline : (place.advance written).line = place.line)
    (ahead ahead' : List Char) (s : Lexer.Contents) (x : Char) :
    toldContents ⟨passed, ahead, place⟩ (s.push written x) = after (x :: ·)
      (toldContents ⟨written.reverse ++ passed, ahead', place.advance written⟩ s) := by
  obtain ⟨lexeme, rest, value⟩ := s
  cases value <;>
    simp [toldContents, Lexer.Contents.push, Except.map, after, hline, Position.advance_append]

/-- The inside of a string is read as it is scanned. It stands on one line, so a wrong escape is
reported there. -/
theorem contents_eq (cs : List Char) :
    contents place.line ⟨passed, cs, place⟩ =
      toldContents ⟨passed, cs, place⟩ (Lexer.scanContents cs) := by
  fun_induction Lexer.scanContents cs generalizing passed place with
  | case1 =>
    rw [contents]
    rfl
  | case2 =>
    rw [contents]
    rfl
  | case3 e rest c he ih =>
    have hbreak : e ≠ '\n' := by
      rintro rfl
      cases he
    have hline : (place.advance ['\\', e]).line = place.line := by
      simp [Position.advance, Position.step_line, hbreak]
    have hread : contents place.line ⟨passed, '\\' :: e :: rest, place⟩ =
        after (c :: ·) (contents place.line
          ⟨e :: '\\' :: passed, rest, place.advance ['\\', e]⟩) := by
      rw [contents]
      simp [Cursor.atEnd, Cursor.peek?, Cursor.next?, he, Position.advance]
    rw [hread, toldContents_push passed place hline _ rest, ← hline, ih]
    rfl
  | case4 e rest he =>
    rw [contents]
    simp [Cursor.atEnd, Cursor.peek?, Cursor.next?, he, fail_apply, toldContents, Position.advance,
      Position.step_line]
  | case5 c rest _ _ h =>
    have hc : c = '"' := eq_of_beq h
    rw [contents, hc]
    rfl
  | case6 c rest _ _ _ h =>
    have hc : c = '\n' := eq_of_beq h
    rw [contents, hc]
    rfl
  | case7 c rest hlast hescape hquote hbreak ih =>
    rw [beq_iff_eq] at hquote hbreak
    have hslash : c ≠ '\\' := by
      intro hc
      cases rest with
      | nil => exact hlast hc rfl
      | cons e rest => exact hescape e rest hc rfl
    have hline : (place.advance [c]).line = place.line := Position.step_line hbreak place
    have hread : contents place.line ⟨passed, c :: rest, place⟩ =
        after (c :: ·) (contents place.line ⟨c :: passed, rest, place.advance [c]⟩) := by
      rw [contents]
      simp [Cursor.atEnd, Cursor.peek?, Cursor.next?, hquote, hbreak, hslash, Position.advance]
    rw [hread, toldContents_push passed place hline _ rest, ← hline, ih]
    rfl

/-- A string is read as it is scanned. -/
theorem string_eq (cs : List Char) :
    after some (string ⟨passed, '"' :: cs, place⟩) =
      told ⟨passed, '"' :: cs, place⟩ (Lexer.scanString cs) := by
  have hstring : string ⟨passed, '"' :: cs, place⟩ =
      after (fun text => ⟨.string, String.ofList text, place⟩)
        (contents place.line ⟨'"' :: passed, cs, place.step '"'⟩) :=
    bind_pure_apply (contents place.line) _ _
  have hline : (place.step '"').line = place.line := Position.step_line (by decide) place
  rw [hstring, ← hline, contents_eq]
  unfold toldContents Lexer.scanString told
  cases hvalue : (Lexer.scanContents cs).value <;>
    simp [after, Cursor.behind, Position.advance, hline, hvalue]

/-- Looking at three characters finds the longest mark. -/
theorem markAhead?_eq (x : Char) (xs : List Char) :
    markAhead? ⟨passed, x :: xs, place⟩ = Mark.longest? x xs := by
  match xs with
  | [] =>
    change (Mark.ofChars? [x]).or ((Mark.ofChars? [x]).or (Mark.ofChars? [x])) = _
    simp [Mark.longest?]
  | [y] =>
    change (Mark.ofChars? [x, y]).or ((Mark.ofChars? [x, y]).or (Mark.ofChars? [x])) = _
    simp [Mark.longest?, ← Option.or_assoc]
  | y :: z :: rest =>
    change (Mark.ofChars? [x, y, z]).or ((Mark.ofChars? [x, y]).or (Mark.ofChars? [x])) = _
    rw [Mark.ofChars?_three]
    rfl

/-- Moving over characters that are ahead. -/
theorem skip_eq (cs rest : List Char) :
    skip cs.length ⟨passed, cs ++ rest, place⟩ =
      .ok () ⟨cs.reverse ++ passed, rest, place.advance cs⟩ := by
  induction cs generalizing passed place with
  | nil => rfl
  | cons c cs ih =>
    have hskip : skip (c :: cs).length ⟨passed, c :: cs ++ rest, place⟩ =
      skip cs.length ⟨c :: passed, cs ++ rest, place.step c⟩ := rfl
    rw [hskip, ih]
    simp [Position.advance]

/-- A mark is read as it is scanned. -/
theorem mark_eq (x : Char) (xs : List Char) :
    after some (mark ⟨passed, x :: xs, place⟩) =
      told ⟨passed, x :: xs, place⟩ (Lexer.scanMark x xs) := by
  have hmark : mark ⟨passed, x :: xs, place⟩ =
      match Mark.longest? x xs with
      | some m => after (fun _ => ⟨.mark m, m.spelling, place⟩)
          (skip m.chars.length ⟨passed, x :: xs, place⟩)
      | none => .ok ⟨.invalid, String.ofList [x], place⟩ ⟨x :: passed, xs, place.step x⟩ := by
    rw [← markAhead?_eq passed place]
    change (match markAhead? ⟨passed, x :: xs, place⟩ with
      | some m => EStateM.bind (skip m.chars.length) _
      | none => EStateM.bind advance _ : Read Token) ⟨passed, x :: xs, place⟩ = _
    cases markAhead? ⟨passed, x :: xs, place⟩ with
    | none => rfl
    | some m => exact bind_pure_apply (skip m.chars.length) _ _
  rw [hmark]
  unfold Lexer.scanMark
  cases hlongest : Mark.longest? x xs with
  | none => rfl
  | some m =>
    obtain ⟨hchars, happend⟩ := Mark.chars_of_longest? hlongest
    have hskip := skip_eq passed place m.chars (xs.drop (m.chars.length - 1))
    rw [happend] at hskip
    simp only [hskip, after, told, Cursor.behind, ← hchars]

/-- A name or keyword is read as it is scanned. -/
theorem name_eq {x : Char} (hx : isNameStart x = true) (xs : List Char) :
    after some (name ⟨passed, x :: xs, place⟩) =
      told ⟨passed, x :: xs, place⟩ (Lexer.scanName x xs) := by
  have hchar : isNameChar x = true := by
    unfold isNameStart at hx
    unfold isNameChar
    grind
  have hname : name ⟨passed, x :: xs, place⟩ =
      after (fun cs => ⟨match Keyword.ofSpelling? (String.ofList cs) with
        | some k => .keyword k
        | none => .ident, String.ofList cs, place⟩)
        (takeWhile isNameChar ⟨passed, x :: xs, place⟩) :=
    bind_pure_apply (takeWhile isNameChar) _ _
  rw [hname, takeWhile_eq, List.takeWhile_cons_of_pos hchar, List.dropWhile_cons_of_pos hchar]
  rfl

/-- A token is read as it is scanned. -/
theorem token_eq (x : Char) (xs : List Char) :
    after some (token ⟨passed, x :: xs, place⟩) =
      told ⟨passed, x :: xs, place⟩ (Lexer.scanToken x xs) := by
  have hany (p : Char → Bool) : (Cursor.peek? ⟨passed, x :: xs, place⟩ 0).any p = p x := rfl
  have hfirst (y : Char) : (Cursor.peek? ⟨passed, x :: xs, place⟩ 0 == some y) = (x == y) := rfl
  have hsecond : (Cursor.peek? ⟨passed, x :: xs, place⟩ 1).any isDigit =
      Lexer.startsWithDigit xs := by
    cases xs <;> rfl
  unfold token Lexer.scanToken
  rw [hany, hany, hfirst, hfirst, hsecond]
  split
  · next hx => exact name_eq passed place hx xs
  by_cases hdigit : isDigit x = true
  · simp only [hdigit, Bool.true_or, if_true]
    exact number_eq passed place hdigit xs
  simp only [hdigit, Bool.false_or, Bool.false_eq_true, if_false]
  split
  · next hdot =>
    rw [Bool.and_eq_true, beq_iff_eq] at hdot
    obtain ⟨rfl, -⟩ := hdot
    have hdecimal : number ⟨passed, '.' :: xs, place⟩ = decimal ⟨passed, '.' :: xs, place⟩ :=
      if_neg (by simp [Cursor.peek?])
    rw [hdecimal, decimal_eq, List.takeWhile_cons_of_neg hdigit, List.dropWhile_cons_of_neg hdigit]
    rfl
  by_cases hquote : (x == '"') = true
  · cases eq_of_beq hquote
    exact string_eq passed place xs
  · rw [if_neg hquote, if_neg hquote]
    exact mark_eq passed place x xs

end Agreement

theorem skipGaps_of_skipGap {c d : Cursor} (h : skipGap c = .ok true d) :
    skipGaps c = skipGaps d := by
  rw [skipGaps]
  split <;> next h' => rw [h] at h'; cases h' <;> rfl

theorem skipGaps_of_stay {c d : Cursor} (h : skipGap c = .ok false d) : skipGaps c = .ok () d := by
  rw [skipGaps]
  split <;> next h' => rw [h] at h'; cases h' <;> rfl

theorem skipGaps_of_error {c d : Cursor} {f : ReadFailure} (h : skipGap c = .error f d) :
    skipGaps c = .error f d := by
  rw [skipGaps]
  split <;> next h' => rw [h] at h'; cases h' <;> rfl

theorem nextToken_apply (c : Cursor) :
    nextToken c =
      match skipGaps c with
      | .ok _ d => if d.atEnd then .ok (.endAt d.place) d else token d
      | .error f d => .error f d := by
  change EStateM.bind skipGaps _ _ = _
  unfold EStateM.bind
  split
  · next d h =>
    rw [h]
    change (if d.atEnd then pure (Token.endAt d.place) else token : Read Token) d = _
    dsimp only
    split <;> rfl
  · next h => rw [h]

/-- At the end of the text there is nothing to read. -/
theorem nextToken_nil (passed : List Char) (place : Position) :
    nextToken ⟨passed, [], place⟩ = .ok (.endAt place) ⟨passed, [], place⟩ := by
  rw [nextToken_apply, skipGaps_of_stay (d := ⟨passed, [], place⟩) rfl]
  rfl

/-- Reading a token goes by the piece at the front of the text: on behind a gap, or to the token or
the fault. -/
theorem nextToken_cons (passed : List Char) (place : Position) (x : Char) (xs : List Char) :
    let c : Cursor := ⟨passed, x :: xs, place⟩
    let d := c.behind (Lexer.scan x xs)
    nextToken c =
      match (Lexer.scan x xs).piece with
      | .gap => nextToken d
      | .token kind value => .ok ⟨kind, value, place⟩ d
      | .fault f => .error (.fault ⟨f, place.line⟩) d := by
  intro c d
  rcases skipGap_cons passed x xs place with ⟨hskip, hpiece⟩ | ⟨f, hskip, hpiece⟩ | ⟨hskip, hscan⟩
  · rw [hpiece, nextToken_apply c, skipGaps_of_skipGap hskip, ← nextToken_apply]
  · rw [hpiece, nextToken_apply c, skipGaps_of_error hskip]
  · have htoken : nextToken c = token c := by
      rw [nextToken_apply, skipGaps_of_stay hskip]
      rfl
    have htold := token_eq passed place x xs
    rw [← hscan] at htold
    rw [htoken]
    unfold told at htold
    cases hread : token c with
    | ok t e =>
      rw [hread] at htold
      split at htold
      · cases htold
      · cases htold
        rfl
      · cases htold
    | error f e =>
      rw [hread] at htold
      split at htold
      · cases htold
      · cases htold
      · cases htold
        rfl

/-- Reading a token never moves beyond the end of the text. -/
theorem nextToken_ne_pastEnd (c : Cursor) (message : String) (d : Cursor) :
    nextToken c ≠ .error (.pastEnd message) d := by
  obtain ⟨passed, cs, place⟩ := c
  -- By induction on the length of what lies ahead, which a gap shortens.
  induction hn : cs.length using Nat.strongRecOn generalizing passed cs place with
  | ind n ih =>
    cases cs with
    | nil =>
      rw [nextToken_nil]
      nofun
    | cons x xs =>
      have hrest := Lexer.scan_rest_length x xs
      rw [List.length_cons] at hn
      rw [nextToken_cons]
      split
      · exact ih _ (by omega) _ _ _ rfl
      · nofun
      · nofun

/-! ## Reading to the end -/

/-- Reading from a cursor until the end of the source, or a fault, gives these tokens. -/
inductive Lexes : Cursor → List Token → Option LexError → Prop
  | stop {c d : Cursor} {t : Token} (h : nextToken c = .ok t d) (ht : t.kind = .endOfSource) :
      Lexes c [t] none
  | token {c d : Cursor} {t : Token} {ts : List Token} {e : Option LexError}
      (h : nextToken c = .ok t d) (ht : t.kind ≠ .endOfSource) (hmore : Lexes d ts e) :
      Lexes c (t :: ts) e
  | fault {c d : Cursor} {e : LexError} (h : nextToken c = .error (.fault e) d) :
      Lexes c [] (some e)

/-- Only the next token counts. -/
theorem Lexes.of_eq {c d : Cursor} {ts : List Token} {e : Option LexError} (h : Lexes d ts e)
    (hnext : nextToken c = nextToken d) : Lexes c ts e := by
  cases h with
  | stop h ht => exact .stop (hnext.trans h) ht
  | token h ht hmore => exact .token (hnext.trans h) ht hmore
  | fault h => exact .fault (hnext.trans h)

/-- A text has at most one list of tokens. -/
theorem Lexes.unique {c : Cursor} {ts us : List Token} {e f : Option LexError} (h : Lexes c ts e)
    (h' : Lexes c us f) : ts = us ∧ e = f := by
  induction h generalizing us f with
  | stop h ht =>
    cases h' with
    | stop h' _ =>
      rw [h] at h'
      cases h'
      exact ⟨rfl, rfl⟩
    | token h' ht' _ =>
      rw [h] at h'
      cases h'
      exact absurd ht ht'
    | fault h' =>
      rw [h] at h'
      cases h'
  | token h ht _ ih =>
    cases h' with
    | stop h' ht' =>
      rw [h] at h'
      cases h'
      exact absurd ht' ht
    | token h' _ hmore =>
      rw [h] at h'
      cases h'
      obtain ⟨rfl, rfl⟩ := ih hmore
      exact ⟨rfl, rfl⟩
    | fault h' =>
      rw [h] at h'
      cases h'
  | fault h =>
    cases h' with
    | stop h' _ =>
      rw [h] at h'
      cases h'
    | token h' _ _ =>
      rw [h] at h'
      cases h'
    | fault h' =>
      rw [h] at h'
      cases h'
      exact ⟨rfl, rfl⟩

/-- Reading from a place on gives the tokens that were cut from there. -/
theorem lexes_scanFrom (n : Nat) (passed cs : List Char) (place : Position) (hn : cs.length ≤ n) :
    Lexes ⟨passed, cs, place⟩ (TokenStream.scanFrom n place cs).tokens.1
      (TokenStream.scanFrom n place cs).tokens.2 := by
  induction n generalizing passed cs place with
  | zero =>
    cases List.length_eq_zero_iff.1 (Nat.le_zero.1 hn)
    exact .stop (nextToken_nil passed place) rfl
  | succ n ih =>
    cases cs with
    | nil => exact .stop (nextToken_nil passed place) rfl
    | cons x xs =>
      have hrest := Lexer.scan_rest_length x xs
      rw [List.length_cons] at hn
      have hmore := ih ((Lexer.scan x xs).lexeme.reverse ++ passed) (Lexer.scan x xs).rest
        (place.advance (Lexer.scan x xs).lexeme) (by omega)
      have hnext := nextToken_cons passed place x xs
      have hright := Lexer.scan_right x xs
      unfold TokenStream.scanFrom
      unfold Lexer.Scan.Right at hright
      dsimp only at hnext ⊢
      cases hpiece : (Lexer.scan x xs).piece with
      | gap =>
        rw [hpiece] at hnext
        exact hmore.of_eq hnext
      | token kind value =>
        rw [hpiece] at hnext hright
        dsimp only
        rw [TokenStream.tokens_cons_ok]
        exact .token hnext hright.shape.ne_endOfSource hmore
      | fault f =>
        rw [hpiece] at hnext
        exact .fault hnext

/-- Reading a text to its end, or to its first fault, gives its tokens and nothing else. -/
theorem lexes_iff (text : List Char) (ts : List Token) (e : Option LexError) :
    Lexes (.ofList text) ts e ↔ (TokenStream.ofChars text).tokens = (ts, e) := by
  have read : Lexes (.ofList text) (TokenStream.ofChars text).tokens.1
      (TokenStream.ofChars text).tokens.2 :=
    lexes_scanFrom text.length [] text .start (Nat.le_refl _)
  constructor
  · intro h
    obtain ⟨rfl, rfl⟩ := h.unique read
    rfl
  · intro h
    rw [h] at read
    exact read

end Read

end CellScript
