import CellScript.Proofs.Token.Partition

/-!
# Braces by character and by token

How many more braces a text opens than it closes up to one of its lines can be counted over its
characters or over its tokens. The two differ by the braces that are no tokens: those in comments
and inside strings, which are characters only (`Part.bracesUpTo_eq`). A brace that is a token has a
mark of its own, and no other token but a string contains one (`TokenKind.Shape.bracesUpTo`).
-/

namespace CellScript

/-! ## Braces as characters -/

/-- What a character adds to the balance of braces. -/
def braceWeight (c : Char) : Int := if c = '\x7b' then 1 else if c = '\x7d' then -1 else 0

/-- How many more braces a text opens than it closes up to its line `k`, if it begins on a line. -/
def bracesUpTo (k : Nat) : (line : Nat) → List Char → Int
  | _, [] => 0
  | line, c :: cs =>
    (if line ≤ k then braceWeight c else 0) + bracesUpTo k (if c = '\n' then line + 1 else line) cs

theorem bracesUpTo_append (k line : Nat) (cs ds : List Char) :
    bracesUpTo k line (cs ++ ds) =
      bracesUpTo k line cs + bracesUpTo k (line + cs.count '\n') ds := by
  induction cs generalizing line with
  | nil => simp [bracesUpTo]
  | cons c cs ih =>
    rw [List.cons_append, bracesUpTo, bracesUpTo, ih, Int.add_assoc]
    by_cases hc : c = '\n'
    · rw [if_pos hc, hc, List.count_cons_self, Nat.add_assoc, Nat.add_comm 1]
    · rw [if_neg hc, List.count_cons_of_ne hc]

theorem bracesUpTo_eq_zero {k line : Nat} {cs : List Char} (h : ∀ c ∈ cs, braceWeight c = 0) :
    bracesUpTo k line cs = 0 := by
  induction cs generalizing line with
  | nil => rfl
  | cons c cs ih =>
    rw [bracesUpTo, h c List.mem_cons_self, ite_self, Int.zero_add]
    exact ih fun d hd => h d (List.mem_cons_of_mem c hd)

/-- On one line the balance is the difference of the two numbers of braces. -/
theorem bracesUpTo_line {k line : Nat} {cs : List Char} (h : '\n' ∉ cs) :
    bracesUpTo k line cs =
      if line ≤ k then (cs.count '\x7b' : Int) - (cs.count '\x7d' : Int) else 0 := by
  induction cs with
  | nil => simp [bracesUpTo]
  | cons c cs ih =>
    rw [List.mem_cons, not_or] at h
    rw [bracesUpTo, if_neg (Ne.symm h.1), ih h.2]
    by_cases hk : line ≤ k
    · simp only [if_pos hk, braceWeight, List.count_cons, beq_iff_eq]
      split
      · next hc => simp [hc]; omega
      · split
        · simp
          omega
        · simp
    · simp only [if_neg hk, Int.add_zero]

theorem braceWeight_of_class {p : Char → Bool} (hopen : p '\x7b' = false)
    (hclose : p '\x7d' = false) {c : Char} (hc : p c = true) : braceWeight c = 0 := by
  unfold braceWeight
  split
  · next h => rw [h, hopen] at hc; cases hc
  · split
    · next h => rw [h, hclose] at hc; cases hc
    · rfl

theorem braceWeight_of_isDigit {c : Char} (hc : isDigit c = true) : braceWeight c = 0 :=
  braceWeight_of_class (by decide) (by decide) hc

/-! ## Braces as tokens -/

/-- What a token of a kind adds to the balance of braces. -/
def TokenKind.braceWeight (kind : TokenKind) : Int :=
  if kind = .mark .leftBrace then 1 else if kind = .mark .rightBrace then -1 else 0

/-- A token other than a string is a brace or contains none. -/
theorem TokenKind.Shape.bracesUpTo {kind : TokenKind} {lexeme : List Char} (h : kind.Shape lexeme)
    (hkind : kind ≠ .string) (k line : Nat) :
    CellScript.bracesUpTo k line lexeme = if line ≤ k then kind.braceWeight else 0 := by
  have free : kind.braceWeight = 0 → (∀ c ∈ lexeme, CellScript.braceWeight c = 0) →
      CellScript.bracesUpTo k line lexeme = if line ≤ k then kind.braceWeight else 0 := by
    intro hweight hfree
    rw [bracesUpTo_eq_zero hfree, hweight, ite_self]
  have spelled (cs : List Char) (h : cs.all (CellScript.braceWeight · == 0) = true) :
      ∀ c ∈ cs, CellScript.braceWeight c = 0 :=
    fun c hmem => beq_iff_eq.mp (List.all_eq_true.mp h c hmem)
  cases h with
  | string => exact absurd rfl hkind
  | name hc hcs _ =>
    refine free rfl (List.forall_mem_cons.mpr ⟨?_, fun c hmem => ?_⟩)
    · exact braceWeight_of_class (by decide) (by decide) hc
    · exact braceWeight_of_class (by decide) (by decide) (hcs c hmem)
  | keyword w => exact free rfl (spelled _ (by cases w <;> decide))
  | decimal _ hds => exact free rfl fun c hmem => braceWeight_of_isDigit (hds c hmem)
  | hex hx _ hds =>
    refine free rfl fun c hmem => ?_
    rcases List.mem_cons.mp hmem with rfl | hmem
    · rfl
    · rcases List.mem_cons.mp hmem with rfl | hmem
      · rcases hx with rfl | rfl <;> rfl
      · exact braceWeight_of_class (by decide) (by decide) (hds c hmem)
  | real _ hds =>
    refine free rfl fun c hmem => ?_
    rcases List.mem_append.mp hmem with hmem | hmem
    · exact braceWeight_of_isDigit (hds c (List.mem_append_left _ hmem))
    · rcases List.mem_cons.mp hmem with rfl | hmem
      · rfl
      · exact braceWeight_of_isDigit (hds c (List.mem_append_right _ hmem))
  | mark m =>
    cases m with
    | leftBrace | rightBrace => exact Int.add_zero _
    | _ => exact free rfl (spelled _ (by decide))
  | invalid _ _ _ _ hmark =>
    refine free rfl (List.forall_mem_singleton.mpr ?_)
    unfold CellScript.braceWeight
    split
    · next hc => rw [hc] at hmark; exact absurd hmark (by decide)
    · split
      · next hc => rw [hc] at hmark; exact absurd hmark (by decide)
      · rfl

/-- How many more braces tokens open than they close, of those that begin on a line up to `k`. -/
def Token.bracesUpTo (k : Nat) (ts : List Token) : Int :=
  (ts.countP fun t => t.kind = .mark .leftBrace ∧ t.line ≤ k : Int) -
    (ts.countP fun t => t.kind = .mark .rightBrace ∧ t.line ≤ k : Int)

theorem Token.bracesUpTo_cons (k : Nat) (t : Token) (ts : List Token) :
    bracesUpTo k (t :: ts) = (if t.line ≤ k then t.kind.braceWeight else 0) + bracesUpTo k ts := by
  unfold bracesUpTo TokenKind.braceWeight
  simp only [List.countP_cons, decide_eq_true_eq]
  by_cases hline : t.line ≤ k
  · by_cases hopen : t.kind = .mark .leftBrace
    · simp [hline, hopen]; omega
    · by_cases hclose : t.kind = .mark .rightBrace
      · simp [hline, hclose]; omega
      · simp [hopen, hclose]
  · simp [hline]

/-! ## Braces in the parts of a text -/

namespace Part

/-- The characters of a part in which braces are no tokens: blanks, comments and strings. -/
def hidden : Part → List Char
  | gap cs => cs
  | lexeme cs t => if t.kind = .string then cs else []

/-- How many more braces that are no tokens the parts of a text open than close up to its line `k`,
if they begin on a line. -/
def hiddenBraces (k : Nat) : (line : Nat) → List Part → Int
  | _, [] => 0
  | line, p :: ps =>
    bracesUpTo k line p.hidden + hiddenBraces k (line + p.chars.count '\n') ps

/-- Up to every line, the braces of a text are those that are tokens and those that are hidden. -/
theorem bracesUpTo_eq (k : Nat) {before rest : List Char} {parts : List Part}
    (h : AllStand before parts rest) :
    bracesUpTo k (1 + before.count '\n') (parts.flatMap chars) =
      Token.bracesUpTo k (parts.filterMap token?) +
        hiddenBraces k (1 + before.count '\n') parts := by
  induction parts generalizing before with
  | nil => rfl
  | cons p ps ih =>
    have more := ih h.2
    rw [List.count_append, ← Nat.add_assoc] at more
    rw [List.flatMap_cons, bracesUpTo_append, more, hiddenBraces]
    cases p with
    | gap cs =>
      change _ = Token.bracesUpTo k (ps.filterMap token?) + (bracesUpTo k _ cs + _)
      rw [Int.add_left_comm]
      rfl
    | lexeme cs t =>
      obtain ⟨-, hwritten, hline, -⟩ := h.1
      have here : bracesUpTo k (1 + before.count '\n') cs =
          (if t.line ≤ k then t.kind.braceWeight else 0) +
            bracesUpTo k (1 + before.count '\n') (lexeme cs t).hidden := by
        by_cases hstring : t.kind = .string
        · rw [hidden, if_pos hstring, hstring]
          exact ((congrArg (· + _) (ite_self 0)).trans (Int.zero_add _)).symm
        · rw [hidden, if_neg hstring, hwritten.shape.bracesUpTo hstring, Token.line, hline]
          exact (Int.add_zero _).symm
      change bracesUpTo k _ cs + _ = Token.bracesUpTo k (t :: ps.filterMap token?) + _
      rw [Token.bracesUpTo_cons, here, chars]
      omega

end Part

end CellScript
