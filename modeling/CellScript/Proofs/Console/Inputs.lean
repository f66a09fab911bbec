import Mathlib
import CellScript.Proofs.Console.Dialogue
import CellScript.Proofs.Token.Braces

/-!
# How many lines an input takes

An input goes on while its lines open more braces than they close. Whether they do is decided on
their characters (`Pending.linesRead`), where the language itself would count tokens
(`Token.linesBalanced`). Line by line the two balances differ by the braces in comments and strings
(`Pending.openBraces_eq`). So an input takes the lines that its tokens ask for exactly as long as
these hidden braces never change on which side of zero the balance is
(`Repl.whole_inputs_read_iff`).

* `Repl.typing`, `Repl.Takes`: what a dialogue does with the lines of an input;
* `Repl.takes_linesRead`: a dialogue takes as many lines as complete what is pending, by induction
  on the lines.
-/

namespace CellScript

/-! ## Lines that complete an input -/

namespace Pending

/-- The input with more lines. -/
def addAll (p : Pending) (lines : List String) : Pending := lines.foldl add p

/-- How many of the lines that follow an input takes, if they complete it. -/
def linesRead (p : Pending) : List String → Option Nat
  | [] => none
  | line :: rest =>
    if (p.add line).isComplete then some 1 else ((p.add line).linesRead rest).map (· + 1)

theorem addAll_nil (p : Pending) : p.addAll [] = p := rfl

theorem addAll_cons (p : Pending) (line : String) (rest : List String) :
    p.addAll (line :: rest) = (p.add line).addAll rest :=
  rfl

theorem openBraces_addAll (p : Pending) (lines : List String) :
    (p.addAll lines).openBraces = p.openBraces + (lines.map braceBalance).sum := by
  induction lines generalizing p with
  | nil => exact (Int.add_zero _).symm
  | cons line rest ih =>
    rw [addAll_cons, ih, List.map_cons, List.sum_cons, ← Int.add_assoc]
    rfl

/-- An input ends with the first line that completes it. -/
theorem linesRead_eq_find? (p : Pending) (lines : List String) :
    p.linesRead lines =
      (List.range' 1 lines.length).find? fun k => (p.addAll (lines.take k)).isComplete := by
  induction lines generalizing p with
  | nil => rfl
  | cons line rest ih =>
    rw [linesRead, List.length_cons, List.range'_succ, List.find?_cons]
    change (if (p.add line).isComplete = true then _ else _) =
      match (p.add line).isComplete with | true => some 1 | false => _
    cases (p.add line).isComplete with
    | true => rfl
    | false =>
      have shift : List.range' (1 + 1) rest.length = (List.range' 1 rest.length).map (· + 1) := by
        rw [← List.map_add_range']
        exact List.map_congr_left fun k _ => Nat.add_comm 1 k
      rw [shift, List.find?_map, ih]
      rfl

end Pending

/-- How many lines of a text its tokens ask for: those up to the first one at which no more braces
are open, if there is one among the first `n`. -/
def Token.linesBalanced (ts : List Token) (n : Nat) : Option Nat :=
  (List.range' 1 n).find? fun k => bracesUpTo k ts ≤ 0

/-- Two searches come to the same line if the tests agree as far as one of them comes. -/
theorem find?_range'_eq_iff (p q : Nat → Bool) (n : Nat) :
    (List.range' 1 n).find? p = (List.range' 1 n).find? q ↔
      ∀ k, 0 < k → k ≤ n → (∀ j, 0 < j → j < k → q j = false) → p k = q k := by
  have some_iff (p : Nat → Bool) (i : Nat) : (List.range' 1 n).find? p = some i ↔
      p i = true ∧ 0 < i ∧ i ≤ n ∧ ∀ j, 0 < j → j < i → p j = false := by
    rw [List.find?_range'_eq_some, List.mem_range'_1]
    simp only [Bool.not_eq_true']
    exact ⟨fun ⟨h, hi, hj⟩ => ⟨h, by omega, by omega, hj⟩, fun ⟨h, hpos, hle, hj⟩ =>
      ⟨h, by omega, hj⟩⟩
  constructor
  · intro heq k hpos hle hbefore
    cases hq : q k with
    | true =>
      have hfound := (some_iff q k).mpr ⟨hq, hpos, hle, hbefore⟩
      exact ((some_iff p k).mp (heq.trans hfound)).1
    | false =>
      rw [Bool.eq_false_iff]
      intro hp
      have hsome : ((List.range' 1 n).find? p).isSome := by
        rw [List.find?_isSome]
        exact ⟨k, List.mem_range'_1.mpr (by omega), hp⟩
      obtain ⟨i, hi⟩ := Option.isSome_iff_exists.mp hsome
      obtain ⟨-, hipos, -, hfirst⟩ := (some_iff p i).mp hi
      have hqi := ((some_iff q i).mp (heq.symm.trans hi)).1
      rcases Nat.lt_trichotomy i k with hlt | rfl | hgt
      · rw [hbefore i hipos hlt] at hqi
        cases hqi
      · rw [hq] at hqi
        cases hqi
      · rw [hfirst k hpos hgt] at hp
        cases hp
  · intro hagree
    cases hq : (List.range' 1 n).find? q with
    | some i =>
      obtain ⟨hqi, hpos, hle, hfirst⟩ := (some_iff q i).mp hq
      refine (some_iff p i).mpr ⟨?_, hpos, hle, fun j hj hlt => ?_⟩
      · rw [hagree i hpos hle hfirst, hqi]
      · rw [hagree j hj (by omega) fun j' hj' hlt' => hfirst j' hj' (by omega)]
        exact hfirst j hj hlt
    | none =>
      rw [List.find?_range'_eq_none] at hq
      simp only [Bool.not_eq_true'] at hq
      rw [List.find?_range'_eq_none]
      intro i hi hlt
      rw [Bool.not_eq_true', hagree i (by omega) (by omega) fun j hj hji => hq j hj (by omega)]
      exact hq i hi hlt

/-! ## Lines of a dialogue -/

namespace Repl

variable {host : Host}

/-- Whether a line asks to leave the dialogue, if it begins an input. -/
def asksToLeave (line : String) : Bool :=
  let word := String.ofList (trim line.toList)
  word == "exit" || word == "quit"

/-- A dialogue in which lines are typed that complete nothing. -/
def typing (r : Repl) (o : Output) : List String → Repl × Output
  | [] => (r, o)
  | line :: rest => typing { r with pending := r.pending.add line } (o.write r.prompt) rest

/-- Of the lines that are typed first, the dialogue takes the first `n` as the end of its input and
then goes on with the others; or it takes all of them, and the input is not complete. -/
def Takes (host : Host) (r : Repl) (o : Output) (lines : List String)
    (rest : List (Option String)) : Option Nat → Prop
  | some n =>
    r.converse host o (lines.map some ++ rest) =
      match { r with pending := .empty }.perform host (r.pending.addAll (lines.take n)).text
          (r.typing o (lines.take n)).2 with
      | (o, .ok r) => r.converse host o ((lines.drop n).map some ++ rest)
      | (o, .error ending) => (o, ending)
  | none =>
    r.converse host o (lines.map some ++ rest) =
      (r.typing o lines).1.converse host (r.typing o lines).2 rest

/-- A dialogue takes the lines that complete its input. -/
theorem takes_linesRead {r : Repl} {lines : List String}
    (hstay : r.pending.lines = [] → ∀ line ∈ lines.head?, asksToLeave line = false) (o : Output)
    (rest : List (Option String)) :
    r.Takes host o lines rest (r.pending.linesRead lines) := by
  induction lines generalizing r o with
  | nil => rfl
  | cons line lines ih =>
    have stays : ((asksToLeave line && r.pending.lines.isEmpty) = true) = False := by
      rw [Bool.and_eq_true, List.isEmpty_iff, eq_iff_iff, iff_false, not_and]
      intro hleave hempty
      rw [hstay hempty line rfl] at hleave
      cases hleave
    have entered : r.enter host line (o.write r.prompt) =
        if (r.pending.add line).isComplete then
          { r with pending := .empty }.perform host (r.pending.add line).text (o.write r.prompt)
        else (o.write r.prompt, .ok { r with pending := r.pending.add line }) :=
      if_neg stays.mp
    rw [Pending.linesRead]
    by_cases hcomplete : (r.pending.add line).isComplete = true
    · rw [if_pos hcomplete] at entered ⊢
      simp only [Takes, List.map_cons, List.cons_append, List.take_succ_cons, List.take_zero,
        List.drop_succ_cons, List.drop_zero, Pending.addAll_cons, Pending.addAll_nil, typing]
      rw [converse_cons]
      cases hrun : Repl.perform host _ _ _ with
      | mk o answer =>
        rw [hrun] at entered
        cases answer <;> simp only [entered]
    · rw [if_neg hcomplete] at entered ⊢
      have more := ih (r := { r with pending := r.pending.add line }) (o := o.write r.prompt)
        fun h => absurd h (List.cons_ne_nil _ _)
      dsimp only at more
      cases hread : (r.pending.add line).linesRead lines with
      | none =>
        rw [hread] at more
        simp only [Takes, Option.map_none, List.map_cons, List.cons_append, typing] at more ⊢
        rw [converse_cons, entered, ← more]
      | some n =>
        rw [hread] at more
        simp only [Takes, Option.map_some, List.map_cons, List.cons_append, List.take_succ_cons,
          List.drop_succ_cons, Pending.addAll_cons, typing] at more ⊢
        rw [converse_cons, entered, ← more]

end Repl

/-! ## Braces of the lines -/

/-- In a text that is made of lines, the first ones have the balance that they have one by one. -/
theorem bracesUpTo_intercalate (k line : Nat) {lines : List String}
    (hlines : ∀ l ∈ lines, '\n' ∉ l.toList) :
    bracesUpTo k line (String.intercalate "\n" lines).toList =
      ((lines.take (k + 1 - line)).map braceBalance).sum := by
  have one (line : Nat) (l : String) (hl : '\n' ∉ l.toList) :
      bracesUpTo k line l.toList = if line ≤ k then braceBalance l else 0 := bracesUpTo_line hl
  induction lines generalizing line with
  | nil => simp [bracesUpTo]
  | cons l rest ih =>
    obtain ⟨hl, hrest⟩ := List.forall_mem_cons.mp hlines
    have hcount : l.toList.count '\n' = 0 := List.count_eq_zero.mpr hl
    have here : bracesUpTo k line (String.intercalate "\n" (l :: rest)).toList =
        (if line ≤ k then braceBalance l else 0) +
          bracesUpTo k (line + 1) (String.intercalate "\n" rest).toList := by
      cases rest with
      | nil =>
        rw [String.intercalate_singleton, one line l hl]
        exact (Int.add_zero _).symm
      | cons l' rest =>
        rw [String.intercalate_cons_cons, String.toList_append, String.toList_append,
          List.append_assoc, bracesUpTo_append, one line l hl, hcount]
        change _ + ((if line ≤ k then 0 else 0) + _) = _
        rw [ite_self, Int.zero_add]
        rfl
    rw [here, ih (line + 1) hrest]
    by_cases hk : line ≤ k
    · rw [if_pos hk, show k + 1 - line = (k + 1 - (line + 1)) + 1 by omega, List.take_succ_cons,
        List.map_cons, List.sum_cons]
    · rw [if_neg hk, show k + 1 - line = 0 by omega, show k + 1 - (line + 1) = 0 by omega]
      simp

/-- What the first lines of an input leave open: the braces that are tokens and those that are
hidden. -/
theorem Pending.openBraces_eq {lines : List String} (hlines : ∀ l ∈ lines, '\n' ∉ l.toList)
    {parts : List Part} {rest : List Char}
    (hparts : (String.intercalate "\n" lines).toList = parts.flatMap Part.chars)
    (hstand : Part.AllStand [] parts rest) (k : Nat) :
    (Pending.empty.addAll (lines.take k)).openBraces =
      Token.bracesUpTo k (parts.filterMap Part.token?) + Part.hiddenBraces k 1 parts := by
  have balance : bracesUpTo k 1 (parts.flatMap Part.chars) =
      Token.bracesUpTo k (parts.filterMap Part.token?) + Part.hiddenBraces k 1 parts :=
    Part.bracesUpTo_eq k hstand
  rw [← balance, ← hparts, bracesUpTo_intercalate k 1 hlines, Pending.openBraces_addAll]
  exact Int.zero_add _

/-- An input takes as many lines as its tokens ask for exactly if, up to that line, the braces in
comments and strings never change whether more braces are open than closed. Whatever they do, the
dialogue takes the lines up to the first at which the characters are balanced, the tokens and the
hidden braces together, and goes on with the lines behind it. -/
theorem Repl.whole_inputs_read_iff (host : Host) (r : Repl) (o : Output) (lines : List String)
    (rest : List (Option String)) (hpending : r.pending = .empty)
    (hstay : ∀ line ∈ lines.head?, asksToLeave line = false)
    (hlines : ∀ l ∈ lines, '\n' ∉ l.toList) {ts : List Token}
    (hlex : (TokenStream.ofString (String.intercalate "\n" lines)).tokens = (ts, none)) :
    ∃ parts stop,
      (String.intercalate "\n" lines).toList = parts.flatMap Part.chars ∧
      Part.AllStand [] parts [] ∧ ts = parts.filterMap Part.token? ++ [.endAt stop] ∧
      (∀ k, (Pending.empty.addAll (lines.take k)).openBraces =
        Token.bracesUpTo k ts + Part.hiddenBraces k 1 parts) ∧
      r.Takes host o lines rest (Pending.empty.linesRead lines) ∧
      (Pending.empty.linesRead lines = Token.linesBalanced ts lines.length ↔
        ∀ k, 0 < k → k ≤ lines.length → (∀ j, 0 < j → j < k → 0 < Token.bracesUpTo j ts) →
          (Token.bracesUpTo k ts + Part.hiddenBraces k 1 parts ≤ 0 ↔ Token.bracesUpTo k ts ≤ 0)) := by
  obtain ⟨parts, left, hparts, hstand, hends, -⟩ :=
    TokenStream.tokens_partition (String.intercalate "\n" lines).toList
  change (TokenStream.ofChars (String.intercalate "\n" lines).toList).tokens = _ at hlex
  rw [hlex] at hends
  obtain ⟨rfl, rfl⟩ := hends
  rw [List.append_nil] at hparts
  have atEnd (k : Nat) (p : Position) (ts : List Token) :
      Token.bracesUpTo k (ts ++ [.endAt p]) = Token.bracesUpTo k ts := by
    simp [Token.bracesUpTo, Token.endAt]
  have balance (k : Nat) := Pending.openBraces_eq hlines hparts hstand k
  refine ⟨parts, _, hparts, hstand, rfl, fun k => ?_, ?_, ?_⟩
  · rw [balance k, atEnd]
  · rw [← hpending]
    exact takes_linesRead (fun _ => hstay) o rest
  · rw [Pending.linesRead_eq_find?, Token.linesBalanced, find?_range'_eq_iff]
    simp only [Pending.isComplete, balance, atEnd, decide_eq_false_iff_not, Int.not_le,
      decide_eq_decide]

/-- A function with braces in a string, over two lines, and a call of it. -/
theorem Repl.whole_inputs_read_iff_function :
    let host : Host := fun _ => return none
    let r := start false false ⟨.ofFiles "/" [], [], []⟩
    let lines := ["function f() \x7b", "return \"\x7b\x7d\"; \x7d", "f()"]
    let tokens := (TokenStream.ofString (String.intercalate "\n" lines)).tokens
    tokens.2 = none ∧ Token.linesBalanced tokens.1 lines.length = some 2 ∧
      r.Takes host .empty lines [] (some 2) := by
  intro host r lines tokens
  have lexes : tokens.2 = none := by decide +kernel
  have balanced : Token.linesBalanced tokens.1 lines.length = some 2 := by decide +kernel
  have stays : ∀ line ∈ lines.head?, asksToLeave line = false := by decide +kernel
  have split : ∀ l ∈ lines, '\n' ∉ l.toList := by decide +kernel
  obtain ⟨parts, stop, -, -, -, hopen, takes, hiff⟩ :=
    whole_inputs_read_iff host r .empty lines [] rfl stays split (Prod.ext rfl lexes)
  have whole : Pending.empty.linesRead lines = Token.linesBalanced tokens.1 lines.length := by
    refine hiff.mpr fun k _ hk _ => ?_
    rw [← hopen k]
    have each : ∀ k ≤ 3, (Pending.empty.addAll (lines.take k)).openBraces ≤ 0 ↔
        Token.bracesUpTo k tokens.1 ≤ 0 := by
      decide +kernel
    exact each k hk
  rw [whole, balanced] at takes
  exact ⟨lexes, balanced, takes⟩

/-- A brace in a string keeps an input open that is whole by its tokens: the dialogue goes on to ask
for lines and never runs it. -/
theorem Repl.hidden_brace_keeps_input_open :
    let lines := ["x = \"\x7b\";", "return 1;"]
    let tokens := (TokenStream.ofString (String.intercalate "\n" lines)).tokens
    tokens.2 = none ∧ Token.linesBalanced tokens.1 lines.length = some 1 ∧
      Pending.empty.linesRead lines = none ∧
      run (fun _ => return none) false false ⟨.ofFiles "/" [], [], []⟩ (lines.map some) =
        (⟨"Velox REPL. Type 'exit' or 'quit' to leave.\nvelox> ...    ...    \nExiting Velox REPL.\n",
          ""⟩, .exit 0) := by
  decide +kernel

end CellScript
