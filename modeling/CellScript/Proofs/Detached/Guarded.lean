import CellScript.Proofs.Detached.Runs

/-!
# Stored cells are detached at all times

What a script stores is its own: no two global names or members have one cell, and no two stored
cells share a color, a vector or a list. `Detached.Runs` says that this is so where a step ends.
Here it is also said of what happens in between.

* `State.Detached`: stored cells share nothing;
* `Interp.guarded I`: the interpreter that gives up as soon as an expression, a statement, a call or
  a text begins or ends, anywhere in a run, in a state without the property `I`;
* `alike_guarded`: begun in tidy states, the interpreter guarded by `State.Detached` does the same
  as the interpreter of the language.
-/

namespace CellScript

namespace State

/-- The cell of a global name, of a member or of an element of a list. -/
def Stored (s : State) (c : Cell) : Prop := (∃ p, s.place? p = some c) ∨ s.store.IsElement c

/-- No two places have one cell or the cell of an element, no two stored cells refer to the same
color, vector or list, and none stands for a component. -/
structure Detached (s : State) : Prop where
  places : ∀ p q c, s.place? p = some c → s.place? q = some c → p = q
  elements : ∀ p c, s.place? p = some c → ¬ s.store.IsElement c
  backing : ∀ c d b, s.Stored c → s.Stored d → (s.store.get c).backing? = some b →
    (s.store.get d).backing? = some b → c = d
  plain : ∀ c, s.Stored c → (s.store.get c).isComponent = false

theorem Tidy.detached {X : String → Bool} {P : Cell → Prop} {s : State} (h : s.Tidy X P) :
    s.Detached := by
  have tracked (c : Cell) (hc : s.Stored c) : s.Tracked X P c := hc.imp_left Or.inl
  exact ⟨h.places, fun p c hp => h.elements c (Or.inl ⟨p, hp⟩),
    fun c d b hc hd => h.separate.apart c d b (tracked c hc) (tracked d hd),
    fun c hc => h.separate.plain c (tracked c hc)⟩

end State

namespace Exec

variable {α β : Type}

/-! ## Guarded steps -/

open Classical in
/-- Give up unless the step begins and ends in states with the property. -/
noncomputable def guarded (I : State → Prop) (x : Exec α) : Exec α := fun s =>
  if I s ∧ I (finalState (x s)) then x s else .error .emptyStack s

theorem guarded_eq {I : State → Prop} {x : Exec α} {s : State} (hs : I s)
    (hx : x.Ends s (fun _ t => I t) fun _ t => I t) : guarded I x s = x s := by
  unfold guarded
  rw [if_pos ⟨hs, hx.final⟩]

/-! ## Steps that do the same in tidy states -/

/-- Begun in a sound and tidy state, the two steps do the same. -/
def Same (x y : Exec α) : Prop := ∀ (s : State) X P, s.Sound → s.Tidy X P → x s = y s

/-- The second step restores and keeps tidy states tidy, and the first one does the same. -/
def Alike (l : Flags) (Q : α → Prop) (x y : Exec α) : Prop := Tidied l Q y ∧ Same x y

theorem Orderly.bind_congr {X : String → Bool} {P : Cell → Prop} {z : Exec α} {s : State}
    {Q : α → State → Prop} {f g : α → Exec β} (h : Orderly X P z s Q)
    (hf : ∀ a t, Q a t → f a t = g a t) : (z >>= f) s = (z >>= g) s :=
  Ends.bind_congr (Ends.mono h (fun a t ht => hf a t ht.1) fun _ _ ht => ht)

namespace Alike

variable {l m : Flags} {Q R : α → Prop}

theorem self {x : Exec α} (h : Tidied l Q x) : Alike l Q x x := ⟨h, fun _ _ _ _ _ => rfl⟩

theorem mono {x y : Exec α} (hl : l.Below m) (hQ : ∀ a, Q a → R a) (h : Alike l Q x y) :
    Alike m R x y :=
  ⟨h.1.mono hl hQ, h.2⟩

theorem bind {S : β → Prop} {x y : Exec α} {f g : α → Exec β} (hx : Alike l Q x y)
    (hf : ∀ a, Q a → Alike l S (f a) (g a)) : Alike l S (x >>= f) (y >>= g) := by
  refine ⟨hx.1.bind fun a ha => (hf a ha).1, fun s X P hs h => ?_⟩
  rw [bind_congr_left (hx.2 s X P hs h)]
  refine Orderly.bind_congr ((hx.1.2 s hs X P h).restoring hx.1.1 hs) ?_
  rintro a t ⟨ht, ha, hsound, -⟩
  exact (hf a ha).2 t X P hsound ht

/-! ### Steps around steps -/

theorem evaluateList {f g : Expr → Exec Cell} (es : List Expr)
    (h : ∀ e, Alike .none (fun _ => True) (f e) (g e)) :
    Alike .none (fun _ => True) (evaluateList f es) (evaluateList g es) := by
  refine ⟨tidy.evaluateList (g := g) es fun e => (h e).1, ?_⟩
  have elements : ∀ s X P, s.Sound → s.Tidy X P →
      evaluateElements f es s = evaluateElements g es s := by
    induction es with
    | nil => exact fun _ _ _ _ _ => rfl
    | cons e es ih =>
      intro s X P hs ht
      unfold evaluateElements
      rw [bind_congr_left ((h e).2 s X P hs ht)]
      refine Orderly.bind_congr (((h e).1.2 s hs X P ht).restoring (h e).1.1 hs) ?_
      rintro c t ⟨ht, -, hsound, -⟩
      refine Orderly.bind_congr ((copyCell_orderly ht c).restoring (l := .none)
        (Restores.copyCell c) hsound) ?_
      rintro d u ⟨hu, -, hsound, -⟩
      exact bind_congr_left (ih u X P hsound hu.tidy) _
  intro s X P hs ht
  exact bind_congr_left (elements s X P hs ht) _

theorem takeResult {x y : Exec Unit} (h : Alike .ofReturn (fun _ => True) x y) :
    Alike .none (fun _ => True) (takeResult x) (takeResult y) := by
  refine ⟨tidy.takeResult (y := y) h.1, fun s X P hs ht => ?_⟩
  refine Orderly.bind_congr ((newCell_orderly ht .undefined).restoring (l := .none)
    (Restores.newCell (v := .undefined) trivial) hs) ?_
  rintro c t ⟨ht, -, hsound, -⟩
  exact bind_congr_left (h.2 { t with returns := c :: t.returns } X P
    ⟨hsound.cells, hsound.types, hsound.globals⟩ (ht.calm rfl rfl rfl)) _

theorem inCall {x y : Exec Cell} (parameters : List String) (owner : Option ObjectRef)
    (args : List Cell) (line : Option Nat) (h : Alike .none (fun _ => True) x y) :
    Alike .none (fun _ => True) (inCall parameters owner args line x)
      (inCall parameters owner args line y) := by
  refine ⟨tidy.inCall (y := y) parameters owner args line h.1, fun s X P hs ht => ?_⟩
  refine Orderly.bind_congr ((ownerScope_orderly ht owner).restoring (l := .none)
    (Restores.ownerScope owner) hs) ?_
  rintro members s ⟨ht, -, hs, -⟩
  refine Orderly.bind_congr ((argumentScope_orderly ht parameters args line).restoring
    (l := .none) (Restores.argumentScope parameters args line) hs) ?_
  rintro scope s ⟨ht, -, hs, -⟩
  have inner := h.2 _ _ _ (sound_pushCall hs scope members) (enter_call ht scope members)
  have entered : Orderly X P (enterCall line) s fun _ t =>
      t = { s with callDepth := s.callDepth + 1 } :=
    Ends.enterCall (fun _ => ⟨rfl, .refl _⟩) fun _ => ⟨ht, .refl _⟩
  refine entered.bind_congr ?_
  rintro _ t rfl
  have body := ensuring_congr (mapFailure_congr inner (overrun line)) (leaveCall s.locals.length)
  exact body

theorem inBlock {x y : Exec Unit} (h : Alike l (fun _ => True) x y) :
    Alike l (fun _ => True) (inBlock x) (inBlock y) := by
  refine ⟨tidy.inBlock (y := y) h.1, fun s X P hs ht => ?_⟩
  have sound : (s.pushBlockScope .empty).Sound := ⟨hs.cells, hs.types, hs.globals⟩
  exact ensuring_congr (h.2 _ _ _ sound (enter_block ht)) popLocalScope

theorem fillObject {x y : Exec Unit} (obj : Cell) (r : ObjectRef)
    (h : Alike .ofReturn (fun _ => True) x y) :
    Alike .ofReturn (fun _ => True) (fillObject obj r x) (fillObject obj r y) := by
  refine ⟨tidy.fillObject (y := y) obj r h.1, fun s X P hs ht => ?_⟩
  refine Orderly.bind_congr ((memberScope_orderly ht r).restoring (l := .none)
    (Restores.memberScope r) hs) ?_
  rintro members t ⟨⟨ht, -⟩, -, hs, -⟩
  have sound : State.Sound { t.pushFunctionScope members with instants := obj :: t.instants } :=
    ⟨hs.cells, hs.types, hs.globals⟩
  have inner := h.2 _ _ _ sound (enter_realization ht obj members)
  have realized : inRealization obj members x t = inRealization obj members y t :=
    ensuring_congr (bind_congr_left inner fun _ => innermostNames) _
  exact bind_congr_left realized _

theorem clear (f : Flags) : Alike l (fun _ => True) (clear f) (clear f) := self (Tidied.clear f)

theorem loopParts : LoopParts (Alike (.within true) fun _ => True)
    (Alike .ofReturn fun _ => True) where
  pure _ := self (Tidied.pure trivial)
  bind hx hf := hx.bind fun a _ => hf a
  outOfFuel := self (Tidied.throw (by simp))
  clear := clear
  loopExit := self Tidied.loopParts.loopExit
  whole h := ⟨Tidied.wholeLoop h.1, ((clear _).bind fun _ _ => h.bind fun _ _ => clear _).2⟩

theorem loopBefore {c d : Exec Bool} {x y u v : Exec Unit} (limit : Nat)
    (hc : Alike .none (fun _ => True) c d) (hb : Alike (.within true) (fun _ => True) x y)
    (hn : Alike .ofReturn (fun _ => True) u v) :
    Alike .ofReturn (fun _ => True) (loopBefore limit c x u) (loopBefore limit d y v) :=
  loopParts.loopBefore limit (hc.mono (Flags.none_below _) fun _ h => h) hb
    (hn.mono (Flags.ofReturn_below_within _) fun _ h => h)

theorem loopAfter {c d : Exec Bool} {x y : Exec Unit} (limit : Nat)
    (hc : Alike .none (fun _ => True) c d) (hb : Alike (.within true) (fun _ => True) x y) :
    Alike .ofReturn (fun _ => True) (loopAfter limit c x) (loopAfter limit d y) :=
  loopParts.loopAfter limit (hc.mono (Flags.none_below _) fun _ h => h) hb

theorem runAll {f g : Stmt → Exec Unit} {ss : List Stmt}
    (h : ∀ st ∈ ss, Alike l (fun _ => True) (f st) (g st)) :
    Alike l (fun _ => True) (runAll f ss) (runAll g ss) := by
  induction ss with
  | nil => exact self (Tidied.pure trivial)
  | cons st ss ih =>
    refine (h st List.mem_cons_self).bind fun _ _ => ?_
    have rest := ih fun st hst => h st (List.mem_cons_of_mem _ hst)
    refine bind (Q := fun _ => True)
      (self (Tidied.read (f := id) (Restores.read fun _ _ => trivial))) fun s _ => ?_
    split
    · exact self (Tidied.pure trivial)
    · exact rest

/-- Watching a step does not change it. -/
theorem guarded {x y : Exec α} (h : Alike l Q x y) :
    Alike l Q (guarded State.Detached x) y := by
  refine ⟨h.1, fun s X P hs ht => ?_⟩
  have same : x s = y s := h.2 s X P hs ht
  rw [guarded_eq ht.detached, same]
  unfold Ends
  rw [same]
  exact Ends.mono (h.1.2 s hs X P ht) (fun _ _ h => h.1.detached) fun _ _ h => h.1.detached

end Alike

end Exec

open Exec (Restores Tidied Alike)

/-- Doing the same in tidy states, and keeping them tidy, is a congruence. -/
def alike : Congruence where
  Rel l _ Q x y := Alike l Q x y
  pure h := .self (Tidied.pure h)
  bind := Alike.bind
  mono := Alike.mono
  throw f hf := .self (tidy.throw f hf)
  located line h := ⟨h.1.located line, fun s X P hs ht => Exec.mapFailure_congr (h.2 s X P hs ht) _⟩
  storage := .self tidy.storage
  frames := .self tidy.frames
  value c := .self (tidy.value c)
  find? name := .self (tidy.find? name)
  findType? name := .self (tidy.findType? name)
  newCell v hv := .self (tidy.newCell v hv)
  allocate f hf := .self (tidy.allocate f hf)
  store c v line hv := .self (tidy.store c v line hv)
  copyCell c := .self (tidy.copyCell c)
  append r c := .self (tidy.append r c)
  evaluateList := Alike.evaluateList
  makeObject t ht := .self (tidy.makeObject t ht)
  newMember owner name line := .self (tidy.newMember owner name line)
  newName name line := .self (tidy.newName name line)
  declareFunction f hf := .self (tidy.declareFunction f hf)
  addType name t line ht := .self (tidy.addType name t line ht)
  declareGlobal name := .self (tidy.declareGlobal name)
  addAnonymous c := .self (tidy.addAnonymous c)
  print t := .self (tidy.print t)
  log level logger t := .self (tidy.log level logger t)
  randomBetween a b := .self (tidy.randomBetween a b)
  raise f := .self (tidy.raise f)
  setReturn c line := .self (tidy.setReturn c line)
  takeResult := Alike.takeResult
  inCall := Alike.inCall
  inBlock := Alike.inBlock
  loopBefore := Alike.loopBefore
  loopAfter := Alike.loopAfter
  fillObject := Alike.fillObject

/-! ## The guarded interpreter -/

/-- The interpreter with the given fuel that gives up where an expression, a statement, a call or a
text begins or ends in a state without the property. -/
noncomputable def Interp.guarded (I : State → Prop) (host : Host) : (fuel : Nat) → Interp
  | 0 => Interp.tied Exec.runAll host 0
  | n + 1 =>
    let self := guarded I host n
    let execute st := Exec.guarded I (Exec.executeWith n self st)
    { evaluate := fun e => Exec.guarded I (Exec.evaluateWith self e)
      execute
      run := Exec.runAll execute
      invoke := fun f owner args line => Exec.guarded I (Exec.invokeWith host self f owner args line)
      text := fun frames c line => Exec.guarded I (Exec.textWith n self frames c line) }

/-- Begun in tidy states, nothing begins or ends where stored cells share something. -/
theorem alike_guarded (host : Host) (n : Nat) :
    alike.Agree (Interp.guarded State.Detached host n) (Interp.withFuel host n) := by
  rw [Interp.withFuel_eq_tied]
  induction n with
  | zero =>
    refine alike.agree_tied (fun hf hss => ?_) host 0
    exact Alike.runAll fun st hst => hf (Stmt.closedAll_iff.1 hss st hst)
  | succ n ih =>
    exact {
      evaluate := fun e => (ih.evaluateWith e).guarded
      execute := fun hst => (ih.executeWith n hst).guarded
      run := fun hss => Alike.runAll fun st hst =>
        (ih.executeWith n (Stmt.closedAll_iff.1 hss st hst)).guarded
      invoke := fun owner args line hf => (ih.invokeWith host owner args line hf).guarded
      text := fun frames c line => (ih.textWith n frames c line).guarded }

end CellScript
