import Mathlib
import CellScript.Proofs.Balance
import CellScript.Proofs.Blind
import CellScript.Proofs.Parse.Formed
import CellScript.Proofs.Return.Traced

/-!
# What `return` leaves

A `return` stores its result, raises a flag and lets everything around it end. Only the call of
`realize` at the end of a realization can take the flag back while the activation goes on: the
function that is called takes back the `return` of its own body, and with it the one that was raised
before. The statements that follow are then executed, and one of them may store another result.

* `Record`: what is known of an activation from its events, and which event may come next: no
  statement is begun after a `return` until the flag has been taken back;
* `Traced.Follows`: the events of a step are events that may come, and the record fits the state;
* `Traced.follows_statement`, `Activation.follows`: so are those of statements and activations.

The main theorem says when a `return` leaves its activation: exactly if no statement is begun after
`realize` has taken the flag back.
-/

namespace CellScript

/-! ## Records -/

/-- Whether the event is that a statement is begun. -/
def Event.isBegan : Event → Bool
  | .began _ => true
  | _ => false

/-- Where an activation stands: no statement has been begun, at all or since `return` was taken
back; a statement has been begun; or a `return` has been executed. -/
inductive Phase
  | idle
  | begun
  | left
  deriving DecidableEq

/-- What the events of an activation tell. -/
structure Record where
  phase : Phase
  /-- What the last `return` stored. -/
  item : Option Cell

namespace Record

/-- The record of an activation that begins. -/
def initial : Record := ⟨.idle, none⟩

/-- The record after an event that may come. -/
def step (r : Record) : Event → Option Record
  | .began _ => if r.phase = .left then none else some { r with phase := .begun }
  | .returned c => if r.phase = .begun then some ⟨.left, some c⟩ else none
  | .takenBack => some { r with phase := .idle }

/-- The record after events that may come. -/
def after (r : Record) (es : List Event) : Option Record := es.foldlM step r

theorem after_cons (r : Record) (e : Event) (es : List Event) :
    r.after (e :: es) = r.step e >>= fun q => q.after es := rfl

theorem after_append {r q p : Record} {es fs : List Event} (h : r.after es = some q)
    (h' : q.after fs = some p) : r.after (es ++ fs) = some p := by
  unfold after at h ⊢
  rw [List.foldlM_append, h]
  exact h'

/-- Nothing but taking the flag back comes after a `return`. -/
theorem after_left {r q : Record} {es : List Event} (hr : r.phase = .left)
    (h : r.after es = some q) : es = [] ∨ ∃ rest, es = .takenBack :: rest := by
  cases es with
  | nil => exact Or.inl rfl
  | cons e rest =>
    rw [after_cons] at h
    cases e with
    | began st => simp [step, hr] at h
    | returned c => simp [step, hr] at h
    | takenBack => exact Or.inr ⟨rest, rfl⟩

/-- As long as no statement is begun, nothing is stored. -/
theorem item_of_no_began {r q : Record} {es : List Event} (hr : r.phase ≠ .begun)
    (h : r.after es = some q) (hes : ∀ st, .began st ∉ es) : q.item = r.item := by
  induction es generalizing r with
  | nil =>
    cases h
    rfl
  | cons e rest ih =>
    rw [after_cons] at h
    have hrest : ∀ st, .began st ∉ rest := fun st hst => hes st (List.mem_cons_of_mem _ hst)
    cases e with
    | began st => exact absurd List.mem_cons_self (hes st)
    | returned c => simp [step, hr] at h
    | takenBack =>
      exact ih (r := { r with phase := .idle }) (by simp) (by simpa [step] using h) hrest

/-- The record right after a `return`. -/
theorem after_returned {r q : Record} {before later : List Event} {c : Cell}
    (h : r.after (before ++ .returned c :: later) = some q) :
    (⟨.left, some c⟩ : Record).after later = some q := by
  unfold after at h
  rw [List.foldlM_append] at h
  cases hb : before.foldlM step r with
  | none => simp [hb] at h
  | some p =>
    rw [hb] at h
    change p.after (.returned c :: later) = some q at h
    rw [after_cons] at h
    unfold step at h
    dsimp only at h
    split at h
    · exact h
    · cases h

end Record

/-! ## Steps that follow their events -/

namespace Traced

variable {α β : Type}

/-- Begun in a record and a state with `I`, the step has events that may come, and the record and
the state in which it completes have `J`. -/
def Follows (I : Record → State → Prop) (J : α → Record → State → Prop) (x : Traced α) : Prop :=
  ∀ r s, I r s → ∃ q, r.after (x.events s) = some q ∧
    x.run.Ends s (fun a t => J a q t) fun _ _ => True

/-- What the last `return` stored is in the top slot. -/
def Kept (r : Record) (s : State) : Prop := ∀ c, r.item = some c → s.returns.head? = some c

/-- The activation goes on. -/
structure Live (r : Record) (s : State) : Prop where
  sound : s.Sound
  phase : r.phase ≠ .left
  kept : Kept r s

/-- The activation goes on, or a `return` has been executed and its flag is up. -/
structure Linked (r : Record) (s : State) : Prop where
  sound : s.Sound
  flag : r.phase = .left → s.flags.returning = true
  kept : Kept r s

theorem Live.linked {r : Record} {s : State} (h : Live r s) : Linked r s :=
  ⟨h.sound, fun hr => absurd hr h.phase, h.kept⟩

/-- Where the flag is down, the activation goes on. -/
theorem Linked.live {r : Record} {s : State} (h : Linked r s) (hs : s.flags.returning = false) :
    Live r s :=
  ⟨h.sound, fun hr => by simp [h.flag hr] at hs, h.kept⟩

namespace Follows

variable {I : Record → State → Prop} {J : α → Record → State → Prop} {K : β → Record → State → Prop}

theorem silent {x : Exec α} (h : ∀ r s, I r s → x.Ends s (fun a t => J a r t) fun _ _ => True) :
    Follows I J (silent x) :=
  fun r s hs => ⟨r, rfl, h r s hs⟩

theorem pure {a : α} (h : ∀ r s, I r s → J a r s) : Follows I J (pure a) :=
  silent (x := Pure.pure a) h

theorem emit {e : Event} {J : Unit → Record → State → Prop}
    (h : ∀ r s, I r s → ∃ q, r.step e = some q ∧ J () q s) : Follows I J (emit e) := by
  intro r s hs
  obtain ⟨q, hq, hJ⟩ := h r s hs
  refine ⟨q, ?_, hJ⟩
  change r.after [e] = some q
  rw [Record.after_cons, hq]
  rfl

theorem bind {x : Traced α} {f : α → Traced β} (hx : Follows I J x)
    (hf : ∀ a, Follows (J a) K (f a)) : Follows I K (x >>= f) := by
  intro r s hs
  obtain ⟨q, hq, ends⟩ := hx r s hs
  cases hr : x.run s with
  | ok a t =>
    obtain ⟨p, hp, ends'⟩ := hf a q t (ends.ok hr)
    refine ⟨p, ?_, (Exec.ends_bind_ok hr).2 ends'⟩
    rw [events_bind_ok hr]
    exact Record.after_append hq hp
  | error e t =>
    refine ⟨q, ?_, (Exec.ends_bind_error hr).2 trivial⟩
    rwa [events_bind_error hr]

theorem mono {I' : Record → State → Prop} {J' : α → Record → State → Prop} {x : Traced α}
    (hI : ∀ r s, I' r s → I r s) (hJ : ∀ a r s, J a r s → J' a r s) (h : Follows I J x) :
    Follows I' J' x := by
  intro r s hs
  obtain ⟨q, hq, ends⟩ := h r s (hI r s hs)
  exact ⟨q, hq, ends.mono (fun a t => hJ a q t) fun _ _ => id⟩

theorem ensuring {L : α → Record → State → Prop} {x : Traced α} {finish : Exec Unit}
    (hx : Follows I J x)
    (hf : ∀ a r s, J a r s → finish.Ends s (fun _ t => L a r t) fun _ _ => True) :
    Follows I L (ensuring x finish) := by
  intro r s hs
  obtain ⟨q, hq, ends⟩ := hx r s hs
  refine ⟨q, hq, ?_⟩
  refine Exec.Ends.ensuring (ends.mono (fun a t ha => hf a q t ha) fun f t _ => ?_)
  unfold Exec.Ends
  split <;> trivial

theorem mapFailure {x : Traced α} (g : Failure → Failure) (hx : Follows I J x) :
    Follows I J (mapFailure g x) := by
  intro r s hs
  obtain ⟨q, hq, ends⟩ := hx r s hs
  exact ⟨q, hq, Exec.Ends.mapFailure (ends.mono (fun _ _ h => h) fun _ _ _ => trivial)⟩

end Follows

/-! ### Steps without events -/

open Exec (Restores Blind)

theorem Kept.of_returns {r : Record} {s t : State} (h : Kept r s) (ht : t.returns = s.returns) :
    Kept r t := fun c hc => ht ▸ h c hc

/-- A step that raises no `return` lets the activation go on. -/
theorem follows_live {x : Exec α} {Q : α → Prop} (hx : Restores .none Q x) :
    Follows Live (fun a r s => Q a ∧ Live r s) (silent x) := by
  refine .silent fun r s hs => (hx s hs.sound).mono ?_ fun _ _ _ => trivial
  rintro a t ⟨ha, ht, -, hc⟩
  exact ⟨ha, ht, hs.phase, hs.kept.of_returns (hc.returns rfl)⟩

theorem follows_step {x : Exec α} (hx : Restores .none (fun _ => True) x) :
    Follows Live (fun _ => Live) (silent x) :=
  (follows_live hx).mono (fun _ _ => id) fun _ _ _ h => h.2

/-- A step that does not look at the flags can come at any time. -/
theorem follows_blind {x : Exec α} (hb : Blind Overlay.OfFlags x)
    (hx : Restores .none (fun _ => True) x) :
    Follows Linked (fun _ => Linked) (silent x) := by
  refine .silent fun r s hs => Exec.ends_iff.2 ⟨fun a t hr => ?_, fun _ _ _ => trivial⟩
  obtain ⟨-, ht, -, hc⟩ := (hx s hs.sound).ok hr
  refine ⟨ht, fun hl => ?_, hs.kept.of_returns (hc.returns rfl)⟩
  rw [hb.flags_ok hr]
  exact hs.flag hl

/-- Flags other than `return` can be taken back at any time. -/
theorem follows_clear {f : Flags} (hf : f.returning = false) :
    Follows Linked (fun _ => Linked) (silent (Exec.clear f)) := by
  refine .silent fun r s hs => ⟨⟨hs.sound.cells, hs.sound.types, hs.sound.globals⟩, fun hl => ?_,
    hs.kept⟩
  simp [State.clear, Flags.diff, hf, hs.flag hl]

/-- Where no flag asks for the end of a loop, the activation goes on. -/
theorem follows_loopExit : Follows Linked
    (fun stop r s => Linked r s ∧ (stop = false → Live r s))
    (silent (Exec.isRaised .loopExit)) := by
  refine .silent fun r s hs => ⟨hs, fun hstop => hs.live ?_⟩
  simp only [Flags.meets, Flags.loopExit, Bool.and_true, Bool.and_false, Bool.or_false,
    Bool.or_eq_false_iff] at hstop
  exact hstop.1

/-- A call at the end of a realization keeps the flag, or takes it back and says so. -/
theorem follows_watched {x : Exec α} (hx : Restores .none (fun _ => True) x) :
    Follows Linked (fun _ => Linked) (watched x) := by
  intro r s hs
  have ends := hx s hs.sound
  unfold Exec.Ends at ends
  unfold watched Exec.Ends
  dsimp only
  cases hr : x s with
  | error e t => exact ⟨r, rfl, trivial⟩
  | ok a t =>
    rw [hr] at ends
    obtain ⟨-, ht, -, hc⟩ := ends
    have kept := hs.kept.of_returns (hc.returns rfl)
    dsimp only
    split
    · exact ⟨{ r with phase := .idle }, rfl, ht, by simp, kept⟩
    · next hkeeps =>
      refine ⟨r, rfl, ht, fun hl => ?_, kept⟩
      simpa [hs.flag hl] using hkeeps

/-! ### Constructs -/

/-- Turns that keep a property as long as they ask for another one. -/
theorem follows_iterate {I J : Record → State → Prop} {turn : Traced Bool}
    (h : Follows I (fun again r s => if again then I r s else J r s) turn) (n : Nat) :
    Follows I (fun _ => J) (iterate n turn) := by
  induction n with
  | zero => exact .silent fun _ _ _ => trivial
  | succ n ih =>
    refine h.bind fun again => ?_
    cases again with
    | true => exact ih
    | false => exact .pure fun _ _ h => h

theorem follows_runAll {f : Stmt → Traced Unit} {ss : List Stmt}
    (h : ∀ st ∈ ss, Follows Live (fun _ => Linked) (f st)) :
    Follows Live (fun _ => Linked) (runAll f ss) := by
  induction ss with
  | nil => exact .pure fun _ _ h => h.linked
  | cons st rest ih =>
    have read : Follows Linked (fun a r s => Linked r s ∧ a.flags = s.flags) (silent get) :=
      .silent fun _ _ h => ⟨h, rfl⟩
    refine (h st List.mem_cons_self).bind fun _ => read.bind fun a => ?_
    split
    · exact .pure fun _ _ h => h.1
    · next hnone =>
      refine (ih fun st hst => h st (List.mem_cons_of_mem _ hst)).mono ?_ fun _ _ _ => id
      rintro r s ⟨hl, hflags⟩
      simp only [Flags.any, Bool.or_eq_true, not_or, hflags] at hnone
      exact hl.live (by simpa using hnone.1.1)

/-- Popping a scope changes neither flags nor slots. -/
theorem popLocalScope_linked {r : Record} {s : State} (h : Linked r s) :
    Exec.popLocalScope.Ends s (fun _ t => Linked r t) fun _ _ => True :=
  .popLocalScope (fun _ _ _ => ⟨⟨h.sound.cells, h.sound.types, h.sound.globals⟩, h.flag, h.kept⟩)
    fun _ => trivial

theorem follows_inBlock {x : Traced Unit} (h : Follows Live (fun _ => Linked) x) :
    Follows Live (fun _ => Linked) (inBlock x) := by
  have pushed : Follows Live (fun _ => Live) (silent (modify (·.pushBlockScope .empty))) :=
    .silent fun _ _ h => ⟨⟨h.sound.cells, h.sound.types, h.sound.globals⟩, h.phase, h.kept⟩
  exact pushed.bind fun _ => h.ensuring fun _ _ _ => popLocalScope_linked

theorem follows_loopBefore {condition : Exec Bool} {body next : Traced Unit} (limit : Nat)
    (hc : Restores .none (fun _ => True) condition) (hb : Follows Live (fun _ => Linked) body)
    (hn : Follows Live (fun _ => Linked) next) :
    Follows Linked (fun _ => Linked) (loopBefore limit condition body next) := by
  refine (follows_clear rfl).bind fun _ => (follows_iterate (J := Linked) ?_ limit).bind fun _ =>
    follows_clear rfl
  refine follows_loopExit.bind fun stop => ?_
  cases stop with
  | true => exact .pure fun _ _ h => h.1
  | false =>
    refine Follows.mono (I := Live) (fun _ _ h => h.2 rfl) (fun _ _ _ => id) ?_
    refine (follows_step hc).bind fun again => ?_
    cases again with
    | false => exact .pure fun _ _ h => h.linked
    | true =>
      refine (follows_step (Restores.clear _)).bind fun _ => hb.bind fun _ =>
        follows_loopExit.bind fun stop => ?_
      cases stop with
      | true => exact .pure fun _ _ h => h.1
      | false =>
        refine Follows.mono (I := Live) (fun _ _ h => h.2 rfl) (fun _ _ _ => id) ?_
        exact hn.bind fun _ => .pure fun _ _ h => h

theorem follows_loopAfter {condition : Exec Bool} {body : Traced Unit} (limit : Nat)
    (hc : Restores .none (fun _ => True) condition) (hb : Follows Live (fun _ => Linked) body) :
    Follows Live (fun _ => Linked) (loopAfter limit condition body) := by
  refine (follows_step (Restores.clear _)).bind fun _ =>
    (follows_iterate (J := Linked) ?_ limit).bind fun _ => follows_clear rfl
  refine (follows_step (Restores.clear _)).bind fun _ => hb.bind fun _ =>
    follows_loopExit.bind fun stop => ?_
  cases stop with
  | true => exact .pure fun _ _ h => h.1
  | false =>
    refine (follows_step hc).mono (fun _ _ h => h.2 rfl) fun again _ _ h => ?_
    cases again with
    | true => exact h
    | false => exact h.linked

theorem follows_fillObject {x : Traced Unit} (obj : Cell) (r : ObjectRef)
    (h : Follows Live (fun _ => Linked) x) :
    Follows Live (fun _ => Linked) (fillObject obj r x) := by
  refine (follows_step (Restores.memberScope r)).bind fun members => ?_
  have pushed : Follows Live (fun _ => Live) (silent (modify (·.pushFunctionScope members))) :=
    .silent fun _ _ h => ⟨⟨h.sound.cells, h.sound.types, h.sound.globals⟩, h.phase, h.kept⟩
  have begun : Follows Live (fun _ => Live) (silent (Exec.pushInstant obj)) :=
    .silent fun _ _ h => ⟨⟨h.sound.cells, h.sound.types, h.sound.globals⟩, h.phase, h.kept⟩
  have names : Follows Linked (fun _ => Linked) (silent Exec.innermostNames) := by
    refine .silent fun r s h => ?_
    unfold Exec.innermostNames
    rw [Exec.ends_get_bind]
    split <;> exact h
  refine pushed.bind fun _ => begun.bind fun _ => ?_
  refine Follows.bind ((h.bind fun _ => names).ensuring (L := fun _ => Linked) ?_) fun bound =>
    (follows_blind (Blind.promote r _) (Restores.promote r _)).bind fun _ =>
      follows_blind (Blind.bindParent r) (Restores.bindParent r)
  intro _ r s h
  have ended : Exec.popInstant.Ends s (fun _ t => Linked r t) fun _ _ => True :=
    .popInstant (fun _ _ _ => ⟨⟨h.sound.cells, h.sound.types, h.sound.globals⟩, h.flag, h.kept⟩)
      fun _ => trivial
  exact ended.bind fun _ _ => popLocalScope_linked

/-! ### Statements -/

section

variable {self : Interp} {f : Stmt → Traced Unit}

theorem follows_realize (h : balance.Agree self self) (typeName : String) {body : List Stmt}
    (line : Nat) (hbody : Stmt.closedAll false body = true)
    (hf : ∀ st ∈ body, Follows Live (fun _ => Linked) (f st)) :
    Follows Live (fun _ => Linked) (realize self f typeName body line) := by
  refine (follows_live (balance.findType? typeName)).bind fun t => ?_
  cases t with
  | none => exact .silent fun _ _ _ => trivial
  | some t =>
    have made : Follows (fun r s => (∀ u ∈ some t, u.Closed) ∧ Live r s) (fun _ => Live)
        (silent (Exec.makeObject t)) := fun r s hs =>
      follows_step (Restores.makeObject (hs.1 t rfl)) r s hs.2
    refine made.bind fun r =>
      (follows_step (Restores.newCell (v := .object r) trivial)).bind fun obj =>
        (follows_step (h.callIfMethod obj typeName line)).bind fun _ => ?_
    refine (follows_fillObject obj r ?_).bind fun _ =>
      (follows_watched (h.callIfMethod obj "realize" line)).bind fun _ =>
        follows_blind (Blind.addAnonymous obj) (Restores.addAnonymous obj)
    exact (follows_step (balance.prepareAll hbody)).bind fun _ => follows_runAll hf

/-- A statement that was begun stores its result, and raises the flag. -/
theorem follows_return (h : balance.Agree self self) (limit : Nat) (value : Option Expr)
    (line : Nat) : Follows (fun r s => Live r s ∧ r.phase = .begun) (fun _ => Linked)
      (executeWith limit self f (.return value line)) := by
  -- The result is found while the activation goes on; then it is in its slot.
  have found {x : Exec Cell} (hx : Restores .none (fun _ => True) x) :
      Follows (fun r s => Live r s ∧ r.phase = .begun) (fun _ r s => s.Sound ∧ r.phase = .begun)
        (silent x) :=
    .silent fun r s hs => (hx s hs.1.sound).mono (fun _ _ ht => ⟨ht.2.1, hs.2⟩) fun _ _ _ => trivial
  have stored (c : Cell) : Follows (fun r s => s.Sound ∧ r.phase = .begun)
      (fun _ r s => s.Sound ∧ r.phase = .begun ∧ s.returns.head? = some c)
      (silent (Exec.setReturn c (some line))) := by
    refine .silent fun r s hs => .setReturn (fun _ _ _ => ?_) fun _ => trivial
    exact ⟨⟨hs.1.cells, hs.1.types, hs.1.globals⟩, hs.2, rfl⟩
  have told (c : Cell) : Follows (fun r s => s.Sound ∧ r.phase = .begun ∧ s.returns.head? = some c)
      (fun _ r s => s.Sound ∧ r = ⟨.left, some c⟩ ∧ s.returns.head? = some c)
      (emit (.returned c)) :=
    .emit fun r s hs => ⟨⟨.left, some c⟩, by simp [Record.step, hs.2.1], hs.1, rfl, hs.2.2⟩
  have raised (c : Cell) : Follows
      (fun r s => s.Sound ∧ r = ⟨.left, some c⟩ ∧ s.returns.head? = some c) (fun _ => Linked)
      (silent (Exec.raise .ofReturn)) := by
    refine .silent fun r s hs => ?_
    obtain ⟨hs, rfl, hc⟩ := hs
    refine ⟨⟨hs.cells, hs.types, hs.globals⟩, fun _ => ?_, fun d hd => ?_⟩
    · simp [State.raise, Flags.union, Flags.ofReturn]
    · cases hd
      exact hc
  have finish (c : Cell) : Follows (fun r s => s.Sound ∧ r.phase = .begun) (fun _ => Linked)
      (do silent (Exec.setReturn c (some line)); emit (.returned c)
          silent (Exec.raise .ofReturn)) :=
    (stored c).bind fun _ => (told c).bind fun _ => raised c
  cases value with
  | none => exact (found (Restores.newCell (v := .undefined) trivial)).bind finish
  | some e => exact (found (h.evaluate e)).bind finish

theorem follows_executeWith (h : balance.Agree self self) (limit : Nat) {inLoop : Bool} {st : Stmt}
    (hst : st.closed inLoop = true)
    (hf : ∀ {b : Bool} {st : Stmt}, st.closed b = true → Follows Live (fun _ => Linked) (f st)) :
    Follows (fun r s => Live r s ∧ r.phase = .begun) (fun _ => Linked)
      (executeWith limit self f st) := by
  have live {x : Traced Unit} (hx : Follows Live (fun _ => Linked) x) :
      Follows (fun r s => Live r s ∧ r.phase = .begun) (fun _ => Linked) x :=
    hx.mono (fun _ _ h => h.1) fun _ _ _ => id
  have all {b : Bool} {body : List Stmt} (hb : Stmt.closedAll b body = true) :
      ∀ st ∈ body, Follows Live (fun _ => Linked) (f st) :=
    fun st hst => hf (Stmt.closedAll_iff.1 hb st hst)
  have nothing : Follows Live (fun _ => Linked) (Pure.pure () : Traced Unit) :=
    .pure fun _ _ h => h.linked
  have loop {c : Exec Bool} {x y : Traced Unit} (hc : Restores .none (fun _ => True) c)
      (hx : Follows Live (fun _ => Linked) x) (hy : Follows Live (fun _ => Linked) y) :
      Follows Live (fun _ => Linked) (loopBefore limit c x y) :=
    (follows_loopBefore limit hc hx hy).mono (fun _ _ h => h.linked) fun _ _ _ => id
  have plain {st : Stmt} (hst : st.isPlain = true) :
      Follows Live (fun _ => Linked) (silent (Exec.executeWith limit self st)) :=
    (follows_step (h.plain limit hst)).mono (fun _ _ => id) fun _ _ _ h => h.linked
  have jump (g : Flags) : Follows Live (fun _ => Linked) (silent (Exec.raise g)) :=
    .silent fun _ _ h => ⟨⟨h.sound.cells, h.sound.types, h.sound.globals⟩,
      fun hl => absurd hl h.phase, h.kept⟩
  cases st with
  | expression _ | assign _ _ _ | update _ _ _ _ | nop _ | global _ _ | function _
  | classDef _ _ _ _ _ => exact live (plain rfl)
  | realize typeName body line =>
    have hb : Stmt.closedAll false body = true := by simpa [Stmt.closed] using hst
    exact live (follows_realize h typeName line hb (all hb))
  | «include» path body line =>
    have hb : Stmt.closedAll false body = true := by simpa [Stmt.closed] using hst
    exact live (follows_runAll (all hb))
  | block body line =>
    have hb : Stmt.closedAll inLoop body = true := by simpa [Stmt.closed] using hst
    exact live (follows_inBlock ((follows_step (balance.prepareAll hb)).bind fun _ =>
      follows_runAll (all hb)))
  | branch condition positive negative line =>
    simp only [Stmt.closed, Bool.and_eq_true] at hst
    refine live ((follows_step (h.holds condition line)).bind fun b => ?_)
    split
    · exact hf hst.1
    · split
      · exact hf (b := inLoop) (by simpa [Stmt.closedOption] using hst.2)
      · exact nothing
  | loop body line =>
    have hb : body.closed true = true := by simpa [Stmt.closed] using hst
    exact live (follows_inBlock (loop (Restores.pure trivial) (hf hb) nothing))
  | whileLoop condition body line =>
    have hb : body.closed true = true := by simpa [Stmt.closed] using hst
    exact live (follows_inBlock (loop (h.holds _ _) (hf hb) nothing))
  | doWhile condition body line =>
    have hb : body.closed true = true := by simpa [Stmt.closed] using hst
    exact live (follows_inBlock (follows_loopAfter limit (h.holds _ _) (hf hb)))
  | forLoop init condition step body line =>
    simp only [Stmt.closed, Bool.and_eq_true] at hst
    obtain ⟨⟨hi, hs⟩, hb⟩ := hst
    exact live (follows_inBlock ((hf hi).bind fun _ =>
      follows_loopBefore limit (h.holds _ _) (hf hb) (hf hs)))
  | «break» line => exact live (jump .ofBreak)
  | «continue» line => exact live (jump .ofContinue)
  | «return» value line => exact follows_return h limit value line

end

/-- The events of a statement may come, and it leaves the flag up if a `return` was executed. -/
theorem follows_statement (host : Host) (n : Nat) {inLoop : Bool} {st : Stmt}
    (hst : st.closed inLoop = true) : Follows Live (fun _ => Linked) (statement host n st) := by
  have began (st : Stmt) : Follows Live (fun _ r s => Live r s ∧ r.phase = .begun)
      (emit (.began st)) :=
    .emit fun r s h => ⟨{ r with phase := .begun }, by simp [Record.step, h.phase],
      ⟨h.sound, by simp, h.kept⟩, rfl⟩
  induction n generalizing inLoop st with
  | zero => exact (began st).bind fun _ => .silent fun _ _ _ => trivial
  | succ n ih =>
    exact (began st).bind fun _ => follows_executeWith (balance_withFuel host n) n hst ih

end Traced

/-! ## Activations -/

namespace Activation

open Traced (Follows Live Linked)

theorem Of.closed {sc : Script} (hsc : Stmt.closedAll false sc.statements = true) {a : Activation}
    (ha : a.Of sc) : Stmt.closedAll false a.statements = true := by
  have each : ∀ st ∈ sc.statements, ∃ b, st.closed b = true :=
    fun st h => ⟨false, Stmt.closedAll_iff.1 hsc st h⟩
  cases ha with
  | script => exact hsc
  | function among =>
    obtain ⟨b, hb⟩ := among.closed each
    simp only [Stmt.closed, FunctionDef.closed_eq] at hb
    exact hb
  | method among hf =>
    obtain ⟨b, hb⟩ := among.closed each
    simp only [Stmt.closed, FunctionDef.closedAll_iff] at hb
    exact hb _ hf

theorem follows_body (host : Host) (n : Nat) {ss : List Stmt}
    (hss : Stmt.closedAll false ss = true) :
    Follows Live (fun _ => Linked) (body host n ss) :=
  (Traced.follows_step (balance.prepareAll hss)).bind fun _ =>
    Traced.follows_runAll fun st hst => Traced.follows_statement host n
      (Stmt.closedAll_iff.1 hss st hst)

/-- A new slot holds nothing that a `return` has stored. -/
theorem follows_slot {x : Exec Unit} (hx : ∀ s, s.Sound → x.Ends s (fun _ t => t.Sound)
    fun _ _ => True) : Follows (fun r s => s.Sound ∧ r = .initial) (fun _ => Live)
      (Traced.silent x) := by
  refine .silent fun r s hs => ?_
  obtain ⟨hs, rfl⟩ := hs
  exact (hx s hs).mono (fun _ t ht => ⟨ht, by simp [Record.initial], fun c hc => by cases hc⟩)
    fun _ _ _ => trivial

theorem pushSlot_sound (s : State) (hs : s.Sound) :
    (do Exec.pushReturn (← Exec.newCell .undefined) : Exec Unit).Ends s (fun _ t => t.Sound)
      fun _ _ => True := by
  have made := Exec.Restores.newCell (l := .none) (v := .undefined) trivial s hs
  refine Exec.Ends.bind (made.mono (fun _ _ h => h.2.1) fun _ _ _ => trivial) fun c t ht => ?_
  exact ⟨ht.cells, ht.types, ht.globals⟩

theorem beginScript_sound (s : State) (hs : s.Sound) :
    Exec.beginScript.Ends s (fun _ t => t.Sound) fun _ _ => True := by
  unfold Exec.beginScript
  rw [Exec.ends_modify_bind]
  have slot := pushSlot_sound s.reset ⟨hs.cells, hs.types, hs.globals⟩
  rw [← bind_assoc]
  refine Exec.Ends.bind slot fun _ t ht => ?_
  rw [Exec.ends_get_bind]
  have traced := Exec.Restores.trace (l := .none) "velox.interpreter"
    s!"executing script ({t.globals.length} global scope(s))" t ht
  exact traced.mono (fun _ _ h => h.2.1) fun _ _ _ => trivial

/-- What is taken out of the slot is what the last `return` stored. -/
theorem popReturn_gives {r : Record} {s : State} (h : Traced.Kept r s) :
    Exec.popReturn.Ends s (fun c _ => ∀ d, r.item = some d → c = d) fun _ _ => True := by
  refine .popReturn (fun c below hr => ?_) fun _ => trivial
  intro d hd
  have hc := h d hd
  rw [hr, List.head?_cons, Option.some.injEq] at hc
  exact hc

theorem follows_withFrames {x : Traced Unit} (h : Follows Live (fun _ => Linked) x) :
    Follows Live (fun _ => Linked) (Traced.withFrames x) := by
  have read : Follows Live (fun _ => Live) (Traced.silent get) := .silent fun _ _ h => h
  have fails {f : Failure} {rest : Unit → Traced Unit} :
      Follows Live (fun _ => Linked) (Traced.silent (throw f : Exec Unit) >>= rest) :=
    (Follows.silent (x := throw f) (J := fun _ _ _ => False) fun _ _ _ => trivial).bind
      fun _ _ _ h => h.elim
  have framed (k previous : Nat) : Follows Live (fun _ => Linked) (do
      Traced.silent (modify fun s => { s with frames := k })
      Traced.ensuring x (modify fun s => { s with frames := previous })) := by
    refine Follows.bind (J := fun _ => Live) (.silent fun _ _ h => ?_) fun _ =>
      h.ensuring fun _ _ _ h => ?_
    · exact ⟨⟨h.sound.cells, h.sound.types, h.sound.globals⟩, h.phase, h.kept⟩
    · exact ⟨⟨h.sound.cells, h.sound.types, h.sound.globals⟩, h.flag, h.kept⟩
  refine read.bind fun a => ?_
  dsimp only
  split
  · exact fails
  · split
    · exact fails
    · exact framed _ _

/-- The events of an activation may come, and its result is what the last `return` stored. -/
theorem follows (host : Host) (n : Nat) {a : Activation}
    (ha : Stmt.closedAll false a.statements = true) :
    Follows (fun r s => s.Sound ∧ r = .initial) (fun c r _ => ∀ d, r.item = some d → c = d)
      (a.traced host n) := by
  cases a with
  | script sc =>
    refine (follows_slot beginScript_sound).bind fun _ =>
      Follows.bind (.mapFailure _ (follows_withFrames (follows_body host n ha))) fun _ => ?_
    refine .silent fun r s hs => ?_
    unfold Exec.endScript
    refine Exec.Ends.bind (popReturn_gives hs.kept) fun c t hc => ?_
    rw [Exec.ends_modify_bind]
    exact Exec.Ends.bind (Q := fun _ _ => True)
      (Exec.ends_iff.2 ⟨fun _ _ _ => trivial, fun _ _ _ => trivial⟩) fun _ _ _ => hc
  | function ss =>
    have cleared : Follows Linked (fun _ => Traced.Kept) (Traced.silent (Exec.clear .ofReturn)) :=
      .silent fun _ _ h => h.kept
    exact (follows_slot pushSlot_sound).bind fun _ => (follows_body host n ha).bind fun _ =>
      cleared.bind fun _ => .silent fun _ _ => popReturn_gives

/-! ## When a `return` leaves its activation -/

/-- Whether a statement is begun after a `return` that was taken back. -/
def resumesIn : List Event → Bool
  | .returned _ :: .takenBack :: later => later.any Event.isBegan || resumesIn later
  | _ :: later => resumesIn later
  | [] => false

theorem resumesIn_iff (es : List Event) : resumesIn es = true ↔
    ∃ before c later st, es = before ++ .returned c :: .takenBack :: later ∧ .began st ∈ later := by
  constructor
  · fun_induction resumesIn es with
    | case1 c later ih =>
      intro h
      rcases Bool.or_eq_true_iff.1 h with h | h
      · obtain ⟨e, he, hb⟩ := List.any_eq_true.1 h
        cases e with
        | began st => exact ⟨[], c, later, st, rfl, he⟩
        | returned _ | takenBack => cases hb
      · obtain ⟨before, d, rest, st, rfl, hst⟩ := ih h
        exact ⟨.returned c :: .takenBack :: before, d, rest, st, rfl, hst⟩
    | case2 e later _ ih =>
      intro h
      obtain ⟨before, d, rest, st, rfl, hst⟩ := ih h
      exact ⟨e :: before, d, rest, st, rfl, hst⟩
    | case3 => simp
  · rintro ⟨before, c, later, st, rfl, hst⟩
    have found : later.any Event.isBegan = true := List.any_eq_true.2 ⟨_, hst, rfl⟩
    induction before using resumesIn.induct with
    | case1 d rest ih =>
      simp only [List.cons_append, resumesIn, ih, Bool.or_true]
    | case2 e rest hne ih =>
      rw [List.cons_append]
      cases e with
      | began st' => exact ih
      | takenBack => exact ih
      | returned d =>
        cases rest with
        | nil => exact ih
        | cons e rest =>
          cases e with
          | takenBack => exact absurd rfl (hne d rest rfl)
          | began _ | returned _ => exact ih
    | case3 => simp only [List.nil_append, resumesIn, found, Bool.true_or]

/-- After a `return` no statement of the activation is begun, and if the activation completes, its
result is what the `return` stored. -/
def LeavesAtReturn (x : Traced Cell) (s : State) : Prop :=
  ∀ before c later, x.events s = before ++ .returned c :: later →
    (∀ st, .began st ∉ later) ∧ ∀ d t, x.run s = .ok d t → d = c

/-- A statement is begun after the call of `realize` at the end of a realization has taken a
`return` back. -/
def ResumesAfterRealize (x : Traced Cell) (s : State) : Prop :=
  ∃ before c later st, x.events s = before ++ .returned c :: .takenBack :: later ∧ .began st ∈ later

instance (x : Traced Cell) (s : State) : Decidable (ResumesAfterRealize x s) :=
  decidable_of_iff _ (resumesIn_iff (x.events s))

theorem ResumesAfterRealize.not_leaves {x : Traced Cell} {s : State} (h : ResumesAfterRealize x s) :
    ¬ LeavesAtReturn x s := by
  obtain ⟨before, c, later, st, hes, hst⟩ := h
  exact fun leaves => (leaves before c _ hes).1 st (List.mem_cons_of_mem _ hst)

/-- A `return` leaves its activation, from any nesting of statements and with the result that it
stored, exactly if the activation does not go on after a `realize` that has taken it back. -/
theorem return_leaves_activation_iff (host : Host) (n : Nat) {script : Script}
    (parsed : script.Parsed) {a : Activation} (ha : a.Of script) {s : State} (hs : s.Sound) :
    (a.traced host n).run = a.exec (Interp.withFuel host n) ∧
      (LeavesAtReturn (a.traced host n) s ↔ ¬ ResumesAfterRealize (a.traced host n) s) := by
  refine ⟨run_traced host n a, fun leaves resumes => resumes.not_leaves leaves, fun stays => ?_⟩
  · obtain ⟨q, hq, ends⟩ := follows host n (ha.closed parsed.closed) .initial s ⟨hs, rfl⟩
    intro before c later hes
    rw [hes] at hq
    have hlater := Record.after_returned hq
    have none : ∀ st, .began st ∉ later := by
      intro st hst
      rcases Record.after_left rfl hlater with rfl | ⟨rest, rfl⟩
      · cases hst
      · refine stays ⟨before, c, rest, st, hes, ?_⟩
        simpa using hst
    refine ⟨none, fun d t hrun => ?_⟩
    have hitem := Record.item_of_no_began (by simp) hlater none
    exact ends.ok hrun c hitem

/-- `T { return 1; } return 2;` for an instant `T` with the given methods. -/
def returnInRealization (methods : List (FunctionDef Stmt)) (id : DefId) : Script :=
  ⟨[.classDef true "T" methods id 1, .realize "T" [.return (some (.integer 1 1)) 1] 1,
    .return (some (.integer 2 1)) 1]⟩

theorem sound_restart (n : Int) : (State.initial n).restart.Sound := by
  refine ⟨by simp [State.restart, State.reset, State.initial, Store.empty], fun scope hscope => ?_,
    by simp [State.restart]⟩
  simp only [State.restart, List.mem_singleton] at hscope
  subst hscope
  simp [Scope.empty, Bindings.empty]

theorem parsed_without_realize : (returnInRealization [] ⟨0, 0⟩).Parsed :=
  .inl ⟨⟨⟨[], "/"⟩, [], []⟩, 0, none, "instant T \x7b \x7d T \x7b return 1; \x7d return 2;", by cbv⟩

theorem parsed_with_realize :
    (returnInRealization [⟨"realize", [], [], 1, ⟨0, 0⟩, 1⟩] ⟨0, 1⟩).Parsed :=
  .inl ⟨⟨⟨[], "/"⟩, [], []⟩, 0, none,
    "instant T \x7b function realize() \x7b \x7d \x7d T \x7b return 1; \x7d return 2;", by cbv⟩

/-- A realization of an instant without a `realize` ends at a `return` in its body. -/
theorem return_leaves_activation_realization :
    let script := returnInRealization [] ⟨0, 0⟩
    let traced := (Activation.script script).traced (fun _ => pure none) 20
    let s := (State.initial 200).restart
    script.Parsed ∧ (Activation.script script).Of script ∧ s.Sound ∧
      ¬ ResumesAfterRealize traced s ∧ LeavesAtReturn traced s := by
  intro script traced s
  have stays : ¬ ResumesAfterRealize traced s := by
    rw [ResumesAfterRealize, ← resumesIn_iff, Bool.not_eq_true]
    cbv
  exact ⟨parsed_without_realize, .script, sound_restart 200, stays,
    (return_leaves_activation_iff _ 20 parsed_without_realize .script (sound_restart 200)).2.2 stays⟩

/-- With a `realize` the `return` is taken back and the next statement is executed. -/
theorem resumes_with_realize : ResumesAfterRealize
    ((Activation.script (returnInRealization [⟨"realize", [], [], 1, ⟨0, 0⟩, 1⟩] ⟨0, 1⟩)).traced
      (fun _ => pure none) 20) (State.initial 200).restart :=
  (resumesIn_iff _).1 (by cbv)

/-- A `realize` takes the `return` of a realization's body back, and the result is two. -/
theorem return_taken_back_by_realize :
    let script := returnInRealization [⟨"realize", [], [], 1, ⟨0, 0⟩, 1⟩] ⟨0, 1⟩
    let traced := (Activation.script script).traced (fun _ => pure none) 20
    let s := (State.initial 200).restart
    script.Parsed ∧ (Activation.script script).Of script ∧ s.Sound ∧
      ¬ LeavesAtReturn traced s ∧
      Exec.result? ((do Exec.value (← traced.run)) s) = some (.integer 2) := by
  intro script traced s
  have result : Exec.result? ((do Exec.value (← traced.run)) s) = some (.integer 2) := by cbv
  exact ⟨parsed_with_realize, .script, sound_restart 200, resumes_with_realize.not_leaves, result⟩

end Activation

end CellScript
