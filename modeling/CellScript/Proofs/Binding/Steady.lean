import CellScript.Proofs.Congruence.Free

/-!
# Names stay bound

A name that is bound in a scope stays bound there to the same cell, whatever is run. A scope only
gains names, and only two scopes can gain any: the innermost local one and the top global one.

Binding a name again would disconnect whoever knows its old cell. It never happens, since a name is
made only where it is not found. But a search ends at a scope that declares the name as global, so
the innermost scope may bind a name that is not found. Hoisted functions would overwrite such a name
if they were declared in a scope with global declarations; they are declared in scopes that have
just been opened (`State.Opened`).

* `State.Steady spared`: the scopes of the first state are those of the second one, up to what the
  innermost and the top one have gained, and the top one has gained none of the spared names;
* `Exec.Framed gaveUp spared`: a step that leaves the scopes steady and does what a second step
  does, unless it gives up.
-/

namespace CellScript

/-! ## Scopes -/

/-- What is bound in the first bindings is bound to the same in the second ones. -/
def Bindings.Extends {α : Type} (a b : Bindings α) : Prop :=
  ∀ name v, a.find? name = some v → b.find? name = some v

/-- The second scope is the first one with, perhaps, more in it. -/
structure Scope.Extends (a b : Scope) : Prop where
  items : a.items.Extends b.items
  globalNames : a.globalNames ⊆ b.globalNames
  types : a.types.Extends b.types

/-- The second local scope is the first one with, perhaps, more in it. -/
structure Frame.Extends (f g : Frame) : Prop where
  scope : f.scope.Extends g.scope
  linked : g.linked = f.linked

/-- Two stacks that differ at the top only, if at all, and there as `R` says. -/
inductive TopOnly {α : Type} (R : α → α → Prop) : List α → List α → Prop
  | nil : TopOnly R [] []
  | cons {a b : α} (below : List α) : R a b → TopOnly R (a :: below) (b :: below)

namespace Bindings.Extends

variable {α : Type}

theorem refl (a : Bindings α) : a.Extends a := fun _ _ h => h

theorem trans {a b c : Bindings α} (h : a.Extends b) (h' : b.Extends c) : a.Extends c :=
  fun name v hv => h' name v (h name v hv)

/-- A name that is not bound can be bound without harm. -/
theorem insert {a : Bindings α} {name : String} (h : a.find? name = none) (v : α) :
    a.Extends (a.insert name v) := by
  intro other w hw
  rw [Bindings.find?_insert]
  split
  · next same =>
    rw [← same, h] at hw
    cases hw
  · exact hw

end Bindings.Extends

theorem Bindings.contains_insert {α : Type} (b : Bindings α) (name other : String) (v : α) :
    (b.insert name v).contains other = (name == other || b.contains other) := by
  by_cases h : name = other <;> simp [contains, find?_insert, h]

namespace Scope

theorem Extends.refl (a : Scope) : a.Extends a := ⟨.refl _, fun _ h => h, .refl _⟩

theorem Extends.trans {a b c : Scope} (h : a.Extends b) (h' : b.Extends c) : a.Extends c :=
  ⟨h.items.trans h'.items, fun _ hn => h'.globalNames (h.globalNames hn), h.types.trans h'.types⟩

theorem extends_add {a : Scope} {name : String} (h : a.items.find? name = none) (c : Cell) :
    a.Extends (a.add name c) :=
  ⟨.insert h c, fun _ h => h, .refl _⟩

theorem has_add (a : Scope) (name other : String) (c : Cell) :
    (a.add name c).has other = (name == other || a.has other) :=
  a.items.contains_insert name other c

theorem extends_addAnonymous (a : Scope) (c : Cell) : a.Extends (a.addAnonymous c) :=
  ⟨.refl _, fun _ h => h, .refl _⟩

theorem extends_declareGlobal (a : Scope) (name : String) : a.Extends (a.declareGlobal name) := by
  unfold declareGlobal
  split
  · exact .refl a
  · exact ⟨.refl _, fun _ h => List.mem_cons_of_mem _ h, .refl _⟩

/-- A name that is not found is not bound in the innermost scope, unless it is declared as global
there. -/
theorem find?_eq_none_of_findIn {name : String} {top : Scope} {outer : List Scope}
    (hd : top.globalNames.contains name = false) (h : findIn name (top :: outer) = none) :
    top.items.find? name = none := by
  simp only [findIn, hd] at h
  cases hf : top.items.find? name with
  | none => rfl
  | some c => simp [hf] at h

end Scope

theorem Frame.Extends.refl (f : Frame) : f.Extends f := ⟨.refl _, rfl⟩

theorem Frame.Extends.trans {f g h : Frame} (hfg : f.Extends g) (hgh : g.Extends h) :
    f.Extends h :=
  ⟨hfg.scope.trans hgh.scope, hgh.linked.trans hfg.linked⟩

namespace TopOnly

variable {α : Type} {R : α → α → Prop} {as bs cs : List α}

theorem refl (hR : ∀ a, R a a) : (as : List α) → TopOnly R as as
  | [] => .nil
  | a :: below => .cons below (hR a)

theorem trans (hR : ∀ {a b c}, R a b → R b c → R a c) (h : TopOnly R as bs)
    (h' : TopOnly R bs cs) : TopOnly R as cs := by
  cases h with
  | nil => exact h'
  | cons below h =>
    cases h' with
    | cons _ h' => exact .cons below (hR h h')

theorem of_cons {a : α} {below : List α} (h : TopOnly R (a :: below) bs) :
    ∃ b, bs = b :: below ∧ R a b := by
  cases h with
  | cons _ h => exact ⟨_, rfl, h⟩

theorem length_eq (h : TopOnly R as bs) : bs.length = as.length := by
  cases h <;> rfl

theorem tail_eq (h : TopOnly R as bs) : bs.tail = as.tail := by
  cases h <;> rfl

/-- Whatever is at some height is still there, or stands in the relation to what is there now. -/
theorem getElem? (hR : ∀ a, R a a) (h : TopOnly R as bs) {i : Nat} {a : α} (ha : as[i]? = some a) :
    ∃ b, bs[i]? = some b ∧ R a b := by
  cases h with
  | nil => simp at ha
  | cons below h =>
    cases i with
    | zero =>
      simp only [List.getElem?_cons_zero, Option.some.injEq] at ha
      exact ⟨_, rfl, ha ▸ h⟩
    | succ i => exact ⟨a, ha, hR a⟩

end TopOnly

/-! ## States -/

/-- Whether the top global scope binds a name. -/
def State.binds (s : State) (name : String) : Bool :=
  match s.globals with
  | [] => false
  | top :: _ => top.has name

/-- The scopes of the second state are those of the first one, but the innermost local scope and the
top global scope may have gained something, the latter no spared names. The objects being realized
are the same. -/
structure State.Steady (spared : String → Prop) (s t : State) : Prop where
  locals : TopOnly Frame.Extends s.locals t.locals
  globals : TopOnly Scope.Extends s.globals t.globals
  instants : t.instants = s.instants
  spares (n : String) : spared n → t.binds n = true → s.binds n = true

/-- The innermost local scope declares no names as global. -/
def State.Opened (s : State) : Prop :=
  ∃ top below, s.locals = top :: below ∧ top.scope.globalNames = []

namespace State

variable {spared : String → Prop} {s t u : State}

theorem binds_congr (h : t.globals = s.globals) (n : String) : t.binds n = s.binds n := by
  unfold binds
  rw [h]

theorem Steady.of_eq (hl : t.locals = s.locals) (hg : t.globals = s.globals)
    (hi : t.instants = s.instants) : s.Steady spared t := by
  refine ⟨?_, ?_, hi, fun n _ hb => binds_congr hg n ▸ hb⟩
  · rw [hl]
    exact .refl Frame.Extends.refl _
  · rw [hg]
    exact .refl Scope.Extends.refl _

theorem Steady.refl (s : State) : s.Steady spared s := .of_eq rfl rfl rfl

theorem Steady.trans (h : s.Steady spared t) (h' : t.Steady spared u) : s.Steady spared u :=
  ⟨h.locals.trans Frame.Extends.trans h'.locals, h.globals.trans Scope.Extends.trans h'.globals,
    h'.instants.trans h.instants, fun n hn hb => h.spares n hn (h'.spares n hn hb)⟩

theorem Steady.mono {fewer : String → Prop} (hn : ∀ n, fewer n → spared n)
    (h : s.Steady spared t) : s.Steady fewer t :=
  ⟨h.locals, h.globals, h.instants, fun n hf => h.spares n (hn n hf)⟩

theorem steady_mapTop {f : Scope → Scope}
    (hf : ∀ top below, s.locals = top :: below → top.scope.Extends (f top.scope)) :
    s.Steady spared (s.mapTop f) := by
  have kept (n : String) (hb : (s.mapTop f).binds n = true) : s.binds n = true :=
    binds_congr (s.globals_mapTop f) n ▸ hb
  unfold mapTop at kept ⊢
  split at kept
  · exact .refl s
  · next top below hl =>
    refine ⟨?_, .refl Scope.Extends.refl _, rfl, fun n _ => kept n⟩
    rw [hl]
    exact .cons below ⟨hf top below hl, rfl⟩

/-- A change of the top global scope. -/
theorem steady_mapGlobal {top a : Scope} {below : List Scope} (hg : s.globals = top :: below)
    (h : top.Extends a) (hn : ∀ n, spared n → a.has n = true → top.has n = true) :
    s.Steady spared { s with globals := a :: below } := by
  refine ⟨.refl Frame.Extends.refl _, ?_, rfl, fun n hs hb => ?_⟩
  · rw [hg]
    exact .cons below h
  · unfold binds
    rw [hg]
    exact hn n hs hb

theorem Opened.congr (h : s.Opened) (hl : t.locals = s.locals) : t.Opened := by
  unfold Opened
  rw [hl]
  exact h

theorem Opened.ne_nil (h : s.Opened) : s.locals ≠ [] := by
  obtain ⟨top, below, hl, -⟩ := h
  simp [hl]

end State

namespace Exec

variable {α β : Type}

/-- Begun in states with `I`, the first step leaves the scopes steady. It gives up or does what the
second step does. -/
structure Framed (gaveUp : Failure) (spared : String → Prop) (I : State → Prop) (Q : α → Prop)
    (x y : Exec α) : Prop where
  steady (s : State) : I s →
    x.Ends s (fun a t => Q a ∧ s.Steady spared t) fun _ t => s.Steady spared t
  same (s : State) : I s → failure? (x s) = some gaveUp ∨ x s = y s

/-- A step framed in all states. -/
abbrev FramedAlways (gaveUp : Failure) (spared : String → Prop) (Q : α → Prop) (x y : Exec α) :
    Prop :=
  Framed gaveUp spared (fun _ => True) Q x y

namespace Framed

variable {gaveUp : Failure} {spared : String → Prop} {I : State → Prop} {P Q : α → Prop}

/-! ## Single steps -/

/-- What a step that never gives up is to be shown to do. -/
theorem self {x : Exec α} (h : ∀ s, I s →
    x.Ends s (fun a t => Q a ∧ s.Steady spared t) fun _ t => s.Steady spared t) :
    Framed gaveUp spared I Q x x :=
  ⟨h, fun _ _ => .inr rfl⟩

/-- A step that leaves all scopes and the objects being realized as they are. -/
theorem of_scopes {x : Exec α} (h : ∀ s, x.Ends s
    (fun a t => Q a ∧ t.locals = s.locals ∧ t.globals = s.globals ∧ t.instants = s.instants)
    fun _ t => t.locals = s.locals ∧ t.globals = s.globals ∧ t.instants = s.instants) :
    Framed gaveUp spared I Q x x :=
  self fun s _ => (h s).mono (fun _ _ ⟨ha, hl, hg, hi⟩ => ⟨ha, .of_eq hl hg hi⟩)
    fun _ _ ⟨hl, hg, hi⟩ => .of_eq hl hg hi

/-- Whatever the second step does, the first one may give up at once. -/
theorem given (y : Exec α) : Framed gaveUp spared I Q (throw gaveUp) y :=
  ⟨fun s _ => .refl s, fun _ _ => .inl rfl⟩

theorem pure {a : α} (h : Q a) : Framed gaveUp spared I Q (pure a) (pure a) :=
  of_scopes fun _ => ⟨h, rfl, rfl, rfl⟩

theorem throw (f : Failure) : Framed gaveUp spared I Q (throw f : Exec α) (throw f) :=
  of_scopes fun _ => ⟨rfl, rfl, rfl⟩

theorem read {f : State → α} (h : ∀ s, Q (f s)) :
    Framed gaveUp spared I Q (do return f (← get)) (do return f (← get)) :=
  of_scopes fun s => ⟨h s, rfl, rfl, rfl⟩

theorem update {f : State → State} (hl : ∀ s, (f s).locals = s.locals)
    (hg : ∀ s, (f s).globals = s.globals) (hi : ∀ s, (f s).instants = s.instants) :
    Framed gaveUp spared I (fun _ => True) (modify f) (modify f) :=
  of_scopes fun s => ⟨trivial, hl s, hg s, hi s⟩

theorem allocate {f : Store → α × Store} (h : ∀ s, Q (f s).1) :
    Framed gaveUp spared I Q (allocate f) (allocate f) :=
  of_scopes fun s => ⟨h s.store, rfl, rfl, rfl⟩

theorem addAnonymous (c : Cell) :
    Framed gaveUp spared I (fun _ => True) (addAnonymous c) (addAnonymous c) := by
  refine self fun s _ => .addAnonymous (fun _ => ?_) (fun top below hg => ?_) fun _ => .refl s
  · exact ⟨trivial, State.steady_mapTop fun top _ _ => top.scope.extends_addAnonymous c⟩
  · exact ⟨trivial, State.steady_mapGlobal hg (top.extends_addAnonymous c) fun _ _ h => h⟩

theorem setReturn (c : Cell) (line : Option Nat) :
    Framed gaveUp spared I (fun _ => True) (setReturn c line) (setReturn c line) :=
  of_scopes fun _ => .setReturn (fun _ _ _ => ⟨trivial, rfl, rfl, rfl⟩) fun _ => ⟨rfl, rfl, rfl⟩

theorem popReturn : Framed gaveUp spared I (fun _ => True) popReturn popReturn :=
  of_scopes fun _ => .popReturn (fun _ _ _ => ⟨trivial, rfl, rfl, rfl⟩) fun _ => ⟨rfl, rfl, rfl⟩

/-! ## Sequences and failures -/

/-- A second step that is framed where the first one may end. -/
theorem bind_of {J : State → Prop} {R : β → Prop} {x y : Exec α} {f g : α → Exec β}
    (hx : Framed gaveUp spared I P x y)
    (hJ : ∀ s, I s → x.Ends s (fun _ t => J t) fun _ _ => True)
    (hf : ∀ a, P a → Framed gaveUp spared J R (f a) (g a)) :
    Framed gaveUp spared I R (x >>= f) (y >>= g) := by
  refine ⟨fun s hs => ?_, fun s hs => ?_⟩
  · refine Ends.bind (((hx.steady s hs).and (hJ s hs)).mono (fun _ _ h => h) fun _ _ h => h.1) ?_
    rintro a t ⟨⟨ha, ht⟩, hj⟩
    exact ((hf a ha).steady t hj).mono (fun _ _ h => ⟨h.1, ht.trans h.2⟩) fun _ _ h => ht.trans h
  · change failure? (EStateM.bind x f s) = _ ∨ EStateM.bind x f s = EStateM.bind y g s
    have first := hx.same s hs
    unfold EStateM.bind
    cases h : x s with
    | error e t =>
      rw [h] at first
      refine first.imp id fun same => ?_
      rw [← same]
    | ok a t =>
      rw [h] at first
      rw [← first.resolve_left (by simp [failure?])]
      exact (hf a ((hx.steady s hs).ok h).1).same t ((hJ s hs).ok h)

theorem bind {R : β → Prop} {x y : Exec α} {f g : α → Exec β} (hx : Framed gaveUp spared I P x y)
    (hf : ∀ a, P a → FramedAlways gaveUp spared R (f a) (g a)) :
    Framed gaveUp spared I R (x >>= f) (y >>= g) := by
  refine hx.bind_of (fun s _ => ?_) hf
  unfold Ends
  cases x s <;> trivial

theorem mono {J : State → Prop} {x y : Exec α} (hI : ∀ s, J s → I s) (hQ : ∀ a, P a → Q a)
    (h : Framed gaveUp spared I P x y) : Framed gaveUp spared J Q x y :=
  ⟨fun s hs => (h.steady s (hI s hs)).mono (fun a _ ⟨ha, ht⟩ => ⟨hQ a ha, ht⟩) fun _ _ h => h,
    fun s hs => h.same s (hI s hs)⟩

theorem mapFailure {x y : Exec α} {g : Failure → Failure} (hg : g gaveUp = gaveUp)
    (h : Framed gaveUp spared I Q x y) :
    Framed gaveUp spared I Q (mapFailure g x) (mapFailure g y) := by
  refine ⟨fun s hs => Ends.mapFailure (h.steady s hs), fun s hs => ?_⟩
  have first := h.same s hs
  unfold Exec.mapFailure
  cases hx : x s with
  | ok a t =>
    rw [hx] at first
    rw [← first.resolve_left (by simp [failure?])]
    exact .inr rfl
  | error e t =>
    rw [hx] at first
    refine first.imp (fun given => ?_) fun same => by rw [← same]
    rw [failure?, Option.some.injEq] at given ⊢
    rw [given, hg]

/-! ## Steps in scopes of their own -/

/-- A step begun in `u` and a finisher that leads back to the local scopes of `s`: these are exactly
as before. -/
theorem finished {x y : Exec α} (h : Framed gaveUp spared I Q x y) {finish : Exec Unit}
    {s u : State} (hu : I u) (hg : u.globals = s.globals)
    (back : ∀ t, u.Steady spared t →
      ∃ v, finish t = .ok () v ∧ v.locals = s.locals ∧ v.globals = t.globals ∧
        v.instants = s.instants) :
    (ensuring x finish).Ends u (fun a t => Q a ∧ s.Steady spared t ∧ t.locals = s.locals)
        (fun _ t => s.Steady spared t ∧ t.locals = s.locals) ∧
      (failure? (ensuring x finish u) = some gaveUp ∨
        ensuring x finish u = ensuring y finish u) := by
  have level {t v : State} (ht : u.Steady spared t) (hl : v.locals = s.locals)
      (hv : v.globals = t.globals) (hi : v.instants = s.instants) : s.Steady spared v := by
    refine ⟨?_, ?_, hi, fun n hn hb => ?_⟩
    · rw [hl]
      exact .refl Frame.Extends.refl _
    · rw [hv, ← hg]
      exact ht.globals
    · rw [← State.binds_congr hg n]
      exact ht.spares n hn (State.binds_congr hv n ▸ hb)
  have steady := h.steady u hu
  refine ⟨Ends.ensuring (steady.mono ?_ ?_), ?_⟩
  · rintro a t ⟨ha, ht⟩
    obtain ⟨v, hv, hl, hgl, hi⟩ := back t ht
    unfold Ends
    rw [hv]
    exact ⟨ha, level ht hl hgl hi, hl⟩
  · rintro f t ht
    obtain ⟨v, hv, hl, hgl, hi⟩ := back t ht
    unfold Ends
    rw [hv]
    exact ⟨level ht hl hgl hi, hl⟩
  · have first := h.same u hu
    unfold Exec.ensuring
    cases hx : x u with
    | ok a t =>
      rw [hx] at first
      rw [← first.resolve_left (by simp [failure?])]
      exact .inr rfl
    | error e t =>
      -- Where the step has given up, the finisher still completes.
      rw [hx] at first
      obtain ⟨v, hv, -⟩ := back t (steady.error hx)
      refine first.imp (fun given => ?_) fun same => by rw [← same]
      dsimp only
      rw [hv]
      exact given

end Framed

end Exec

end CellScript
