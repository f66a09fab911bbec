import CellScript.Proofs.Binding.Settled
import CellScript.Proofs.Completing
import CellScript.Proofs.Fuel
import CellScript.Proofs.Limit.Raised

/-!
# Includes are spliced in

An included file stands in the tree as a statement that holds the statements of the file. Replacing
it by them changes nothing that a script does: they declare the same definitions in the same order,
and run in the same scope until one of them raises a flag, which ends the run of the list around
them as well.

Only fuel is counted differently, since the statements of an included file are nested one step
deeper. So the two scripts are compared with enough fuel for both. What completes completes in the
same way with more; and where a statement never completes, the script takes as much more fuel as
there are includes around this statement (`Exec.Shifted.bind`).

* `Script.spliced`: the script with its included files spliced in;
* `Exec.Shifted`: with enough fuel, the first step does what the second one does with some less;
* `Exec.proceed`: running statements where no flag is raised, which goes from lists joined together
  to steps one after the other (`Exec.proceed_append`);
* `Exec.shifted_proceeding`, `Exec.upToFuel_proceeding`: lists of statements, by induction on them;
* `including_is_splicing`: a script and the script with its files spliced in do the same.
-/

namespace CellScript

/-- The script with its included files spliced in: each include among its statements, and each one
directly in a file included so, has given way to the statements that it holds. -/
def Script.spliced (script : Script) : Script := ⟨Stmt.splicedAll script.statements⟩

theorem Script.plain_of_mem_spliced (script : Script) :
    ∀ st ∈ script.spliced.statements, st.Plain :=
  Exec.plain_of_mem_splicedAll script.statements

namespace Exec

variable {α β : Type}

/-! ## Steps by their fuel -/

/-- With enough fuel, the step comes to this, which may be a want of fuel. -/
def ComesTo (x : Nat → Exec α) (s : State) (outcome : EStateM.Result Failure State α) : Prop :=
  ∃ enough, ∀ fuel ≥ enough, x fuel s = outcome

/-- Begun in any state with enough fuel, the first step does what the second one does with some
less. How much is enough and how much is less depends on the state. -/
def Shifted (x y : Nat → Exec α) : Prop :=
  ∀ s, ∃ deeper enough, ∀ fuel ≥ enough, x (fuel + deeper) s = y fuel s

/-- What completes with some fuel completes in the same way with more. -/
def Persists (x : Nat → Exec α) : Prop :=
  ∀ ⦃m n : Nat⦄, m ≤ n → Completes (fun _ => True) (x m) (x n)

theorem Persists.eq_of_le {x : Nat → Exec α} (h : Persists x) {m n : Nat} {s t : State} {a : α}
    (hm : x m s = .ok a t) (hmn : m ≤ n) : x n s = .ok a t :=
  (h hmn s a t hm).2

namespace Shifted

variable {x y : Nat → Exec α}

theorem refl (x : Nat → Exec α) : Shifted x x := fun _ => ⟨0, 0, fun _ _ => rfl⟩

/-- The first step is nested one level deeper. -/
theorem deeper {z : Nat → Exec α} (h : Shifted x y) (hz : ∀ n, z (n + 1) = x n) :
    Shifted z y := by
  intro s
  obtain ⟨deeper, enough, same⟩ := h s
  refine ⟨deeper + 1, enough, fun n hn => ?_⟩
  rw [← Nat.add_assoc, hz]
  exact same n hn

/-- What is done around a step, if that depends on nothing but what the step does in one state. -/
theorem around (h : Shifted x y) {f : Exec α → Exec β} (begun : State → State)
    (congr : ∀ {u v : Exec α} {s : State}, u (begun s) = v (begun s) → f u s = f v s) :
    Shifted (fun n => f (x n)) fun n => f (y n) := by
  intro s
  obtain ⟨deeper, enough, same⟩ := h (begun s)
  exact ⟨deeper, enough, fun n hn => congr (same n hn)⟩

theorem before (h : Shifted x y) (f : α → Exec β) :
    Shifted (fun n => x n >>= f) fun n => y n >>= f :=
  h.around id fun same => bind_congr_left same f

theorem mapFailure (h : Shifted x y) (g : Failure → Failure) :
    Shifted (fun n => mapFailure g (x n)) fun n => mapFailure g (y n) :=
  h.around id fun same => mapFailure_congr same g

theorem withFrames (h : Shifted x y) :
    Shifted (fun n => withFrames (x n)) fun n => withFrames (y n) := by
  refine h.around (fun s => { s with frames := framesFor s.frames s.maxCallDepth })
    fun {u v s} same => ?_
  rw [withFrames_apply, withFrames_apply]
  cases refusal? s.frames s.maxCallDepth with
  | some f => rfl
  | none => exact ensuring_congr same _

/-- What comes behind a step that takes no fuel. -/
theorem after (x : Exec α) {f g : Nat → α → Exec β} (h : ∀ a, Shifted (f · a) (g · a)) :
    Shifted (fun n => x >>= f n) fun n => x >>= g n := by
  intro s
  cases hx : x s with
  | ok a t =>
    obtain ⟨deeper, enough, same⟩ := h a t
    exact ⟨deeper, enough, fun n hn =>
      (bind_of_ok hx).trans ((same n hn).trans (bind_of_ok hx).symm)⟩
  | error e t =>
    exact ⟨0, 0, fun n _ => (bind_of_error hx).trans (bind_of_error hx).symm⟩

/-- Two steps one after the other. If the first one completes with some fuel, then more does not
change what it comes to, and the second one says how much is less; if it never completes, then the
second one is never begun. -/
theorem bind {f g : Nat → α → Exec β} (h : Shifted x y) (hy : Persists y)
    (hf : ∀ a, Shifted (f · a) (g · a)) :
    Shifted (fun n => x n >>= f n) fun n => y n >>= g n := by
  intro s
  obtain ⟨deeper, enough, same⟩ := h s
  by_cases completes : ∃ k a t, y k s = .ok a t
  · obtain ⟨k, a, t, hk⟩ := completes
    have second {n : Nat} (hn : k ≤ n) : y n s = .ok a t := hy.eq_of_le hk hn
    have first {n : Nat} (hn : max k enough + deeper ≤ n) : x n s = .ok a t := by
      obtain ⟨m, rfl⟩ : ∃ m, n = m + deeper := ⟨n - deeper, by omega⟩
      rw [same m (by omega)]
      exact second (by omega)
    obtain ⟨deeper', enough', same'⟩ := hf a t
    refine ⟨deeper', max (max k enough + deeper) enough', fun n hn => ?_⟩
    have begun := bind_of_ok (f := f (n + deeper')) (first (n := n + deeper') (by omega))
    have begun' := bind_of_ok (f := g n) (second (n := n) (by omega))
    exact begun.trans ((same' n (by omega)).trans begun'.symm)
  · refine ⟨deeper, enough, fun n hn => ?_⟩
    cases fails : y n s with
    | ok a t => exact absurd ⟨n, a, t, fails⟩ completes
    | error e t => exact (bind_of_error ((same n hn).trans fails)).trans (bind_of_error fails).symm

/-- With enough fuel, both steps come to the same. -/
theorem comesTo_iff (h : Shifted x y) (s : State) (outcome : EStateM.Result Failure State α) :
    ComesTo x s outcome ↔ ComesTo y s outcome := by
  obtain ⟨deeper, enough, same⟩ := h s
  constructor
  · rintro ⟨k, hk⟩
    refine ⟨max k enough, fun n hn => ?_⟩
    rw [← same n (by omega)]
    exact hk _ (by omega)
  · rintro ⟨k, hk⟩
    refine ⟨max k enough + deeper, fun n hn => ?_⟩
    obtain ⟨m, rfl⟩ : ∃ m, n = m + deeper := ⟨n - deeper, by omega⟩
    rw [same m (by omega)]
    exact hk m (by omega)

end Shifted

/-! ## Lists of statements -/

/-- Run statements until one of them cuts the normal course short, unless it is cut short
already. -/
def proceed (execute : Stmt → Exec Unit) (ss : List Stmt) : Exec Unit := do
  if (← get).flags.any then pure () else runAll execute ss

section

variable (execute : Stmt → Exec Unit)

theorem proceed_of_raised {s : State} (hs : s.flags.any = true) (ss : List Stmt) :
    proceed execute ss s = .ok () s := by
  unfold proceed
  rw [get_bind_apply, if_pos hs]
  rfl

theorem proceed_of_calm {s : State} (hs : s.flags.any = false) (ss : List Stmt) :
    proceed execute ss s = runAll execute ss s := by
  unfold proceed
  rw [get_bind_apply, hs]
  rfl

theorem runAll_cons (st : Stmt) (ss : List Stmt) :
    runAll execute (st :: ss) = execute st >>= fun _ => proceed execute ss := rfl

theorem proceed_nil : proceed execute [] = pure () := by
  funext s
  cases hs : s.flags.any with
  | true => exact proceed_of_raised execute hs []
  | false => exact proceed_of_calm execute hs []

/-- Statements of two lists one after the other. -/
theorem proceed_append (as bs : List Stmt) :
    proceed execute (as ++ bs) = proceed execute as >>= fun _ => proceed execute bs := by
  induction as with
  | nil => rw [proceed_nil, List.nil_append, pure_bind]
  | cons st as ih =>
    funext s
    cases hs : s.flags.any with
    | true =>
      rw [proceed_of_raised execute hs, bind_of_ok (proceed_of_raised execute hs _),
        proceed_of_raised execute hs]
    | false =>
      rw [proceed_of_calm execute hs, bind_congr_left (proceed_of_calm execute hs _),
        List.cons_append, runAll_cons, runAll_cons, ih, bind_assoc]

theorem proceed_singleton {s : State} (hs : s.flags.any = false) (st : Stmt) :
    proceed execute [st] s = execute st s := by
  rw [proceed_of_calm execute hs, runAll_cons, proceed_nil]
  exact congrFun (bind_pure _) s

end

/-! ## Included files -/

section

variable (host : Host)

/-- The statements, by the fuel that each of them takes at most. -/
def proceeding (ss : List Stmt) (fuel : Nat) : Exec Unit :=
  proceed (Interp.executeAt host fuel) ss

theorem persists_proceeding (ss : List Stmt) : Persists (proceeding host ss) := by
  intro m n hmn
  have any : Nodes.any.all false ss := fun _ _ => trivial
  have run : Completes (fun _ => True) (runAll (Interp.executeAt host m) ss)
      (runAll (Interp.executeAt host n) ss) := (Interp.completes host hmn).run any
  refine Completes.choose fun s => ?_
  split
  · exact .self _
  · exact run

/-- The statements of an included file are nested one step deeper. -/
theorem proceeding_include (path : String) (body : List Stmt) (line fuel : Nat) :
    proceeding host [.include path body line] (fuel + 1) = proceeding host body fuel := by
  funext s
  unfold proceeding
  cases hs : s.flags.any with
  | true => rw [proceed_of_raised _ hs, proceed_of_raised _ hs]
  | false =>
    rw [proceed_singleton _ hs, proceed_of_calm _ hs]
    rfl

theorem proceeding_append (as bs : List Stmt) (fuel : Nat) : proceeding host (as ++ bs) fuel =
    proceeding host as fuel >>= fun _ => proceeding host bs fuel :=
  proceed_append _ as bs

mutual

/-- A statement, or the statements that it holds if it includes a file. -/
theorem shifted_one : ∀ st : Stmt,
    Shifted (proceeding host [st]) (proceeding host st.spliced)
  | .include path body line => by
    rw [Stmt.spliced]
    exact (shifted_proceeding body).deeper (proceeding_include host path body line)
  | .function _ | .classDef _ _ _ _ _ | .expression _ | .assign _ _ _ | .update _ _ _ _
  | .realize _ _ _ | .nop _ | .block _ _ | .branch _ _ _ _ | .loop _ _ | .whileLoop _ _ _
  | .doWhile _ _ _ | .forLoop _ _ _ _ _ | .break _ | .continue _ | .return _ _ | .global _ _ => by
    unfold Stmt.spliced
    exact .refl _

/-- A list of statements, and the list with included files spliced in. -/
theorem shifted_proceeding : ∀ ss : List Stmt,
    Shifted (proceeding host ss) (proceeding host (Stmt.splicedAll ss))
  | [] => .refl _
  | st :: ss => by
    have both : Shifted (fun n => proceeding host [st] n >>= fun _ => proceeding host ss n)
        fun n => proceeding host st.spliced n >>= fun _ =>
          proceeding host (Stmt.splicedAll ss) n :=
      (shifted_one st).bind (persists_proceeding host _) fun _ => shifted_proceeding ss
    simp only [← proceeding_append] at both
    exact both

end

theorem upToFuel_of_le (hh : Host.Steady (fun _ => False) host) (ss : List Stmt) {m n : Nat}
    (hmn : m ≤ n) : UpToFuel (proceeding host ss m) (proceeding host ss n) := by
  have any : Nodes.any.all false ss := fun _ _ => trivial
  have run : Outlasted (runAll (Interp.executeAt host m) ss)
      (runAll (Interp.executeAt host n) ss) := (Interp.outlasts hh hmn).1.run any
  refine (UpToFuel.refl get).bind fun s => ?_
  split
  · exact .refl _
  · exact fun s => run.same s trivial

theorem proceeding_zero {s : State} (hs : s.flags.any = false) (st : Stmt) (ss : List Stmt) :
    failure? (proceeding host (st :: ss) 0 s) = some .outOfFuel := by
  unfold proceeding
  rw [proceed_of_calm _ hs, runAll_cons]
  rfl

mutual

/-- Within the fuel that a statement has, the statements that it holds have a little more. -/
theorem upToFuel_one (hh : Host.Steady (fun _ => False) host) :
    ∀ (st : Stmt) (n : Nat), UpToFuel (proceeding host [st] n) (proceeding host st.spliced n)
  | .include path body line, n => by
    rw [Stmt.spliced]
    cases n with
    | zero =>
      intro s
      cases hs : s.flags.any with
      | true => exact .inr ((proceed_of_raised _ hs _).trans (proceed_of_raised _ hs _).symm)
      | false => exact .inl (proceeding_zero host hs _ _)
    | succ k =>
      rw [proceeding_include]
      exact (upToFuel_proceeding hh body k).trans (upToFuel_of_le host hh _ (Nat.le_succ k))
  | .function _, n | .classDef _ _ _ _ _, n | .expression _, n | .assign _ _ _, n
  | .update _ _ _ _, n | .realize _ _ _, n | .nop _, n | .block _ _, n | .branch _ _ _ _, n
  | .loop _ _, n | .whileLoop _ _ _, n | .doWhile _ _ _, n | .forLoop _ _ _ _ _, n
  | .break _, n | .continue _, n | .return _ _, n | .global _ _, n => by
    unfold Stmt.spliced
    exact .refl _

theorem upToFuel_proceeding (hh : Host.Steady (fun _ => False) host) :
    ∀ (ss : List Stmt) (n : Nat),
      UpToFuel (proceeding host ss n) (proceeding host (Stmt.splicedAll ss) n)
  | [], _ => .refl _
  | st :: ss, n => by
    rw [Stmt.splicedAll, proceeding_append, ← List.singleton_append, proceeding_append]
    exact (upToFuel_one hh st n).bind fun _ => upToFuel_proceeding hh ss n

end

end

/-! ## Scripts -/

/-- A script begins without flags, and its declarations raise none. -/
theorem runScript_eq_proceeding (host : Host) (script : Script) (fuel : Nat) :
    runScript (Interp.withFuel host fuel) script = beginScript >>= fun _ =>
      mapFailure (overrun none) (withFrames (prepareAll script.statements >>= fun _ =>
        proceeding host script.statements fuel)) >>= fun _ => endScript := by
  funext s
  refine Ends.bind_congr ((beginScript_ends s).mono (fun _ t ht => ?_) fun _ _ h => h)
  refine bind_congr_left (mapFailure_congr (withFrames_congr fun frames => ?_) _) _
  refine Ends.bind_congr (E := fun _ _ => True)
    (ends_iff.2 ⟨fun _ u completed => ?_, fun _ _ _ => trivial⟩)
  have flags : u.flags = .none := ((Blind.prepareAll _).flags_ok completed).trans ht.2
  have calm : u.flags.any = false := by rw [flags]; rfl
  exact (proceed_of_calm _ calm _).symm

theorem shifted_runScript (host : Host) (script : Script) :
    Shifted (fun fuel => runScript (Interp.withFuel host fuel) script)
      fun fuel => runScript (Interp.withFuel host fuel) script.spliced := by
  simp only [runScript_eq_proceeding, Script.spliced, prepareAll_splicedAll]
  have program := Shifted.after (prepareAll script.statements) fun _ =>
    shifted_proceeding host script.statements
  exact .after _ fun _ => (program.withFrames.mapFailure _).before _

theorem upToFuel_runScript {host : Host} (hh : Host.Steady (fun _ => False) host)
    (script : Script) (fuel : Nat) : UpToFuel (runScript (Interp.withFuel host fuel) script)
      (runScript (Interp.withFuel host fuel) script.spliced) := by
  simp only [runScript_eq_proceeding, Script.spliced, prepareAll_splicedAll]
  have program := (UpToFuel.refl (prepareAll script.statements)).bind fun _ =>
    upToFuel_proceeding host hh script.statements fuel
  exact program.inScript

end Exec

open Exec (runScript ComesTo failure?)

/-- Including is splicing, in every state and with any host. With enough fuel a script does what it
does with its included files spliced in, with somewhat less fuel as these are less deeply nested: it
gives the same result or fails in the same way, and ends in the same state, with the same output,
scopes, types and storage. So whatever one of the two comes to with enough fuel, the other one comes
to as well. With a host that keeps the scopes, the same amount of fuel is enough, too: unless the
script runs out of it, the spliced one does the same. -/
theorem including_is_splicing (host : Host) (script : Script) (s : State) :
    let run (script : Script) (fuel : Nat) := runScript (Interp.withFuel host fuel) script
    (∀ st ∈ script.spliced.statements, st.Plain) ∧
    (∃ deeper enough, ∀ fuel ≥ enough, run script (fuel + deeper) s = run script.spliced fuel s) ∧
    (∀ outcome, ComesTo (run script) s outcome ↔ ComesTo (run script.spliced) s outcome) ∧
    (Host.Steady (fun _ => False) host → ∀ fuel, failure? (run script fuel s) ≠ some .outOfFuel →
      run script.spliced fuel s = run script fuel s) := by
  intro run
  have shifted := Exec.shifted_runScript host script
  refine ⟨script.plain_of_mem_spliced, shifted s, shifted.comesTo_iff s, fun hh fuel enough => ?_⟩
  exact ((Exec.upToFuel_runScript hh script fuel s).resolve_left enough).symm

/-- `x = one(); include "library"; break;`, where `library` is `include "one"; return x;` and `one`
defines the function. -/
def includesNested : Script :=
  ⟨[.assign (.name "x" .location 1) (.call (.name "one" .operand 1) [] 1) 1,
    .include "/library" [.include "/one" [definitionOfOne] 1,
      .return (some (.name "x" .operand 2)) 2] 2,
    .break 3]⟩

/-- A function that is called before the file included in an included file that defines it, and a
`return` in an included file. -/
theorem including_is_splicing_nested :
    let host : Host := fun _ => return none
    let s := (State.initial 200).restart
    Host.Steady (fun _ => False) host ∧ includesNested.spliced.statements.length = 4 ∧
      Exec.result? ((do Exec.value (← runScript (Interp.withFuel host 9) includesNested)) s) =
        some (.integer 1) ∧
      runScript (Interp.withFuel host 9) includesNested.spliced s =
        runScript (Interp.withFuel host 9) includesNested s := by
  intro host s
  have steady : Host.Steady (fun _ => False) host := fun _ _ => .of_eq rfl rfl rfl
  have given : Exec.result? ((do Exec.value (← runScript (Interp.withFuel host 9)
      includesNested)) s) = some (.integer 1) := by cbv
  have completes : failure? (runScript (Interp.withFuel host 9) includesNested s) = none := by cbv
  obtain ⟨-, -, -, same⟩ := including_is_splicing host includesNested s
  exact ⟨steady, rfl, given, same steady 9 (by simp [completes])⟩

end CellScript
