import CellScript.Numeric.Scalar

/-!
# Colors

A color has three channels and an alpha. Sums, differences, products and quotients go channel by
channel. Blending lays one color over another. Hues are angles in degrees.
-/

namespace CellScript

/-- A color over a component type. -/
structure Color (α : Type) where
  r : α
  g : α
  b : α
  a : α
  deriving DecidableEq, Repr

/-- The four components by name. -/
inductive Channel
  | red | green | blue | alpha
  deriving DecidableEq, Repr

namespace Color

variable {α : Type}

/-- The component of a channel. -/
def get (c : Color α) : Channel → α
  | .red => c.r
  | .green => c.g
  | .blue => c.b
  | .alpha => c.a

/-- The color with another component in a channel. -/
def set (c : Color α) (k : Channel) (x : α) : Color α :=
  match k with
  | .red => { c with r := x }
  | .green => { c with g := x }
  | .blue => { c with b := x }
  | .alpha => { c with a := x }

/-- Combine two colors channel by channel. -/
def zipM (f : α → α → Except NumberFault α) (c d : Color α) : Except NumberFault (Color α) := do
  return ⟨← f c.r d.r, ← f c.g d.g, ← f c.b d.b, ← f c.a d.a⟩

/-- A color with the same number in every channel. -/
def replicate (x : α) : Color α := ⟨x, x, x, x⟩

/-- Apply a function to every channel. -/
def map (f : α → α) (c : Color α) : Color α := ⟨f c.r, f c.g, f c.b, f c.a⟩

section

variable [Scalar α]

/-- The sum by channels. -/
def add : Color α → Color α → Except NumberFault (Color α) := zipM Scalar.add

/-- The difference by channels. -/
def sub : Color α → Color α → Except NumberFault (Color α) := zipM Scalar.sub

/-- The product by channels. -/
def mul : Color α → Color α → Except NumberFault (Color α) := zipM Scalar.mul

/-- The quotient by channels. -/
def div : Color α → Color α → Except NumberFault (Color α) := zipM Scalar.div

/-- The color on the way from `c` to `d`, at `t` of the way. -/
def lerp (c d : Color α) (t : α) : Except NumberFault (Color α) := do
  c.add (← (← d.sub c).mul (replicate t))

/-- The alpha after blending. `uncovered` is the share that the overlay leaves of what is below. -/
def blendAlpha (uncovered : α) (c top : Color α) : Except NumberFault (Color α) := do
  return { c with a := ← Scalar.add top.a (← Scalar.mul c.a uncovered) }

/-- A channel after blending: the overlay's share and the base's, over the alpha of the result. -/
def blendChannel (uncovered : α) (k : Channel) (c top : Color α) :
    Except NumberFault (Color α) := do
  let overlay ← Scalar.mul (top.get k) top.a
  let rest ← Scalar.mul (← Scalar.mul (c.get k) c.a) uncovered
  return c.set k (← Scalar.div (← Scalar.add overlay rest) c.a)

/-- A color that changes step by step. A fault leaves it as far as it has come. -/
abbrev Change (α : Type) := EStateM NumberFault (Color α)

/-- One step of a change. -/
def step (f : Color α → Except NumberFault (Color α)) : Change α Unit := fun c =>
  match f c with
  | .ok c' => .ok () c'
  | .error e => .error e c

/-- Make all channels but the alpha zero. -/
def clear (c : Color α) : Color α :=
  { c with r := Scalar.zero, g := Scalar.zero, b := Scalar.zero }

/-- Lay a color over another one, which changes in place: first its alpha, then its channels one by
one. `top` is the overlay as read when the color below has come to a state: a constant for another
color, the identity for that color itself. -/
def blend (top : Color α → Color α) : Change α Unit := do
  let base ← MonadState.get
  let uncovered ← MonadExcept.ofExcept (Scalar.sub Scalar.one (top base).a)
  step fun c => blendAlpha uncovered c (top c)
  let covered ← MonadState.get
  if Scalar.isZero covered.a then modify clear
  else
    step fun c => blendChannel uncovered .red c (top c)
    step fun c => blendChannel uncovered .green c (top c)
    step fun c => blendChannel uncovered .blue c (top c)

end

/-! ## Colors of numbers -/

/-- The color with the opposite components. -/
def neg (c : Color Number) : Color Number := c.map Number.neg

/-- The color with every component brought into the range from zero to one. -/
def saturate (c : Color Number) : Color Number :=
  c.map fun x => (x.max (.real 0.0)).min (.real 1.0)

/-- Whether all components are the same. -/
def same (c d : Color Number) : Bool :=
  c.r.same d.r && c.g.same d.g && c.b.same d.b && c.a.same d.a

/-- A byte of a packed color as a component. -/
def unpackByte (n : Int) : Except NumberFault Number := Number.div (.whole (n % 256)) (.real 255.0)

/-- The color packed as red, green and blue bytes of a number. -/
def unpack (n : Int) : Except NumberFault (Color Number) := do
  return ⟨← unpackByte (n.fdiv 65536), ← unpackByte (n.fdiv 256), ← unpackByte n, .real 1.0⟩

/-- The color of a hue in turns, a saturation and a brightness. -/
def ofHueTurns (h s v : Number) : Except NumberFault (Number × Number × Number) := do
  if s.equal (.real 0.0) then return (v, v, v)
  let sixths ← h.mul (.real 6.0)
  let i ← sixths.truncate
  let f ← sixths.sub (.whole i)
  let p ← v.mul (← Number.sub (.real 1.0) s)
  let q ← v.mul (← Number.sub (.real 1.0) (← s.mul f))
  let t ← v.mul (← Number.sub (.real 1.0) (← s.mul (← Number.sub (.real 1.0) f)))
  match i % 6 with
  | 0 => return (v, t, p)
  | 1 => return (q, v, p)
  | 2 => return (p, v, t)
  | 3 => return (p, q, v)
  | 4 => return (t, p, v)
  | _ => return (v, p, q)

/-- The color of a hue in degrees, a saturation and a brightness. -/
def ofHsv (h s v : Number) : Except NumberFault (Color Number) := do
  let turns ← (← h.mod 360.0).div (.real 360.0)
  let (r, g, b) ← ofHueTurns turns s v
  return ⟨r, g, b, .real 1.0⟩

/-- The hue in degrees, saturation and brightness of a color. -/
def toHsv (c : Color Number) : Except NumberFault (Number × Number × Number) := do
  let top := (c.r.max c.g).max c.b
  let bottom := (c.r.min c.g).min c.b
  let range ← top.sub bottom
  let degrees (h : Number) := h.mul (.real 360.0)
  if bottom.equal top then return (← degrees (.real 0.0), .real 0.0, top)
  let s ← range.div top
  let rc ← (← top.sub c.r).div range
  let gc ← (← top.sub c.g).div range
  let bc ← (← top.sub c.b).div range
  let sixths ←
    if c.r.equal top then bc.sub gc
    else if c.g.equal top then (← Number.add (.real 2.0) rc).sub bc
    else (← Number.add (.real 4.0) gc).sub rc
  let turns ← (← sixths.div (.real 6.0)).mod 1.0
  return (← degrees turns, s, top)

/-- The components that the text of a color shows: the alpha only when it is below one. -/
def shown (c : Color Number) : List Number :=
  if c.a.less (.whole 1) then [c.r, c.g, c.b, c.a] else [c.r, c.g, c.b]

/-- The text of a color. -/
def text (c : Color Number) : String :=
  "|" ++ String.intercalate ", " (c.shown.map Number.text) ++ "|"

end Color

end CellScript
