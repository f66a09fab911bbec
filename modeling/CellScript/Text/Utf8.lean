import CellScript.Text.Quoted

/-!
# Reading bytes as text

`Utf8.decode` reads bytes as UTF-8 and, when they are not, says where they go wrong and how.
`normalizeLineEnds` turns every line end into a single newline.
-/

namespace CellScript

namespace Utf8

/-- How a sequence of bytes fails to be UTF-8. -/
inductive FaultKind
  | badStart
  | badContinuation
  | endsTooSoon
  deriving DecidableEq, Repr

/-- The bytes `first` up to below `past` do not form a character. -/
structure Fault where
  kind : FaultKind
  first : Nat
  past : Nat
  byte : UInt8
  deriving DecidableEq, Repr

/-- What is wrong with the bytes, in words. -/
def FaultKind.reason : FaultKind → String
  | .badStart => "invalid start byte"
  | .badContinuation => "invalid continuation byte"
  | .endsTooSoon => "unexpected end of data"

/-- The message about a fault: one byte is shown, several are only located. -/
def Fault.message (f : Fault) : String :=
  if f.past == f.first + 1 then
    let byte := String.ofList (hexDigits 2 f.byte.toNat)
    s!"'utf-8' codec can't decode byte 0x{byte} in position {f.first}: {f.kind.reason}"
  else
    s!"'utf-8' codec can't decode bytes in position {f.first}-{f.past - 1}: {f.kind.reason}"

/-- Whether a byte continues a character. -/
def isContinuation (b : UInt8) : Bool := 0x80 ≤ b && b < 0xC0

/-- Whether `b` may follow the lead byte `a`: a continuation that leaves the character in its
shortest form and out of the surrogates and of what lies beyond the last code point. -/
def maySecond (a b : UInt8) : Bool :=
  isContinuation b && (a != 0xE0 || 0xA0 ≤ b) && (a != 0xED || b < 0xA0) &&
    (a != 0xF0 || 0x90 ≤ b) && (a != 0xF4 || b < 0x90)

/-- The payload of a continuation byte. -/
def payload (b : UInt8) : Nat := b.toNat % 64

/-- Read characters from byte number `at_` on; `done` holds those before it, last first. -/
def decodeFrom (at_ : Nat) (done : List Char) : List UInt8 → Except Fault (List Char)
  | [] => .ok done.reverse
  | a :: rest =>
    if a < 0x80 then decodeFrom (at_ + 1) (Char.ofNat a.toNat :: done) rest
    else if a < 0xC2 || 0xF5 ≤ a then .error ⟨.badStart, at_, at_ + 1, a⟩
    else match rest with
    | [] => .error ⟨.endsTooSoon, at_, at_ + 1, a⟩
    | b :: rest =>
      if !maySecond a b then .error ⟨.badContinuation, at_, at_ + 1, a⟩
      else if a < 0xE0 then
        decodeFrom (at_ + 2) (Char.ofNat (a.toNat % 32 * 64 + payload b) :: done) rest
      else match rest with
      | [] => .error ⟨.endsTooSoon, at_, at_ + 2, a⟩
      | c :: rest =>
        if !isContinuation c then .error ⟨.badContinuation, at_, at_ + 2, a⟩
        else if a < 0xF0 then
          decodeFrom (at_ + 3)
            (Char.ofNat ((a.toNat % 16 * 64 + payload b) * 64 + payload c) :: done) rest
        else match rest with
        | [] => .error ⟨.endsTooSoon, at_, at_ + 3, a⟩
        | d :: rest =>
          if !isContinuation d then .error ⟨.badContinuation, at_, at_ + 3, a⟩
          else
            decodeFrom (at_ + 4)
              (Char.ofNat (((a.toNat % 8 * 64 + payload b) * 64 + payload c) * 64 + payload d)
                :: done) rest

/-- The characters that the bytes stand for. -/
def decode (bytes : List UInt8) : Except Fault (List Char) := decodeFrom 0 [] bytes

end Utf8

/-- A text with every line end (CR LF, or CR alone) written as a newline. -/
def normalizeLineEnds : List Char → List Char
  | [] => []
  | '\r' :: '\n' :: rest => '\n' :: normalizeLineEnds rest
  | '\r' :: rest => '\n' :: normalizeLineEnds rest
  | c :: rest => c :: normalizeLineEnds rest

end CellScript
