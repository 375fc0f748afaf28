import ContextConfig.Text.Digit
import ContextConfig.Text.Hex
/-!
# Character encodings

Bytes become characters under UTF-8, UTF-16 or UTF-32. What cannot be read is reported with the
positions of the offending bytes and a reason. A byte form may also spell a surrogate, which is no
character: it is an error under the strict rule and becomes U+FFFD under the lenient one.
-/

namespace ContextConfig

inductive ByteOrder where
  | little
  | big
  deriving DecidableEq, Repr

inductive Encoding where
  | utf8
  | utf16 (order : ByteOrder)
  | utf32 (order : ByteOrder)
  deriving DecidableEq, Repr

namespace Encoding

/-- Whether the byte form of a surrogate is let through as U+FFFD. -/
inductive SurrogateRule where
  | strict
  | lenient
  deriving DecidableEq, Repr

inductive Reason where
  | startByte
  | continuationByte
  | endOfData
  | truncated
  | illegal
  | illegalSurrogate
  | surrogateRange
  | outOfRange
  deriving DecidableEq, Repr

/-- Bytes that stand for no character: `count` of them from `start` on, the first being `byte`. -/
structure Error where
  encoding : Encoding
  start : Nat
  count : Nat
  byte : UInt8
  reason : Reason
  deriving DecidableEq, Repr

def name : Encoding → String
  | utf8 => "utf-8"
  | utf16 .little => "utf-16-le"
  | utf16 .big => "utf-16-be"
  | utf32 .little => "utf-32-le"
  | utf32 .big => "utf-32-be"

def Reason.message : Reason → String
  | startByte => "invalid start byte"
  | continuationByte => "invalid continuation byte"
  | endOfData => "unexpected end of data"
  | truncated => "truncated data"
  | illegal => "illegal encoding"
  | illegalSurrogate => "illegal UTF-16 surrogate"
  | surrogateRange => "code point in surrogate code point range(0xd800, 0xe000)"
  | outOfRange => "code point not in range(0x110000)"

def Error.message (e : Error) : String :=
  let place :=
    if e.count = 1 then
      "byte 0x" ++ String.ofList (Text.hexDigits .lower 2 e.byte.toNat) ++ " in position "
        ++ toString e.start
    else "bytes in position " ++ toString e.start ++ "-" ++ toString (e.start + e.count - 1)
  "'" ++ e.encoding.name ++ "' codec can't decode " ++ place ++ ": " ++ e.reason.message

/-- What stands for a surrogate where surrogates are let through. -/
def replacement : Char := '\uFFFD'

def isSurrogate (code : Nat) : Bool := 0xD800 ≤ code && code ≤ 0xDFFF

def isTail (byte : UInt8) : Bool := 0x80 ≤ byte && byte ≤ 0xBF

/-- The six bits that a tail byte carries. -/
def tailBits (byte : UInt8) : Nat := byte.toNat % 64

/-- Whether `second` may follow `first` at the start of a form of three or four bytes: no form is
longer than it needs to be, and none goes beyond U+10FFFF. Surrogates are left to the caller. -/
def isSecond (first second : UInt8) : Bool :=
  isTail second && (first != 0xE0 || 0xA0 ≤ second) && (first != 0xF0 || 0x90 ≤ second)
    && (first != 0xF4 || second ≤ 0x8F)

/-- Read UTF-8 bytes, the first of which has position `pos`. -/
def readUtf8 (rule : SurrogateRule) (pos : Nat) : List UInt8 → Except Error (List Char)
  | [] => .ok []
  | a :: r =>
    let stop (count : Nat) (reason : Reason) : Except Error (List Char) :=
      .error ⟨.utf8, pos, count, a, reason⟩
    if a < 0x80 then (readUtf8 rule (pos + 1) r).map (Char.ofNat a.toNat :: ·)
    else if a < 0xC2 || 0xF4 < a then stop 1 .startByte
    else match r with
      | [] => stop 1 .endOfData
      | b :: r =>
        if a < 0xE0 then
          if isTail b then
            (readUtf8 rule (pos + 2) r).map (Char.ofNat (a.toNat % 32 * 64 + tailBits b) :: ·)
          else stop 1 .continuationByte
        else if !isSecond a b then stop 1 .continuationByte
        else if a = 0xED && 0xA0 ≤ b then
          match r with
          | [] => stop 1 .continuationByte
          | c :: r =>
            if rule = .lenient && isTail c then
              (readUtf8 rule (pos + 3) r).map (replacement :: ·)
            else stop 1 .continuationByte
        else match r with
          | [] => stop 2 .endOfData
          | c :: r =>
            if !isTail c then stop 2 .continuationByte
            else if a < 0xF0 then
              (readUtf8 rule (pos + 3) r).map
                (Char.ofNat (a.toNat % 16 * 4096 + tailBits b * 64 + tailBits c) :: ·)
            else match r with
              | [] => stop 3 .endOfData
              | d :: r =>
                if !isTail d then stop 3 .continuationByte
                else (readUtf8 rule (pos + 4) r).map
                  (Char.ofNat (a.toNat % 8 * 262144 + tailBits b * 4096 + tailBits c * 64
                    + tailBits d) :: ·)

/-- The number that two bytes spell. -/
def word16 (order : ByteOrder) (a b : UInt8) : Nat :=
  match order with
  | .little => b.toNat * 256 + a.toNat
  | .big => a.toNat * 256 + b.toNat

/-- The character that a high and a low surrogate spell together. -/
def joinSurrogates (high low : Nat) : Char :=
  Char.ofNat (0x10000 + (high - 0xD800) * 1024 + (low - 0xDC00))

/-- Read UTF-16 bytes, the first of which has position `pos`. -/
def readUtf16 (rule : SurrogateRule) (order : ByteOrder) (pos : Nat) :
    List UInt8 → Except Error (List Char)
  | [] => .ok []
  | [a] => .error ⟨.utf16 order, pos, 1, a, .truncated⟩
  | a :: b :: r =>
    let unit := word16 order a b
    let alone (count : Nat) (reason : Reason) : Except Error (List Char) :=
      if rule = .lenient then (readUtf16 rule order (pos + 2) r).map (replacement :: ·)
      else .error ⟨.utf16 order, pos, count, a, reason⟩
    if !isSurrogate unit then (readUtf16 rule order (pos + 2) r).map (Char.ofNat unit :: ·)
    else if 0xDC00 ≤ unit then alone 2 .illegal
    else match r with
      | [] => alone 2 .endOfData
      | [_] => alone 3 .endOfData
      | c :: d :: r' =>
        let second := word16 order c d
        if 0xDC00 ≤ second && second ≤ 0xDFFF then
          (readUtf16 rule order (pos + 4) r').map (joinSurrogates unit second :: ·)
        else alone 2 .illegalSurrogate

/-- Read UTF-32 bytes, the first of which has position `pos`. -/
def readUtf32 (rule : SurrogateRule) (order : ByteOrder) (pos : Nat) :
    List UInt8 → Except Error (List Char)
  | [] => .ok []
  | a :: b :: c :: d :: r =>
    let code := match order with
      | .little => word16 .little c d * 65536 + word16 .little a b
      | .big => word16 .big a b * 65536 + word16 .big c d
    if 0x110000 ≤ code then .error ⟨.utf32 order, pos, 4, a, .outOfRange⟩
    else if !isSurrogate code then
      (readUtf32 rule order (pos + 4) r).map (Char.ofNat code :: ·)
    else if rule = .lenient then (readUtf32 rule order (pos + 4) r).map (replacement :: ·)
    else .error ⟨.utf32 order, pos, 4, a, .surrogateRange⟩
  | a :: r => .error ⟨.utf32 order, pos, r.length + 1, a, .truncated⟩

/-- Read bytes in an encoding, the first of which has position `pos`. -/
def read (rule : SurrogateRule) (pos : Nat) : Encoding → List UInt8 → Except Error (List Char)
  | utf8 => readUtf8 rule pos
  | utf16 order => readUtf16 rule order pos
  | utf32 order => readUtf32 rule order pos

/-- The UTF-8 bytes of a text. -/
def bytes (text : List Char) : List UInt8 := text.flatMap String.utf8EncodeChar

def isAscii (c : Char) : Bool := c.toNat < 128

theorem bytes_cons_ascii {c : Char} (h : isAscii c = true) (r : List Char) :
    bytes (c :: r) = UInt8.ofNat c.toNat :: bytes r := by
  have hc : c.toNat ≤ 127 := Nat.le_of_lt_succ (by simpa [isAscii] using h)
  simp [bytes, String.utf8EncodeChar, hc]

end Encoding
end ContextConfig
