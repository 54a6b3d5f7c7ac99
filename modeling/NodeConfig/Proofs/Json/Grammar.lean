import Mathlib
import NodeConfig.Json.Read

/-!
The grammar of JSON texts: which bytes denote which value. Nothing here reads from left to right or
knows of fuel and faults; a text is put together from its parts.

The bytes between quotes are the UTF-8 of characters, no controls, and escapes. Brackets are closed
under an arbitrary relation for what stands in them, so a bound on their nesting is a recursion
over the bound.
-/

namespace NodeConfig.Json

def HexDigit (b : UInt8) (n : ℕ) : Prop :=
  (n < 10 ∧ b.toNat = 0x30 + n) ∨
    (10 ≤ n ∧ n < 16 ∧ (b.toNat = 0x37 + n ∨ b.toNat = 0x57 + n))

inductive HexUnit : Bytes → ℕ → Prop
  | digits {a b c d : UInt8} {w x y z : ℕ} (ha : HexDigit a w) (hb : HexDigit b x)
      (hc : HexDigit c y) (hd : HexDigit d z) :
      HexUnit [a, b, c, d] (0x1000 * w + 0x100 * x + 0x10 * y + z)

def shortEscapes : List (UInt8 × Char) :=
  [(0x22, '"'), (0x5C, '\\'), (0x2F, '/'), (0x62, '\x08'), (0x66, '\x0c'), (0x6E, '\n'),
    (0x72, '\r'), (0x74, '\t')]

/-- What follows a backslash. A surrogate is no character; two of them in order make one. -/
inductive Escape : Bytes → Char → Prop
  | short {b : UInt8} {c : Char} (h : (b, c) ∈ shortEscapes) : Escape [b] c
  | unit {bs : Bytes} {n : ℕ} (h : HexUnit bs n) (hn : n < 0xD800 ∨ 0xE000 ≤ n) :
      Escape (0x75 :: bs) (Char.ofNat n)
  | pair {bs bs' : Bytes} {high low : ℕ} (h : HexUnit bs high) (h' : HexUnit bs' low)
      (hhigh : 0xD800 ≤ high ∧ high < 0xDC00) (hlow : 0xDC00 ≤ low ∧ low < 0xE000) :
      Escape (0x75 :: (bs ++ 0x5C :: 0x75 :: bs'))
        (Char.ofNat (0x10000 + (high - 0xD800) * 0x400 + (low - 0xDC00)))

inductive Characters : Bytes → List Char → Prop
  | nil : Characters [] []
  | plain {c : Char} {bs : Bytes} {cs : List Char} (hc : 0x20 ≤ c.toNat ∧ c ≠ '"' ∧ c ≠ '\\')
      (h : Characters bs cs) : Characters (Utf8.encodeChar c ++ bs) (c :: cs)
  | escape {e : Bytes} {c : Char} {bs : Bytes} {cs : List Char} (he : Escape e c)
      (h : Characters bs cs) : Characters (0x5C :: (e ++ bs)) (c :: cs)

inductive StringText : Bytes → String → Prop
  | quotes {bs : Bytes} {cs : List Char} (h : Characters bs cs) :
      StringText (0x22 :: (bs ++ [0x22])) (String.ofList cs)

def IsDigits (ds : Bytes) : Prop := ds ≠ [] ∧ ∀ d ∈ ds, isDigit d = true

def decimal (ds : Bytes) : ℕ := ds.foldl (fun n d => n * 10 + digit d) 0

inductive Sign where
  | plus | minus

structure Exponent where
  capital : Bool
  sign : Option Sign
  digits : Bytes
  isDigits : IsDigits digits

structure Numeral where
  negative : Bool
  whole : Bytes
  fraction : Option Bytes
  exponent : Option Exponent
  isDigits_whole : IsDigits whole
  leading : whole.head? = some 0x30 → whole = [0x30]
  isDigits_fraction : ∀ ds ∈ fraction, IsDigits ds

def Sign.text : Option Sign → Bytes
  | none => []
  | some .plus => [0x2B]
  | some .minus => [0x2D]

def Exponent.up (e : Exponent) : Bool :=
  match e.sign with
  | some .minus => false
  | _ => true

def Exponent.text (e : Exponent) : Bytes :=
  (if e.capital then 0x45 else 0x65) :: (Sign.text e.sign ++ e.digits)

def exponentText : Option Exponent → Bytes
  | none => []
  | some e => e.text

def fractionText : Option Bytes → Bytes
  | none => []
  | some ds => 0x2E :: ds

def Numeral.unsigned (n : Numeral) : Bytes :=
  n.whole ++ (fractionText n.fraction ++ exponentText n.exponent)

def Numeral.text (n : Numeral) : Bytes :=
  if n.negative then 0x2D :: n.unsigned else n.unsigned

/-- A significand times `10 ^ start`, with an exponent on top; none if that is infinite. An exponent
beyond 31 bits leaves zero, or infinity where it is up from a significand that is not zero. -/
def scaled? (positive : Bool) (significand : ℕ) (start : ℤ) : Option Exponent → Option JsonNumber
  | none => (real? positive significand start).map .real
  | some e =>
    let k := decimal e.digits
    if k < pow2 31 then
      (real? positive significand (if e.up then start + k else start - k)).map .real
    else if significand ≠ 0 ∧ e.up then none
    else some (.real ⟨!positive, 0, Binary64.minExponent⟩)

/-- The number that a numeral denotes; none if it is infinite. Digits that take the significand out
of 64 bits count as places only. -/
def Numeral.value? (n : Numeral) : Option JsonNumber :=
  let (s, k) := absorb 0 n.whole
  let dropped := n.whole.length - k
  match n.fraction, n.exponent with
  | none, none =>
    if dropped = 0 then some (Json.whole (!n.negative) s) else scaled? (!n.negative) s dropped none
  | none, some e => scaled? (!n.negative) s dropped (some e)
  | some ds, e =>
    let (s, k) := absorb s ds
    scaled? (!n.negative) s (dropped - k) e

def Blanks (bs : Bytes) : Prop := ∀ b ∈ bs, isBlank b = true

inductive Scalar : Bytes → Json → Prop
  | nullWord : Scalar [0x6E, 0x75, 0x6C, 0x6C] .null
  | trueWord : Scalar [0x74, 0x72, 0x75, 0x65] (.bool true)
  | falseWord : Scalar [0x66, 0x61, 0x6C, 0x73, 0x65] (.bool false)
  | number {n : Numeral} {v : JsonNumber} (h : n.value? = some v) : Scalar n.text (.number v)
  | string {bs : Bytes} {s : String} (h : StringText bs s) : Scalar bs (.string s)

section
variable {α : Type} (E : Bytes → α → Prop) (V : Bytes → Json → Prop)

inductive Padded : Bytes → α → Prop
  | blanks {before core after : Bytes} {a : α} (hb : Blanks before) (h : E core a)
      (ha : Blanks after) : Padded (before ++ (core ++ after)) a

inductive Separated : Bytes → List α → Prop
  | one {bs : Bytes} {a : α} (h : Padded E bs a) : Separated bs [a]
  | more {bs bs' : Bytes} {a : α} {as : List α} (h : Padded E bs a) (hs : Separated bs' as) :
      Separated (bs ++ 0x2C :: bs') (a :: as)

inductive Listed : Bytes → List α → Prop
  | none {bs : Bytes} (h : Blanks bs) : Listed bs []
  | some {bs : Bytes} {as : List α} (h : Separated E bs as) : Listed bs as

inductive Member : Bytes → String × Json → Prop
  | pair {n before after v : Bytes} {name : String} {j : Json} (hn : StringText n name)
      (hb : Blanks before) (ha : Blanks after) (hv : V v j) :
      Member (n ++ (before ++ 0x3A :: (after ++ v))) (name, j)

inductive ArrayText : Bytes → List Json → Prop
  | brackets {bs : Bytes} {js : List Json} (h : Listed V bs js) :
      ArrayText (0x5B :: (bs ++ [0x5D])) js

/-- An object with its members in the order of the text, each as often as it stands there. -/
inductive ObjectText : Bytes → List (String × Json) → Prop
  | braces {bs : Bytes} {ms : List (String × Json)} (h : Listed (Member V) bs ms) :
      ObjectText (0x7B :: (bs ++ [0x7D])) ms

end

def insertMembers (found ms : List (String × Json)) : List (String × Json) :=
  ms.foldl (fun found m => insertMember m.1 m.2 found) found

/-- A value with brackets nested at most so deep. -/
def Value : ℕ → Bytes → Json → Prop
  | 0, bs, j => Scalar bs j
  | depth + 1, bs, j =>
    Scalar bs j ∨ (∃ js, ArrayText (Value depth) bs js ∧ j = .array js) ∨
      ∃ ms, ObjectText (Value depth) bs ms ∧ j = .object (insertMembers [] ms)

end NodeConfig.Json
