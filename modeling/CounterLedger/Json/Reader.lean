/-
Reading JSON. A value is read from the front of a byte string and the rest is returned, so that a
whole document and the first value of a stream are the same reader with different demands on the
rest. The members of an object can also be read without their values, which are then kept as they are
written. Containers nest at most 10000 deep.
-/
import CounterLedger.Json.Basic
import CounterLedger.Text.Numeral

namespace CounterLedger.Json

/-- Space, tab, line feed and carriage return. -/
def isBlank (b : UInt8) : Bool := b = 0x20 || b = 0x09 || b = 0x0a || b = 0x0d

/-- The bytes after the blanks at the front. -/
def skipBlanks (s : Bytes) : Bytes := s.dropWhile isBlank

/-- How many containers may be open at once. -/
def maxDepth : Nat := 10000

/-! ## Numbers -/

/-- A run of digits, which may not be empty, and the rest. -/
def digits1 (s : Bytes) : Option (Bytes × Bytes) :=
  match s.takeWhile Numeral.isDigit with
  | [] => none
  | ds => some (ds, s.dropWhile Numeral.isDigit)

/-- The integer part: a single zero, or digits that do not start with one. -/
def integerPart : Bytes → Option (Bytes × Bytes)
  | 0x30 :: rest => some ([0x30], rest)
  | s => digits1 s

/-- The fraction, if a point follows. -/
def fraction : Bytes → Option (Bytes × Bytes)
  | 0x2e :: rest => (digits1 rest).map fun (ds, r) => (0x2e :: ds, r)
  | s => some ([], s)

/-- The sign of an exponent, if there is one. -/
def exponentSign : Bytes → Bytes × Bytes
  | b :: rest => if b = 0x2b || b = 0x2d then ([b], rest) else ([], b :: rest)
  | [] => ([], [])

/-- The exponent, if its letter follows. -/
def exponent : Bytes → Option (Bytes × Bytes)
  | e :: rest =>
    if e = 0x65 || e = 0x45 then
      let (sign, r) := exponentSign rest
      (digits1 r).map fun (ds, r') => (e :: (sign ++ ds), r')
    else some ([], e :: rest)
  | [] => some ([], [])

/-- The minus sign, if there is one. -/
def minusSign : Bytes → Bytes × Bytes
  | 0x2d :: rest => ([0x2d], rest)
  | s => ([], s)

/-- The longest number at the front, as it is written. -/
def numeral (s : Bytes) : Option (Bytes × Bytes) := do
  let (sign, s₁) := minusSign s
  let (int, s₂) ← integerPart s₁
  let (frac, s₃) ← fraction s₂
  let (exp, s₄) ← exponent s₃
  some (sign ++ (int ++ (frac ++ exp)), s₄)

/-! ## Strings -/

/-- A part of a written string: a byte that stands for itself, or an escaped 16-bit unit. -/
inductive Mark where
  | byte (b : UInt8)
  | unit (u : Nat)

/-- The byte named by the letter of a short escape. -/
def shortEscape (b : UInt8) : Option UInt8 :=
  match b with
  | 0x22 => some 0x22
  | 0x5c => some 0x5c
  | 0x2f => some 0x2f
  | 0x62 => some 0x08
  | 0x66 => some 0x0c
  | 0x6e => some 0x0a
  | 0x72 => some 0x0d
  | 0x74 => some 0x09
  | _ => none

/-- The value of a hexadecimal digit. -/
def hexValue (b : UInt8) : Option Nat :=
  (Numeral.digitValue b).filter (· < 16)

/-- The unit written by four hexadecimal digits. -/
def hexUnit (a b c d : UInt8) : Option Nat := do
  let a ← hexValue a
  let b ← hexValue b
  let c ← hexValue c
  let d ← hexValue d
  some (((a * 16 + b) * 16 + c) * 16 + d)

/-- The marks of a string up to its closing quote, and the rest after the quote. -/
def marks (acc : List Mark) : Bytes → Option (List Mark × Bytes)
  | [] => none
  | b :: rest =>
    if b = 0x22 then some (acc.reverse, rest)
    else if b = 0x5c then
      match rest with
      | [] => none
      | e :: rest₁ =>
        match shortEscape e with
        | some c => marks (.byte c :: acc) rest₁
        | none =>
          if e = 0x75 then
            match rest₁ with
            | h₁ :: h₂ :: h₃ :: h₄ :: rest₂ =>
              match hexUnit h₁ h₂ h₃ h₄ with
              | some u => marks (.unit u :: acc) rest₂
              | none => none
            | _ => none
          else none
    else if b < 0x20 then none
    else marks (.byte b :: acc) rest

/-- A unit that starts a surrogate pair. -/
def isHighSurrogate (u : Nat) : Bool := 0xd800 ≤ u && u < 0xdc00

/-- A unit that ends a surrogate pair. -/
def isLowSurrogate (u : Nat) : Bool := 0xdc00 ≤ u && u < 0xe000

/-- The code points of the units: a pair of surrogates is one, a lone surrogate is U+FFFD. The
first argument is a surrogate that waits for its second half. -/
def spelled (waiting : Option Nat) (acc : List Bytes) : List Mark → Bytes
  | [] => ((lone waiting) ++ acc).reverse.flatten
  | .byte b :: rest => spelled none ([b] :: (lone waiting ++ acc)) rest
  | .unit u :: rest =>
    match waiting with
    | some h =>
      if isLowSurrogate u then
        spelled none (encode (0x10000 + (h - 0xd800) * 1024 + (u - 0xdc00)) :: acc) rest
      else if isHighSurrogate u then spelled (some u) (encode 0xfffd :: acc) rest
      else spelled none (encode u :: encode 0xfffd :: acc) rest
    | none =>
      if isHighSurrogate u then spelled (some u) acc rest
      else if isLowSurrogate u then spelled none (encode 0xfffd :: acc) rest
      else spelled none (encode u :: acc) rest
where
  encode (n : Nat) : Bytes := String.utf8EncodeChar (Char.ofNat n)
  lone : Option Nat → List Bytes
    | some _ => [encode 0xfffd]
    | none => []

/-- The decoded text of a string whose opening quote has been read, and the rest. -/
def stringTail (s : Bytes) : Option (Bytes × Bytes) :=
  (marks [] s).map fun (ms, rest) => (Utf8.repair (spelled none [] ms), rest)

/-! ## Values -/

/-- Reads a fixed word. -/
def word (w : Bytes) (v : Json) (s : Bytes) : Option (Json × Bytes) :=
  if w.isPrefixOf s then some (v, s.drop w.length) else none

/-- The items of an array after its bracket, each read by `item`; at most `n` of them. -/
def items (item : Bytes → Option (Json × Bytes)) : Nat → List Json → Bytes → Option (List Json × Bytes)
  | 0, _, _ => none
  | n + 1, acc, s =>
    match item s with
    | none => none
    | some (v, rest) =>
      match skipBlanks rest with
      | 0x2c :: rest₁ => items item n (v :: acc) rest₁
      | 0x5d :: rest₁ => some ((v :: acc).reverse, rest₁)
      | _ => none

/-- A name and the colon after it. -/
def name (s : Bytes) : Option (Bytes × Bytes) :=
  match skipBlanks s with
  | 0x22 :: rest =>
    match stringTail rest with
    | none => none
    | some (text, rest₁) =>
      match skipBlanks rest₁ with
      | 0x3a :: rest₂ => some (text, rest₂)
      | _ => none
  | _ => none

/-- The members of an object after its brace, each value read by `item`; at most `n` of them. -/
def members {α : Type} (item : Bytes → Option (α × Bytes)) :
    Nat → List (Bytes × α) → Bytes → Option (List (Bytes × α) × Bytes)
  | 0, _, _ => none
  | n + 1, acc, s =>
    match name s with
    | none => none
    | some (key, rest) =>
      match item rest with
      | none => none
      | some (v, rest₁) =>
        match skipBlanks rest₁ with
        | 0x2c :: rest₂ => members item n ((key, v) :: acc) rest₂
        | 0x7d :: rest₂ => some (((key, v) :: acc).reverse, rest₂)
        | _ => none

/-- The rest of an array after its opening bracket, with at most `n` items. -/
def arrayTail (item : Bytes → Option (Json × Bytes)) (n : Nat) (s : Bytes) : Option (Json × Bytes) :=
  match skipBlanks s with
  | 0x5d :: rest => some (.array [], rest)
  | s₁ => (items item n [] s₁).map fun (vs, rest) => (.array vs, rest)

/-- The members of an object after its opening brace, at most `n`, and what follows the object. -/
def objectMembers {α : Type} (item : Bytes → Option (α × Bytes)) (n : Nat) (s : Bytes) :
    Option (List (Bytes × α) × Bytes) :=
  match skipBlanks s with
  | 0x7d :: rest => some ([], rest)
  | s₁ => members item n [] s₁

/-- The rest of an object after its opening brace, with at most `n` members. -/
def objectTail (item : Bytes → Option (Json × Bytes)) (n : Nat) (s : Bytes) : Option (Json × Bytes) :=
  (objectMembers item n s).map fun (ms, rest) => (.object ms, rest)

/-- A value that is no container. -/
def scalar : Bytes → Option (Json × Bytes)
  | 0x22 :: rest => (stringTail rest).map fun (text, r) => (.string text, r)
  | 0x74 :: rest => word (utf8 "rue") (.bool true) rest
  | 0x66 :: rest => word (utf8 "alse") (.bool false) rest
  | 0x6e :: rest => word (utf8 "ull") .null rest
  | s => (numeral s).map fun (lit, r) => (.number lit, r)

/-- Reads the value at the front. At most `room` containers are open at once, and none has more
than `n` items; a text of `n` bytes cannot hold more. -/
def value (n : Nat) (room : Nat) (s : Bytes) : Option (Json × Bytes) :=
  match skipBlanks s with
  | 0x5b :: rest =>
    match room with
    | 0 => none
    | room + 1 => arrayTail (value n room) n rest
  | 0x7b :: rest =>
    match room with
    | 0 => none
    | room + 1 => objectTail (value n room) n rest
  | s₁ => scalar s₁

/-- The first value of a stream and what follows it. -/
def first (s : Bytes) : Option (Json × Bytes) := value s.length maxDepth s

/-- The value of a document that holds nothing else but blanks. -/
def document (s : Bytes) : Option Json :=
  match first s with
  | some (v, rest) => if skipBlanks rest = [] then some v else none
  | none => none

/-! ## Values as they are written -/

/-- The place of a value in a text: the text from the value on, and what follows the value. -/
structure Span where
  start : Bytes
  rest : Bytes

/-- The value as it is written there. -/
def Span.text (w : Span) : Bytes := w.start.take (w.start.length - w.rest.length)

/-- The place of the value at the front, without the blanks around it, and what follows it. -/
def written (n : Nat) (room : Nat) (s : Bytes) : Option (Span × Bytes) :=
  (value n room s).map fun (_, rest) => (⟨skipBlanks s, rest⟩, rest)

/-- The members of a document that is an object, each with the place of its value. -/
def writtenMembers (s : Bytes) : List (Bytes × Span) :=
  match skipBlanks s with
  | 0x7b :: rest => ((objectMembers (written s.length (maxDepth - 1)) s.length rest).map Prod.fst).getD []
  | _ => []

end CounterLedger.Json
