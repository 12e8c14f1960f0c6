/-!
# UTF-8

Bytes are read as a sequence of *pieces*: characters, and maximal stretches that start like a
character and are broken off. A broken stretch ends just before the byte that cannot continue it,
and that byte is read afresh; a stretch broken off by the end of the input is incomplete.

Strict decoding reports the first broken piece. Lenient decoding puts a replacement character in
the place of each.
-/

namespace StackSynth.Utf8

/-- What bytes are made of. -/
inductive Piece where
  /-- A character, of `size` bytes. -/
  | char (c : Char) (size : Nat)
  /-- `size` bytes that no character continues. -/
  | broken (size : Nat)
  /-- `size` bytes at the end of the input that more bytes could complete. -/
  | incomplete (size : Nat)
  deriving DecidableEq, Repr

/-- Number of bytes of a piece. -/
def Piece.size : Piece → Nat
  | .char _ n | .broken n | .incomplete n => n

/-- A character of which some bytes have been read. -/
structure Pending where
  /-- Bits read so far. -/
  value : Nat
  /-- Bytes read so far. -/
  taken : Nat
  /-- Bytes still to come, at least one. -/
  missing : Nat
  /-- Range of the next byte. -/
  lo : Nat
  hi : Nat

/-- The state after a first byte of several. The range of the second byte keeps out surrogates,
code points past the last one, and spellings that are too long. -/
def Pending.ofLead (b : Nat) : Option Pending :=
  if 0xc2 ≤ b ∧ b ≤ 0xdf then some ⟨b - 0xc0, 1, 1, 0x80, 0xbf⟩
  else if b = 0xe0 then some ⟨0, 1, 2, 0xa0, 0xbf⟩
  else if b = 0xed then some ⟨0xd, 1, 2, 0x80, 0x9f⟩
  else if 0xe1 ≤ b ∧ b ≤ 0xef then some ⟨b - 0xe0, 1, 2, 0x80, 0xbf⟩
  else if b = 0xf0 then some ⟨0, 1, 3, 0x90, 0xbf⟩
  else if 0xf1 ≤ b ∧ b ≤ 0xf3 then some ⟨b - 0xf0, 1, 3, 0x80, 0xbf⟩
  else if b = 0xf4 then some ⟨4, 1, 3, 0x80, 0x8f⟩
  else none

/-- Reads a byte where a character may start. -/
def start (out : Array Piece) (b : Nat) : Array Piece × Option Pending :=
  if b < 0x80 then (out.push (.char (Char.ofNat b) 1), none)
  else match Pending.ofLead b with
    | some p => (out, some p)
    | none => (out.push (.broken 1), none)

/-- Reads one byte. -/
def step (out : Array Piece) (pending : Option Pending) (b : Nat) :
    Array Piece × Option Pending :=
  match pending with
  | none => start out b
  | some p =>
    if p.lo ≤ b ∧ b ≤ p.hi then
      let value := p.value * 64 + (b - 0x80)
      if p.missing ≤ 1 then (out.push (.char (Char.ofNat value) (p.taken + 1)), none)
      else (out, some ⟨value, p.taken + 1, p.missing - 1, 0x80, 0xbf⟩)
    else start (out.push (.broken p.taken)) b

/-- The pieces of a sequence of bytes. -/
def pieces (bytes : List UInt8) : List Piece :=
  let (out, pending) :=
    bytes.foldl (fun (out, pending) b => step out pending b.toNat) (#[], none)
  match pending with
  | some p => (out.push (.incomplete p.taken)).toList
  | none => out.toList

/-- Why bytes are not a text. -/
structure Error where
  /-- Number of bytes before the first piece that is no character. -/
  index : Nat
  /-- The size of that piece, or nothing if more bytes could complete it. -/
  size : Option Nat
  deriving DecidableEq, Repr

/-- The text of an error. -/
def Error.message (e : Error) : String :=
  match e.size with
  | some n => s!"invalid utf-8 sequence of {n} bytes from index {e.index}"
  | none => s!"incomplete utf-8 byte sequence from index {e.index}"

/-- The first piece that is no character, if there is one; `index` bytes come before. -/
def firstError (index : Nat) : List Piece → Option Error
  | [] => none
  | .char _ n :: rest => firstError (index + n) rest
  | .broken n :: _ => some ⟨index, some n⟩
  | .incomplete _ :: _ => some ⟨index, none⟩

/-- The character shown for a piece. -/
def Piece.shown : Piece → Char
  | .char c _ => c
  | .broken _ | .incomplete _ => Char.ofNat 0xfffd

/-- The text that bytes encode. -/
def decode (bytes : List UInt8) : Except Error String :=
  let all := pieces bytes
  match firstError 0 all with
  | some e => .error e
  | none => .ok (String.ofList (all.map Piece.shown))

/-- The text that bytes encode, with `U+FFFD` for each piece that is no character. -/
def decodeLenient (bytes : List UInt8) : String :=
  String.ofList ((pieces bytes).map Piece.shown)

/-- The bytes of a text. -/
def encode (text : String) : List UInt8 := text.toUTF8.data.toList

end StackSynth.Utf8
