/-!
# Bytes and characters

Files are lists of bytes; everything that reads a file reads characters.  This module holds both
directions.

## What is here

* `Glyph` — one character together with the number of bytes it was read from.
* `decode` — reads any bytes: a sequence that is not UTF-8 becomes one replacement character for
  each maximal part that could still have begun a character.
* `decode?` — reads well-formed UTF-8 only.
* `encode` — writes characters as UTF-8.

The widths of the glyphs of a text add up to its length in bytes (`bytesIn_decode`), so an
offset in glyphs and an offset in bytes determine each other.
-/

set_option autoImplicit false

namespace NodeSchema
namespace Text

/-- One character as read, and how many bytes it took. -/
structure Glyph where
  char : Char
  width : Nat
deriving DecidableEq, Repr

/-- What stands for bytes that are not UTF-8. -/
def replacement : Char := Char.ofNat 0xFFFD

/-- The reading of the bytes at the front of a list. -/
inductive Reading
  /-- A well-formed sequence of `width` bytes. -/
  | scalar (c : Char) (width : Nat)
  /-- `width` bytes that begin no character, or begin one that is not continued. -/
  | broken (width : Nat)
deriving DecidableEq, Repr

/-! ## Reading one character -/

/-- A byte that may follow the first byte of a longer sequence. -/
def isContinuation (b : Nat) : Bool := 0x80 ≤ b && b < 0xC0

/-- The second bytes that may follow a first byte of a three-byte sequence: overlong forms and
surrogates are left out. -/
def secondOfThree (first second : Nat) : Bool :=
  if first = 0xE0 then 0xA0 ≤ second && second < 0xC0
  else if first = 0xED then 0x80 ≤ second && second < 0xA0
  else isContinuation second

/-- The second bytes that may follow a first byte of a four-byte sequence: overlong forms and
values past the last code point are left out. -/
def secondOfFour (first second : Nat) : Bool :=
  if first = 0xF0 then 0x90 ≤ second && second < 0xC0
  else if first = 0xF4 then 0x80 ≤ second && second < 0x90
  else isContinuation second

/-- Reads the character that begins with `b`, followed by `rest`. -/
def readOne (b : UInt8) (rest : List UInt8) : Reading :=
  let b0 := b.toNat
  if b0 < 0x80 then .scalar (Char.ofNat b0) 1
  else if b0 < 0xC2 then .broken 1
  else if b0 < 0xE0 then
    match rest with
    | c1 :: _ =>
      if isContinuation c1.toNat then
        .scalar (Char.ofNat ((b0 - 0xC0) * 64 + (c1.toNat - 0x80))) 2
      else .broken 1
    | [] => .broken 1
  else if b0 < 0xF0 then
    match rest with
    | c1 :: rest' =>
      if secondOfThree b0 c1.toNat then
        match rest' with
        | c2 :: _ =>
          if isContinuation c2.toNat then
            .scalar (Char.ofNat
              ((b0 - 0xE0) * 4096 + (c1.toNat - 0x80) * 64 + (c2.toNat - 0x80))) 3
          else .broken 2
        | [] => .broken 2
      else .broken 1
    | [] => .broken 1
  else if b0 < 0xF5 then
    match rest with
    | c1 :: rest' =>
      if secondOfFour b0 c1.toNat then
        match rest' with
        | c2 :: rest'' =>
          if isContinuation c2.toNat then
            match rest'' with
            | c3 :: _ =>
              if isContinuation c3.toNat then
                .scalar (Char.ofNat
                  ((b0 - 0xF0) * 262144 + (c1.toNat - 0x80) * 4096 + (c2.toNat - 0x80) * 64
                    + (c3.toNat - 0x80))) 4
              else .broken 3
            | [] => .broken 3
          else .broken 2
        | [] => .broken 2
      else .broken 1
    | [] => .broken 1
  else .broken 1

/-- How many bytes a reading consumes. -/
def Reading.width : Reading → Nat
  | .scalar _ n => n
  | .broken n => n

/-- The glyph a reading stands for. -/
def Reading.glyph : Reading → Glyph
  | .scalar c n => ⟨c, n⟩
  | .broken n => ⟨replacement, n⟩

/-- A reading consumes at least its first byte and none that is not there. -/
theorem readOne_width (b : UInt8) (rest : List UInt8) :
    1 ≤ (readOne b rest).width ∧ (readOne b rest).width ≤ rest.length + 1 := by
  simp only [readOne]
  repeat' split
  all_goals simp [Reading.width]

/-! ## Whole texts -/

/-- Reads bytes, first passing over the `skip` bytes that belong to the character before. -/
def decodeAfter : Nat → List UInt8 → List Glyph
  | _, [] => []
  | skip + 1, _ :: rest => decodeAfter skip rest
  | 0, b :: rest =>
    let r := readOne b rest
    r.glyph :: decodeAfter (r.width - 1) rest

/-- Reads any bytes as text. -/
def decode (bytes : List UInt8) : List Glyph := decodeAfter 0 bytes

/-- Reads well-formed bytes, first passing over the `skip` bytes of the character before. -/
def decodeAfter? : Nat → List UInt8 → Option (List Char)
  | _, [] => some []
  | skip + 1, _ :: rest => decodeAfter? skip rest
  | 0, b :: rest =>
    match readOne b rest with
    | .scalar c n => (decodeAfter? (n - 1) rest).map (c :: ·)
    | .broken _ => none

/-- Reads bytes that are well-formed UTF-8, and refuses all others. -/
def decode? (bytes : List UInt8) : Option (List Char) := decodeAfter? 0 bytes

/-- The characters of any bytes. -/
def chars (bytes : List UInt8) : List Char := (decode bytes).map Glyph.char

/-- The bytes of one character. -/
def encodeChar (c : Char) : List UInt8 :=
  let n := c.toNat
  if n < 0x80 then [UInt8.ofNat n]
  else if n < 0x800 then [UInt8.ofNat (0xC0 + n / 64), UInt8.ofNat (0x80 + n % 64)]
  else if n < 0x10000 then
    [UInt8.ofNat (0xE0 + n / 4096), UInt8.ofNat (0x80 + n / 64 % 64), UInt8.ofNat (0x80 + n % 64)]
  else
    [UInt8.ofNat (0xF0 + n / 262144), UInt8.ofNat (0x80 + n / 4096 % 64),
      UInt8.ofNat (0x80 + n / 64 % 64), UInt8.ofNat (0x80 + n % 64)]

/-- The bytes of a text. -/
def encode (cs : List Char) : List UInt8 := cs.flatMap encodeChar

/-- The bytes of a string. -/
def bytesOf (s : String) : List UInt8 := encode s.toList

/-- Any bytes as a string. -/
def stringOf (bytes : List UInt8) : String := String.ofList (chars bytes)

/-! ## Widths -/

/-- How many bytes glyphs were read from. -/
def bytesIn (gs : List Glyph) : Nat := gs.foldr (fun g n => g.width + n) 0

theorem bytesIn_decodeAfter (bytes : List UInt8) : ∀ skip,
    bytesIn (decodeAfter skip bytes) = bytes.length - skip := by
  induction bytes with
  | nil => intro skip; simp [decodeAfter, bytesIn]
  | cons b rest ih =>
    intro skip
    cases skip with
    | succ skip => simp [decodeAfter, ih]
    | zero =>
      have h := readOne_width b rest
      have hg : ∀ r : Reading, r.glyph.width = r.width := by intro r; cases r <;> rfl
      have hrest := ih ((readOne b rest).width - 1)
      rw [bytesIn] at hrest
      simp only [decodeAfter, bytesIn, List.foldr_cons, hrest, hg, List.length_cons]
      omega

/-- The widths of the glyphs of a text add up to its bytes. -/
theorem bytesIn_decode (bytes : List UInt8) : bytesIn (decode bytes) = bytes.length :=
  bytesIn_decodeAfter bytes 0

end Text
end NodeSchema
