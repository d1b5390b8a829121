import AgenticPlatform.Streams.Emitter

/-! UTF-8 decoding one byte at a time: a decoder keeps the sequence it is in between two bytes, so
that it does not matter where a stream of bytes is cut. Invalid bytes are replaced, and a byte order
mark at the start is dropped. -/
namespace Streams
open Emitter

structure Decoder where
  /-- How many bytes the sequence still misses. -/
  missing : Nat
  lower : Nat
  upper : Nat
  codePoint : Nat
  bomSeen : Bool

namespace Decoder

/-- No sequence is open. -/
def between (bomSeen : Bool) : Decoder := ⟨0, 0x80, 0xBF, 0, bomSeen⟩

/-- A new decoder. -/
def fresh : Decoder := between false

def replacement : Char := '\uFFFD'

/-- The bytes that the first one of a sequence asks for, or its character. -/
def lead (bomSeen : Bool) (b : Nat) : Decoder × List Char :=
  if b < 0x80 then (between bomSeen, [Char.ofNat b])
  else if 0xC2 ≤ b ∧ b ≤ 0xDF then (⟨1, 0x80, 0xBF, b - 0xC0, bomSeen⟩, [])
  else if 0xE0 ≤ b ∧ b ≤ 0xEF then
    (⟨2, if b = 0xE0 then 0xA0 else 0x80, if b = 0xED then 0x9F else 0xBF, b - 0xE0, bomSeen⟩, [])
  else if 0xF0 ≤ b ∧ b ≤ 0xF4 then
    (⟨3, if b = 0xF0 then 0x90 else 0x80, if b = 0xF4 then 0x8F else 0xBF, b - 0xF0, bomSeen⟩, [])
  else (between bomSeen, [replacement])

/-- The characters that a byte completes. -/
def complete (d : Decoder) (b : Nat) : Decoder × List Char :=
  if d.missing = 0 then lead d.bomSeen b
  else if d.lower ≤ b ∧ b ≤ d.upper then
    let codePoint := d.codePoint * 64 + (b - 0x80)
    if d.missing = 1 then (between d.bomSeen, [Char.ofNat codePoint])
    else (⟨d.missing - 1, 0x80, 0xBF, codePoint, d.bomSeen⟩, [])
  else ((lead d.bomSeen b).1, replacement :: (lead d.bomSeen b).2)

/-- The first character of a stream is dropped if it is the byte order mark. -/
def deliver (made : Decoder × List Char) : Decoder × List Char :=
  match made.2 with
  | [] => made
  | c :: rest =>
      if made.1.bomSeen then made
      else ({ made.1 with bomSeen := true }, if c = '\uFEFF' then rest else c :: rest)

def decodeByte (b : UInt8) : Emitter Decoder Char := fun d => deliver (complete d b.toNat)

end Decoder

/-- `decoder.decode(chunk, { stream: true })`. -/
def decode : List UInt8 → Emitter Decoder Char := each Decoder.decodeByte

/-- The bytes of a text. -/
def utf8 (cs : List Char) : List UInt8 := cs.flatMap String.utf8EncodeChar

theorem utf8EncodeChar_ascii {c : Char} (ascii : c.toNat < 128) :
    String.utf8EncodeChar c = [UInt8.ofNat c.toNat] := by
  have small : c.val.toNat ≤ 127 := Nat.le_of_lt_succ ascii
  simp only [String.utf8EncodeChar, small, if_true]
  rfl

theorem decodeByte_ascii {c : Char} (ascii : c.toNat < 128) (bomSeen : Bool) :
    Decoder.decodeByte (UInt8.ofNat c.toNat) (.between bomSeen) = (.between true, [c]) := by
  have small : (UInt8.ofNat c.toNat).toNat = c.toNat :=
    UInt8.toNat_ofNat_of_lt' (Nat.lt_trans ascii (by decide))
  have ordinary : c ≠ '\uFEFF' := by
    rintro rfl
    exact absurd ascii (by decide)
  simp only [Decoder.decodeByte, small, Decoder.complete, Decoder.between, if_true,
    Decoder.lead, ascii, Decoder.deliver, Char.ofNat_toNat, ordinary, if_false]
  cases bomSeen
  · rfl
  · rfl

/-- ASCII text is decoded from its bytes, and no sequence is left open. -/
theorem decode_ascii {cs : List Char} (ascii : ∀ c ∈ cs, c.toNat < 128) (bomSeen : Bool) :
    ∃ seen, decode (utf8 cs) (.between bomSeen) = (.between seen, cs) := by
  induction cs generalizing bomSeen with
  | nil => exact ⟨bomSeen, rfl⟩
  | cons c rest ih =>
      obtain ⟨seen, later⟩ := ih (fun d member => ascii d (List.mem_cons_of_mem c member)) true
      refine ⟨seen, ?_⟩
      have first := decodeByte_ascii (ascii c List.mem_cons_self) bomSeen
      rw [utf8, List.flatMap_cons, utf8EncodeChar_ascii (ascii c List.mem_cons_self),
        List.singleton_append]
      simp only [decode, each, andThen, first]
      rw [show each Decoder.decodeByte (rest.flatMap String.utf8EncodeChar)
        (.between true) = _ from later]
      rfl

/-- Chunks are decoded as their concatenation. -/
theorem decode_append {xs ys : List UInt8} : decode (xs ++ ys) = (decode xs).andThen
    (decode ys) := each_append

end Streams
