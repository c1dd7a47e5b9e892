import CodeGauge.Text.Basic

/-!
# Texts as bytes

Texts are kept as bytes in UTF-8. Not all bytes are those of a text, but all of them can be shown as
one: where a character breaks off or none can start, a mark stands in for the bytes that are lost.
-/

namespace CodeGauge

/-- Bytes one after the other. -/
abbrev Bytes := List UInt8

/-- The bytes of a text in UTF-8. -/
def Text.utf8 (t : Text) : Bytes := t.flatMap String.utf8EncodeChar

/-- The bytes of a literal in UTF-8. -/
def utf8 (s : String) : Bytes := Text.utf8 s.toList

namespace Bytes

/-- Lexicographic order. -/
def le : Bytes → Bytes → Bool
  | [], _ => true
  | _ :: _, [] => false
  | a :: as, b :: bs => a.toNat < b.toNat || (a == b && le as bs)

/-- The mark that stands in for bytes that are lost. -/
def mark : Char := Char.ofNat 0xfffd

/-- A character of which some bytes have been read. -/
structure Pending where
  /-- What these bytes say of its code point. -/
  code : Nat
  /-- The number of bytes that are still to come. -/
  missing : Nat
  /-- The range of the next one. -/
  least : Nat
  most : Nat

/-- What is shown of a byte where a character may start, and what is pending after it. -/
def first (b : UInt8) : Text × Option Pending :=
  let n := b.toNat
  if n < 0x80 then ([Char.ofNat n], none)
  else if n < 0xc2 then ([mark], none)
  else if n < 0xe0 then ([], some ⟨n - 0xc0, 1, 0x80, 0xbf⟩)
  else if n < 0xf0 then
    ([], some ⟨n - 0xe0, 2, if n = 0xe0 then 0xa0 else 0x80, if n = 0xed then 0x9f else 0xbf⟩)
  else if n < 0xf5 then
    ([], some ⟨n - 0xf0, 3, if n = 0xf0 then 0x90 else 0x80, if n = 0xf4 then 0x8f else 0xbf⟩)
  else ([mark], none)

/-- What is shown of a byte while a character is pending. A byte that is no part of it starts
anew. -/
def Pending.next (p : Pending) (b : UInt8) : Text × Option Pending :=
  let n := b.toNat
  if p.least ≤ n ∧ n ≤ p.most then
    let code := p.code * 64 + (n - 0x80)
    if p.missing ≤ 1 then ([Char.ofNat code], none)
    else ([], some ⟨code, p.missing - 1, 0x80, 0xbf⟩)
  else (mark :: (first b).1, (first b).2)

/-- What is shown of bytes, given what is pending before them. -/
def shownFrom : Option Pending → Bytes → Text
  | none, [] => []
  | some _, [] => [mark]
  | none, b :: rest => (first b).1 ++ shownFrom (first b).2 rest
  | some p, b :: rest => (p.next b).1 ++ shownFrom (p.next b).2 rest

/-- The text that bytes are shown as. -/
def shown (bytes : Bytes) : Text := shownFrom none bytes

/-- The text that bytes encode, if there is one. -/
def text? (bytes : Bytes) : Option Text :=
  if bytes.shown.utf8 = bytes then some bytes.shown else none

end Bytes

end CodeGauge
