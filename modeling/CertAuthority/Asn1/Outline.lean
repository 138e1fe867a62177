import CertAuthority.Bytes.Basic

/-!
# Outlines under the basic rules

The basic encoding rules leave a writer choices that the distinguished ones take away: a length may
be left open, and two zero octets end the element. This module steps over elements written so.

* `Outline.header?` : identifier octet and length of the next element;
* `Outline.skip?` : what follows the next element;
* `Outline.ended?` : what follows an element of the given length, or one left open, once its fields
  have been read.
-/

namespace CertAuthority.Outline

structure Header where
  tag : UInt8
  /-- Octets of the content; none if the length is left open -/
  length : Option Nat
deriving DecidableEq, Repr

/-- What follows the octets of a long tag number. -/
def afterLongTag? : Bytes → Option Bytes
  | [] => none
  | b :: bs => if b < 128 then some bs else afterLongTag? bs

def length? : Bytes → Option (Option Nat × Bytes)
  | [] => none
  | first :: b =>
    let size := first.toNat - 128
    if first < 128 then some (some first.toNat, b)
    else if size = 0 then some (none, b)
    else if size = 127 ∨ b.length < size ∨ bitLimit 64 ≤ Bytes.toNat (b.take size) then none
    else some (some (Bytes.toNat (b.take size)), b.drop size)

def header? : Bytes → Option (Header × Bytes)
  | [] => none
  | tag :: b => do
    let b ← if tag &&& 0x1f = 0x1f then afterLongTag? b else some b
    let (length, b) ← length? b
    return (⟨tag, length⟩, b)

/-- An element may leave its length open only if it holds others. -/
def isConstructed (h : Header) : Bool := h.tag &&& 0x20 != 0

/-- Steps over elements until `depth` open ones have ended and one more element is done. -/
def skipFrom? : Nat → Nat → Bytes → Option Bytes
  | 0, _, _ => none
  | fuel + 1, depth, b =>
    match header? b with
    | none => none
    | some (h, b) =>
      if h.tag = 0 then
        match h.length, depth with
        | some 0, 1 => some b
        | some 0, depth + 1 => skipFrom? fuel depth b
        | _, _ => none
      else
        match h.length with
        | none => if isConstructed h then skipFrom? fuel (depth + 1) b else none
        | some n =>
          if b.length < n then none
          else if depth = 0 then some (b.drop n)
          else skipFrom? fuel depth (b.drop n)

def skip? (b : Bytes) : Option Bytes := skipFrom? (b.length + 1) 0 b

/-- The rest, if it begins with the end that an open length needs. -/
def ended? (h : Header) (b : Bytes) : Option Bytes :=
  match h.length with
  | some _ => some b
  | none => Bytes.dropPrefix? [0, 0] b

end CertAuthority.Outline
