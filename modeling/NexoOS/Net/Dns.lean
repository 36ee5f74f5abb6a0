import NexoOS.Net.Tcp

/-!
# Names

`dns_query` and `dns_parse_payload` of the network library: which names can be
asked for, and what an answer says.
-/

namespace NexoOS.Net

open Tcp (Ipv4Addr)

/-- The labels of a name, or nothing if it cannot be asked for. -/
def dnsLabels (name : List UInt8) : Option (List (List UInt8)) :=
  if name = [] ∨ 253 < name.length then none
  else
    let labels := name.splitOn 0x2e
    if labels.any fun l => l.isEmpty || 63 < l.length then none else some labels

structure DnsAnswer where
  rcode : UInt8
  answers : Nat
  a : Option Ipv4Addr
  deriving DecidableEq

/-- Byte `i` of a message, which has it. -/
def byteAt (d : List UInt8) (i : Nat) : UInt8 := d.getD i 0

def be16 (d : List UInt8) (i : Nat) : Nat := (byteAt d i).toNat * 256 + (byteAt d (i + 1)).toNat

/-- Skips the labels of a name or a pointer; `none` after more than 64 labels. -/
def skipName (d : List UInt8) : Nat → Nat → Option Nat
  | 0, _ => none
  | hops + 1, o =>
    if o < d.length ∧ byteAt d o ≠ 0 then
      if byteAt d o &&& 0xc0 = 0xc0 then some (o + 1)
      else if hops = 0 then none
      else skipName d hops (o + 1 + (byteAt d o).toNat)
    else some o

/-- The `hops` counter of the source lets 64 labels pass. -/
def nameHops : Nat := 65

def skipQuestions (d : List UInt8) : Nat → Nat → Option Nat
  | 0, o => some o
  | n + 1, o =>
    match skipName d nameHops o with
    | none => none
    | some o => skipQuestions d n (o + 1 + 4)

/-- The first address among the answers; a record that is cut off ends them. -/
def firstAddr (d : List UInt8) : Nat → Nat → Option Ipv4Addr → Option (Option Ipv4Addr)
  | 0, _, a => some a
  | n + 1, o, a =>
    if d.length ≤ o then some a
    else
      match skipName d nameHops o with
      | none => none
      | some o =>
        let o := o + 1
        if d.length < o + 10 then some a
        else
          let rdlen := be16 d (o + 8)
          let ro := o + 10
          if d.length < ro + rdlen then some a
          else
            let a := if be16 d o = 1 ∧ rdlen = 4 ∧ a.isNone then
                some #v[byteAt d ro, byteAt d (ro + 1), byteAt d (ro + 2), byteAt d (ro + 3)]
              else a
            firstAddr d n (ro + rdlen) a

def dnsParsePayload (d : List UInt8) (id : UInt16) : Option DnsAnswer :=
  if d.length < 12 then none
  else if be16 d 0 ≠ id.toNat ∨ byteAt d 2 &&& 0x80 = 0 then none
  else
    let answers := be16 d 6
    match skipQuestions d (be16 d 4) 12 with
    | none => none
    | some o =>
      match firstAddr d answers o none with
      | none => none
      | some a => some { rcode := byteAt d 3 &&& 0xf, answers, a }

end NexoOS.Net
