import Reaper.Text.Digits

/-!
Socket addresses: `1.2.3.4:80` and `[::1]:80`.

Octets are decimal without leading zeros; groups have up to four hexadecimal digits; one run of groups may be left out
between two colons, and the last two groups may be written as four octets. A group address may name its scope after a
percent sign. The number after the colon may have leading zeros.
-/

namespace Reaper.SocketAddress

def hexValue? (c : Char) : Option Nat :=
  if Text.isDigit c then some (c.toNat - 48)
  else if 'a' ≤ c ∧ c ≤ 'f' then some (c.toNat - 87)
  else if 'A' ≤ c ∧ c ≤ 'F' then some (c.toNat - 55)
  else none

/-- A decimal number up to a limit; leading zeros only where they are allowed. -/
def decimal? (limit : Nat) (zeros : Bool) (cs : List Char) : Option (Nat × List Char) :=
  let ds := cs.takeWhile Text.isDigit
  let n := Text.digitsOnto 0 ds
  if ds.isEmpty || limit < n || (!zeros && 1 < ds.length && ds.head? == some '0') then none
  else some (n, cs.drop ds.length)

def after? (c : Char) : List Char → Option (List Char)
  | d :: rest => if d = c then some rest else none
  | [] => none

/-- An octet of at most three digits. -/
def octet? (cs : List Char) : Option (List Char) :=
  if 3 < (cs.takeWhile Text.isDigit).length then none
  else (decimal? 255 false cs).map (·.2)

def octets? (cs : List Char) : Option (List Char) := do
  let cs ← octet? cs
  let cs ← octet? (← after? '.' cs)
  let cs ← octet? (← after? '.' cs)
  octet? (← after? '.' cs)

/-- A group of one to four hexadecimal digits. -/
def group? (cs : List Char) : Option (List Char) :=
  let ds := cs.takeWhile (hexValue? · |>.isSome)
  if ds.isEmpty || 4 < ds.length then none else some (cs.drop ds.length)

/-- Reads up to `limit` groups; `count` of them have been read. Gives how many were read, whether the last two were
octets, and the rest. -/
def groups (limit : Nat) : Nat → Nat → List Char → Nat × Bool × List Char
  | 0, count, cs => (count, false, cs)
  | fuel + 1, count, cs =>
    if limit ≤ count then (count, false, cs)
    else
      let start := if count = 0 then some cs else after? ':' cs
      let four := if count + 1 < limit then start.bind octets? else none
      match four with
      | some rest => (count + 2, true, rest)
      | none =>
        match start.bind group? with
        | some rest => groups limit fuel (count + 1) rest
        | none => (count, false, cs)

def groupAddress? (cs : List Char) : Option (List Char) :=
  let (head, withOctets, rest) := groups 8 8 0 cs
  if head = 8 then some rest
  else if withOctets then none
  else
    match rest with
    | ':' :: ':' :: more => some (groups (7 - head) 8 0 more).2.2
    | _ => none

/-- A colon and the number after it. -/
def portNumber? (cs : List Char) : Option (List Char) := do
  let cs ← after? ':' cs
  let (_, rest) ← decimal? 65535 true cs
  some rest

/-- The scope of a group address, which may be missing. -/
def scope (cs : List Char) : List Char :=
  match cs with
  | '%' :: rest => ((decimal? (UInt32.size - 1) true rest).map (·.2)).getD cs
  | _ => cs

/-- Octets, or groups in brackets, with a colon and a number after them. -/
def rest? (cs : List Char) : Option (List Char) :=
  match octets? cs with
  | some rest => portNumber? rest
  | none => do
    let cs ← groupAddress? (← after? '[' cs)
    portNumber? (← after? ']' (scope cs))

/-- Whether a text is a socket address. -/
def isValid (s : String) : Bool := rest? s.toList == some []

end Reaper.SocketAddress
