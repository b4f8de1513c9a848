import Mathlib.Data.List.Basic
import Mathlib.Data.Nat.Notation

/-!
# `Guard.Net` — addresses (`agent-guard/src/net.rs`)

Which addresses are on the public internet, and how the standard library reads an address with a port.
-/

namespace AgentRuntime.Guard

/-! ## Addresses -/

structure Ipv4Addr where
  a : UInt8
  b : UInt8
  c : UInt8
  d : UInt8
deriving DecidableEq

structure Ipv6Addr where
  segments : Vector UInt16 8
deriving DecidableEq

inductive IpAddr where
  | v4 (ip : Ipv4Addr)
  | v6 (ip : Ipv6Addr)
deriving DecidableEq

def Ipv4Addr.isUnspecified (ip : Ipv4Addr) : Bool := ip.a == 0 && ip.b == 0 && ip.c == 0 && ip.d == 0

def Ipv4Addr.isDocumentation (ip : Ipv4Addr) : Bool :=
  (ip.a == 192 && ip.b == 0 && ip.c == 2) || (ip.a == 198 && ip.b == 51 && ip.c == 100) ||
    (ip.a == 203 && ip.b == 0 && ip.c == 113)

def Ipv4Addr.isPrivate (ip : Ipv4Addr) : Bool :=
  ip.a == 10 || (ip.a == 172 && 16 ≤ ip.b && ip.b ≤ 31) || (ip.a == 192 && ip.b == 168)

def v4Public (ip : Ipv4Addr) : Bool :=
  !(ip.a == 127 || ip.isPrivate || (ip.a == 169 && ip.b == 254) ||
    (ip.a == 255 && ip.b == 255 && ip.c == 255 && ip.d == 255) || ip.isUnspecified || (224 ≤ ip.a && ip.a ≤ 239) ||
    ip.isDocumentation || ip.a == 0 || (ip.a == 100 && (ip.b &&& 0xc0) == 64) ||
    (ip.a == 192 && ip.b == 0 && ip.c == 0) || (ip.a == 192 && ip.b == 88 && ip.c == 99) ||
    (ip.a == 198 && (ip.b &&& 0xfe) == 18) || 240 ≤ ip.a)

def v4From (hi lo : UInt16) : Ipv4Addr where
  a := (hi >>> 8).toUInt8
  b := hi.toUInt8
  c := (lo >>> 8).toUInt8
  d := lo.toUInt8

def v6Public (ip : Ipv6Addr) : Bool :=
  let s := ip.segments
  -- an IPv4 address in the mapped form
  if s[0] == 0 && s[1] == 0 && s[2] == 0 && s[3] == 0 && s[4] == 0 && s[5] == 0xffff then v4Public (v4From s[6] s[7])
  -- NAT64
  else if s[0] == 0x64 && s[1] == 0xff9b && s[2] == 0 && s[3] == 0 && s[4] == 0 && s[5] == 0 then
    v4Public (v4From s[6] s[7])
  -- 6to4
  else if s[0] == 0x2002 then v4Public (v4From s[1] s[2])
  -- Teredo
  else if s[0] == 0x2001 && s[1] == 0 then false
  else
    (s[0] &&& 0xe000) == 0x2000 && !(s[0] == 0x2001 && s[1] == 0x0db8) && !(s[0] == 0x3fff && (s[1] &&& 0xf000) == 0) &&
      !(s[0] == 0x2001 && s[1] == 0x0002 && s[2] == 0) && !(s[0] == 0x2001 && (s[1] &&& 0xfff0) == 0x0010) &&
      !(s[0] == 0x2001 && (s[1] &&& 0xfff0) == 0x0020)

/-- True for an address on the public internet. -/
def isPublicIp : IpAddr → Bool
  | .v4 ip => v4Public ip
  | .v6 ip => v6Public ip

def IpAddr.isUnspecified : IpAddr → Bool
  | .v4 ip => ip.isUnspecified
  | .v6 ip => ip.segments.all (· == 0)

/-! ## Addresses with a port -/

structure SocketAddr where
  ip : IpAddr
  port : UInt16
  /-- Zero for an IPv4 address. -/
  scope : UInt32
deriving DecidableEq

namespace SocketAddr

/-- The value of a digit in a radix up to sixteen. -/
def digit? (radix : ℕ) (c : Char) : Option ℕ :=
  let n := c.toNat
  let value :=
    if 48 ≤ n ∧ n ≤ 57 then some (n - 48)
    else if 97 ≤ n ∧ n ≤ 102 then some (n - 87)
    else if 65 ≤ n ∧ n ≤ 70 then some (n - 55)
    else none
  value.filter fun v => v < radix

/-- A number below `bound`, of at most `maxDigits` digits when that is given. -/
def readNumber (radix bound : ℕ) (maxDigits : Option ℕ) (allowZeroPrefix : Bool) (s : List Char) :
    Option (ℕ × List Char) :=
  let digits := s.takeWhile fun c => (digit? radix c).isSome
  let value := (digits.filterMap (digit? radix)).foldl (fun n d => radix * n + d) 0
  if digits = [] ∨ maxDigits.any (· < digits.length) then none
  else if allowZeroPrefix = false ∧ digits.head? = some '0' ∧ 1 < digits.length then none
  else if bound ≤ value then none
  else some (value, s.drop digits.length)

def readChar (c : Char) : List Char → Option (List Char)
  | c' :: s => if c' = c then some s else none
  | [] => none

def readIpv4Addr (s : List Char) : Option (Ipv4Addr × List Char) := do
  let (a, s) ← readNumber 10 256 (some 3) false s
  let (b, s) ← readNumber 10 256 (some 3) false (← readChar '.' s)
  let (c, s) ← readNumber 10 256 (some 3) false (← readChar '.' s)
  let (d, s) ← readNumber 10 256 (some 3) false (← readChar '.' s)
  return (⟨a.toUInt8, b.toUInt8, c.toUInt8, d.toUInt8⟩, s)

/-- Up to `limit` groups from the `i`-th on: the groups, whether the last two are an IPv4 address, and the rest. -/
def readGroups (limit : ℕ) (i : ℕ) (s : List Char) : List UInt16 × Bool × List Char :=
  match limit with
  | 0 => ([], false, s)
  | limit + 1 =>
      let start := if i = 0 then some s else readChar ':' s
      match if limit = 0 then none else start.bind readIpv4Addr with
      | some (ip, rest) =>
          ([256 * ip.a.toUInt16 + ip.b.toUInt16, 256 * ip.c.toUInt16 + ip.d.toUInt16], true, rest)
      | none =>
          match start.bind (readNumber 16 65536 (some 4) true) with
          | some (group, rest) =>
              let (groups, v4, rest) := readGroups limit (i + 1) rest
              (group.toUInt16 :: groups, v4, rest)
          | none => ([], false, s)

/-- Eight groups: the head, zeros and the tail. -/
def ofGroups (head tail : List UInt16) : Ipv6Addr where
  segments := Vector.ofFn fun i =>
    if i.val < head.length then head.getD i.val 0 else if 8 ≤ i.val + tail.length then tail.getD (i.val + tail.length - 8) 0
    else 0

def readIpv6Addr (s : List Char) : Option (Ipv6Addr × List Char) :=
  let (head, v4, rest) := readGroups 8 0 s
  if head.length = 8 then some (ofGroups head [], rest)
  else if v4 then none
  else do
    let rest ← readChar ':' (← readChar ':' rest)
    let (tail, _, rest) := readGroups (8 - (head.length + 1)) 0 rest
    return (ofGroups head tail, rest)

def readPort (s : List Char) : Option (UInt16 × List Char) := do
  let (port, s) ← readNumber 10 65536 none true (← readChar ':' s)
  return (port.toUInt16, s)

/-- A scope, when there is one. -/
def readScopeId (s : List Char) : UInt32 × List Char :=
  match (readChar '%' s).bind (readNumber 10 4294967296 none true) with
  | some (scope, s) => (scope.toUInt32, s)
  | none => (0, s)

def readV4 (s : List Char) : Option (SocketAddr × List Char) := do
  let (ip, s) ← readIpv4Addr s
  let (port, s) ← readPort s
  return (⟨.v4 ip, port, 0⟩, s)

def readV6 (s : List Char) : Option (SocketAddr × List Char) := do
  let (ip, s) ← readIpv6Addr (← readChar '[' s)
  let (scope, s) := readScopeId s
  let (port, s) ← readPort (← readChar ']' s)
  return (⟨.v6 ip, port, scope⟩, s)

/-- `str::parse`. -/
def parse (s : String) : Option SocketAddr :=
  match (readV4 s.toList).orElse fun _ => readV6 s.toList with
  | some (addr, []) => some addr
  | _ => none

example : (parse "1.1.1.1:443").map (isPublicIp ·.ip) = some true ∧ parse "01.1.1.1:443" = none ∧
    (parse "[2606:4700::1111]:443").map (isPublicIp ·.ip) = some true ∧
    (parse "[::ffff:127.0.0.1]:80").map (isPublicIp ·.ip) = some false := by
  decide +kernel

end SocketAddr

end AgentRuntime.Guard
