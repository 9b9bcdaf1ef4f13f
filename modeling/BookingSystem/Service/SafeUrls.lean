import Mathlib.Data.List.Basic
import Mathlib.Data.Nat.Notation
import Mathlib.Algebra.Group.Nat.Defs

/-!
# Addresses that requests may go to

The test of an address in `safehttp` (Go), on the bits, and the one of `webhook-url.ts`, on the text. Refusals are kept
with their messages.
-/

namespace BookingSystem.Service.SafeUrls

/-! ### `net.IP` -/

/-- An address of four or of sixteen bytes. -/
inductive IP where
  | v4 (a : BitVec 32)
  | v6 (a : BitVec 128)
  deriving DecidableEq

/-- The first `n` bits are those of `p`. -/
def within {w : ℕ} (a p : BitVec w) (n : ℕ) : Bool := decide (a.toNat / 2 ^ (w - n) = p.toNat / 2 ^ (w - n))

/-- An address with the bytes a, b, c, d. -/
def bytes (a b c d : ℕ) : BitVec 32 := BitVec.ofNat 32 (((a * 256 + b) * 256 + c) * 256 + d)

/-- An address by its first group, with zeros after it. -/
def group (g : ℕ) : BitVec 128 := BitVec.ofNat 128 (g * 2 ^ 112)

def mapped : BitVec 128 := BitVec.ofNat 128 0xffff00000000

/-- An IPv4-mapped address is taken for the IPv4 address in it. -/
def to4 : IP → IP
  | .v4 a => .v4 a
  | .v6 a => if within a mapped 96 then .v4 (a.setWidth 32) else .v6 a

/-- Whether an address is in one of the ranges. -/
def among (v4 : List (BitVec 32 × ℕ)) (v6 : List (BitVec 128 × ℕ)) (ip : IP) : Bool :=
  match to4 ip with
  | .v4 a => v4.any fun p => within a p.1 p.2
  | .v6 a => v6.any fun p => within a p.1 p.2

def isLoopback : IP → Bool := among [(bytes 127 0 0 0, 8)] [(1, 128)]

def isUnspecified : IP → Bool := among [(bytes 0 0 0 0, 32)] [(0, 128)]

def isPrivate : IP → Bool :=
  among [(bytes 10 0 0 0, 8), (bytes 172 16 0 0, 12), (bytes 192 168 0 0, 16)] [(group 0xfc00, 7)]

def isLinkLocalUnicast : IP → Bool := among [(bytes 169 254 0 0, 16)] [(group 0xfe80, 10)]

/-- The four bits between are flags. -/
def isLinkLocalMulticast : IP → Bool :=
  among [(bytes 224 0 0 0, 24)] ((List.range 16).map fun flags => (group (0xff02 + 16 * flags), 16))

def isMulticast : IP → Bool := among [(bytes 224 0 0 0, 4)] [(group 0xff00, 8)]

def isInterfaceLocalMulticast : IP → Bool :=
  among [] ((List.range 16).map fun flags => (group (0xff01 + 16 * flags), 16))

/-- The metadata endpoints. -/
def blocked : List (String × IP) :=
  [("169.254.169.254", .v4 (bytes 169 254 169 254)), ("100.100.100.200", .v4 (bytes 100 100 100 200)),
    ("fd00:ec2::254", .v6 (BitVec.ofNat 128 0xfd000ec2000000000000000000000254))]

/-- The error for an address, if it is refused; nil is no address. -/
def rejectInternal : Option IP → Option String
  | none => some "nil ip"
  | some ip =>
    if isLoopback ip then some "loopback addresses are not allowed"
    else if isUnspecified ip then some "unspecified addresses are not allowed"
    else if isPrivate ip then some "private addresses are not allowed"
    else if isLinkLocalUnicast ip || isLinkLocalMulticast ip then some "link-local addresses are not allowed"
    else if isMulticast ip then some "multicast addresses are not allowed"
    else if isInterfaceLocalMulticast ip then some "interface-local addresses are not allowed"
    else (blocked.find? fun b => decide (to4 ip = to4 b.2)).map fun b =>
      "metadata endpoint " ++ b.1 ++ " is not allowed"

/-! ### `net` of Node -/

def isOctet (p : List Char) : Bool :=
  p != [] && p.all Char.isDigit && (p.head? != some '0' || p.length == 1) && decide (Nat.ofDigitChars 10 p 0 ≤ 255)

def isIPv4 (s : List Char) : Bool := (s.splitOn '.').length == 4 && (s.splitOn '.').all isOctet

def isLowerHex (c : Char) : Bool := c.isDigit || 'a' ≤ c && c ≤ 'f'

def isHex (c : Char) : Bool := isLowerHex c || 'A' ≤ c && c ≤ 'F'

def isGroup (p : List Char) : Bool := p != [] && decide (p.length ≤ 4) && p.all isHex

/-- How many groups a text between or after colons stands for; the last one may be an IPv4 address, which is two. -/
def groupCount (s : List Char) : Option ℕ :=
  let ps := s.splitOn ':'
  if !ps.dropLast.all isGroup then none
  else if (ps.getLast?).any isGroup then some ps.length
  else if (ps.getLast?).any isIPv4 then some (ps.length + 1)
  else none

/-- What stands before and after the first pair of colons. -/
def gap : List Char → Option (List Char × List Char)
  | [] => none
  | c :: s =>
    if c = ':' ∧ s.head? = some ':' then some ([], s.tail)
    else (gap s).map fun p => (c :: p.1, p.2)

/-- `%` and the name of an interface. -/
def isZone : List Char → Bool
  | [] => true
  | _ :: name => name != [] && name.all fun c => c.isAlphanum || c == '-' || c == '.' || c == ':'

def isIPv6 (s : List Char) : Bool :=
  let addr := s.takeWhile (· != '%')
  isZone (s.dropWhile (· != '%')) &&
    match gap addr with
    | none => groupCount addr == some 8
    | some (l, r) =>
      let before := if l = [] then some 0 else if (l.splitOn ':').all isGroup then groupCount l else none
      let after := if r = [] then some 0 else groupCount r
      match before, after with
      | some m, some n => decide (m + n ≤ 7)
      | _, _ => false

/-! ### `webhook-url.ts` -/

def decimal (n : ℕ) : List Char := Nat.toDigits 10 n

/-- Four numbers with dots between them. -/
def dotted (a b c d : ℕ) : List Char := ['.'].intercalate [decimal a, decimal b, decimal c, decimal d]

/-- `Number` of a text of digits. -/
def number (p : List Char) : ℕ := Nat.ofDigitChars 10 p 0

def hexValue (c : Char) : ℕ := if c.isDigit then c.toNat - '0'.toNat else c.toNat - 'a'.toNat + 10

/-- `parseInt` of a text of lower-case hexadecimal digits. -/
def parseHex (p : List Char) : ℕ := p.foldl (fun n c => 16 * n + hexValue c) 0

def isWord (p : List Char) : Bool := p != [] && decide (p.length ≤ 4) && p.all isLowerHex

def mappedPrefix : List Char := "::ffff:".toList

def unwrapMappedV4 (lower : List Char) : Option (List Char) :=
  if !mappedPrefix.isPrefixOf lower then none
  else
    let rest := lower.drop mappedPrefix.length
    if isIPv4 rest then some rest
    else
      match rest.splitOn ':' with
      | [h, l] =>
        if isWord h && isWord l then
          let hi := parseHex h
          let lo := parseHex l
          some (dotted (hi / 256 % 256) (hi % 256) (lo / 256 % 256) (lo % 256))
        else none
      | _ => none

def blockedIPs : List (List Char) := ["169.254.169.254".toList, "fd00:ec2::254".toList]

/-- The branch for IPv4, by the numbers between the dots. -/
def assertSafeV4 : List ℕ → Except String Unit
  | a :: b :: _ =>
    if a = 10 then .error "rfc1918 10.0.0.0/8"
    else if a = 172 ∧ 16 ≤ b ∧ b ≤ 31 then .error "rfc1918 172.16.0.0/12"
    else if a = 192 ∧ b = 168 then .error "rfc1918 192.168.0.0/16"
    else if a = 127 then .error "loopback"
    else if a = 169 ∧ b = 254 then .error "link-local"
    else if a = 0 then .error "reserved 0.0.0.0/8"
    else if 224 ≤ a then .error "multicast / reserved"
    else .ok ()
  | _ => .ok ()

/-- The branch for IPv6, for an address that no IPv4 address is mapped to. -/
def assertSafeV6 (lower : List Char) : Except String Unit :=
  if lower = "::1".toList then .error "ipv6 loopback"
  else if lower = "::".toList then .error "ipv6 unspecified"
  else if "fc".toList.isPrefixOf lower || "fd".toList.isPrefixOf lower then .error "ipv6 ULA"
  else if "fe80".toList.isPrefixOf lower then .error "ipv6 link-local"
  else if "ff".toList.isPrefixOf lower then .error "ipv6 multicast"
  else .ok ()

theorem isOctet_decimal : ∀ n < 256, isOctet (decimal n) = true := by decide +kernel

theorem dot_not_mem_decimal (n : ℕ) : '.' ∉ decimal n := fun h => by
  have := Nat.isDigit_of_mem_toDigits (by decide) (by decide) h
  cases this

theorem splitOn_dotted (a b c d : ℕ) : (dotted a b c d).splitOn '.' = [decimal a, decimal b, decimal c, decimal d] :=
  List.splitOn_intercalate _ (by simp [dot_not_mem_decimal]) (by simp)

theorem isIPv4_dotted {a b c d : ℕ} (ha : a < 256) (hb : b < 256) (hc : c < 256) (hd : d < 256) :
    isIPv4 (dotted a b c d) = true := by
  rw [isIPv4, splitOn_dotted]
  simp [isOctet_decimal, ha, hb, hc, hd]

theorem isIPv4_of_unwrapMappedV4 {lower s : List Char} (h : unwrapMappedV4 lower = some s) : isIPv4 s = true := by
  unfold unwrapMappedV4 at h
  split at h
  · cases h
  · dsimp only at h
    split at h
    · cases h
      assumption
    · split at h
      · split at h
        · cases h
          exact isIPv4_dotted (by omega) (by omega) (by omega) (by omega)
        · cases h
      · cases h

set_option linter.unusedVariables false in
def assertSafeIP (addr : List Char) : Except String Unit :=
  if blockedIPs.contains addr then .error ("ip " ++ String.ofList addr ++ " is blocked (cloud metadata)")
  else if hv4 : isIPv4 addr = true then assertSafeV4 ((addr.splitOn '.').map number)
  else if isIPv6 addr then
    let lower := addr.map Char.toLower
    match hmapped : unwrapMappedV4 lower with
    | some mappedV4 => assertSafeIP mappedV4
    | none => assertSafeV6 lower
  else .error ("unrecognized address " ++ String.ofList addr)
termination_by if isIPv4 addr then 0 else 1
decreasing_by simp [hv4, isIPv4_of_unwrapMappedV4 hmapped]

end BookingSystem.Service.SafeUrls
