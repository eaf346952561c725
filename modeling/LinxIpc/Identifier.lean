import LinxIpc.Message

/-!
The two identifier types of the library: `UnixInfo` names a socket and
`PortInfo` an address with a port.

A `std::string` is its list of bytes.  `IIdentifier::operator==` compares two
values of one type by `isEqual`, which is the `BEq` instance here.
-/

namespace LinxIpc

abbrev StdString := List UInt8

/-- What a C function sees of a string: the bytes before the first NUL. -/
def cStr (s : StdString) : StdString := s.takeWhile (fun byte => byte != 0)

def ofAscii (s : String) : StdString := s.toList.map (fun char => UInt8.ofNat char.toNat)

def decimal (n : Nat) : StdString :=
  (Nat.toDigits 10 n).map (fun digit => UInt8.ofNat digit.toNat)

structure UnixInfo where
  value : StdString
  deriving DecidableEq, Repr

def UnixInfo.isEqual (self other : UnixInfo) : Bool := self.value == other.value

instance : BEq UnixInfo := ⟨UnixInfo.isEqual⟩

/-! ### IP addresses as text -/

def digit? (char : UInt8) : Option Nat :=
  if 48 ≤ char.toNat ∧ char.toNat ≤ 57 then some (char.toNat - 48) else none

/-- One part of a dotted address: decimal, at most 255, without leading zeros. -/
def octet? (part : StdString) : Option Nat :=
  match part.mapM digit? with
  | none | some [] => none
  | some (first :: rest) =>
      if first = 0 ∧ rest ≠ [] then none
      else
        let value := rest.foldl (fun number digit => number * 10 + digit) first
        if value ≤ 255 then some value else none

/-- `inet_pton(AF_INET, ..)` with `ntohl`: the address as a number. -/
def inetPton (ip : StdString) : Option Nat :=
  match ((cStr ip).splitOn 46).mapM octet? with
  | some [a, b, c, d] => some (a * 2 ^ 24 + b * 2 ^ 16 + c * 2 ^ 8 + d)
  | _ => none

def isBroadcastIp (ip : StdString) : Bool := ip == ofAscii "255.255.255.255"

def isMulticastIp (ip : StdString) : Bool :=
  match inetPton ip with
  | none => false
  | some number => 0xE0000000 ≤ number && number ≤ 0xEFFFFFFF

structure PortInfo where
  ip : StdString
  port : UInt16
  isRestrictedIp : Bool
  deriving DecidableEq, Repr

def PortInfo.create (ip : StdString) (port : UInt16) : PortInfo :=
  { ip := ip, port := port, isRestrictedIp := isBroadcastIp ip || isMulticastIp ip }

/-- A restricted address on either side leaves only the ports to compare. -/
def PortInfo.isEqual (self other : PortInfo) : Bool :=
  if self.isRestrictedIp || other.isRestrictedIp then self.port == other.port
  else self.ip == other.ip && self.port == other.port

instance : BEq PortInfo := ⟨PortInfo.isEqual⟩

end LinxIpc
