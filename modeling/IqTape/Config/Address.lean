import IqTape.Number.Layout
import IqTape.Number.Numeral

/-!
# Addresses

An address is a host in dotted decimal form, a colon and a port.  A target may be
written as `udp://host:port`, and is kept in the form `host:port` without blanks
and with the port in its shortest form.

## Main definitions

* `readHost?` — the four numbers of a host.
* `SocketAddress`, `SocketAddress.read?`, `SocketAddress.text` — addresses.
* `normalTarget?` — the kept form of a target.
-/

namespace IqTape

/-- A number below 256 in decimal, without a leading zero. -/
def readOctet? (s : List Char) : Option UInt8 :=
  if s.isEmpty || !s.all Char.isDigit || (s.head? == some '0' && s.length != 1) then none
  else
    let n := ofDigits 10 digitValue s
    if n < 256 then some n.toUInt8 else none

/-- The parts of a text between separators. -/
def splitAt (separator : Char) : List Char → List (List Char)
  | [] => [[]]
  | c :: rest =>
    if c = separator then [] :: splitAt separator rest
    else
      match splitAt separator rest with
      | first :: more => (c :: first) :: more
      | [] => [[c]]

/-- The four numbers of a host in dotted decimal form, up to a NUL. -/
def readHost? (s : List Char) : Option (List UInt8) :=
  let parts := splitAt '.' (untilNul s)
  if parts.length = 4 then parts.mapM readOctet? else none

/-- Text in front of the last separator, and text behind it. -/
def splitLast? (separator : Char) (s : List Char) : Option (List Char × List Char) :=
  let behind := s.reverse.takeWhile (· != separator)
  match s.reverse.dropWhile (· != separator) with
  | [] => none
  | _ :: front => some (front.reverse, behind.reverse)

/-- A host and a port. -/
structure SocketAddress where
  /-- The host as it was written. -/
  host : String
  port : UInt16
  deriving DecidableEq, Repr, Inhabited

namespace SocketAddress

/-- An address: neither the host nor the port may be missing. -/
def read? (text : String) : Option SocketAddress :=
  match splitLast? ':' text.toList with
  | none => none
  | some (host, port) =>
    if host.isEmpty || port.isEmpty then none
    else
      match readNat? port, readHost? host with
      | some n, some _ => if n ≤ 65535 then some ⟨String.ofList host, n.toUInt16⟩ else none
      | _, _ => none

/-- The text of an address. -/
def text (a : SocketAddress) : String := a.host ++ ":" ++ decimal a.port.toNat

end SocketAddress

/-- What a target may start with. -/
def targetScheme : List Char := ['u', 'd', 'p', ':', '/', '/']

/-- The kept form of a target. -/
def normalTarget? (text : String) : Option String :=
  let s := trim text.toList
  let s := if targetScheme.isPrefixOf s then s.drop targetScheme.length else s
  (SocketAddress.read? (String.ofList s)).map SocketAddress.text

end IqTape
