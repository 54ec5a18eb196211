/-
**Resolve requests.**

A client whose name server is censored asks the relay for the addresses of game hosts.  A request
carries an identifier and up to sixteen host names, each with its length in front; names outside of
a few domains are silently left out.

Main definitions:

* `isResolvableRobloxHost` — the domains that the relay resolves;
* `parseResolveRequest` — the identifier of a request and the names to resolve.
-/

import SwiftRelay.IpPacket
import SwiftRelay.Text

set_option autoImplicit false

namespace SwiftRelay

def resolveMaxHostsPerRequest : ℕ := 16

def resolveMaxHostnameLen : ℕ := 64

/-- A host name without the dots at its end, in lower case. -/
def normalHost (host : String) : List Char :=
  (host.toList.reverse.dropWhile (· = '.')).reverse.map Char.toLower

def isResolvableRobloxHost (host : String) : Bool :=
  let h := normalHost host
  h = "roblox.com".toList || ".roblox.com".toList.isSuffixOf h
    || ".rbxcdn.com".toList.isSuffixOf h || ".arkoselabs.com".toList.isSuffixOf h

/-- The names that remain of the next `n` names of a frame, which begin at `off`. -/
def resolveHosts (frame : List UInt8) (len : ℕ) : ℕ → ℕ → Option (List String)
  | 0, _ => some []
  | n + 1, off =>
      if off ≥ len then none
      else
        let hlen := (byteAt frame off).toNat
        let off := off + 1
        if hlen = 0 || hlen > resolveMaxHostnameLen || off + hlen > len then none
        else
          match String.fromUTF8? ⟨((frame.take (off + hlen)).drop off).toArray⟩ with
          | none => none
          | some host =>
              (resolveHosts frame len n (off + hlen)).map fun hosts =>
                if isResolvableRobloxHost host then host :: hosts else hosts

def parseResolveRequest (frame : List UInt8) (len : ℕ) : Option (UInt16 × List String) :=
  let header := sessionIdLen + 1
  if len < header + 3 then none
  else
    let requestId := u16At frame header
    let hostCount := (byteAt frame (header + 2)).toNat
    if hostCount > resolveMaxHostsPerRequest then none
    else (resolveHosts frame len hostCount (header + 3)).map fun hosts => (requestId, hosts)

end SwiftRelay
