/-
**Resolve frames.**

A resolve request is a session identifier, a frame type, a request identifier and a list of host
names; the response has the same front and, for each name, up to four addresses.  Both are lists of
parts with their lengths in front.  Here the two formats are written down as the source documents
them: the request as what a client writes, the response as what a client reads.  The parser of the
relay inverts the former and the builder of the relay is inverted by the latter.

Main definitions:

* `encodeResolveRequest` — the documented request;
* `buildResolveResponse` — the response that the relay builds;
* `decodeResolveResponse` — how the documented response is read;
* `InResolvableDomain` — the domains of the allowlist.

Main results:

* `parse_encodeResolveRequest` — the allowlisted names of a request, in order;
* `parseResolveRequest_accepted` — what an accepted request consists of;
* `decode_buildResolveResponse` — the answers that a response carries;
* `resolve_frames_round_trip` — all of it, with the bounds of reads and sizes.
-/

import SwiftRelay.Readers
import SwiftRelay.Wire

set_option autoImplicit false

namespace SwiftRelay

open Conc Slices

def resolveResponseFrameType : UInt8 := 0xA7

def resolveMaxIpsPerHost : ℕ := 4

/-- The bytes of a text. -/
def utf8Bytes (text : String) : List UInt8 := text.toUTF8.data.toList

theorem length_utf8Bytes (text : String) : (utf8Bytes text).length = text.utf8ByteSize := rfl

theorem fromUTF8_utf8Bytes (text : String) :
    String.fromUTF8? ⟨(utf8Bytes text).toArray⟩ = some text := by
  rw [utf8Bytes, Array.toArray_toList]
  exact dif_pos text.isValidUTF8

/-! ### The formats -/

section Formats

variable (sessionId : SessionId) (requestId : UInt16)

/-- A name of a request, with its length in front. -/
def encodeHost (host : String) : List UInt8 := .ofNat host.utf8ByteSize :: utf8Bytes host

/-- The part of a resolve frame in front of its list. -/
def resolveHeader (frameType : UInt8) (count : ℕ) : List UInt8 :=
  sessionIdBytes sessionId ++ frameType :: (toBeBytes requestId.toNat 2 ++ [.ofNat count])

def encodeResolveRequest (hosts : List String) : List UInt8 :=
  resolveHeader sessionId requestId resolveRequestFrameType hosts.length ++
    hosts.flatMap encodeHost

/-- What the builder appends for one answer. -/
def answerBytes (answer : String × List Ipv4Addr) : List UInt8 :=
  let hbytes := utf8Bytes answer.1
  let hlen := min hbytes.length resolveMaxHostnameLen
  let ipCount := min answer.2.length resolveMaxIpsPerHost
  .ofNat hlen :: (hbytes.take hlen ++
    .ofNat ipCount :: (answer.2.take ipCount).flatMap Ipv4Addr.octets)

def buildResolveResponse (answers : List (String × List Ipv4Addr)) : List UInt8 :=
  let answerCount := min answers.length 255
  resolveHeader sessionId requestId resolveResponseFrameType answerCount ++
    (answers.take answerCount).flatMap answerBytes

end Formats

open Wire in
def decodeIpv4 : Decoder UInt8 Ipv4Addr := do
  let a ← next
  let b ← next
  let c ← next
  let d ← next
  return ⟨a, b, c, d⟩

open Wire in
/-- One answer: a name with its length in front, and addresses with their number in front. -/
def decodeAnswer : Decoder UInt8 (String × List Ipv4Addr) := do
  let hostLen ← next
  let name ← take hostLen.toNat
  let host ← ofOption (String.fromUTF8? ⟨name.toArray⟩)
  let ipCount ← next
  let ips ← times decodeIpv4 ipCount.toNat
  return (host, ips)

open Wire in
def decodeResponseBody : Decoder UInt8 (SessionId × UInt16 × List (String × List Ipv4Addr)) := do
  let sessionId ← take sessionIdLen
  let frameType ← next
  require (frameType = resolveResponseFrameType)
  let requestId ← take 2
  let answerCount ← next
  let answers ← times decodeAnswer answerCount.toNat
  return (sessionIdOf sessionId, .ofNat (fromBeBytes requestId), answers)

/-- A response as it is documented, with nothing left over. -/
def decodeResolveResponse (frame : List UInt8) :
    Option (SessionId × UInt16 × List (String × List Ipv4Addr)) :=
  Wire.whole decodeResponseBody frame

/-- In lower case and without the dots at its end, the name is the domain of the game or lies in one
of the three domains of the allowlist. -/
def InResolvableDomain (host : String) : Prop :=
  let h := normalHost host
  h = "roblox.com".toList ∨ ".roblox.com".toList <:+ h ∨ ".rbxcdn.com".toList <:+ h ∨
    ".arkoselabs.com".toList <:+ h

theorem inResolvableDomain_iff (host : String) :
    isResolvableRobloxHost host = true ↔ InResolvableDomain host := by
  simp only [isResolvableRobloxHost, InResolvableDomain, Bool.or_eq_true, decide_eq_true_eq,
    List.isSuffixOf_iff_suffix, or_assoc]

/-! ### Requests -/

section Requests

variable {sessionId : SessionId} {requestId : UInt16} {frameType : UInt8} {count : ℕ}

theorem length_resolveHeader :
    (resolveHeader sessionId requestId frameType count).length = sessionIdLen + 4 := by
  simp [resolveHeader, sessionIdBytes_length, toBeBytes]

theorem byteAt_append_length (front : List UInt8) (b : UInt8) (back : List UInt8) :
    byteAt (front ++ b :: back) front.length = b := by
  simp [byteAt, List.getD_eq_getElem?_getD]

theorem u16At_resolveHeader (back : List UInt8) :
    u16At (resolveHeader sessionId requestId frameType count ++ back) (sessionIdLen + 1) =
      requestId := by
  have hbytes : u16At (resolveHeader sessionId requestId frameType count ++ back)
      (sessionIdLen + 1) = UInt16.ofNat (fromBeBytes (toBeBytes requestId.toNat 2)) := rfl
  rw [hbytes, fromBeBytes_toBeBytes requestId.toNat_lt, UInt16.ofNat_toNat]

theorem byteAt_resolveHeader (back : List UInt8) :
    byteAt (resolveHeader sessionId requestId frameType count ++ back) (sessionIdLen + 3) =
      .ofNat count := rfl

/-- The names that are left to read lie behind a front, and are followed by what lies behind the
frame. -/
theorem resolveHosts_encoded {hosts : List String}
    (hsize : ∀ h ∈ hosts, 1 ≤ h.utf8ByteSize ∧ h.utf8ByteSize ≤ resolveMaxHostnameLen)
    (front extra : List UInt8) :
    resolveHosts (front ++ hosts.flatMap encodeHost ++ extra)
        (front.length + (hosts.flatMap encodeHost).length) hosts.length front.length =
      some (hosts.filter isResolvableRobloxHost) := by
  induction hosts generalizing front with
  | nil => rfl
  | cons host hosts ih =>
      obtain ⟨hpos, hmax⟩ := hsize host List.mem_cons_self
      have hbyte : (UInt8.ofNat host.utf8ByteSize).toNat = host.utf8ByteSize := by
        rw [UInt8.toNat_ofNat', Nat.mod_eq_of_lt]
        rw [resolveMaxHostnameLen] at hmax
        omega
      -- the rest of the names lie behind a longer front
      have hrest := ih (fun h hh => hsize h (List.mem_cons_of_mem host hh))
        (front ++ encodeHost host)
      have hframe : front ++ (host :: hosts).flatMap encodeHost ++ extra =
          front ++ encodeHost host ++ hosts.flatMap encodeHost ++ extra := by
        simp only [List.flatMap_cons, List.append_assoc]
      have hlen : front.length + ((host :: hosts).flatMap encodeHost).length =
          (front ++ encodeHost host).length + (hosts.flatMap encodeHost).length := by
        simp only [List.flatMap_cons, List.length_append]
        omega
      have hfront : (front ++ encodeHost host).length = front.length + 1 + host.utf8ByteSize := by
        simp only [encodeHost, List.length_append, List.length_cons, length_utf8Bytes]
        omega
      have hat : byteAt (front ++ encodeHost host ++ hosts.flatMap encodeHost ++ extra)
          front.length = .ofNat host.utf8ByteSize := by
        rw [List.append_assoc, List.append_assoc]
        exact byteAt_append_length ..
      have hname : ((front ++ encodeHost host ++ hosts.flatMap encodeHost ++ extra).take
          (front.length + 1 + host.utf8ByteSize)).drop (front.length + 1) = utf8Bytes host := by
        rw [List.append_assoc (front ++ encodeHost host), List.take_left' hfront]
        rw [encodeHost, ← List.singleton_append, ← List.append_assoc]
        exact List.drop_left' (by simp)
      rw [hframe, hlen, List.length_cons, resolveHosts, if_neg (by omega)]
      simp only [hat, hbyte]
      rw [if_neg (by simp only [Bool.or_eq_true, decide_eq_true_eq]; omega)]
      simp only [hname, fromUTF8_utf8Bytes]
      rw [← hfront, hrest, Option.map_some, List.filter_cons]

/-- The parser finds the allowlisted names of a request, in order. -/
theorem parse_encodeResolveRequest {hosts : List String}
    (hcount : hosts.length ≤ resolveMaxHostsPerRequest)
    (hsize : ∀ h ∈ hosts, 1 ≤ h.utf8ByteSize ∧ h.utf8ByteSize ≤ resolveMaxHostnameLen)
    (extra : List UInt8) :
    parseResolveRequest (encodeResolveRequest sessionId requestId hosts ++ extra)
        (encodeResolveRequest sessionId requestId hosts).length =
      some (requestId, hosts.filter isResolvableRobloxHost) := by
  have hbyte : (UInt8.ofNat hosts.length).toNat = hosts.length := by
    rw [UInt8.toNat_ofNat', Nat.mod_eq_of_lt]
    rw [resolveMaxHostsPerRequest] at hcount
    omega
  have hlen : (encodeResolveRequest sessionId requestId hosts).length =
      sessionIdLen + 4 + (hosts.flatMap encodeHost).length := by
    rw [encodeResolveRequest, List.length_append, length_resolveHeader]
  have hhosts := resolveHosts_encoded hsize
    (resolveHeader sessionId requestId resolveRequestFrameType hosts.length) extra
  rw [length_resolveHeader] at hhosts
  have hid := @u16At_resolveHeader sessionId requestId resolveRequestFrameType hosts.length
    (hosts.flatMap encodeHost ++ extra)
  have hnum := @byteAt_resolveHeader sessionId requestId resolveRequestFrameType hosts.length
    (hosts.flatMap encodeHost ++ extra)
  rw [← List.append_assoc] at hid hnum
  rw [hlen, encodeResolveRequest]
  unfold parseResolveRequest
  rw [if_neg (by omega)]
  simp only [hid, hnum, hbyte]
  rw [if_neg (Nat.not_lt.2 hcount), hhosts, Option.map_some]

end Requests

/-! ### What the parser reads -/

section Reads

variable {frame : Slice} {len : ℕ}

theorem range_copy_below {α : Type} {a b n : ℕ} {f : List UInt8 → Read UInt8 α}
    (hn : frame.lo + b ≤ n) (hf : ∀ bytes, (f bytes).Uses (Below n)) :
    (range frame a b >>= fun part => copy part >>= f).Uses (Below n) :=
  ⟨trivial, fun _ => ⟨hn, hf⟩⟩

theorem readResolveHosts_below (n off : ℕ) :
    (readResolveHosts frame len n off).Uses (Below (frame.lo + len)) := by
  induction n generalizing off with
  | zero => trivial
  | succ n ih =>
      refine Prog.uses_ite.2 ⟨fun _ => trivial, fun hoff => ?_⟩
      refine ⟨Nat.add_lt_add_left (Nat.not_le.1 hoff) _, fun hlen => ?_⟩
      refine Prog.uses_ite.2 ⟨fun _ => trivial, fun hfit => ?_⟩
      simp only [Bool.or_eq_true, decide_eq_true_eq, not_or, not_lt] at hfit
      refine range_copy_below (Nat.add_le_add_left hfit.2 _) fun bytes => ?_
      cases String.fromUTF8? ⟨bytes.toArray⟩ with
      | none => trivial
      | some host => exact Prog.uses_bind (ih _) fun _ => trivial

/-- Whatever the bytes are and however many the frame has, nothing is read at or behind the given
length. -/
theorem readResolveRequest_below :
    (readResolveRequest frame len).Uses (Below (frame.lo + len)) := by
  refine Prog.uses_ite.2 ⟨fun _ => trivial, fun hlen => ?_⟩
  have hheader : sessionIdLen + 1 + 3 ≤ len := Nat.not_lt.1 hlen
  refine ⟨Nat.add_lt_add_left (by omega) _, fun high => ⟨Nat.add_lt_add_left (by omega) _,
    fun low => ⟨Nat.add_lt_add_left (by omega) _, fun hostCount => ?_⟩⟩⟩
  refine .ite trivial ?_
  exact Prog.uses_bind (readResolveHosts_below _ _) fun _ => trivial

/-- On a frame that is as long as it is said to be, no access fails. -/
theorem eval_readResolveRequest {buf : List UInt8} (h : len ≤ buf.length) :
    eval buf (readResolveRequest ⟨0, buf.length⟩ len) = some (parseResolveRequest buf len) := by
  have huses := @readResolveRequest_uses ⟨0, buf.length⟩ len h
  have hvalue := @value_readResolveRequest ⟨0, buf.length⟩ len buf (by rwa [Nat.zero_add])
  rw [Nat.zero_add] at huses
  rw [eval_eq_value h huses, hvalue, Slice.of_whole]

end Reads

/-! ### Accepted requests -/

/-- A text that was read from bytes is as long as they are. -/
theorem utf8ByteSize_of_fromUTF8 {bytes : List UInt8} {text : String}
    (h : String.fromUTF8? ⟨bytes.toArray⟩ = some text) : text.utf8ByteSize = bytes.length := by
  rw [String.fromUTF8?, Option.dite_none_right_eq_some] at h
  obtain ⟨hvalid, h⟩ := h
  rw [← Option.some.inj h]
  rfl

/-- At most as many names are accepted as the request has, and each of them is allowlisted and no
longer than a length byte may say. -/
theorem resolveHosts_accepted {frame : List UInt8} {len n off : ℕ} {hosts : List String}
    (h : resolveHosts frame len n off = some hosts) : hosts.length ≤ n ∧
      ∀ host ∈ hosts, host.utf8ByteSize ≤ resolveMaxHostnameLen ∧
        isResolvableRobloxHost host = true := by
  induction n generalizing off hosts with
  | zero =>
      cases h
      exact ⟨Nat.le_refl _, fun host hhost => absurd hhost List.not_mem_nil⟩
  | succ n ih =>
      rw [resolveHosts] at h
      split at h
      · cases h
      · dsimp only at h
        split at h
        · cases h
        · next hfit =>
            simp only [Bool.or_eq_true, decide_eq_true_eq, not_or] at hfit
            split at h
            · cases h
            · next host hhost =>
                obtain ⟨rest, hrest, rfl⟩ := Option.map_eq_some_iff.1 h
                obtain ⟨hcount, hall⟩ := ih hrest
                have hsize : host.utf8ByteSize ≤ resolveMaxHostnameLen := by
                  rw [utf8ByteSize_of_fromUTF8 hhost, List.length_drop, List.length_take]
                  omega
                split
                · next hallowed =>
                    refine ⟨Nat.succ_le_succ hcount, fun other hother => ?_⟩
                    rcases List.mem_cons.1 hother with rfl | hmem
                    · exact ⟨hsize, hallowed⟩
                    · exact hall other hmem
                · exact ⟨Nat.le_succ_of_le hcount, hall⟩

theorem parseResolveRequest_accepted {frame : List UInt8} {len : ℕ} {requestId : UInt16}
    {hosts : List String} (h : parseResolveRequest frame len = some (requestId, hosts)) :
    hosts.length ≤ resolveMaxHostsPerRequest ∧
      ∀ host ∈ hosts, host.utf8ByteSize ≤ resolveMaxHostnameLen ∧
        isResolvableRobloxHost host = true := by
  unfold parseResolveRequest at h
  dsimp only at h
  split at h
  · cases h
  · split at h
    · cases h
    · next hcount =>
        obtain ⟨found, hfound, heq⟩ := Option.map_eq_some_iff.1 h
        obtain ⟨-, rfl⟩ := Prod.mk.inj heq
        obtain ⟨hle, hall⟩ := resolveHosts_accepted hfound
        exact ⟨Nat.le_trans hle (Nat.not_lt.1 hcount), hall⟩

/-! ### Responses -/

section Responses

variable {sessionId : SessionId} {requestId : UInt16} {answers : List (String × List Ipv4Addr)}

/-- As many answers as a request has names, each for a name as long as a request may have it. -/
structure Answerable (answers : List (String × List Ipv4Addr)) : Prop where
  count : answers.length ≤ resolveMaxHostsPerRequest
  names : ∀ a ∈ answers, a.1.utf8ByteSize ≤ resolveMaxHostnameLen

/-- Answers for names of an accepted request, in whatever order. -/
theorem answerable_of_accepted {frame : List UInt8} {len : ℕ} {hosts : List String}
    (h : parseResolveRequest frame len = some (requestId, hosts))
    (hsub : (answers.map Prod.fst).Subperm hosts) : Answerable answers := by
  obtain ⟨hcount, hall⟩ := parseResolveRequest_accepted h
  refine ⟨?_, fun a ha => (hall a.1 (hsub.subset (List.mem_map_of_mem ha))).1⟩
  have hle := hsub.length_le
  rw [List.length_map] at hle
  exact Nat.le_trans hle hcount

theorem length_answerBytes (answer : String × List Ipv4Addr) :
    (answerBytes answer).length ≤ 82 := by
  have hips := @Wire.length_flatMap_le _ _ Ipv4Addr.octets
    (answer.2.take (min answer.2.length resolveMaxIpsPerHost)) 4 fun _ _ => Nat.le_refl 4
  simp only [List.length_take, resolveMaxIpsPerHost] at hips
  simp only [answerBytes, List.length_cons, List.length_append, List.length_take,
    resolveMaxHostnameLen, resolveMaxIpsPerHost]
  omega

theorem buildResolveResponse_eq (h : answers.length ≤ resolveMaxHostsPerRequest) :
    buildResolveResponse sessionId requestId answers =
      resolveHeader sessionId requestId resolveResponseFrameType answers.length ++
        answers.flatMap answerBytes := by
  have hmin : min answers.length 255 = answers.length := by
    rw [resolveMaxHostsPerRequest] at h
    omega
  simp only [buildResolveResponse, hmin, List.take_length]

theorem length_buildResolveResponse (h : answers.length ≤ resolveMaxHostsPerRequest) :
    (buildResolveResponse sessionId requestId answers).length ≤ 1324 := by
  have hanswers := Wire.length_flatMap_le fun a (_ : a ∈ answers) => length_answerBytes a
  rw [buildResolveResponse_eq h, List.length_append, length_resolveHeader]
  rw [resolveMaxHostsPerRequest] at h
  rw [sessionIdLen]
  omega

open Wire

theorem sessionIdOf_sessionIdBytes (sid : SessionId) : sessionIdOf (sessionIdBytes sid) = sid := by
  rw [← List.append_nil (sessionIdBytes sid), sessionIdOf_append]

theorem reads_octets (ip : Ipv4Addr) : Reads decodeIpv4 ip.octets ip := fun _ => rfl

theorem reads_answerBytes {answer : String × List Ipv4Addr}
    (h : answer.1.utf8ByteSize ≤ resolveMaxHostnameLen) :
    Reads decodeAnswer (answerBytes answer) (answer.1, answer.2.take resolveMaxIpsPerHost) := by
  have hname : min (utf8Bytes answer.1).length resolveMaxHostnameLen = answer.1.utf8ByteSize :=
    Nat.min_eq_left h
  have hall : (utf8Bytes answer.1).take answer.1.utf8ByteSize = utf8Bytes answer.1 :=
    List.take_length
  have hlen : (UInt8.ofNat answer.1.utf8ByteSize).toNat = (utf8Bytes answer.1).length := by
    rw [UInt8.toNat_ofNat', length_utf8Bytes, Nat.mod_eq_of_lt]
    rw [resolveMaxHostnameLen] at h
    omega
  have hips : answer.2.take (min answer.2.length resolveMaxIpsPerHost) =
      answer.2.take resolveMaxIpsPerHost := by
    rw [Nat.min_comm, ← List.take_take, List.take_length]
  have hcount : (UInt8.ofNat (min answer.2.length resolveMaxIpsPerHost)).toNat =
      (answer.2.take resolveMaxIpsPerHost).length := by
    rw [UInt8.toNat_ofNat', List.length_take, Nat.min_comm, Nat.mod_eq_of_lt]
    rw [resolveMaxIpsPerHost]
    omega
  have haddrs := @reads_times _ _ _ decodeIpv4 _ id (answer.2.take resolveMaxIpsPerHost)
    fun ip _ => reads_octets ip
  rw [List.map_id, ← hcount] at haddrs
  have htext := @reads_take _ (utf8Bytes answer.1)
  rw [← hlen] at htext
  have hread : Reads decodeAnswer
      ([.ofNat answer.1.utf8ByteSize] ++ (utf8Bytes answer.1 ++ ([] ++
        ([.ofNat (min answer.2.length resolveMaxIpsPerHost)] ++
          ((answer.2.take resolveMaxIpsPerHost).flatMap Ipv4Addr.octets ++ [])))))
      (answer.1, answer.2.take resolveMaxIpsPerHost) :=
    (reads_next _).bind (htext.bind ((reads_ofOption (fromUTF8_utf8Bytes _)).bind
      ((reads_next _).bind (haddrs.bind (reads_pure _)))))
  rw [List.nil_append, List.append_nil, List.singleton_append, List.singleton_append] at hread
  simpa only [answerBytes, hname, hall, hips] using hread

theorem reads_resolveResponse (h : Answerable answers) :
    Reads decodeResponseBody
      (resolveHeader sessionId requestId resolveResponseFrameType answers.length ++
        answers.flatMap answerBytes)
      (sessionId, requestId, answers.map fun a => (a.1, a.2.take resolveMaxIpsPerHost)) := by
  have hcount : (UInt8.ofNat answers.length).toNat = answers.length := by
    have hle := h.count
    rw [resolveMaxHostsPerRequest] at hle
    rw [UInt8.toNat_ofNat', Nat.mod_eq_of_lt]
    omega
  have hsid := reads_take (sessionIdBytes sessionId)
  rw [sessionIdBytes_length] at hsid
  have hid : Reads (take 2) (toBeBytes requestId.toNat 2) (toBeBytes requestId.toNat 2) :=
    reads_take (toBeBytes requestId.toNat 2)
  have hanswers := reads_times fun a (ha : a ∈ answers) => reads_answerBytes (h.names a ha)
  rw [← hcount] at hanswers
  have hread : Reads decodeResponseBody
      (sessionIdBytes sessionId ++ ([resolveResponseFrameType] ++ ([] ++
        (toBeBytes requestId.toNat 2 ++ ([.ofNat answers.length] ++
          (answers.flatMap answerBytes ++ []))))))
      (sessionIdOf (sessionIdBytes sessionId),
        .ofNat (fromBeBytes (toBeBytes requestId.toNat 2)),
        answers.map fun a => (a.1, a.2.take resolveMaxIpsPerHost)) :=
    hsid.bind ((reads_next _).bind ((reads_require rfl).bind (hid.bind
      ((reads_next _).bind (hanswers.bind (reads_pure _))))))
  rw [sessionIdOf_sessionIdBytes, fromBeBytes_toBeBytes requestId.toNat_lt, UInt16.ofNat_toNat]
    at hread
  simpa only [resolveHeader, List.nil_append, List.append_nil, List.singleton_append,
    List.cons_append, List.append_assoc] using hread

theorem decode_buildResolveResponse (h : Answerable answers) :
    decodeResolveResponse (buildResolveResponse sessionId requestId answers) =
      some (sessionId, requestId, answers.map fun a => (a.1, a.2.take resolveMaxIpsPerHost)) := by
  rw [buildResolveResponse_eq h.count]
  exact (reads_resolveResponse h).whole_eq

end Responses

/-- **Resolve frames round-trip and stay within the allowlist.** -/
theorem resolve_frames_round_trip :
    (∀ sessionId requestId hosts extra, hosts.length ≤ resolveMaxHostsPerRequest →
      (∀ h ∈ hosts, 1 ≤ h.utf8ByteSize ∧ h.utf8ByteSize ≤ resolveMaxHostnameLen) →
      parseResolveRequest (encodeResolveRequest sessionId requestId hosts ++ extra)
          (encodeResolveRequest sessionId requestId hosts).length =
        some (requestId, hosts.filter isResolvableRobloxHost)) ∧
    (∀ (buf : List UInt8) len,
      (readResolveRequest ⟨0, buf.length⟩ len).Uses (Below len) ∧
      (len ≤ buf.length → eval buf (readResolveRequest ⟨0, buf.length⟩ len) =
        some (parseResolveRequest buf len))) ∧
    ∀ frame len requestId hosts, parseResolveRequest frame len = some (requestId, hosts) →
      (∀ host ∈ hosts, InResolvableDomain host) ∧
      ∀ sessionId answers, (answers.map Prod.fst).Subperm hosts →
        (buildResolveResponse sessionId requestId answers).length ≤ 1324 ∧
        decodeResolveResponse (buildResolveResponse sessionId requestId answers) =
          some (sessionId, requestId,
            answers.map fun a => (a.1, a.2.take resolveMaxIpsPerHost)) := by
  refine ⟨fun sessionId requestId hosts extra hcount hsize =>
    parse_encodeResolveRequest hcount hsize extra, fun buf len => ⟨?_, eval_readResolveRequest⟩,
    fun frame len requestId hosts hparse =>
      ⟨fun host hhost => ?_, fun sessionId answers hsub => ?_⟩⟩
  · have hbelow := @readResolveRequest_below ⟨0, buf.length⟩ len
    rwa [Nat.zero_add] at hbelow
  · exact (inResolvableDomain_iff host).1 ((parseResolveRequest_accepted hparse).2 host hhost).2
  · have hanswers := answerable_of_accepted hparse hsub
    exact ⟨length_buildResolveResponse hanswers.count, decode_buildResolveResponse hanswers⟩

/-- A request for a host of the game and another one, and its response. -/
theorem resolve_frames_round_trip_sample :
    let hosts := ["c0.rbxcdn.com", "evil.com"]
    let frame := encodeResolveRequest 9 0x1234 hosts
    let answers := [("c0.rbxcdn.com", [⟨1, 2, 3, 4⟩])]
    parseResolveRequest (frame ++ [0xFF]) frame.length = some (0x1234, ["c0.rbxcdn.com"]) ∧
      decodeResolveResponse (buildResolveResponse 9 0x1234 answers) =
        some (9, 0x1234, answers) := by
  obtain ⟨hrequest, -, hresponse⟩ := resolve_frames_round_trip
  have hfilter : ["c0.rbxcdn.com", "evil.com"].filter isResolvableRobloxHost =
      ["c0.rbxcdn.com"] := by decide
  have hparse := hrequest 9 0x1234 ["c0.rbxcdn.com", "evil.com"] [0xFF] (by decide) (by decide)
  rw [hfilter] at hparse
  exact ⟨hparse, ((hresponse _ _ _ _ hparse).2 9 _ (List.Subperm.refl _)).2⟩

end SwiftRelay
