/-
**Relay tickets and the replay cache.**

A client proves who it is with a *ticket*: a payload and an Ed25519 signature of it, both in
base64, separated by a dot.  `verify_relay_ticket` decodes and checks one ticket;
`verify_relay_ticket_once` also refuses a ticket whose identifier `jti` is still remembered by the
replay cache.  The cache forgets: it is pruned at most every 30 seconds, of the tickets that
expired more than the permitted clock skew ago.

Base64, Ed25519 and JSON decoding are not code of the relay; they enter as the functions of a
`Codecs`, about which nothing is assumed.

Main definitions:

* `RelayTicketClaims`, `VerifiedRelayTicket`, `RelayAuthConfig` — what a ticket says, what is kept
  of it, and what it is checked against;
* `verifyRelayTicket`, `verifyRelayTicketOnce` — the two checks;
* `RelayTicketReplayCache` — the tickets seen, with their pruning;
* `runTicketCalls` — a sequence of checks against one cache.

Main results:

* `verifyRelayTicket_ok` — everything an accepted ticket satisfies;
* `Remembered.step` — what one check preserves: a payload that was accepted is in the cache, or
  expired longer ago than the clock may step back;
* `tickets_single_use_and_bounded` — over a whole run no payload is accepted twice.
-/

import SwiftRelay.Address
import SwiftRelay.Table
import SwiftRelay.Text
import SwiftRelay.Word64

set_option autoImplicit false

namespace SwiftRelay

/-! ### Tickets -/

/-- The claims of a ticket, as they are deserialized from the signed payload. -/
structure RelayTicketClaims where
  v : UInt8
  iss : String
  aud : String
  sub : String
  sid : String
  srv : String
  iat : UInt64
  exp : UInt64
  jti : String
  lease : Bool
  deriving DecidableEq

/-- What the relay keeps of a verified ticket. -/
structure VerifiedRelayTicket where
  userId : String
  jti : String
  exp : UInt64
  lease : Bool
  deriving DecidableEq

/-- Why a hello is refused. -/
inductive RelayAuthVerifyError
  | badFormat
  | badSignature
  | expired
  | sidMismatch
  | serverMismatch
  | replay
  | ownerMismatch
  deriving DecidableEq

/-- Whether, and for whom, tickets are asked for. -/
inductive RelayAuthMode
  | off
  | optional
  | required
  deriving DecidableEq

def RelayAuthMode.requiresAuth : RelayAuthMode → Bool
  | .off => false
  | _ => true

/-- The configuration tickets are checked against. -/
structure RelayAuthConfig where
  mode : RelayAuthMode
  publicKey : Option (List UInt8)
  serverId : Option String

/-- The decoders and the signature check that the relay calls. -/
structure Codecs where
  urlSafeNoPad : String → Option (List UInt8)
  urlSafe : String → Option (List UInt8)
  standard : String → Option (List UInt8)
  ed25519Verify : List UInt8 → List UInt8 → List UInt8 → Bool
  claimsFromJson : List UInt8 → Option RelayTicketClaims

def maxAuthTokenLen : ℕ := 4096

def authClockSkewSecs : UInt64 := 30

def decodeBase64Flexible (codecs : Codecs) (input : String) : Option (List UInt8) :=
  (codecs.urlSafeNoPad input).or ((codecs.urlSafe input).or (codecs.standard input))

/-- The signed payload of a token, in whichever of the accepted encodings it is written. -/
def payloadOf (codecs : Codecs) (token : String) : Option (List UInt8) :=
  (splitOnce token '.').bind fun parts => decodeBase64Flexible codecs parts.1

/-- The first test of the claims.  The lifetime is a checked subtraction, so that `none` stands for
an arithmetic overflow; the disjunction is evaluated from left to right. -/
def claimsMalformed (claims : RelayTicketClaims) : Option Bool :=
  if claims.v ≠ 1
      || !claims.lease
      || claims.sub.utf8ByteSize > 64
      || claims.jti.isEmpty
      || claims.jti.utf8ByteSize > 128
      || !(claims.sub.toList.all fun c => c.isAlphanum || c = '-')
      || !(claims.jti.toList.all fun c => c.isAlphanum || c = '-' || c = '_')
      || claims.srv.isEmpty
      || claims.srv.utf8ByteSize > 64
      || claims.exp ≤ claims.iat then
    some true
  else
    (Word64.checkedSub claims.exp claims.iat).map fun lifetime => decide (lifetime > 900)

/-- The part of `verify_relay_ticket` that establishes the claims: the token is decoded and its
signature verified. -/
def decodeRelayTicket (codecs : Codecs) (token : String) (auth : RelayAuthConfig) :
    Except RelayAuthVerifyError RelayTicketClaims := do
  if token.isEmpty || token.utf8ByteSize > maxAuthTokenLen then
    throw .badFormat
  let some (payloadB64, signatureB64) := splitOnce token '.' | throw .badFormat
  let some payload := decodeBase64Flexible codecs payloadB64 | throw .badFormat
  let some signature := decodeBase64Flexible codecs signatureB64 | throw .badFormat
  if signature.length ≠ 64 then
    throw .badFormat
  let some publicKey := auth.publicKey | throw .badFormat
  if !codecs.ed25519Verify publicKey payload signature then
    throw .badSignature
  let some claims := codecs.claimsFromJson payload | throw .badFormat
  return claims

/-- The part of `verify_relay_ticket` that judges the claims. -/
def checkClaims (claims : RelayTicketClaims) (sessionId : SessionId) (auth : RelayAuthConfig)
    (nowUnix : UInt64) : Except RelayAuthVerifyError VerifiedRelayTicket := do
  if claimsMalformed claims ≠ some false then
    throw .badFormat
  if claims.iss ≠ "swifttunnel-web" || claims.aud ≠ "swifttunnel-relay" || claims.sub.isEmpty then
    throw .badFormat
  if claims.sid ≠ formatHex016 sessionId then
    throw .sidMismatch
  let some expectedServer := auth.serverId | throw .badFormat
  if claims.srv ≠ expectedServer then
    throw .serverMismatch
  if claims.iat > Word64.satAdd nowUnix authClockSkewSecs then
    throw .badFormat
  if nowUnix ≥ claims.exp then
    throw .expired
  return ⟨claims.sub, claims.jti, claims.exp, claims.lease⟩

def verifyRelayTicket (codecs : Codecs) (token : String) (sessionId : SessionId)
    (auth : RelayAuthConfig) (nowUnix : UInt64) :
    Except RelayAuthVerifyError VerifiedRelayTicket := do
  let claims ← decodeRelayTicket codecs token auth
  checkClaims claims sessionId auth nowUnix

/-! ### The replay cache -/

def replayCachePruneIntervalSecs : UInt64 := 30

/-- The tickets seen, each with its expiry, and when they were last pruned. -/
structure RelayTicketReplayCache where
  seenJti : Table String UInt64
  lastPruneUnix : UInt64

namespace RelayTicketReplayCache

def new : RelayTicketReplayCache := ⟨∅, 0⟩

/-- Forget the tickets that expired more than the clock skew ago.  `casWon` is the outcome of the
`compare_exchange` that claims the prune. -/
def pruneExpired (cache : RelayTicketReplayCache) (nowUnix : UInt64) (casWon : Bool) :
    RelayTicketReplayCache :=
  if Word64.satSub nowUnix cache.lastPruneUnix < replayCachePruneIntervalSecs then cache
  else if !casWon then cache
  else
    { seenJti := cache.seenJti.retain fun _ seenExp =>
        decide (nowUnix ≤ Word64.satAdd seenExp authClockSkewSecs)
      lastPruneUnix := nowUnix }

def acceptOnce (cache : RelayTicketReplayCache) (jti : String) (exp nowUnix : UInt64)
    (casWon : Bool) : Bool × RelayTicketReplayCache :=
  let cache := cache.pruneExpired nowUnix casWon
  match cache.seenJti.lookup jti with
  | some _ => (false, cache)
  | none => (true, { cache with seenJti := cache.seenJti.insert jti exp })

end RelayTicketReplayCache

def verifyRelayTicketOnce (codecs : Codecs) (token : String) (sessionId : SessionId)
    (auth : RelayAuthConfig) (nowUnix : UInt64) (cache : RelayTicketReplayCache)
    (casWon : Bool) :
    Except RelayAuthVerifyError VerifiedRelayTicket × RelayTicketReplayCache :=
  match verifyRelayTicket codecs token sessionId auth nowUnix with
  | .error e => (.error e, cache)
  | .ok ticket =>
      match cache.acceptOnce ticket.jti ticket.exp nowUnix casWon with
      | (false, cache) => (.error .replay, cache)
      | (true, cache) => (.ok ticket, cache)

/-! ### What an accepted ticket satisfies -/

/-- The lifetime of a ticket is never computed by a subtraction that overflows. -/
theorem claimsMalformed_ne_none (claims : RelayTicketClaims) : claimsMalformed claims ≠ none := by
  unfold claimsMalformed
  split
  · simp
  · next h =>
      simp only [Bool.or_eq_true, decide_eq_true_eq, not_or] at h
      have hle : claims.iat ≤ claims.exp := by
        have := h.2
        rw [UInt64.le_iff_toNat_le] at this ⊢
        omega
      simp [Word64.checkedSub, hle]

theorem claimsMalformed_eq_false {claims : RelayTicketClaims}
    (h : claimsMalformed claims = some false) :
    claims.lease = true ∧ claims.iat.toNat < claims.exp.toNat ∧
      claims.exp.toNat ≤ claims.iat.toNat + 900 := by
  unfold claimsMalformed at h
  split at h
  · cases h
  · next hn =>
      simp only [Bool.or_eq_true, decide_eq_true_eq, not_or, Bool.not_eq_true'] at hn
      obtain ⟨lifetime, hlife, hle⟩ := Option.map_eq_some_iff.1 h
      obtain ⟨hsub, rfl⟩ := Word64.checkedSub_eq_some_iff.1 hlife
      have hexp := hn.2
      rw [decide_eq_false_iff_not, gt_iff_lt, UInt64.lt_iff_toNat_lt,
        Word64.toNat_sub_of_le hsub] at hle
      rw [UInt64.le_iff_toNat_le] at hexp
      have h900 : (900 : UInt64).toNat = 900 := rfl
      exact ⟨by simpa using hn.1.1.1.1.1.1.1.1.2, by omega, by omega⟩

theorem claimsMalformed_sub {claims : RelayTicketClaims} (h : claimsMalformed claims = some false)
    {ch : Char} (hch : ch ∈ claims.sub.toList) : ch.isAlphanum = true ∨ ch = '-' := by
  unfold claimsMalformed at h
  split at h
  · cases h
  · next hn =>
      simp only [Bool.or_eq_true, not_or, Bool.not_eq_true', Bool.not_eq_false] at hn
      have hall := List.all_eq_true.1 hn.1.1.1.1.2 ch hch
      simpa using hall

variable {codecs : Codecs} {auth : RelayAuthConfig} {ticket : VerifiedRelayTicket}
  {cache : RelayTicketReplayCache} {p : List UInt8}

theorem decodeRelayTicket_ok {token : String} {claims : RelayTicketClaims}
    (h : decodeRelayTicket codecs token auth = .ok claims) :
    ∃ payload, payloadOf codecs token = some payload ∧
      codecs.claimsFromJson payload = some claims := by
  unfold decodeRelayTicket at h
  simp only [bind, Except.bind, pure, Except.pure, throw, throwThe, MonadExceptOf.throw] at h
  split at h
  · cases h
  split at h
  · next payloadB64 signatureB64 hparts =>
      split at h
      · next payload hpayload =>
          refine ⟨payload, by simp [payloadOf, hparts, hpayload], ?_⟩
          -- what remains of the decoding only refuses
          repeat' split at h
          all_goals first | cases h; assumption | cases h
      · cases h
  · cases h

theorem checkClaims_ok {claims : RelayTicketClaims} {sessionId : SessionId} {nowUnix : UInt64}
    (h : checkClaims claims sessionId auth nowUnix = .ok ticket) :
    claimsMalformed claims = some false ∧
      claims.iat ≤ Word64.satAdd nowUnix authClockSkewSecs ∧ nowUnix < claims.exp ∧
      ticket = ⟨claims.sub, claims.jti, claims.exp, claims.lease⟩ := by
  unfold checkClaims at h
  simp only [bind, Except.bind, pure, Except.pure, throw, throwThe, MonadExceptOf.throw] at h
  split at h
  · cases h
  next hform =>
  split at h
  · cases h
  split at h
  · cases h
  split at h
  · split at h
    · cases h
    split at h
    · cases h
    next hiat =>
    split at h
    · cases h
    next hexp =>
    cases h
    refine ⟨by simpa using hform, UInt64.not_lt.1 hiat, UInt64.not_le.1 hexp, rfl⟩
  · cases h

theorem verifyRelayTicket_claims {token : String} {sessionId : SessionId} {nowUnix : UInt64}
    (h : verifyRelayTicket codecs token sessionId auth nowUnix = .ok ticket) :
    ∃ claims, decodeRelayTicket codecs token auth = .ok claims ∧
      checkClaims claims sessionId auth nowUnix = .ok ticket := by
  unfold verifyRelayTicket at h
  cases hclaims : decodeRelayTicket codecs token auth with
  | error e => simp [hclaims, bind, Except.bind] at h
  | ok claims => exact ⟨claims, rfl, by simpa only [hclaims, bind, Except.bind] using h⟩

/-- Everything that an accepted ticket satisfies, in terms of the claims of its payload. -/
theorem verifyRelayTicket_ok {token : String} {sessionId : SessionId} {nowUnix : UInt64}
    (h : verifyRelayTicket codecs token sessionId auth nowUnix = .ok ticket) :
    ∃ payload claims, payloadOf codecs token = some payload ∧
      codecs.claimsFromJson payload = some claims ∧
      ticket = ⟨claims.sub, claims.jti, claims.exp, true⟩ ∧
      nowUnix.toNat < claims.exp.toNat ∧ claims.iat.toNat ≤ nowUnix.toNat + 30 ∧
      claims.iat.toNat < claims.exp.toNat ∧ claims.exp.toNat ≤ claims.iat.toNat + 900 := by
  obtain ⟨claims, hclaims, hcheck⟩ := verifyRelayTicket_claims h
  obtain ⟨payload, hpayload, hjson⟩ := decodeRelayTicket_ok hclaims
  obtain ⟨hform, hiat, hexp, rfl⟩ := checkClaims_ok hcheck
  obtain ⟨hlease, hlt, hlife⟩ := claimsMalformed_eq_false hform
  rw [UInt64.le_iff_toNat_le, Word64.toNat_satAdd] at hiat
  rw [UInt64.lt_iff_toNat_lt] at hexp
  have hskew : authClockSkewSecs.toNat = 30 := rfl
  exact ⟨payload, claims, hpayload, hjson, by rw [hlease], hexp, by omega, hlt, hlife⟩

/-- The characters of the account that a ticket names. -/
theorem verifyRelayTicket_userId {token : String} {sessionId : SessionId} {nowUnix : UInt64}
    (h : verifyRelayTicket codecs token sessionId auth nowUnix = .ok ticket) {ch : Char}
    (hch : ch ∈ ticket.userId.toList) : ch.isAlphanum = true ∨ ch = '-' := by
  obtain ⟨claims, -, hcheck⟩ := verifyRelayTicket_claims h
  obtain ⟨hform, -, -, rfl⟩ := checkClaims_ok hcheck
  exact claimsMalformed_sub hform hch

/-! ### Sequences of checks -/

/-- One call of `verify_relay_ticket_once`. -/
structure TicketCall where
  token : String
  sessionId : SessionId
  nowUnix : UInt64
  casWon : Bool

/-- The calls of a sequence against one cache, each with its answer. -/
def runTicketCalls (codecs : Codecs) (auth : RelayAuthConfig) :
    RelayTicketReplayCache → List TicketCall →
      List (TicketCall × Except RelayAuthVerifyError VerifiedRelayTicket)
  | _, [] => []
  | cache, c :: calls =>
      let r := verifyRelayTicketOnce codecs c.token c.sessionId auth c.nowUnix cache c.casWon
      (c, r.1) :: runTicketCalls codecs auth r.2 calls

/-- The payloads accepted by a sequence of calls, in order. -/
def acceptedPayloads (codecs : Codecs) :
    List (TicketCall × Except RelayAuthVerifyError VerifiedRelayTicket) → List (List UInt8)
  | [] => []
  | (c, .ok _) :: rest => (payloadOf codecs c.token).toList ++ acceptedPayloads codecs rest
  | (_, .error _) :: rest => acceptedPayloads codecs rest

/-- The payload `p` cannot be accepted again: its identifier is in the cache, or the largest clock
reading so far is so far past its expiry that no later reading can be before it. -/
def Remembered (codecs : Codecs) (cache : RelayTicketReplayCache) (past : List UInt64)
    (p : List UInt8) : Prop :=
  ∀ claims, codecs.claimsFromJson p = some claims →
    cache.seenJti.lookup claims.jti = some claims.exp ∨
      ∃ t ∈ past, claims.exp.toNat + 30 < t.toNat

theorem Remembered.pruneExpired {past : List UInt64} (h : Remembered codecs cache past p)
    (nowUnix : UInt64) (casWon : Bool) :
    Remembered codecs (cache.pruneExpired nowUnix casWon) (nowUnix :: past) p := by
  intro claims hclaims
  rcases h claims hclaims with hseen | ⟨t, ht, hlt⟩
  · unfold RelayTicketReplayCache.pruneExpired
    split
    · exact Or.inl hseen
    split
    · exact Or.inl hseen
    -- the prune forgets only what expired more than the skew before `nowUnix`
    by_cases hkeep : nowUnix ≤ Word64.satAdd claims.exp authClockSkewSecs
    · refine Or.inl ?_
      rw [Table.lookup_retain, hseen, Option.filter_some_pos (by simpa using hkeep)]
    · refine Or.inr ⟨nowUnix, List.mem_cons_self, ?_⟩
      rw [UInt64.le_iff_toNat_le, Word64.toNat_satAdd] at hkeep
      have hskew : authClockSkewSecs.toNat = 30 := rfl
      have := Word64.toNat_lt nowUnix
      omega
  · exact Or.inr ⟨t, List.mem_cons_of_mem _ ht, hlt⟩

/-- A call either refuses, and then only prunes, or accepts a payload and remembers it. -/
theorem verifyRelayTicketOnce_cases (codecs : Codecs) (auth : RelayAuthConfig)
    (cache : RelayTicketReplayCache) (c : TicketCall) :
    let r := verifyRelayTicketOnce codecs c.token c.sessionId auth c.nowUnix cache c.casWon
    (∃ e, r.1 = .error e ∧ (r.2 = cache ∨ r.2 = cache.pruneExpired c.nowUnix c.casWon)) ∨
    (∃ ticket, r.1 = .ok ticket ∧
      verifyRelayTicket codecs c.token c.sessionId auth c.nowUnix = .ok ticket ∧
      (cache.pruneExpired c.nowUnix c.casWon).seenJti.lookup ticket.jti = none ∧
      r.2.seenJti =
        (cache.pruneExpired c.nowUnix c.casWon).seenJti.insert ticket.jti ticket.exp) := by
  intro r
  cases hv : verifyRelayTicket codecs c.token c.sessionId auth c.nowUnix with
  | error e =>
      have hr : r = (.error e, cache) := by simp only [r, verifyRelayTicketOnce, hv]
      exact Or.inl ⟨e, by rw [hr], Or.inl (by rw [hr])⟩
  | ok ticket =>
      cases hl : (cache.pruneExpired c.nowUnix c.casWon).seenJti.lookup ticket.jti with
      | some seen =>
          have hr : r = (.error .replay, cache.pruneExpired c.nowUnix c.casWon) := by
            simp only [r, verifyRelayTicketOnce, hv, RelayTicketReplayCache.acceptOnce, hl]
          exact Or.inl ⟨.replay, by rw [hr], Or.inr (by rw [hr])⟩
      | none =>
          refine Or.inr ⟨ticket, ?_, rfl, hl, ?_⟩ <;>
            simp only [r, verifyRelayTicketOnce, hv, RelayTicketReplayCache.acceptOnce, hl]

/-- What one call preserves: a remembered payload stays remembered. -/
theorem Remembered.step {past : List UInt64} (h : Remembered codecs cache past p)
    (auth : RelayAuthConfig) (c : TicketCall) :
    Remembered codecs
      (verifyRelayTicketOnce codecs c.token c.sessionId auth c.nowUnix cache c.casWon).2
      (c.nowUnix :: past) p := by
  have hpruned := h.pruneExpired c.nowUnix c.casWon
  rcases verifyRelayTicketOnce_cases codecs auth cache c with
    ⟨e, -, hsame | hprune⟩ | ⟨ticket, -, -, hvacant, hinsert⟩
  · rw [hsame]
    intro claims hclaims
    rcases h claims hclaims with hseen | ⟨t, ht, hlt⟩
    · exact Or.inl hseen
    · exact Or.inr ⟨t, List.mem_cons_of_mem _ ht, hlt⟩
  · rw [hprune]
    exact hpruned
  · intro claims hclaims
    rcases hpruned claims hclaims with hseen | hpast
    · refine Or.inl ?_
      -- the new entry has another identifier: its place was vacant
      rw [hinsert, Table.lookup_insert_eq, if_neg, hseen]
      intro heq
      rw [heq, hvacant] at hseen
      cases hseen
    · exact Or.inr hpast

theorem remembered_of_accepted {c : TicketCall} (past : List UInt64)
    (hp : payloadOf codecs c.token = some p)
    (h : (verifyRelayTicketOnce codecs c.token c.sessionId auth c.nowUnix cache c.casWon).1
      = .ok ticket) :
    Remembered codecs
      (verifyRelayTicketOnce codecs c.token c.sessionId auth c.nowUnix cache c.casWon).2
      (c.nowUnix :: past) p := by
  intro claims hclaims
  rcases verifyRelayTicketOnce_cases codecs auth cache c with
    ⟨e, he, -⟩ | ⟨ticket', -, hv, -, hinsert⟩
  · rw [h] at he
    cases he
  · obtain ⟨payload, claims', hpayload, hjson, rfl, -⟩ := verifyRelayTicket_ok hv
    rw [hp] at hpayload
    cases hpayload
    rw [hclaims] at hjson
    cases hjson
    exact Or.inl (by rw [hinsert, Table.lookup_insert_eq, if_pos rfl])

/-- A remembered payload is refused, as long as the clock has not fallen more than 30 seconds. -/
theorem refused_of_remembered {past : List UInt64} {c : TicketCall}
    (h : Remembered codecs cache past p) (auth : RelayAuthConfig)
    (hclock : ∀ t ∈ past, t.toNat ≤ c.nowUnix.toNat + 30) (hp : payloadOf codecs c.token = some p)
    (ticket : VerifiedRelayTicket) :
    (verifyRelayTicketOnce codecs c.token c.sessionId auth c.nowUnix cache c.casWon).1
      ≠ .ok ticket := by
  intro hok
  rcases verifyRelayTicketOnce_cases codecs auth cache c with
    ⟨e, he, -⟩ | ⟨ticket', -, hv, hvacant, -⟩
  · rw [hok] at he
    cases he
  · obtain ⟨payload, claims, hpayload, hjson, rfl, hexp, -⟩ := verifyRelayTicket_ok hv
    rw [hp] at hpayload
    cases hpayload
    rcases (h.pruneExpired c.nowUnix c.casWon) claims hjson with hseen | ⟨t, ht, hlt⟩
    · rw [hvacant] at hseen
      cases hseen
    · rcases List.mem_cons.1 ht with rfl | ht
      · omega
      · have := hclock t ht
        omega

/-- No call of a run accepts a payload that is remembered at its start. -/
theorem not_mem_acceptedPayloads :
    ∀ (calls : List TicketCall) (cache : RelayTicketReplayCache) (past : List UInt64),
      Remembered codecs cache past p →
      (∀ t ∈ past, ∀ c ∈ calls, t.toNat ≤ c.nowUnix.toNat + 30) →
      (calls.Pairwise fun earlier later => earlier.nowUnix.toNat ≤ later.nowUnix.toNat + 30) →
      p ∉ acceptedPayloads codecs (runTicketCalls codecs auth cache calls) := by
  intro calls
  induction calls with
  | nil => intro cache past _ _ _; simp [runTicketCalls, acceptedPayloads]
  | cons c calls ih =>
      intro cache past hrem hpast hclock
      obtain ⟨hc, hcalls⟩ := List.pairwise_cons.1 hclock
      have htail := ih _ (c.nowUnix :: past) (hrem.step auth c)
        (by
          intro t ht d hd
          rcases List.mem_cons.1 ht with rfl | ht
          · exact hc d hd
          · exact hpast t ht d (List.mem_cons_of_mem _ hd))
        hcalls
      have hhead := refused_of_remembered hrem auth fun t ht => hpast t ht c List.mem_cons_self
      rw [runTicketCalls]
      cases hr : (verifyRelayTicketOnce codecs c.token c.sessionId auth c.nowUnix cache
          c.casWon).1 with
      | error e => simpa only [hr, acceptedPayloads] using htail
      | ok ticket =>
          simp only [acceptedPayloads, List.mem_append, Option.mem_toList, not_or]
          exact ⟨fun hp => hhead hp ticket hr, htail⟩

theorem nodup_acceptedPayloads :
    ∀ (calls : List TicketCall) (cache : RelayTicketReplayCache),
      (calls.Pairwise fun earlier later => earlier.nowUnix.toNat ≤ later.nowUnix.toNat + 30) →
      (acceptedPayloads codecs (runTicketCalls codecs auth cache calls)).Nodup := by
  intro calls
  induction calls with
  | nil => intro cache _; simp [runTicketCalls, acceptedPayloads]
  | cons c calls ih =>
      intro cache hclock
      obtain ⟨hc, hcalls⟩ := List.pairwise_cons.1 hclock
      rw [runTicketCalls]
      cases hr : (verifyRelayTicketOnce codecs c.token c.sessionId auth c.nowUnix cache
          c.casWon).1 with
      | error e => simpa only [hr, acceptedPayloads] using ih _ hcalls
      | ok ticket =>
          simp only [acceptedPayloads]
          cases hp : payloadOf codecs c.token with
          | none => simpa using ih _ hcalls
          | some p =>
              simp only [Option.toList_some, List.singleton_append, List.nodup_cons]
              refine ⟨?_, ih _ hcalls⟩
              exact not_mem_acceptedPayloads calls _ [c.nowUnix]
                (remembered_of_accepted [] hp hr)
                (fun t ht d hd => by rw [List.mem_singleton.1 ht]; exact hc d hd) hcalls

/-- The answer `.ok` in a run comes from a ticket that passed `verify_relay_ticket`. -/
theorem verified_of_mem_runTicketCalls {c : TicketCall} :
    ∀ (calls : List TicketCall) (cache : RelayTicketReplayCache),
      (c, .ok ticket) ∈ runTicketCalls codecs auth cache calls →
      verifyRelayTicket codecs c.token c.sessionId auth c.nowUnix = .ok ticket := by
  intro calls
  induction calls with
  | nil => intro cache h; simp [runTicketCalls] at h
  | cons d calls ih =>
      intro cache h
      rw [runTicketCalls] at h
      rcases List.mem_cons.1 h with h | h
      · obtain ⟨rfl, hok⟩ := Prod.mk.inj h
        rcases verifyRelayTicketOnce_cases codecs auth cache c with ⟨e, he, -⟩ | ⟨t, ht, hv, -⟩
        · rw [← hok] at he
          cases he
        · rw [← hok] at ht
          cases ht
          exact hv
      · exact ih _ h

/-- Tickets are single use and bounded: in a run of checks against one cache, with a clock that
never falls more than 30 seconds below its largest reading, no signed payload is accepted twice;
every acceptance is before the expiry, at most 30 seconds before the issue and at most 930 seconds
before the expiry; and the lifetime is never computed by an overflowing subtraction. -/
theorem tickets_single_use_and_bounded (codecs : Codecs) (auth : RelayAuthConfig)
    (calls : List TicketCall)
    (hclock : calls.Pairwise fun earlier later =>
      earlier.nowUnix.toNat ≤ later.nowUnix.toNat + 30) :
    (acceptedPayloads codecs (runTicketCalls codecs auth .new calls)).Nodup ∧
    (∀ c ticket, (c, .ok ticket) ∈ runTicketCalls codecs auth .new calls →
      ∃ payload claims, payloadOf codecs c.token = some payload ∧
        codecs.claimsFromJson payload = some claims ∧
        c.nowUnix.toNat < claims.exp.toNat ∧
        claims.iat.toNat ≤ c.nowUnix.toNat + 30 ∧
        claims.exp.toNat ≤ c.nowUnix.toNat + 930 ∧
        Word64.checkedSub claims.exp claims.iat = some (claims.exp - claims.iat)) ∧
    (∀ claims, claimsMalformed claims ≠ none) := by
  refine ⟨nodup_acceptedPayloads calls .new hclock, ?_, claimsMalformed_ne_none⟩
  intro c ticket hmem
  have hv := verified_of_mem_runTicketCalls calls .new hmem
  obtain ⟨payload, claims, hpayload, hjson, -, hexp, hiat, hlt, hlife⟩ := verifyRelayTicket_ok hv
  refine ⟨payload, claims, hpayload, hjson, hexp, hiat, by omega, ?_⟩
  refine Word64.checkedSub_eq_some_iff.2 ⟨?_, rfl⟩
  rw [UInt64.le_iff_toNat_le]
  omega

/-! ### Signed samples

Three tickets for session 1, signed with the key of the relay's own tests (the seed is 32 times the
byte 7): a first ticket of account `a`, its renewal, and a ticket of account `b`. -/

theorem splitOnce_append {l r : List Char} {c : Char} (h : c ∉ l) :
    splitOnce (String.ofList (l ++ c :: r)) c = some (String.ofList l, String.ofList r) := by
  have hl : ∀ a ∈ l, decide (a ≠ c) = true := by
    intro a ha
    simp only [decide_eq_true_eq]
    rintro rfl
    exact h ha
  have htake : (l ++ c :: r).takeWhile (fun a => decide (a ≠ c)) = l := by
    rw [List.takeWhile_append_of_pos hl]
    simp
  have hdrop : (l ++ c :: r).dropWhile (fun a => decide (a ≠ c)) = c :: r := by
    rw [List.dropWhile_append_of_pos hl]
    simp
  simp only [splitOnce, String.toList_ofList, List.mem_append, List.mem_cons, true_or, or_true,
    if_true, htake, hdrop, List.drop_one, List.tail_cons]

/-- A ticket with its encodings, and the claims that its payload spells. -/
structure SampleTicket where
  payload : String
  payloadB64 : String
  signature : List UInt8
  signatureB64 : String
  size : ℕ
  size_eq : (payloadB64 ++ "." ++ signatureB64).utf8ByteSize = size
  claims : RelayTicketClaims

def SampleTicket.token (t : SampleTicket) : String := t.payloadB64 ++ "." ++ t.signatureB64

def SampleTicket.payloadBytes (t : SampleTicket) : List UInt8 := t.payload.toUTF8.data.toList

def samplePublicKey : List UInt8 :=
  [234, 74, 108, 99, 226, 156, 82, 10, 190, 245, 80, 123, 19, 46, 197, 249, 149, 71, 118,
   174, 190, 190, 123, 146, 66, 30, 234, 105, 20, 70, 210, 44]

def sampleTicketA : SampleTicket where
  payload :=
    "\x7b\"v\":1,\"iss\":\"swifttunnel-web\",\"aud\":\"swifttunnel-relay\",\"sub\":\"a\",\"sid\":\"0000000000000001\",\"srv\":\"s\",\"iat\":100,\"exp\":400,\"jti\":\"j1\",\"lease\":true\x7d"
  payloadB64 :=
    "eyJ2IjoxLCJpc3MiOiJzd2lmdHR1bm5lbC13ZWIiLCJhdWQiOiJzd2lmdHR1bm5lbC1yZWxheSIsInN1YiI6ImEiLCJzaWQiOiIwMDAwMDAwMDAwMDAwMDAxIiwic3J2IjoicyIsImlhdCI6MTAwLCJleHAiOjQwMCwianRpIjoiajEiLCJsZWFzZSI6dHJ1ZX0"
  signature :=
    [127, 242, 229, 98, 33, 134, 126, 67, 199, 35, 23, 240, 62, 241, 232, 209, 255, 70, 181,
     230, 185, 136, 205, 31, 16, 188, 250, 80, 206, 244, 245, 157, 244, 5, 61, 207, 92, 189,
     59, 142, 234, 10, 24, 60, 129, 150, 63, 217, 99, 127, 85, 222, 109, 88, 80, 96, 148,
     103, 150, 23, 200, 86, 175, 2]
  signatureB64 :=
    "f_LlYiGGfkPHIxfwPvHo0f9Gtea5iM0fELz6UM709Z30BT3PXL07juoKGDyBlj_ZY39V3m1YUGCUZ5YXyFavAg"
  size := 282
  size_eq := by decide +kernel
  claims :=
    ⟨1, "swifttunnel-web", "swifttunnel-relay", "a", "0000000000000001", "s", 100, 400, "j1", true⟩

def sampleRenewalA : SampleTicket where
  payload :=
    "\x7b\"v\":1,\"iss\":\"swifttunnel-web\",\"aud\":\"swifttunnel-relay\",\"sub\":\"a\",\"sid\":\"0000000000000001\",\"srv\":\"s\",\"iat\":450,\"exp\":750,\"jti\":\"j2\",\"lease\":true\x7d"
  payloadB64 :=
    "eyJ2IjoxLCJpc3MiOiJzd2lmdHR1bm5lbC13ZWIiLCJhdWQiOiJzd2lmdHR1bm5lbC1yZWxheSIsInN1YiI6ImEiLCJzaWQiOiIwMDAwMDAwMDAwMDAwMDAxIiwic3J2IjoicyIsImlhdCI6NDUwLCJleHAiOjc1MCwianRpIjoiajIiLCJsZWFzZSI6dHJ1ZX0"
  signature :=
    [231, 107, 203, 179, 4, 253, 96, 86, 153, 169, 186, 163, 251, 194, 37, 215, 228, 217,
     35, 201, 198, 191, 153, 52, 218, 223, 98, 98, 140, 205, 14, 171, 139, 144, 178, 128,
     47, 185, 166, 70, 239, 162, 113, 11, 13, 39, 73, 188, 100, 104, 97, 60, 216, 162, 208,
     25, 12, 204, 181, 203, 78, 0, 226, 13]
  signatureB64 :=
    "52vLswT9YFaZqbqj-8Il1-TZI8nGv5k02t9iYozNDquLkLKAL7mmRu-icQsNJ0m8ZGhhPNii0BkMzLXLTgDiDQ"
  size := 282
  size_eq := by decide +kernel
  claims :=
    ⟨1, "swifttunnel-web", "swifttunnel-relay", "a", "0000000000000001", "s", 450, 750, "j2", true⟩

def sampleTicketB : SampleTicket where
  payload :=
    "\x7b\"v\":1,\"iss\":\"swifttunnel-web\",\"aud\":\"swifttunnel-relay\",\"sub\":\"b\",\"sid\":\"0000000000000001\",\"srv\":\"s\",\"iat\":700,\"exp\":1000,\"jti\":\"j3\",\"lease\":true\x7d"
  payloadB64 :=
    "eyJ2IjoxLCJpc3MiOiJzd2lmdHR1bm5lbC13ZWIiLCJhdWQiOiJzd2lmdHR1bm5lbC1yZWxheSIsInN1YiI6ImIiLCJzaWQiOiIwMDAwMDAwMDAwMDAwMDAxIiwic3J2IjoicyIsImlhdCI6NzAwLCJleHAiOjEwMDAsImp0aSI6ImozIiwibGVhc2UiOnRydWV9"
  signature :=
    [40, 131, 39, 189, 51, 43, 24, 70, 42, 75, 159, 163, 38, 21, 90, 138, 135, 211, 7, 81,
     25, 164, 39, 225, 156, 2, 121, 70, 239, 216, 68, 50, 122, 117, 233, 248, 173, 237, 54,
     10, 31, 148, 59, 130, 53, 94, 92, 255, 98, 43, 167, 44, 105, 165, 181, 234, 117, 80,
     215, 191, 52, 85, 243, 0]
  signatureB64 :=
    "KIMnvTMrGEYqS5-jJhVaiofTB1EZpCfhnAJ5Ru_YRDJ6den4re02Ch-UO4I1Xlz_YiunLGmltep1UNe_NFXzAA"
  size := 283
  size_eq := by decide +kernel
  claims :=
    ⟨1, "swifttunnel-web", "swifttunnel-relay", "b", "0000000000000001", "s", 700, 1000, "j3", true⟩

def sampleTickets : List SampleTicket := [sampleTicketA, sampleRenewalA, sampleTicketB]

/-- Base64, Ed25519 and JSON on the sample tickets. -/
def sampleCodecs : Codecs where
  urlSafeNoPad input :=
    sampleTickets.findSome? fun t =>
      if input = t.payloadB64 then some t.payloadBytes
      else if input = t.signatureB64 then some t.signature
      else none
  urlSafe _ := none
  standard _ := none
  ed25519Verify key payload signature :=
    sampleTickets.any fun t =>
      key == samplePublicKey && payload == t.payloadBytes && signature == t.signature
  claimsFromJson payload := (sampleTickets.find? fun t => payload == t.payloadBytes).map (·.claims)

def sampleAuth : RelayAuthConfig := ⟨.required, some samplePublicKey, some "s"⟩

theorem SampleTicket.splitOnce_token {t : SampleTicket} (h : '.' ∉ t.payloadB64.toList) :
    splitOnce t.token '.' = some (t.payloadB64, t.signatureB64) := by
  have htoken : t.token = String.ofList (t.payloadB64.toList ++ '.' :: t.signatureB64.toList) := by
    apply String.toList_inj.1
    simp [SampleTicket.token]
  rw [htoken, splitOnce_append h, String.ofList_toList, String.ofList_toList]

theorem SampleTicket.decodeRelayTicket_token {t : SampleTicket} {publicKey : List UInt8}
    (hdot : '.' ∉ t.payloadB64.toList)
    (hsize : (t.token.isEmpty || decide (t.token.utf8ByteSize > maxAuthTokenLen)) = false)
    (hpayload : codecs.urlSafeNoPad t.payloadB64 = some t.payloadBytes)
    (hsignature : codecs.urlSafeNoPad t.signatureB64 = some t.signature)
    (hlength : t.signature.length = 64) (hkey : auth.publicKey = some publicKey)
    (hverify : codecs.ed25519Verify publicKey t.payloadBytes t.signature = true)
    (hjson : codecs.claimsFromJson t.payloadBytes = some t.claims) :
    decodeRelayTicket codecs t.token auth = .ok t.claims := by
  simp only [decodeRelayTicket, hsize, SampleTicket.splitOnce_token hdot, decodeBase64Flexible,
    hpayload, hsignature, hlength, hkey, hverify, hjson, Option.some_or, bind, Except.bind, pure,
    Except.pure, Bool.false_eq_true, if_false, ne_eq, not_true_eq_false, Bool.not_true]

/-- For a string literal, whose characters unification finds without decoding its bytes. -/
theorem not_mem_toList {s : String} {l : List Char} {c : Char} (hs : s = String.ofList l)
    (h : c ∉ l) : c ∉ s.toList := by
  rw [hs, String.toList_ofList]
  exact h

theorem SampleTicket.payloadBytes_inj {t t' : SampleTicket} :
    t.payloadBytes = t'.payloadBytes ↔ t.payload = t'.payload := by
  simp only [SampleTicket.payloadBytes, Array.toList_inj]
  constructor
  · intro h
    have hbytes : t.payload.toByteArray = t'.payload.toByteArray := ByteArray.ext h
    exact String.toByteArray_inj.1 hbytes
  · intro h
    rw [h]

set_option maxRecDepth 3000 in
theorem decodeRelayTicket_sample :
    ∀ t ∈ sampleTickets, decodeRelayTicket sampleCodecs t.token sampleAuth = .ok t.claims := by
  have hdot : ∀ t ∈ sampleTickets, '.' ∉ t.payloadB64.toList := by
    simp only [sampleTickets, List.forall_mem_cons, List.not_mem_nil, false_imp_iff, implies_true,
      and_true]
    exact ⟨not_mem_toList rfl (by decide +kernel), not_mem_toList rfl (by decide +kernel),
      not_mem_toList rfl (by decide +kernel)⟩
  have hsizes : ∀ t ∈ sampleTickets, 0 < t.size ∧ t.size ≤ maxAuthTokenLen := by
    simp [sampleTickets, sampleTicketA, sampleRenewalA, sampleTicketB, maxAuthTokenLen]
  have htables : ∀ t ∈ sampleTickets,
      sampleCodecs.urlSafeNoPad t.payloadB64 = some t.payloadBytes ∧
      sampleCodecs.urlSafeNoPad t.signatureB64 = some t.signature ∧
      t.signature.length = 64 ∧
      sampleCodecs.ed25519Verify samplePublicKey t.payloadBytes t.signature = true ∧
      sampleCodecs.claimsFromJson t.payloadBytes = some t.claims := by
    simp [sampleCodecs, sampleTickets, SampleTicket.payloadBytes_inj, sampleTicketA, sampleRenewalA,
      sampleTicketB]
  intro t ht
  have hsize : (t.token.isEmpty || decide (t.token.utf8ByteSize > maxAuthTokenLen)) = false := by
    obtain ⟨hpos, hle⟩ := hsizes t ht
    have heq : t.token.utf8ByteSize = t.size := t.size_eq
    simp [String.isEmpty, heq, Nat.ne_of_gt hpos, hle]
  obtain ⟨hpayload, hsignature, hlength, hverify, hjson⟩ := htables t ht
  exact SampleTicket.decodeRelayTicket_token (hdot t ht) hsize hpayload hsignature hlength
    rfl hverify hjson

theorem verifyRelayTicket_sample {t : SampleTicket} (ht : t ∈ sampleTickets)
    (sessionId : SessionId) (nowUnix : UInt64) :
    verifyRelayTicket sampleCodecs t.token sessionId sampleAuth nowUnix =
      checkClaims t.claims sessionId sampleAuth nowUnix := by
  rw [verifyRelayTicket, decodeRelayTicket_sample t ht]
  rfl

/-- One ticket presented three times, the second time with a clock ten seconds behind and the third
time in the last second before its expiry, after a prune. -/
def presentedThrice (token : String) : List TicketCall :=
  [⟨token, 1, 200, true⟩, ⟨token, 1, 190, true⟩, ⟨token, 1, 399, true⟩]

theorem runTicketCalls_presentedThrice {token : String} (h : ∀ now ∈ [200, 190, 399],
      verifyRelayTicket codecs token 1 auth now = .ok ⟨"a", "j1", 400, true⟩) :
    (runTicketCalls codecs auth .new (presentedThrice token)).map Prod.snd =
      [.ok ⟨"a", "j1", 400, true⟩, .error .replay, .error .replay] := by
  simp only [runTicketCalls, presentedThrice, verifyRelayTicketOnce, h 200 (by simp),
    h 190 (by simp), h 399 (by simp), List.map_cons, List.map_nil]
  decide

theorem tickets_single_use_and_bounded_sample :
    ((presentedThrice sampleTicketA.token).Pairwise fun earlier later =>
      earlier.nowUnix.toNat ≤ later.nowUnix.toNat + 30) ∧
    (runTicketCalls sampleCodecs sampleAuth .new (presentedThrice sampleTicketA.token)).map
      Prod.snd = [.ok ⟨"a", "j1", 400, true⟩, .error .replay, .error .replay] ∧
    (acceptedPayloads sampleCodecs (runTicketCalls sampleCodecs sampleAuth .new
      (presentedThrice sampleTicketA.token))).Nodup := by
  have hclock : (presentedThrice sampleTicketA.token).Pairwise fun earlier later =>
      earlier.nowUnix.toNat ≤ later.nowUnix.toNat + 30 := by
    simp [presentedThrice]
  refine ⟨hclock, ?_, (tickets_single_use_and_bounded _ _ _ hclock).1⟩
  apply runTicketCalls_presentedThrice
  intro now hnow
  rw [verifyRelayTicket_sample (by simp [sampleTickets])]
  simp only [List.mem_cons, List.not_mem_nil, or_false] at hnow
  obtain rfl | rfl | rfl := hnow <;> decide +kernel

end SwiftRelay
