/-
**The texts of the connections payload.**

The stats server reports the connections as JSON, and writes the texts in it (the account, the
session, its state, the endpoint) with a hand-written table of escapes.  The table covers the
quotation mark, the backslash and three of the control characters; the others are copied.  None of
them gets into the session map: the account of a session is made up from its identifier, or is the
tunnel address of the client, or was named by a ticket, and a ticket may name letters, digits and
hyphens only.

Main definitions:

* `escapeJson` — a text as it stands between the quotation marks;
* `escapeChar` — what it writes for one character;
* `connectionTexts` — the texts of a connection;
* `Named`, `nameContract` — the accounts in the session map are free of control characters.

Main results:

* `escapeJson_eq_flatMap` — the loop writes the characters one after the other;
* `escapeJson_lossless_iff` — the texts that are written as well-formed JSON and read back as they
  were;
* `connection_texts_lossless` — in every run, all texts of all connections are among them.
-/

import SwiftRelay.JsonString
import SwiftRelay.Admission

set_option autoImplicit false

namespace SwiftRelay

open JsonString Conc

/-! ### Escaping -/

/-- The body of the loop of `escape_json`. -/
def pushEscaped (escaped : String) (ch : Char) : String :=
  match ch with
  | '"' => escaped ++ "\\\""
  | '\\' => escaped ++ "\\\\"
  | '\n' => escaped ++ "\\n"
  | '\r' => escaped ++ "\\r"
  | '\t' => escaped ++ "\\t"
  | _ => escaped.push ch

/-- `escape_json`. -/
def escapeJson (value : String) : String := value.toList.foldl pushEscaped ""

/-- What one character adds to the text. -/
def escapeChar (ch : Char) : List Char := (pushEscaped "" ch).toList

theorem toList_pushEscaped (escaped : String) (ch : Char) :
    (pushEscaped escaped ch).toList = escaped.toList ++ escapeChar ch := by
  unfold escapeChar pushEscaped
  split <;> simp

theorem toList_foldl_pushEscaped (chars : List Char) (escaped : String) :
    (chars.foldl pushEscaped escaped).toList = escaped.toList ++ chars.flatMap escapeChar := by
  induction chars generalizing escaped with
  | nil => simp
  | cons ch chars ih =>
      rw [List.foldl_cons, ih, toList_pushEscaped, List.flatMap_cons, List.append_assoc]

/-- The loop writes the characters one after the other. -/
theorem escapeJson_eq_flatMap (value : String) :
    escapeJson value = String.ofList (value.toList.flatMap escapeChar) := by
  rw [← String.toList_inj, String.toList_ofList, escapeJson, toList_foldl_pushEscaped]
  rfl

/-! ### What is read back -/

/-- A character is no control character, or one of the three that the table covers. -/
def Escapable (ch : Char) : Prop :=
  ch.toNat < 0x20 → ch = '\n' ∨ ch = '\r' ∨ ch = '\t'

theorem escapeChar_writes {ch : Char} (h : Escapable ch) : Writes (escapeChar ch) ch := by
  unfold escapeChar pushEscaped
  split
  case h_1 => exact .escape (by decide)
  case h_2 => exact .escape (by decide)
  case h_3 => exact .escape (by decide)
  case h_4 => exact .escape (by decide)
  case h_5 => exact .escape (by decide)
  case h_6 hquote hbackslash hn hr ht =>
      have hspace : 0x20 ≤ ch.toNat := by
        by_contra hlt
        rcases h (by omega) with rfl | rfl | rfl
        · exact hn rfl
        · exact hr rfl
        · exact ht rfl
      have hne22 : ch.toNat ≠ 0x22 := fun heq => hquote (Char.toNat_inj.1 heq)
      have hne5C : ch.toNat ≠ 0x5C := fun heq => hbackslash (Char.toNat_inj.1 heq)
      have hmax : ch.toNat < 0x110000 := by
        rcases ch.valid with hlt | hlt
        · exact Nat.lt_trans hlt (by decide)
        · exact hlt.2
      have hself : unescaped ch = true := by
        simp only [unescaped, Bool.or_eq_true, Bool.and_eq_true, decide_eq_true_eq]
        omega
      simpa using Writes.itself hself

/-- A character that the table does not cover is copied. -/
theorem mem_escapeChar {ch : Char} (h : ¬ Escapable ch) : ch ∈ escapeChar ch := by
  unfold escapeChar pushEscaped
  split
  case h_6 => simp
  all_goals exact absurd (by unfold Escapable; decide) h

theorem escapeJson_lossless {value : String} (h : ∀ ch ∈ value.toList, Escapable ch) :
    IsString (quote (escapeJson value)) ∧ decode (quote (escapeJson value)) = some value := by
  have hwrites : ∀ ch ∈ value.toList, Writes (escapeChar ch) ch :=
    fun ch hch => escapeChar_writes (h ch hch)
  rw [escapeJson_eq_flatMap]
  exact ⟨isString_flatMap hwrites, by rw [decode_flatMap hwrites, String.ofList_toList]⟩

/-- The text between quotation marks is a JSON string that stands for the value exactly when every
control character of the value is one of the three that the table covers. -/
theorem escapeJson_lossless_iff (value : String) :
    (IsString (quote (escapeJson value)) ∧ decode (quote (escapeJson value)) = some value) ↔
      ∀ ch ∈ value.toList, ch.toNat < 0x20 → ch = '\n' ∨ ch = '\r' ∨ ch = '\t' := by
  refine ⟨?_, escapeJson_lossless⟩
  rintro ⟨hstring, -⟩ ch hch
  by_contra hnot
  have hitems := (isString_quote_iff _).1 hstring
  rw [escapeJson_eq_flatMap, String.toList_ofList] at hitems
  have hspace := hitems.space_le ch (List.mem_flatMap.2 ⟨ch, hch, mem_escapeChar hnot⟩)
  exact hnot fun hlt => absurd hlt (by omega)

/-- A control character that is copied ends the well-formedness of the string. -/
theorem escapeJson_start_of_heading :
    escapeJson "\x01" = "\x01" ∧ ¬ IsString (quote (escapeJson "\x01")) ∧
      decode (quote (escapeJson "\x01")) = none := by
  refine ⟨by decide, ?_, by decide⟩
  rw [isString_quote_iff, items_iff_units_isSome]
  decide

/-! ### The texts of a connection -/

def SessionAuthState.asStr : SessionAuthState → String
  | .legacy => "legacy"
  | .authenticated => "authenticated"

/-- The printed form of an endpoint. -/
def SocketAddr.toText (addr : SocketAddr) : String :=
  addr.ip.toText ++ ":" ++ toString addr.port.toNat

/-- The texts that `render_connections_payload` escapes for a session: `user_id`, `session_id`,
`auth_state` and `client_endpoint`. -/
def connectionTexts (sid : SessionId) (entry : SessionEntry) : List String :=
  [entry.userId, formatHex016 sid, entry.authState.asStr, entry.clientAddr.toText]

/-- There is no control character in the text. -/
def Plain (text : String) : Prop := ∀ ch ∈ text.toList, 0x20 ≤ ch.toNat

instance (text : String) : Decidable (Plain text) :=
  decidable_of_iff (text.toList.all fun ch => 0x20 ≤ ch.toNat) (by simp [Plain])

theorem Plain.append {a b : String} (ha : Plain a) (hb : Plain b) : Plain (a ++ b) := by
  intro ch hch
  rw [String.toList_append, List.mem_append] at hch
  exact hch.elim (ha ch) (hb ch)

theorem plain_toString (n : ℕ) : Plain (toString n) := by
  intro ch hch
  have hdigit := Nat.isDigit_of_mem_toDigits (by decide) (by decide) (Nat.toList_repr ▸ hch)
  have hle : 48 ≤ ch.toNat := (Char.isDigit_iff_toNat.1 hdigit).1
  omega

theorem plain_ipv4 (ip : Ipv4Addr) : Plain ip.toText := by
  have hdot : Plain "." := by decide
  have hoctet (o : UInt8) : Plain (toString o.toNat) := plain_toString _
  exact (((((hoctet _).append hdot).append (hoctet _)).append hdot).append (hoctet _)).append hdot
    |>.append (hoctet _)

theorem plain_formatHex016 (sid : SessionId) : Plain (formatHex016 sid) := by
  have hdigit : ∀ n < 16, 0x20 ≤ (hexDigit n).toNat := by decide
  intro ch hch
  rw [formatHex016, String.toList_ofList, List.mem_map] at hch
  obtain ⟨i, -, rfl⟩ := hch
  exact hdigit _ (Nat.mod_lt _ (by decide))

theorem plain_deriveUserId (sid : SessionId) : Plain (deriveUserId sid) :=
  .append (by decide) (plain_formatHex016 sid)

theorem plain_of_ticket {codecs : Codecs} {token : String} {sid : SessionId}
    {auth : RelayAuthConfig} {nowUnix : UInt64} {ticket : VerifiedRelayTicket}
    (h : verifyRelayTicket codecs token sid auth nowUnix = .ok ticket) : Plain ticket.userId := by
  intro ch hch
  rcases verifyRelayTicket_userId h hch with halnum | rfl
  · by_contra hlt
    -- no control character is a letter or a digit
    have hcontrol : ∀ n < 0x20, (Char.ofNat n).isAlphanum = false := by decide
    have hnot := hcontrol ch.toNat (Nat.not_le.1 hlt)
    rw [Char.ofNat_toNat, halnum] at hnot
    cases hnot
  · decide

/-! ### The accounts in the session map -/

variable {env : RelayEnv} {t : Tid} {o : RelayOp} {w : RelayWorld env}

/-- The accounts in the session map are free of control characters. -/
def Named (w : RelayWorld env) : Prop :=
  ∀ sid e, w.st.core.sessions.lookup sid = some e → Plain e.userId

/-- The account that an operation brings into the session map is free of control characters. -/
def NamesPlainly : RelayOp → Prop
  | .core (.entryInsert _ e) => Plain e.userId
  | .core (.helloApply _ ticket ..) => Plain ticket.userId
  | _ => True

def nameContract (env : RelayEnv) : Contract (relaySystem env) where
  cond _ _ := True
  inv := Named
  may := may
  pre _ o _ := NamesPlainly o
  post _ _ := True

theorem named_exec {r : o.Ret} {st : RelayState} (hinv : Named w) (hpre : NamesPlainly o)
    (hexec : execRelay env t o w.st = some (r, st)) :
    Named (w.after t o r st : RelayWorld env) := by
  intro sid e' he'
  have hstep := entryStep hexec sid
  rw [System.World.after_st] at he'
  rw [he'] at hstep
  generalize hx : w.st.core.sessions.lookup sid = x at hstep
  cases hstep with
  | insert _ _ ho =>
      subst ho
      exact hpre
  | same => exact hinv sid e' hx
  | modify o' f e ho hmod =>
      subst ho
      cases o' <;> simp only [CoreOp.modifies, Option.some.injEq, Prod.mk.injEq,
        reduceCtorEq] at hmod <;> obtain ⟨rfl, rfl⟩ := hmod
      case entryTouch => exact hinv _ e hx
      case helloApply => exact hpre
      case setLegacyUser srcIp hlock =>
        simp only [SessionEntry.observe]
        split
        · exact hinv _ e hx
        · exact plain_ipv4 srcIp
      case refresh => exact hinv _ e hx

/-- Only the receive loop brings accounts into the session map. -/
theorem namesPlainly_of_may (hmay : may t o) (hne : t ≠ .rx) : NamesPlainly o := by
  unfold NamesPlainly
  split
  · cases t <;> simp_all [may, CoreOp.ofCleanup, CoreOp.ofSender, CoreOp.ofFlow]
  · cases t <;> simp_all [may, CoreOp.ofCleanup, CoreOp.ofSender, CoreOp.ofFlow]
  · trivial

theorem AdmitOp.namesPlainly {d : Datagram} {ticket : Option VerifiedRelayTicket}
    (h : AdmitOp d ticket o) (hticket : ∀ v, ticket = some v → Plain v.userId) :
    NamesPlainly o := by
  unfold NamesPlainly
  split
  · rw [show _ = _ from h]
    exact plain_deriveUserId _
  · exact hticket _ h
  · trivial

theorem wp_admitted {d : Datagram} {ticket : Option VerifiedRelayTicket} {p : RelayProg Unit}
    (hp : p.Uses (AdmitOp d ticket)) (hticket : ∀ v, ticket = some v → Plain v.userId) :
    (nameContract env).wp .rx p (fun _ _ => True) w :=
  Contract.wp_of_permitted (hp.mono fun _ ho _ _ => ho.namesPlainly hticket)

/-- The ticket of a hello has been verified in the pass. -/
theorem rxPass_names_wp (d : Datagram) :
    (nameContract env).wp .rx (rxPass env d) (fun _ _ => True) w := by
  have hnone : ∀ v, (none : Option VerifiedRelayTicket) = some v → Plain v.userId := by simp
  have hdrop (reason : DropReason) (w : RelayWorld env) :
      (nameContract env).wp .rx (dropIn reason) (fun _ _ => True) w :=
    wp_core _ .true trivial (fun _ _ _ => trivial) fun _ _ _ _ _ _ _ => trivial
  have hack (status : AckStatus) (w : RelayWorld env) :
      (nameContract env).wp .rx (sendAuthAck env d status) (fun _ _ => True) w :=
    wp_admitted ((sendAuthAck_entry none status).mono fun _ h => h.1) hnone
  unfold rxPass
  split
  · exact hdrop _ w
  split
  · split
    · refine wp_core_bind _ .true trivial (fun _ _ _ => trivial) fun _ allowed _ _ _ _ _ => ?_
      split
      · exact hdrop _ _
      split
      · exact hack _ _
      · refine wp_core_bind _ .true trivial (fun _ _ _ => trivial) fun _ result _ _ _ hexec _ => ?_
        cases result with
        | error err => exact hack _ _
        | ok ticket =>
            refine wp_admitted (rxAdmit_uses (some ticket)) fun v hv => ?_
            cases hv
            exact plain_of_ticket (ticket_of_verifyOnce (execRelay_core hexec).1)
    · exact wp_admitted rxGate_uses hnone
  · exact wp_admitted (rxAdmit_uses none) hnone

theorem nameContract_sound (env : RelayEnv) : (nameContract env).Sound where
  start_inv _ _ hinv _ _ := hinv
  exec_inv _ _ _ _ _ hinv _ hpre hexec _ := named_exec hinv hpre hexec
  post_stable _ := .true
  prog_may := prog_uses env
  prog_wp w a _ _ _ := by
    by_cases hrx : a.tid = .rx
    · cases a <;> first | exact rxPass_names_wp _ | cases hrx
    · exact Contract.wp_of_permitted ((prog_uses env a).mono fun _ hmay _ _ =>
        namesPlainly_of_may hmay hrx)

/-- **The texts of the connections.**  In every state that a relay can get into, with whichever
configuration, every text that is reported of a session in the map is written as well-formed JSON
and read back as it was. -/
theorem connection_texts_lossless {bucketOf : Ipv4Addr → ℕ} {createdAt : Instant}
    {c : (relaySystem env).Config}
    (hrun : (relaySystem env).Steps (relayStart env bucketOf createdAt) c) {sid : SessionId}
    {e : SessionEntry} (he : c.st.core.sessions.lookup sid = some e) :
    ∀ text ∈ connectionTexts sid e,
      IsString (quote (escapeJson text)) ∧ decode (quote (escapeJson text)) = some text := by
  have hstart : Named (relayStart env bucketOf createdAt).toWorld := fun _ _ h => by cases h
  have hnamed : Named c.toWorld := ((nameContract_sound env).run hrun
    (Contract.Sound.good_initial hstart fun _ => trivial)).1
  have hstate : Plain e.authState.asStr := by cases e.authState <;> decide
  have haddr : Plain e.clientAddr.toText :=
    ((plain_ipv4 _).append (by decide)).append (plain_toString _)
  intro text htext
  refine escapeJson_lossless fun ch hch hcontrol => absurd hcontrol (Nat.not_lt.2 ?_)
  simp only [connectionTexts, List.mem_cons, List.not_mem_nil, or_false] at htext
  rcases htext with rfl | rfl | rfl | rfl
  · exact hnamed sid e he ch hch
  · exact plain_formatHex016 sid ch hch
  · exact hstate ch hch
  · exact haddr ch hch

/-- The session of the sample client, whose account a ticket has named. -/
theorem connection_texts_lossless_sample :
    ∃ c e, (relaySystem sampleEnv).Steps sampleStart c ∧ c.st.core.sessions.lookup 1 = some e ∧
      connectionTexts 1 e = ["a", "0000000000000001", "authenticated", "203.0.113.7:40000"] ∧
      ∀ text ∈ connectionTexts 1 e,
        IsString (quote (escapeJson text)) ∧ decode (quote (escapeJson text)) = some text := by
  obtain ⟨c, hrun, hc⟩ := reaches_sampleServed
  have he : c.st.core.sessions.lookup 1 = some sampleSession := by
    rw [hc.1]
    decide +kernel
  exact ⟨c, sampleSession, hrun.steps, he, by decide +kernel,
    connection_texts_lossless hrun.steps he⟩

end SwiftRelay
