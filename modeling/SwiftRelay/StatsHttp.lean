/-
**The stats server.**

A client of the stats server sends the head of an HTTP request.  The relay has two handlers for it,
one for threads and one for tasks; the first is the deployed one and the second the one that the
tests drive.  Each of them reads into a buffer of fixed size until it finds the end of the head, and
then answers from the head.  How the bytes arrive does not matter: what is answered is a function of
the content, because the first end of the head in the buffer is the first one in the content, and
because a buffer without it is either full or holds everything.

Main definitions:

* `findHttpHeaderEnd` — the end of the head;
* `answerStatsRequest` — the answer to a head;
* `handleStatsHttpClientBlocking`, `handleStatsHttpClient` — the handlers;
* `statsReply` — the answer to a content.

Main results:

* `findHttpHeaderEnd_eq_some_iff` — the end of the head is that of the first empty line;
* `readRequestBlocking_reply` — the answer to chunks is that to their content;
* `lastAuthorization_head` — all of the head is searched for the authorization;
* `stats_handlers_answer_by_content` — both handlers, whatever the chunks.
-/

import SwiftRelay.Text
import SwiftRelay.Utf8Lossy

set_option autoImplicit false

namespace SwiftRelay

def maxHttpRequestSize : ℕ := 8192

/-! ### Answers -/

/-- Where the body of an answer comes from. -/
inductive StatsBody
  | text (body : String)
  | accountBudgets
  | destPolicy
  | stats
  | connections
  | connectionsSnapshot
  | config
  deriving DecidableEq

structure HttpResponse where
  status : ℕ
  statusText : String
  body : StatsBody
  deriving DecidableEq

/-- What becomes of a client: an error ends its thread, it is hung up on, or it is answered. -/
inductive StatsOutcome
  | failed
  | closed
  | responded (response : HttpResponse)
  deriving DecidableEq

namespace StatsOutcome

def status : StatsOutcome → Option ℕ
  | .responded response => some response.status
  | _ => none

def body : StatsOutcome → Option StatsBody
  | .responded response => some response.body
  | _ => none

/-- An answer that reports an error. -/
def error (status : ℕ) (statusText error : String) : StatsOutcome :=
  .responded ⟨status, statusText, .text ("\x7b\"error\":\"" ++ error ++ "\"\x7d")⟩

def tooLarge : StatsOutcome := error 431 "Request Header Fields Too Large" "request_too_large"

def timeout : StatsOutcome := error 408 "Request Timeout" "request_timeout"

def incomplete : StatsOutcome := error 400 "Bad Request" "incomplete_request_headers"

def badRequestLine : StatsOutcome := error 400 "Bad Request" "bad_request_line"

def methodNotAllowed : StatsOutcome := error 405 "Method Not Allowed" "method_not_allowed"

def unauthorized : StatsOutcome := error 401 "Unauthorized" "unauthorized"

def notFound : StatsOutcome := error 404 "Not Found" "not_found"

end StatsOutcome

/-! ### The head of a request -/

/-- The carriage returns and line feeds at the end of the head. -/
def headerTerminator : List UInt8 := [0x0D, 0x0A, 0x0D, 0x0A]

/-- The terminator stands at position `i`. -/
def terminatorAt (buf : List UInt8) (i : ℕ) : Bool := (buf.drop i).take 4 = headerTerminator

/-- The end of the first terminator. -/
def findHttpHeaderEnd (buf : List UInt8) : Option ℕ :=
  ((List.range (buf.length - 3)).find? (terminatorAt buf)).map (· + 4)

/-- The lines of a text in which `line` is already read of the next one. -/
def splitCrlfFrom (line : List Char) : List Char → List String
  | [] => [String.ofList line]
  | '\r' :: '\n' :: rest => String.ofList line :: splitCrlfFrom [] rest
  | c :: rest => splitCrlfFrom (line ++ [c]) rest

def splitCrlf (text : List Char) : List String := splitCrlfFrom [] text

def eqIgnoreAsciiCase (s t : String) : Bool := s.toList.map Char.toLower = t.toList.map Char.toLower

/-- The trimmed value of a line, if it is an authorization header. -/
def authorizationValue (line : String) : Option String :=
  (splitOnce line ':').bind fun field =>
    if eqIgnoreAsciiCase field.1 "authorization" then some (trim field.2) else none

/-- The loop over the lines behind the request line; each authorization replaces the one before. -/
def lastAuthorization (authHeader : Option String) : List String → Option String
  | [] => authHeader
  | line :: lines =>
      if line.isEmpty then authHeader
      else lastAuthorization ((authorizationValue line).or authHeader) lines

/-- The paths that are served. -/
def servedBody (connectionsBody : StatsBody) (path : String) : Option StatsBody :=
  if path = "/v1/account-budgets" then some .accountBudgets
  else if path = "/v1/dest-policy" then some .destPolicy
  else if path = "/v1/stats" then some .stats
  else if path = "/v1/connections" then some connectionsBody
  else if path = "/v1/config" then some .config
  else none

/-- The answer to a head.  The handlers differ in where they take the connections from. -/
def answerStatsRequest (connectionsBody : StatsBody) (token : String) (head : List UInt8) :
    StatsOutcome :=
  let lines := splitCrlf (Utf8.lossy head)
  let requestParts := splitWhitespace (lines.headD "")
  let method := requestParts.headD ""
  let path := (requestParts.drop 1).headD ""
  if method.isEmpty || path.isEmpty then .badRequestLine
  else
    let authHeader := lastAuthorization none (lines.drop 1)
    if method ≠ "GET" then .methodNotAllowed
    else if authHeader ≠ some ("Bearer " ++ token) then .unauthorized
    else
      match servedBody connectionsBody path with
      | some body => .responded ⟨200, "OK", body⟩
      | none => .notFound

/-! ### Reading -/

inductive IoErrorKind
  | timedOut
  | wouldBlock
  | other
  deriving DecidableEq

/-- What the socket delivers next: bytes, nothing within the time for a read, or an error.  Behind
the last event the client has closed the connection. -/
inductive SocketEvent
  | data (bytes : List UInt8)
  | elapsed
  | failed (kind : IoErrorKind)

/-- How the read loop ends; `ended` is the end of the connection in front of that of the head. -/
inductive ReadEnd
  | tooLarge
  | timeout
  | failed
  | ended (requestBuf : List UInt8)
  | complete (requestBuf : List UInt8)

/-- The read loop of the blocking handler.  What does not fit into the buffer stays in the socket;
the buffer is then full and nothing more is read. -/
def readRequestBlocking (requestBuf : List UInt8) : List SocketEvent → ReadEnd
  | [] => if requestBuf.length ≥ maxHttpRequestSize then .tooLarge else .ended requestBuf
  | event :: events =>
      if requestBuf.length ≥ maxHttpRequestSize then .tooLarge
      else
        match event with
        | .data bytes =>
            let read := bytes.take (maxHttpRequestSize - requestBuf.length)
            if read.isEmpty then .ended requestBuf
            else if (findHttpHeaderEnd (requestBuf ++ read)).isSome then
              .complete (requestBuf ++ read)
            else readRequestBlocking (requestBuf ++ read) events
        | .elapsed => .timeout
        -- the time for a read shows up as an error of one of two kinds
        | .failed kind => if kind = .timedOut || kind = .wouldBlock then .timeout else .failed

/-- The read loop of the other handler, in which the time for a read is kept outside of it. -/
def readRequest (requestBuf : List UInt8) : List SocketEvent → ReadEnd
  | [] => if requestBuf.length ≥ maxHttpRequestSize then .tooLarge else .ended requestBuf
  | event :: events =>
      if requestBuf.length ≥ maxHttpRequestSize then .tooLarge
      else
        match event with
        | .elapsed => .timeout
        | .failed _ => .failed
        | .data bytes =>
            let read := bytes.take (maxHttpRequestSize - requestBuf.length)
            if read.isEmpty then .ended requestBuf
            else if (findHttpHeaderEnd (requestBuf ++ read)).isSome then
              .complete (requestBuf ++ read)
            else readRequest (requestBuf ++ read) events

/-- What follows the read loop. -/
def ReadEnd.reply (connectionsBody : StatsBody) (token : String) : ReadEnd → StatsOutcome
  | .tooLarge => .tooLarge
  | .timeout => .timeout
  | .failed => .failed
  | .ended requestBuf => if requestBuf.isEmpty then .closed else .incomplete
  | .complete requestBuf =>
      let headerEnd := (findHttpHeaderEnd requestBuf).getD requestBuf.length
      answerStatsRequest connectionsBody token (requestBuf.take headerEnd)

def handleStatsHttpClientBlocking (token : String) (events : List SocketEvent) : StatsOutcome :=
  (readRequestBlocking [] events).reply .connectionsSnapshot token

def handleStatsHttpClient (token : String) (events : List SocketEvent) : StatsOutcome :=
  (readRequest [] events).reply .connections token

/-- The answer to a content. -/
def statsReply (connectionsBody : StatsBody) (token : String) (content : List UInt8) :
    StatsOutcome :=
  match findHttpHeaderEnd content with
  | some headerEnd =>
      if headerEnd ≤ maxHttpRequestSize then
        answerStatsRequest connectionsBody token (content.take headerEnd)
      else .tooLarge
  | none =>
      if content.length ≥ maxHttpRequestSize then .tooLarge
      else if content.isEmpty then .closed
      else .incomplete

/-! ### The end of the head -/

section HeaderEnd

variable {buf rest : List UInt8} {i headerEnd : ℕ}

theorem le_length_of_terminatorAt (h : terminatorAt buf i = true) : i + 4 ≤ buf.length := by
  have hlen := congrArg List.length (of_decide_eq_true h)
  simp only [List.length_take, List.length_drop, headerTerminator, List.length_cons,
    List.length_nil] at hlen
  omega

/-- A terminator is seen in every part of the content that holds it. -/
theorem terminatorAt_append (h : i + 4 ≤ buf.length) :
    terminatorAt (buf ++ rest) i = terminatorAt buf i := by
  have htake : ((buf ++ rest).drop i).take 4 = (buf.drop i).take 4 := by
    rw [List.drop_append_of_le_length (by omega),
      List.take_append_of_le_length (by rw [List.length_drop]; omega)]
  rw [terminatorAt, terminatorAt, htake]

/-- The end of the head is that of the first terminator. -/
theorem findHttpHeaderEnd_eq_some_iff : findHttpHeaderEnd buf = some headerEnd ↔
    ∃ i, headerEnd = i + 4 ∧ terminatorAt buf i = true ∧
      ∀ j < i, terminatorAt buf j = false := by
  rw [findHttpHeaderEnd, Option.map_eq_some_iff]
  constructor
  · rintro ⟨i, hfind, rfl⟩
    obtain ⟨hat, -, hfirst⟩ := List.find?_range_eq_some.1 hfind
    exact ⟨i, rfl, hat, fun j hj => by simpa using hfirst j hj⟩
  · rintro ⟨i, rfl, hat, hfirst⟩
    have hle := le_length_of_terminatorAt hat
    refine ⟨i, List.find?_range_eq_some.2 ⟨hat, List.mem_range.2 (by omega), fun j hj => ?_⟩, rfl⟩
    simpa using hfirst j hj

theorem findHttpHeaderEnd_le (h : findHttpHeaderEnd buf = some headerEnd) :
    headerEnd ≤ buf.length := by
  obtain ⟨i, rfl, hat, -⟩ := findHttpHeaderEnd_eq_some_iff.1 h
  exact le_length_of_terminatorAt hat

theorem findHttpHeaderEnd_append (h : findHttpHeaderEnd buf = some headerEnd) :
    findHttpHeaderEnd (buf ++ rest) = some headerEnd := by
  obtain ⟨i, rfl, hat, hfirst⟩ := findHttpHeaderEnd_eq_some_iff.1 h
  have hle := le_length_of_terminatorAt hat
  refine findHttpHeaderEnd_eq_some_iff.2 ⟨i, rfl, ?_, fun j hj => ?_⟩
  · rw [terminatorAt_append hle, hat]
  · rw [terminatorAt_append (by omega), hfirst j hj]

theorem findHttpHeaderEnd_of_append (h : findHttpHeaderEnd (buf ++ rest) = some headerEnd)
    (hle : headerEnd ≤ buf.length) : findHttpHeaderEnd buf = some headerEnd := by
  obtain ⟨i, rfl, hat, hfirst⟩ := findHttpHeaderEnd_eq_some_iff.1 h
  refine findHttpHeaderEnd_eq_some_iff.2 ⟨i, rfl, ?_, fun j hj => ?_⟩
  · rw [← hat, terminatorAt_append hle]
  · rw [← hfirst j hj, terminatorAt_append (by omega)]

end HeaderEnd

/-! ### Chunks -/

section Chunks

variable {connectionsBody : StatsBody} {token : String} {buf rest : List UInt8}
  {chunks : List (List UInt8)}

theorem readRequestBlocking_full {events : List SocketEvent}
    (hfull : maxHttpRequestSize ≤ buf.length) :
    readRequestBlocking buf events = .tooLarge := by
  cases events with
  | nil => exact if_pos hfull
  | cons event events => exact if_pos hfull

theorem statsReply_full (hfind : findHttpHeaderEnd buf = none)
    (hfull : maxHttpRequestSize ≤ buf.length) :
    statsReply connectionsBody token (buf ++ rest) = .tooLarge := by
  unfold statsReply
  split
  · next headerEnd hsome =>
      refine if_neg fun hle => ?_
      rw [findHttpHeaderEnd_of_append hsome (Nat.le_trans hle hfull)] at hfind
      cases hfind
  · refine if_pos ?_
    rw [List.length_append]
    exact Nat.le_add_right_of_le hfull

theorem statsReply_complete {headerEnd : ℕ} (hfind : findHttpHeaderEnd buf = some headerEnd)
    (hfits : buf.length ≤ maxHttpRequestSize) :
    statsReply connectionsBody token (buf ++ rest) =
      (ReadEnd.complete buf).reply connectionsBody token := by
  have hle := findHttpHeaderEnd_le hfind
  rw [statsReply, findHttpHeaderEnd_append hfind]
  dsimp only
  rw [if_pos (Nat.le_trans hle hfits), List.take_append_of_le_length hle, ReadEnd.reply, hfind]
  rfl

theorem statsReply_ended (hfind : findHttpHeaderEnd buf = none)
    (hroom : buf.length < maxHttpRequestSize) :
    statsReply connectionsBody token buf = (ReadEnd.ended buf).reply connectionsBody token := by
  rw [statsReply, hfind]
  exact if_neg (Nat.not_le.2 hroom)

/-- A chunk that is read into a buffer with room for a part of it, or for all of it. -/
theorem readChunk_reply {chunk : List UInt8} {events : List SocketEvent}
    (hroom : buf.length < maxHttpRequestSize)
    (hnext : findHttpHeaderEnd (buf ++ chunk) = none →
      (buf ++ chunk).length ≤ maxHttpRequestSize →
      (readRequestBlocking (buf ++ chunk) events).reply connectionsBody token =
        statsReply connectionsBody token (buf ++ chunk ++ rest)) :
    (if (findHttpHeaderEnd (buf ++ chunk.take (maxHttpRequestSize - buf.length))).isSome then
        ReadEnd.complete (buf ++ chunk.take (maxHttpRequestSize - buf.length))
      else readRequestBlocking (buf ++ chunk.take (maxHttpRequestSize - buf.length)) events).reply
        connectionsBody token =
      statsReply connectionsBody token (buf ++ (chunk ++ rest)) := by
  have hfits : (buf ++ chunk.take (maxHttpRequestSize - buf.length)).length ≤
      maxHttpRequestSize := by
    rw [List.length_append, List.length_take]
    omega
  -- the content, cut where the buffer ends
  have hcontent : buf ++ (chunk ++ rest) = buf ++ chunk.take (maxHttpRequestSize - buf.length) ++
      (chunk.drop (maxHttpRequestSize - buf.length) ++ rest) := by
    rw [List.append_assoc, ← List.append_assoc (chunk.take _), List.take_append_drop]
  split
  · next hsome =>
      obtain ⟨headerEnd, hfind⟩ := Option.isSome_iff_exists.1 hsome
      rw [hcontent, statsReply_complete hfind hfits]
  · next hnone =>
      have hfind : findHttpHeaderEnd (buf ++ chunk.take (maxHttpRequestSize - buf.length)) =
          none := by simpa using hnone
      by_cases hall : chunk.length ≤ maxHttpRequestSize - buf.length
      · rw [List.take_of_length_le hall] at hfind hfits ⊢
        rw [← List.append_assoc]
        exact hnext hfind hfits
      · have hfull : maxHttpRequestSize ≤
            (buf ++ chunk.take (maxHttpRequestSize - buf.length)).length := by
          rw [List.length_append, List.length_take]
          omega
        rw [hcontent, statsReply_full hfind hfull, readRequestBlocking_full hfull]
        rfl

/-- **The answer to chunks is that to their content.** -/
theorem readRequestBlocking_reply (hchunks : ∀ c ∈ chunks, c ≠ [])
    (hfind : findHttpHeaderEnd buf = none) (hfits : buf.length ≤ maxHttpRequestSize) :
    (readRequestBlocking buf (chunks.map .data)).reply connectionsBody token =
      statsReply connectionsBody token (buf ++ chunks.flatten) := by
  induction chunks generalizing buf with
  | nil =>
      rw [List.map_nil, readRequestBlocking, List.flatten_nil]
      split
      · next hfull => exact (statsReply_full hfind hfull).symm
      · next hroom => rw [List.append_nil, statsReply_ended hfind (Nat.not_le.1 hroom)]
  | cons chunk chunks ih =>
      rw [List.map_cons, readRequestBlocking, List.flatten_cons]
      split
      · next hfull => exact (statsReply_full hfind hfull).symm
      · next hroom =>
          have hspace : 0 < maxHttpRequestSize - buf.length :=
            Nat.sub_pos_of_lt (Nat.not_le.1 hroom)
          have hread : (chunk.take (maxHttpRequestSize - buf.length)).isEmpty = false := by
            have hne := hchunks chunk List.mem_cons_self
            rw [List.isEmpty_eq_false_iff, Ne, List.take_eq_nil_iff]
            rintro (hzero | hnil)
            · omega
            · exact hne hnil
          dsimp only
          rw [hread, if_neg Bool.false_ne_true]
          exact readChunk_reply (Nat.not_le.1 hroom) fun hmore hfits' =>
            ih (fun c hc => hchunks c (List.mem_cons_of_mem chunk hc)) hmore hfits'

theorem readRequest_eq_blocking :
    readRequest buf (chunks.map .data) = readRequestBlocking buf (chunks.map .data) := by
  induction chunks generalizing buf with
  | nil => rfl
  | cons chunk chunks ih =>
      simp only [List.map_cons, readRequest, readRequestBlocking, ih]

end Chunks

/-! ### The lines of a head -/

section Lines

variable {line text : List Char} {first : String} {front later : List String} {head : List UInt8}

/-- A line that is not the last one ends with a carriage return and a line feed. -/
theorem splitCrlfFrom_eq_cons (h : splitCrlfFrom line text = first :: later) (hlater : later ≠ []) :
    ∃ body rest, text = body ++ '\r' :: '\n' :: rest ∧ first = String.ofList (line ++ body) ∧
      splitCrlf rest = later := by
  fun_induction splitCrlfFrom line text with
  | case1 line =>
      obtain ⟨-, rfl⟩ := List.cons.inj h
      exact absurd rfl hlater
  | case2 line rest ih =>
      obtain ⟨rfl, hrest⟩ := List.cons.inj h
      exact ⟨[], rest, rfl, by rw [List.append_nil], hrest⟩
  | case3 line c rest hc ih =>
      obtain ⟨body, rest, rfl, hfirst, hrest⟩ := ih h
      refine ⟨c :: body, rest, rfl, ?_, hrest⟩
      rw [hfirst, List.append_assoc, List.singleton_append]

/-- The lines behind some lines are those of what lies behind a carriage return and a line feed. -/
theorem splitCrlf_eq_append (hfront : front ≠ []) (hlater : later ≠ [])
    (h : splitCrlf text = front ++ later) :
    ∃ body rest, text = body ++ '\r' :: '\n' :: rest ∧ splitCrlf rest = later := by
  induction front generalizing text with
  | nil => exact absurd rfl hfront
  | cons first front ih =>
      obtain ⟨body, rest, rfl, -, hrest⟩ :=
        splitCrlfFrom_eq_cons h (List.append_ne_nil_of_right_ne_nil front hlater)
      by_cases hmore : front = []
      · subst hmore
        exact ⟨body, rest, rfl, hrest⟩
      · obtain ⟨body', rest', rfl, hrest'⟩ := ih hmore hrest
        exact ⟨body ++ '\r' :: '\n' :: body', rest', by simp, hrest'⟩

/-- An empty line behind the request line, with more behind it, is a terminator. -/
theorem terminatorAt_of_empty_line (hfront : front ≠ []) (hlater : later ≠ [])
    (h : splitCrlf (Utf8.lossy head) = front ++ "" :: later) :
    ∃ i, terminatorAt head i = true ∧
      splitCrlf (Utf8.lossy (head.drop (i + 4))) = later := by
  obtain ⟨body, rest, htext, hrest⟩ := splitCrlf_eq_append hfront (List.cons_ne_nil _ _) h
  obtain ⟨body', rest', rfl, hempty, hlines⟩ := splitCrlfFrom_eq_cons hrest hlater
  have hnil : body' = [] := by
    have := congrArg String.toList hempty
    simpa using this.symm
  subst hnil
  -- read the four characters off the bytes, one after the other
  obtain ⟨before, bytes₁, hhead, h₁⟩ := Utf8.lossy_eq_append (by decide) htext
  obtain ⟨bytes₂, rfl, h₂⟩ := Utf8.lossy_eq_cons (by decide) h₁
  obtain ⟨bytes₃, rfl, h₃⟩ := Utf8.lossy_eq_cons (by decide) h₂
  obtain ⟨bytes₄, rfl, h₄⟩ := Utf8.lossy_eq_cons (by decide) h₃
  subst hhead
  refine ⟨before.length, ?_, ?_⟩
  · rw [terminatorAt, List.drop_left]
    rfl
  · rw [← List.drop_drop, List.drop_left, ← hlines, ← h₄]
    rfl

/-- In a head that ends with its first terminator, nothing but an empty line follows an empty line
behind the request line. -/
theorem lines_after_empty (hend : ∀ i, terminatorAt head i = true → i + 4 = head.length)
    (hfront : front ≠ []) (h : splitCrlf (Utf8.lossy head) = front ++ "" :: later) :
    ∀ line ∈ later, line = "" := by
  by_cases hlater : later = []
  · subst hlater
    exact fun line hline => absurd hline List.not_mem_nil
  · obtain ⟨i, hat, hlines⟩ := terminatorAt_of_empty_line hfront hlater h
    rw [hend i hat, List.drop_length] at hlines
    rw [← hlines]
    exact fun line hline => List.mem_singleton.1 hline

theorem authorizationValue_empty : authorizationValue "" = none := by decide

/-- The loop finds the last authorization of all lines if only empty ones follow an empty one. -/
theorem lastAuthorization_eq {lines : List String} (authHeader : Option String)
    (h : ∀ front later, lines = front ++ "" :: later → ∀ line ∈ later, line = "") :
    lastAuthorization authHeader lines =
      (lines.filterMap authorizationValue).getLast?.or authHeader := by
  induction lines generalizing authHeader with
  | nil => rfl
  | cons line lines ih =>
      rw [lastAuthorization]
      split
      · next hempty =>
          have hline : line = "" := String.isEmpty_iff.1 hempty
          subst hline
          have hnone : lines.filterMap authorizationValue = [] := by
            refine List.filterMap_eq_nil_iff.2 fun l hl => ?_
            rw [h [] lines rfl l hl, authorizationValue_empty]
          rw [List.filterMap_cons_none authorizationValue_empty, hnone]
          rfl
      · have hlines := ih ((authorizationValue line).or authHeader) fun front later heq =>
          h (line :: front) later (congrArg (line :: ·) heq)
        rw [hlines, List.filterMap_cons]
        cases authorizationValue line with
        | none => rfl
        | some value => rw [List.getLast?_cons]; cases List.getLast? _ <;> rfl

/-- **All of the head is searched for the authorization.** -/
theorem lastAuthorization_head (hend : ∀ i, terminatorAt head i = true → i + 4 = head.length) :
    lastAuthorization none ((splitCrlf (Utf8.lossy head)).drop 1) =
      (((splitCrlf (Utf8.lossy head)).drop 1).filterMap authorizationValue).getLast? := by
  rw [lastAuthorization_eq none, Option.or_none]
  intro front later heq
  cases hlines : splitCrlf (Utf8.lossy head) with
  | nil =>
      rw [hlines] at heq
      exact absurd heq.symm (by simp)
  | cons requestLine lines =>
      rw [hlines, List.drop_one, List.tail_cons] at heq
      rw [heq] at hlines
      exact lines_after_empty hend (List.cons_ne_nil requestLine front) hlines

end Lines

/-! ### Both handlers -/

section Handlers

variable {connectionsBody : StatsBody} {token : String} {head content : List UInt8}

/-- The words of the request line. -/
def requestWords (head : List UInt8) : List String :=
  splitWhitespace ((splitCrlf (Utf8.lossy head)).headD "")

def servedPaths : List String :=
  ["/v1/account-budgets", "/v1/dest-policy", "/v1/stats", "/v1/connections", "/v1/config"]

/-- What a head has to be for it to be served. -/
structure AuthorizedGet (token : String) (head : List UInt8) : Prop where
  method : (requestWords head)[0]? = some "GET"
  path : ∃ path ∈ servedPaths, (requestWords head)[1]? = some path
  -- the last authorization header is the one that counts
  authorization : (((splitCrlf (Utf8.lossy head)).drop 1).filterMap authorizationValue).getLast? =
    some ("Bearer " ++ token)

theorem mem_servedPaths {path : String} {body : StatsBody}
    (h : servedBody connectionsBody path = some body) : path ∈ servedPaths := by
  by_contra hnot
  simp only [servedPaths, List.mem_cons, List.not_mem_nil, or_false, not_or] at hnot
  obtain ⟨h₁, h₂, h₃, h₄, h₅⟩ := hnot
  rw [servedBody, if_neg h₁, if_neg h₂, if_neg h₃, if_neg h₄, if_neg h₅] at h
  cases h

theorem eq_some_of_getD {words : List String} {n : ℕ} (h : (words[n]?.getD "").isEmpty = false) :
    words[n]? = some (words[n]?.getD "") := by
  cases hword : words[n]? with
  | none =>
      rw [hword] at h
      cases h
  | some word => rfl

/-- The answer in terms of the words of the request line. -/
theorem answerStatsRequest_def : answerStatsRequest connectionsBody token head =
    if ((requestWords head)[0]?.getD "").isEmpty || ((requestWords head)[1]?.getD "").isEmpty then
      .badRequestLine
    else if (requestWords head)[0]?.getD "" ≠ "GET" then .methodNotAllowed
    else if lastAuthorization none ((splitCrlf (Utf8.lossy head)).drop 1) ≠
        some ("Bearer " ++ token) then .unauthorized
    else
      ((servedBody connectionsBody ((requestWords head)[1]?.getD "")).map fun body =>
        StatsOutcome.responded ⟨200, "OK", body⟩).getD .notFound := by
  have hmethod (words : List String) : words.headD "" = words[0]?.getD "" := by cases words <;> rfl
  have hpath (words : List String) : (words.drop 1).headD "" = words[1]?.getD "" := by
    rw [hmethod, List.getElem?_drop]
  have hwords : splitWhitespace ((splitCrlf (Utf8.lossy head)).headD "") = requestWords head := rfl
  simp only [answerStatsRequest, hwords, hpath, hmethod (requestWords head)]
  cases servedBody connectionsBody ((requestWords head)[1]?.getD "") <;> rfl

/-- A head that ends with its first terminator is answered with 200 only if it is authorized. -/
theorem authorizedGet_of_ok (hend : ∀ i, terminatorAt head i = true → i + 4 = head.length)
    (h : (answerStatsRequest connectionsBody token head).status = some 200) :
    AuthorizedGet token head := by
  rw [answerStatsRequest_def] at h
  split at h
  · cases h
  · next hwords =>
      simp only [Bool.or_eq_true, not_or, Bool.not_eq_true] at hwords
      split at h
      · cases h
      · next hget =>
          split at h
          · cases h
          · next hauth =>
              cases hserved : servedBody connectionsBody ((requestWords head)[1]?.getD "") with
              | none =>
                  rw [hserved] at h
                  cases h
              | some body =>
                  refine ⟨?_, ⟨_, mem_servedPaths hserved, eq_some_of_getD hwords.2⟩, ?_⟩
                  · rw [eq_some_of_getD hwords.1, not_not.1 hget]
                  · rw [← lastAuthorization_head hend, not_not.1 hauth]

theorem answerStatsRequest_eq (other : StatsBody)
    (h : (requestWords head)[1]? ≠ some "/v1/connections") :
    answerStatsRequest connectionsBody token head = answerStatsRequest other token head := by
  have hpath : (requestWords head)[1]?.getD "" ≠ "/v1/connections" := by
    intro heq
    cases hword : (requestWords head)[1]? with
    | none =>
        rw [hword, Option.getD_none] at heq
        exact absurd heq (by decide)
    | some word =>
        rw [hword, Option.getD_some] at heq
        exact h (hword.trans (congrArg some heq))
  rw [answerStatsRequest_def, answerStatsRequest_def]
  simp only [servedBody, if_neg hpath]

theorem status_servedBody (other : StatsBody) (path : String) :
    (((servedBody connectionsBody path).map fun body =>
        StatsOutcome.responded ⟨200, "OK", body⟩).getD .notFound).status =
      (((servedBody other path).map fun body =>
        StatsOutcome.responded ⟨200, "OK", body⟩).getD .notFound).status := by
  unfold servedBody
  split_ifs <;> rfl

theorem status_answerStatsRequest (other : StatsBody) :
    (answerStatsRequest connectionsBody token head).status =
      (answerStatsRequest other token head).status := by
  rw [answerStatsRequest_def, answerStatsRequest_def]
  split_ifs
  · rfl
  · rfl
  · rfl
  · exact status_servedBody other _

/-- The contents for which the handlers answer from the same source. -/
theorem statsReply_eq (other : StatsBody)
    (h : ∀ headerEnd, findHttpHeaderEnd content = some headerEnd →
      (requestWords (content.take headerEnd))[1]? ≠ some "/v1/connections") :
    statsReply connectionsBody token content = statsReply other token content := by
  unfold statsReply
  split
  · next headerEnd hfind => rw [answerStatsRequest_eq other (h headerEnd hfind)]
  · rfl

theorem status_statsReply (other : StatsBody) :
    (statsReply connectionsBody token content).status =
      (statsReply other token content).status := by
  unfold statsReply
  split
  · split
    · exact status_answerStatsRequest other
    · rfl
  · rfl

/-- The head of a content has its only terminator at its end. -/
theorem terminatorAt_take {headerEnd i : ℕ} (h : findHttpHeaderEnd content = some headerEnd)
    (hat : terminatorAt (content.take headerEnd) i = true) :
    i + 4 = (content.take headerEnd).length := by
  obtain ⟨first, rfl, -, hfirst⟩ := findHttpHeaderEnd_eq_some_iff.1 h
  have hlen := List.length_take_of_le (findHttpHeaderEnd_le h)
  have hle := le_length_of_terminatorAt hat
  have hsame : terminatorAt content i = true := by
    rw [← List.take_append_drop (first + 4) content, terminatorAt_append hle, hat]
  have hge : first ≤ i := by
    by_contra hlt
    rw [hfirst i (Nat.not_le.1 hlt)] at hsame
    cases hsame
  omega

/-- A content is answered with 200 only if its head fits and is authorized. -/
theorem authorizedGet_of_statsReply
    (h : (statsReply connectionsBody token content).status = some 200) :
    ∃ headerEnd, findHttpHeaderEnd content = some headerEnd ∧ headerEnd ≤ maxHttpRequestSize ∧
      AuthorizedGet token (content.take headerEnd) := by
  unfold statsReply at h
  split at h
  · next headerEnd hfind =>
      split at h
      · next hle =>
          exact ⟨headerEnd, hfind, hle,
            authorizedGet_of_ok (fun i => terminatorAt_take hfind) h⟩
      · cases h
  · split at h
    · cases h
    · split at h <;> cases h

end Handlers

/-- **The stats handlers answer by content.**  For bytes that arrive in chunks, none of them empty,
both handlers send the same status, and the same answer unless the path is that of the connections;
other chunks of the same content give the same answers; and the status is 200 only if the first
terminator ends within the buffer and the head in front of it is an authorized request. -/
theorem stats_handlers_answer_by_content (token : String) {chunks : List (List UInt8)}
    (hchunks : ∀ c ∈ chunks, c ≠ []) :
    let blocking := handleStatsHttpClientBlocking token (chunks.map .data)
    let tested := handleStatsHttpClient token (chunks.map .data)
    blocking.status = tested.status ∧
    (blocking = tested ∨ ∃ headerEnd, findHttpHeaderEnd chunks.flatten = some headerEnd ∧
      (requestWords (chunks.flatten.take headerEnd))[1]? = some "/v1/connections") ∧
    (∀ chunks' : List (List UInt8), (∀ c ∈ chunks', c ≠ []) → chunks'.flatten = chunks.flatten →
      handleStatsHttpClientBlocking token (chunks'.map .data) = blocking ∧
      handleStatsHttpClient token (chunks'.map .data) = tested) ∧
    (blocking.status = some 200 → ∃ i, i + 4 ≤ maxHttpRequestSize ∧
      terminatorAt chunks.flatten i = true ∧ (∀ j < i, terminatorAt chunks.flatten j = false) ∧
      AuthorizedGet token (chunks.flatten.take (i + 4))) := by
  have hblocking {chunks : List (List UInt8)} (hne : ∀ c ∈ chunks, c ≠ []) :
      handleStatsHttpClientBlocking token (chunks.map .data) =
        statsReply .connectionsSnapshot token chunks.flatten :=
    readRequestBlocking_reply hne rfl (Nat.zero_le _)
  have htested {chunks : List (List UInt8)} (hne : ∀ c ∈ chunks, c ≠ []) :
      handleStatsHttpClient token (chunks.map .data) =
        statsReply .connections token chunks.flatten := by
    rw [handleStatsHttpClient, readRequest_eq_blocking]
    exact readRequestBlocking_reply hne rfl (Nat.zero_le _)
  intro blocking tested
  have hb : blocking = statsReply .connectionsSnapshot token chunks.flatten := hblocking hchunks
  have ht : tested = statsReply .connections token chunks.flatten := htested hchunks
  refine ⟨?_, ?_, fun chunks' hne hcontent => ?_, fun hok => ?_⟩
  · rw [hb, ht]
    exact status_statsReply _
  · by_cases hpath : ∃ headerEnd, findHttpHeaderEnd chunks.flatten = some headerEnd ∧
        (requestWords (chunks.flatten.take headerEnd))[1]? = some "/v1/connections"
    · exact .inr hpath
    · refine .inl ?_
      rw [hb, ht]
      exact statsReply_eq _ fun headerEnd hfind heq => hpath ⟨headerEnd, hfind, heq⟩
  · rw [hblocking hne, htested hne, hcontent, hb, ht]
    exact ⟨rfl, rfl⟩
  · rw [hb] at hok
    obtain ⟨headerEnd, hfind, hle, hauthorized⟩ := authorizedGet_of_statsReply hok
    obtain ⟨i, rfl, hat, hfirst⟩ := findHttpHeaderEnd_eq_some_iff.1 hfind
    exact ⟨i, hle, hat, hfirst, hauthorized⟩

/-- A request whose terminator is cut in two by the chunks. -/
def sampleChunks : List (List UInt8) :=
  ["GET /v1/stats HTTP/1.1\r\nauthorization:  Bearer t \r\n\r".toUTF8.data.toList,
    "\nrest".toUTF8.data.toList]

theorem stats_handlers_answer_by_content_sample :
    handleStatsHttpClientBlocking "t" (sampleChunks.map .data) =
        .responded ⟨200, "OK", .stats⟩ ∧
      AuthorizedGet "t" (sampleChunks.flatten.take 53) := by
  have hok : handleStatsHttpClientBlocking "t" (sampleChunks.map .data) =
      .responded ⟨200, "OK", .stats⟩ := by decide +kernel
  have hchunks : ∀ c ∈ sampleChunks, c ≠ [] := by decide +kernel
  obtain ⟨-, -, -, hserved⟩ := stats_handlers_answer_by_content "t" hchunks
  obtain ⟨i, -, hat, hfirst, hauthorized⟩ := hserved (congrArg StatsOutcome.status hok)
  have hfind : findHttpHeaderEnd sampleChunks.flatten = some (i + 4) :=
    findHttpHeaderEnd_eq_some_iff.2 ⟨i, rfl, hat, hfirst⟩
  have hi : findHttpHeaderEnd sampleChunks.flatten = some 53 := by decide +kernel
  rw [← Option.some.inj (hfind.symm.trans hi)]
  exact ⟨hok, hauthorized⟩

end SwiftRelay
