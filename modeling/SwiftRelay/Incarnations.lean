/-
**Incarnations of a session.**

A session identifier can come and go: the cleanup task removes an idle session, and the next frame
of the client inserts a new entry.  In the second datapath the cleanup task tells the shard of a
session to close the flows, by a message in the inbox in which client packets arrive as well.  The
message is sent while `retain` still holds the lock under which the entry is then erased, so a frame
of the next incarnation can only be accepted, and handed to the shard, later; and the inbox is first
in, first out.

An incarnation is named by the number of entries inserted for the session so far.  A client packet
belongs to the incarnation under which the receive loop accepted it, that is at the time of its lock
or insertion of the entry; a removal to the one that the cleanup task found when it locked the shard
of the map.

Main definitions:

* `incarnation`, `acceptedIn`, `visitedIn` — incarnations;
* `mailbox` — the inbox of a shard, with the incarnation of each message;
* `receivedIn` — the incarnations of the client packets that a flow received;
* `Posted` — what is known about the letters;
* `mailContract` — when a removal may be sent and which letter is being acted on.

Main results:

* `mailContract_sound` — every thread keeps to the contract;
* `erase_removes_visited` — what `retain` erases is the incarnation that it found;
* `removal_spares_later_incarnations` — a removal closes no flow that has received a packet of a
  later incarnation.
-/

import SwiftRelay.Hellos
import SwiftRelay.Mailbox
import SwiftRelay.ShardFlows

set_option autoImplicit false

namespace SwiftRelay

open Conc

variable {env : RelayEnv}

/-! ### Incarnations -/

/-- An entry for session `sid` is inserted. -/
def inserts (sid : SessionId) : RelayEvent env → Bool
  | .exec _ (.core (.entryInsert sid' _)) _ _ _ => sid' = sid
  | _ => false

/-- The current incarnation of a session: how many entries were inserted for it. -/
def incarnation (sid : SessionId) (hist : List (RelayEvent env)) : ℕ := hist.countP (inserts sid)

/-- The receive loop finds the entry of a session, or inserts one. -/
def accepts : RelayEvent env → Bool
  | .exec .rx (.core (.entryLock _)) _ _ _ => true
  | .exec .rx (.core (.entryInsert ..)) _ _ _ => true
  | _ => false

/-- The cleanup task begins the visit of a shard of the session map. -/
def visits : RelayEvent env → Bool
  | .exec .cleanup (.core (.retainLock _)) _ _ _ => true
  | _ => false

/-- The incarnation under which the receive loop accepted what it is handling. -/
def acceptedIn (sid : SessionId) (hist : List (RelayEvent env)) : ℕ :=
  incarnation sid (hist.dropWhile fun e => !accepts e)

/-- The incarnation that the cleanup task found when its visit began. -/
def visitedIn (sid : SessionId) (hist : List (RelayEvent env)) : ℕ :=
  incarnation sid (hist.dropWhile fun e => !visits e)

section Incarnation

variable {sid : SessionId} {hist : List (RelayEvent env)} {e : RelayEvent env} {t : Tid}
  {o : RelayOp} {r : o.Ret} {pre post : RelayState}

theorem incarnation_le_cons : incarnation sid hist ≤ incarnation sid (e :: hist) :=
  (List.sublist_cons_self e hist).countP_le

theorem acceptedIn_le : acceptedIn sid hist ≤ incarnation sid hist :=
  (List.dropWhile_sublist _).countP_le

theorem visitedIn_le : visitedIn sid hist ≤ incarnation sid hist :=
  (List.dropWhile_sublist _).countP_le

theorem incarnation_of_not_inserts (h : inserts sid e = false) :
    incarnation sid (e :: hist) = incarnation sid hist :=
  List.countP_cons_of_neg (by simp [h])

theorem visitedIn_of_not_visits (h : visits e = false) :
    visitedIn sid (e :: hist) = visitedIn sid hist := by
  rw [visitedIn, List.dropWhile_cons_of_pos (by simp [h]), visitedIn]

theorem visitedIn_of_visits (h : visits e = true) :
    visitedIn sid (e :: hist) = incarnation sid (e :: hist) := by
  rw [visitedIn, List.dropWhile_cons_of_neg (by simp [h])]

theorem eq_of_inserts (h : inserts sid (.exec t o r pre post : RelayEvent env) = true) :
    ∃ entry, o = .core (.entryInsert sid entry) := by
  unfold inserts at h
  split at h
  · next heq =>
      cases heq
      exact ⟨_, by rw [of_decide_eq_true h]⟩
  · cases h

theorem not_visits_of_ne (h : t ≠ .cleanup) :
    visits (.exec t o r pre post : RelayEvent env) = false := by
  unfold visits
  split
  · next heq =>
      cases heq
      exact absurd rfl h
  · rfl

end Incarnation

/-! ### Letters -/

def ShardMsg.sessionId : ShardMsg → SessionId
  | .clientPacket packet => packet.sessionId
  | .keepalive sid _ => sid
  | .removeSession sid => sid

/-- A message to a shard, with the incarnation of the session that it is about. -/
structure Letter where
  msg : ShardMsg
  incarnation : ℕ
  deriving DecidableEq

/-- The incarnation that a message is about when it is sent. -/
def incarnationOf (msg : ShardMsg) (hist : List (RelayEvent env)) : ℕ :=
  match msg with
  | .removeSession sid => visitedIn sid hist
  | msg => acceptedIn msg.sessionId hist

theorem incarnationOf_le (msg : ShardMsg) (hist : List (RelayEvent env)) :
    incarnationOf msg hist ≤ incarnation msg.sessionId hist := by
  cases msg with
  | removeSession sid => exact visitedIn_le
  | clientPacket packet => exact acceptedIn_le
  | keepalive sid addr => exact acceptedIn_le

/-- The letter that an event puts into the inbox of shard `k`. -/
def posts (k : ℕ) (hist : List (RelayEvent env)) : RelayEvent env → Option Letter
  | .exec _ (.v2 (.shardSend k' msg)) true _ _ =>
      if k' = k then some ⟨msg, incarnationOf msg hist⟩ else none
  | _ => none

/-- The event takes a letter out of the inbox of shard `k`. -/
def fetches (k : ℕ) : RelayEvent env → Bool
  | .exec _ (.v2 (.shardRecv k')) (some _) _ _ => k' = k
  | _ => false

/-- The inbox of shard `k`. -/
def mailbox (env : RelayEnv) (k : ℕ) : Mailbox (RelayEvent env) Letter where
  puts e hist := posts k hist e
  takes := fetches k

/-- The letter that shard `k` took last. -/
def lastLetter (k : ℕ) (hist : List (RelayEvent env)) : Option Letter :=
  ((mailbox env k).opened hist).getLast?

/-- The incarnations of the client packets that a flow of shard `k` received. -/
def receivedIn (k : ℕ) (key : FlowKey) : List (RelayEvent env) → List ℕ
  | [] => []
  | .exec _ (.v2 (.flowForward k' key' ..)) _ _ _ :: hist =>
      if k' = k ∧ key' = key then
        ((lastLetter k hist).map Letter.incarnation).toList ++ receivedIn k key hist
      else receivedIn k key hist
  | _ :: hist => receivedIn k key hist

/-- What an event does to the inbox of a shard. -/
inductive InboxStep (k : ℕ) (hist : List (RelayEvent env)) (e : RelayEvent env) :
    List ShardMsg → List ShardMsg → Prop
  | put (inbox : List ShardMsg) (l : Letter) (hputs : posts k hist e = some l)
      (htakes : fetches k e = false) : InboxStep k hist e inbox (inbox ++ [l.msg])
  | take (inbox : List ShardMsg) (msg : ShardMsg) (hputs : posts k hist e = none)
      (htakes : fetches k e = true) : InboxStep k hist e (msg :: inbox) inbox
  | other (inbox : List ShardMsg) (hputs : posts k hist e = none) (htakes : fetches k e = false) :
      InboxStep k hist e inbox inbox

section Step

variable {t : Tid} {o : RelayOp} {r : o.Ret} {st st' : RelayState} {k : ℕ}
  {hist : List (RelayEvent env)} {e : RelayEvent env} {l : Letter}

theorem eq_of_posts (h : posts k hist e = some l) :
    ∃ t pre post, e = .exec t (.v2 (.shardSend k l.msg)) true pre post ∧
      l.incarnation = incarnationOf l.msg hist := by
  unfold posts at h
  split at h
  · split at h
    · next hk =>
        cases h
        subst hk
        exact ⟨_, _, _, rfl, rfl⟩
    · cases h
  · cases h

theorem eq_of_fetches (h : fetches k (.exec t o r st st' : RelayEvent env) = true) :
    o = .v2 (.shardRecv k) := by
  unfold fetches at h
  split at h
  · next heq =>
      cases heq
      rw [of_decide_eq_true h]
  · cases h

/-- **What an operation does to the inbox of a shard.** -/
theorem inboxStep (h : execRelay env t o st = some (r, st')) (k : ℕ)
    (hist : List (RelayEvent env)) :
    InboxStep k hist (.exec t o r st st') (st.v2.shards k).inbox (st'.v2.shards k).inbox := by
  have hother (hputs : posts k hist (.exec t o r st st' : RelayEvent env) = none)
      (htakes : fetches k (.exec t o r st st' : RelayEvent env) = false)
      (hinbox : (st'.v2.shards k).inbox = (st.v2.shards k).inbox) :
      InboxStep k hist (.exec t o r st st') (st.v2.shards k).inbox (st'.v2.shards k).inbox := by
    rw [hinbox]
    exact .other _ hputs htakes
  rcases o with o | o | o
  · exact hother rfl rfl (by rw [(execRelay_core h).2.2])
  · exact hother rfl rfl (by rw [(execRelay_v1 h).2.2])
  · have hv2 := (execRelay_v2 h).1
    cases hmails : o.mails with
    | false =>
        refine hother ?_ ?_ (execV2_inbox hmails hv2 k)
        · cases o <;> first | rfl | cases hmails
        · cases o <;> first | rfl | cases hmails
    | true =>
        cases o with
        | shardSend j msg =>
            simp only [execV2] at hv2
            split at hv2
            · obtain ⟨rfl, hst'⟩ := Prod.mk.inj (Option.some.inj hv2)
              by_cases hk : k = j
              · subst hk
                have hinbox : (st'.v2.shards k).inbox = (st.v2.shards k).inbox ++ [msg] := by
                  rw [← hst', V2State.setShard_self]
                rw [hinbox]
                exact .put _ ⟨msg, incarnationOf msg hist⟩ (if_pos rfl) rfl
              · refine hother (if_neg (Ne.symm hk)) rfl ?_
                rw [← hst', V2State.setShard_of_ne _ _ hk]
            · obtain ⟨rfl, hst'⟩ := Prod.mk.inj (Option.some.inj hv2)
              exact hother rfl rfl (by rw [← hst'])
        | shardRecv j =>
            simp only [execV2] at hv2
            split at hv2
            · obtain ⟨rfl, hst'⟩ := Prod.mk.inj (Option.some.inj hv2)
              exact hother rfl rfl (by rw [← hst'])
            · next msg inbox hmsg =>
                obtain ⟨rfl, hst'⟩ := Prod.mk.inj (Option.some.inj hv2)
                by_cases hk : k = j
                · subst hk
                  have hinbox : (st'.v2.shards k).inbox = inbox := by
                    rw [← hst', V2State.setShard_self]
                  rw [hinbox, hmsg]
                  exact .take _ msg rfl (decide_eq_true rfl)
                · refine hother rfl (decide_eq_false (Ne.symm hk)) ?_
                  rw [← hst', V2State.setShard_of_ne _ _ hk]
        | _ => cases hmails

end Step

/-! ### What is known about the letters -/

/-- The letters of each inbox: the inbox holds those not taken yet, none is about an incarnation
that is still to come, a removal is about no earlier incarnation of its session than the letters
before it, and what a flow received came in a letter. -/
structure Posted (w : RelayWorld env) : Prop where
  holds : ∀ k, (mailbox env k).Holds Letter.msg (w.st.v2.shards k).inbox w.hist
  known : ∀ k, ∀ l ∈ (mailbox env k).letters w.hist,
    l.incarnation ≤ incarnation l.msg.sessionId w.hist
  ordered : ∀ k, ((mailbox env k).letters w.hist).Pairwise fun l l' =>
    l'.msg = .removeSession l.msg.sessionId → l.incarnation ≤ l'.incarnation
  received : ∀ k key, ∀ n ∈ receivedIn k key w.hist, ∃ l ∈ (mailbox env k).opened w.hist,
    l.msg.sessionId = key.sessionId ∧ l.incarnation = n

/-- A removal is sent, and an entry erased, under the lock under which the entry was found; a shard
acts on the letter that it took last. -/
def mailPre (t : Tid) (o : RelayOp) (w : RelayWorld env) : Prop :=
  match t, o with
  | .cleanup, .v2 (.shardSend _ (.removeSession sid)) =>
      visitedIn sid w.hist = incarnation sid w.hist
  | .cleanup, .core (.retainErase sid) => visitedIn sid w.hist = incarnation sid w.hist
  | .shard k, .v2 (.flowsRemove _ sid) =>
      ∃ l, lastLetter k w.hist = some l ∧ l.msg = .removeSession sid
  | .shard k, .v2 (.flowForward _ key ..) =>
      ∃ l packet, lastLetter k w.hist = some l ∧ l.msg = .clientPacket packet ∧
        key = ⟨packet.sessionId, packet.gameAddr⟩
  | _, _ => True

def mailContract (env : RelayEnv) : Contract (relaySystem env) where
  cond _ _ := True
  inv := Posted
  may := may
  pre := mailPre
  post _ _ := True

section Posted

variable {w : RelayWorld env}

theorem posted_begin (h : Posted w) (a : Act) : Posted (w.begin a : RelayWorld env) := by
  have hletters (k : ℕ) : (mailbox env k).letters (.start a :: w.hist) =
      (mailbox env k).letters w.hist := Mailbox.letters_of_not_puts rfl
  refine ⟨fun k => (h.holds k).other rfl rfl, fun k l hl => ?_, fun k => ?_, fun k key n hn => ?_⟩
  · rw [System.World.begin_hist, hletters] at hl
    exact Nat.le_trans (h.known k l hl) incarnation_le_cons
  · rw [System.World.begin_hist, hletters]
    exact h.ordered k
  · obtain ⟨l, hl, hkey⟩ := h.received k key n hn
    exact ⟨l, Mailbox.mem_opened_cons (h.holds k).taken_le hl, hkey⟩

theorem mem_receivedIn_cons {t : Tid} {o : RelayOp} {r : o.Ret} {pre post : RelayState}
    {hist : List (RelayEvent env)} {k n : ℕ} {key : FlowKey}
    (h : n ∈ receivedIn k key (.exec t o r pre post :: hist)) :
    n ∈ receivedIn k key hist ∨ ∃ addr info payload now l,
      o = .v2 (.flowForward k key addr info payload now) ∧ lastLetter k hist = some l ∧
        l.incarnation = n := by
  unfold receivedIn at h
  split at h
  · cases h
  · next heq =>
      cases heq
      split at h
      · next hkey =>
          obtain ⟨rfl, rfl⟩ := hkey
          refine (List.mem_append.1 h).symm.imp_right fun hn => ?_
          obtain ⟨l, hl, rfl⟩ := Option.map_eq_some_iff.1 (Option.mem_toList.1 hn)
          exact ⟨_, _, _, _, l, rfl, hl, rfl⟩
      · exact .inl h
  · next heq =>
      cases heq
      exact .inl h

variable {t : Tid} {o : RelayOp} {r : o.Ret} {st : RelayState}

theorem removal_of_posts (hmay : may t o) (hpre : mailPre t o w) {k : ℕ} {l : Letter}
    {sid : SessionId} (hposts : posts k w.hist (.exec t o r w.st st : RelayEvent env) = some l)
    (hl : l.msg = .removeSession sid) : l.incarnation = incarnation sid w.hist := by
  obtain ⟨u, pre, post, he, hincarnation⟩ := eq_of_posts hposts
  cases he
  rw [hl] at hmay hpre hincarnation
  cases t with
  | cleanup => exact hincarnation.trans hpre
  | _ => cases hmay

/-- **Permitted operations keep what is known about the letters.** -/
theorem posted_exec (h : Posted w) (hmay : may t o) (hpre : mailPre t o w)
    (hexec : execRelay env t o w.st = some (r, st)) :
    Posted (w.after t o r st : RelayWorld env) := by
  refine ⟨fun k => ?_, fun k l hl => ?_, fun k => ?_, fun k key n hn => ?_⟩
  · have hstep := inboxStep hexec k w.hist
    have hholds := h.holds k
    rw [System.World.after_st, System.World.after_hist]
    generalize (w.st.v2.shards k).inbox = inbox, (st.v2.shards k).inbox = inbox' at hstep hholds ⊢
    cases hstep with
    | put _ l hputs htakes => exact hholds.put hputs htakes
    | take _ msg hputs htakes => exact (hholds.take hputs htakes).1
    | other _ hputs htakes => exact hholds.other hputs htakes
  · rcases List.mem_append.1 hl with hl | hl
    · exact Nat.le_trans (h.known k l hl) incarnation_le_cons
    · obtain ⟨_, _, _, -, hincarnation⟩ := eq_of_posts (Option.mem_toList.1 hl)
      rw [hincarnation]
      exact Nat.le_trans (incarnationOf_le _ _) incarnation_le_cons
  · rw [System.World.after_hist]
    cases hposts : posts k w.hist (.exec t o r w.st st : RelayEvent env) with
    | none =>
        rw [Mailbox.letters_of_not_puts (q := mailbox env k) hposts]
        exact h.ordered k
    | some l =>
        rw [Mailbox.letters_of_puts (q := mailbox env k) hposts]
        refine List.pairwise_append.2 ⟨h.ordered k, List.pairwise_singleton _ _, ?_⟩
        intro l₀ hl₀ l' hl' hremoval
        rw [List.mem_singleton.1 hl'] at hremoval ⊢
        rw [removal_of_posts hmay hpre hposts hremoval]
        exact h.known k l₀ hl₀
  · rw [System.World.after_hist] at hn
    obtain hn | ⟨addr, info, payload, now, l, rfl, hl, rfl⟩ := mem_receivedIn_cons hn
    · obtain ⟨l, hl, hkey⟩ := h.received k key n hn
      exact ⟨l, Mailbox.mem_opened_cons (h.holds k).taken_le hl, hkey⟩
    · refine ⟨l, Mailbox.mem_opened_cons (h.holds k).taken_le (List.mem_of_getLast? hl), ?_, rfl⟩
      cases t with
      | shard j =>
          obtain rfl : k = j := of_decide_eq_true hmay
          obtain ⟨l', packet, hl', hmsg, rfl⟩ := hpre
          rw [hl] at hl'
          cases hl'
          rw [hmsg]
          rfl
      | _ => cases hmay

/-- The letters that a shard has taken before a removal are about no later incarnation. -/
theorem Posted.le_removal (h : Posted w) {k removal : ℕ} {sid : SessionId} {l : Letter}
    (hlast : lastLetter k w.hist = some ⟨.removeSession sid, removal⟩)
    (hl : l ∈ (mailbox env k).opened w.hist) (hsid : l.msg.sessionId = sid) :
    l.incarnation ≤ removal := by
  obtain ⟨earlier, hearlier⟩ := List.getLast?_eq_some_iff.1 hlast
  have hordered := (h.ordered k).sublist (List.take_sublist ((mailbox env k).taken w.hist) _)
  rw [← Mailbox.opened, hearlier] at hordered
  rw [hearlier] at hl
  rcases List.mem_append.1 hl with hl | hl
  · exact (List.pairwise_append.1 hordered).2.2 l hl _ List.mem_cons_self (by rw [hsid])
  · rw [List.mem_singleton.1 hl]

end Posted

/-! ### The threads -/

section Threads

variable {w : RelayWorld env} {t : Tid} {k i : ℕ}

theorem wp_plain {α : Type} {p : RelayProg α}
    (hp : p.Uses fun o => ∀ w : RelayWorld env, mailPre t o w) :
    (mailContract env).wp t p (fun _ _ => True) w :=
  Contract.wp_of_permitted (hp.mono fun _ ho w _ => ho w)

theorem mailPre_of_ne (hcleanup : t ≠ .cleanup) (hshard : ∀ k, t ≠ .shard k) (o : RelayOp)
    (w : RelayWorld env) : mailPre t o w := by
  cases t with
  | cleanup => exact absurd rfl hcleanup
  | shard k => exact absurd rfl (hshard k)
  | _ => trivial

/-- The letter that a shard took last, unless the event takes another one. -/
theorem lastLetter_cons (h : Posted w) {e : RelayEvent env} (he : fetches k e = false) :
    lastLetter k (e :: w.hist) = lastLetter k w.hist :=
  congrArg List.getLast? (Mailbox.opened_of_not_takes (h.holds k).taken_le he)

theorem stable_lastLetter (k : ℕ) (l : Letter) :
    (mailContract env).Stable (.shard k) fun w => lastLetter k w.hist = some l := by
  intro w w' hstep hw
  cases hstep with
  | start a hne hinv => exact (lastLetter_cons hinv rfl).trans hw
  | exec u o r st hne hinv hmay =>
      refine (lastLetter_cons hinv ?_).trans hw
      refine Bool.eq_false_iff.2 fun hfetches => ?_
      cases eq_of_fetches hfetches
      cases u with
      | shard j => exact hne (by rw [of_decide_eq_true hmay])
      | _ => cases hmay

/-- The letter that a shard takes is the first one in its inbox. -/
theorem lastLetter_recv {msg : ShardMsg} {st : RelayState} (h : Posted w)
    (hexec : execRelay env t (.v2 (.shardRecv k)) w.st = some (some msg, st)) :
    ∃ l, lastLetter k (.exec t (.v2 (.shardRecv k)) (some msg) w.st st :: w.hist) = some l ∧
      l.msg = msg := by
  have hv2 := (execRelay_v2 hexec).1
  simp only [execV2] at hv2
  split at hv2
  · cases (Prod.mk.inj (Option.some.inj hv2)).1
  · next msg' inbox hinbox =>
      cases (Prod.mk.inj (Option.some.inj hv2)).1
      have hholds := h.holds k
      rw [hinbox] at hholds
      have htakes : (mailbox env k).takes (.exec t (.v2 (.shardRecv k)) (some msg) w.st st) =
          true := decide_eq_true rfl
      obtain ⟨-, l, hl, hopened⟩ := hholds.take rfl htakes
      exact ⟨l, by rw [lastLetter, hopened, List.getLast?_concat], hl⟩

theorem shardInbox_wp (m : InboxTurn) :
    (mailContract env).wp (.shard k) (shardInbox k m) (fun _ _ => True) w := by
  refine Contract.wp_op (C := mailContract env) _ .true trivial
    (fun _ _ _ => trivial) ?_
  intro w₁ msg st₁ hinv₁ _ hexec₁ _
  have hexec₁ : execRelay env (.shard k) (.v2 (.shardRecv k)) w₁.st = some (msg, st₁) := hexec₁
  cases msg with
  | none => trivial
  | some msg =>
      obtain ⟨l, hw₁, hl⟩ := lastLetter_recv hinv₁ hexec₁
      cases msg with
      | clientPacket packet =>
          refine Contract.wp_mono (Contract.wp_of_uses (C := mailContract env)
            (shardClientPacket_uses k m packet) _ (stable_lastLetter k l) (fun o ho w hinv hw => ?_)
            hw₁) fun _ _ _ => trivial
          refine ⟨?_, fun r st _ _ => (lastLetter_cons hinv ?_).trans hw⟩
          · rcases o with o | o | o
            · cases o <;> trivial
            · cases ho
            · cases o with
              | flowForward j key addr info payload now => exact ⟨l, packet, hw, hl, ho.2⟩
              | _ => trivial
          · refine Bool.eq_false_iff.2 fun hfetches => ?_
            cases eq_of_fetches hfetches
            cases ho
      | keepalive sid addr => exact wp_plain ⟨fun _ => trivial, fun _ => trivial⟩
      | removeSession sid =>
          exact Contract.wp_op (C := mailContract env) _ (stable_lastLetter k l) hw₁
            (fun _ _ hw => ⟨l, hw, hl⟩) fun _ _ _ _ _ _ _ => trivial

/-- The cleanup task holds the lock of shard `i` of the session map, and since it took it no entry
was inserted there. -/
def Visited (i : ℕ) (w : RelayWorld env) : Prop :=
  w.st.core.guards i = some .cleanup ∧
    ∀ sid, env.dashShardOf sid = i → visitedIn sid w.hist = incarnation sid w.hist

theorem Visited.cons (h : Visited i w) {e : RelayEvent env} (hvisits : visits e = false)
    (hinserts : ∀ sid, env.dashShardOf sid = i → inserts sid e = false) {sid : SessionId}
    (hsid : env.dashShardOf sid = i) :
    visitedIn sid (e :: w.hist) = incarnation sid (e :: w.hist) := by
  rw [visitedIn_of_not_visits hvisits, incarnation_of_not_inserts (hinserts sid hsid)]
  exact h.2 sid hsid

theorem stable_visited (i : ℕ) : (mailContract env).Stable .cleanup (Visited i) := by
  intro w w' hstep hw
  cases hstep with
  | start a => exact ⟨hw.1, fun sid hsid => hw.cons rfl (fun _ _ => rfl) hsid⟩
  | exec u o r st hne _ _ _ hexec =>
      refine ⟨execRelay_guard hexec hne hw.1, fun sid hsid => ?_⟩
      refine hw.cons (not_visits_of_ne hne) (fun sid' hsid' => ?_) hsid
      refine Bool.eq_false_iff.2 fun hinserts => ?_
      -- the entry would be inserted under the lock, which is not theirs
      obtain ⟨entry, rfl⟩ := eq_of_inserts hinserts
      have hcore := (execRelay_core (o := .entryInsert sid' entry) hexec).1
      simp only [execCore] at hcore
      split at hcore
      · next hheld =>
          have hguard := of_decide_eq_true hheld
          rw [hsid', hw.1] at hguard
          exact hne (Option.some.inj hguard).symm
      · cases hcore

/-- The operations of the visit of the entry of session `sid`. -/
def VisitOp (sid : SessionId) : RelayOp → Prop
  | .core (.countDec _) | .core (.countRemove _) | .core .activeSub => True
  | .core (.retainErase sid') => sid' = sid
  | .v2 (.shardSend _ (.removeSession sid')) => sid' = sid
  | _ => False

theorem cleanupSession_uses (p : CleanupPass) (entry : SessionId × SessionEntry) :
    (cleanupSession env p entry).Uses (VisitOp entry.1) := by
  cases hpath : env.datapath <;>
    simp [cleanupSession, decrementSourceSessionCount, signalRemoval, hpath, VisitOp]

theorem VisitOp.guards {sid : SessionId} {o : RelayOp} (ho : VisitOp sid o) {r : o.Ret}
    {s s' : RelayState} (h : execRelay env .cleanup o s = some (r, s')) :
    s'.core.guards = s.core.guards := by
  rcases o with o | o | o
  · have hcore := (execRelay_core h).1
    cases o with
    | countDec ip => exact (execCore_counting rfl hcore).2
    | countRemove ip => exact (execCore_counting rfl hcore).2
    | activeSub => exact (execCore_counting rfl hcore).2
    | retainErase sid' => exact (execCore_retainErase hcore).2
    | _ => cases ho
  · cases ho
  · rw [(execRelay_v2 h).2.1]

theorem cleanupSession_mail_wp (p : CleanupPass) {entry : SessionId × SessionEntry}
    (hentry : env.dashShardOf entry.1 = i) (hw : Visited i w) :
    (mailContract env).wp .cleanup (cleanupSession env p entry) (fun _ w => Visited i w) w := by
  refine Contract.wp_of_uses (C := mailContract env) (cleanupSession_uses p entry) _
    (stable_visited i) (fun o ho w _ hw => ⟨?_, fun r st hexec _ => ⟨?_, fun sid hsid => ?_⟩⟩) hw
  · rcases o with o | o | o
    · cases o with
      | retainErase sid => exact hw.2 sid (by rw [show sid = entry.1 from ho, hentry])
      | _ => trivial
    · cases ho
    · cases o with
      | shardSend j msg =>
          cases msg with
          | removeSession sid => exact hw.2 sid (by rw [show sid = entry.1 from ho, hentry])
          | _ => cases ho
      | _ => cases ho
  · rw [System.World.after_st, ho.guards hexec]
    exact hw.1
  · refine hw.cons ?_ (fun sid' _ => ?_) hsid
    · rcases o with o | o | o
      · cases o <;> first | rfl | cases ho
      · rfl
      · rfl
    · rcases o with o | o | o
      · cases o <;> first | rfl | cases ho
      · rfl
      · rfl

theorem retainShard_mail_wp (p : CleanupPass) :
    (mailContract env).wp .cleanup (retainShard env p i) (fun _ _ => True) w := by
  refine wp_core_bind _ .true trivial (fun _ _ _ => trivial) ?_
  intro w₁ entries st₁ _ _ hexec₁ _
  obtain ⟨hentries, -, hguard⟩ := execCore_retainLock (execRelay_core hexec₁).1
  have hvisited : Visited i (w₁.after .cleanup (.core (.retainLock i)) entries st₁ :
      RelayWorld env) := ⟨hguard, fun sid _ => visitedIn_of_visits rfl⟩
  have hshard (x : SessionId × SessionEntry) (hx : x ∈ entries) : env.dashShardOf x.1 = i := by
    rw [hentries] at hx
    exact of_decide_eq_true (List.mem_filter.1 hx).2
  refine Contract.wp_seq (Contract.wp_forM
    (fun rest w => (∀ x ∈ rest, env.dashShardOf x.1 = i) ∧ Visited i w)
    (fun x rest w hw => ?_) ⟨hshard, hvisited⟩) fun _ w _ => ?_
  · obtain ⟨hx, hrest⟩ := List.forall_mem_cons.1 hw.1
    exact Contract.wp_mono (cleanupSession_mail_wp p hx hw.2) fun _ _ hw => ⟨hrest, hw⟩
  · exact wp_plain ⟨fun _ => trivial, fun _ => trivial⟩

theorem cleanupPass_mail_wp (p : CleanupPass) :
    (mailContract env).wp .cleanup (cleanupPass env p) (fun _ _ => True) w := by
  have hretain (w : RelayWorld env) :
      (mailContract env).wp .cleanup (retainSessions env p) (fun _ _ => True) w :=
    Contract.wp_forM (fun _ _ => True) (fun i _ w _ => retainShard_mail_wp p) trivial
  unfold cleanupPass
  split
  · refine Contract.wp_seq (wp_plain ?_) fun _ w _ => hretain w
    exact retainFlowsV1_uses (fun o _ _ => trivial) (fun _ _ => trivial) env p.now
  · exact hretain w

/-- **Every thread keeps to the contract.** -/
theorem mailContract_sound (env : RelayEnv) : (mailContract env).Sound where
  start_inv w a hinv _ _ := posted_begin hinv a
  exec_inv w t o r st hinv hmay hpre hexec _ := posted_exec hinv hmay hpre hexec
  post_stable _ := Contract.Stable.true
  prog_may := prog_uses env
  prog_wp w a _ _ _ := by
    have hother (hcleanup : a.tid ≠ .cleanup) (hshard : ∀ k, a.tid ≠ .shard k) :
        (mailContract env).wp a.tid (a.prog env) (fun _ _ => True) (w.begin a) :=
      wp_plain ((prog_uses env a).mono fun o _ w => mailPre_of_ne hcleanup hshard o w)
    cases a with
    | cleanup p => exact cleanupPass_mail_wp p
    | shardInbox k m => exact shardInbox_wp m
    | shardEvent k token arrivals =>
        refine wp_plain ((shardEvent_uses k token arrivals).mono fun o ho w => ?_)
        rcases o with o | o | o
        · cases o <;> trivial
        · cases ho
        · cases o <;> trivial
    | shardCleanup k now => exact wp_plain ⟨fun _ => trivial, fun _ => trivial⟩
    | _ => exact hother (by simp [Act.tid]) (by simp [Act.tid])

end Threads

/-! ### Every run -/

section Run

variable {bucketOf : Ipv4Addr → ℕ} {createdAt : Instant} {c c' : (relaySystem env).Config}

theorem posted_run
    (h : (relaySystem env).Run (fun _ _ => True) (relayStart env bucketOf createdAt) c) :
    Contract.Sound.Good (mailContract env) c := by
  refine (mailContract_sound env).run h
    (Contract.Sound.good_initial ⟨?_, ?_, ?_, ?_⟩ fun _ => trivial)
  · exact fun k => Mailbox.Holds.nil
  · intro k l hl
    cases hl
  · exact fun k => List.Pairwise.nil
  · intro k key n hn
    cases hn

/-- The cleanup task erases the incarnation that it found, and for which it sent the removal. -/
theorem erase_removes_visited
    (h : (relaySystem env).Run (fun _ _ => True) (relayStart env bucketOf createdAt) c)
    {sid : SessionId} {r : Unit} {pre post : RelayState}
    (hstep : (relaySystem env).Step c (.exec .cleanup (.core (.retainErase sid)) r pre post) c') :
    visitedIn sid c.hist = incarnation sid c.hist :=
  (Contract.Sound.pre_of_step (posted_run h) hstep).2

def RelayOp.erases (sid : SessionId) : RelayOp → Bool
  | .core (.retainErase sid') => sid' = sid
  | _ => false

/-- The session of the sample packet has expired. -/
theorem erase_removes_visited_sample :
    ∃ c c' r post, (relaySystem openEnv).Run (fun _ _ => True) openStart c ∧
      (relaySystem openEnv).Step c (.exec .cleanup (.core (.retainErase 1)) r c.st post) c' ∧
      visitedIn 1 c.hist = incarnation 1 c.hist := by
  have hstart : System.Reaches System.free openStart (openStart.st, openStart.ctl) :=
    ⟨_, Relation.ReflTransGen.refl, rfl, rfl⟩
  obtain ⟨c, o, r, st, c', hrun, hasked, hstep, -⟩ := (hstart.follow
    [.start (.datagram (sampleFrame samplePacket sampleClient 0)), .fire .rx 30,
      .start (.cleanup ⟨secs 210, 210⟩), .fire .cleanup 7] (by decide +kernel)).step .cleanup
    (RelayOp.erases 1) (by decide +kernel)
  have hrun := hrun.mono fun _ _ _ => trivial
  unfold RelayOp.erases at hasked
  split at hasked
  · cases of_decide_eq_true hasked
    exact ⟨c, c', r, st, hrun, hstep, erase_removes_visited hrun hstep⟩
  · cases hasked

/-- **Removal never hits a new incarnation.** When a shard closes a flow on a removal, the removal
was sent for an incarnation of the session that is not earlier than the incarnation of any client
packet that the flow has received. -/
theorem removal_spares_later_incarnations
    (h : (relaySystem env).Run (fun _ _ => True) (relayStart env bucketOf createdAt) c)
    {k : ℕ} {sid : SessionId} {r : Unit} {pre post : RelayState}
    (hstep : (relaySystem env).Step c (.exec (.shard k) (.v2 (.flowsRemove k sid)) r pre post) c')
    {key : FlowKey} (hopen : (c.st.v2.shards k).flows.lookup key ≠ none)
    (hclosed : (c'.st.v2.shards k).flows.lookup key = none) :
    ∃ removal, lastLetter k c.hist = some ⟨.removeSession key.sessionId, removal⟩ ∧
      removal ≤ incarnation key.sessionId c.hist ∧
      ∀ n ∈ receivedIn k key c.hist, n ≤ removal := by
  have hgood := posted_run h
  obtain ⟨-, l, hl, hmsg⟩ := Contract.Sound.pre_of_step hgood hstep
  -- only the flows of the session are closed
  have hsid : key.sessionId = sid := by
    by_contra hne
    cases hstep with
    | exec _ _ _ _ _ _ hexec =>
        have hexec : execRelay env (.shard k) (.v2 (.flowsRemove k sid)) c.st = some (r, post) :=
          hexec
        have hv2 := (execRelay_v2 hexec).1
        have hst : post.v2 = _ := (congrArg Prod.snd (Option.some.inj hv2)).symm
        rw [System.World.after_st, hst, V2State.setTables_self,
          FlowTables.lookup_removeSession_of_ne _ hne] at hclosed
        exact hopen hclosed
  obtain ⟨msg, removal⟩ := l
  obtain rfl : msg = .removeSession sid := hmsg
  subst hsid
  refine ⟨removal, hl, ?_, fun n hn => ?_⟩
  · exact hgood.1.known k _ (Mailbox.mem_letters_of_mem_opened (List.mem_of_getLast? hl))
  · obtain ⟨l, hmem, hkey, rfl⟩ := hgood.1.received k key n hn
    exact hgood.1.le_removal hl hmem hkey

/-- The shard of session 1 is about to close its flows, among them that of the sample packet, which
has received a packet of the first incarnation; the session is in its second. -/
def Closing (c : (relaySystem openEnv).Config) : Prop :=
  System.ready (M := relaySystem openEnv) (.shard 0)
      (fun o => match o with | .v2 (.flowsRemove 0 1) => true | _ => false) (c.st, c.ctl) = true ∧
    (c.st.v2.shards 0).flows.lookup sampleFlowKey ≠ none ∧
    ((System.outcome (M := relaySystem openEnv) System.free [.fire (.shard 0) 1]
      (c.st, c.ctl)).1.v2.shards 0).flows.lookup sampleFlowKey = none ∧
    receivedIn 0 sampleFlowKey c.hist = [1] ∧ incarnation 1 c.hist = 2

instance (c : (relaySystem openEnv).Config) : Decidable (Closing c) :=
  inferInstanceAs (Decidable (_ ∧ _ ∧ _ ∧ _ ∧ _))

/-- A session is removed and comes back before its shard has read about the removal. -/
theorem removal_spares_later_incarnations_sample :
    ∃ c c' r post, (relaySystem openEnv).Run (fun _ _ => True) openStart c ∧
      (relaySystem openEnv).Step c
        (.exec (.shard 0) (.v2 (.flowsRemove 0 1)) r c.st post) c' ∧
      receivedIn 0 sampleFlowKey c.hist = [1] ∧ incarnation 1 c.hist = 2 ∧
      ∃ removal, lastLetter 0 c.hist = some ⟨.removeSession 1, removal⟩ ∧
        removal ≤ incarnation 1 c.hist ∧ ∀ n ∈ receivedIn 0 sampleFlowKey c.hist, n ≤ removal := by
  have hreplay : ((System.Config.replay (M := relaySystem openEnv) (fun _ _ => true)
      [.start (.datagram (sampleFrame samplePacket sampleClient 0)), .fire .rx 30,
        .start (.shardInbox 0 ⟨0, true, true, true⟩), .fire (.shard 0) 30,
        .start (.cleanup ⟨secs 210, 210⟩), .fire .cleanup 30,
        .start (.datagram (sampleFrame samplePacket sampleClient 211)), .fire .rx 30,
        .start (.shardInbox 0 ⟨secs 211, true, true, true⟩), .fire (.shard 0) 1]
      openStart).map fun c => (Closing c : Bool)) = some true := by
    decide +kernel
  obtain ⟨c, hc, hfacts⟩ := Option.map_eq_some_iff.1 hreplay
  obtain ⟨hready, hopen, hclosed, hreceived, hincarnation⟩ := of_decide_eq_true hfacts
  have hrun := (System.Config.run_of_replay hc).mono fun _ _ _ => trivial
  obtain ⟨o, r, st, c', hasked, hstep, hshows⟩ := System.Config.Shows.step
    (M := relaySystem openEnv) (x := (c.st, c.ctl)) ⟨rfl, rfl⟩ (.shard 0) _ hready
  split at hasked
  · refine ⟨c, c', r, st, hrun, hstep, hreceived, hincarnation, ?_⟩
    exact removal_spares_later_incarnations hrun hstep hopen (by rw [hshows.1]; exact hclosed)
  · cases hasked

end Run

end SwiftRelay
