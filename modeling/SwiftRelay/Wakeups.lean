/-
**Wake-ups of a shard.**

A producer puts a message into the inbox of a shard and then wakes the shard.  Wake-ups coalesce:
one event stands for any number of messages.  A shard that is woken takes at most a burst of
messages, so what is left behind a full burst has no event of its own and waits for the next
message, or for the next cleanup.

As long as no event is delivered while more than a burst of messages waits, no wake-up is lost:
the messages are covered by what is left of the burst, by a pending event, or by a producer that is
about to wake the shard.

Main definitions:

* `Notifying` — a producer between its message and the wake-up;
* `Covered` — the messages of an inbox will be seen;
* `DrainCovers` — the event is delivered for at most a burst of messages.

Main results:

* `wakeContract_sound`, `no_wakeup_lost` — every run under this condition;
* `wakeup_lost_behind_burst` — a run with one message too many.
-/

import SwiftRelay.Datapath
import SwiftRelay.Sequential

set_option autoImplicit false

namespace SwiftRelay.Datapath

open Conc

variable {env : Env} {k : Fin env.shardCount} {t u : Tid env}

/-! ### What operations do to an inbox and to the event -/

section Effects

variable {q q' : Queues env} {l l' : LoopState}

/-- Only sending to it and receiving from it changes an inbox. -/
theorem execQueue_inbox {o : QueueOp env} {r : o.Ret} (h : execQueue t o q = some (r, q'))
    (hsend : ∀ msg, o ≠ .inboxSend k msg) (hrecv : o ≠ .inboxRecv k) : q'.inbox k = q.inbox k := by
  cases execQueue_step h with
  | inboxSend j msg => exact Function.update_of_ne (fun heq => hsend msg (by rw [heq])) ..
  | inboxRecv j => exact Function.update_of_ne (fun heq => hrecv (by rw [heq])) ..
  | _ => rfl

/-- Only `poll` uses the wake-up event. -/
theorem execLoop_wakePending {o : LoopOp} {r : o.Ret} (h : execLoop o l = some (r, l'))
    (hpoll : ∀ timedOut picked, o ≠ .poll timedOut picked) (hl : l.wakePending = true) :
    l'.wakePending = true := by
  cases o with
  | poll timedOut picked => exact absurd rfl (hpoll timedOut picked)
  | wake => cases h; rfl
  | recv key fails =>
      obtain rfl | ⟨s, queue, rfl⟩ := execLoop_recv h <;> exact hl
  | _ => cases h; exact hl

end Effects

/-! ### Messages that are covered -/

/-- Thread `t` has put a message into the inbox of shard `k` and not woken the shard yet. -/
def Notifying (k : Fin env.shardCount) (t : Tid env) (w : World env) : Prop :=
  (t = .rx ∨ t = .cleanup) ∧
    ∃ msg, System.lastAnswer t w.hist = some ⟨.queue (.inboxSend k msg), true⟩

/-- The messages in the inbox are no more than `n`, or the event is pending, or it is about to be
raised. -/
def Covered (k : Fin env.shardCount) (n : ℕ) (w : World env) : Prop :=
  (w.st.queues.inbox k).length ≤ n ∨ (w.st.loops k).wakePending = true ∨ ∃ t, Notifying k t w

/-- When `poll` delivers the wake-up event, at most a burst of messages is in the inbox. -/
def DrainCovers (w : World env) : Event env → Prop
  | .exec _ (.loop k (.poll _ picked)) _ _ _ =>
      tokenWake ∈ (w.st.loops k).delivered picked →
        (w.st.queues.inbox k).length ≤ maxInboxDrainBurst
  | _ => True

/-- A producer that has sent a message wakes the shard next, and an idle shard has covered its
inbox. -/
def wakeContract (env : Env) : Contract (pathSystem env) where
  cond := DrainCovers
  inv _ := True
  may := Op.UsedBy
  pre t o w := ∀ k, Notifying k t w → o = .loop k .wake
  post t w := (∀ k, ¬Notifying k t w) ∧ ∀ k, t = .shard k → Covered k 0 w

section Notifying

variable {w : World env} {o : Op env} {r : o.Ret} {st : State env}

@[simp] theorem notifying_begin (a : Act env) :
    Notifying k t (System.World.begin (M := pathSystem env) w a) ↔ Notifying k t w := by
  rw [Notifying, System.World.begin_hist, System.lastAnswer_start (M := pathSystem env)]
  rfl

theorem notifying_after_of_ne (hne : u ≠ t) :
    Notifying k t (System.World.after (M := pathSystem env) w u o r st) ↔ Notifying k t w := by
  rw [Notifying, System.World.after_hist, System.lastAnswer_exec_of_ne (M := pathSystem env) hne]
  rfl

theorem notifying_after_self
    (h : Notifying k t (System.World.after (M := pathSystem env) w t o r st)) :
    ∃ msg, (⟨o, r⟩ : Σ o : Op env, o.Ret) = ⟨.queue (.inboxSend k msg), true⟩ := by
  obtain ⟨-, msg, hmsg⟩ := h
  rw [System.World.after_hist, System.lastAnswer_exec_self (M := pathSystem env)] at hmsg
  exact ⟨msg, Option.some_inj.1 hmsg⟩

theorem not_notifying_shard (j : Fin env.shardCount) : ¬Notifying k (.shard j) w := by
  rintro ⟨h | h, -⟩ <;> cases h

end Notifying

/-! ### The shard -/

variable {w : World env}

theorem Covered.mono {m n : ℕ} (h : Covered k m w) (hmn : m ≤ n) : Covered k n w :=
  h.imp_left fun hlen => hlen.trans hmn

/-- A step that leaves the inbox, the event and the producers as they are. -/
theorem Covered.after {n : ℕ} {o : Op env} {r : o.Ret} {st : State env} (h : Covered k n w)
    (hinbox : st.queues.inbox k = w.st.queues.inbox k)
    (hwake : (w.st.loops k).wakePending = true → (st.loops k).wakePending = true)
    (hquiet : Notifying k u w → (st.loops k).wakePending = true) :
    Covered k n (System.World.after (M := pathSystem env) w u o r st) := by
  rcases h with hlen | hpending | ⟨t, ht⟩
  · exact .inl (by rwa [System.World.after_st, hinbox])
  · exact .inr (.inl (hwake hpending))
  · by_cases htu : u = t
    · subst htu
      exact .inr (.inl (hquiet ht))
    · exact .inr (.inr ⟨t, (notifying_after_of_ne htu).2 ht⟩)

/-- An operation that neither receives from the inbox nor polls leaves the event pending. -/
theorem exec_wakePending {o : Op env} {r : o.Ret} {s s' : State env}
    (h : exec u o s = some (r, s')) (hpoll : ∀ timedOut picked, o ≠ .loop k (.poll timedOut picked))
    (hs : (s.loops k).wakePending = true) : (s'.loops k).wakePending = true := by
  obtain heq | ⟨o', r', rfl, hloop⟩ := exec_loops h k
  · rw [heq]
    exact hs
  · refine execLoop_wakePending hloop (fun timedOut picked heq => ?_) hs
    exact hpoll timedOut picked (by rw [heq])

theorem exec_inbox {o : Op env} {r : o.Ret} {s s' : State env} (h : exec u o s = some (r, s'))
    (hsend : ∀ msg, o ≠ .queue (.inboxSend k msg)) (hrecv : o ≠ .queue (.inboxRecv k)) :
    s'.queues.inbox k = s.queues.inbox k := by
  obtain heq | ⟨o', r', rfl, hqueue⟩ := exec_queues h
  · rw [heq]
  · refine execQueue_inbox hqueue (fun msg heq => hsend msg (by rw [heq])) fun heq => ?_
    exact hrecv (by rw [heq])

/-- What the others do leaves the inbox of a shard covered. -/
theorem stable_covered (n : ℕ) : (wakeContract env).Stable (.shard k) (Covered k n) := by
  intro w w' hstep hw
  cases hstep with
  | start a =>
      refine hw.imp_right fun h => h.imp_right fun ⟨t, ht⟩ => ⟨t, ?_⟩
      exact (notifying_begin a).2 ht
  | exec u o r st hne hinv hused hpre hexec =>
      have hpoll (timedOut : Bool) (picked : List ℕ) : o ≠ .loop k (.poll timedOut picked) := by
        rintro rfl
        exact hne hused
      have hwake := exec_wakePending (k := k) hexec hpoll
      have hraised (ht : Notifying k u w) : (st.loops k).wakePending = true := by
        cases hpre k ht
        have hexec : exec u (.loop k .wake) w.st = some (r, st) := hexec
        obtain ⟨l, hl, rfl⟩ := exec_loop hexec
        cases hl
        rw [State.setLoop_self]
      by_cases hsend : ∃ msg, o = .queue (.inboxSend k msg)
      · obtain ⟨msg, rfl⟩ := hsend
        obtain ⟨q, hq, rfl⟩ := exec_queue (t := u) hexec
        cases execQueue_step hq with
        | inboxFull => exact hw.after rfl hwake hraised
        | inboxSend =>
            -- the sender has become a producer
            refine .inr (.inr ⟨u, hused, msg, ?_⟩)
            rw [System.World.after_hist, System.lastAnswer_exec_self (M := pathSystem env)]
      · refine hw.after (exec_inbox hexec (fun msg heq => hsend ⟨msg, heq⟩) ?_) hwake hraised
        rintro rfl
        exact hne hused

/-- A program of shard `k` that neither receives nor polls. -/
theorem wp_covered {α : Type} {φ : Op env → Prop} {p : PathProg env α} (hp : p.Uses φ)
    (hsend : ∀ msg, ¬φ (.queue (.inboxSend k msg))) (hrecv : ¬φ (.queue (.inboxRecv k)))
    (hpoll : ∀ timedOut picked, ¬φ (.loop k (.poll timedOut picked))) {n : ℕ} (hw : Covered k n w) :
    (wakeContract env).wp (.shard k) p (fun _ => Covered k n) w := by
  refine Contract.wp_of_uses hp _ (stable_covered n) (fun o ho w' _ hw' => ⟨fun j hj => ?_, ?_⟩) hw
  · exact absurd hj (not_notifying_shard k)
  · intro r st hexec _
    refine hw'.after (exec_inbox hexec (fun msg heq => hsend msg (heq ▸ ho))
      fun heq => hrecv (heq ▸ ho)) (exec_wakePending hexec fun timedOut picked heq =>
        hpoll timedOut picked (heq ▸ ho)) fun ht => absurd ht (not_notifying_shard k)

theorem drainInbox_covered (turns : ℕ → InboxTurn) (n : ℕ) (hw : Covered k n w) :
    (wakeContract env).wp (.shard k) (drainInbox k turns n) (fun _ => Covered k 0) w := by
  induction n generalizing w with
  | zero => exact hw
  | succ n ih =>
      refine wp_queue _ (stable_covered (n + 1)) hw (fun w' _ _ j hj => ?_)
        fun w' r q _ hw' hexec _ => ?_
      · exact absurd hj (not_notifying_shard k)
      have hnext (msg : Msg) (hlen : (q.inbox k).length + 1 = (w'.st.queues.inbox k).length) :
          Covered k n (System.World.after (M := pathSystem env) w' (.shard k)
            (.queue (.inboxRecv k)) (some msg) (w'.st.setQueues q)) := by
        rcases hw' with hle | hpending | ⟨t, ht⟩
        · exact .inl (by simp only [System.World.after_st, State.setQueues_queues]; omega)
        · exact .inr (.inl hpending)
        · refine .inr (.inr ⟨t, (notifying_after_of_ne ?_).2 ht⟩)
          rintro rfl
          exact not_notifying_shard k ht
      cases execQueue_step hexec with
      | inboxEmpty _ hempty => exact .inl (by simp [hempty])
      | inboxRecv _ msg inbox hinbox =>
          refine Contract.wp_seq (wp_covered (uses_shardMsg _ msg) ?_ ?_ ?_
            (hnext msg (by simp [Queues.take, hinbox]))) fun _ _ hw'' => ih hw''
          · rintro m (_ | ⟨⟨⟩⟩ | ⟨⟨⟩⟩)
          · rintro (_ | ⟨⟨⟩⟩ | ⟨⟨⟩⟩)
          · rintro timedOut picked (_ | ⟨⟨⟩⟩ | ⟨⟨⟩⟩)

/-- The event is used up for at most a burst of messages. -/
theorem poll_covered {timedOut : Bool} {picked tokens : List ℕ} {l : LoopState} (hw : Covered k 0 w)
    (hcond : tokenWake ∈ (w.st.loops k).delivered picked →
      (w.st.queues.inbox k).length ≤ maxInboxDrainBurst)
    (hpoll : execLoop (.poll timedOut picked) (w.st.loops k) = some (tokens, l)) :
    Covered k maxInboxDrainBurst (System.World.after (M := pathSystem env) w (.shard k)
      (.loop k (.poll timedOut picked)) tokens (w.st.setLoop k l)) := by
  obtain ⟨rfl, rfl⟩ := execLoop_poll hpoll
  by_cases hwake : tokenWake ∈ (w.st.loops k).delivered picked
  · exact .inl (hcond hwake)
  · refine (hw.mono (Nat.zero_le _)).after rfl (fun hpending => ?_)
      fun ht => absurd ht (not_notifying_shard k)
    rw [State.setLoop_self]
    simp [LoopState.deliver, hpending, hwake]

theorem shardRound_covered (turn : RoundTurn) (hw : Covered k 0 w) :
    (wakeContract env).wp (.shard k) (shardRound k turn) (fun _ => Covered k 0) w := by
  refine wp_loop _ (stable_covered 0) hw (fun w' _ _ j hj => absurd hj (not_notifying_shard k))
    fun w' tokens l _ hw' hpoll hcond => ?_
  have hround := poll_covered hw' hcond hpoll
  refine Contract.wp_seq (wp_covered (uses_socketEvents _ tokens) ?_ ?_ ?_ hround) fun _ _ hw₁ => ?_
  · rintro msg (_ | _ | _ | _ | ⟨⟨⟩⟩)
  · rintro (_ | _ | _ | _ | ⟨⟨⟩⟩)
  · rintro timedOut picked (_ | _ | _ | _ | ⟨⟨⟩⟩)
  refine Contract.wp_seq (drainInbox_covered _ _ hw₁) fun _ _ hw₂ => ?_
  cases turn.cleanupAt with
  | none => exact hw₂
  | some now =>
      refine wp_covered (φ := fun o => o = .loop k (.cleanup now) ∨ o = .loop k .storeCount)
        ?_ (by simp) (by simp) (by simp) hw₂
      exact Prog.uses_bind (uses_loop.2 (.inl rfl)) fun _ => uses_loop.2 (.inr rfl)

/-! ### The producers -/

/-- The thread has no message to notify a shard of. -/
def Calm (t : Tid env) (w : World env) : Prop := ∀ k, ¬Notifying k t w

theorem stable_calm {C : Contract (pathSystem env)} : C.Stable t (Calm t) :=
  Contract.Stable.lastAnswer (M := pathSystem env) fun answer =>
    ∀ k, ¬((t = .rx ∨ t = .cleanup) ∧ ∃ msg, answer = some ⟨.queue (.inboxSend k msg), true⟩)

theorem wp_calm {α : Type} {φ : Op env → Prop} {p : PathProg env α} (hp : p.Uses φ)
    (hsend : ∀ k msg, ¬φ (.queue (.inboxSend k msg))) (hw : Calm t w) :
    (wakeContract env).wp t p (fun _ => Calm t) w := by
  refine Contract.wp_of_uses hp _ stable_calm (fun o ho w' _ hw' => ⟨fun j hj => ?_, ?_⟩) hw
  · exact absurd hj (hw' j)
  · intro r st _ _ j hj
    obtain ⟨msg, heq⟩ := notifying_after_self hj
    cases heq
    exact hsend j msg ho

/-- A thread that has sent nothing, except perhaps a message to shard `i`, wakes shard `i`. -/
theorem wake_calm {i : Fin env.shardCount} {α : Type} {f : Unit → PathProg env α}
    {Q : α → World env → Prop} (hw : ∀ j, Notifying j t w → j = i)
    (hnext : ∀ w', Calm t w' → (wakeContract env).wp t (f ()) Q w') :
    (wakeContract env).wp t (loop i .wake >>= f) Q w := by
  refine wp_loop (fun w => ∀ j, Notifying j t w → j = i)
    (Contract.Stable.lastAnswer (M := pathSystem env) fun answer => ∀ j,
      ((t = .rx ∨ t = .cleanup) ∧ ∃ msg, answer = some ⟨.queue (.inboxSend j msg), true⟩) → j = i)
    hw (fun w' _ hw' j hj => by rw [hw' j hj]) fun w' _ l _ _ _ _ => hnext _ fun j hj => ?_
  obtain ⟨msg, heq⟩ := notifying_after_self hj
  cases heq

theorem send_calm {i : Fin env.shardCount} {msg : Msg} {α : Type} {f : Bool → PathProg env α}
    {Q : α → World env → Prop} (hw : Calm t w)
    (hnext : ∀ w' sent, (∀ j, Notifying j t w' → sent = true ∧ j = i) →
      (wakeContract env).wp t (f sent) Q w') :
    (wakeContract env).wp t (queue (.inboxSend i msg) >>= f) Q w := by
  refine wp_queue _ stable_calm hw (fun w' _ hw' j hj => absurd hj (hw' j))
    fun w' sent q _ _ _ _ => hnext _ sent fun j hj => ?_
  obtain ⟨msg', heq⟩ := notifying_after_self hj
  cases heq
  exact ⟨rfl, rfl⟩

theorem notifyShard_calm (sid : SessionId) (msg : Msg) (hw : Calm t w) :
    (wakeContract env).wp t (notifyShard sid msg) (fun _ => Calm t) w := by
  refine send_calm hw fun w' sent hw' => ?_
  cases sent with
  | true => exact wake_calm (fun j hj => (hw' j hj).2) fun _ hcalm => hcalm
  | false => exact fun j hj => absurd (hw' j hj).1 Bool.false_ne_true

theorem rxPass_calm (turn : RxTurn) (hw : Calm t w) :
    (wakeContract env).wp t (rxPass turn) (fun _ => Calm t) w := by
  have hframe (k : Fin env.shardCount) (msg : Msg) :
      ¬FrameOp (.queue (.inboxSend k msg) : Op env) := by rintro ⟨⟩
  have hquiet {o : QueueOp env} (hsend : ∀ k msg, o ≠ .inboxSend k msg) {w : World env}
      (hw : Calm t w) : (wakeContract env).wp t (queue o) (fun _ => Calm t) w :=
    wp_calm (φ := (· = .queue o)) (uses_queue.2 rfl)
      (fun k msg heq => hsend k msg (by cases heq; rfl)) hw
  cases turn with
  | control addr sid frameType status now => exact wp_calm (uses_sendControl ..) hframe hw
  | ping d serverRxTs => exact wp_calm (uses_sendControl ..) hframe hw
  | keepalive d =>
      exact Contract.wp_seq (notifyShard_calm _ _ hw) fun _ _ hw₁ => hw₁
  | packet d stats =>
      simp only [rxPass, rxPacket]
      split
      · refine Contract.wp_seq (hquiet (by simp) hw) fun r w₁ hw₁ => ?_
        cases r with
        | none => exact hw₁
        | some idx =>
            refine Contract.wp_seq (hquiet (by simp) hw₁) fun _ w₂ hw₂ => ?_
            refine Contract.wp_seq (notifyShard_calm _ _ hw₂) fun sent w₃ hw₃ => ?_
            cases sent with
            | true => exact hw₃
            | false => exact hquiet (by simp) hw₃
      · exact hw

/-! ### Every run -/

theorem wakeContract_sound (env : Env) : (wakeContract env).Sound where
  start_inv _ _ _ _ _ := trivial
  exec_inv _ _ _ _ _ _ _ _ _ _ := trivial
  post_stable t := by
    refine stable_calm.and fun w w' hstep hw k hk => ?_
    subst hk
    exact stable_covered 0 w w' hstep (hw k rfl)
  prog_may := uses_prog
  prog_wp w a _ hpost _ := by
    have hcalm : Calm a.tid (System.World.begin (M := pathSystem env) w a) :=
      fun k hk => hpost.1 k ((notifying_begin a).1 hk)
    cases a with
    | rx turn =>
        exact Contract.wp_mono (rxPass_calm turn hcalm) fun _ _ hw => ⟨hw, fun k hk => by cases hk⟩
    | remove sid =>
        refine send_calm hcalm fun w₁ sent hw₁ => ?_
        exact wake_calm (f := .ret) (fun j hj => (hw₁ j hj).2) fun _ hw =>
          ⟨hw, fun k hk => by cases hk⟩
    | round k turn =>
        have hcovered : Covered k 0 (System.World.begin (M := pathSystem env) w (.round k turn)) :=
          (hpost.2 k rfl).imp_right fun h => h.imp_right fun ⟨t, ht⟩ =>
            ⟨t, (notifying_begin _).2 ht⟩
        refine Contract.wp_mono (shardRound_covered turn hcovered) fun _ _ hw =>
          ⟨fun _ => not_notifying_shard k, fun j hj => ?_⟩
        cases hj
        exact hw
    | tx turn =>
        exact Contract.wp_mono (wp_calm (uses_txPass turn) (fun _ _ h => by rcases h with h | h <;>
          cases h) hcalm) fun _ _ hw => ⟨hw, fun k hk => by cases hk⟩
    | arrive k s d =>
        exact Contract.wp_mono (wp_calm (uses_prog (.arrive k s d)) (fun _ _ h => by
          rcases h with h | h <;> cases h) hcalm) fun _ _ hw => ⟨hw, fun k hk => by cases hk⟩
    | setLease sid b =>
        exact Contract.wp_mono (wp_calm (uses_prog (.setLease sid b)) (fun _ _ h => by
          rcases h with h | h <;> cases h) hcalm) fun _ _ hw => ⟨hw, fun k hk => by cases hk⟩

/-- A shard that is about to poll while messages are in its inbox has the event pending, or a
producer has sent a message and wakes it next. -/
theorem no_wakeup_lost {c : Config env} (h : (pathSystem env).Run DrainCovers (start env) c)
    {k : Fin env.shardCount} (hidle : c.ctl (.shard k) = .ret ())
    (hinbox : c.st.queues.inbox k ≠ []) :
    (c.st.loops k).wakePending = true ∨
      ∃ t f, Notifying k t c.toWorld ∧ c.ctl t = .op (.loop k .wake) f := by
  have hcalm (t : Tid env) : Calm t ⟨State.new, []⟩ := by
    rintro k ⟨-, msg, hmsg⟩
    cases hmsg
  have hgood := (wakeContract_sound env).run h (Contract.Sound.good_initial trivial fun t =>
    ⟨hcalm t, fun k _ => .inl (Nat.le_refl 0)⟩)
  obtain hlen | hpending | ⟨t, ht⟩ := (Contract.Sound.post_of_idle hgood hidle).2 k rfl
  · exact absurd (List.length_eq_zero_iff.1 (Nat.le_zero.1 hlen)) hinbox
  · exact .inl hpending
  · -- the producer is not done, and the next thing that it does is to wake the shard
    cases hctl : c.ctl t with
    | ret a => exact absurd ht ((Contract.Sound.post_of_idle hgood hctl).1 k)
    | op o f =>
        cases (Contract.Sound.pre_of_next hgood hctl).2 k ht
        exact .inr ⟨t, f, ht, hctl⟩

/-- A keepalive of a session without flows. -/
def sampleKeepalive : Inbound where
  bytes := sessionIdBytes 1
  bytes_le := by simp [sessionIdBytes_length, sessionIdLen, maxPacketSize]
  src := sampleSource
  now := 0
  account := ""

/-- The test of `DrainCovers`. -/
def drainCovers : System.Test (pathSystem sampleEnv)
  | _, .loop k (.poll _ picked), s =>
      !decide (tokenWake ∈ (s.loops k).delivered picked) ||
        decide ((s.queues.inbox k).length ≤ maxInboxDrainBurst)
  | _, _, _ => true

theorem drainCovers_of_passes {w : World sampleEnv} {e : Event sampleEnv}
    (h : System.Passes drainCovers w e) : DrainCovers w e := by
  unfold DrainCovers
  split
  · intro hwake
    have h := Bool.or_eq_true_iff.1 h
    simpa [hwake] using h
  · trivial

/-- A round has handled a message, and the receive thread has sent another one. -/
theorem no_wakeup_lost_sample :
    ∃ c, (pathSystem sampleEnv).Run DrainCovers sampleStart c ∧
      c.ctl (.shard onlyShard) = .ret () ∧ c.st.queues.inbox onlyShard ≠ [] ∧
      ((c.st.loops onlyShard).wakePending = true ∨
        ∃ t f, Notifying onlyShard t c.toWorld ∧ c.ctl t = .op (.loop onlyShard .wake) f) := by
  obtain ⟨c, hrun, hc⟩ := (reaches_sampleStart drainCovers).follow
    [.start (.rx (.keepalive sampleKeepalive)), .fire .rx 2,
      .start (.round onlyShard (sampleRound [tokenWake])), .fire (.shard onlyShard) 10,
      .start (.rx (.keepalive sampleKeepalive)), .fire .rx 1] (by decide +kernel)
  have hrun := hrun.mono fun _ _ => drainCovers_of_passes
  have hidle : c.ctl (.shard onlyShard) = .ret () := by
    rw [hc.2]
    exact System.ctl_of_idle (by decide +kernel)
  have hinbox : c.st.queues.inbox onlyShard ≠ [] := by
    rw [hc.1]
    decide +kernel
  exact ⟨c, hrun, hidle, hinbox, no_wakeup_lost hrun hidle hinbox⟩

/-! ### One message too many -/

/-- The only thing that has happened is that `n` keepalives were queued. -/
def stockpile (n : ℕ) (wakePending : Bool) : State sampleEnv where
  queues := { Queues.new with
    inbox := fun _ => List.replicate n (.keepalive sampleKeepalive.sid sampleSource) }
  loops := fun _ => { LoopState.new with wakePending }
  lease := fun _ => false

theorem stockpile_zero : stockpile 0 false = State.new := by
  simp only [stockpile, State.new, Queues.new, LoopState.new, List.replicate_zero]

section Stockpile

variable {n : ℕ} {wakePending : Bool}

theorem update_only {α : Type} (k : Fin sampleEnv.shardCount) (a b : α) :
    Function.update (fun _ => a) k b = fun _ => b := by
  have : Subsingleton (Fin sampleEnv.shardCount) := inferInstanceAs (Subsingleton (Fin 1))
  funext j
  rw [Subsingleton.elim j k, Function.update_self]

theorem exec_stockpile_send (hn : n < sampleEnv.shardQueueCap) (k : Fin sampleEnv.shardCount) :
    exec .rx (.queue (.inboxSend k (.keepalive sampleKeepalive.sid sampleSource)))
      (stockpile n wakePending) = some (true, stockpile (n + 1) wakePending) := by
  simp [exec, execQueue, hn, stockpile, State.setQueues, Queues.give, Queues.new, Msg.slots,
    update_only, List.replicate_succ']

theorem exec_stockpile_wake (k : Fin sampleEnv.shardCount) :
    exec .rx (.loop k .wake) (stockpile n wakePending) = some ((), stockpile n true) := by
  simp [exec, execLoop, stockpile, State.setLoop, update_only]

theorem exec_stockpile_poll (k : Fin sampleEnv.shardCount) :
    exec (.shard k) (.loop k (.poll false [tokenWake])) (stockpile n true) =
      some ([tokenWake], stockpile n false) := by
  have hdelivered : LoopState.delivered ⟨true, .new, 0, 0, fun _ => ⟨none, false, []⟩⟩ [tokenWake] =
      [tokenWake] := by decide
  simp [exec, execLoop, stockpile, hdelivered, LoopState.deliver, State.setLoop, update_only,
    LoopState.new]

theorem exec_stockpile_recv (k : Fin sampleEnv.shardCount) :
    exec (.shard k) (.queue (.inboxRecv k)) (stockpile (n + 1) wakePending) =
      some (some (.keepalive sampleKeepalive.sid sampleSource), stockpile n wakePending) := by
  simp [exec, execQueue, stockpile, State.setQueues, Queues.take, Queues.new, Msg.slots,
    update_only, List.replicate_succ]

theorem exec_stockpile_keepalive (k : Fin sampleEnv.shardCount) (now : Instant) :
    exec (.shard k) (.loop k (.keepalive sampleKeepalive.sid sampleSource now))
      (stockpile n wakePending) = some ((), stockpile n wakePending) := by
  simp [exec, execLoop, stockpile, State.setLoop, LoopState.new, update_only, FlowTables.keepalive,
    FlowTables.new, FlowTables.flowsOf]

theorem pass_keepalive (hn : n < sampleEnv.shardQueueCap) :
    (pathSystem sampleEnv).Pass (.rx (.keepalive sampleKeepalive)) (stockpile n wakePending)
      (stockpile (n + 1) true) := by
  change (notifyShard sampleKeepalive.sid (.keepalive sampleKeepalive.sid sampleSource) >>=
    fun _ => Prog.ret ()).run (pathSystem sampleEnv) .rx _ = _
  rw [Prog.run_bind, notifyShard, run_queue, exec_stockpile_send hn, Option.bind_some, if_pos rfl,
    run_loop, exec_stockpile_wake]
  rfl

theorem run_drainInbox (k : Fin sampleEnv.shardCount) (turns : ℕ → InboxTurn) (m n : ℕ) :
    (drainInbox k turns m).run (pathSystem sampleEnv) (.shard k) (stockpile (n + m) wakePending) =
      some ((), stockpile n wakePending) := by
  induction m with
  | zero => rfl
  | succ m ih =>
      rw [drainInbox, run_queue, ← Nat.add_assoc, exec_stockpile_recv, Option.bind_some]
      change (loop k _ >>= fun _ => drainInbox k turns m).run _ _ _ = _
      rw [run_loop, exec_stockpile_keepalive, Option.bind_some, ih]

theorem pass_round (n : ℕ) :
    (pathSystem sampleEnv).Pass (.round onlyShard (sampleRound [tokenWake]))
      (stockpile (n + maxInboxDrainBurst) true) (stockpile n false) := by
  change ((shardRound onlyShard (sampleRound [tokenWake])).run (pathSystem sampleEnv)
    (.shard onlyShard) _) = _
  rw [shardRound, run_loop, sampleRound, exec_stockpile_poll, Option.bind_some]
  -- the only event is that of the waker
  change (drainInbox onlyShard _ maxInboxDrainBurst >>= fun _ => Prog.ret ()).run _ _ _ = _
  rw [Prog.run_bind, run_drainInbox]
  rfl

theorem sequence_keepalives (hn : n < sampleEnv.shardQueueCap) :
    (pathSystem sampleEnv).Sequence (fun _ _ => True) (stockpile 0 false)
      (stockpile (n + 1) true) := by
  induction n with
  | zero => exact Relation.ReflTransGen.single ⟨_, trivial, pass_keepalive hn⟩
  | succ n ih => exact (ih (Nat.lt_of_succ_lt hn)).tail ⟨_, trivial, pass_keepalive hn⟩

end Stockpile

/-- A burst of messages and one more are queued before the shard polls.  The round that follows
leaves one message behind, all threads are idle, and the next `poll` blocks. -/
theorem wakeup_lost_behind_burst :
    ∃ c, (pathSystem sampleEnv).Steps sampleStart c ∧ (∀ t, c.ctl t = .ret ()) ∧
      c.st.queues.inbox onlyShard ≠ [] ∧ (c.st.loops onlyShard).wakePending = false ∧
      ∀ picked, exec (.shard onlyShard) (.loop onlyShard (.poll false picked)) c.st = none := by
  have hround : (pathSystem sampleEnv).Sequence (fun _ _ => True) (stockpile 0 false)
      (stockpile 1 false) :=
    (sequence_keepalives (n := maxInboxDrainBurst) (by decide)).tail
      ⟨_, trivial, by rw [Nat.add_comm]; exact pass_round 1⟩
  rw [stockpile_zero] at hround
  obtain ⟨c, hsteps, hst, hidle⟩ := hround.steps
  refine ⟨c, hsteps, hidle, ?_, ?_, fun picked => ?_⟩
  · rw [hst]
    simp [stockpile]
  · rw [hst]
    rfl
  · rw [hst]
    have hnothing : ((stockpile 1 false).loops onlyShard).delivered picked = [] := by
      simp [LoopState.delivered, LoopState.pendingTokens, stockpile, LoopState.new]
    simp [exec, execLoop, hnothing]

end SwiftRelay.Datapath
