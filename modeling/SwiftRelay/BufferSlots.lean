/-
**Buffer slots are conserved.**

The buffers of the pool are shared by all threads without locks; what keeps two threads from using
the same one is that the number of a slot is passed on and never copied.  A slot is free, in the
hands of one thread, or in one queued message or frame, and each operation moves it from one of
these places to another.  Every path through the programs gives back or passes on what it has taken,
so a thread that is done has empty hands.

Main definitions:

* `Place`, `Queues.slotsAt` — where slots can be;
* `QueueOp.Owned` — an operation on a slot that the thread has in hand, with a length that fits;
* `QueueOp.hands` — what a thread has in hand after an operation;
* `slotsContract` — the contract.

Main results:

* `execQueue_partition` — one operation;
* `slotsContract_sound`, `slots_conserved` — every run.
-/

import SwiftRelay.Custody
import SwiftRelay.Datapath

set_option autoImplicit false

namespace SwiftRelay.Datapath

open Conc Custody

variable {env : Env}

/-! ### Places -/

/-- Where a slot can be. -/
inductive Place (env : Env)
  | free
  | hand (t : Tid env)
  | inbox (k : Fin env.shardCount)
  | control
  | data
  deriving DecidableEq, Fintype

/-- The slots at a place. -/
def Queues.slotsAt (q : Queues env) : Place env → List ℕ
  | .free => q.free
  | .hand t => q.held t
  | .inbox k => (q.inbox k).flatMap Msg.slots
  | .control => q.txControl.map QueuedFrame.bufIdx
  | .data => q.txData.map QueuedFrame.bufIdx

/-- Each slot of the pool is at one place. -/
def Queues.Conserved (q : Queues env) : Prop := Partition q.slotsAt (Finset.range env.poolSlots)

/-- A message whose length fits a buffer. -/
def Msg.Fits : Msg → Prop
  | .clientPacket _ _ payloadLen => payloadLen ≤ maxPacketSize
  | .keepalive .. => True
  | .removeSession _ => True

/-- The lengths of what is queued fit the buffers. -/
structure Queues.Fits (q : Queues env) : Prop where
  inbox : ∀ k, ∀ msg ∈ q.inbox k, msg.Fits
  control : ∀ frame ∈ q.txControl, frame.len ≤ maxPacketSize
  data : ∀ frame ∈ q.txData, frame.len ≤ maxPacketSize

namespace QueueOp

/-- An operation uses, releases or passes on only slots that the thread has in hand, with a length
that fits a buffer. -/
def Owned (hands : List ℕ) : QueueOp env → Prop
  | .acquire => True
  | .release idx => idx ∈ hands
  | .write idx bytes => idx ∈ hands ∧ bytes.length ≤ maxPacketSize
  | .read idx len => idx ∈ hands ∧ len ≤ maxPacketSize
  | .inboxSend _ msg => (∀ idx ∈ msg.slots, idx ∈ hands) ∧ msg.Fits
  | .inboxRecv _ => True
  | .txSend frame => frame.bufIdx ∈ hands ∧ frame.len ≤ maxPacketSize
  | .txRecv => True

/-- What the thread has in hand afterwards. -/
def hands : (o : QueueOp env) → o.Ret → List ℕ → List ℕ
  | .acquire, r, l => r.toList ++ l
  | .release idx, _, l => l.diff [idx]
  | .write .., _, l => l
  | .read .., _, l => l
  | .inboxSend _ msg, sent, l => if sent = true then l.diff msg.slots else l
  | .inboxRecv _, r, l => r.toList.flatMap Msg.slots ++ l
  | .txSend frame, sent, l => if sent = true then l.diff [frame.bufIdx] else l
  | .txRecv, frame, l => frame.bufIdx :: l

/-- What is taken from a queue fits a buffer. -/
def Answer : (o : QueueOp env) → o.Ret → Prop
  | .inboxRecv _, r => ∀ msg ∈ r, msg.Fits
  | .txRecv, frame => frame.len ≤ maxPacketSize
  | _, _ => True

end QueueOp

/-! ### One operation -/

section Step

variable {t : Tid env} {q q' : Queues env}

/-- An operation changes the hands of its thread only, and in one way. -/
theorem execQueue_hands {o : QueueOp env} {r : o.Ret} (h : execQueue t o q = some (r, q')) :
    q'.held = Function.update q.held t (o.hands r (q.held t)) := by
  cases execQueue_step h with
  | exhausted | write | read | inboxFull | inboxEmpty | txFull =>
      exact (Function.update_eq_self ..).symm
  | inboxRecv k msg inbox => simp [Queues.take, QueueOp.hands]
  | _ => rfl

theorem slotsAt_take (q : Queues env) (slots : List ℕ) (p : Place env) :
    (q.take t slots).slotsAt p = if p = .hand t then slots ++ q.held t else q.slotsAt p := by
  cases p with
  | hand u =>
      by_cases hu : u = t
      · subst hu
        simp [Queues.slotsAt, Queues.take]
      · simp [Queues.slotsAt, Queues.take, hu]
  | _ => rfl

theorem slotsAt_give (q : Queues env) (slots : List ℕ) (p : Place env) :
    (q.give t slots).slotsAt p = if p = .hand t then (q.held t).diff slots else q.slotsAt p := by
  cases p with
  | hand u =>
      by_cases hu : u = t
      · subst hu
        simp [Queues.slotsAt, Queues.give]
      · simp [Queues.slotsAt, Queues.give, hu]
  | _ => rfl

/-- Slots go from a place into the hands of a thread. -/
theorem Queues.Conserved.take (h : q.Conserved) {p : Place env} {slots : List ℕ}
    (hp : p ≠ .hand t) (hothers : ∀ x, x ≠ p → q'.slotsAt x = q.slotsAt x)
    (hslots : ∀ idx, (q'.slotsAt p).count idx + slots.count idx = (q.slotsAt p).count idx) :
    (q'.take t slots).Conserved := by
  have hheld : q'.held t = q.held t := hothers (.hand t) hp.symm
  refine h.move hp (fun x hxp hxt => ?_) fun idx => ?_
  · rw [slotsAt_take, if_neg hxt, hothers x hxp]
  · rw [slotsAt_take, slotsAt_take, if_neg hp, if_pos rfl, List.count_append, hheld]
    have := hslots idx
    change _ = _ + (q.held t).count idx
    omega

theorem Queues.Conserved.give (h : q.Conserved) {p : Place env} {slots : List ℕ}
    (hp : p ≠ .hand t) (hothers : ∀ x, x ≠ p → q'.slotsAt x = q.slotsAt x)
    (hheld : ∀ idx, slots.count idx ≤ (q.held t).count idx)
    (hslots : ∀ idx, (q'.slotsAt p).count idx = (q.slotsAt p).count idx + slots.count idx) :
    (q'.give t slots).Conserved := by
  have hsame : q'.held t = q.held t := hothers (.hand t) hp.symm
  refine h.move hp (fun x hxp hxt => ?_) fun idx => ?_
  · rw [slotsAt_give, if_neg hxt, hothers x hxp]
  · rw [slotsAt_give, slotsAt_give, if_neg hp, if_pos rfl, List.count_diff, hsame, hslots]
    have := hheld idx
    change _ = _ + (q.held t).count idx
    omega

theorem count_singleton_le {idx : ℕ} {l : List ℕ} (h : idx ∈ l) (a : ℕ) :
    [idx].count a ≤ l.count a :=
  List.Sublist.count_le a (List.singleton_sublist.2 h)

theorem Msg.count_slots_le {msg : Msg} {l : List ℕ} (h : ∀ idx ∈ msg.slots, idx ∈ l) (a : ℕ) :
    msg.slots.count a ≤ l.count a := by
  cases msg with
  | clientPacket packet idx len => exact count_singleton_le (h idx List.mem_cons_self) a
  | keepalive sid addr => exact Nat.zero_le _
  | removeSession sid => exact Nat.zero_le _

/-- An operation on slots in hand keeps every slot at one place. -/
theorem execQueue_partition {o : QueueOp env} {r : o.Ret} (h : execQueue t o q = some (r, q'))
    (hq : q.Conserved) (ho : o.Owned (q.held t)) : q'.Conserved := by
  cases execQueue_step h with
  | acquire idx free hfree =>
      refine hq.take (p := .free) (by simp) (fun x hx => ?_) fun a => ?_
      · cases x <;> first | rfl | exact absurd rfl hx
      · simp [Queues.slotsAt, hfree, List.count_cons]
  | release idx =>
      refine hq.give (p := .free) (by simp) (fun x hx => ?_) (count_singleton_le ho) fun a => ?_
      · cases x <;> first | rfl | exact absurd rfl hx
      · simp [Queues.slotsAt]
  | inboxSend k msg =>
      refine hq.give (p := .inbox k) (by simp) (fun x hx => ?_) (Msg.count_slots_le ho.1)
        fun a => ?_
      · cases x with
        | inbox j =>
            have hj : j ≠ k := fun heq => hx (by rw [heq])
            simp [Queues.slotsAt, hj]
        | _ => rfl
      · simp [Queues.slotsAt]
  | inboxRecv k msg inbox hinbox =>
      refine hq.take (p := .inbox k) (by simp) (fun x hx => ?_) fun a => ?_
      · cases x with
        | inbox j =>
            have hj : j ≠ k := fun heq => hx (by rw [heq])
            simp [Queues.slotsAt, hj]
        | _ => rfl
      · simp [Queues.slotsAt, hinbox, Nat.add_comm]
  | sendControl frame =>
      refine hq.give (p := .control) (by simp) (fun x hx => ?_) (count_singleton_le ho.1)
        fun a => ?_
      · cases x <;> first | rfl | exact absurd rfl hx
      · simp [Queues.slotsAt]
  | sendData frame =>
      refine hq.give (p := .data) (by simp) (fun x hx => ?_) (count_singleton_le ho.1) fun a => ?_
      · cases x <;> first | rfl | exact absurd rfl hx
      · simp [Queues.slotsAt]
  | recvControl frame txControl hcontrol =>
      refine hq.take (p := .control) (by simp) (fun x hx => ?_) fun a => ?_
      · cases x <;> first | rfl | exact absurd rfl hx
      · simp [Queues.slotsAt, hcontrol, List.count_cons]
  | recvData frame txData hdata =>
      refine hq.take (p := .data) (by simp) (fun x hx => ?_) fun a => ?_
      · cases x <;> first | rfl | exact absurd rfl hx
      · simp [Queues.slotsAt, hdata, List.count_cons]
  | _ => exact hq

theorem execQueue_fits {o : QueueOp env} {r : o.Ret} (h : execQueue t o q = some (r, q'))
    (hq : q.Fits) (ho : o.Owned (q.held t)) : q'.Fits ∧ o.Answer r := by
  have hsent {frame : QueuedFrame} {l : List QueuedFrame} (hframe : frame.len ≤ maxPacketSize)
      (hl : ∀ f ∈ l, f.len ≤ maxPacketSize) : ∀ f ∈ l ++ [frame], f.len ≤ maxPacketSize := by
    intro f hf
    rcases List.mem_append.1 hf with hf | hf
    · exact hl f hf
    · rwa [List.mem_singleton.1 hf]
  cases execQueue_step h with
  | inboxSend k msg =>
      refine ⟨⟨fun j m hm => ?_, hq.control, hq.data⟩, trivial⟩
      by_cases hj : j = k
      · subst hj
        simp only [Queues.give, Function.update_self, List.mem_append, List.mem_singleton] at hm
        rcases hm with hm | rfl
        · exact hq.inbox j m hm
        · exact ho.2
      · simp only [Queues.give, Function.update_of_ne hj] at hm
        exact hq.inbox j m hm
  | inboxEmpty k => exact ⟨hq, fun _ h => by cases h⟩
  | inboxRecv k msg inbox hinbox =>
      have hmem (m : Msg) (hm : m = msg ∨ m ∈ inbox) : m.Fits :=
        hq.inbox k m (by rw [hinbox]; exact List.mem_cons.2 hm)
      refine ⟨⟨fun j m hm => ?_, hq.control, hq.data⟩, fun m hm => ?_⟩
      · by_cases hj : j = k
        · subst hj
          simp only [Queues.take, Function.update_self] at hm
          exact hmem m (.inr hm)
        · simp only [Queues.take, Function.update_of_ne hj] at hm
          exact hq.inbox j m hm
      · cases hm
        exact hmem msg (.inl rfl)
  | sendControl frame => exact ⟨⟨hq.inbox, hsent ho.2 hq.control, hq.data⟩, trivial⟩
  | sendData frame => exact ⟨⟨hq.inbox, hq.control, hsent ho.2 hq.data⟩, trivial⟩
  | recvControl frame txControl hcontrol =>
      have hall := hq.control
      rw [hcontrol] at hall
      exact ⟨⟨hq.inbox, fun f hf => hall f (List.mem_cons_of_mem _ hf), hq.data⟩,
        hall _ List.mem_cons_self⟩
  | recvData frame txData hdata =>
      have hall := hq.data
      rw [hdata] at hall
      exact ⟨⟨hq.inbox, hq.control, fun f hf => hall f (List.mem_cons_of_mem _ hf)⟩,
        hall _ List.mem_cons_self⟩
  | _ => exact ⟨⟨hq.inbox, hq.control, hq.data⟩, trivial⟩

end Step

/-! ### The contract -/

/-- Every slot is at one place, a thread uses and passes on only what it has in hand, and an idle
thread has nothing. -/
def slotsContract (env : Env) : Contract (pathSystem env) where
  cond _ _ := True
  inv w := w.st.queues.Conserved ∧ w.st.queues.Fits
  may := Op.UsedBy
  pre t o w := ∀ o', o = .queue o' → o'.Owned (w.st.queues.held t)
  post t w := w.st.queues.held t = []

theorem Stable.hands {C : Contract (pathSystem env)} (t : Tid env) (l : List ℕ) :
    C.Stable t fun w => w.st.queues.held t = l := by
  refine .of_exec (fun _ _ hw => hw) fun w u o r st hne hinv hused hpre hexec _ hw => ?_
  rw [System.World.after_st]
  obtain heq | ⟨o', r', rfl, hqueue⟩ := exec_queues hexec
  · rw [heq]
    exact hw
  · rw [execQueue_hands hqueue, Function.update_of_ne hne.symm]
    exact hw

section Rules

variable {t : Tid env} {α : Type} {Q : α → World env → Prop} {w : World env} {l : List ℕ}

theorem wp_hands {o : QueueOp env} {f : o.Ret → PathProg env α} (hw : w.st.queues.held t = l)
    (ho : o.Owned l)
    (hnext : ∀ (w' : World env) (r : o.Ret), o.Answer r → w'.st.queues.held t = o.hands r l →
      (slotsContract env).wp t (f r) Q w') :
    (slotsContract env).wp t (queue o >>= f) Q w := by
  refine wp_queue _ (Stable.hands t l) hw ?_ fun w' r q hinv hw' hexec _ => ?_
  · intro w' _ hw' o' heq
    cases heq
    rw [hw']
    exact ho
  · have hhands := execQueue_hands hexec
    refine hnext _ r (execQueue_fits hexec hinv.2 (hw' ▸ ho)).2 ?_
    rw [System.World.after_st, State.setQueues_queues, hhands, Function.update_self, hw']

/-- A program without operations on the pool and the queues. -/
theorem wp_idleHands {φ : Op env → Prop} {p : PathProg env α} (hp : p.Uses φ)
    (hφ : ∀ o, ¬φ (.queue o)) (hw : w.st.queues.held t = l) :
    (slotsContract env).wp t p (fun _ w => w.st.queues.held t = l) w := by
  refine Contract.wp_of_uses hp _ (Stable.hands t l) (fun o ho w' _ hw' => ⟨?_, ?_⟩) hw
  · intro o' heq
    subst heq
    exact absurd ho (hφ o')
  · intro r st hexec _
    rw [System.World.after_st]
    obtain heq | ⟨o', r', rfl, -⟩ := exec_queues hexec
    · rw [heq]
      exact hw'
    · exact absurd ho (hφ o')

theorem wp_loopHands {j : Fin env.shardCount} {o : LoopOp} {f : o.Ret → PathProg env α}
    (hw : w.st.queues.held t = l)
    (hnext : ∀ (w' : World env) (r : o.Ret), w'.st.queues.held t = l →
      (slotsContract env).wp t (f r) Q w') :
    (slotsContract env).wp t (loop j o >>= f) Q w := by
  refine Contract.wp_seq (wp_idleHands (φ := (· = .loop j o))
    (uses_loop.2 rfl) (by simp) hw) fun r w' hw' => hnext w' r hw'

theorem release_hands {idx : ℕ} (hw : w.st.queues.held t = [idx]) :
    (slotsContract env).wp t (queue (.release idx)) (fun _ w => w.st.queues.held t = []) w := by
  refine wp_hands (f := .ret) hw List.mem_cons_self fun w' _ _ hw' => ?_
  simpa [QueueOp.hands] using hw'

end Rules

/-! ### The programs -/

section Programs

variable {t : Tid env} {k : Fin env.shardCount} {w : World env}

theorem sendControl_hands (addr : SocketAddr) (sid : SessionId) {frame : List UInt8}
    (now : Instant) (hframe : frame.length ≤ maxPacketSize) (hw : w.st.queues.held t = []) :
    (slotsContract env).wp t (sendControl addr sid frame now)
      (fun _ w => w.st.queues.held t = []) w := by
  refine wp_hands hw trivial fun w₁ r _ hw₁ => ?_
  cases r with
  | none => exact hw₁
  | some idx =>
      refine wp_hands hw₁ ⟨List.mem_cons_self, hframe⟩ fun w₂ _ _ hw₂ => ?_
      refine wp_hands hw₂ ⟨List.mem_cons_self, hframe⟩ fun w₃ sent _ hw₃ => ?_
      cases sent with
      | true => simpa [QueueOp.hands] using hw₃
      | false => exact release_hands (by simpa [QueueOp.hands] using hw₃)

theorem notifyShard_hands (sid : SessionId) {msg : Msg} (hmsg : msg.Fits)
    (hw : w.st.queues.held t = msg.slots) :
    (slotsContract env).wp t (notifyShard sid msg)
      (fun sent w => w.st.queues.held t = if sent = true then [] else msg.slots) w := by
  refine wp_hands hw ⟨fun _ h => h, hmsg⟩ fun w₁ sent _ hw₁ => ?_
  cases sent with
  | true =>
      have hempty : w₁.st.queues.held t = [] := by
        rw [hw₁]
        cases msg <;> simp [QueueOp.hands, Msg.slots]
      exact wp_loopHands hempty fun w₂ _ hw₂ => hw₂
  | false => exact hw₁

theorem rxPass_hands (turn : RxTurn) (hw : w.st.queues.held t = []) :
    (slotsContract env).wp t (rxPass turn) (fun _ w => w.st.queues.held t = []) w := by
  cases turn with
  | control addr sid frameType status now =>
      exact sendControl_hands addr sid now
        (by simp [sessionIdBytes_length, sessionIdLen, maxPacketSize]) hw
  | ping d serverRxTs =>
      refine sendControl_hands d.src d.sid d.now ?_ hw
      simp only [List.length_append, sessionIdBytes_length, List.length_singleton,
        List.length_drop, List.length_take, sessionIdLen, pingFrameLen, maxPacketSize]
      omega
  | keepalive d =>
      refine Contract.wp_seq
        (notifyShard_hands d.sid (show (Msg.keepalive d.sid d.src).Fits from trivial) hw) ?_
      intro sent w' hw'
      cases sent <;> exact hw'
  | packet d stats =>
      simp only [rxPass, rxPacket]
      split
      · next gameAddr payload info raw hparse =>
          have hlen : payload.length ≤ maxPacketSize := by
            have hpayload := payload_le_of_parse hparse
            have hbytes := d.bytes_le
            rw [List.length_drop] at hpayload
            omega
          refine wp_hands hw trivial fun w₁ r _ hw₁ => ?_
          cases r with
          | none => exact hw₁
          | some idx =>
              refine wp_hands hw₁ ⟨List.mem_cons_self, hlen⟩ fun w₂ _ _ hw₂ => ?_
              refine Contract.wp_seq (notifyShard_hands d.sid hlen hw₂) ?_
              intro sent w₃ hw₃
              cases sent with
              | true => exact hw₃
              | false => exact release_hands hw₃
      · exact hw

theorem carryResponse_hands (key : FlowKey) (flow : FlowState) (turn : RecvTurn)
    (payload : List UInt8) (hw : w.st.queues.held t = []) :
    (slotsContract env).wp t (carryResponse key flow turn payload)
      (fun _ w => w.st.queues.held t = []) w := by
  refine wp_hands hw trivial fun w₁ r _ hw₁ => ?_
  cases r with
  | none => exact hw₁
  | some idx =>
      dsimp only
      split
      · exact Contract.wp_seq (release_hands hw₁) fun _ _ hw₂ => hw₂
      · next ipPacket hwrite =>
          have hlen : (sessionIdBytes key.sessionId ++ ipPacket).length ≤ maxPacketSize := by
            have hpacket := length_of_writeResponse hwrite
            rw [List.length_append, sessionIdBytes_length]
            simp only [sessionIdLen, maxPacketSize] at hpacket ⊢
            omega
          refine wp_hands hw₁ ⟨List.mem_cons_self, hlen⟩ fun w₂ _ _ hw₂ => ?_
          refine wp_hands hw₂ ⟨List.mem_cons_self, hlen⟩ fun w₃ sent _ hw₃ => ?_
          cases sent with
          | true => simpa [QueueOp.hands] using hw₃
          | false =>
              have hheld : w₃.st.queues.held t = [idx] := by simpa [QueueOp.hands] using hw₃
              exact Contract.wp_seq (release_hands hheld) fun _ _ hw₄ => hw₄

theorem flowBurst_hands (key : FlowKey) (flow : FlowState) (turns : ℕ → RecvTurn) (n : ℕ)
    (hw : w.st.queues.held t = []) :
    (slotsContract env).wp t (flowBurst k key flow turns n)
      (fun _ w => w.st.queues.held t = []) w := by
  induction n generalizing w with
  | zero => exact hw
  | succ n ih =>
      have hresponse : (slotsContract env).wp t (flowResponse k key flow (turns n))
          (fun _ w => w.st.queues.held t = []) w := by
        refine wp_loopHands hw fun w₁ r hw₁ => ?_
        cases r with
        | wouldBlock => exact hw₁
        | error => exact hw₁
        | datagram payload =>
            refine Contract.wp_seq (wp_idleHands
              (φ := (· = .leaseCurrent key.sessionId)) (Prog.uses_perform.2 rfl) (by simp) hw₁)
              fun current w₂ hw₂ => ?_
            cases current with
            | true =>
                exact wp_loopHands hw₂ fun w₃ _ hw₃ => carryResponse_hands key flow _ payload hw₃
            | false => exact hw₂
      refine Contract.wp_seq hresponse fun more w₁ hw₁ => ?_
      cases more with
      | true => exact ih hw₁
      | false => exact hw₁

theorem socketEvents_hands (reads : ℕ → ℕ → RecvTurn) (tokens : List ℕ)
    (hw : w.st.queues.held t = []) :
    (slotsContract env).wp t (socketEvents k reads tokens)
      (fun _ w => w.st.queues.held t = []) w := by
  induction tokens generalizing w with
  | nil => exact hw
  | cons token tokens ih =>
      refine Contract.wp_seq ?_ fun _ _ hw₁ => ih hw₁
      unfold socketEvent
      split
      · exact hw
      · refine wp_loopHands hw fun w₁ r hw₁ => ?_
        cases r with
        | none => exact hw₁
        | some x => exact flowBurst_hands x.1 x.2 _ _ hw₁

/-- A message is handled with its slot in hand; whatever becomes of it, the slot is released. -/
theorem shardMsg_hands (turn : InboxTurn) {msg : Msg} (hmsg : msg.Fits)
    (hw : w.st.queues.held t = msg.slots) :
    (slotsContract env).wp t (shardMsg k turn msg) (fun _ w => w.st.queues.held t = []) w := by
  cases msg with
  | clientPacket packet idx len =>
      have hforward {w : World env} (hw : w.st.queues.held t = [idx]) :
          (slotsContract env).wp t (forwardOnFlow k turn packet idx len)
            (fun _ w => w.st.queues.held t = []) w := by
        refine wp_loopHands hw fun w₁ _ hw₁ => ?_
        refine wp_hands hw₁ ⟨List.mem_cons_self, hmsg⟩ fun w₂ bytes _ hw₂ => ?_
        exact wp_loopHands hw₂ fun w₃ _ hw₃ => release_hands hw₃
      change (slotsContract env).wp t (shardClientPacket k turn packet idx len) _ w
      unfold shardClientPacket
      split
      · exact release_hands hw
      · refine wp_loopHands hw fun w₁ found hw₁ => ?_
        split
        · exact hforward hw₁
        · -- opening a flow does not touch the slot
          refine Contract.wp_seq (wp_idleHands (uses_openFlow turn packet)
            (fun _ h => by cases h) hw₁) fun opened w₂ hw₂ => ?_
          split
          · exact hforward hw₂
          · exact release_hands hw₂
  | keepalive sid addr => exact wp_loopHands (f := .ret) hw fun _ _ hw₁ => hw₁
  | removeSession sid => exact wp_loopHands (f := .ret) hw fun _ _ hw₁ => hw₁

theorem drainInbox_hands (turns : ℕ → InboxTurn) (n : ℕ) (hw : w.st.queues.held t = []) :
    (slotsContract env).wp t (drainInbox k turns n) (fun _ w => w.st.queues.held t = []) w := by
  induction n generalizing w with
  | zero => exact hw
  | succ n ih =>
      refine wp_hands hw trivial fun w₁ r hfits hw₁ => ?_
      cases r with
      | none => exact hw₁
      | some msg =>
          refine Contract.wp_seq (shardMsg_hands _ (hfits msg rfl) ?_) fun _ _ hw₂ => ih hw₂
          simpa [QueueOp.hands] using hw₁

theorem shardRound_hands (turn : RoundTurn) (hw : w.st.queues.held t = []) :
    (slotsContract env).wp t (shardRound k turn) (fun _ w => w.st.queues.held t = []) w := by
  refine wp_loopHands hw fun w₁ tokens hw₁ => ?_
  refine Contract.wp_seq (socketEvents_hands _ _ hw₁) fun _ w₂ hw₂ => ?_
  refine Contract.wp_seq (drainInbox_hands _ _ hw₂) fun _ w₃ hw₃ => ?_
  cases turn.cleanupAt with
  | none => exact hw₃
  | some now =>
      exact wp_loopHands hw₃ fun w₄ _ hw₄ => wp_loopHands (f := .ret) hw₄ fun _ _ hw₅ => hw₅

theorem txPass_hands (turn : SendTurn) (hw : w.st.queues.held t = []) :
    (slotsContract env).wp t (txPass turn) (fun _ w => w.st.queues.held t = []) w := by
  refine wp_hands hw trivial fun w₁ frame hfits hw₁ => ?_
  have hsend {w : World env} (addr : SocketAddr) (bytes : List UInt8)
      (hw : w.st.queues.held t = [frame.bufIdx]) :
      (slotsContract env).wp t
        (Prog.perform (S := sig env) (.sendTo addr bytes) >>= fun _ =>
          queue (.release frame.bufIdx))
        (fun _ w => w.st.queues.held t = []) w :=
    Contract.wp_seq (wp_idleHands (φ := (· = .sendTo addr bytes))
      (Prog.uses_perform.2 rfl) (by simp) hw) fun _ _ hw' => release_hands hw'
  unfold sendTxPacket
  split
  · exact release_hands hw₁
  · split
    · exact release_hands hw₁
    · refine wp_hands hw₁ ⟨List.mem_cons_self, hfits⟩ fun w₂ bytes _ hw₂ => ?_
      split
      · exact hsend _ bytes hw₂
      · exact release_hands hw₂
    · exact wp_hands hw₁ ⟨List.mem_cons_self, hfits⟩ fun w₂ bytes _ hw₂ => hsend _ bytes hw₂

end Programs

/-! ### Every run -/

theorem slotsContract_sound (env : Env) : (slotsContract env).Sound where
  start_inv w a hinv _ _ := hinv
  exec_inv w t o r st hinv _ hpre hexec _ := by
    change st.queues.Conserved ∧ st.queues.Fits
    obtain heq | ⟨o', r', rfl, hqueue⟩ := exec_queues hexec
    · rw [heq]
      exact hinv
    · have howned := hpre o' rfl
      exact ⟨execQueue_partition hqueue hinv.1 howned, (execQueue_fits hqueue hinv.2 howned).1⟩
  post_stable t := Stable.hands t []
  prog_may := uses_prog
  prog_wp w a _ hpost _ := by
    cases a with
    | rx turn => exact rxPass_hands turn hpost
    | remove sid =>
        refine wp_hands hpost ⟨fun _ h => (by cases h), trivial⟩ fun w₁ sent _ hw₁ => ?_
        refine wp_loopHands (f := .ret) (l := []) ?_ fun _ _ hw₂ => hw₂
        cases sent <;> exact hw₁
    | round k turn => exact shardRound_hands turn hpost
    | tx turn => exact txPass_hands turn hpost
    | arrive k s d => exact wp_loopHands (f := .ret) hpost fun _ _ hw₁ => hw₁
    | setLease sid b =>
        exact wp_idleHands (φ := (· = .setLease sid b)) (Prog.uses_perform.2 rfl) (by simp) hpost

theorem conserved_new : (Queues.new : Queues env).Conserved := by
  refine Partition.of_single (p := .free) (fun x hx => ?_) List.nodup_range fun idx => ?_
  · cases x <;> first | rfl | exact absurd rfl hx
  · exact List.mem_range.trans Finset.mem_range.symm

theorem fits_new : (Queues.new : Queues env).Fits where
  inbox _ _ h := by cases h
  control _ h := by cases h
  data _ h := by cases h

/-- The free list has room for a slot that is in hand. -/
theorem release_isSome {s : State env} {t : Tid env} {idx : ℕ} (h : s.queues.Conserved)
    (hidx : idx ∈ s.queues.held t) : (exec t (.queue (.release idx)) s).isSome = true := by
  have hroom : s.queues.free.length < env.poolSlots := by
    have hlt := h.length_lt (p := .free) (q := .hand t) (by simp) hidx
    rwa [Finset.card_range] at hlt
  simp [exec, execQueue, hroom]

/-- In every state that can be reached each slot of the pool is at exactly one place, and there
once; no other number is used as a slot.  A thread uses, releases and passes on only slots that it
has in hand, with lengths that fit; a release does not block; and a thread that is done has no slot.
-/
theorem slots_conserved {c : Config env} (h : (pathSystem env).Steps (start env) c) :
    (∀ idx < env.poolSlots, ∃! p, idx ∈ c.st.queues.slotsAt p) ∧
    (∀ p, (c.st.queues.slotsAt p).Nodup ∧ ∀ idx ∈ c.st.queues.slotsAt p, idx < env.poolSlots) ∧
    c.st.queues.Fits ∧
    (∀ t o f, c.ctl t = .op (.queue o) f → o.Owned (c.st.queues.held t)) ∧
    (∀ t idx f, c.ctl t = .op (.queue (.release idx)) f →
      (exec t (.queue (.release idx)) c.st).isSome = true) ∧
    ∀ t, c.ctl t = .ret () → c.st.queues.held t = [] := by
  have hgood := (slotsContract_sound env).run h
    (Contract.Sound.good_initial ⟨conserved_new, fits_new⟩ fun _ => rfl)
  have hq : c.st.queues.Conserved := hgood.1.1
  have howned (t : Tid env) (o : QueueOp env) (f : o.Ret → PathProg env Unit)
      (hctl : c.ctl t = .op (.queue o) f) : o.Owned (c.st.queues.held t) :=
    (Contract.Sound.pre_of_next hgood hctl).2 o rfl
  refine ⟨fun idx hidx => hq.existsUnique (Finset.mem_range.2 hidx), fun p => ⟨hq.nodup p, ?_⟩,
    hgood.1.2, howned, fun t idx f hctl => release_isSome hq (howned t (.release idx) f hctl),
    fun t hidle => Contract.Sound.post_of_idle hgood hidle⟩
  exact fun idx hidx => Finset.mem_range.1 (hq.mem_stock hidx)

/-- A client packet is waiting in the inbox of its shard. -/
theorem slots_conserved_sample :
    ∃ c, (pathSystem sampleEnv).Steps sampleStart c ∧
      c.st.queues.slotsAt (.inbox onlyShard) = [0] ∧
      (∀ idx < sampleEnv.poolSlots, ∃! p, idx ∈ c.st.queues.slotsAt p) ∧
      ∀ t, c.ctl t = .ret () → c.st.queues.held t = [] := by
  obtain ⟨c, hrun, hc⟩ := (reaches_sampleStart System.free).follow
    [.start (.rx (.packet (sampleInbound 1 0) .new)), .fire .rx 10] (by decide +kernel)
  have hslots : c.st.queues.slotsAt (.inbox onlyShard) = [0] :=
    (congrArg (fun s => s.queues.slotsAt (.inbox onlyShard)) hc.1).trans (by decide +kernel)
  obtain ⟨hplace, -, -, -, -, hidle⟩ := slots_conserved hrun.steps
  exact ⟨c, hrun.steps, hslots, hplace, hidle⟩

end SwiftRelay.Datapath
