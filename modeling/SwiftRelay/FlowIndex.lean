/-
**The flow index of the first datapath.**

The receive loop enters a flow into the flow map and afterwards into the index of its session.  Who
removes a flow locks the index first, takes the flow out of the map and then out of the index.  The
cleanup task first goes over the flow map and then over the index, and other threads run in between.

Between these steps the index is not exact.  What makes up for the difference can be read off what a
thread was answered last: the receive loop owes the index a flow that it has just opened, and a
thread that has just removed a flow still holds the lock under which it is going to drop the key.  A
key that the cleanup task has left in the index is accounted for by nobody until the task gets
there; when the receive loop opens the flow again meanwhile, the key is listed twice.

Main definitions:

* `opening`, `dropping` — the flow that a thread owes the index;
* `Indexed` — the index is exact up to what is owed, and lists no flow twice;
* `IndexSafe` — the three races that are left out;
* `indexContract` — when an operation on the flows and the index is permitted.

Main results:

* `indexEffect` — everything that a permitted operation can do to the flows and the index;
* `indexed_exec` — permitted operations keep the invariant.
-/

import SwiftRelay.Hellos

set_option autoImplicit false

namespace SwiftRelay

open Conc

variable {env : RelayEnv}

/-! ### What the threads owe the index -/

/-- The flow that an answer says has been opened, with its generation. -/
def openedBy : (Σ o : RelayOp, o.Ret) → Option (FlowKey × ℕ)
  | ⟨.v1 (.flowForward key _ _ _ _ _), .opened generation⟩ => some (key, generation)
  | _ => none

/-- The flow that an answer says has been removed. -/
def removedBy : (Σ o : RelayOp, o.Ret) → Option FlowKey
  | ⟨.v1 (.flowRemoveIf key _), true⟩ => some key
  | _ => none

/-- The flow that the receive loop has opened and not yet listed. -/
def opening (w : RelayWorld env) : Option (FlowKey × ℕ) :=
  (System.lastAnswer (M := relaySystem env) .rx w.hist).bind openedBy

/-- The flow that a thread has removed and not yet dropped from the index. -/
def dropping (t : Tid) (w : RelayWorld env) : Option FlowKey :=
  (System.lastAnswer (M := relaySystem env) t w.hist).bind removedBy

theorem opening_begin (w : RelayWorld env) (a : Act) :
    opening (w.begin a : RelayWorld env) = opening w := by
  rw [opening, opening, System.World.begin_hist, System.lastAnswer_start (M := relaySystem env)]

theorem dropping_begin (t : Tid) (w : RelayWorld env) (a : Act) :
    dropping t (w.begin a : RelayWorld env) = dropping t w := by
  rw [dropping, dropping, System.World.begin_hist, System.lastAnswer_start (M := relaySystem env)]

theorem bind_lastAnswer_after {α : Type} (f : (Σ o : RelayOp, o.Ret) → Option α) (u : Tid)
    (w : RelayWorld env) (t : Tid) (o : RelayOp) (r : o.Ret) (st : RelayState) :
    (System.lastAnswer u (w.after t o r st : RelayWorld env).hist).bind f =
      if t = u then f ⟨o, r⟩ else (System.lastAnswer u w.hist).bind f := by
  rw [System.World.after_hist]
  split
  · next ht =>
      subst ht
      rw [System.lastAnswer_exec_self (M := relaySystem env), Option.bind_some]
  · next ht => rw [System.lastAnswer_exec_of_ne (M := relaySystem env) ht]

theorem opening_after (w : RelayWorld env) (t : Tid) (o : RelayOp) (r : o.Ret) (st : RelayState) :
    opening (w.after t o r st : RelayWorld env) =
      if t = .rx then openedBy ⟨o, r⟩ else opening w :=
  bind_lastAnswer_after openedBy .rx w t o r st

theorem dropping_after (u : Tid) (w : RelayWorld env) (t : Tid) (o : RelayOp) (r : o.Ret)
    (st : RelayState) :
    dropping u (w.after t o r st : RelayWorld env) =
      if t = u then removedBy ⟨o, r⟩ else dropping u w :=
  bind_lastAnswer_after removedBy u w t o r st

/-- Some thread is about to drop the key. -/
def Dropping (w : RelayWorld env) (key : FlowKey) : Prop := ∃ t, dropping t w = some key

/-- The thread owes the index nothing. -/
def Unowed (t : Tid) (w : RelayWorld env) : Prop :=
  dropping t w = none ∧ (t = .rx → opening w = none)

/-- Whoever owes the index a change makes it next. -/
def Follows (t : Tid) (o : RelayOp) (w : RelayWorld env) : Prop :=
  (∀ key, dropping t w = some key → o = .v1 (.indexDropKey key.sessionId key)) ∧
  (t = .rx → ∀ key generation, opening w = some (key, generation) →
    o = .v1 (.indexPush key.sessionId key))

theorem Unowed.follows {t : Tid} {w : RelayWorld env} (h : Unowed t w) (o : RelayOp) :
    Follows t o w := by
  refine ⟨fun key hkey => ?_, fun ht key generation hkey => ?_⟩
  · rw [h.1] at hkey
    cases hkey
  · rw [h.2 ht] at hkey
    cases hkey

/-- The operations by which a debt is paid. -/
def RelayOp.pays : RelayOp → Bool
  | .v1 (.indexPush ..) | .v1 (.indexDropKey ..) => true
  | _ => false

theorem Follows.unowed {t : Tid} {o : RelayOp} {w : RelayWorld env} (h : Follows t o w)
    (ho : o.pays = false) : Unowed t w := by
  refine ⟨Option.eq_none_iff_forall_ne_some.2 fun key hkey => ?_, fun ht =>
    Option.eq_none_iff_forall_ne_some.2 fun opened hopened => ?_⟩
  · rw [h.1 key hkey] at ho
    cases ho
  · rw [h.2 ht opened.1 opened.2 hopened] at ho
    cases ho

/-! ### The invariant -/

/-- The index lists the flows of each session, each once, up to what is owed.  A key that the
cleanup task has left behind may be listed as well. -/
structure Indexed (w : RelayWorld env) : Prop where
  own : ∀ {sid key}, key ∈ w.st.v1.keysOf sid → key.sessionId = sid
  nodup : ∀ sid, (w.st.v1.keysOf sid).Nodup
  listed : ∀ {key}, w.st.v1.generationOf key ≠ none →
    key ∈ w.st.v1.keysOf key.sessionId ∨ ∃ generation, opening w = some (key, generation)
  opened : ∀ {key generation}, opening w = some (key, generation) →
    w.st.v1.generationOf key = some generation ∧ w.st.v1.tasks.lookup generation = none ∧
      generation < w.st.v1.nextGeneration ∧
      (key ∈ w.st.v1.keysOf key.sessionId → Dropping w key)
  dropped : ∀ {t key}, dropping t w = some key →
    w.st.v1.indexGuards (env.indexShardOf key.sessionId) = some t ∧
      key ∈ w.st.v1.keysOf key.sessionId ∧
      (w.st.v1.generationOf key ≠ none → ∃ generation, opening w = some (key, generation))
  spawned : ∀ {generation key}, w.st.v1.tasks.lookup generation = some key →
    generation < w.st.v1.nextGeneration

/-- What the contract asks of the single operations. -/
def indexPre (t : Tid) (w : RelayWorld env) : RelayOp → Prop
  | .v1 (.indexPush sid key) =>
      t = .rx ∧ sid = key.sessionId ∧ ∃ generation, opening w = some (key, generation)
  | .v1 (.spawn generation _) =>
      w.st.v1.tasks.lookup generation = none ∧ generation < w.st.v1.nextGeneration
  | .v1 (.flowRemoveIf key generation) =>
      w.st.v1.indexGuards (env.indexShardOf key.sessionId) = some t ∧
        (t = .rx ∨ w.st.v1.tasks.lookup generation = some key)
  | .v1 (.indexDropKey sid key) => sid = key.sessionId ∧ dropping t w = some key
  | .v1 (.indexStore sid keys) =>
      keys = (w.st.v1.keysOf sid).filter fun key => (w.st.v1.generationOf key).isSome
  | _ => True

/-- The races that are left out.  The receive loop opens a flow under a key that the index does not
list any more, or that is just being dropped; when the cleanup task looks for the session of flows
that are still there, it finds it; and it finds the flow that the receive loop has opened and not
yet listed without a mark. -/
def IndexSafe (w : RelayWorld env) : RelayEvent env → Prop
  | .exec .rx (.v1 (.flowForward key _ _ _ _ true)) _ _ _ =>
      w.st.v1.generationOf key = none → key ∈ w.st.v1.keysOf key.sessionId → Dropping w key
  | .exec .cleanup (.core (.sessionContains sid)) _ _ _ => w.st.core.sessions.lookup sid ≠ none
  | .exec .cleanup (.v1 (.flowsRetain _ _)) _ _ _ =>
      ∀ key generation flow, opening w = some (key, generation) →
        w.st.v1.flows.lookup key = some flow → flow.markedForRemoval = none
  | _ => True

/-- Every key in the index belongs to a flow, is about to be dropped, or is excepted. -/
def Clean (excepted : FlowKey → Prop) (w : RelayWorld env) : Prop :=
  ∀ key, key ∈ w.st.v1.keysOf key.sessionId →
    w.st.v1.generationOf key ≠ none ∨ Dropping w key ∨ excepted key

def indexContract (env : RelayEnv) : Contract (relaySystem env) where
  cond := IndexSafe
  inv := Indexed
  may := may
  pre t o w := Follows t o w ∧ indexPre t w o
  post t w := Unowed t w ∧ (t = .cleanup → Clean (fun _ => False) w)

/-! ### What a permitted operation does -/

/-- What an operation of thread `t` does to the flows and the index: nothing, one of the four steps
by which a flow comes and goes, or one of the two steps of the cleanup task. -/
inductive IndexEffect (t : Tid) (w w' : RelayWorld env) : Prop
  | same (hopening : opening w' = opening w) (hdropping : ∀ u, dropping u w' = dropping u w)
      (hkeys : ∀ sid, w'.st.v1.keysOf sid = w.st.v1.keysOf sid)
      (hgen : ∀ key, w'.st.v1.generationOf key = w.st.v1.generationOf key) : IndexEffect t w w'
  | opened (key : FlowKey) (generation : ℕ) (hidle : opening w = none)
      (hfree : key ∈ w.st.v1.keysOf key.sessionId → Dropping w key)
      (hopening : opening w' = some (key, generation))
      (hdropping : ∀ u, dropping u w' = dropping u w)
      (hkeys : ∀ sid, w'.st.v1.keysOf sid = w.st.v1.keysOf sid)
      (hgen : ∀ key', w'.st.v1.generationOf key' =
        if key' = key then some generation else w.st.v1.generationOf key') : IndexEffect t w w'
  | listed (key : FlowKey) (generation : ℕ) (howed : opening w = some (key, generation))
      (hfree : w.st.v1.indexGuards (env.indexShardOf key.sessionId) = none)
      (hopening : opening w' = none) (hdropping : ∀ u, dropping u w' = dropping u w)
      (hkeys : ∀ sid, w'.st.v1.keysOf sid = if sid = key.sessionId then
        w.st.v1.keysOf key.sessionId ++ [key] else w.st.v1.keysOf sid)
      (hgen : ∀ key, w'.st.v1.generationOf key = w.st.v1.generationOf key) : IndexEffect t w w'
  | removed (key : FlowKey) (hpresent : w.st.v1.generationOf key ≠ none)
      (hne : ∀ generation, opening w ≠ some (key, generation)) (hidle : dropping t w = none)
      (hheld : w.st.v1.indexGuards (env.indexShardOf key.sessionId) = some t)
      (hopening : opening w' = opening w)
      (hdropping : ∀ u, dropping u w' = if t = u then some key else dropping u w)
      (hkeys : ∀ sid, w'.st.v1.keysOf sid = w.st.v1.keysOf sid)
      (hgen : ∀ key', w'.st.v1.generationOf key' =
        if key' = key then none else w.st.v1.generationOf key') : IndexEffect t w w'
  | dropped (key : FlowKey) (howed : dropping t w = some key) (hopening : opening w' = opening w)
      (hdropping : ∀ u, dropping u w' = if t = u then none else dropping u w)
      (hkeys : ∀ sid, w'.st.v1.keysOf sid = if sid = key.sessionId then
        (w.st.v1.keysOf key.sessionId).filter (· ≠ key) else w.st.v1.keysOf sid)
      (hgen : ∀ key, w'.st.v1.generationOf key = w.st.v1.generationOf key) : IndexEffect t w w'
  | stored (sid : SessionId) (ht : t = .cleanup) (hidle : dropping t w = none)
      (hheld : w.st.v1.indexGuards (env.indexShardOf sid) = some t)
      (hopening : opening w' = opening w) (hdropping : ∀ u, dropping u w' = dropping u w)
      (hkeys : ∀ sid', w'.st.v1.keysOf sid' = if sid' = sid then
        (w.st.v1.keysOf sid).filter fun key => (w.st.v1.generationOf key).isSome
        else w.st.v1.keysOf sid')
      (hgen : ∀ key, w'.st.v1.generationOf key = w.st.v1.generationOf key) : IndexEffect t w w'
  | swept (ht : t = .cleanup) (hopening : opening w' = opening w)
      (hdropping : ∀ u, dropping u w' = dropping u w)
      (hkeys : ∀ sid, w'.st.v1.keysOf sid = w.st.v1.keysOf sid)
      (hgen : ∀ key, w'.st.v1.generationOf key = w.st.v1.generationOf key ∨
        (w'.st.v1.generationOf key = none ∧ ∀ generation, opening w ≠ some (key, generation))) :
      IndexEffect t w w'

section Effect

variable {w : RelayWorld env} {t : Tid} {o : RelayOp} {r : o.Ret} {st : RelayState}

variable (st) in
/-- An operation that incurs no debt, of a thread that owes nothing. -/
theorem debts_after (h : Unowed t w) (hopened : openedBy ⟨o, r⟩ = none)
    (hremoved : removedBy ⟨o, r⟩ = none) :
    opening (w.after t o r st : RelayWorld env) = opening w ∧
      ∀ u, dropping u (w.after t o r st : RelayWorld env) = dropping u w := by
  refine ⟨?_, fun u => ?_⟩
  · rw [opening_after]
    split
    · next ht => rw [hopened, h.2 ht]
    · rfl
  · rw [dropping_after]
    split
    · next ht => rw [hremoved, ← ht, h.1]
    · rfl

theorem indexEffect_of_agrees (h : Unowed t w) (hagrees : w.st.v1.Agrees st.v1)
    (hopened : openedBy ⟨o, r⟩ = none) (hremoved : removedBy ⟨o, r⟩ = none) :
    IndexEffect t w (w.after t o r st : RelayWorld env) := by
  obtain ⟨hopening, hdropping⟩ := debts_after st h hopened hremoved
  exact .same hopening hdropping hagrees.keysOf hagrees.generations

variable {key : FlowKey}

theorem indexEffect_forward {addr : SocketAddr} {info : OriginalPacketInfo} {payload : List UInt8}
    {now : Instant} {newFlow : Bool} {r : V1Forwarded} (h : Unowed .rx w)
    (hexec : execV1 env .rx (.flowForward key addr info payload now newFlow) w.st.v1 =
      some (r, st.v1)) (hsafe : IndexSafe w
      (.exec .rx (.v1 (.flowForward key addr info payload now newFlow)) r w.st st)) :
    IndexEffect .rx w (w.after .rx (.v1 (.flowForward key addr info payload now newFlow)) r st :
      RelayWorld env) := by
  obtain ⟨hnone, rfl, rfl, hst⟩ | ⟨hne, hagrees⟩ := execV1_flowForward hexec
  · refine .opened key w.st.v1.nextGeneration (h.2 rfl) (hsafe hnone) ?_ (fun u => ?_)
      (fun sid => ?_) fun key' => ?_
    · rw [opening_after, if_pos rfl]
      rfl
    · rw [dropping_after]
      split
      · next hu => rw [← hu, h.1]; rfl
      · rfl
    · rw [System.World.after_st, hst]
      rfl
    · rw [System.World.after_st, hst]
      exact w.st.v1.generationOf_openFlow key key' addr info payload now
  · refine indexEffect_of_agrees h hagrees ?_ rfl
    cases r with
    | opened generation => exact absurd rfl (hne generation)
    | _ => rfl

/-- The receive loop lists the flow that it has opened. -/
theorem indexEffect_push {generation : ℕ}
    (hfollows : Follows .rx (.v1 (.indexPush key.sessionId key)) w)
    (hopening : opening w = some (key, generation))
    (hexec : execV1 env .rx (.indexPush key.sessionId key) w.st.v1 = some ((), st.v1)) :
    IndexEffect .rx w (w.after .rx (.v1 (.indexPush key.sessionId key)) () st :
      RelayWorld env) := by
  obtain ⟨hfree, heq⟩ := Option.ite_none_right_eq_some.1 hexec
  have hst : st.v1 = _ := (congrArg Prod.snd (Option.some.inj heq)).symm
  refine .listed key generation hopening (of_decide_eq_true hfree) ?_ (fun u => ?_)
    (fun sid => ?_) fun key' => ?_
  · rw [opening_after, if_pos rfl]
    rfl
  · rw [dropping_after]
    split
    · next hu =>
        refine (Option.eq_none_iff_forall_ne_some.2 fun key' hkey' => ?_).symm
        rw [← hu] at hkey'
        cases hfollows.1 key' hkey'
    · rfl
  · rw [System.World.after_st, hst]
    exact w.st.v1.keysOf_storeIndex ..
  · rw [System.World.after_st, hst]
    rfl

/-- A thread removes a flow, if it is still the one that it has in mind. -/
theorem indexEffect_removeIf {generation : ℕ} {r : Bool} (hinv : Indexed w) (h : Unowed t w)
    (hpre : indexPre t w (.v1 (.flowRemoveIf key generation)))
    (hexec : execV1 env t (.flowRemoveIf key generation) w.st.v1 = some (r, st.v1)) :
    IndexEffect t w (w.after t (.v1 (.flowRemoveIf key generation)) r st : RelayWorld env) := by
  have hfalse (hr : r = false) (hst : st.v1 = w.st.v1) :
      IndexEffect t w (w.after t (.v1 (.flowRemoveIf key generation)) r st : RelayWorld env) := by
    subst hr
    refine indexEffect_of_agrees h ?_ rfl rfl
    rw [hst]
    exact ⟨fun _ => rfl, rfl, rfl, rfl, rfl⟩
  simp only [execV1] at hexec
  split at hexec
  · obtain ⟨hr, hst⟩ := Prod.mk.inj (Option.some.inj hexec)
    exact hfalse hr.symm hst.symm
  · next flow hflow =>
      split at hexec
      · next hgen =>
          obtain ⟨rfl, hst⟩ := Prod.mk.inj (Option.some.inj hexec)
          have hpresent : w.st.v1.generationOf key = some generation := by
            rw [V1State.generationOf, hflow, Option.map_some, hgen]
          refine .removed key (by simp [hpresent]) (fun generation' hopening => ?_) h.1 hpre.1 ?_
            (fun u => dropping_after ..) (fun sid => ?_) fun key' => ?_
          · -- a flow has a task only when it has been listed
            obtain ⟨hgen', htask, -⟩ := hinv.opened hopening
            obtain rfl | hspawned := hpre.2
            · rw [h.2 rfl] at hopening
              cases hopening
            · rw [hpresent] at hgen'
              rw [← Option.some.inj hgen', hspawned] at htask
              cases htask
          · rw [opening_after]
            split
            · next ht => rw [h.2 ht]; rfl
            · rfl
          · rw [System.World.after_st, ← hst]
            rfl
          · rw [System.World.after_st, ← hst]
            simp only [V1State.generationOf, Table.lookup_erase_eq]
            split <;> rfl
      · obtain ⟨hr, hst⟩ := Prod.mk.inj (Option.some.inj hexec)
        exact hfalse hr.symm hst.symm

/-- A thread drops the key of the flow that it has removed. -/
theorem indexEffect_drop (hfollows : Follows t (.v1 (.indexDropKey key.sessionId key)) w)
    (hdrop : dropping t w = some key)
    (hexec : execV1 env t (.indexDropKey key.sessionId key) w.st.v1 = some ((), st.v1)) :
    IndexEffect t w (w.after t (.v1 (.indexDropKey key.sessionId key)) () st :
      RelayWorld env) := by
  obtain ⟨-, heq⟩ := Option.ite_none_right_eq_some.1 hexec
  have hst : st.v1 = _ := (congrArg Prod.snd (Option.some.inj heq)).symm
  refine .dropped key hdrop ?_ (fun u => dropping_after ..) (fun sid => ?_) fun key' => ?_
  · rw [opening_after]
    split
    · next ht =>
        refine (Option.eq_none_iff_forall_ne_some.2 fun opened hopened => ?_).symm
        cases hfollows.2 ht opened.1 opened.2 hopened
    · rfl
  · rw [System.World.after_st, hst]
    exact w.st.v1.keysOf_storeIndex ..
  · rw [System.World.after_st, hst]
    rfl

/-- The cleanup task stores the keys of the flows that are still there. -/
theorem indexEffect_store {sid : SessionId} {keys : List FlowKey} (h : Unowed .cleanup w)
    (hpre : keys = (w.st.v1.keysOf sid).filter fun key => (w.st.v1.generationOf key).isSome)
    (hexec : execV1 env .cleanup (.indexStore sid keys) w.st.v1 = some ((), st.v1)) :
    IndexEffect .cleanup w (w.after .cleanup (.v1 (.indexStore sid keys)) () st :
      RelayWorld env) := by
  obtain ⟨hopening, hdropping⟩ := debts_after (o := .v1 (.indexStore sid keys)) (r := ()) st
    h rfl rfl
  obtain ⟨hheld, heq⟩ := Option.ite_none_right_eq_some.1 hexec
  have hst : st.v1 = _ := (congrArg Prod.snd (Option.some.inj heq)).symm
  refine .stored sid rfl h.1 (of_decide_eq_true hheld) hopening hdropping (fun sid' => ?_)
    fun key' => ?_
  · rw [System.World.after_st, hst, w.st.v1.keysOf_storeIndex, hpre]
  · rw [System.World.after_st, hst]
    rfl

/-- An operation that does not open or remove a single flow and does not change the index. -/
theorem indexEffect_calm {o : V1Op} {r : o.Ret} (hmay : may t (.v1 o))
    (hfollows : Follows t (.v1 o) w) (ho : o.writes = false)
    (hexec : execV1 env t o w.st.v1 = some (r, st.v1))
    (hsafe : IndexSafe w (.exec t (.v1 o) r w.st st)) :
    IndexEffect t w (w.after t (.v1 o) r st : RelayWorld env) := by
  have hcalm := execV1_calm ho hexec
  have hunowed : Unowed t w := hfollows.unowed (by cases o <;> first | rfl | cases ho)
  have hopened : openedBy ⟨.v1 o, r⟩ = none := by cases o <;> first | rfl | cases ho
  have hremoved : removedBy ⟨.v1 o, r⟩ = none := by cases o <;> first | rfl | cases ho
  obtain ⟨hopening, hdropping⟩ := debts_after st hunowed hopened hremoved
  by_cases ht : t = .cleanup
  · refine .swept ht hopening hdropping hcalm.index fun key => ?_
    obtain heq | ⟨hnone, i, now, flow, rfl, hflow, hmark⟩ := hcalm.generations key
    · exact .inl heq
    · subst ht
      exact .inr ⟨hnone, fun generation hpend => hmark (hsafe key generation flow hpend hflow)⟩
  · refine .same hopening hdropping hcalm.index fun key => ?_
    obtain heq | ⟨-, i, now, flow, rfl, -⟩ := hcalm.generations key
    · exact heq
    · exact absurd (by cases t <;> first | rfl | cases hmay) ht

theorem indexEffect (hinv : Indexed w) (hmay : may t o) (hfollows : Follows t o w)
    (hpre : indexPre t w o) (hexec : execRelay env t o w.st = some (r, st))
    (hsafe : IndexSafe w (.exec t o r w.st st)) :
    IndexEffect t w (w.after t o r st : RelayWorld env) := by
  have hrefl (hs : st.v1 = w.st.v1) : w.st.v1.Agrees st.v1 := by
    rw [hs]
    exact ⟨fun _ => rfl, rfl, rfl, rfl, rfl⟩
  rcases o with o | o | o
  · exact indexEffect_of_agrees (hfollows.unowed rfl) (hrefl (execRelay_core hexec).2.1) rfl rfl
  · obtain ⟨hv1, -, -⟩ := execRelay_v1 hexec
    cases o with
    | flowForward key addr info payload now newFlow =>
        obtain rfl : t = .rx := by cases t <;> first | rfl | cases hmay
        exact indexEffect_forward (hfollows.unowed rfl) hv1 hsafe
    | indexPush sid key =>
        obtain ⟨rfl, rfl, generation, hopening⟩ := hpre
        exact indexEffect_push hfollows hopening hv1
    | flowRemoveIf key generation =>
        exact indexEffect_removeIf hinv (hfollows.unowed rfl) hpre hv1
    | indexDropKey sid key =>
        obtain ⟨rfl, hdrop⟩ := hpre
        exact indexEffect_drop hfollows hdrop hv1
    | indexStore sid keys =>
        obtain rfl : t = .cleanup := by cases t <;> first | rfl | cases hmay
        exact indexEffect_store (hfollows.unowed rfl) hpre hv1
    | _ => exact indexEffect_calm hmay hfollows rfl hv1 hsafe
  · exact indexEffect_of_agrees (hfollows.unowed rfl) (hrefl (execRelay_v2 hexec).2.2) rfl rfl

end Effect

/-! ### The invariant is kept -/

section Keep

variable {w w' : RelayWorld env} {t : Tid} {key : FlowKey}

theorem IndexEffect.own (h : IndexEffect t w w') (hinv : Indexed w) {sid : SessionId}
    (hkey : key ∈ w'.st.v1.keysOf sid) : key.sessionId = sid := by
  cases h with
  | same _ _ hkeys | opened _ _ _ _ _ _ hkeys | removed _ _ _ _ _ _ _ hkeys | swept _ _ _ hkeys =>
      exact hinv.own (hkeys sid ▸ hkey)
  | listed key' _ _ _ _ _ hkeys =>
      rw [hkeys] at hkey
      split at hkey
      · next heq =>
          rw [heq]
          rcases List.mem_append.1 hkey with hold | hnew
          · exact hinv.own hold
          · rw [List.mem_singleton.1 hnew]
      · exact hinv.own hkey
  | dropped key' _ _ _ hkeys | stored sid' _ _ _ _ _ hkeys =>
      rw [hkeys] at hkey
      split at hkey
      · next heq =>
          rw [heq]
          exact hinv.own (List.mem_filter.1 hkey).1
      · exact hinv.own hkey

/-- Nobody is about to drop a key while nobody holds the lock. -/
theorem Indexed.not_dropping (hinv : Indexed w)
    (hfree : w.st.v1.indexGuards (env.indexShardOf key.sessionId) = none) : ¬ Dropping w key := by
  rintro ⟨u, hu⟩
  rw [(hinv.dropped hu).1] at hfree
  cases hfree

theorem IndexEffect.nodup (h : IndexEffect t w w') (hinv : Indexed w) (sid : SessionId) :
    (w'.st.v1.keysOf sid).Nodup := by
  cases h with
  | same _ _ hkeys | opened _ _ _ _ _ _ hkeys | removed _ _ _ _ _ _ _ hkeys | swept _ _ _ hkeys =>
      rw [hkeys]
      exact hinv.nodup sid
  | listed key _ howed hfree _ _ hkeys =>
      rw [hkeys]
      split
      · refine List.nodup_append.2 ⟨hinv.nodup _, List.nodup_singleton _, fun a ha b hb heq => ?_⟩
        rw [heq, List.mem_singleton.1 hb] at ha
        exact hinv.not_dropping hfree ((hinv.opened howed).2.2.2 ha)
      · exact hinv.nodup sid
  | dropped _ _ _ _ hkeys | stored _ _ _ _ _ _ hkeys =>
      rw [hkeys]
      split
      · exact (hinv.nodup _).filter _
      · exact hinv.nodup sid

theorem IndexEffect.listed_or_owed (h : IndexEffect t w w') (hinv : Indexed w)
    (hkey : w'.st.v1.generationOf key ≠ none) :
    key ∈ w'.st.v1.keysOf key.sessionId ∨ ∃ generation, opening w' = some (key, generation) := by
  cases h with
  | same hopening _ hkeys hgen =>
      rw [hgen] at hkey
      rw [hopening, hkeys]
      exact hinv.listed hkey
  | opened key' generation hidle _ hopening _ hkeys hgen =>
      rw [hopening, hkeys]
      by_cases heq : key = key'
      · exact .inr ⟨generation, by rw [heq]⟩
      · rw [hgen, if_neg heq] at hkey
        refine .inl ((hinv.listed hkey).resolve_right ?_)
        rintro ⟨generation', howed⟩
        rw [hidle] at howed
        cases howed
  | listed key' generation howed _ hopening _ hkeys hgen =>
      rw [hgen] at hkey
      left
      rw [hkeys]
      obtain hold | ⟨generation', howed'⟩ := hinv.listed hkey
      · split
        · next heq => exact List.mem_append_left _ (heq ▸ hold)
        · exact hold
      · rw [howed] at howed'
        cases howed'
        rw [if_pos rfl]
        exact List.mem_append_right _ (List.mem_singleton_self _)
  | removed key' _ _ _ _ hopening _ hkeys hgen =>
      rw [hopening, hkeys]
      refine hinv.listed fun hnone => hkey ?_
      rw [hgen, hnone, ite_self]
  | dropped key' howed hopening _ hkeys hgen =>
      rw [hgen] at hkey
      rw [hopening, hkeys]
      by_cases heq : key = key'
      · exact .inr (heq ▸ (hinv.dropped howed).2.2 (heq ▸ hkey))
      · refine (hinv.listed hkey).imp_left fun hold => ?_
        split
        · next hsid => exact List.mem_filter.2 ⟨hsid ▸ hold, decide_eq_true heq⟩
        · exact hold
  | stored sid _ _ _ hopening _ hkeys hgen =>
      rw [hgen] at hkey
      rw [hopening, hkeys]
      refine (hinv.listed hkey).imp_left fun hold => ?_
      split
      · next hsid => exact List.mem_filter.2 ⟨hsid ▸ hold, Option.isSome_iff_ne_none.2 hkey⟩
      · exact hold
  | swept _ hopening _ hkeys hgen =>
      rw [hopening, hkeys]
      obtain heq | ⟨hnone, -⟩ := hgen key
      · exact hinv.listed (heq ▸ hkey)
      · exact absurd hnone hkey

/-- A key that is about to be dropped still is, if it is still listed. -/
theorem IndexEffect.dropping (h : IndexEffect t w w') (hdrop : Dropping w key)
    (hkey : key ∈ w'.st.v1.keysOf key.sessionId) : Dropping w' key := by
  obtain ⟨u, hu⟩ := hdrop
  cases h with
  | same _ hdropping | opened _ _ _ _ _ hdropping | listed _ _ _ _ _ hdropping
  | stored _ _ _ _ _ hdropping | swept _ _ hdropping => exact ⟨u, (hdropping u).trans hu⟩
  | removed key' _ _ hidle _ _ hdropping =>
      refine ⟨u, ?_⟩
      rw [hdropping, if_neg ?_, hu]
      rintro rfl
      rw [hidle] at hu
      cases hu
  | dropped key' howed _ hdropping hkeys =>
      refine ⟨u, ?_⟩
      rw [hdropping, if_neg ?_, hu]
      rintro rfl
      rw [howed] at hu
      cases hu
      rw [hkeys, if_pos rfl] at hkey
      exact absurd rfl (of_decide_eq_true (List.mem_filter.1 hkey).2)

theorem IndexEffect.owed (h : IndexEffect t w w') (hinv : Indexed w) {generation : ℕ}
    (hkey : opening w' = some (key, generation)) :
    w'.st.v1.generationOf key = some generation ∧
      (key ∈ w'.st.v1.keysOf key.sessionId → Dropping w' key) := by
  have hold (hopening : opening w' = opening w)
      (hgen : w'.st.v1.generationOf key = w.st.v1.generationOf key)
      (hkeys : key ∈ w'.st.v1.keysOf key.sessionId → key ∈ w.st.v1.keysOf key.sessionId) :
      w'.st.v1.generationOf key = some generation ∧
        (key ∈ w'.st.v1.keysOf key.sessionId → Dropping w' key) := by
    obtain ⟨hgen', -, -, hdrop⟩ := hinv.opened (hopening ▸ hkey)
    exact ⟨hgen.trans hgen', fun hmem => h.dropping (hdrop (hkeys hmem)) hmem⟩
  cases h with
  | same hopening _ hkeys hgen => exact hold hopening (hgen key) fun hmem => hkeys _ ▸ hmem
  | opened key' generation' _ hfree hopening hdropping hkeys hgen =>
      rw [hopening] at hkey
      cases hkey
      refine ⟨by rw [hgen, if_pos rfl], fun hmem => ?_⟩
      obtain ⟨u, hu⟩ := hfree (hkeys _ ▸ hmem)
      exact ⟨u, (hdropping u).trans hu⟩
  | listed _ _ _ _ hopening =>
      rw [hopening] at hkey
      cases hkey
  | removed key' _ hne _ _ hopening _ hkeys hgen =>
      refine hold hopening ?_ fun hmem => hkeys _ ▸ hmem
      rw [hgen, if_neg ?_]
      rintro rfl
      exact hne generation (hopening ▸ hkey)
  | dropped key' _ hopening _ hkeys hgen | stored sid _ _ _ hopening _ hkeys hgen =>
      refine hold hopening (hgen key) fun hmem => ?_
      rw [hkeys] at hmem
      split at hmem
      · next heq => exact heq ▸ (List.mem_filter.1 hmem).1
      · exact hmem
  | swept _ hopening _ hkeys hgen =>
      refine hold hopening ?_ fun hmem => hkeys _ ▸ hmem
      exact (hgen key).resolve_right fun hgone => hgone.2 generation (hopening ▸ hkey)

theorem IndexEffect.dropped_listed (h : IndexEffect t w w') (hinv : Indexed w) {u : Tid}
    (hkey : SwiftRelay.dropping u w' = some key) :
    key ∈ w'.st.v1.keysOf key.sessionId ∧
      (w'.st.v1.generationOf key ≠ none →
        ∃ generation, opening w' = some (key, generation)) := by
  cases h with
  | same hopening hdropping hkeys hgen =>
      rw [hdropping] at hkey
      rw [hopening, hkeys, hgen]
      exact (hinv.dropped hkey).2
  | opened key' generation hidle _ hopening hdropping hkeys hgen =>
      rw [hdropping] at hkey
      obtain ⟨-, hmem, howed⟩ := hinv.dropped hkey
      refine ⟨hkeys _ ▸ hmem, fun hpresent => ?_⟩
      by_cases heq : key = key'
      · exact ⟨generation, by rw [hopening, heq]⟩
      · rw [hgen, if_neg heq] at hpresent
        obtain ⟨generation', howed⟩ := howed hpresent
        rw [hidle] at howed
        cases howed
  | listed key' generation howed hfree _ hdropping hkeys hgen =>
      rw [hdropping] at hkey
      obtain ⟨-, hmem, howed'⟩ := hinv.dropped hkey
      refine ⟨?_, fun hpresent => ?_⟩
      · rw [hkeys]
        split
        · next heq => exact List.mem_append_left _ (heq ▸ hmem)
        · exact hmem
      · obtain ⟨generation', howed'⟩ := howed' (hgen key ▸ hpresent)
        rw [howed] at howed'
        cases howed'
        exact absurd ⟨u, hkey⟩ (hinv.not_dropping hfree)
  | removed key' hpresent hne hidle _ hopening hdropping hkeys hgen =>
      rw [hdropping] at hkey
      rw [hopening, hkeys, hgen]
      split at hkey
      · cases hkey
        refine ⟨(hinv.listed hpresent).resolve_right (not_exists.2 hne), ?_⟩
        rw [if_pos rfl]
        exact fun h => absurd rfl h
      · refine ⟨(hinv.dropped hkey).2.1, fun hpresent' => (hinv.dropped hkey).2.2 ?_⟩
        split at hpresent'
        · exact absurd rfl hpresent'
        · exact hpresent'
  | dropped key' howed hopening hdropping hkeys hgen =>
      rw [hdropping] at hkey
      split at hkey
      · cases hkey
      · next hne =>
          obtain ⟨hguard, hmem, howed'⟩ := hinv.dropped hkey
          have hkey' : key ≠ key' := by
            -- two threads cannot hold the same lock
            rintro rfl
            rw [(hinv.dropped howed).1] at hguard
            exact hne (Option.some.inj hguard)
          rw [hopening, hkeys, hgen]
          refine ⟨?_, howed'⟩
          split
          · next heq => exact List.mem_filter.2 ⟨heq ▸ hmem, decide_eq_true hkey'⟩
          · exact hmem
  | stored sid _ hidle hheld hopening hdropping hkeys hgen =>
      rw [hdropping] at hkey
      obtain ⟨hguard, hmem, howed⟩ := hinv.dropped hkey
      have hne : key.sessionId ≠ sid := by
        rintro rfl
        rw [hheld] at hguard
        rw [← Option.some.inj hguard, hidle] at hkey
        cases hkey
      rw [hopening, hkeys, if_neg hne, hgen]
      exact ⟨hmem, howed⟩
  | swept _ hopening hdropping hkeys hgen =>
      rw [hdropping] at hkey
      rw [hopening, hkeys]
      refine ⟨(hinv.dropped hkey).2.1, fun hpresent => ?_⟩
      obtain heq | ⟨hnone, -⟩ := hgen key
      · exact (hinv.dropped hkey).2.2 (heq ▸ hpresent)
      · exact absurd hnone hpresent

end Keep

section Exec

variable {w : RelayWorld env} {t : Tid} {o : RelayOp} {r : o.Ret} {st : RelayState} {key : FlowKey}

theorem spawned_after (hinv : Indexed w) (hpre : indexPre t w o)
    (hexec : execRelay env t o w.st = some (r, st)) {generation : ℕ}
    (hkey : st.v1.tasks.lookup generation = some key) : generation < st.v1.nextGeneration := by
  obtain hst | ⟨o, r, rfl, hv1⟩ := execRelay_onV1 hexec
  · rw [hst] at hkey ⊢
    exact hinv.spawned hkey
  · refine Nat.lt_of_lt_of_le ?_ (execV1_nextGeneration hv1)
    obtain ⟨generation', key', rfl, htasks⟩ | ⟨generation', rfl, htasks⟩ | htasks :=
      execV1_tasks hv1
    · rw [htasks, Table.lookup_insert_eq] at hkey
      split at hkey
      · next heq =>
          rw [heq]
          exact hpre.2
      · exact hinv.spawned hkey
    · rw [htasks, Table.lookup_erase_eq] at hkey
      split at hkey
      · cases hkey
      · exact hinv.spawned hkey
    · exact hinv.spawned (htasks ▸ hkey)

/-- The flow that the receive loop owes the index has no task yet. -/
theorem unspawned_after (hinv : Indexed w) (hmay : may t o)
    (hexec : execRelay env t o w.st = some (r, st)) {generation : ℕ}
    (hkey : opening (w.after t o r st : RelayWorld env) = some (key, generation)) :
    st.v1.tasks.lookup generation = none ∧ generation < st.v1.nextGeneration := by
  rw [opening_after] at hkey
  split at hkey
  · rcases o with o | o | o
    · cases hkey
    · cases o with
      | flowForward key' addr info payload now newFlow =>
          obtain ⟨-, -, rfl, hst⟩ | ⟨hne, -⟩ := execV1_flowForward (execRelay_v1 hexec).1
          · cases hkey
            rw [hst]
            refine ⟨Option.eq_none_iff_forall_ne_some.2 fun key' hkey' => ?_, Nat.lt_succ_self _⟩
            exact Nat.lt_irrefl _ (hinv.spawned hkey')
          · cases r with
            | opened generation' => exact absurd rfl (hne generation')
            | _ => cases hkey
      | _ => cases hkey
    · cases hkey
  · next hrx =>
      obtain ⟨-, hnone, hlt, -⟩ := hinv.opened hkey
      obtain hst | ⟨o, r, rfl, hv1⟩ := execRelay_onV1 hexec
      · rw [hst]
        exact ⟨hnone, hlt⟩
      · refine ⟨?_, Nat.lt_of_lt_of_le hlt (execV1_nextGeneration hv1)⟩
        obtain ⟨generation', key', rfl, htasks⟩ | ⟨generation', rfl, htasks⟩ | htasks :=
          execV1_tasks hv1
        · exact absurd (by cases t <;> first | rfl | cases hmay) hrx
        · rw [htasks, Table.lookup_erase_eq, hnone, ite_self]
        · rw [htasks, hnone]

theorem guard_after (hinv : Indexed w) (hpre : indexPre t w o)
    (hexec : execRelay env t o w.st = some (r, st)) {u : Tid}
    (hkey : dropping u (w.after t o r st : RelayWorld env) = some key) :
    st.v1.indexGuards (env.indexShardOf key.sessionId) = some u := by
  rw [dropping_after] at hkey
  split at hkey
  · next hu =>
      subst hu
      rcases o with o | o | o
      · cases hkey
      · cases o with
        | flowRemoveIf key' generation =>
            cases r with
            | false => cases hkey
            | true =>
                cases hkey
                have hv1 := (execRelay_v1 hexec).1
                simp only [execV1] at hv1
                split at hv1
                · cases hv1
                · split at hv1
                  · rw [← show _ = st.v1 from congrArg Prod.snd (Option.some.inj hv1)]
                    exact hpre.1
                  · cases hv1
        | _ => cases hkey
      · cases hkey
  · next hu =>
      have hguard := (hinv.dropped hkey).1
      obtain hst | ⟨o, r, rfl, hv1⟩ := execRelay_onV1 hexec
      · rw [hst]
        exact hguard
      · exact execV1_guard hv1 hu hguard

theorem indexed_exec (hinv : Indexed w) (hmay : may t o) (hfollows : Follows t o w)
    (hpre : indexPre t w o) (hexec : execRelay env t o w.st = some (r, st))
    (hsafe : IndexSafe w (.exec t o r w.st st)) : Indexed (w.after t o r st : RelayWorld env) := by
  have heffect := indexEffect hinv hmay hfollows hpre hexec hsafe
  refine ⟨heffect.own hinv, heffect.nodup hinv, heffect.listed_or_owed hinv, fun hkey => ?_,
    fun hkey => ?_, fun hkey => spawned_after hinv hpre hexec hkey⟩
  · obtain ⟨hgen, hdrop⟩ := heffect.owed hinv hkey
    obtain ⟨hnone, hlt⟩ := unspawned_after hinv hmay hexec hkey
    exact ⟨hgen, hnone, hlt, hdrop⟩
  · exact ⟨guard_after hinv hpre hexec hkey, heffect.dropped_listed hinv hkey⟩

end Exec

/-! ### What the other threads leave true -/

section Stable

variable {t : Tid}

theorem stable_unowed (t : Tid) : (indexContract env).Stable t (Unowed t) := by
  intro w w' hstep hw
  refine ⟨Contract.Stable.lastAnswer (C := indexContract env) (t := t)
    (fun x => x.bind removedBy = none) w w' hstep hw.1, fun ht => ?_⟩
  subst ht
  exact Contract.Stable.lastAnswer (C := indexContract env) (t := Tid.rx)
    (fun x => x.bind openedBy = none) w w' hstep (hw.2 rfl)

theorem stable_opening (key : FlowKey) (generation : ℕ) :
    (indexContract env).Stable .rx fun w => opening w = some (key, generation) :=
  Contract.Stable.lastAnswer (C := indexContract env) (t := Tid.rx)
    (fun x => x.bind openedBy = some (key, generation))

theorem stable_dropping (t : Tid) (key : FlowKey) :
    (indexContract env).Stable t fun w => dropping t w = some key :=
  Contract.Stable.lastAnswer (C := indexContract env) (t := t)
    (fun x => x.bind removedBy = some key)

theorem stable_held (t : Tid) (i : ℕ) :
    (indexContract env).Stable t fun w => w.st.v1.indexGuards i = some t := by
  refine .of_exec (fun _ _ hw => hw) fun w u o r st hne hinv hmay hpre hexec hcond hw => ?_
  change st.v1.indexGuards i = some t
  obtain hst | ⟨o, r, rfl, hv1⟩ := execRelay_onV1 hexec
  · rw [hst]
    exact hw
  · exact execV1_guard hv1 hne hw

theorem stable_task (generation : ℕ) (key : FlowKey) :
    (indexContract env).Stable (.v1Flow generation) fun w =>
      w.st.v1.tasks.lookup generation = some key := by
  refine .of_exec (fun _ _ hw => hw) fun w u o r st hne hinv hmay hpre hexec hcond hw => ?_
  change st.v1.tasks.lookup generation = some key
  obtain hst | ⟨o, r, rfl, hv1⟩ := execRelay_onV1 hexec
  · rw [hst]
    exact hw
  · obtain ⟨generation', key', rfl, htasks⟩ | ⟨generation', rfl, htasks⟩ | htasks :=
      execV1_tasks hv1
    · rw [htasks, Table.lookup_insert_eq, if_neg ?_]
      · exact hw
      · rintro rfl
        have hnone : w.st.v1.tasks.lookup generation = none := hpre.2.1
        rw [hw] at hnone
        cases hnone
    · rw [htasks, Table.lookup_erase_eq, if_neg ?_]
      · exact hw
      · rintro rfl
        cases u with
        | v1Flow g => exact hne (congrArg Tid.v1Flow (of_decide_eq_true hmay).symm)
        | _ => cases hmay
    · rw [htasks]
      exact hw

theorem stable_unspawned (generation : ℕ) :
    (indexContract env).Stable .rx fun w =>
      w.st.v1.tasks.lookup generation = none ∧ generation < w.st.v1.nextGeneration := by
  refine .of_exec (fun _ _ hw => hw) fun w u o r st hne hinv hmay hpre hexec hcond hw => ?_
  change st.v1.tasks.lookup generation = none ∧ generation < st.v1.nextGeneration
  obtain hst | ⟨o, r, rfl, hv1⟩ := execRelay_onV1 hexec
  · rw [hst]
    exact hw
  · refine ⟨?_, Nat.lt_of_lt_of_le hw.2 (execV1_nextGeneration hv1)⟩
    obtain ⟨generation', key', rfl, htasks⟩ | ⟨generation', rfl, htasks⟩ | htasks :=
      execV1_tasks hv1
    · exact absurd (by cases u <;> first | rfl | cases hmay) hne
    · rw [htasks, Table.lookup_erase_eq, hw.1, ite_self]
    · rw [htasks, hw.1]

theorem stable_clean (excepted : FlowKey → Prop) :
    (indexContract env).Stable .cleanup (Clean excepted) := by
  intro w w' hstep hw key hkey
  cases hstep with
  | start a hne =>
      have hdrop : Dropping (w.begin a : RelayWorld env) key ↔ Dropping w key := by
        simp only [Dropping, dropping_begin]
      rw [hdrop]
      exact hw key hkey
  | exec u o r st hne hinv hmay hpre hexec hcond =>
      have heffect := indexEffect hinv hmay hpre.1 hpre.2 hexec hcond
      have hold (hkeys : key ∈ w.st.v1.keysOf key.sessionId)
          (hgen : w.st.v1.generationOf key ≠ none → st.v1.generationOf key ≠ none ∨
            Dropping (w.after u o r st : RelayWorld env) key) :
          st.v1.generationOf key ≠ none ∨ Dropping (w.after u o r st : RelayWorld env) key ∨
            excepted key := by
        obtain hpresent | hdrop | hexcepted := hw key hkeys
        · exact (hgen hpresent).imp_right .inl
        · exact .inr (.inl (heffect.dropping hdrop hkey))
        · exact .inr (.inr hexcepted)
      change st.v1.generationOf key ≠ none ∨ _
      cases heffect with
      | same _ _ hkeys hgen =>
          exact hold (hkeys _ ▸ hkey) fun hpresent => .inl ((hgen key).symm ▸ hpresent)
      | opened key' generation _ _ _ _ hkeys hgen =>
          refine hold (hkeys _ ▸ hkey) fun hpresent => .inl ?_
          rw [show st.v1.generationOf key = _ from hgen key]
          split
          · exact Option.some_ne_none _
          · exact hpresent
      | listed key' generation howed _ _ _ hkeys hgen =>
          rw [hkeys] at hkey
          split at hkey
          · next heq =>
              rcases List.mem_append.1 hkey with hmem | hmem
              · exact hold (heq ▸ hmem) fun hpresent => .inl ((hgen key).symm ▸ hpresent)
              · rw [List.mem_singleton.1 hmem]
                refine .inl ((hgen key').symm ▸ ?_)
                rw [(hinv.opened howed).1]
                exact Option.some_ne_none _
          · exact hold hkey fun hpresent => .inl ((hgen key).symm ▸ hpresent)
      | removed key' _ _ _ _ _ hdropping hkeys hgen =>
          refine hold (hkeys _ ▸ hkey) fun hpresent => ?_
          by_cases heq : key = key'
          · exact .inr ⟨u, by rw [hdropping, if_pos rfl, heq]⟩
          · exact .inl (by rwa [show st.v1.generationOf key = _ from hgen key, if_neg heq])
      | dropped key' _ _ _ hkeys hgen =>
          refine hold ?_ fun hpresent => .inl ((hgen key).symm ▸ hpresent)
          rw [hkeys] at hkey
          split at hkey
          · next heq => exact heq ▸ (List.mem_filter.1 hkey).1
          · exact hkey
      | stored _ ht => exact absurd ht hne
      | swept ht => exact absurd ht hne

end Stable

end SwiftRelay
