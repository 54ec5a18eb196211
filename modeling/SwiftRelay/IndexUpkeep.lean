/-
**The threads keep the flow index.**

Every thread of the relay keeps to the contract of the flow index.  The receive loop works on the
shared session state until it hands a packet to the flow map; a flow that it opens is listed with
its next operation.  A task removes its own flow only, under the lock of the index.  While the
cleanup task visits a shard of the index, it holds the lock of the shard, so what it finds out about
the flows listed there stays true until it stores the entry.

Main definitions:

* `Visit` — what holds while the cleanup task visits a shard of the index.

Main results:

* `indexContract_sound` — every thread keeps to the contract;
* `flow_index_exact` — the index is exact whenever nobody is busy;
* `flow_listed_twice` — a flow is opened again behind the back of the cleanup task.
-/

import SwiftRelay.FlowIdleV1
import SwiftRelay.FlowIndex

set_option autoImplicit false

namespace SwiftRelay

open Conc

variable {env : RelayEnv}

/-! ### Operations that are permitted to a thread that owes nothing -/

/-- The operations that are always permitted and incur no debt, and after which the tasks are the
same. -/
def RelayOp.free : RelayOp → Bool
  | .v1 (.flowForward ..) | .v1 (.flowRemoveIf ..) | .v1 (.indexPush ..) => false
  | .v1 (.indexDropKey ..) | .v1 (.indexStore ..) => false
  | .v1 (.spawn ..) | .v1 (.taskExit _) => false
  | _ => true

section Free

variable {w : RelayWorld env} {t : Tid} {o : RelayOp} {r : o.Ret} {st : RelayState}

theorem pre_of_free (ho : o.free = true) (h : Unowed t w) : (indexContract env).pre t o w := by
  refine ⟨h.follows o, ?_⟩
  rcases o with o | o | o
  · trivial
  · cases o <;> trivial
  · trivial

variable (st) in
theorem debts_of_free (ho : o.free = true) (h : Unowed t w) :
    opening (w.after t o r st : RelayWorld env) = opening w ∧
      ∀ u, dropping u (w.after t o r st : RelayWorld env) = dropping u w := by
  refine debts_after st h ?_ ?_
  · rcases o with o | o | o
    · rfl
    · cases o <;> first | rfl | cases ho
    · rfl
  · rcases o with o | o | o
    · rfl
    · cases o <;> first | rfl | cases ho
    · rfl

variable (st) in
theorem unowed_of_free (ho : o.free = true) (h : Unowed t w) :
    Unowed t (w.after t o r st : RelayWorld env) := by
  obtain ⟨hopening, hdropping⟩ := debts_of_free (r := r) st ho h
  exact ⟨(hdropping t).trans h.1, fun ht => hopening.trans (h.2 ht)⟩

variable (w st) in
/-- The last operation of a thread settles what it owes. -/
theorem unowed_after (hopened : openedBy ⟨o, r⟩ = none) (hremoved : removedBy ⟨o, r⟩ = none) :
    Unowed t (w.after t o r st : RelayWorld env) := by
  refine ⟨?_, fun ht => ?_⟩
  · rw [dropping_after, if_pos rfl, hremoved]
  · rw [opening_after, if_pos ht, hopened]

theorem tasks_of_calm (hspawn : ∀ generation key, o ≠ .v1 (.spawn generation key))
    (hexit : ∀ generation, o ≠ .v1 (.taskExit generation))
    (hexec : execRelay env t o w.st = some (r, st)) : st.v1.tasks = w.st.v1.tasks := by
  obtain hv1 | ⟨o', r', rfl, hv1⟩ := execRelay_onV1 hexec
  · rw [hv1]
  · obtain ⟨_, _, rfl, -⟩ | ⟨_, rfl, -⟩ | htasks := execV1_tasks hv1
    · exact absurd rfl (hspawn _ _)
    · exact absurd rfl (hexit _)
    · exact htasks

theorem tasks_of_free (ho : o.free = true) (hexec : execRelay env t o w.st = some (r, st)) :
    st.v1.tasks = w.st.v1.tasks :=
  tasks_of_calm (by rintro _ _ rfl; cases ho) (by rintro _ rfl; cases ho) hexec

/-- A program of such operations, up to the programs in `B`. -/
theorem wp_free {α : Type} {p : RelayProg α} {B : RelayProg α → Prop}
    (hp : p.Ends (fun o : RelayOp => o.free = true) B) {R : Table ℕ FlowKey → Prop}
    (hR : (indexContract env).Stable t fun w => R w.st.v1.tasks)
    {Q : α → RelayWorld env → Prop} (hQ : ∀ a w, Unowed t w → R w.st.v1.tasks → Q a w)
    (hB : ∀ p, B p → ∀ w, Unowed t w → R w.st.v1.tasks → (indexContract env).wp t p Q w)
    (hw : Unowed t w) (hRw : R w.st.v1.tasks) : (indexContract env).wp t p Q w := by
  refine Contract.wp_of_ends (C := indexContract env) hp
    (fun w => Unowed t w ∧ R w.st.v1.tasks) ((stable_unowed t).and hR) (fun o ho w _ hw => ?_)
    (fun a w hw => hQ a w hw.1 hw.2) (fun p hp w hw => hB p hp w hw.1 hw.2) ⟨hw, hRw⟩
  refine ⟨pre_of_free ho hw.1, fun r st hexec _ => ⟨unowed_of_free _ ho hw.1, ?_⟩⟩
  rw [System.World.after_st, tasks_of_free ho hexec]
  exact hw.2

theorem wp_free_of_uses {α : Type} {p : RelayProg α} (hp : p.Uses fun o : RelayOp => o.free = true)
    (hw : Unowed t w) : (indexContract env).wp t p (fun _ => Unowed t) w :=
  wp_free (B := fun _ => False) (R := fun _ => True) hp.ends Contract.Stable.true
    (fun _ _ h _ => h) (fun _ h => h.elim) hw trivial

end Free

/-! ### Removing a flow -/

section Remove

variable {t : Tid} {key : FlowKey} {generation : ℕ} {w : RelayWorld env}

/-- The right to remove the flows of a generation: the receive loop has it, and the task of the
flow. -/
def Entitled (t : Tid) (key : FlowKey) (generation : ℕ) (tasks : Table ℕ FlowKey) : Prop :=
  t = .rx ∨ tasks.lookup generation = some key

theorem removeV1Flow_wp
    (hstable : (indexContract env).Stable t fun w => Entitled t key generation w.st.v1.tasks)
    (hw : Unowed t w) (hentitled : Entitled t key generation w.st.v1.tasks) :
    (indexContract env).wp t (removeV1Flow key generation)
      (fun _ w => Unowed t w ∧ Entitled t key generation w.st.v1.tasks) w := by
  have hrelease {w : RelayWorld env} (hw : Unowed t w)
      (hentitled : Entitled t key generation w.st.v1.tasks) :
      (indexContract env).wp t (v1 (.indexRelease key.sessionId))
        (fun _ w => Unowed t w ∧ Entitled t key generation w.st.v1.tasks) w := by
    refine wp_v1_bind _ ((stable_unowed t).and hstable) ⟨hw, hentitled⟩
      (fun w _ hw => pre_of_free rfl hw.1) fun w₁ _ st₁ _ hw₁ hexec₁ _ => ?_
    exact ⟨unowed_of_free _ rfl hw₁.1, (tasks_of_free rfl hexec₁).symm ▸ hw₁.2⟩
  unfold removeV1Flow
  refine wp_v1_bind _ ((stable_unowed t).and hstable) ⟨hw, hentitled⟩
    (fun w _ hw => pre_of_free rfl hw.1) fun w₁ keys st₁ _ hw₁ hexec₁ _ => ?_
  have hheld : st₁.v1.indexGuards (env.indexShardOf key.sessionId) = some t := by
    obtain ⟨-, -, hst₁⟩ := System.of_guarded (execRelay_v1 hexec₁).1
    rw [hst₁]
    exact Function.update_self ..
  refine wp_v1_bind (fun w => Unowed t w ∧ Entitled t key generation w.st.v1.tasks ∧
      w.st.v1.indexGuards (env.indexShardOf key.sessionId) = some t)
    ((stable_unowed t).and (hstable.and (stable_held t _)))
    ⟨unowed_of_free _ rfl hw₁.1, (tasks_of_free rfl hexec₁).symm ▸ hw₁.2, hheld⟩
    (fun w _ hw => ⟨hw.1.follows _, hw.2.2, hw.2.1⟩) fun w₂ removed st₂ _ hw₂ hexec₂ _ => ?_
  have hentitled₂ : Entitled t key generation st₂.v1.tasks := by
    rw [tasks_of_calm (by simp) (by simp) hexec₂]
    exact hw₂.2.1
  cases removed with
  | false => exact hrelease (unowed_after _ _ rfl rfl) hentitled₂
  | true =>
      have hstable₂ : (indexContract env).Stable t fun w => dropping t w = some key ∧
          (t = .rx → opening w = none) ∧ Entitled t key generation w.st.v1.tasks := by
        refine (stable_dropping t key).and (Contract.Stable.and ?_ hstable)
        refine Contract.Stable.imp fun ht => ?_
        subst ht
        exact Contract.Stable.lastAnswer (C := indexContract env) (t := Tid.rx)
          (fun x => x.bind openedBy = none)
      refine wp_v1_bind _ hstable₂ ⟨?_, fun ht => ?_, hentitled₂⟩
        (fun w _ hw => ⟨⟨fun key' hkey' => ?_, fun ht key' generation' hkey' => ?_⟩, rfl, hw.1⟩)
        fun w₃ _ st₃ _ hw₃ hexec₃ _ => hrelease (unowed_after _ _ rfl rfl) ?_
      · rw [dropping_after, if_pos rfl]
        rfl
      · rw [opening_after, if_pos ht]
        rfl
      · rw [hw.1] at hkey'
        cases hkey'
        rfl
      · rw [hw.2.1 ht] at hkey'
        cases hkey'
      · rw [System.World.after_st, tasks_of_calm (by simp) (by simp) hexec₃]
        exact hw₃.2.2

end Remove

/-! ### The tasks -/

section Tasks

variable {key : FlowKey} {generation : ℕ} {w : RelayWorld env}

theorem stable_entitled (key : FlowKey) (generation : ℕ) :
    (indexContract env).Stable (.v1Flow generation) fun w =>
      Entitled (.v1Flow generation) key generation w.st.v1.tasks :=
  Contract.Stable.or Contract.Stable.const (stable_task generation key)

theorem endFlowTask_wp (hw : Unowed (.v1Flow generation) w)
    (htask : w.st.v1.tasks.lookup generation = some key) :
    (indexContract env).wp (.v1Flow generation) (endFlowTask key generation)
      (fun _ => Unowed (.v1Flow generation)) w := by
  unfold endFlowTask
  refine Contract.wp_seq
    (removeV1Flow_wp (stable_entitled key generation) hw (.inr htask)) fun _ w hw => ?_
  exact wp_v1_bind _ (stable_unowed _) hw.1 (fun w _ hw => ⟨hw.follows _, trivial⟩)
    fun _ _ _ _ _ _ _ => unowed_after _ _ rfl rfl

/-- A program of the task that is correct as long as the task is that of the flow. -/
theorem withTask_wp {body : FlowKey → RelayProg Unit}
    (hbody : ∀ key w, Unowed (.v1Flow generation) w →
      w.st.v1.tasks.lookup generation = some key →
      (indexContract env).wp (.v1Flow generation) (body key)
        (fun _ => Unowed (.v1Flow generation)) w)
    (hw : Unowed (.v1Flow generation) w) :
    (indexContract env).wp (.v1Flow generation) (withTask generation body)
      (fun _ => Unowed (.v1Flow generation)) w := by
  unfold withTask
  refine wp_v1_bind _ (stable_unowed _) hw (fun w _ hw => pre_of_free rfl hw)
    fun w₁ found st₁ _ _ hexec₁ _ => ?_
  cases hexec₁
  cases hfound : w₁.st.v1.tasks.lookup generation with
  | none => exact unowed_after _ _ rfl rfl
  | some key => exact hbody key _ (unowed_after _ _ rfl rfl) hfound

theorem flowTask_wp {p : RelayProg Unit}
    (hp : p.Ends (fun o : RelayOp => o.free = true) (· = endFlowTask key generation))
    (hw : Unowed (.v1Flow generation) w) (htask : w.st.v1.tasks.lookup generation = some key) :
    (indexContract env).wp (.v1Flow generation) p (fun _ => Unowed (.v1Flow generation)) w :=
  wp_free (R := fun tasks => tasks.lookup generation = some key) hp (stable_task generation key)
    (fun _ _ h _ => h)
    (fun p hp w hw htask => by
      subst hp
      exact endFlowTask_wp hw htask) hw htask

end Tasks

/-! ### The receive loop -/

section Rx

variable {w : RelayWorld env} {d : Datagram}

/-- The receive loop lists the flow that it has opened, and spawns its task. -/
theorem listFlow_wp (key : FlowKey) (generation : ℕ) (hdropping : dropping .rx w = none)
    (hopening : opening w = some (key, generation)) :
    (indexContract env).wp .rx
      (v1 (.indexPush key.sessionId key) >>= fun _ => v1 (.spawn generation key))
      (fun _ => Unowed .rx) w := by
  have hstable : (indexContract env).Stable .rx fun w =>
      dropping .rx w = none ∧ opening w = some (key, generation) :=
    Contract.Stable.and
      (Contract.Stable.lastAnswer (C := indexContract env) (t := Tid.rx)
        (fun x => x.bind removedBy = none)) (stable_opening key generation)
  refine wp_v1_bind _ hstable ⟨hdropping, hopening⟩
    (fun w _ hw => ⟨⟨fun key' hkey' => ?_, fun _ key' generation' hkey' => ?_⟩, rfl, rfl,
      generation, hw.2⟩) fun w₁ _ st₁ hinv₁ hw₁ hexec₁ _ => ?_
  · rw [hw.1] at hkey'
    cases hkey'
  · rw [hw.2] at hkey'
    cases hkey'
    rfl
  -- a flow that is owed has no task
  obtain ⟨-, hnone, hlt, -⟩ := hinv₁.opened hw₁.2
  obtain ⟨-, -, hst₁⟩ := System.of_guarded (execRelay_v1 hexec₁).1
  refine wp_v1_bind _ ((stable_unowed .rx).and (stable_unspawned generation))
    ⟨unowed_after _ _ rfl rfl, ?_, ?_⟩ (fun w _ hw => ⟨hw.1.follows _, hw.2⟩)
    fun _ _ _ _ _ _ _ => unowed_after _ _ rfl rfl
  · rw [System.World.after_st, hst₁]
    exact hnone
  · rw [System.World.after_st, hst₁]
    exact hlt

theorem forwardToFlowV1_wp (gameAddr : SocketAddr) (info : OriginalPacketInfo)
    (payload : List UInt8) (newFlow : Bool) (hw : Unowed .rx w) :
    (indexContract env).wp .rx (forwardToFlowV1 d ⟨d.sid, gameAddr⟩ info payload newFlow)
      (fun _ => Unowed .rx) w := by
  unfold forwardToFlowV1
  refine wp_v1_bind _ (stable_unowed _) hw (fun w _ hw => ⟨hw.follows _, trivial⟩)
    fun w₁ forwarded st₁ _ _ _ _ => ?_
  cases forwarded with
  | sent => exact unowed_after _ _ rfl rfl
  | full | vacant => exact wp_free_of_uses ⟨rfl, fun _ => trivial⟩ (unowed_after _ _ rfl rfl)
  | closed generation =>
      exact Contract.wp_mono (removeV1Flow_wp (fun _ _ _ _ => .inl rfl)
        (unowed_after _ _ rfl rfl) (.inl rfl)) fun _ _ h => h.1
  | opened generation =>
      refine listFlow_wp ⟨d.sid, gameAddr⟩ generation ?_ ?_
      · rw [dropping_after, if_pos rfl]
        rfl
      · rw [opening_after, if_pos rfl]
        rfl

theorem rxForwardV1_wp (gameAddr : SocketAddr) (info : OriginalPacketInfo) (payload : List UInt8)
    (hw : Unowed .rx w) :
    (indexContract env).wp .rx (rxForwardV1 d gameAddr info payload) (fun _ => Unowed .rx) w := by
  have hends : (rxForwardV1 d gameAddr info payload).Ends (fun o : RelayOp => o.free = true)
      (fun p => ∃ newFlow, p = forwardToFlowV1 d ⟨d.sid, gameAddr⟩ info payload newFlow) := by
    have hnew : (newFlowAllowedV1 d).Uses fun o : RelayOp => o.free = true := by
      simp [newFlowAllowedV1, RelayOp.free]
    refine Prog.ends_bind (Prog.uses_perform.2 rfl) fun known =>
      .ite (Prog.ends_of_mem ⟨false, rfl⟩) (Prog.ends_bind hnew fun allowed => ?_)
    exact .ite (Prog.ends_of_mem ⟨true, rfl⟩) trivial
  refine wp_free (R := fun _ => True) hends Contract.Stable.true (fun _ _ h _ => h)
    (fun p hp w hw _ => ?_) hw trivial
  obtain ⟨newFlow, rfl⟩ := hp
  exact forwardToFlowV1_wp gameAddr info payload newFlow hw

theorem rxPass_wp (d : Datagram) (hw : Unowed .rx w) :
    (indexContract env).wp .rx (rxPass env d) (fun _ => Unowed .rx) w := by
  have hends : (rxPass env d).Ends (fun o : RelayOp => o.free = true) (Handoff env d) :=
    rxPass_ends.mono fun o ho => by
      rcases o with o | o | o
      · rfl
      · cases ho
      · rfl
  refine wp_free (R := fun _ => True) hends Contract.Stable.true (fun _ _ h _ => h)
    (fun p hp w hw _ => ?_) hw trivial
  cases hp with
  | forwardV1 gameAddr info payload => exact rxForwardV1_wp gameAddr info payload hw
  | forwardV2 account gameAddr info payload =>
      exact wp_free_of_uses (by simp [rxForwardV2, RelayOp.free]) hw
  | keepalive =>
      refine wp_free_of_uses ?_ hw
      unfold rxKeepalive
      split
      · refine uses_v1_bind rfl fun keys =>
          Prog.uses_bind (Prog.uses_forM fun key _ => ?_) fun _ => ?_
        · exact Prog.uses_perform.2 rfl
        · exact Prog.uses_perform.2 rfl
      · simp [RelayOp.free]

end Rx

/-! ### The cleanup task -/

section Cleanup

variable {w : RelayWorld env}

theorem Clean.of_same {excepted : FlowKey → Prop} {w' : RelayWorld env} (h : Clean excepted w)
    (hkeys : ∀ sid, w'.st.v1.keysOf sid = w.st.v1.keysOf sid)
    (hgen : ∀ key, w'.st.v1.generationOf key = w.st.v1.generationOf key)
    (hdrop : ∀ u, dropping u w' = dropping u w) : Clean excepted w' := by
  intro key hkey
  rw [hkeys] at hkey
  have hdropping : Dropping w' key ↔ Dropping w key := by simp only [Dropping, hdrop]
  rw [hgen, hdropping]
  exact h key hkey

/-- While the cleanup task holds the lock of a shard of the index, the others leave the lists in the
shard alone, and the flows that are listed there neither come nor go. -/
theorem locked_after {w' : RelayWorld env} {u : Tid} (hinv : Indexed w) (hne : u ≠ .cleanup)
    (heffect : IndexEffect u w w') (hidle : dropping .cleanup w = none) {sid : SessionId}
    (hheld : w.st.v1.indexGuards (env.indexShardOf sid) = some .cleanup) :
    w'.st.v1.keysOf sid = w.st.v1.keysOf sid ∧
      ∀ key ∈ w.st.v1.keysOf sid,
        (w'.st.v1.generationOf key).isSome = (w.st.v1.generationOf key).isSome := by
  cases heffect with
  | same _ _ hkeys hgen => exact ⟨hkeys sid, fun key _ => by rw [hgen]⟩
  | opened key' generation _ hfree _ _ hkeys hgen =>
      refine ⟨hkeys sid, fun key hkey => ?_⟩
      rw [hgen, if_neg ?_]
      rintro rfl
      -- whoever is about to drop the key would hold the lock
      obtain rfl := hinv.own hkey
      obtain ⟨v, hv⟩ := hfree hkey
      rw [(hinv.dropped hv).1] at hheld
      rw [Option.some.inj hheld, hidle] at hv
      cases hv
  | listed key' generation _ hfree _ _ hkeys hgen =>
      refine ⟨?_, fun key _ => by rw [hgen]⟩
      rw [hkeys, if_neg ?_]
      rintro rfl
      rw [hfree] at hheld
      cases hheld
  | removed key' _ _ _ hheld' _ _ hkeys hgen =>
      refine ⟨hkeys sid, fun key hkey => ?_⟩
      rw [hgen, if_neg ?_]
      rintro rfl
      obtain rfl := hinv.own hkey
      rw [hheld] at hheld'
      exact hne (Option.some.inj hheld').symm
  | dropped key' howed _ _ hkeys hgen =>
      refine ⟨?_, fun key _ => by rw [hgen]⟩
      rw [hkeys, if_neg ?_]
      rintro rfl
      rw [(hinv.dropped howed).1] at hheld
      exact hne (Option.some.inj hheld)
  | stored _ ht => exact absurd ht hne
  | swept ht => exact absurd ht hne

/-- The cleanup task holds the lock of shard `i` of the index and has still to visit the entries
`es`. -/
structure Visit (i : ℕ) (es : List (SessionId × List FlowKey)) (excepted : FlowKey → Prop)
    (w : RelayWorld env) : Prop where
  unowed : Unowed .cleanup w
  held : w.st.v1.indexGuards i = some .cleanup
  shard : ∀ e ∈ es, env.indexShardOf e.1 = i
  keys : ∀ e ∈ es, w.st.v1.keysOf e.1 = e.2
  nodup : (es.map Prod.fst).Nodup
  clean : Clean (fun key => excepted key ∨ key.sessionId ∈ es.map Prod.fst) w

variable {i : ℕ} {es : List (SessionId × List FlowKey)} {excepted : FlowKey → Prop}

theorem stable_visit (i : ℕ) (es : List (SessionId × List FlowKey)) (excepted : FlowKey → Prop) :
    (indexContract env).Stable .cleanup (Visit i es excepted) := by
  intro w w' hstep hw
  have hunowed := stable_unowed .cleanup w w' hstep hw.unowed
  have hheld := stable_held .cleanup i w w' hstep hw.held
  have hclean := stable_clean _ w w' hstep hw.clean
  refine ⟨hunowed, hheld, hw.shard, fun e he => ?_, hw.nodup, hclean⟩
  cases hstep with
  | start a => exact hw.keys e he
  | exec u o r st hne hinv hmay hpre hexec hcond =>
      have heffect := indexEffect hinv hmay hpre.1 hpre.2 hexec hcond
      have hlock : w.st.v1.indexGuards (env.indexShardOf e.1) = some .cleanup :=
        (hw.shard e he).symm ▸ hw.held
      rw [(locked_after hinv hne heffect hw.unowed.1 hlock).1]
      exact hw.keys e he

/-- The flows that are listed in the next entry stay as they are. -/
theorem stable_present (e : SessionId × List FlowKey) (present : FlowKey → Bool) :
    (indexContract env).Stable .cleanup fun w => Visit i (e :: es) excepted w ∧
      ∀ key ∈ e.2, (w.st.v1.generationOf key).isSome = present key := by
  intro w w' hstep hw
  refine ⟨stable_visit i (e :: es) excepted w w' hstep hw.1, fun key hkey => ?_⟩
  cases hstep with
  | start a => exact hw.2 key hkey
  | exec u o r st hne hinv hmay hpre hexec hcond =>
      have heffect := indexEffect hinv hmay hpre.1 hpre.2 hexec hcond
      have hlock : w.st.v1.indexGuards (env.indexShardOf e.1) = some .cleanup :=
        (hw.1.shard e List.mem_cons_self).symm ▸ hw.1.held
      have hlisted : key ∈ w.st.v1.keysOf e.1 := by
        rwa [hw.1.keys e List.mem_cons_self]
      rw [(locked_after hinv hne heffect hw.1.unowed.1 hlock).2 key hlisted]
      exact hw.2 key hkey

/-- An operation of the cleanup task that changes neither the flows nor the index. -/
theorem Visit.after (hw : Visit i es excepted w) {o : RelayOp} {r : o.Ret} {st : RelayState}
    (ho : o.free = true) (hst : st.v1 = w.st.v1) :
    Visit i es excepted (w.after .cleanup o r st : RelayWorld env) := by
  refine ⟨unowed_of_free _ ho hw.unowed, ?_, hw.shard, fun e he => ?_, hw.nodup,
    hw.clean.of_same (fun sid => ?_) (fun key => ?_) (debts_of_free _ ho hw.unowed).2⟩
  · rw [System.World.after_st, hst]
    exact hw.held
  · rw [System.World.after_st, hst]
    exact hw.keys e he
  · rw [System.World.after_st, hst]
  · rw [System.World.after_st, hst]

theorem keepFlows_wp (e : SessionId × List FlowKey) (present : FlowKey → Bool) {keys : List FlowKey}
    (hkeys : keys ⊆ e.2) (hw : Visit i (e :: es) excepted w ∧
      ∀ key ∈ e.2, (w.st.v1.generationOf key).isSome = present key) :
    (indexContract env).wp .cleanup (keepFlows keys) (fun kept w => kept = keys.filter present ∧
      Visit i (e :: es) excepted w ∧
      ∀ key ∈ e.2, (w.st.v1.generationOf key).isSome = present key) w := by
  induction keys generalizing w with
  | nil => exact ⟨rfl, hw⟩
  | cons key keys ih =>
      unfold keepFlows
      refine wp_v1_bind _ (stable_present e present) hw
        (fun w _ hw => pre_of_free rfl hw.1.unowed) fun w₁ found st₁ _ hw₁ hexec₁ _ => ?_
      cases hexec₁
      refine Contract.wp_seq
        (ih (fun key' hkey' => hkeys (List.mem_cons_of_mem key hkey'))
          ⟨hw₁.1.after rfl rfl, hw₁.2⟩) fun kept w hw => ⟨?_, hw.2⟩
      have hfound : (w₁.st.v1.flows.lookup key).isSome = present key := by
        rw [← hw₁.2 key (hkeys List.mem_cons_self), V1State.generationOf, Option.isSome_map]
      rw [hfound, hw.1, List.filter_cons]

theorem storeEntry_wp (e : SessionId × List FlowKey) (present : FlowKey → Bool)
    (hw : Visit i (e :: es) excepted w ∧
      ∀ key ∈ e.2, (w.st.v1.generationOf key).isSome = present key) :
    (indexContract env).wp .cleanup (v1 (.indexStore e.1 (e.2.filter present)))
      (fun _ => Visit i es excepted) w := by
  have hkept {w : RelayWorld env} (hw : Visit i (e :: es) excepted w ∧
      ∀ key ∈ e.2, (w.st.v1.generationOf key).isSome = present key) :
      e.2.filter present =
        (w.st.v1.keysOf e.1).filter fun key => (w.st.v1.generationOf key).isSome := by
    rw [hw.1.keys e List.mem_cons_self]
    exact List.filter_congr fun key hkey => (hw.2 key hkey).symm
  refine wp_v1_bind _ (stable_present e present) hw
    (fun w _ hw => ⟨hw.1.unowed.follows _, hkept hw⟩) fun w₁ _ st₁ _ hw₁ hexec₁ _ => ?_
  obtain ⟨-, -, hst₁⟩ := System.of_guarded (execRelay_v1 hexec₁).1
  obtain ⟨-, hdropping⟩ := debts_after (w := w₁)
    (o := .v1 (.indexStore e.1 (e.2.filter present))) (r := ()) st₁ hw₁.1.unowed rfl rfl
  have hkeys (sid : SessionId) := w₁.st.v1.keysOf_storeIndex e.1 sid (e.2.filter present)
  rw [← hst₁] at hkeys
  obtain ⟨hfresh, hnodup⟩ := List.nodup_cons.1 hw₁.1.nodup
  refine ⟨unowed_after _ _ rfl rfl, ?_,
    fun e' he' => hw₁.1.shard e' (List.mem_cons_of_mem e he'), fun e' he' => ?_, hnodup,
    fun key hkey => ?_⟩
  · rw [System.World.after_st, hst₁]
    exact hw₁.1.held
  · rw [System.World.after_st, hkeys, if_neg ?_]
    · exact hw₁.1.keys e' (List.mem_cons_of_mem e he')
    · intro heq
      exact hfresh (List.mem_map.2 ⟨e', he', heq⟩)
  · have hgen : st₁.v1.generationOf key = w₁.st.v1.generationOf key := by
      rw [hst₁]
      rfl
    rw [System.World.after_st, hkeys] at hkey
    rw [System.World.after_st, hgen]
    split at hkey
    · obtain ⟨hmem, hpresent⟩ := List.mem_filter.1 hkey
      rw [← hw₁.2 key hmem] at hpresent
      exact .inl (Option.isSome_iff_ne_none.1 hpresent)
    · next hne =>
        have hdrop : Dropping
            (w₁.after .cleanup (.v1 (.indexStore e.1 (e.2.filter present))) () st₁ :
              RelayWorld env) key ↔ Dropping w₁ key := by simp only [Dropping, hdropping]
        rw [hdrop]
        refine (hw₁.1.clean key hkey).imp_right (Or.imp_right (Or.imp_right fun hmem => ?_))
        rw [List.map_cons] at hmem
        exact (List.mem_cons.1 hmem).resolve_left hne

theorem retainIndexEntry_wp (e : SessionId × List FlowKey) (hw : Visit i (e :: es) excepted w) :
    (indexContract env).wp .cleanup (retainIndexEntry e) (fun _ => Visit i es excepted) w := by
  unfold retainIndexEntry
  refine Contract.wp_seq
    (keepFlows_wp e (fun key => (w.st.v1.generationOf key).isSome) (List.Subset.refl _)
      ⟨hw, fun _ _ => rfl⟩) fun kept w₁ hw₁ => ?_
  obtain ⟨rfl, hw₁⟩ := hw₁
  split
  · next hempty =>
      have hstore := storeEntry_wp e _ hw₁
      rw [List.isEmpty_iff.1 hempty] at hstore
      exact hstore
  · refine wp_core_bind _ (stable_present e _) hw₁ (fun w _ hw => pre_of_free rfl hw.1.unowed)
      fun w₂ known st₂ _ hw₂ hexec₂ hsafe => ?_
    obtain ⟨hcore, hv1, -⟩ := execRelay_core hexec₂
    -- the session of flows that are still there is in the map
    obtain rfl : known = true :=
      (execCore_sessionContains hcore).1.trans (Option.isSome_iff_ne_none.2 hsafe)
    refine storeEntry_wp e _ ⟨hw₂.1.after rfl hv1, fun key hkey => ?_⟩
    rw [System.World.after_st, hv1]
    exact hw₂.2 key hkey

theorem retainIndexShard_wp {l : List ℕ} (hw : Unowed .cleanup w)
    (hclean : Clean (fun key => env.indexShardOf key.sessionId ∈ i :: l) w) :
    (indexContract env).wp .cleanup (retainIndexShard i) (fun _ w => Unowed .cleanup w ∧
      Clean (fun key => env.indexShardOf key.sessionId ∈ l) w) w := by
  unfold retainIndexShard
  refine wp_v1_bind _ ((stable_unowed _).and (stable_clean _)) ⟨hw, hclean⟩
    (fun w _ hw => pre_of_free rfl hw.1) fun w₁ entries st₁ _ hw₁ hexec₁ _ => ?_
  have hvisit : Visit i entries (fun key => env.indexShardOf key.sessionId ∈ l)
      (w₁.after .cleanup (.v1 (.indexRetain i)) entries st₁ : RelayWorld env) := by
    obtain ⟨-, rfl, hst₁⟩ := System.of_guarded (execRelay_v1 hexec₁).1
    obtain ⟨-, hdropping⟩ := debts_of_free (w := w₁) (o := .v1 (.indexRetain i))
      (r := w₁.st.v1.indexEntries env i) st₁ rfl hw₁.1
    refine ⟨unowed_of_free _ rfl hw₁.1, ?_, fun e he => ?_, fun e he => ?_, ?_, fun key hkey => ?_⟩
    · rw [System.World.after_st, hst₁]
      exact Function.update_self ..
    · exact (w₁.st.v1.mem_indexEntries he).1
    · rw [System.World.after_st, hst₁]
      exact (w₁.st.v1.mem_indexEntries he).2
    · exact w₁.st.v1.nodup_indexEntries env i
    · rw [System.World.after_st, hst₁] at hkey ⊢
      have hdrop : Dropping (w₁.after .cleanup (.v1 (.indexRetain i))
          (w₁.st.v1.indexEntries env i) st₁ : RelayWorld env) key ↔ Dropping w₁ key := by
        simp only [Dropping, hdropping]
      rw [hdrop]
      refine (hw₁.2 key hkey).imp_right (Or.imp_right fun hmem => ?_)
      rcases List.mem_cons.1 hmem with rfl | hmem
      · exact .inr (w₁.st.v1.mem_indexEntries_of_mem hkey)
      · exact .inl hmem
  refine Contract.wp_seq (Contract.wp_forM (C := indexContract env)
    (fun es => Visit i es fun key => env.indexShardOf key.sessionId ∈ l)
    (fun e _ _ hw => retainIndexEntry_wp e hw) hvisit) fun _ w₂ hw₂ => ?_
  refine wp_v1_bind _ (stable_visit i [] _) hw₂ (fun w _ hw => pre_of_free rfl hw.unowed)
    fun w₃ _ st₃ _ hw₃ hexec₃ _ => ?_
  obtain ⟨-, -, hst₃⟩ := System.of_guarded (execRelay_v1 hexec₃).1
  have hclean₃ : Clean (fun key => env.indexShardOf key.sessionId ∈ l) w₃ := fun key hkey =>
    (hw₃.clean key hkey).imp_right (Or.imp_right fun h => h.resolve_right (by simp))
  refine ⟨unowed_of_free _ rfl hw₃.unowed, hclean₃.of_same (fun sid => ?_) (fun key => ?_)
    (debts_of_free _ rfl hw₃.unowed).2⟩
  · rw [System.World.after_st, hst₃]
    rfl
  · rw [System.World.after_st, hst₃]
    rfl

theorem retainFlowsV1_wp (now : Instant) (hw : Unowed .cleanup w) :
    (indexContract env).wp .cleanup (retainFlowsV1 env now) (fun _ w => Unowed .cleanup w ∧
      Clean (fun _ => False) w) w := by
  unfold retainFlowsV1
  refine Contract.wp_seq (wp_free_of_uses
    (Prog.uses_forM fun i _ => Prog.uses_perform.2 rfl) hw) fun _ w₁ hw₁ => ?_
  refine Contract.wp_mono (Contract.wp_forM (C := indexContract env)
    (fun l w => Unowed .cleanup w ∧ Clean (fun key => env.indexShardOf key.sessionId ∈ l) w)
    (fun i l w hw => retainIndexShard_wp hw.1 hw.2) ⟨hw₁, fun key _ => ?_⟩) fun _ w₂ hw₂ => ?_
  · exact .inr (.inr (List.mem_range.2 (env.indexShardOf_lt _)))
  · exact ⟨hw₂.1, fun key hkey => (hw₂.2 key hkey).imp_right (Or.imp_right (by simp))⟩

/-- The visit of the session map leaves the flows and the index alone. -/
theorem retainSessions_wp (p : CleanupPass) (hw : Unowed .cleanup w ∧ Clean (fun _ => False) w) :
    (indexContract env).wp .cleanup (retainSessions env p) (fun _ w => Unowed .cleanup w ∧
      Clean (fun _ => False) w) w := by
  have huses : (retainSessions env p).Uses fun o => ∀ o', o ≠ RelayOp.v1 o' := by
    refine Prog.uses_forM fun i _ => uses_core_bind (by simp) fun entries =>
      Prog.uses_bind (Prog.uses_forM fun entry _ => ?_) fun _ => by simp
    cases hpath : env.datapath <;>
      simp [cleanupSession, decrementSourceSessionCount, signalRemoval, hpath]
  refine Contract.wp_of_uses (C := indexContract env) huses
    (fun w => Unowed .cleanup w ∧ Clean (fun _ => False) w)
    ((stable_unowed _).and (stable_clean _)) (fun o ho w _ hw => ?_) hw
  have hfree : o.free = true := by
    rcases o with o | o | o
    · rfl
    · exact absurd rfl (ho o)
    · rfl
  refine ⟨pre_of_free hfree hw.1, fun r st hexec _ => ?_⟩
  have hst : st.v1 = w.st.v1 :=
    (execRelay_onV1 hexec).resolve_right (by rintro ⟨o', -, ho', -⟩; exact ho o' ho')
  refine ⟨unowed_of_free _ hfree hw.1, hw.2.of_same (fun sid => ?_) (fun key => ?_)
    (debts_of_free _ hfree hw.1).2⟩
  · rw [System.World.after_st, hst]
  · rw [System.World.after_st, hst]

end Cleanup

/-! ### Every run -/

section Run

variable {w : RelayWorld env}

theorem indexed_begin (h : Indexed w) (a : Act) : Indexed (w.begin a : RelayWorld env) := by
  refine ⟨h.own, h.nodup, fun hkey => ?_, fun hkey => ?_, fun hkey => ?_, h.spawned⟩
  · rw [opening_begin]
    exact h.listed hkey
  · rw [opening_begin] at hkey
    obtain ⟨hgen, hnone, hlt, hdrop⟩ := h.opened hkey
    refine ⟨hgen, hnone, hlt, fun hmem => ?_⟩
    obtain ⟨t, ht⟩ := hdrop hmem
    exact ⟨t, (dropping_begin t w a).trans ht⟩
  · rw [dropping_begin] at hkey
    rw [opening_begin]
    exact h.dropped hkey

/-- The operations of the senders and of the shards of the second datapath are permitted anyway. -/
theorem free_of_may {t : Tid} {o : RelayOp} (h : may t o) (hrx : t ≠ .rx) (hcleanup : t ≠ .cleanup)
    (htask : ∀ generation, t ≠ .v1Flow generation) : o.free = true := by
  rcases o with o | o | o
  · rfl
  · cases t with
    | rx => exact absurd rfl hrx
    | cleanup => exact absurd rfl hcleanup
    | v1Flow generation => exact absurd rfl (htask generation)
    | v1Response => cases o <;> first | rfl | cases h
    | _ => cases h
  · rfl

theorem flowTaskReceive_ends (key : FlowKey) (generation : ℕ) (a : Arrival) :
    Prog.Ends (fun o : RelayOp => o.free = true) (· = endFlowTask key generation) (do
      v1 (.flowReceive generation a.payload)
      let session ← core (.sessionGet key.sessionId)
      if session.any fun e => sessionLeaseIsCurrent e a.nowUnix then
        match ← v1 (.flowGet key) with
        | some flow =>
            if flow.generation = generation then flowTaskRespond key generation flow a
            else endFlowTask key generation
        | none =>
            if ← core (.sessionContains key.sessionId) then return ()
            else endFlowTask key generation
      else endFlowTask key generation) := by
  refine Prog.ends_bind (Prog.uses_perform.2 rfl) fun _ =>
    Prog.ends_bind (Prog.uses_perform.2 rfl) fun session => .ite ?_ (Prog.ends_of_mem rfl)
  refine Prog.ends_bind (Prog.uses_perform.2 rfl) fun flow => ?_
  cases flow with
  | none =>
      exact Prog.ends_bind (Prog.uses_perform.2 rfl) fun known =>
        .ite trivial (Prog.ends_of_mem rfl)
  | some flow =>
      refine .ite (Prog.Uses.ends ?_) (Prog.ends_of_mem rfl)
      simp [flowTaskRespond, RelayOp.free]

theorem task_wp {generation : ℕ} (a : Act) (ha : a.tid = .v1Flow generation)
    (hw : Unowed (.v1Flow generation) w) :
    (indexContract env).wp (.v1Flow generation) (a.prog env)
      (fun _ => Unowed (.v1Flow generation)) w := by
  cases a with
  | flowTaskSend g =>
      cases ha
      refine withTask_wp (fun key w hw htask => flowTask_wp (Prog.Uses.ends ?_) hw htask) hw
      refine uses_v1_bind rfl fun payload => ?_
      cases payload <;> simp [RelayOp.free]
  | flowTaskReceive g a =>
      cases ha
      exact withTask_wp
        (fun key w hw htask => flowTask_wp (flowTaskReceive_ends key generation a) hw htask) hw
  | flowTaskIdle g =>
      cases ha
      refine withTask_wp (fun key w hw htask => flowTask_wp (Prog.ends_bind
        (Prog.uses_perform.2 rfl) fun flow => ?_) hw htask) hw
      exact .ite trivial (Prog.ends_of_mem rfl)
  | flowTaskEnd g =>
      cases ha
      exact withTask_wp (fun key w hw htask => endFlowTask_wp hw htask) hw
  | _ => cases ha

theorem cleanupPass_wp (p : CleanupPass) (hw : Unowed .cleanup w ∧ Clean (fun _ => False) w) :
    (indexContract env).wp .cleanup (cleanupPass env p) (fun _ w => Unowed .cleanup w ∧
      Clean (fun _ => False) w) w := by
  unfold cleanupPass
  split
  · exact Contract.wp_seq (retainFlowsV1_wp p.now hw.1) fun _ w hw => retainSessions_wp p hw
  · exact retainSessions_wp p hw

/-- **The threads keep to the contract of the flow index.** -/
theorem indexContract_sound (env : RelayEnv) : (indexContract env).Sound where
  start_inv w a hinv _ _ := indexed_begin hinv a
  exec_inv w t o r st hinv hmay hpre hexec hcond :=
    indexed_exec hinv hmay hpre.1 hpre.2 hexec hcond
  post_stable t := by
    refine (stable_unowed t).and (Contract.Stable.imp fun ht => ?_)
    subst ht
    exact stable_clean _
  prog_may := prog_uses env
  prog_wp w a _ hpost _ := by
    have hw : Unowed a.tid (w.begin a : RelayWorld env) := by
      refine ⟨(dropping_begin ..).trans hpost.1.1, fun ht => ?_⟩
      exact (opening_begin ..).trans (hpost.1.2 ht)
    have hother (hne : a.tid ≠ .cleanup)
        (h : (indexContract env).wp a.tid (a.prog env) (fun _ => Unowed a.tid) (w.begin a)) :
        (indexContract env).wp a.tid (a.prog env) (fun _ => (indexContract env).post a.tid)
          (w.begin a) :=
      Contract.wp_mono h fun _ _ h => ⟨h, fun ht => absurd ht hne⟩
    by_cases hrx : a.tid = .rx
    · obtain ⟨d, rfl⟩ := Act.tid_eq_rx hrx
      exact hother (by simp [Act.tid]) (rxPass_wp d hw)
    by_cases hcleanup : a.tid = .cleanup
    · obtain ⟨p, rfl⟩ := Act.tid_eq_cleanup hcleanup
      have hclean : Clean (fun _ => False) (w.begin (.cleanup p) : RelayWorld env) :=
        (hpost.2 rfl).of_same (fun _ => rfl) (fun _ => rfl) fun u => dropping_begin u w _
      exact Contract.wp_mono (cleanupPass_wp p ⟨hw, hclean⟩) fun _ _ h => ⟨h.1, fun _ => h.2⟩
    by_cases htask : ∃ generation, a.tid = .v1Flow generation
    · obtain ⟨generation, htask⟩ := htask
      refine hother hcleanup ?_
      rw [htask] at hw ⊢
      exact task_wp a htask hw
    · exact hother hcleanup (wp_free_of_uses ((prog_uses env a).mono fun o ho =>
        free_of_may ho hrx hcleanup fun generation ht => htask ⟨generation, ht⟩) hw)

variable {bucketOf : Ipv4Addr → ℕ} {createdAt : Instant} {c : (relaySystem env).Config}

theorem indexed_run (h : (relaySystem env).Run IndexSafe (relayStart env bucketOf createdAt) c) :
    Contract.Sound.Good (indexContract env) c := by
  refine (indexContract_sound env).run h (Contract.Sound.good_initial ⟨?_, ?_, ?_, ?_, ?_, ?_⟩ ?_)
  · intro sid key hkey
    cases hkey
  · exact fun sid => List.nodup_nil
  · intro key hkey
    exact absurd rfl hkey
  · intro key generation hkey
    cases hkey
  · intro t key hkey
    cases hkey
  · intro generation key hkey
    cases hkey
  · intro t
    refine ⟨⟨rfl, fun _ => rfl⟩, fun _ key hkey => ?_⟩
    cases hkey

/-- A thread that is about to drop a key is the receive loop or the task of a flow, and busy. -/
theorem not_dropping_of_idle (hgood : Contract.Sound.Good (indexContract env) c)
    (hrx : c.ctl .rx = .ret ()) (htasks : ∀ generation, c.ctl (.v1Flow generation) = .ret ())
    (key : FlowKey) : ¬ Dropping c.toWorld key := by
  rintro ⟨t, ht⟩
  cases hctl : c.ctl t with
  | ret u =>
      have hidle := (Contract.Sound.post_of_idle hgood hctl).1.1
      rw [hidle] at ht
      cases ht
  | op o k =>
      obtain ⟨hmay, hfollows, -⟩ := Contract.Sound.pre_of_next hgood hctl
      obtain rfl := hfollows.1 key ht
      cases t with
      | rx =>
          rw [hrx] at hctl
          cases hctl
      | v1Flow generation =>
          rw [htasks] at hctl
          cases hctl
      | _ => cases hmay

/-- **The flow index is exact.**  In a run without the three races, whenever the receive loop, the
cleanup task and the tasks of the flows are idle, the index lists exactly the flows of each session,
each once. -/
theorem flow_index_exact
    (h : (relaySystem env).Run IndexSafe (relayStart env bucketOf createdAt) c)
    (hrx : c.ctl .rx = .ret ()) (hcleanup : c.ctl .cleanup = .ret ())
    (htasks : ∀ generation, c.ctl (.v1Flow generation) = .ret ()) (sid : SessionId)
    (key : FlowKey) :
    (c.st.v1.keysOf sid).count key =
      if key.sessionId = sid ∧ c.st.v1.flows.lookup key ≠ none then 1 else 0 := by
  have hgood := indexed_run h
  have hnone := not_dropping_of_idle hgood hrx htasks key
  have hopening := (Contract.Sound.post_of_idle hgood hrx).1.2 rfl
  have hclean := (Contract.Sound.post_of_idle hgood hcleanup).2 rfl
  have hgen : c.st.v1.generationOf key ≠ none ↔ c.st.v1.flows.lookup key ≠ none := by
    rw [V1State.generationOf, ne_eq, Option.map_eq_none_iff]
  split
  · next hkey =>
      obtain ⟨rfl, hpresent⟩ := hkey
      refine List.count_eq_one_of_mem (hgood.1.nodup _) ?_
      refine (hgood.1.listed (hgen.2 hpresent)).resolve_right ?_
      rintro ⟨generation, howed⟩
      rw [hopening] at howed
      cases howed
  · next hkey =>
      refine List.count_eq_zero_of_not_mem fun hmem => hkey ?_
      obtain rfl := hgood.1.own hmem
      exact ⟨rfl, hgen.1 ((hclean key hmem).resolve_right fun h => h.elim hnone id)⟩

/-- A test that is passed only by the steps that `IndexSafe` allows. -/
def indexSafe (w : RelayWorld env) : RelayEvent env → Bool
  | .exec .rx (.v1 (.flowForward key _ _ _ _ true)) _ _ _ =>
      (w.st.v1.generationOf key).isSome || !(w.st.v1.keysOf key.sessionId).contains key
  | .exec .cleanup (.core (.sessionContains sid)) _ _ _ =>
      (w.st.core.sessions.lookup sid).isSome
  | .exec .cleanup (.v1 (.flowsRetain _ _)) _ _ _ => (opening w).isNone
  | _ => true

theorem indexSafe_of_test {e : RelayEvent env} (h : indexSafe w e = true) : IndexSafe w e := by
  unfold indexSafe at h
  split at h
  · intro hnone hmem
    rw [hnone] at h
    simp [hmem] at h
  · intro hnone
    rw [hnone] at h
    cases h
  · intro key generation flow hopening
    rw [hopening] at h
    cases h
  · unfold IndexSafe
    split
    · next h' _ _ => exact absurd rfl (h' _ _ _ _ _ _ _ _)
    · next h' _ => exact absurd rfl (h' _ _ _ _)
    · next h' => exact absurd rfl (h' _ _ _ _ _)
    · trivial

/-- Nobody is busy with the flows, session 1 is in the map, and its entry of the index is `keys`. -/
def AtRest (keys : List FlowKey) (c : (relaySystem openEnvV1).Config) : Prop :=
  (c.ctl .rx = .ret () ∧ c.ctl .cleanup = .ret () ∧
      ∀ generation, c.ctl (.v1Flow generation) = .ret ()) ∧
    c.st.core.sessions.lookup 1 ≠ none ∧ c.st.v1.keysOf 1 = keys

/-- The test of `AtRest`, for schedules of the receive loop and the cleanup task. -/
def atRest (keys : List FlowKey) (c : (relaySystem openEnvV1).Config) : Bool :=
  System.idle (M := relaySystem openEnvV1) .rx (c.st, c.ctl) &&
    System.idle (M := relaySystem openEnvV1) .cleanup (c.st, c.ctl) &&
    (c.st.core.sessions.lookup 1).isSome && decide (c.st.v1.keysOf 1 = keys)

theorem atRest_of_replay (allowed : RelayWorld openEnvV1 → RelayEvent openEnvV1 → Bool)
    (turns : List (relaySystem openEnvV1).Turn) (keys : List FlowKey)
    (h : (System.Config.replay (M := relaySystem openEnvV1) allowed turns openStartV1).map
      (atRest keys) = some true)
    (htasks : ∀ turn ∈ turns, ∀ generation, .v1Flow generation ≠ turn.tid) :
    ∃ c, (relaySystem openEnvV1).Run (fun w e => allowed w e = true) openStartV1 c ∧
      AtRest keys c := by
  obtain ⟨c, hc, hfacts⟩ := Option.map_eq_some_iff.1 h
  simp only [atRest, Bool.and_eq_true, decide_eq_true_eq] at hfacts
  obtain ⟨⟨⟨hrx, hcleanup⟩, hsession⟩, hkeys⟩ := hfacts
  refine ⟨c, System.Config.run_of_replay hc, ⟨System.ctl_of_idle hrx, System.ctl_of_idle hcleanup,
    fun generation => ?_⟩, Option.isSome_iff_ne_none.1 hsession, hkeys⟩
  exact System.Config.ctl_of_replay hc fun turn hturn => htasks turn hturn generation

/-- A flow is opened, removed after three and a half minutes, and opened again. -/
theorem flow_index_exact_sample :
    ∃ c, (relaySystem openEnvV1).Run IndexSafe openStartV1 c ∧ AtRest [sampleFlowKey] c ∧
      (c.st.v1.keysOf 1).count sampleFlowKey =
        if sampleFlowKey.sessionId = 1 ∧ c.st.v1.flows.lookup sampleFlowKey ≠ none then 1
        else 0 := by
  obtain ⟨c, hrun, hrest⟩ := atRest_of_replay indexSafe
    [.start (.datagram (sampleFrame samplePacket sampleClient 0)), .fire .rx 30,
      .start (.cleanup ⟨secs 180, 180⟩), .fire .cleanup 30,
      .start (.cleanup ⟨secs 210, 210⟩), .fire .cleanup 30,
      .start (.datagram (sampleFrame samplePacket sampleClient 211)), .fire .rx 30]
    [sampleFlowKey] (by decide +kernel) (by simp [System.Turn.tid, Act.tid])
  have hrun := hrun.mono fun _ _ => indexSafe_of_test
  exact ⟨c, hrun, hrest, flow_index_exact hrun hrest.1.1 hrest.1.2.1 hrest.1.2.2 1 sampleFlowKey⟩

/-- The cleanup task removes the flow from the flow map.  Before it gets to the index, the client
sends again: the receive loop opens the flow once more and lists it, and the cleanup task then finds
both keys to be those of a flow. -/
theorem flow_listed_twice :
    ∃ c, (relaySystem openEnvV1).Run (fun _ _ => True) openStartV1 c ∧
      AtRest [sampleFlowKey, sampleFlowKey] c := by
  obtain ⟨c, hrun, hrest⟩ := atRest_of_replay (fun _ _ => true)
    [.start (.datagram (sampleFrame samplePacket sampleClient 0)), .fire .rx 30,
      .start (.cleanup ⟨secs 180, 180⟩), .fire .cleanup 30,
      .start (.cleanup ⟨secs 210, 210⟩), .fire .cleanup 1,
      .start (.datagram (sampleFrame samplePacket sampleClient 210)), .fire .rx 30,
      .fire .cleanup 30]
    [sampleFlowKey, sampleFlowKey] (by decide +kernel) (by simp [System.Turn.tid, Act.tid])
  exact ⟨c, hrun.mono fun _ _ _ => trivial, hrest⟩

end Run

end SwiftRelay
