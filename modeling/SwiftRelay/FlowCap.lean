/-
**The check of the cap on the flows.**

A shard that is to open a flow adds up the counters that the shards have published, one after
another, and goes on if the sum is below the cap.  A shard publishes the number of its flows only
when it cleans up; in the meantime the counter says nothing about the flows that were opened since,
and only the ports bound the number of flows (`FlowPorts`).  As long as no counter that is read lags
behind, the check itself bounds it: the cap is passed by less than one flow per shard, although the
counters are read at different times and the flow is opened later still.

The check of a shard begins when it has looked the flow up.  The history tells which shards have
opened flows since.

Main definitions:

* `entrants` — the shards that have opened flows since the check of a shard began;
* `Published` — the counters that are read do not lag behind.

Main results:

* `capContract_sound`, `flow_cap_holds` — every run under this condition.
-/

import SwiftRelay.CheckThenAct
import SwiftRelay.ShardTables

set_option autoImplicit false

namespace SwiftRelay.Datapath

open Conc

variable {env : Env} {k : Fin env.shardCount}

/-! ### What has happened since a check began -/

/-- Shard `k` looks a flow up. -/
def isSearch (k : Fin env.shardCount) : Event env → Bool
  | .exec (.shard j) (.loop _ (.flowExists _)) _ _ _ => j = k
  | _ => false

/-- Shard `j` enters a flow. -/
def isEntry (j : Fin env.shardCount) : Event env → Bool
  | .exec (.shard i) (.loop _ (.insert ..)) _ _ _ => i = j
  | _ => false

/-- Shard `j` has entered a flow since shard `k` looked one up. -/
def entered (k j : Fin env.shardCount) (hist : List (Event env)) : Bool :=
  (hist.takeWhile fun e => !isSearch k e).any (isEntry j)

/-- The other shards that have entered flows since shard `k` looked one up. -/
def entrants (k : Fin env.shardCount) (hist : List (Event env)) : Finset (Fin env.shardCount) :=
  Finset.univ.filter fun j => j ≠ k ∧ entered k j hist = true

section History

variable {b j : Fin env.shardCount} {hist : List (Event env)} {e : Event env}

theorem mem_entrants : j ∈ entrants k hist ↔ j ≠ k ∧ entered k j hist = true := by
  simp [entrants]

theorem entered_search (h : isSearch k e = true) : entered k j (e :: hist) = false := by
  simp [entered, h]

theorem entered_cons (h : isSearch k e = false) :
    entered k j (e :: hist) = (isEntry j e || entered k j hist) := by
  simp [entered, h]

theorem entrants_cons (h : isSearch k e = false) (hentry : ∀ j, isEntry j e = false) :
    entrants k (e :: hist) = entrants k hist := by
  simp [entrants, entered_cons h, hentry]

/-- If shard `b` has entered a flow since shard `k` looked one up, and none since it looked one up
itself, then it did so later. -/
theorem entered_trans (hb : entered k b hist = true) (hself : entered b b hist = false)
    (hj : entered b j hist = true) : entered k j hist = true := by
  induction hist with
  | nil => cases hj
  | cons e hist ih =>
      cases hk : isSearch k e with
      | true =>
          rw [entered_search hk] at hb
          cases hb
      | false =>
          cases hsearch : isSearch b e with
          | true =>
              rw [entered_search hsearch] at hj
              cases hj
          | false =>
              rw [entered_cons hk, Bool.or_eq_true] at hb ⊢
              rw [entered_cons hsearch, Bool.or_eq_false_iff] at hself
              rw [entered_cons hsearch, Bool.or_eq_true] at hj
              refine hj.imp_right fun hj => ih ?_ hself.2 hj
              exact hb.resolve_left (by rw [hself.1]; exact Bool.false_ne_true)

/-- The shards that have entered flows during the check of shard `b`, if shard `b` is one of those
that have done so during the check of shard `k`. -/
theorem entrants_subset (hb : entered k b hist = true) (hself : entered b b hist = false)
    (hk : entered k k hist = false) : entrants b hist ⊆ (entrants k hist).erase b := by
  intro j hj
  obtain ⟨hne, hj⟩ := mem_entrants.1 hj
  have hj := entered_trans hb hself hj
  refine Finset.mem_erase.2 ⟨hne, mem_entrants.2 ⟨?_, hj⟩⟩
  rintro rfl
  rw [hk] at hj
  cases hj

variable {t : Tid env} {o : Op env} {r : o.Ret} {pre post : State env}

theorem isSearch_of_ne (h : t ≠ .shard k) : isSearch k (.exec t o r pre post) = false := by
  unfold isSearch
  split
  · next heq =>
      cases heq
      simpa using h
  · rfl

theorem isEntry_of_ne (h : ∀ b key flow, o ≠ .loop b (.insert key flow)) :
    isEntry j (.exec t o r pre post) = false := by
  unfold isEntry
  split
  · next heq =>
      cases heq
      exact absurd rfl (h _ _ _)
  · rfl

end History

/-! ### How operations change the number of flows -/

/-- The number of flows of each shard. -/
def State.flowCounts (s : State env) (k : Fin env.shardCount) : ℕ := (s.loops k).tables.flows.size

/-- Only entering a flow makes the tables grow, by at most one. -/
theorem execLoop_size {o : LoopOp} {r : o.Ret} {l l' : LoopState}
    (h : execLoop o l = some (r, l')) :
    l'.tables.flows.size ≤ l.tables.flows.size ∨
      ∃ key flow, o = .insert key flow ∧ l'.tables.flows.size ≤ l.tables.flows.size + 1 := by
  obtain hkept | ⟨key, flow, rfl, heq⟩ := execLoop_kept h
  · refine .inl (Table.size_le_of_lookup fun key flow' hflow' => ?_)
    obtain ⟨flow, hflow, -⟩ := hkept key flow' hflow'
    exact ⟨flow, hflow⟩
  · exact .inr ⟨key, flow, rfl, heq ▸ Table.size_insert_le _ _ _⟩

open CheckThenAct

theorem exec_flowCounts {t : Tid env} {o : Op env} {r : o.Ret} {s s' : State env}
    (h : exec t o s = some (r, s')) :
    ((∀ b key flow, o ≠ .loop b (.insert key flow)) ∧ ∀ k, s'.flowCounts k ≤ s.flowCounts k) ∨
      ∃ b key flow, o = .loop b (.insert key flow) ∧ Acts b s.flowCounts s'.flowCounts := by
  by_cases hinsert : ∃ b key flow, o = .loop b (.insert key flow)
  · obtain ⟨b, key, flow, rfl⟩ := hinsert
    refine .inr ⟨b, key, flow, rfl, fun i => ?_⟩
    obtain ⟨l, hl, rfl⟩ := exec_loop h
    split
    · next heq =>
        subst heq
        rw [State.flowCounts, State.setLoop_self]
        obtain hle | ⟨_, _, _, hle⟩ := execLoop_size hl
        · exact Nat.le_succ_of_le hle
        · exact hle
    · next hne =>
        rw [State.flowCounts, State.setLoop_of_ne hne]
        exact Nat.le_refl _
  · refine .inl ⟨fun b key flow heq => hinsert ⟨b, key, flow, heq⟩, fun k => ?_⟩
    obtain heq | ⟨o', r', rfl, hl⟩ := exec_loops h k
    · rw [State.flowCounts, heq]
      exact Nat.le_refl _
    · obtain hle | ⟨key, flow, rfl, -⟩ := execLoop_size hl
      · exact hle
      · exact absurd ⟨k, key, flow, rfl⟩ hinsert

/-! ### The contract -/

/-- A counter that is read does not lag behind. -/
def Published (w : World env) : Event env → Prop
  | .exec _ (.loop j .countLoad) _ _ _ => w.st.flowCounts j ≤ (w.st.loops j).flowCount
  | _ => True

/-- The check of shard `k` goes on: it has not entered a flow, and what it has read covers the
flows. -/
def Checking (k : Fin env.shardCount) (seen : ℕ) (done : Finset (Fin env.shardCount))
    (w : World env) : Prop :=
  entered k k w.hist = false ∧
    Covers maxFlowsTotal seen w.st.flowCounts done (entrants k w.hist)

/-- Shard `k` has found room for a flow, up to the shards that have entered one in the meantime. -/
def FoundRoom (k : Fin env.shardCount) (w : World env) : Prop :=
  entered k k w.hist = false ∧
    ∑ i, w.st.flowCounts i < maxFlowsTotal + (entrants k w.hist).card

/-- A flow is entered only after room has been found. -/
def capContract (env : Env) : Contract (pathSystem env) where
  cond := Published
  inv w := ∑ i, w.st.flowCounts i ≤ maxFlowsTotal + env.shardCount
  may := Op.UsedBy
  pre t o w := ∀ k key flow, t = .shard k → o = .loop k (.insert key flow) → FoundRoom k w
  post _ _ := True

variable {done : Finset (Fin env.shardCount)} {w : World env}

theorem stable_checking {seen : ℕ} :
    (capContract env).Stable (.shard k) (Checking k seen done) := by
  rintro w w' hstep ⟨hself, hcovers⟩
  cases hstep with
  | start a => exact ⟨hself, hcovers⟩
  | exec u o r st hne hinv hused hpre hexec hcond =>
      have hsearch : isSearch k (.exec u o r w.st st) = false := isSearch_of_ne hne
      rw [Checking, System.World.after_hist, System.World.after_st, entered_cons hsearch, hself]
      obtain ⟨hother, hfall⟩ | ⟨b, key, flow, rfl, hacts⟩ := exec_flowCounts hexec
      · rw [entrants_cons hsearch fun j => isEntry_of_ne hother, isEntry_of_ne hother]
        exact ⟨rfl, hcovers.fall hfall⟩
      · have hu : u = .shard b := hused
        subst hu
        have hbk : b ≠ k := fun heq => hne (by rw [heq])
        have hentrants : entrants k (.exec (.shard b) (.loop b (.insert key flow)) r w.st st ::
            w.hist) = insert b (entrants k w.hist) := by
          ext j
          rw [mem_entrants, entered_cons hsearch, Finset.mem_insert, mem_entrants]
          simp only [isEntry, Bool.or_eq_true, decide_eq_true_eq]
          constructor
          · rintro ⟨hjk, rfl | hj⟩
            · exact .inl rfl
            · exact .inr ⟨hjk, hj⟩
          · rintro (rfl | ⟨hjk, hj⟩)
            · exact ⟨hbk, .inl rfl⟩
            · exact ⟨hjk, .inr hj⟩
        refine ⟨by simpa [isEntry] using hbk, ?_⟩
        rw [hentrants]
        by_cases hb : b ∈ entrants k w.hist
        · rw [Finset.insert_eq_of_mem hb]
          obtain ⟨hselfb, hroom⟩ := hpre b key flow rfl rfl
          exact .act_again hacts hb hroom
            (entrants_subset (mem_entrants.1 hb).2 hselfb hself)
        · exact hcovers.act_first hacts hb

/-- An operation of the shard itself that neither looks a flow up nor enters one. -/
theorem Checking.after {seen : ℕ} {o : Op env} {r : o.Ret} {st : State env}
    (hw : Checking k seen done w) (hexec : exec (.shard k) o w.st = some (r, st))
    (hsearch : ∀ j key, o ≠ .loop j (.flowExists key))
    (hentry : ∀ j key flow, o ≠ .loop j (.insert key flow)) :
    Checking k seen done (System.World.after (M := pathSystem env) w (.shard k) o r st) := by
  obtain ⟨hself, hcovers⟩ := hw
  have hno : isSearch k (.exec (.shard k) o r w.st st) = false := by
    unfold isSearch
    split
    · next heq =>
        cases heq
        exact absurd rfl (hsearch _ _)
    · rfl
  rw [Checking, System.World.after_hist, System.World.after_st, entered_cons hno,
    isEntry_of_ne hentry, hself, entrants_cons hno fun j => isEntry_of_ne hentry]
  obtain ⟨-, hfall⟩ | ⟨b, key, flow, rfl, -⟩ := exec_flowCounts hexec
  · exact ⟨rfl, hcovers.fall hfall⟩
  · exact absurd rfl (hentry b key flow)

/-! ### The programs -/

theorem cap_pre {t : Tid env} {o : Op env} (h : ∀ k key flow, o ≠ .loop k (.insert key flow))
    (w : World env) : (capContract env).pre t o w :=
  fun k key flow _ heq => absurd heq (h k key flow)

theorem cap_onEntries : OnEntries (capContract env) := by
  refine fun t o w h => cap_pre (fun k key flow heq => ?_) w
  cases h k _ heq

/-- An operation during a check, on the loop of any shard. -/
theorem checking_loop {j : Fin env.shardCount} {o : LoopOp} {α : Type} {f : o.Ret → PathProg env α}
    {Q : α → World env → Prop} {seen : ℕ} (hw : Checking k seen done w)
    (hsearch : ∀ key, o ≠ .flowExists key) (hentry : ∀ key flow, o ≠ .insert key flow)
    (hnext : ∀ (w' : World env) (r : o.Ret) (l : LoopState),
      execLoop o (w'.st.loops j) = some (r, l) →
      Published w' (.exec (.shard k) (.loop j o) r w'.st (w'.st.setLoop j l)) →
      Checking k seen done (System.World.after (M := pathSystem env) w' (.shard k) (.loop j o) r
        (w'.st.setLoop j l)) →
      (capContract env).wp (.shard k) (f r) Q
        (w'.after (.shard k) (.loop j o) r (w'.st.setLoop j l))) :
    (capContract env).wp (.shard k) (loop j o >>= f) Q w := by
  have hentry' : ∀ i key flow, (.loop j o : Op env) ≠ .loop i (.insert key flow) := by
    rintro i key flow heq
    cases heq
    exact hentry key flow rfl
  refine wp_loop _ stable_checking hw (fun w' _ _ => cap_pre hentry' w')
    fun w' r l _ hw' hexec hcond => hnext w' r l hexec hcond ?_
  refine hw'.after (by simp [exec, hexec]) (fun i key heq => ?_) hentry'
  cases heq
  exact hsearch key rfl

theorem flowTotal_checking (shards : List (Fin env.shardCount)) {seen : ℕ}
    (hw : Checking k seen done w) :
    (capContract env).wp (.shard k) (flowTotal shards)
      (fun total => Checking k (seen + total) (done ∪ shards.toFinset)) w := by
  induction shards generalizing seen done w with
  | nil => simpa [flowTotal] using hw
  | cons j shards ih =>
      refine checking_loop hw (by simp) (by simp) fun w₁ count l hexec hcond hw₁ => ?_
      cases hexec
      have hcond : w₁.st.flowCounts j ≤ (w₁.st.loops j).flowCount := hcond
      have hread := hw₁.2.read (b := j) (v := (w₁.st.loops j).flowCount) (by simpa using hcond)
      refine Contract.wp_seq (ih ⟨hw₁.1, hread⟩) fun total w₂ hw₂ => ?_
      change Checking k (seen + ((w₁.st.loops j).flowCount + total))
        (done ∪ (j :: shards).toFinset) w₂
      rw [List.toFinset_cons, Finset.union_insert, ← Finset.insert_union, ← Nat.add_assoc]
      exact hw₂

theorem createFlow_cap (turn : InboxTurn) (packet : ClientPacket) {seen : ℕ}
    (hw : Checking k seen Finset.univ w) (hseen : seen < maxFlowsTotal) :
    (capContract env).wp (.shard k) (createFlow k turn packet) (fun _ _ => True) w := by
  unfold createFlow
  split
  · trivial
  refine checking_loop hw (by simp) (by simp) fun w₁ socket l _ _ hw₁ => ?_
  refine checking_loop hw₁ (by simp) (by simp) fun w₂ token l _ _ hw₂ => ?_
  cases token with
  | none => trivial
  | some token =>
      dsimp only
      split
      · trivial
      refine checking_loop hw₂ (by simp) (by simp) fun w₃ _ l _ _ hw₃ => ?_
      -- the check has found room, and the flow is entered
      refine wp_loop _ stable_checking hw₃ (fun w' _ hw' i key flow hi _ => ?_)
        fun _ _ _ _ _ _ _ => trivial
      cases hi
      exact ⟨hw'.1, hw'.2.room hseen⟩

theorem openFlow_cap (turn : InboxTurn) (packet : ClientPacket) (hw : Checking k 0 ∅ w) :
    (capContract env).wp (.shard k) (openFlow k turn packet) (fun _ _ => True) w := by
  unfold openFlow
  refine Contract.wp_seq (flowTotal_checking _ hw) fun total w₁ hw₁ => ?_
  have hw₁ : Checking k total Finset.univ w₁ := by
    simpa [List.toFinset_finRange] using hw₁
  split
  · trivial
  · next hroom =>
      refine checking_loop hw₁ (by simp) (by simp) fun w₂ len l _ _ hw₂ => ?_
      split
      · trivial
      · split
        · trivial
        · exact createFlow_cap turn packet hw₂ (Nat.lt_of_not_ge hroom)

theorem opensWell_cap (k : Fin env.shardCount) : OpensWell (capContract env) k :=
  fun turn packet _ _ _ => openFlow_cap turn packet ⟨entered_search (decide_eq_true rfl), .start⟩

/-! ### Every run -/

theorem capContract_sound (env : Env) : (capContract env).Sound where
  start_inv _ _ hinv _ _ := hinv
  exec_inv w t o r st hinv hmay hpre hexec _ := by
    change ∑ i, st.flowCounts i ≤ _
    obtain ⟨-, hfall⟩ | ⟨b, key, flow, rfl, hacts⟩ := exec_flowCounts hexec
    · exact (Finset.sum_le_sum fun i _ => hfall i).trans hinv
    · obtain ⟨-, hroom⟩ := hpre b key flow hmay rfl
      have hsum := hacts.sum_le Finset.univ
      have hcard := Finset.card_le_univ (entrants b w.hist)
      rw [Fintype.card_fin] at hcard
      omega
  post_stable _ := Contract.Stable.true
  prog_may := uses_prog
  prog_wp _ a _ _ _ := prog_wp_of_opens cap_onEntries opensWell_cap a _

/-- **The cap holds up to one flow per shard**, whatever the shards do at the same time, as long as
no counter that is read lags behind. -/
theorem flow_cap_holds {c : Config env} (h : (pathSystem env).Run Published (start env) c) :
    ∑ k, (c.st.loops k).tables.flows.size ≤ maxFlowsTotal + env.shardCount := by
  have hstart : ∑ i, (State.new : State env).flowCounts i ≤ maxFlowsTotal + env.shardCount := by
    have hzero : ∑ i, (State.new : State env).flowCounts i = 0 :=
      Finset.sum_eq_zero fun _ _ => rfl
    rw [hzero]
    exact Nat.zero_le _
  exact ((capContract_sound env).run h (Contract.Sound.good_initial hstart fun _ => trivial)).1

/-- A test for `Published`. -/
def published : System.Test (pathSystem sampleEnv)
  | _, .loop j .countLoad, s => decide (s.flowCounts j ≤ (s.loops j).flowCount)
  | _, _, _ => true

theorem published_of_passes {w : World sampleEnv} {e : Event sampleEnv}
    (h : System.Passes published w e) : Published w e := by
  unfold Published
  split
  · exact of_decide_eq_true h
  · trivial

/-- The number of flows is published between two client packets that open flows. -/
theorem flow_cap_holds_sample :
    ∃ c, (pathSystem sampleEnv).Run Published sampleStart c ∧
      (c.st.loops onlyShard).tables.flows.size = 2 ∧
      ∑ k, (c.st.loops k).tables.flows.size ≤ maxFlowsTotal + sampleEnv.shardCount := by
  obtain ⟨c, hrun, hc⟩ := (reaches_sampleStart published).follow
    [.start (.rx (.packet (sampleInbound 1 0) .new)), .fire .rx 10,
      .start (.round onlyShard { sampleRound [tokenWake] with cleanupAt := some 0 }),
      .fire (.shard onlyShard) 40,
      .start (.rx (.packet (sampleInbound 1 1) .new)), .fire .rx 10,
      .start (.round onlyShard (sampleRound [tokenWake])), .fire (.shard onlyShard) 40]
    (by decide +kernel)
  have hrun := hrun.mono fun _ _ => published_of_passes
  have hsize : (c.st.loops onlyShard).tables.flows.size = 2 := by
    rw [hc.1]
    decide +kernel
  exact ⟨c, hrun, hsize, flow_cap_holds hrun⟩

end SwiftRelay.Datapath
