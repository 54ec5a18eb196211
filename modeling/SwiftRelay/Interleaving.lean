/-
**Runs of interleaved threads.**

Threads take turns at the granularity of single operations.  A configuration holds the shared state,
the rest of the program of each thread, and the *history*: the activations and the operations
performed so far, the most recent first, each operation with the states around it.  The history is
what statements about "earlier", "in between" and "the last" refer to.

A *run* is a sequence of steps that all meet a condition; a run under the condition that is always
met is any run at all.

Main definitions:

* `Conc.System.Event`, `Conc.System.World`, `Conc.System.Config` — what happened; state and history;
  a configuration;
* `Conc.System.Step`, `Conc.System.Run` — one step; the steps of a run;
* `Conc.System.lastAct`, `Conc.System.opsSince`, `Conc.System.lastOp`, `Conc.System.lastAnswer` —
  what a thread is busy with, what it has done about that so far, and what it did last;
* `Conc.System.fire`, `Conc.System.activate`, `Conc.System.follow` — a run computed from a schedule;
* `Conc.System.Config.replay` — the same with the history.

Main results:

* `Conc.System.run_of_follow`, `Conc.System.Reaches.follow`, `Conc.System.Reaches.step`,
  `Conc.System.Config.run_of_replay` — what a schedule computes is a run;
* `Conc.System.Config.ctl_of_replay` — a schedule leaves alone the threads that it does not mention;
* `Conc.System.Run.mono` — weakening the condition on the steps;
* `Conc.System.Run.split`, `Conc.System.Run.of_start`, `Conc.System.Run.uses_lastAct` — a run split
  at an event of its history; a run from its first activation; what a busy thread has still to do.
-/

import Mathlib.Logic.Relation
import SwiftRelay.Program

set_option autoImplicit false

namespace Conc

variable {S : Signature}

namespace System

/-- An activation, or an operation with its answer and the states before and after it. -/
inductive Event (M : System S)
  | start (a : M.Act)
  | exec (t : M.Tid) (o : S.Op) (r : S.Ret o) (pre post : M.State)

/-- The shared state with the history, most recent event first. -/
structure World (M : System S) where
  st : M.State
  hist : List M.Event

/-- A configuration: a world, and what each thread has still to do. -/
structure Config (M : System S) extends World M where
  ctl : M.Tid → Prog S Unit

variable (M : System S)

namespace World

variable {M}

/-- The world after an activation. -/
def begin (w : M.World) (a : M.Act) : M.World := ⟨w.st, .start a :: w.hist⟩

/-- The world after an operation. -/
def after (w : M.World) (t : M.Tid) (o : S.Op) (r : S.Ret o) (st : M.State) : M.World :=
  ⟨st, .exec t o r w.st st :: w.hist⟩

@[simp] theorem begin_st (w : M.World) (a : M.Act) : (w.begin a).st = w.st := rfl

@[simp] theorem begin_hist (w : M.World) (a : M.Act) :
    (w.begin a).hist = .start a :: w.hist := rfl

@[simp] theorem after_st (w : M.World) (t : M.Tid) (o : S.Op) (r : S.Ret o) (st : M.State) :
    (w.after t o r st).st = st := rfl

@[simp] theorem after_hist (w : M.World) (t : M.Tid) (o : S.Op) (r : S.Ret o) (st : M.State) :
    (w.after t o r st).hist = .exec t o r w.st st :: w.hist := rfl

end World

/-- All threads idle and nothing done yet. -/
def initial (s : M.State) : M.Config := ⟨⟨s, []⟩, fun _ => .ret ()⟩

variable [DecidableEq M.Tid]

/-- One step: an idle thread is activated, or a thread performs its next operation. -/
inductive Step : M.Config → M.Event → M.Config → Prop
  | start (c : M.Config) (a : M.Act) (hidle : c.ctl (M.tidOf a) = .ret ()) :
      Step c (.start a)
        ⟨c.toWorld.begin a, Function.update c.ctl (M.tidOf a) (M.prog a)⟩
  | exec (c : M.Config) (t : M.Tid) (o : S.Op) (k : S.Ret o → Prog S Unit) (r : S.Ret o)
      (st : M.State) (hctl : c.ctl t = .op o k) (hexec : M.exec t o c.st = some (r, st)) :
      Step c (.exec t o r c.st st)
        ⟨c.toWorld.after t o r st, Function.update c.ctl t (k r)⟩

/-- A sequence of steps that all meet the condition `cond` on the world before the step and on what
happens in it. -/
def Run (cond : M.World → M.Event → Prop) : M.Config → M.Config → Prop :=
  Relation.ReflTransGen fun c c' => ∃ e, cond c.toWorld e ∧ M.Step c e c'

/-- Any sequence of steps. -/
abbrev Steps : M.Config → M.Config → Prop := M.Run fun _ _ => True

variable {M} {cond : M.World → M.Event → Prop} {c c' : M.Config}

theorem Run.mono {cond' : M.World → M.Event → Prop} (hcond : ∀ w e, cond w e → cond' w e)
    (h : M.Run cond c c') : M.Run cond' c c' := by
  induction h with
  | refl => exact Relation.ReflTransGen.refl
  | tail _ hstep ih =>
      obtain ⟨e, he, hstep⟩ := hstep
      exact ih.tail ⟨e, hcond _ e he, hstep⟩

theorem Run.steps (h : M.Run cond c c') : M.Steps c c' :=
  h.mono fun _ _ _ => trivial

/-! ### Reading the history -/

/-- The last activation of thread `t`. -/
def lastAct (t : M.Tid) (hist : List M.Event) : Option M.Act :=
  hist.findSome? fun
    | .start a => if M.tidOf a = t then some a else none
    | .exec .. => none

/-- The operations of thread `t` since its last activation, most recent first. -/
def opsSince (t : M.Tid) : List M.Event → List M.Event
  | [] => []
  | .start a :: hist => if M.tidOf a = t then [] else opsSince t hist
  | .exec u o r pre post :: hist =>
      if u = t then .exec u o r pre post :: opsSince t hist else opsSince t hist

/-- The operation that thread `t` performed last. -/
def lastOp (t : M.Tid) (hist : List M.Event) : Option S.Op :=
  hist.findSome? fun
    | .start _ => none
    | .exec u o _ _ _ => if u = t then some o else none

/-- The operation that thread `t` performed last, with its answer. -/
def lastAnswer (t : M.Tid) (hist : List M.Event) : Option (Σ o : S.Op, S.Ret o) :=
  hist.findSome? fun
    | .start _ => none
    | .exec u o r _ _ => if u = t then some ⟨o, r⟩ else none

section History

variable {t u : M.Tid} {hist : List M.Event} {a : M.Act}

@[simp] theorem lastAct_start_self : lastAct (M.tidOf a) (.start a :: hist) = some a := by
  simp [lastAct]

theorem lastAct_start_of_ne (h : M.tidOf a ≠ t) :
    lastAct t (.start a :: hist) = lastAct t hist := by
  simp [lastAct, h]

variable {o : S.Op} {r : S.Ret o} {pre post : M.State}

@[simp] theorem lastAct_exec : lastAct t (.exec u o r pre post :: hist) = lastAct t hist := by
  simp [lastAct]

@[simp] theorem opsSince_start_self : opsSince (M.tidOf a) (.start a :: hist) = [] := by
  simp [opsSince]

theorem opsSince_start_of_ne (h : M.tidOf a ≠ t) :
    opsSince t (.start a :: hist) = opsSince t hist := by
  simp [opsSince, h]

@[simp] theorem opsSince_exec_self :
    opsSince t (.exec t o r pre post :: hist) = .exec t o r pre post :: opsSince t hist := by
  simp [opsSince]

theorem opsSince_exec_of_ne (h : u ≠ t) :
    opsSince t (.exec u o r pre post :: hist) = opsSince t hist := by
  simp [opsSince, h]

@[simp] theorem lastOp_start : lastOp t (.start a :: hist) = lastOp t hist := by
  simp [lastOp]

@[simp] theorem lastOp_exec_self : lastOp t (.exec t o r pre post :: hist) = some o := by
  simp [lastOp]

theorem lastOp_exec_of_ne (h : u ≠ t) :
    lastOp t (.exec u o r pre post :: hist) = lastOp t hist := by
  simp [lastOp, h]

@[simp] theorem lastAnswer_start : lastAnswer t (.start a :: hist) = lastAnswer t hist := by
  simp [lastAnswer]

@[simp] theorem lastAnswer_exec_self :
    lastAnswer t (.exec t o r pre post :: hist) = some ⟨o, r⟩ := by
  simp [lastAnswer]

theorem lastAnswer_exec_of_ne (h : u ≠ t) :
    lastAnswer t (.exec u o r pre post :: hist) = lastAnswer t hist := by
  simp [lastAnswer, h]

theorem mem_of_mem_opsSince {e : M.Event} (h : e ∈ opsSince t hist) : e ∈ hist := by
  induction hist with
  | nil => cases h
  | cons e' hist ih =>
      cases e' with
      | start a =>
          simp only [opsSince] at h
          split at h
          · cases h
          · exact List.mem_cons_of_mem _ (ih h)
      | exec u o r pre post =>
          simp only [opsSince] at h
          split at h
          · rcases List.mem_cons.1 h with rfl | h
            · exact List.mem_cons_self
            · exact List.mem_cons_of_mem _ (ih h)
          · exact List.mem_cons_of_mem _ (ih h)

end History

/-! ### The history of a run -/

section Past

variable {e : M.Event}

theorem Step.hist_eq (h : M.Step c e c') : c'.hist = e :: c.hist := by
  cases h <;> rfl

theorem Run.exists_hist_eq (h : M.Run cond c c') : ∃ l, c'.hist = l ++ c.hist := by
  induction h with
  | refl => exact ⟨[], rfl⟩
  | tail _ hstep ih =>
      obtain ⟨l, hl⟩ := ih
      obtain ⟨e, -, hstep⟩ := hstep
      exact ⟨e :: l, by rw [hstep.hist_eq, hl, List.cons_append]⟩

/-- What a run added to the history happened in a step of it. -/
theorem Run.split (h : M.Run cond c c') {l : List M.Event} (hl : c'.hist = l ++ c.hist)
    (he : e ∈ l) :
    ∃ d d', M.Run cond c d ∧ cond d.toWorld e ∧ M.Step d e d' ∧ M.Run cond d' c' := by
  induction h generalizing l with
  | refl =>
      rw [List.append_cancel_right (hl.symm.trans (List.nil_append _).symm)] at he
      cases he
  | @tail b b' hrun hstep ih =>
      obtain ⟨l', hl'⟩ := Run.exists_hist_eq hrun
      obtain ⟨e', hcond, hstep⟩ := hstep
      have hcons : l = e' :: l' := by
        rw [hstep.hist_eq, hl', ← List.cons_append] at hl
        exact (List.append_cancel_right hl).symm
      rw [hcons] at he
      rcases List.mem_cons.1 he with rfl | he
      · exact ⟨b, b', hrun, hcond, hstep, Relation.ReflTransGen.refl⟩
      · obtain ⟨d, d', hcd, hcond', hdd', hd'b⟩ := ih hl' he
        exact ⟨d, d', hcd, hcond', hdd', hd'b.tail ⟨e', hcond, hstep⟩⟩

/-- What a thread has done since its last activation, it had done before the run or does in a step
that meets the condition. -/
theorem Run.cond_of_opsSince (h : M.Run cond c c') {t : M.Tid} (he : e ∈ opsSince t c'.hist) :
    e ∈ opsSince t c.hist ∨ ∃ w, cond w e := by
  induction h with
  | refl => exact .inl he
  | tail _ hstep ih =>
      obtain ⟨e', hcond, hstep⟩ := hstep
      rw [hstep.hist_eq] at he
      cases e' with
      | start a =>
          simp only [opsSince] at he
          split at he
          · cases he
          · exact ih he
      | exec u o r pre post =>
          simp only [opsSince] at he
          split at he
          · rcases List.mem_cons.1 he with rfl | he
            · exact .inr ⟨_, hcond⟩
            · exact ih he
          · exact ih he

theorem Run.of_start {a : M.Act} (hidle : c.ctl (M.tidOf a) = .ret ())
    (ha : cond c.toWorld (.start a))
    (h : M.Run cond ⟨c.toWorld.begin a, Function.update c.ctl (M.tidOf a) (M.prog a)⟩ c') :
    M.Run cond c c' ∧ ∃ l, c'.hist = l ++ c.hist ∧ .start a ∈ l := by
  obtain ⟨l, hl⟩ := h.exists_hist_eq
  refine ⟨h.head ⟨_, ha, .start c a hidle⟩, l ++ [.start a], ?_, by simp⟩
  rw [hl, World.begin_hist, List.append_assoc, List.singleton_append]

/-- A thread that is busy has still to perform operations of the program that it was activated
with. -/
theorem Run.uses_lastAct {φ : M.Act → S.Op → Prop} (hφ : ∀ a, (M.prog a).Uses (φ a)) {s : M.State}
    (h : M.Run cond (M.initial s) c) (t : M.Tid) :
    c.ctl t = .ret () ∨ ∃ a, lastAct t c.hist = some a ∧ (c.ctl t).Uses (φ a) := by
  induction h with
  | refl => exact .inl rfl
  | tail _ hstep ih =>
      obtain ⟨e, -, hstep⟩ := hstep
      cases hstep with
      | start a hidle =>
          by_cases ht : t = M.tidOf a
          · subst ht
            refine .inr ⟨a, lastAct_start_self, ?_⟩
            simpa only [Function.update_self] using hφ a
          · simpa only [World.begin_hist, lastAct_start_of_ne (Ne.symm ht),
              Function.update_of_ne ht] using ih
      | exec u o k r st hctl hexec =>
          simp only [World.after_hist, lastAct_exec]
          by_cases ht : t = u
          · subst ht
            obtain hidle | ⟨a, ha, huses⟩ := ih
            · rw [hctl] at hidle
              cases hidle
            · rw [hctl] at huses
              simpa only [Function.update_self] using Or.inr ⟨a, ha, huses.2 r⟩
          · simpa only [Function.update_of_ne ht] using ih

end Past

/-! ### Computing a run

What the threads do depends on the state alone, not on the history. -/

variable (M)

/-- What a schedule asks for: an activation, or up to `n` operations of one thread. -/
inductive Turn
  | start (a : M.Act)
  | fire (t : M.Tid) (n : ℕ)

/-- The thread that a turn is about. -/
def Turn.tid : M.Turn → M.Tid
  | .start a => M.tidOf a
  | .fire t _ => t

/-- The state, and what each thread has still to do. -/
abbrev Snapshot := M.State × (M.Tid → Prog S Unit)

variable {M}

/-- A condition on the operations of a run that can be tested: who performs what in which state. -/
abbrev Test (M : System S) := M.Tid → S.Op → M.State → Bool

/-- The test that everything passes. -/
def free : Test M := fun _ _ _ => true

/-- The operation in a step passes a test. -/
def Passes (ok : Test M) (w : M.World) : M.Event → Prop
  | .start _ => True
  | .exec t o _ _ _ => ok t o w.st = true

variable (ok : Test M)

/-- Up to `n` operations of thread `t` that pass the test. -/
def fire (t : M.Tid) : ℕ → M.Snapshot → Option M.Snapshot
  | 0, x => some x
  | n + 1, x =>
      match x.2 t with
      | .ret _ => some x
      | .op o k =>
          if ok t o x.1 then
            (M.exec t o x.1).bind fun r => fire t n (r.2, Function.update x.2 t (k r.1))
          else none

/-- An activation. -/
def activate (a : M.Act) (x : M.Snapshot) : Option M.Snapshot :=
  match x.2 (M.tidOf a) with
  | .ret _ => some (x.1, Function.update x.2 (M.tidOf a) (M.prog a))
  | .op _ _ => none

/-- What a schedule leads to. -/
def follow : List M.Turn → M.Snapshot → Option M.Snapshot
  | [], x => some x
  | .start a :: turns, x => (activate a x).bind (follow turns)
  | .fire t n :: turns, x => (fire ok t n x).bind (follow turns)

/-- What a schedule leads to, if it can be followed. -/
def outcome (turns : List M.Turn) (x : M.Snapshot) : M.Snapshot := (follow ok turns x).getD x

/-- The configuration is described by the snapshot. -/
def Config.Shows (c : M.Config) (x : M.Snapshot) : Prop := c.st = x.1 ∧ c.ctl = x.2

/-- Some run from `c` whose operations pass the test ends as the snapshot says. -/
def Reaches (c : M.Config) (x : M.Snapshot) : Prop := ∃ c', M.Run (Passes ok) c c' ∧ c'.Shows x

variable {ok} {x y : M.Snapshot}

theorem run_of_fire {t : M.Tid} {n : ℕ} (hc : c.Shows x)
    (h : fire ok t n x = some y) :
    ∃ c', M.Run (Passes ok) c c' ∧ c'.Shows y ∧ lastAct t c'.hist = lastAct t c.hist := by
  induction n generalizing c x with
  | zero =>
      cases h
      exact ⟨c, Relation.ReflTransGen.refl, hc, rfl⟩
  | succ n ih =>
      simp only [fire] at h
      split at h
      · cases h
        exact ⟨c, Relation.ReflTransGen.refl, hc, rfl⟩
      · next o k hctl =>
          split at h
          · next hok =>
              obtain ⟨⟨r, st⟩, hexec, hrest⟩ := Option.bind_eq_some_iff.1 h
              rw [← hc.2] at hctl hrest
              rw [← hc.1] at hexec hok
              obtain ⟨c', hrun, hc', hact⟩ :=
                ih (c := ⟨c.toWorld.after t o r st, Function.update c.ctl t (k r)⟩) ⟨rfl, rfl⟩ hrest
              exact ⟨c', hrun.head ⟨.exec t o r c.st st, hok, .exec c t o k r st hctl hexec⟩, hc',
                hact.trans lastAct_exec⟩
          · cases h

theorem run_of_activate {a : M.Act} (hc : c.Shows x) (h : activate a x = some y) :
    ∃ c', M.Run (Passes ok) c c' ∧ c'.Shows y ∧ c'.hist = .start a :: c.hist := by
  unfold activate at h
  split at h
  · next u hctl =>
      cases h
      rw [← hc.2] at hctl
      refine ⟨⟨c.toWorld.begin a, Function.update c.ctl (M.tidOf a) (M.prog a)⟩,
        Relation.ReflTransGen.single ⟨.start a, trivial, .start c a hctl⟩, ⟨hc.1, ?_⟩, rfl⟩
      rw [← hc.2]
  · cases h

theorem run_of_follow {turns : List M.Turn} (hc : c.Shows x)
    (h : follow ok turns x = some y) : ∃ c', M.Run (Passes ok) c c' ∧ c'.Shows y := by
  induction turns generalizing c x with
  | nil =>
      cases h
      exact ⟨c, Relation.ReflTransGen.refl, hc⟩
  | cons turn turns ih =>
      cases turn with
      | start a =>
          obtain ⟨z, hz, hrest⟩ := Option.bind_eq_some_iff.1 h
          obtain ⟨d, hd, hshows, -⟩ := run_of_activate hc hz
          obtain ⟨c', hc', hy⟩ := ih hshows hrest
          exact ⟨c', hd.trans hc', hy⟩
      | fire t n =>
          obtain ⟨z, hz, hrest⟩ := Option.bind_eq_some_iff.1 h
          obtain ⟨d, hd, hshows, -⟩ := run_of_fire hc hz
          obtain ⟨c', hc', hy⟩ := ih hshows hrest
          exact ⟨c', hd.trans hc', hy⟩

theorem Reaches.follow (h : Reaches ok c x) (turns : List M.Turn)
    (hturns : (follow ok turns x).isSome = true) : Reaches ok c (outcome ok turns x) := by
  obtain ⟨c₁, hrun₁, hc₁⟩ := h
  obtain ⟨y, hy⟩ := Option.isSome_iff_exists.1 hturns
  obtain ⟨c₂, hrun₂, hc₂⟩ := run_of_follow hc₁ hy
  refine ⟨c₂, hrun₁.trans hrun₂, ?_⟩
  rwa [outcome, hy]

/-- A thread is activated and performs up to `n` operations, which pass a test of their own. -/
theorem Reaches.pass (h : Reaches ok c x) (a : M.Act) (n : ℕ) (ok' : Test M)
    (hpass : (System.follow ok' [.start a, .fire (M.tidOf a) n] x).isSome = true) :
    ∃ c', M.Steps c c' ∧ c'.Shows (outcome ok' [.start a, .fire (M.tidOf a) n] x) ∧
      lastAct (M.tidOf a) c'.hist = some a ∧
      ∀ e ∈ opsSince (M.tidOf a) c'.hist, ∃ w, Passes ok' w e := by
  obtain ⟨c₀, hrun₀, hc₀⟩ := h
  obtain ⟨z, hz⟩ := Option.isSome_iff_exists.1 hpass
  obtain ⟨y, hy, hrest⟩ := Option.bind_eq_some_iff.1 hz
  obtain ⟨_, hfire, hlast⟩ := Option.bind_eq_some_iff.1 hrest
  cases hlast
  have hbegun : ∃ c', M.Run (Passes ok') c₀ c' ∧ c'.Shows y ∧ c'.hist = .start a :: c₀.hist :=
    run_of_activate hc₀ hy
  obtain ⟨c₁, hrun₁, hc₁, hhist⟩ := hbegun
  obtain ⟨c₂, hrun₂, hc₂, hact⟩ := run_of_fire hc₁ hfire
  refine ⟨c₂, hrun₀.steps.trans (hrun₁.steps.trans hrun₂.steps), ?_, ?_, fun e he => ?_⟩
  · rwa [outcome, hz]
  · rw [hact, hhist, lastAct_start_self]
  · refine (hrun₂.cond_of_opsSince he).resolve_left ?_
    rw [hhist, opsSince_start_self]
    exact List.not_mem_nil

/-- Thread `t` can perform its next operation, which is as asked for. -/
def ready (t : M.Tid) (asked : S.Op → Bool) (x : M.Snapshot) : Bool :=
  match x.2 t with
  | .ret _ => false
  | .op o _ => asked o && (M.exec t o x.1).isSome

theorem Config.Shows.step (hc : c.Shows x) (t : M.Tid) (asked : S.Op → Bool)
    (hready : ready t asked x = true) :
    ∃ o r st c', asked o = true ∧ M.Step c (.exec t o r c.st st) c' ∧
      c'.Shows (outcome free [.fire t 1] x) := by
  unfold ready at hready
  split at hready
  · cases hready
  · next o k hctl =>
      obtain ⟨hasked, hsome⟩ := Bool.and_eq_true_iff.1 hready
      obtain ⟨⟨r, st⟩, hexec⟩ := Option.isSome_iff_exists.1 hsome
      have hstep : M.Step c (.exec t o r c.st st)
          ⟨c.toWorld.after t o r st, Function.update c.ctl t (k r)⟩ :=
        .exec c t o k r st (by rw [hc.2, hctl]) (by rw [hc.1, hexec])
      refine ⟨o, r, st, _, hasked, hstep, ?_⟩
      simp only [outcome, follow, fire, free, if_true, hctl, hexec, Option.bind_some,
        Option.getD_some]
      exact ⟨rfl, by rw [hc.2]⟩

theorem Reaches.step {c₀ : M.Config} (h : Reaches ok c₀ x) (t : M.Tid) (asked : S.Op → Bool)
    (hready : ready t asked x = true) :
    ∃ c o r st c', M.Run (Passes ok) c₀ c ∧ asked o = true ∧ M.Step c (.exec t o r c.st st) c' ∧
      c'.Shows (outcome free [.fire t 1] x) := by
  obtain ⟨c, hrun, hc⟩ := h
  obtain ⟨o, r, st, c', hstep⟩ := hc.step t asked hready
  exact ⟨c, o, r, st, c', hrun, hstep⟩

/-- Thread `t` has nothing to do. -/
def idle (t : M.Tid) (x : M.Snapshot) : Bool :=
  match x.2 t with
  | .ret _ => true
  | .op _ _ => false

omit [DecidableEq M.Tid] in
theorem ctl_of_idle {t : M.Tid} (h : idle t x = true) : x.2 t = .ret () := by
  unfold idle at h
  split at h
  · next hctl => exact hctl
  · cases h

/-! ### Computing a run with its history

For statements about what happened in a run, and for conditions on the history. -/

namespace Config

variable (allowed : M.World → M.Event → Bool)

/-- The next operation of thread `t`, if it has one. -/
def advance (t : M.Tid) (c : M.Config) : Option M.Config :=
  match c.ctl t with
  | .ret _ => some c
  | .op o k =>
      (M.exec t o c.st).bind fun r =>
        if allowed c.toWorld (.exec t o r.1 c.st r.2) then
          some ⟨c.toWorld.after t o r.1 r.2, Function.update c.ctl t (k r.1)⟩
        else none

/-- Up to `n` operations of thread `t`. -/
def advances (t : M.Tid) : ℕ → M.Config → Option M.Config
  | 0, c => some c
  | n + 1, c => (advance allowed t c).bind (advances t n)

/-- What a schedule leads to. -/
def replay : List M.Turn → M.Config → Option M.Config
  | [], c => some c
  | .start a :: turns, c =>
      match c.ctl (M.tidOf a) with
      | .ret _ =>
          if allowed c.toWorld (.start a) then
            replay turns ⟨c.toWorld.begin a, Function.update c.ctl (M.tidOf a) (M.prog a)⟩
          else none
      | .op _ _ => none
  | .fire t n :: turns, c => (advances allowed t n c).bind (replay turns)

variable {allowed}

theorem run_of_advance {t : M.Tid} (h : advance allowed t c = some c') :
    M.Run (fun w e => allowed w e = true) c c' := by
  unfold advance at h
  split at h
  · cases h
    exact Relation.ReflTransGen.refl
  · next o k hctl =>
      obtain ⟨⟨r, st⟩, hexec, hrest⟩ := Option.bind_eq_some_iff.1 h
      split at hrest
      · next hallowed =>
          cases hrest
          exact Relation.ReflTransGen.single ⟨_, hallowed, .exec c t o k r st hctl hexec⟩
      · cases hrest

theorem run_of_advances {t : M.Tid} {n : ℕ} (h : advances allowed t n c = some c') :
    M.Run (fun w e => allowed w e = true) c c' := by
  induction n generalizing c with
  | zero =>
      cases h
      exact Relation.ReflTransGen.refl
  | succ n ih =>
      obtain ⟨d, hd, hrest⟩ := Option.bind_eq_some_iff.1 h
      exact (run_of_advance hd).trans (ih hrest)

theorem run_of_replay {turns : List M.Turn} (h : replay allowed turns c = some c') :
    M.Run (fun w e => allowed w e = true) c c' := by
  induction turns generalizing c with
  | nil =>
      cases h
      exact Relation.ReflTransGen.refl
  | cons turn turns ih =>
      cases turn with
      | start a =>
          simp only [replay] at h
          split at h
          · next u hctl =>
              split at h
              · next hallowed =>
                  exact (ih h).head ⟨.start a, hallowed, .start c a hctl⟩
              · cases h
          · cases h
      | fire t n =>
          obtain ⟨d, hd, hrest⟩ := Option.bind_eq_some_iff.1 h
          exact (run_of_advances hd).trans (ih hrest)

theorem ctl_of_advances {t u : M.Tid} {n : ℕ} (h : advances allowed t n c = some c') (hne : u ≠ t) :
    c'.ctl u = c.ctl u := by
  induction n generalizing c with
  | zero =>
      cases h
      rfl
  | succ n ih =>
      obtain ⟨d, hd, hrest⟩ := Option.bind_eq_some_iff.1 h
      refine (ih hrest).trans ?_
      unfold advance at hd
      split at hd
      · cases hd
        rfl
      · obtain ⟨r, -, hd⟩ := Option.bind_eq_some_iff.1 hd
        split at hd
        · cases hd
          exact Function.update_of_ne hne _ _
        · cases hd

/-- A schedule leaves alone the threads that it does not mention. -/
theorem ctl_of_replay {turns : List M.Turn} {u : M.Tid} (h : replay allowed turns c = some c')
    (hne : ∀ turn ∈ turns, u ≠ turn.tid) : c'.ctl u = c.ctl u := by
  induction turns generalizing c with
  | nil =>
      cases h
      rfl
  | cons turn turns ih =>
      obtain ⟨hturn, hturns⟩ := List.forall_mem_cons.1 hne
      cases turn with
      | start a =>
          simp only [replay] at h
          split at h
          · split at h
            · exact (ih h hturns).trans (Function.update_of_ne hturn _ _)
            · cases h
          · cases h
      | fire t n =>
          obtain ⟨d, hd, hrest⟩ := Option.bind_eq_some_iff.1 h
          exact (ih hrest hturns).trans (ctl_of_advances hd hturn)

end Config

end System

end Conc
