/-
**Addresses on the TUN device.**

Packets of different sessions share one TUN device and are told apart there by address: each session
is given an address of `10.200.0.0/16`.  Two maps hold the assignment, `session_to_ip` and
`ip_to_session`.  The writer thread extends them in this order, one map operation at a time; the
cleanup task removes the entries of sessions that are gone in the opposite order, while it holds the
lock of a shard of the first map.

In between, the maps disagree.  They do so in two ways only, which the invariant names: the writer
has inserted an address and not yet claimed it, or the cleanup has given up an address and not yet
erased it.  Since only the writer adds to `ip_to_session`, what it found free stays free.

Main definitions:

* `TunOp`, `execTun`, `tunSystem` — the operations and the two threads;
* `assignSessionIp`, `tunWriterPass`, `removeExpired` — their programs;
* `TunInv`, `tunContract` — the invariant and the contract.

Main results:

* `execTun_sessionToIp`, `execTun_owner` — everything that an operation can do to the two maps;
* `tunContract_sound` — the contract holds;
* `tun_addresses_isolated` — no two sessions share an address.
-/

import SwiftRelay.Contract
import SwiftRelay.Shared
import SwiftRelay.TunRewrite

set_option autoImplicit false

namespace SwiftRelay

open Conc

/-! ### Operations and state -/

/-- The shards of `session_to_ip`, and the randomly keyed hash that picks the shard of a key. -/
structure TunEnv where
  shards : ℕ
  shardOf : SessionId → ℕ
  shardOf_lt : ∀ sid, shardOf sid < shards

/-- What is stored under the TUN address of a session. -/
structure SessionMapping where
  sessionId : SessionId
  clientAddr : SocketAddr
  originalSrcIp : Ipv4Addr
  deriving DecidableEq

inductive TunTid
  | writer
  | cleanup
  deriving DecidableEq

/-- The operations on the two maps.  `ipRemove` is what the closure of `retain` does about the entry
of `sid`. -/
inductive TunOp
  | sessionGet (sid : SessionId)
  | sessionInsert (sid : SessionId) (ip : Ipv4Addr)
  | ipGet (ip : Ipv4Addr)
  | ipEntry (ip : Ipv4Addr) (mapping : SessionMapping)
  | write (packet : List UInt8)
  | retainLock (i : ℕ)
  | ipRemove (sid : SessionId) (ip : Ipv4Addr)
  | retainErase (sid : SessionId)
  | retainRelease (i : ℕ)

abbrev TunOp.Ret : TunOp → Type
  | .sessionGet _ => Option Ipv4Addr
  | .ipGet _ => Option SessionMapping
  | .ipEntry .. => Bool
  | .retainLock _ => List (SessionId × Ipv4Addr)
  | _ => Unit

abbrev tunSig : Signature := ⟨TunOp, TunOp.Ret⟩

structure TunState where
  sessionToIp : Table SessionId Ipv4Addr
  ipToSession : Table Ipv4Addr SessionMapping
  guards : ℕ → Option TunTid

namespace TunState

def new : TunState := ⟨∅, ∅, fun _ => none⟩

variable (env : TunEnv) (s : TunState)

/-- Nobody holds the lock of the shard of `sid`. -/
def unlocked (sid : SessionId) : Bool := s.guards (env.shardOf sid) = none

/-- The entries of `session_to_ip` in shard `i`. -/
def shardEntries (i : ℕ) : List (SessionId × Ipv4Addr) :=
  (s.sessionToIp.entries.map fun e => (e.1, e.2)).filter fun e => decide (env.shardOf e.1 = i)

/-- The session that an address belongs to according to `ip_to_session`. -/
def owner (ip : Ipv4Addr) : Option SessionId := (s.ipToSession.lookup ip).map (·.sessionId)

/-- The address belongs to no other session. -/
def Free (sid : SessionId) (ip : Ipv4Addr) : Prop := s.owner ip = none ∨ s.owner ip = some sid

end TunState

/-- What an operation of thread `t` answers and does; nothing if it is blocked.  `ipEntry` answers
whether the address belongs to another session. -/
def execTun (env : TunEnv) (t : TunTid) : (o : TunOp) → TunState → Option (o.Ret × TunState)
  | .sessionGet sid, s => if s.unlocked env sid then some (s.sessionToIp.lookup sid, s) else none
  | .sessionInsert sid ip, s =>
      if s.unlocked env sid then some ((), { s with sessionToIp := s.sessionToIp.insert sid ip })
      else none
  | .ipGet ip, s => some (s.ipToSession.lookup ip, s)
  | .ipEntry ip mapping, s =>
      match s.ipToSession.lookup ip with
      | none => some (false, { s with ipToSession := s.ipToSession.insert ip mapping })
      | some m =>
          if m.sessionId = mapping.sessionId then
            let m := { m with
              clientAddr := mapping.clientAddr, originalSrcIp := mapping.originalSrcIp }
            some (false, { s with ipToSession := s.ipToSession.insert ip m })
          else some (true, s)
  | .write _, s => some ((), s)
  | .retainLock i, s =>
      if s.guards i = none then
        some (s.shardEntries env i, { s with guards := Function.update s.guards i (some t) })
      else none
  | .ipRemove _ ip, s => some ((), { s with ipToSession := s.ipToSession.erase ip })
  | .retainErase sid, s =>
      if s.guards (env.shardOf sid) = some t then
        some ((), { s with sessionToIp := s.sessionToIp.erase sid })
      else none
  | .retainRelease i, s =>
      if s.guards i = some t then
        some ((), { s with guards := Function.update s.guards i none })
      else none

/-! ### Programs -/

abbrev TunProg := Prog tunSig

def tun (o : TunOp) : TunProg o.Ret := Prog.perform (S := tunSig) o

@[simp] theorem tun_eq (o : TunOp) : tun o = .op o .ret := rfl

/-- The address that a pair of bytes of the session identifier stands for, unless it is the first or
the last of the network. -/
def candidateIp (sid : SessionId) (pairIdx : ℕ) : Option Ipv4Addr :=
  let a := byteAt (sessionIdBytes sid) (pairIdx * 2)
  let b := byteAt (sessionIdBytes sid) (pairIdx * 2 + 1)
  if (a = 0 && b = 0) || (a = 255 && b = 255) then none else some ⟨10, 200, a, b⟩

/-- The first of the candidates that belongs to no other session. -/
def firstFree (sid : SessionId) : List ℕ → TunProg (Option Ipv4Addr)
  | [] => return none
  | pairIdx :: rest =>
      match candidateIp sid pairIdx with
      | none => firstFree sid rest
      | some candidate => do
          let collision := (← tun (.ipGet candidate)).any fun m => m.sessionId ≠ sid
          if !collision then return some candidate
          firstFree sid rest

def assignSessionIp (sid : SessionId) : TunProg (Option Ipv4Addr) := firstFree sid (List.range 4)

/-- The TUN address of a session, assigned if it has none. -/
def tunIpFor (sid : SessionId) : TunProg (Option Ipv4Addr) := do
  match ← tun (.sessionGet sid) with
  | some existing => return some existing
  | none =>
      match ← assignSessionIp sid with
      | none => return none
      | some ip =>
          tun (.sessionInsert sid ip)
          return some ip

/-- One round of `tun_writer_loop`. -/
def tunWriterPass (pkt : InboundTunPacket) : TunProg Unit := do
  let ipPacket := pkt.rawIpPacket
  if ipPacket.length < ipHeaderMin then return ()
  if byteAt ipPacket 0 >>> 4 ≠ 4 then return ()
  if !(protocolOf ipPacket = 6 || protocolOf ipPacket = 17) then return ()
  match ← tunIpFor pkt.sessionId with
  | none => return ()
  | some tunIp =>
      let reverseMappingCollision ←
        tun (.ipEntry tunIp ⟨pkt.sessionId, pkt.clientAddr, srcIpOf ipPacket⟩)
      if reverseMappingCollision then return ()
      tun (.write (rewriteSrcIp ipPacket tunIp))

/-- The visit of one entry. -/
def expireSession (sessionAlive : SessionId → Bool) (entry : SessionId × Ipv4Addr) :
    TunProg Unit := do
  if sessionAlive entry.1 then return ()
  tun (.ipRemove entry.1 entry.2)
  tun (.retainErase entry.1)

/-- The visit of one shard of `session_to_ip`. -/
def expireShard (sessionAlive : SessionId → Bool) (i : ℕ) : TunProg Unit := do
  let entries ← tun (.retainLock i)
  entries.forM (expireSession sessionAlive)
  tun (.retainRelease i)

def removeExpired (env : TunEnv) (sessionAlive : SessionId → Bool) : TunProg Unit :=
  (List.range env.shards).forM (expireShard sessionAlive)

/-- A packet from the channel of the writer, or a pass of the cleanup with what it is told about
each session. -/
inductive TunAct
  | packet (pkt : InboundTunPacket)
  | removeExpired (sessionAlive : SessionId → Bool)

def TunAct.tid : TunAct → TunTid
  | .packet _ => .writer
  | .removeExpired _ => .cleanup

def TunAct.prog (env : TunEnv) : TunAct → TunProg Unit
  | .packet pkt => tunWriterPass pkt
  | .removeExpired sessionAlive => SwiftRelay.removeExpired env sessionAlive

abbrev tunSystem (env : TunEnv) : System tunSig where
  State := TunState
  Tid := TunTid
  Act := TunAct
  exec := execTun env
  tidOf := TunAct.tid
  prog := TunAct.prog env

abbrev TunWorld (env : TunEnv) := (tunSystem env).World

variable {env : TunEnv}

/-! ### What the operations do -/

section Effects

variable {t : TunTid} {o : TunOp} {r : o.Ret} {s s' : TunState}

/-- An address is claimed, unless it belongs to another session. -/
theorem execTun_ipEntry {ip : Ipv4Addr} {mapping : SessionMapping} {r : Bool}
    (h : execTun env t (.ipEntry ip mapping) s = some (r, s')) :
    (s.Free mapping.sessionId ip ∧ r = false ∧
      s' = { s with ipToSession := s.ipToSession.insert ip mapping }) ∨
    (¬ s.Free mapping.sessionId ip ∧ r = true ∧ s' = s) := by
  simp only [execTun] at h
  split at h
  · next hnone =>
      cases h
      exact .inl ⟨.inl (by simp [TunState.owner, hnone]), rfl, rfl⟩
  · next m hm =>
      split at h <;> cases h
      · next hsame => exact .inl ⟨.inr (by simp [TunState.owner, hm, hsame]), rfl, by rw [hsame]⟩
      · next hother =>
          exact .inr ⟨by simpa [TunState.Free, TunState.owner, hm] using hother, rfl, rfl⟩

theorem owner_insert (ip ip' : Ipv4Addr) (mapping : SessionMapping) :
    { s with ipToSession := s.ipToSession.insert ip mapping }.owner ip' =
      if ip' = ip then some mapping.sessionId else s.owner ip' := by
  simp only [TunState.owner, Table.lookup_insert_eq]
  split <;> rfl

theorem owner_erase (ip ip' : Ipv4Addr) :
    { s with ipToSession := s.ipToSession.erase ip }.owner ip' =
      if ip' = ip then none else s.owner ip' := by
  simp only [TunState.owner, Table.lookup_erase_eq]
  split <;> rfl

/-- Everything that an operation can do to `session_to_ip`. -/
theorem execTun_sessionToIp (h : execTun env t o s = some (r, s')) :
    (∃ sid ip, o = .sessionInsert sid ip ∧ s.unlocked env sid = true ∧
      s'.sessionToIp = s.sessionToIp.insert sid ip) ∨
    (∃ sid, o = .retainErase sid ∧ s'.sessionToIp = s.sessionToIp.erase sid) ∨
    s'.sessionToIp = s.sessionToIp := by
  cases o with
  | sessionInsert sid ip =>
      obtain ⟨hfree, -, rfl⟩ := System.of_guarded h
      exact .inl ⟨sid, ip, rfl, hfree, rfl⟩
  | retainErase sid =>
      obtain ⟨-, -, rfl⟩ := System.of_guarded h
      exact .inr (.inl ⟨sid, rfl, rfl⟩)
  | sessionGet sid | retainLock i | retainRelease i =>
      obtain ⟨-, -, rfl⟩ := System.of_guarded h
      exact .inr (.inr rfl)
  | ipEntry ip mapping =>
      obtain ⟨-, -, rfl⟩ | ⟨-, -, rfl⟩ := execTun_ipEntry h <;> exact .inr (.inr rfl)
  | _ => cases h; exact .inr (.inr rfl)

/-- Everything that an operation can do to the owner of an address. -/
theorem execTun_owner (h : execTun env t o s = some (r, s')) :
    (∃ ip mapping, o = .ipEntry ip mapping) ∨
    (∃ sid ip, o = .ipRemove sid ip ∧
      ∀ ip', s'.owner ip' = if ip' = ip then none else s.owner ip') ∨
    s'.owner = s.owner := by
  cases o with
  | ipEntry ip mapping => exact .inl ⟨ip, mapping, rfl⟩
  | ipRemove sid ip =>
      cases h
      exact .inr (.inl ⟨sid, ip, rfl, owner_erase ip⟩)
  | ipGet ip | write packet => cases h; exact .inr (.inr rfl)
  | _ =>
      obtain ⟨-, -, rfl⟩ := System.of_guarded h
      exact .inr (.inr rfl)

theorem execTun_ipGet {ip : Ipv4Addr} {r : Option SessionMapping}
    (h : execTun env t (.ipGet ip) s = some (r, s')) :
    r.map (·.sessionId) = s.owner ip ∧ s' = s := by
  cases h
  exact ⟨rfl, rfl⟩

theorem TunState.of_mem_shardEntries {i : ℕ} {e : SessionId × Ipv4Addr}
    (h : e ∈ s.shardEntries env i) :
    env.shardOf e.1 = i ∧ s.sessionToIp.lookup e.1 = some e.2 := by
  obtain ⟨hmem, hshard⟩ := List.mem_filter.1 h
  obtain ⟨x, hx, rfl⟩ := List.mem_map.1 hmem
  exact ⟨by simpa using hshard, Table.lookup_eq_some_iff.2 hx⟩

theorem TunState.nodup_shardEntries (s : TunState) (i : ℕ) :
    ((s.shardEntries env i).map Prod.fst).Nodup := by
  refine List.Nodup.sublist (List.filter_sublist.map Prod.fst) ?_
  rw [List.map_map]
  exact s.sessionToIp.nodupKeys

theorem execTun_retainLock {i : ℕ} {r : List (SessionId × Ipv4Addr)}
    (h : execTun env t (.retainLock i) s = some (r, s')) :
    r = s.shardEntries env i ∧ s'.sessionToIp = s.sessionToIp ∧ s'.guards i = some t := by
  obtain ⟨-, rfl, rfl⟩ := System.of_guarded h
  exact ⟨rfl, rfl, by simp⟩

/-- The operations of the writer leave the locks alone. -/
def TunOp.ofWriter : TunOp → Prop
  | .sessionGet _ | .sessionInsert .. | .ipGet _ | .ipEntry .. | .write _ => True
  | _ => False

def TunOp.ofCleanup : TunOp → Prop
  | .retainLock _ | .ipRemove .. | .retainErase _ | .retainRelease _ => True
  | _ => False

theorem execTun_guards (ho : o.ofWriter) (h : execTun env t o s = some (r, s')) :
    s'.guards = s.guards := by
  cases o with
  | sessionGet sid | sessionInsert sid ip =>
      obtain ⟨-, -, rfl⟩ := System.of_guarded h
      rfl
  | ipGet ip | write packet => cases h; rfl
  | ipEntry ip mapping => obtain ⟨-, -, rfl⟩ | ⟨-, -, rfl⟩ := execTun_ipEntry h <;> rfl
  | _ => exact absurd ho id

end Effects

theorem wp_tun {α : Type} {C : Contract (tunSystem env)} {t : TunTid} {w : TunWorld env}
    {o : TunOp} {f : o.Ret → TunProg α} {Q : α → TunWorld env → Prop} (P : TunWorld env → Prop)
    (hP : C.Stable t P) (hw : P w) (hpre : ∀ w', C.inv w' → P w' → C.pre t o w')
    (hnext : ∀ w' (r : o.Ret) st, C.inv w' → P w' → execTun env t o w'.st = some (r, st) →
      C.cond w' (.exec t o r w'.st st) → C.wp t (f r) Q (w'.after t o r st)) :
    C.wp t (tun o >>= f) Q w :=
  Contract.wp_op P hP hw hpre hnext

/-! ### The contract -/

/-- The writer has inserted the address of a session and not yet claimed it. -/
def Assigning (w : TunWorld env) (sid : SessionId) (ip : Ipv4Addr) : Prop :=
  System.lastOp (M := tunSystem env) .writer w.hist = some (.sessionInsert sid ip)

/-- The cleanup has given up the address of a session and not yet erased it. -/
def Expiring (w : TunWorld env) (sid : SessionId) (ip : Ipv4Addr) : Prop :=
  System.lastOp (M := tunSystem env) .cleanup w.hist = some (.ipRemove sid ip)

/-- The writer is busy with the packet. -/
def Writing (w : TunWorld env) (pkt : InboundTunPacket) : Prop :=
  System.lastAct (M := tunSystem env) .writer w.hist = some (.packet pkt)

/-- Each session owns its address, apart from the sessions that a thread is just busy with. -/
structure TunInv (w : TunWorld env) : Prop where
  owned : ∀ sid ip, w.st.sessionToIp.lookup sid = some ip →
    w.st.owner ip = some sid ∨ Expiring w sid ip ∨ Assigning w sid ip
  free : ∀ sid ip, Assigning w sid ip → w.st.Free sid ip

/-- When an operation is permitted.  The writer claims the address that it inserted before anything
else, and inserts only what it found free; the cleanup erases the session whose address it gave up
before anything else. -/
def tunPre (t : TunTid) (o : TunOp) (w : TunWorld env) : Prop :=
  match t, o with
  | .writer, .ipEntry ip mapping =>
      ∀ sid' ip', Assigning w sid' ip' → sid' = mapping.sessionId ∧ ip' = ip
  | .writer, .sessionInsert sid ip => (∀ sid' ip', ¬ Assigning w sid' ip') ∧ w.st.Free sid ip
  | .writer, .write packet =>
      (∀ sid' ip', ¬ Assigning w sid' ip') ∧
      ∃ pkt ip, Writing w pkt ∧ packet = rewriteSrcIp pkt.rawIpPacket ip ∧
        ipHeaderMin ≤ pkt.rawIpPacket.length ∧ w.st.Free pkt.sessionId ip
  | .writer, _ => ∀ sid' ip', ¬ Assigning w sid' ip'
  | .cleanup, .ipRemove sid ip =>
      (∀ sid' ip', ¬ Expiring w sid' ip') ∧ w.st.sessionToIp.lookup sid = some ip
  | .cleanup, .retainErase sid => ∀ sid' ip', Expiring w sid' ip' → sid' = sid
  | .cleanup, _ => ∀ sid' ip', ¬ Expiring w sid' ip'

/-- An idle thread has left nothing half done. -/
def tunPost (t : TunTid) (w : TunWorld env) : Prop :=
  match t with
  | .writer => ∀ sid ip, ¬ Assigning w sid ip
  | .cleanup => ∀ sid ip, ¬ Expiring w sid ip

def tunContract (env : TunEnv) : Contract (tunSystem env) where
  cond _ _ := True
  inv := TunInv
  may t o := match t with
    | .writer => o.ofWriter
    | .cleanup => o.ofCleanup
  pre := tunPre
  post := tunPost

section Stability

variable {w w' : TunWorld env}

theorem stable_lastOp (t : TunTid) (φ : Option TunOp → Prop) :
    (tunContract env).Stable t fun w => φ (System.lastOp (M := tunSystem env) t w.hist) :=
  Contract.Stable.lastOp (C := tunContract env) (t := t) φ

theorem stable_writing (pkt : InboundTunPacket) :
    (tunContract env).Stable .writer fun w => Writing w pkt :=
  Contract.Stable.lastAct (C := tunContract env) (t := TunTid.writer)
    fun a => a = some (TunAct.packet pkt)

/-- What the writer found free stays free: only the writer claims addresses. -/
theorem stable_free (sid : SessionId) (ip : Ipv4Addr) :
    (tunContract env).Stable .writer fun w => w.st.Free sid ip := by
  refine .of_exec (fun _ _ h => h) fun w u o r st hne _ hmay _ hexec _ hw => ?_
  change st.owner ip = none ∨ st.owner ip = some sid
  cases u with
  | writer => exact absurd rfl hne
  | cleanup =>
      rcases execTun_owner hexec with ⟨ip', mapping, rfl⟩ | ⟨sid', ip', rfl, howner⟩ | howner
      · exact absurd hmay id
      · rw [howner]
        split
        · exact Or.inl rfl
        · exact hw
      · rwa [howner]

/-- The writer does not touch a shard that the cleanup holds. -/
theorem stable_locked_entry (i : ℕ) (entries : List (SessionId × Ipv4Addr)) :
    (tunContract env).Stable .cleanup fun w =>
      w.st.guards i = some .cleanup ∧
      ∀ e ∈ entries, env.shardOf e.1 = i ∧ w.st.sessionToIp.lookup e.1 = some e.2 := by
  refine .of_exec (fun _ _ h => h) fun w u o r st hne _ hmay _ hexec _ hw => ?_
  cases u with
  | cleanup => exact absurd rfl hne
  | writer =>
      obtain ⟨hguard, hentries⟩ := hw
      refine ⟨(congrFun (execTun_guards hmay hexec) i).trans hguard, fun e he => ?_⟩
      obtain ⟨hshard, hlookup⟩ := hentries e he
      refine ⟨hshard, ?_⟩
      rw [System.World.after_st]
      rcases execTun_sessionToIp hexec with ⟨sid, ip, rfl, hfree, hs⟩ | ⟨sid, rfl, -⟩ | hs
      · have hsid : e.1 ≠ sid := by
          rintro rfl
          simp [TunState.unlocked, hshard, hguard] at hfree
        rw [hs, Table.lookup_insert_eq, if_neg hsid, hlookup]
      · exact absurd hmay id
      · rw [hs, hlookup]

end Stability

/-! ### The operations keep the invariant -/

section Invariant

variable {w : TunWorld env} {o : TunOp} {r : o.Ret} {st : TunState}

/-- While no address is being given up, no two sessions have the same one. -/
theorem TunInv.injective (hinv : TunInv w) (hidle : ∀ sid ip, ¬ Expiring w sid ip)
    {sid sid' : SessionId} {ip : Ipv4Addr} (h : w.st.sessionToIp.lookup sid = some ip)
    (h' : w.st.sessionToIp.lookup sid' = some ip) : sid' = sid := by
  -- an address that is being assigned is free, so it cannot be owned by the other session
  have hfree : ∀ {x y}, w.st.Free x ip → w.st.owner ip = some y → y = x := by
    intro x y hfree howner
    rcases hfree with hnone | hsame
    · rw [hnone] at howner
      cases howner
    · exact Option.some.inj (howner.symm.trans hsame)
  rcases hinv.owned sid ip h with howner | hexp | hass
  · rcases hinv.owned sid' ip h' with howner' | hexp' | hass'
    · exact Option.some.inj (howner'.symm.trans howner)
    · exact absurd hexp' (hidle sid' ip)
    · exact (hfree (hinv.free _ _ hass') howner).symm
  · exact absurd hexp (hidle sid ip)
  · rcases hinv.owned sid' ip h' with howner' | hexp' | hass'
    · exact hfree (hinv.free _ _ hass) howner'
    · exact absurd hexp' (hidle sid' ip)
    · cases Option.some.inj (hass'.symm.trans hass)
      rfl

/-- A step of the writer, by what it does to the maps. -/
theorem tunInv_writer (hinv : TunInv w) (hmay : o.ofWriter) (hpre : tunPre .writer o w)
    (hexec : execTun env .writer o w.st = some (r, st)) :
    TunInv (w.after .writer o r st) := by
  have hassigning : ∀ sid ip, Assigning (w.after .writer o r st) sid ip ↔
      o = .sessionInsert sid ip := by
    intro sid ip
    rw [Assigning, System.World.after_hist, System.lastOp_exec_self (M := tunSystem env),
      Option.some.injEq]
  have hexpiring : ∀ sid ip, Expiring (w.after .writer o r st) sid ip ↔ Expiring w sid ip := by
    intro sid ip
    rw [Expiring, System.World.after_hist, Expiring,
      System.lastOp_exec_of_ne (M := tunSystem env) (t := TunTid.cleanup) (u := TunTid.writer)
        nofun]
  -- most operations leave the maps alone, and the writer is not in the middle of an assignment
  have hquiet : st.sessionToIp = w.st.sessionToIp → st.owner = w.st.owner →
      (∀ sid ip, ¬ Assigning w sid ip) → (∀ sid ip, o ≠ .sessionInsert sid ip) →
      TunInv (w.after .writer o r st) := by
    intro hs howner hidle hno
    refine ⟨fun sid ip hlookup => ?_, fun sid ip hass => absurd ((hassigning _ _).1 hass) (hno _ _)⟩
    rw [System.World.after_st, hs] at hlookup
    rw [System.World.after_st, howner, hexpiring]
    rcases hinv.owned sid ip hlookup with h | h | h
    · exact Or.inl h
    · exact Or.inr (Or.inl h)
    · exact absurd h (hidle sid ip)
  cases o with
  | sessionGet sid =>
      obtain ⟨-, rfl, rfl⟩ := System.of_guarded hexec
      exact hquiet rfl rfl hpre (by simp)
  | ipGet ip =>
      cases hexec
      exact hquiet rfl rfl hpre (by simp)
  | write packet =>
      cases hexec
      exact hquiet rfl rfl hpre.1 (by simp)
  | sessionInsert sid ip =>
      obtain ⟨hidle, hfree⟩ := hpre
      obtain ⟨-, rfl, rfl⟩ := System.of_guarded hexec
      refine ⟨fun sid' ip' hlookup => ?_, fun sid' ip' hass => ?_⟩
      · rw [System.World.after_st, Table.lookup_insert_eq] at hlookup
        rw [hexpiring, hassigning]
        split at hlookup
        · next hsid =>
            cases hlookup
            exact Or.inr (Or.inr (by rw [hsid]))
        · rcases hinv.owned sid' ip' hlookup with h | h | h
          · exact Or.inl h
          · exact Or.inr (Or.inl h)
          · exact absurd h (hidle sid' ip')
      · cases (hassigning _ _).1 hass
        exact hfree
  | ipEntry ip mapping =>
      rcases execTun_ipEntry hexec with ⟨hfree, -, rfl⟩ | ⟨hother, -, rfl⟩
      · refine ⟨fun sid' ip' hlookup => ?_, fun sid' ip' hass => ?_⟩
        · rw [System.World.after_st, owner_insert, hexpiring]
          rcases hinv.owned sid' ip' hlookup with h | h | h
          · left
            split
            · next hip =>
                rw [hip] at h
                rcases hfree with hnone | hsame
                · rw [hnone] at h
                  cases h
                · rw [← hsame, h]
            · exact h
          · exact Or.inr (Or.inl h)
          · obtain ⟨rfl, rfl⟩ := hpre sid' ip' h
            exact Or.inl (if_pos rfl)
        · cases (hassigning _ _).1 hass
      · -- an address that was just inserted is not refused
        refine hquiet rfl rfl (fun sid' ip' hass => ?_) (by simp)
        obtain ⟨rfl, rfl⟩ := hpre sid' ip' hass
        exact hother (hinv.free _ _ hass)
  | retainLock _ | ipRemove _ _ | retainErase _ | retainRelease _ => exact absurd hmay id

/-- A step of the cleanup, by what it does to the maps. -/
theorem tunInv_cleanup (hinv : TunInv w) (hmay : o.ofCleanup) (hpre : tunPre .cleanup o w)
    (hexec : execTun env .cleanup o w.st = some (r, st)) :
    TunInv (w.after .cleanup o r st) := by
  have hassigning : ∀ sid ip, Assigning (w.after .cleanup o r st) sid ip ↔ Assigning w sid ip := by
    intro sid ip
    rw [Assigning, System.World.after_hist, Assigning,
      System.lastOp_exec_of_ne (M := tunSystem env) (t := TunTid.writer) (u := TunTid.cleanup)
        nofun]
  have hexpiring : ∀ sid ip, Expiring (w.after .cleanup o r st) sid ip ↔ o = .ipRemove sid ip := by
    intro sid ip
    rw [Expiring, System.World.after_hist, System.lastOp_exec_self (M := tunSystem env),
      Option.some.injEq]
  have hquiet : st.sessionToIp = w.st.sessionToIp → st.owner = w.st.owner →
      (∀ sid ip, ¬ Expiring w sid ip) → TunInv (w.after .cleanup o r st) := by
    intro hs howner hidle
    refine ⟨fun sid ip hlookup => ?_, fun sid ip hass => ?_⟩
    · rw [System.World.after_st, hs] at hlookup
      rw [System.World.after_st, howner, hassigning]
      rcases hinv.owned sid ip hlookup with h | h | h
      · exact Or.inl h
      · exact absurd h (hidle sid ip)
      · exact Or.inr (Or.inr h)
    · have hfree := hinv.free sid ip ((hassigning _ _).1 hass)
      rwa [TunState.Free, ← howner] at hfree
  cases o with
  | retainLock i | retainRelease i =>
      obtain ⟨-, rfl, rfl⟩ := System.of_guarded hexec
      exact hquiet rfl rfl hpre
  | ipRemove sid ip =>
      obtain ⟨hidle, hmine⟩ := hpre
      cases hexec
      refine ⟨fun sid' ip' hlookup => ?_, fun sid' ip' hass => ?_⟩
      · have hlookup : w.st.sessionToIp.lookup sid' = some ip' := hlookup
        rw [System.World.after_st, owner_erase, hexpiring, hassigning]
        split
        · next hip =>
            rw [hip] at hlookup
            rw [hip, hinv.injective hidle hmine hlookup]
            exact Or.inr (Or.inl rfl)
        · rcases hinv.owned sid' ip' hlookup with h | h | h
          · exact Or.inl h
          · exact absurd h (hidle sid' ip')
          · exact Or.inr (Or.inr h)
      · have hfree := hinv.free sid' ip' ((hassigning _ _).1 hass)
        rw [System.World.after_st, TunState.Free, owner_erase]
        split
        · exact Or.inl rfl
        · exact hfree
  | retainErase sid =>
      obtain ⟨-, rfl, rfl⟩ := System.of_guarded hexec
      refine ⟨fun sid' ip' hlookup => ?_, fun sid' ip' hass => ?_⟩
      · rw [System.World.after_st, Table.lookup_erase_eq] at hlookup
        rw [hassigning]
        split at hlookup
        · cases hlookup
        · next hne =>
            rcases hinv.owned sid' ip' hlookup with h | h | h
            · exact Or.inl h
            · exact absurd (hpre sid' ip' h) hne
            · exact Or.inr (Or.inr h)
      · exact hinv.free sid' ip' ((hassigning _ _).1 hass)
  | sessionGet _ | sessionInsert _ _ | ipGet _ | ipEntry _ _ | write _ => exact absurd hmay id

end Invariant

/-! ### The programs meet the contract -/

/-- The writer is busy with the packet and has assigned nothing that it did not claim. -/
def Ready (w : TunWorld env) (pkt : InboundTunPacket) : Prop :=
  Writing w pkt ∧ ∀ sid ip, ¬ Assigning w sid ip

/-- The writer is busy with the packet and may claim the address for its session. -/
def MayClaim (w : TunWorld env) (pkt : InboundTunPacket) (ip : Ipv4Addr) : Prop :=
  Writing w pkt ∧ ∀ sid' ip', Assigning w sid' ip' → sid' = pkt.sessionId ∧ ip' = ip

section Programs

variable {w : TunWorld env} {pkt : InboundTunPacket}

theorem stable_ready : (tunContract env).Stable .writer fun w => Ready w pkt :=
  (stable_writing pkt).and
    (stable_lastOp .writer fun o => ∀ sid ip, ¬ o = some (.sessionInsert sid ip))

theorem stable_mayClaim (ip : Ipv4Addr) :
    (tunContract env).Stable .writer fun w => MayClaim w pkt ip :=
  (stable_writing pkt).and (stable_lastOp .writer fun o =>
    ∀ sid' ip', o = some (.sessionInsert sid' ip') → sid' = pkt.sessionId ∧ ip' = ip)

theorem Writing.after (h : Writing w pkt) (t : TunTid) (o : TunOp) (r : o.Ret) (st : TunState) :
    Writing (w.after t o r st) pkt := by
  rw [Writing, System.World.after_hist, System.lastAct_exec (M := tunSystem env)]
  exact h

/-- After any operation but an assignment, nothing is assigned and not claimed. -/
theorem Writing.ready (h : Writing w pkt) {o : TunOp} (ho : ∀ sid ip, o ≠ .sessionInsert sid ip)
    (r : o.Ret) (st : TunState) : Ready (w.after .writer o r st) pkt := by
  refine ⟨h.after .writer o r st, fun sid ip => ?_⟩
  rw [Assigning, System.World.after_hist, System.lastOp_exec_self (M := tunSystem env),
    Option.some.injEq]
  exact ho sid ip

theorem firstFree_wp (sid : SessionId) (pairs : List ℕ) (hw : Ready w pkt) :
    (tunContract env).wp .writer (firstFree sid pairs)
      (fun found w => Ready w pkt ∧ ∀ ip, found = some ip → w.st.Free sid ip) w := by
  induction pairs generalizing w with
  | nil => exact ⟨hw, fun ip h => nomatch h⟩
  | cons pairIdx rest ih =>
      unfold firstFree
      split
      · exact ih hw
      · next candidate hcandidate =>
          refine wp_tun (Ready · pkt) stable_ready hw (fun w' _ h => h.2)
            fun w' r st _ hready hexec _ => ?_
          obtain ⟨hr, rfl⟩ := execTun_ipGet hexec
          have hready' := hready.1.ready (o := .ipGet candidate) (by simp) r w'.st
          simp only
          split
          · next hfree =>
              refine ⟨hready', fun ip hip => ?_⟩
              cases hip
              rw [System.World.after_st, TunState.Free, ← hr]
              cases r with
              | none => exact Or.inl rfl
              | some m => simpa using hfree
          · exact ih hready'

/-- The address of the session, whether it was there or has been inserted now. -/
theorem tunIpFor_wp (hw : Ready w pkt) :
    (tunContract env).wp .writer (tunIpFor pkt.sessionId)
      (fun found w => match found with
        | none => Ready w pkt
        | some ip => MayClaim w pkt ip) w := by
  unfold tunIpFor
  refine wp_tun (Ready · pkt) stable_ready hw (fun w' _ h => h.2)
    fun w' r st _ hready _ _ => ?_
  have hready' := hready.1.ready (o := .sessionGet pkt.sessionId) (by simp) r st
  cases r with
  | some existing => exact ⟨hready'.1, fun sid' ip' hass => absurd hass (hready'.2 sid' ip')⟩
  | none =>
      refine Contract.wp_seq (firstFree_wp pkt.sessionId _ hready') ?_
      rintro (_ | ip) w'' ⟨hready'', hfree⟩
      · exact hready''
      · refine wp_tun (fun w => Ready w pkt ∧ w.st.Free pkt.sessionId ip)
          (stable_ready.and (stable_free _ _)) ⟨hready'', hfree ip rfl⟩
          (fun w' _ h => ⟨h.1.2, h.2⟩) fun w₃ r st₃ _ h₃ _ _ =>
            ⟨h₃.1.1.after _ _ _ _, fun sid' ip' hass => ?_⟩
        rw [Assigning, System.World.after_hist,
          System.lastOp_exec_self (M := tunSystem env)] at hass
        cases hass
        exact ⟨rfl, rfl⟩

theorem tunWriterPass_wp (hw : Ready w pkt) :
    (tunContract env).wp .writer (tunWriterPass pkt) (fun _ => tunPost .writer) w := by
  unfold tunWriterPass
  simp only [Prog.pure_eq]
  split
  · exact hw.2
  next hlength =>
  split
  · exact hw.2
  split
  · exact hw.2
  refine Contract.wp_seq (tunIpFor_wp hw) ?_
  rintro (_ | ip) w' hw'
  · exact hw'.2
  refine wp_tun (MayClaim · pkt ip) (stable_mayClaim ip) hw' (fun _ _ h => h.2)
    fun w₂ r st₂ _ hclaim hexec _ => ?_
  have hready := hclaim.1.ready (o := .ipEntry ip
    ⟨pkt.sessionId, pkt.clientAddr, srcIpOf pkt.rawIpPacket⟩) (by simp) r st₂
  split
  · exact hready.2
  next hclaimed =>
  refine wp_tun (fun w => Ready w pkt ∧ w.st.Free pkt.sessionId ip)
    (stable_ready.and (stable_free _ _)) ⟨hready, ?_⟩
    (fun w₃ _ h₃ => ⟨h₃.1.2, pkt, ip, h₃.1.1, rfl, Nat.le_of_not_lt hlength, h₃.2⟩)
    fun w₃ r₃ st₃ _ h₃ _ _ => (h₃.1.1.ready (by simp) r₃ st₃).2
  rcases execTun_ipEntry hexec with ⟨-, -, rfl⟩ | ⟨-, htrue, -⟩
  · exact Or.inr ((owner_insert ip ip _).trans (if_pos rfl))
  · exact absurd htrue hclaimed

/-- The cleanup holds the lock of shard `i`, has visited it but for the given entries, and is not in
the middle of a visit. -/
structure TunVisiting (i : ℕ) (rest : List (SessionId × Ipv4Addr)) (w : TunWorld env) : Prop where
  locked : w.st.guards i = some .cleanup ∧
    ∀ e ∈ rest, env.shardOf e.1 = i ∧ w.st.sessionToIp.lookup e.1 = some e.2
  nodup : (rest.map Prod.fst).Nodup
  idle : ∀ sid ip, ¬ Expiring w sid ip

theorem expireSession_wp {i : ℕ} (sessionAlive : SessionId → Bool) (e : SessionId × Ipv4Addr)
    (rest : List (SessionId × Ipv4Addr)) (hw : TunVisiting i (e :: rest) w) :
    (tunContract env).wp .cleanup (expireSession sessionAlive e)
      (fun _ => TunVisiting i rest) w := by
  have hnext : ∀ {w : TunWorld env}, TunVisiting i (e :: rest) w → TunVisiting i rest w :=
    fun h => ⟨⟨h.locked.1, fun e' he' => h.locked.2 e' (List.mem_cons_of_mem e he')⟩,
      (List.nodup_cons.1 h.nodup).2, h.idle⟩
  unfold expireSession
  split
  · exact hnext hw
  · refine wp_tun _ ((stable_locked_entry i (e :: rest)).and
        (stable_lastOp .cleanup fun o => ∀ sid ip, ¬ o = some (.ipRemove sid ip)))
      ⟨hw.locked, hw.idle⟩ (fun w' _ h => ⟨h.2, (h.1.2 e List.mem_cons_self).2⟩)
      fun w' r st _ h' hexec _ => ?_
    cases hexec
    refine wp_tun _ ((stable_locked_entry i (e :: rest)).and
        (stable_lastOp .cleanup fun o => o = some (.ipRemove e.1 e.2)))
      ⟨h'.1, System.lastOp_exec_self (M := tunSystem env)⟩ (fun w₂ _ h₂ sid ip hexp => ?_)
      fun w₂ r₂ st₂ _ h₂ hexec₂ _ => ?_
    · cases Option.some.inj (hexp.symm.trans h₂.2)
      rfl
    · obtain ⟨-, -, rfl⟩ := System.of_guarded hexec₂
      obtain ⟨hfresh, hnodup⟩ := List.nodup_cons.1 hw.nodup
      refine ⟨⟨h₂.1.1, fun e' he' => ?_⟩, hnodup, fun sid ip hexp => ?_⟩
      · have hne : e'.1 ≠ e.1 := fun heq => hfresh (heq ▸ List.mem_map_of_mem he')
        obtain ⟨hshard, hlookup⟩ := h₂.1.2 e' (List.mem_cons_of_mem e he')
        refine ⟨hshard, ?_⟩
        rw [System.World.after_st, Table.lookup_erase_eq, if_neg hne, hlookup]
      · rw [Expiring, System.World.after_hist,
          System.lastOp_exec_self (M := tunSystem env)] at hexp
        cases hexp

theorem expireShard_wp (sessionAlive : SessionId → Bool) (i : ℕ)
    (hw : ∀ sid ip, ¬ Expiring w sid ip) :
    (tunContract env).wp .cleanup (expireShard sessionAlive i) (fun _ => tunPost .cleanup) w := by
  have hidle := @stable_lastOp env .cleanup fun o => ∀ sid ip, ¬ o = some (.ipRemove sid ip)
  unfold expireShard
  refine wp_tun (fun w => ∀ sid ip, ¬ Expiring w sid ip) hidle hw (fun _ _ h => h)
    fun w' r st _ _ hexec _ => ?_
  obtain ⟨rfl, hs, hguard⟩ := execTun_retainLock hexec
  have hvisiting : TunVisiting i (w'.st.shardEntries env i)
      (w'.after .cleanup (.retainLock i) (w'.st.shardEntries env i) st) := by
    refine ⟨⟨hguard, fun e he => ?_⟩, TunState.nodup_shardEntries w'.st i, fun sid ip hexp => ?_⟩
    · rw [System.World.after_st, hs]
      exact TunState.of_mem_shardEntries he
    · rw [Expiring, System.World.after_hist, System.lastOp_exec_self (M := tunSystem env)] at hexp
      cases hexp
  refine Contract.wp_seq (Contract.wp_forM (TunVisiting i)
    (fun e rest w h => expireSession_wp sessionAlive e rest h) hvisiting) fun _ w₂ h₂ => ?_
  refine wp_tun (fun w => ∀ sid ip, ¬ Expiring w sid ip) hidle h₂.idle (fun _ _ h => h)
    fun w₃ r₃ st₃ _ _ _ _ sid ip hexp => ?_
  rw [Expiring, System.World.after_hist, System.lastOp_exec_self (M := tunSystem env)] at hexp
  cases hexp

theorem firstFree_gets (sid : SessionId) (pairs : List ℕ) :
    (firstFree sid pairs).Uses fun o : TunOp => ∃ ip, o = .ipGet ip := by
  induction pairs with
  | nil => trivial
  | cons pairIdx rest ih =>
      unfold firstFree
      split
      · exact ih
      · next candidate _ =>
          refine ⟨⟨candidate, rfl⟩, fun r => ?_⟩
          simp [ih]

/-- What the writer enters for a packet. -/
def InboundTunPacket.mapping (pkt : InboundTunPacket) : SessionMapping :=
  ⟨pkt.sessionId, pkt.clientAddr, srcIpOf pkt.rawIpPacket⟩

/-- The operations of the writer for a packet enter the session of the packet. -/
def TunOp.OfPacket (pkt : InboundTunPacket) : TunOp → Prop
  | .sessionInsert sid _ => sid = pkt.sessionId
  | .ipEntry _ mapping => mapping = pkt.mapping
  | o => o.ofWriter

theorem tunWriterPass_uses (pkt : InboundTunPacket) :
    (tunWriterPass pkt).Uses (TunOp.OfPacket pkt) := by
  have hip : (tunIpFor pkt.sessionId).Uses (TunOp.OfPacket pkt) := by
    refine Prog.uses_bind (Prog.uses_perform.2 trivial) fun r => ?_
    cases r with
    | some existing => trivial
    | none =>
        refine Prog.uses_bind ((firstFree_gets _ _).mono ?_) fun found => ?_
        · rintro _ ⟨ip, rfl⟩
          trivial
        · cases found <;> simp [TunOp.OfPacket]
  unfold tunWriterPass
  simp only [Prog.uses_ite, Prog.pure_eq, Prog.uses_ret, implies_true, true_and]
  intro _ _ _
  refine Prog.uses_bind hip fun found => ?_
  cases found <;> simp [TunOp.OfPacket, TunOp.ofWriter, InboundTunPacket.mapping]

theorem expireSession_cleanup (sessionAlive : SessionId → Bool) (e : SessionId × Ipv4Addr) :
    (expireSession sessionAlive e).Uses TunOp.ofCleanup := by
  unfold expireSession
  simp [TunOp.ofCleanup]

theorem expireShard_cleanup (sessionAlive : SessionId → Bool) (i : ℕ) :
    (expireShard sessionAlive i).Uses TunOp.ofCleanup :=
  Prog.uses_bind (Prog.uses_perform.2 trivial) fun _ =>
    Prog.uses_bind (Prog.uses_forM fun e _ => expireSession_cleanup sessionAlive e) fun _ =>
      Prog.uses_perform.2 trivial

theorem removeExpired_uses (sessionAlive : SessionId → Bool) :
    (removeExpired env sessionAlive).Uses TunOp.ofCleanup :=
  Prog.uses_forM fun i _ => expireShard_cleanup sessionAlive i

end Programs

theorem tunContract_sound (env : TunEnv) : (tunContract env).Sound where
  start_inv w a hinv _ _ := by
    refine ⟨fun sid ip hlookup => ?_, fun sid ip hass => hinv.free sid ip ?_⟩
    · simpa only [Expiring, Assigning, System.World.begin_st, System.World.begin_hist,
        System.lastOp_start] using hinv.owned sid ip hlookup
    · simpa only [Assigning, System.World.begin_hist, System.lastOp_start] using hass
  exec_inv w t o r st hinv hmay hpre hexec _ := by
    cases t with
    | writer => exact tunInv_writer hinv hmay hpre hexec
    | cleanup => exact tunInv_cleanup hinv hmay hpre hexec
  post_stable t := by
    cases t with
    | writer => exact stable_lastOp .writer fun o => ∀ sid ip, ¬ o = some (.sessionInsert sid ip)
    | cleanup => exact stable_lastOp .cleanup fun o => ∀ sid ip, ¬ o = some (.ipRemove sid ip)
  prog_may a := by
    cases a with
    | packet pkt =>
        refine (tunWriterPass_uses pkt).mono fun o ho => ?_
        cases o <;> first | exact ho | trivial
    | removeExpired sessionAlive => exact removeExpired_uses sessionAlive
  prog_wp w a _ hpost _ := by
    cases a with
    | packet pkt =>
        refine tunWriterPass_wp ⟨System.lastAct_start_self (M := tunSystem env) (a := .packet pkt),
          fun sid ip => ?_⟩
        simpa only [Assigning, System.World.begin_hist, System.lastOp_start] using hpost sid ip
    | removeExpired sessionAlive =>
        refine Contract.wp_forM (C := tunContract env) (fun _ => tunPost .cleanup)
          (fun i _ w h => expireShard_wp sessionAlive i h) fun sid ip => ?_
        simpa only [Expiring, System.World.begin_hist, System.lastOp_start] using hpost sid ip

theorem tun_good_start :
    Contract.Sound.Good (tunContract env) ((tunSystem env).initial .new) := by
  refine Contract.Sound.good_initial ?_ fun t => ?_
  · exact ⟨fun sid ip h => (nomatch h), fun sid ip h => (nomatch h)⟩
  · cases t <;> exact fun sid ip h => nomatch h

/-- **No two sessions share an address.**  When neither thread is in the middle of something, the
address of a session is registered for this session; and a packet of a session is written to the TUN
device with an address that is not registered for another one.  That address is in the packet,
provided its header is complete, as it is with all packets that passed the parser. -/
theorem tun_addresses_isolated {env : TunEnv} {c : (tunSystem env).Config}
    (hrun : (tunSystem env).Steps ((tunSystem env).initial .new) c) :
    (c.ctl TunTid.writer = .ret () → c.ctl TunTid.cleanup = .ret () →
      (∀ sid ip, c.st.sessionToIp.lookup sid = some ip →
        ∃ m, c.st.ipToSession.lookup ip = some m ∧ m.sessionId = sid) ∧
      ∀ sid sid' ip, c.st.sessionToIp.lookup sid = some ip →
        c.st.sessionToIp.lookup sid' = some ip → sid' = sid) ∧
    ∀ t packet r pre post c', (tunSystem env).Step c (.exec t (.write packet) r pre post) c' →
      t = TunTid.writer ∧
      ∃ pkt ip, System.lastAct (M := tunSystem env) .writer c.hist = some (.packet pkt) ∧
        packet = rewriteSrcIp pkt.rawIpPacket ip ∧
        (ipHeaderMin ≤ ihlOf pkt.rawIpPacket → srcIpOf packet = ip) ∧
        ∀ m, c.st.ipToSession.lookup ip = some m → m.sessionId = pkt.sessionId := by
  have hgood := (tunContract_sound env).run hrun tun_good_start
  refine ⟨fun hwriter hcleanup => ?_, fun t packet r pre post c' hstep => ?_⟩
  · have hassigning : ∀ sid ip, ¬ Assigning c.toWorld sid ip :=
      Contract.Sound.post_of_idle hgood hwriter
    have hexpiring : ∀ sid ip, ¬ Expiring c.toWorld sid ip :=
      Contract.Sound.post_of_idle hgood hcleanup
    refine ⟨fun sid ip hlookup => ?_, fun sid sid' ip => hgood.1.injective hexpiring⟩
    rcases hgood.1.owned sid ip hlookup with h | h | h
    · exact Option.map_eq_some_iff.1 h
    · exact absurd h (hexpiring sid ip)
    · exact absurd h (hassigning sid ip)
  · obtain ⟨hmay, hpre⟩ := Contract.Sound.pre_of_step hgood hstep
    cases t with
    | cleanup => exact absurd hmay id
    | writer =>
        obtain ⟨-, pkt, ip, hwriting, rfl, hlength, hfree⟩ := hpre
        refine ⟨rfl, pkt, ip, hwriting, rfl, fun hihl => srcIpOf_rewriteSrcIp ip hihl hlength, ?_⟩
        intro m hm
        rcases hfree with hnone | hsame
        · simp [TunState.owner, hm] at hnone
        · simpa [TunState.owner, hm] using hsame

/-- One shard, and a TCP packet of each of two sessions whose identifiers begin with the same bytes.
-/
def sampleTunEnv : TunEnv := ⟨1, fun _ => 0, fun _ => Nat.zero_lt_one⟩

def sampleTunPacket (sid : SessionId) : InboundTunPacket :=
  ⟨sid, ⟨⟨203, 0, 113, 7⟩, 40000⟩,
    [0x45, 0, 0, 20, 0, 0, 0, 0, 64, 6, 0, 0, 10, 0, 0, 2, 8, 8, 8, 8]⟩

/-- The first session takes the address of its first two bytes, the second one that of its next two;
then the first one is removed. -/
theorem tun_addresses_isolated_sample :
    ∃ c : (tunSystem sampleTunEnv).Config,
      (tunSystem sampleTunEnv).Steps ((tunSystem sampleTunEnv).initial .new) c ∧
      c.ctl TunTid.writer = .ret () ∧ c.ctl TunTid.cleanup = .ret () ∧
      c.st.sessionToIp.lookup 0x0102030405060708 = none ∧
      c.st.sessionToIp.lookup 0x0102130405060708 = some ⟨10, 200, 0x13, 4⟩ ∧
      ∃ m, c.st.ipToSession.lookup ⟨10, 200, 0x13, 4⟩ = some m ∧
        m.sessionId = 0x0102130405060708 := by
  have hstart : System.Reaches System.free ((tunSystem sampleTunEnv).initial .new)
      (TunState.new, fun _ => .ret ()) :=
    ⟨_, Relation.ReflTransGen.refl, rfl, rfl⟩
  obtain ⟨c, hrun, hc⟩ := hstart.follow
    [.start (.packet (sampleTunPacket 0x0102030405060708)), .fire .writer 9,
      .start (.packet (sampleTunPacket 0x0102130405060708)), .fire .writer 9,
      .start (.removeExpired fun sid => sid = 0x0102130405060708), .fire .cleanup 9]
    (by decide +kernel)
  have hrun := hrun.steps
  have hwriter : c.ctl TunTid.writer = .ret () := by
    rw [hc.2]
    exact System.ctl_of_idle (by decide +kernel)
  have hcleanup : c.ctl TunTid.cleanup = .ret () := by
    rw [hc.2]
    exact System.ctl_of_idle (by decide +kernel)
  have hgone : c.st.sessionToIp.lookup 0x0102030405060708 = none :=
    (congrArg (fun s => s.sessionToIp.lookup 0x0102030405060708) hc.1).trans (by decide +kernel)
  have hleft : c.st.sessionToIp.lookup 0x0102130405060708 = some ⟨10, 200, 0x13, 4⟩ :=
    (congrArg (fun s => s.sessionToIp.lookup 0x0102130405060708) hc.1).trans (by decide +kernel)
  exact ⟨c, hrun, hwriter, hcleanup, hgone, hleft,
    ((tun_addresses_isolated hrun).1 hwriter hcleanup).1 _ _ hleft⟩

end SwiftRelay
