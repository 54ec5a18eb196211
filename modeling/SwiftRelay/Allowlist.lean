/-
**From the text of the allowlist to the judgement of the policy.**

The destination policy is built once, from a file with one prefix per line.  A bare prefix applies
to UDP and TCP, `udp` or `tcp` in front limits it to one of them, and `#` starts a comment.  The
prefixes of each protocol are sorted and those inside another one are dropped, so that a single
candidate decides about an address.  A file that cannot be read or leaves one of the protocols
without a prefix is not used; then a built-in list takes its place and nothing is enforced.

Parsing an address and a number is not code of the relay; the two functions enter as a
`StdParsers`, about which nothing is assumed.

Main definitions:

* `Net.parse`, `new` — a prefix; the sorted list without the covered prefixes;
* `parseAllowlist`, `validEntries` — the file, and its valid lines;
* `DestPolicy.build` — the policy.

Main results:

* `Net.contains_iff` — a prefix is an aligned block of addresses;
* `contains_new_iff` — the candidate decides like a scan of all prefixes;
* `new_normalised` — the kept prefixes are sorted, disjoint and mean the same;
* `permits_iff_some_line` — **the judgement is a plain scan of the valid lines**.
-/

import SwiftRelay.DestPolicy
import SwiftRelay.Intervals
import SwiftRelay.Text

set_option autoImplicit false

/-! ### Masks -/

namespace BitVec

variable {w k : ℕ}

theorem and_allOnes_shiftLeft (x : BitVec w) (k : ℕ) :
    x &&& (allOnes w <<< k) = (x >>> k) <<< k := by
  ext i hi
  by_cases h : i < k
  · simp [h]
  · have hki : k + (i - k) = i := by omega
    simp [h, hki, getLsbD_eq_getElem hi]

theorem toNat_shiftRight_shiftLeft (x : BitVec w) (k : ℕ) :
    ((x >>> k) <<< k).toNat = x.toNat / 2 ^ k * 2 ^ k := by
  rw [toNat_shiftLeft, toNat_ushiftRight, Nat.shiftRight_eq_div_pow, Nat.shiftLeft_eq]
  exact Nat.mod_eq_of_lt (Nat.lt_of_le_of_lt (Nat.div_mul_le_self _ _) x.isLt)

theorem toNat_allOnes_shiftLeft (hk : k ≤ w) : (allOnes w <<< k).toNat = 2 ^ w - 2 ^ k := by
  obtain ⟨m, rfl⟩ := Nat.exists_eq_add_of_le hk
  have hpos : 0 < 2 ^ k := Nat.two_pow_pos k
  have hm : 0 < 2 ^ m := Nat.two_pow_pos m
  have hdiv : (2 ^ k * 2 ^ m - 1) / 2 ^ k = 2 ^ m - 1 := by
    refine Nat.div_eq_of_lt_le ?_ ?_
    · rw [Nat.sub_mul, one_mul, Nat.mul_comm]
      omega
    · rw [Nat.sub_add_cancel hm, Nat.mul_comm]
      exact Nat.sub_lt (Nat.mul_pos hm hpos) Nat.one_pos
  rw [← allOnes_and (x := allOnes _ <<< k), and_allOnes_shiftLeft, toNat_shiftRight_shiftLeft,
    toNat_allOnes, pow_add, hdiv, Nat.sub_mul, one_mul, Nat.mul_comm]

end BitVec

namespace SwiftRelay

/-! ### Prefixes -/

/-- The parsers of the standard library for addresses and for 32-bit numbers. -/
structure StdParsers where
  ipv4 : String → Option Ipv4Addr
  u32 : String → Option UInt32

/-- The broadest prefix that is accepted. -/
def minPrefixLen : UInt32 := 8

namespace Net

/-- The prefix of the given length around an address. -/
def ofPrefix (addr : Ipv4Addr) (len : ℕ) : Net :=
  let mask := BitVec.allOnes 32 <<< (32 - len)
  ⟨addr.toBits &&& mask, mask⟩

def parse (std : StdParsers) (cidr : String) : Option Net := do
  let (addr, len) ← splitOnce (trim cidr) '/'
  let addr ← std.ipv4 addr
  let len ← std.u32 len
  if minPrefixLen ≤ len && len ≤ 32 then some (ofPrefix addr len.toNat) else none

def covers (net other : Net) : Bool := decide (net.mask ≤ other.mask) && net.contains other.base

/-- A prefix is a block of `2 ^ k` addresses whose first one is a multiple of that number. -/
structure Block (net : Net) (k : ℕ) : Prop where
  le : k ≤ 32
  mask : net.mask = BitVec.allOnes 32 <<< k
  aligned : 2 ^ k ∣ net.base.toNat

/-- A prefix as `parse` makes them: its mask has between 8 and 32 ones, and its first address has no
bits behind them. -/
def Aligned (net : Net) : Prop :=
  ∃ len, minPrefixLen.toNat ≤ len ∧ len ≤ 32 ∧ net.mask = BitVec.allOnes 32 <<< (32 - len) ∧
    net.base &&& net.mask = net.base

theorem aligned_ofPrefix (addr : Ipv4Addr) {len : ℕ} (hmin : minPrefixLen.toNat ≤ len)
    (hmax : len ≤ 32) : (ofPrefix addr len).Aligned :=
  ⟨len, hmin, hmax, rfl, by simp [ofPrefix, BitVec.and_assoc]⟩

theorem Aligned.block {net : Net} (h : net.Aligned) : ∃ k, net.Block k := by
  obtain ⟨len, -, -, hmask, hbase⟩ := h
  refine ⟨32 - len, Nat.sub_le 32 len, hmask, ?_⟩
  rw [← hbase, hmask, BitVec.and_allOnes_shiftLeft, BitVec.toNat_shiftRight_shiftLeft]
  exact Nat.dvd_mul_left _ _

theorem aligned_of_parse {std : StdParsers} {cidr : String} {net : Net}
    (h : parse std cidr = some net) : net.Aligned := by
  simp only [parse, Option.bind_eq_bind, Option.bind_eq_some_iff] at h
  obtain ⟨⟨addr, len⟩, -, ip, -, n, -, hnet⟩ := h
  split at hnet
  · next hlen =>
      cases hnet
      rw [Bool.and_eq_true, decide_eq_true_eq, decide_eq_true_eq] at hlen
      exact aligned_ofPrefix ip hlen.1 hlen.2
  · cases hnet

/-- The number of addresses of a prefix. -/
def size (net : Net) : ℕ := 2 ^ 32 - net.mask.toNat

/-- The first address of a prefix, and the number behind its last one. -/
def first (net : Net) : ℕ := net.base.toNat

@[inherit_doc first]
def afterLast (net : Net) : ℕ := net.base.toNat + net.size

variable {net other : Net} {k m : ℕ}

theorem Block.size_eq (h : net.Block k) : net.size = 2 ^ k := by
  have hle : 2 ^ k ≤ 2 ^ 32 := Nat.pow_le_pow_right Nat.two_pos h.le
  rw [size, h.mask, BitVec.toNat_allOnes_shiftLeft h.le, Nat.sub_sub_self hle]

theorem Block.first_lt (h : net.Block k) : net.first < net.afterLast := by
  have hpos : 0 < 2 ^ k := Nat.two_pow_pos k
  rw [afterLast, h.size_eq, first]
  omega

theorem contains_iff (h : net.Block k) (ip : BitVec 32) :
    net.contains ip = true ↔ net.first ≤ ip.toNat ∧ ip.toNat < net.afterLast := by
  obtain ⟨c, hc⟩ := h.aligned
  have hpos : 0 < 2 ^ k := Nat.two_pow_pos k
  rw [contains, decide_eq_true_eq, h.mask, BitVec.and_allOnes_shiftLeft, ← BitVec.toNat_inj,
    BitVec.toNat_shiftRight_shiftLeft, afterLast, h.size_eq, first]
  constructor
  · intro heq
    have hlt : ip.toNat < 2 ^ k * (ip.toNat / 2 ^ k + 1) := Nat.lt_mul_div_succ _ hpos
    rw [Nat.mul_succ, Nat.mul_comm] at hlt
    exact ⟨heq ▸ Nat.div_mul_le_self _ _, heq ▸ hlt⟩
  · rintro ⟨hle, hlt⟩
    rw [hc] at hle hlt ⊢
    have hdiv : ip.toNat / 2 ^ k = c := by
      refine Nat.div_eq_of_lt_le ?_ ?_
      · rwa [Nat.mul_comm]
      · rwa [Nat.succ_mul, Nat.mul_comm]
    rw [hdiv, Nat.mul_comm]

theorem Block.mask_le_iff (h : net.Block k) (h' : other.Block m) :
    net.mask ≤ other.mask ↔ m ≤ k := by
  have hk : 2 ^ k ≤ 2 ^ 32 := Nat.pow_le_pow_right Nat.two_pos h.le
  have hm : 2 ^ m ≤ 2 ^ 32 := Nat.pow_le_pow_right Nat.two_pos h'.le
  have hpow : 2 ^ m ≤ 2 ^ k ↔ m ≤ k := Nat.pow_le_pow_iff_right Nat.one_lt_two
  rw [BitVec.le_def, h.mask, h'.mask, BitVec.toNat_allOnes_shiftLeft h.le,
    BitVec.toNat_allOnes_shiftLeft h'.le, ← hpow]
  omega

theorem covers_iff (h : net.Block k) (h' : other.Block m) :
    net.covers other = true ↔ Intervals.Covers first afterLast net other := by
  rw [covers, Bool.and_eq_true, decide_eq_true_eq, h.mask_le_iff h', contains_iff h,
    Intervals.Covers, afterLast, afterLast, h.size_eq, h'.size_eq]
  exact (Intervals.block_subset_iff h.aligned h'.aligned).symm

end Net

/-! ### Sorted prefixes -/

namespace NetSet

/-- The order of the pairs of first address and mask. -/
def sortsBefore (net other : Net) : Bool :=
  decide (net.base < other.base) || (net.base = other.base && decide (net.mask ≤ other.mask))

/-- Sorted, without the prefixes that the last one kept covers. -/
def new (nets : List Net) : NetSet :=
  ⟨Intervals.collapse Net.covers (nets.mergeSort sortsBefore)⟩

theorem sortsBefore_trans (a b c : Net) (hab : sortsBefore a b = true)
    (hbc : sortsBefore b c = true) : sortsBefore a c = true := by
  simp only [sortsBefore, Bool.or_eq_true, Bool.and_eq_true, decide_eq_true_eq] at *
  rcases hab with hab | ⟨hab, hmask⟩ <;> rcases hbc with hbc | ⟨hbc, hmask'⟩
  · exact Or.inl (BitVec.lt_trans hab hbc)
  · exact Or.inl (hbc ▸ hab)
  · exact Or.inl (hab ▸ hbc)
  · exact Or.inr ⟨hab.trans hbc, BitVec.le_trans hmask hmask'⟩

theorem sortsBefore_total (a b : Net) : (sortsBefore a b || sortsBefore b a) = true := by
  simp only [sortsBefore, Bool.or_eq_true, Bool.and_eq_true, decide_eq_true_eq, BitVec.lt_def,
    BitVec.le_def, ← BitVec.toNat_inj]
  omega

variable {nets : List Net}

/-- Sorted prefixes are in the order in which the covered ones can be dropped. -/
theorem precedes_of_sortsBefore {net other : Net} {k m : ℕ} (h : net.Block k) (h' : other.Block m)
    (hsort : sortsBefore net other = true) :
    Intervals.Precedes Net.first Net.afterLast net other := by
  simp only [sortsBefore, Bool.or_eq_true, Bool.and_eq_true, decide_eq_true_eq, BitVec.lt_def,
    ← BitVec.toNat_inj] at hsort
  have hle : net.base.toNat ≤ other.base.toNat :=
    hsort.elim Nat.le_of_lt fun hsame => Nat.le_of_eq hsame.1
  refine ⟨hle, fun hlt => ?_⟩
  simp only [Net.afterLast, Net.first, h.size_eq, h'.size_eq] at hlt ⊢
  refine Intervals.end_le_of_start_lt h.aligned h'.aligned hle hlt fun hsame => ?_
  rcases hsort with hbase | ⟨-, hmask⟩
  · exact absurd hsame (Nat.ne_of_lt hbase)
  · exact (h.mask_le_iff h').1 hmask

theorem contains_eq (set : NetSet) (ip : Ipv4Addr) :
    set.contains ip = (Intervals.lastUpTo Net.first ip.toBits.toNat set.nets).any
      fun net => net.contains ip.toBits := by
  have hupTo : (set.nets.takeWhile fun net => decide (net.base ≤ ip.toBits)).getLast? =
      Intervals.lastUpTo Net.first ip.toBits.toNat set.nets := rfl
  unfold contains
  simp only [hupTo]
  cases Intervals.lastUpTo Net.first ip.toBits.toNat set.nets <;> rfl

section Blocks

variable (hnets : ∀ net ∈ nets, ∃ k, net.Block k)
include hnets

theorem sorted_blocks : ∀ net ∈ nets.mergeSort sortsBefore, ∃ k, net.Block k :=
  fun net hnet => hnets net (List.mem_mergeSort.1 hnet)

theorem sorted_first_lt : ∀ net ∈ nets.mergeSort sortsBefore, net.first < net.afterLast :=
  fun net hnet => (sorted_blocks hnets net hnet).elim fun _ h => h.first_lt

theorem sorted_precedes :
    (nets.mergeSort sortsBefore).Pairwise (Intervals.Precedes Net.first Net.afterLast) := by
  refine (List.pairwise_mergeSort sortsBefore_trans sortsBefore_total nets).imp_of_mem ?_
  intro a b ha hb hab
  obtain ⟨k, hk⟩ := sorted_blocks hnets a ha
  obtain ⟨m, hm⟩ := sorted_blocks hnets b hb
  exact precedes_of_sortsBefore hk hm hab

theorem sorted_covers : ∀ a ∈ nets.mergeSort sortsBefore, ∀ b ∈ nets.mergeSort sortsBefore,
    a.covers b = true ↔ Intervals.Covers Net.first Net.afterLast a b := by
  intro a ha b hb
  obtain ⟨k, hk⟩ := sorted_blocks hnets a ha
  obtain ⟨m, hm⟩ := sorted_blocks hnets b hb
  exact Net.covers_iff hk hm

theorem new_collapsed :
    Intervals.Collapsed Net.first Net.afterLast (nets.mergeSort sortsBefore) (new nets).nets :=
  Intervals.collapsed (sorted_first_lt hnets) (sorted_precedes hnets) (sorted_covers hnets)

theorem mem_of_mem_new {net : Net} (hnet : net ∈ (new nets).nets) : net ∈ nets :=
  List.mem_mergeSort.1 ((new_collapsed hnets).mem net hnet)

/-- The one candidate decides like a scan of all prefixes. -/
theorem contains_new_iff (ip : Ipv4Addr) :
    (new nets).contains ip = true ↔ ∃ net ∈ nets, net.contains ip.toBits = true := by
  have hcontains : ∀ net ∈ nets, net.contains ip.toBits = true ↔
      net.first ≤ ip.toBits.toNat ∧ ip.toBits.toNat < net.afterLast :=
    fun net hnet => (hnets net hnet).elim fun _ h => Net.contains_iff h _
  rw [contains_eq, Option.any_eq_true]
  constructor
  · rintro ⟨net, hlast, hnet⟩
    exact ⟨net, mem_of_mem_new hnets (Intervals.mem_of_lastUpTo hlast), hnet⟩
  · rintro ⟨net, hnet, hin⟩
    obtain ⟨last, hlast, hin'⟩ := (Intervals.exists_mem_iff (sorted_first_lt hnets)
      (sorted_precedes hnets) (sorted_covers hnets)).1
        ⟨net, List.mem_mergeSort.2 hnet, (hcontains net hnet).1 hin⟩
    have hkept : last ∈ nets := mem_of_mem_new hnets (Intervals.mem_of_lastUpTo hlast)
    exact ⟨last, hlast, (hcontains last hkept).2 hin'⟩

theorem new_sorted : (new nets).nets.Pairwise fun a b => a.base < b.base := by
  refine (new_collapsed hnets).apart.imp_of_mem ?_
  intro a b ha hb hapart
  obtain ⟨k, hk⟩ := hnets a (mem_of_mem_new hnets ha)
  have hlt : a.first < b.first := Nat.lt_of_lt_of_le hk.first_lt hapart
  exact BitVec.lt_def.2 hlt

theorem new_disjoint : (new nets).nets.Pairwise fun a b =>
    ∀ ip, ¬ (a.contains ip = true ∧ b.contains ip = true) := by
  refine (new_collapsed hnets).apart.imp_of_mem ?_
  rintro a b ha hb hapart ip ⟨hina, hinb⟩
  obtain ⟨k, hk⟩ := hnets a (mem_of_mem_new hnets ha)
  obtain ⟨m, hm⟩ := hnets b (mem_of_mem_new hnets hb)
  have hbelow := ((Net.contains_iff hk ip).1 hina).2
  have habove := ((Net.contains_iff hm ip).1 hinb).1
  exact absurd (Nat.lt_of_lt_of_le hbelow (Nat.le_trans hapart habove)) (Nat.lt_irrefl _)

end Blocks

/-- **Prefix sets are normalised without changing their meaning.**  The kept prefixes are among the
given ones, start one after another and have no address in common; and the one candidate decides
about an address like a scan of all the given prefixes. -/
theorem new_normalised (nets : List Net) (hnets : ∀ net ∈ nets, net.Aligned) :
    (∀ net ∈ (new nets).nets, net ∈ nets) ∧
    ((new nets).nets.Pairwise fun a b => a.base < b.base) ∧
    ((new nets).nets.Pairwise fun a b => ∀ ip, ¬ (a.contains ip = true ∧ b.contains ip = true)) ∧
    ∀ ip, (new nets).contains ip = true ↔ ∃ net ∈ nets, net.contains ip.toBits = true := by
  have hblocks : ∀ net ∈ nets, ∃ k, net.Block k := fun net hnet => (hnets net hnet).block
  exact ⟨fun net => mem_of_mem_new hblocks, new_sorted hblocks, new_disjoint hblocks,
    contains_new_iff hblocks⟩

/-- A prefix inside another one, and a neighbour of the larger. -/
def sampleNets : List Net :=
  [.ofPrefix ⟨10, 1, 0, 0⟩ 16, .ofPrefix ⟨10, 0, 0, 0⟩ 8, .ofPrefix ⟨11, 0, 0, 0⟩ 16]

theorem new_normalised_sample :
    (∀ net ∈ (new sampleNets).nets, net ∈ sampleNets) ∧
    ((new sampleNets).nets.Pairwise fun a b => a.base < b.base) ∧
    ((new sampleNets).nets.Pairwise fun a b =>
      ∀ ip, ¬ (a.contains ip = true ∧ b.contains ip = true)) ∧
    ∀ ip, (new sampleNets).contains ip = true ↔
      ∃ net ∈ sampleNets, net.contains ip.toBits = true := by
  refine new_normalised sampleNets fun net hnet => ?_
  simp only [sampleNets, List.mem_cons, List.not_mem_nil, or_false] at hnet
  rcases hnet with rfl | rfl | rfl <;> exact Net.aligned_ofPrefix _ (by decide) (by decide)

end NetSet

/-! ### The file -/

/-- A valid line: the protocols that it applies to, and its prefix. -/
structure AllowlistEntry where
  udp : Bool
  tcp : Bool
  net : Net
  deriving DecidableEq

structure Allowlist where
  udp : List Net
  tcp : List Net
  invalidLines : ℕ

section File

variable (std : StdParsers)

/-- What the words of a line say. -/
def entryOf : List String → Option AllowlistEntry
  | [cidr] => (Net.parse std cidr).map fun net => ⟨true, true, net⟩
  | ["udp", cidr] => (Net.parse std cidr).map fun net => ⟨true, false, net⟩
  | ["tcp", cidr] => (Net.parse std cidr).map fun net => ⟨false, true, net⟩
  | _ => none

/-- A line without its comment. -/
def stripComment (line : String) : String :=
  trim (String.ofList (line.toList.takeWhile (· ≠ '#')))

/-- The list after one more line of the file. -/
def Allowlist.addLine (list : Allowlist) (line : String) : Allowlist :=
  let line := stripComment line
  if line.isEmpty then list
  else
    match entryOf std (splitWhitespace line) with
    | some entry =>
        { list with
          udp := if entry.udp then list.udp ++ [entry.net] else list.udp
          tcp := if entry.tcp then list.tcp ++ [entry.net] else list.tcp }
    | none => { list with invalidLines := list.invalidLines + 1 }

def parseAllowlist (text : String) : Allowlist :=
  (lines text).foldl (Allowlist.addLine std) ⟨[], [], 0⟩

/-- The entry of a line, if the line is valid. -/
def lineEntry (line : String) : Option AllowlistEntry :=
  let line := stripComment line
  if line.isEmpty then none else entryOf std (splitWhitespace line)

/-- The entries of the valid lines of a text. -/
def validEntries (text : String) : List AllowlistEntry := (lines text).filterMap (lineEntry std)

variable {std}

theorem block_of_entryOf {words : List String} {entry : AllowlistEntry}
    (h : entryOf std words = some entry) : ∃ k, entry.net.Block k := by
  unfold entryOf at h
  split at h <;> simp only [Option.map_eq_some_iff, reduceCtorEq] at h
  all_goals
    obtain ⟨net, hnet, rfl⟩ := h
    exact (Net.aligned_of_parse hnet).block

theorem block_of_validEntries {text : String} {entry : AllowlistEntry}
    (h : entry ∈ validEntries std text) : ∃ k, entry.net.Block k := by
  obtain ⟨line, -, hline⟩ := List.mem_filterMap.1 h
  unfold lineEntry at hline
  simp only at hline
  split at hline
  · cases hline
  · exact block_of_entryOf hline

/-- A line adds the prefix of its entry, if it has one, to the protocols that it applies to. -/
theorem Allowlist.addLine_eq (list : Allowlist) (line : String) :
    (list.addLine std line).udp =
      list.udp ++ ((lineEntry std line).toList.filter (·.udp)).map (·.net) ∧
    (list.addLine std line).tcp =
      list.tcp ++ ((lineEntry std line).toList.filter (·.tcp)).map (·.net) := by
  unfold addLine lineEntry
  simp only
  split
  · simp
  · cases entryOf std (splitWhitespace (stripComment line)) with
    | none => simp
    | some entry => cases hudp : entry.udp <;> cases htcp : entry.tcp <;> simp [hudp, htcp]

theorem parseAllowlist_eq (text : String) :
    (parseAllowlist std text).udp = ((validEntries std text).filter (·.udp)).map (·.net) ∧
    (parseAllowlist std text).tcp = ((validEntries std text).filter (·.tcp)).map (·.net) := by
  have hfold : ∀ (rest : List String) (list : Allowlist),
      (rest.foldl (Allowlist.addLine std) list).udp =
        list.udp ++ ((rest.filterMap (lineEntry std)).filter (·.udp)).map (·.net) ∧
      (rest.foldl (Allowlist.addLine std) list).tcp =
        list.tcp ++ ((rest.filterMap (lineEntry std)).filter (·.tcp)).map (·.net) := by
    intro rest
    induction rest with
    | nil => simp
    | cons line rest ih =>
        intro list
        obtain ⟨hudp, htcp⟩ := @Allowlist.addLine_eq std list line
        rw [List.foldl_cons, (ih _).1, (ih _).2, hudp, htcp]
        cases h : lineEntry std line <;> simp [h, List.filter_cons]
        constructor <;> split <;> simp
  exact hfold (lines text) ⟨[], [], 0⟩

/-- The prefixes of the valid lines that pass a test decide like a scan of these lines. -/
theorem contains_new_filter_iff (text : String) (p : AllowlistEntry → Bool) (dst : Ipv4Addr) :
    (NetSet.new (((validEntries std text).filter p).map (·.net))).contains dst = true ↔
      ∃ e ∈ validEntries std text, p e = true ∧ e.net.contains dst.toBits = true := by
  rw [NetSet.contains_new_iff]
  · simp only [List.mem_map, List.mem_filter]
    constructor
    · rintro ⟨net, ⟨e, ⟨he, hp⟩, rfl⟩, hin⟩
      exact ⟨e, he, hp, hin⟩
    · rintro ⟨e, he, hp, hin⟩
      exact ⟨e.net, ⟨e, ⟨he, hp⟩, rfl⟩, hin⟩
  · intro net hnet
    obtain ⟨e, he, rfl⟩ := List.mem_map.1 hnet
    exact block_of_validEntries (List.mem_filter.1 he).1

end File

/-! ### The policy -/

/-- The prefixes that the policy falls back on. -/
def builtInRoblox : List String :=
  ["128.116.0.0/17", "103.140.28.0/23", "141.193.3.0/24", "205.201.62.0/24", "204.13.168.0/24",
    "204.13.169.0/24", "204.13.170.0/24", "204.13.171.0/24", "204.13.172.0/24", "204.13.173.0/24",
    "204.13.174.0/24", "204.9.184.0/24", "23.173.192.0/24"]

/-- One unlisted packet in so many goes into the tally. -/
def sampleEvery : UInt64 := 16

/-- A policy, with why it does not enforce although it was asked to, what there is to note about the
file, and where its prefixes come from. -/
structure BuiltPolicy extends DestPolicy where
  enforceRefused : Option String
  notes : List String
  source : String

section Build

variable (std : StdParsers)

/-- What there is to note about the file, and its list, if that can be used. -/
def loadAllowlist : Option (String × Except String String) →
    List String × Option (String × Allowlist)
  | none => ([], none)
  | some (path, .error error) =>
      (["cannot read " ++ path ++ ": " ++ error ++ "; using the built-in list"], none)
  | some (path, .ok text) =>
      let list := parseAllowlist std text
      let notes :=
        if list.invalidLines > 0 then
          [path ++ ": skipped " ++ toString list.invalidLines ++ " unreadable lines"]
        else []
      if list.udp.isEmpty || list.tcp.isEmpty then
        (notes ++ [path ++ " needs prefixes for both UDP and TCP; using the built-in list"], none)
      else (notes, some (path, list))

/-- The policy for a requested mode, a file with its contents or the error of reading it, and the
permitted TCP ports. -/
def DestPolicy.build (requested : DestPolicy.Mode) (file : Option (String × Except String String))
    (tcpPorts : List UInt16) : BuiltPolicy :=
  let (notes, loaded) := loadAllowlist std file
  let refused := requested = .enforce && loaded.isNone
  let (source, udp, tcp) := match loaded with
    | some (path, list) => (path, list.udp, list.tcp)
    | none =>
        let roblox := builtInRoblox.filterMap (Net.parse std)
        ("built-in", roblox, roblox)
  { mode := if refused then .observe else requested
    enforceRefused :=
      if refused then
        some ("enforce needs a readable RELAY_DEST_ALLOWLIST_FILE covering UDP and TCP. " ++
          "The built-in list has no CloudFront ranges, so enforcing it would cut Route Assist")
      else none
    notes, source
    udp := .new udp
    tcp := .new tcp
    tcpPorts
    sampleEvery := SwiftRelay.sampleEvery }

/-- A file that was read and has valid lines for both protocols. -/
def Usable (file : Option (String × Except String String)) : Prop :=
  ∃ path text, file = some (path, .ok text) ∧
    (∃ e ∈ validEntries std text, e.udp = true) ∧ ∃ e ∈ validEntries std text, e.tcp = true

variable {std} {file : Option (String × Except String String)}

theorem loadAllowlist_of_usable {path text : String}
    (hudp : ∃ e ∈ validEntries std text, e.udp = true)
    (htcp : ∃ e ∈ validEntries std text, e.tcp = true) :
    (loadAllowlist std (some (path, .ok text))).2 = some (path, parseAllowlist std text) := by
  have hlists : ¬ ((parseAllowlist std text).udp.isEmpty ||
      (parseAllowlist std text).tcp.isEmpty) = true := by
    simpa [parseAllowlist_eq] using ⟨hudp, htcp⟩
  simp [loadAllowlist, hlists]

theorem loadAllowlist_of_not_usable (h : ¬ Usable std file) :
    (loadAllowlist std file).2 = none := by
  unfold loadAllowlist
  split
  · rfl
  · rfl
  · next path text =>
      simp only
      split
      · rfl
      · next hlists =>
          refine absurd ⟨path, text, rfl, ?_⟩ h
          simpa [parseAllowlist_eq] using hlists

/-- Nothing is enforced unless that was asked for and the file can be used. -/
theorem build_mode (requested : DestPolicy.Mode) (tcpPorts : List UInt16)
    (h : ¬ (requested = .enforce ∧ Usable std file)) :
    (DestPolicy.build std requested file tcpPorts).mode ≠ .enforce := by
  unfold DestPolicy.build
  by_cases henforce : requested = .enforce
  · simp [henforce, loadAllowlist_of_not_usable fun husable => h ⟨henforce, husable⟩]
  · simp [henforce]

theorem build_of_usable (requested : DestPolicy.Mode) (tcpPorts : List UInt16) {path text : String}
    (hudp : ∃ e ∈ validEntries std text, e.udp = true)
    (htcp : ∃ e ∈ validEntries std text, e.tcp = true) :
    (DestPolicy.build std requested (some (path, .ok text)) tcpPorts).toDestPolicy =
      ⟨requested, .new (parseAllowlist std text).udp, .new (parseAllowlist std text).tcp, tcpPorts,
        sampleEvery⟩ := by
  simp only [DestPolicy.build, loadAllowlist_of_usable hudp htcp, Option.isNone_some,
    Bool.and_false, Bool.false_eq_true, if_false]

/-- Where the policy enforces, the lines are scanned. -/
theorem permits_enforced_iff (tcpPorts : List UInt16) (protocol : UInt8) (dst : Ipv4Addr)
    (port : Option UInt16) (stats : DestStats) {path text : String}
    (hudp : ∃ e ∈ validEntries std text, e.udp = true)
    (htcp : ∃ e ∈ validEntries std text, e.tcp = true) :
    ((DestPolicy.build std .enforce (some (path, .ok text)) tcpPorts).permits protocol dst port
        stats).1 = true ↔
      (protocol ≠ 6 ∧
        ∃ e ∈ validEntries std text, e.udp = true ∧ e.net.contains dst.toBits = true) ∨
      (protocol = 6 ∧
        (∃ e ∈ validEntries std text, e.tcp = true ∧ e.net.contains dst.toBits = true) ∧
        ∀ p, port = some p → p ∈ tcpPorts) := by
  rw [DestPolicy.permits_fst, build_of_usable .enforce tcpPorts hudp htcp, DestPolicy.allows_iff,
    (parseAllowlist_eq text).1, (parseAllowlist_eq text).2, contains_new_filter_iff,
    contains_new_filter_iff]

theorem permits_of_not_enforced (tcpPorts : List UInt16) (protocol : UInt8) (dst : Ipv4Addr)
    (port : Option UInt16) (stats : DestStats) {requested : DestPolicy.Mode}
    (h : ¬ (requested = .enforce ∧ Usable std file)) :
    ((DestPolicy.build std requested file tcpPorts).permits protocol dst port stats).1 = true := by
  rw [DestPolicy.permits_fst]
  simp [DestPolicy.allows, build_mode requested tcpPorts h]

/-- **The judgement is a scan of the lines.** With a usable file and in enforce mode, a packet may
be forwarded exactly when some valid line that applies to its protocol contains the destination and,
for TCP, the port is absent or permitted.  In every other case everything may be forwarded.  Hence
the judgement depends on nothing but which valid lines there are. -/
theorem permits_iff_some_line (std : StdParsers) (tcpPorts : List UInt16) (protocol : UInt8)
    (dst : Ipv4Addr) (port : Option UInt16) (stats : DestStats) :
    (∀ path text, (∃ e ∈ validEntries std text, e.udp = true) →
      (∃ e ∈ validEntries std text, e.tcp = true) →
      (((DestPolicy.build std .enforce (some (path, .ok text)) tcpPorts).permits protocol dst port
          stats).1 = true ↔
        (protocol ≠ 6 ∧
          ∃ e ∈ validEntries std text, e.udp = true ∧ e.net.contains dst.toBits = true) ∨
        (protocol = 6 ∧
          (∃ e ∈ validEntries std text, e.tcp = true ∧ e.net.contains dst.toBits = true) ∧
          ∀ p, port = some p → p ∈ tcpPorts))) ∧
    (∀ requested file, ¬ (requested = .enforce ∧ Usable std file) →
      ((DestPolicy.build std requested file tcpPorts).permits protocol dst port stats).1 = true) ∧
    (∀ requested path text text',
      (∀ e, e ∈ validEntries std text ↔ e ∈ validEntries std text') →
      ((DestPolicy.build std requested (some (path, .ok text)) tcpPorts).permits protocol dst port
          stats).1 =
        ((DestPolicy.build std requested (some (path, .ok text')) tcpPorts).permits protocol dst
          port stats).1) := by
  refine ⟨fun path text hudp htcp =>
      permits_enforced_iff tcpPorts protocol dst port stats hudp htcp,
    fun requested file h => permits_of_not_enforced tcpPorts protocol dst port stats h, ?_⟩
  intro requested path text text' hsame
  have husable : Usable std (some (path, .ok text)) ↔ Usable std (some (path, .ok text')) := by
    simp [Usable, hsame]
  by_cases h : requested = .enforce ∧ Usable std (some (path, .ok text))
  · obtain ⟨rfl, path', text₀, heq, hudp, htcp⟩ := h
    cases heq
    rw [Bool.eq_iff_iff, permits_enforced_iff tcpPorts protocol dst port stats hudp htcp,
      permits_enforced_iff tcpPorts protocol dst port stats (by simpa only [hsame] using hudp)
        (by simpa only [hsame] using htcp)]
    simp only [hsame]
  · rw [permits_of_not_enforced tcpPorts protocol dst port stats h,
      permits_of_not_enforced tcpPorts protocol dst port stats fun h' =>
        h ⟨h'.1, husable.2 h'.2⟩]

end Build

/-- Parsers that know the texts of the sample below. -/
def sampleStd : StdParsers where
  ipv4 text := if text = "8.0.0.0" then some ⟨8, 0, 0, 0⟩
    else if text = "9.7.0.0" then some ⟨9, 7, 0, 0⟩ else none
  u32 text := if text = "8" then some 8 else if text = "16" then some 16 else none

/-- A line for TCP with a comment, a line for both protocols twice, and a line that is not valid. -/
def sampleAllowlist : String := "tcp 8.0.0.0/8 # web\n9.7.0.0/16\n9.7.0.0/16\nicmp 8.0.0.0/8\n"

theorem validEntries_sampleAllowlist :
    validEntries sampleStd sampleAllowlist =
      [⟨false, true, .ofPrefix ⟨8, 0, 0, 0⟩ 8⟩, ⟨true, true, .ofPrefix ⟨9, 7, 0, 0⟩ 16⟩,
        ⟨true, true, .ofPrefix ⟨9, 7, 0, 0⟩ 16⟩] := by
  decide +kernel

/-- A web port on a network that is listed for TCP may be used, but not with UDP. -/
theorem permits_iff_some_line_sample :
    (∃ e ∈ validEntries sampleStd sampleAllowlist, e.udp = true) ∧
    (∃ e ∈ validEntries sampleStd sampleAllowlist, e.tcp = true) ∧
    ((DestPolicy.build sampleStd .enforce (some ("list", .ok sampleAllowlist)) [443]).permits 6
      ⟨8, 1, 2, 3⟩ (some 443) .new).1 = true ∧
    ¬ ((DestPolicy.build sampleStd .enforce (some ("list", .ok sampleAllowlist)) [443]).permits 17
      ⟨8, 1, 2, 3⟩ (some 443) .new).1 = true := by
  have hudp : ∃ e ∈ validEntries sampleStd sampleAllowlist, e.udp = true := by
    simp [validEntries_sampleAllowlist]
  have htcp : ∃ e ∈ validEntries sampleStd sampleAllowlist, e.tcp = true := by
    simp [validEntries_sampleAllowlist]
  refine ⟨hudp, htcp, ?_, ?_⟩
  · rw [(permits_iff_some_line sampleStd [443] 6 ⟨8, 1, 2, 3⟩ (some 443) .new).1 _ _ hudp htcp,
      validEntries_sampleAllowlist]
    refine Or.inr ⟨rfl, ⟨_, List.mem_cons_self, rfl, by decide⟩, by simp⟩
  · rw [(permits_iff_some_line sampleStd [443] 17 ⟨8, 1, 2, 3⟩ (some 443) .new).1 _ _ hudp htcp,
      validEntries_sampleAllowlist]
    decide

end SwiftRelay
