import Mathlib.Logic.Equiv.Basic
import PriceOracle.Lib.HashChain
import PriceOracle.Lib.Run
import PriceOracle.Model.AuditLog
import PriceOracle.Model.Invocation

/-! # What the audit chain reveals

The check passes on a log as it was appended. On an altered log it passes exactly if the hashed
fields are those of the log up to some entry and every later entry was linked anew: a change of the
action, of the administrator, of the ledger or of the count to a lower one goes unnoticed, and so
does a tail that carries fresh hashes, because the check never looks at the head. -/

namespace PriceOracle.Audit

open Lib.MachineInt Lib.HashChain Lib.Run Model

/-- The fields of an entry that its hash is taken of. -/
structure HashedFields where
  previousHash : Bytes
  data : Bytes
  timestamp : UInt64
  id : UInt32
deriving DecidableEq

def auditScheme (h : Host) : Scheme AuditEntry HashedFields Bytes where
  hashed e := ⟨e.previousHash, e.data, e.timestamp, e.id⟩
  previous := HashedFields.previousHash
  digest x := h.sha256 (entryData x.previousHash x.data x.timestamp x.id)
  current := AuditEntry.currentHash

/-- The entries of a log in their order; identifiers start at one. -/
def chain (log : AuditLog) (i : Nat) : Option AuditEntry := log.entry (UInt32.ofNat (i + 1))

def AuditEntry.hashInput (e : AuditEntry) : Bytes :=
  entryData e.previousHash e.data e.timestamp e.id

/-- No entries of the two logs collide. -/
def NoCollision (h : Host) (log t : AuditLog) : Prop :=
  ∀ i j e e', log.entry i = some e → t.entry j = some e' →
    h.sha256 (AuditEntry.hashInput e') = h.sha256 (AuditEntry.hashInput e) →
    AuditEntry.hashInput e' = AuditEntry.hashInput e

def built (h : Host) (calls : List AuditCall) : AuditLog := run (appendAuditEntry h) {} calls

section Checking

variable {h : Host} {log t : AuditLog}

theorem verifyEntries_iff (n i : Nat) {previousHash : Bytes}
    (hbefore : before (auditScheme h) [] (chain log) i = some previousHash) :
    verifyEntries h log n (i+1) previousHash = true ↔
      ∀ j, i ≤ j → j < i + n → Linked (auditScheme h) [] (chain log) j := by
  induction n generalizing i previousHash with
  | zero =>
    constructor
    · omega
    · intro _
      rfl
  | succ n ih =>
    have hsplit : (∀ j, i ≤ j → j < i + (n+1) → Linked (auditScheme h) [] (chain log) j) ↔
        Linked (auditScheme h) [] (chain log) i ∧
          ∀ j, i+1 ≤ j → j < i+1 + n → Linked (auditScheme h) [] (chain log) j := by
      constructor
      · intro hall
        exact ⟨hall i (by omega) (by omega),fun j hj hj' => hall j (by omega) (by omega)⟩
      · rintro ⟨hfirst,hrest⟩ j hj hj'
        rcases Nat.eq_or_lt_of_le hj with rfl | hlt
        · exact hfirst
        · exact hrest j hlt (by omega)
    rw [hsplit,verifyEntries]
    cases he : log.entry (UInt32.ofNat (i+1)) with
    | none =>
      have hnot : ¬Linked (auditScheme h) [] (chain log) i := by
        rintro ⟨e,hsome,-⟩
        rw [chain,he] at hsome
        cases hsome
      simp [hnot]
    | some e =>
      have hlinked : Linked (auditScheme h) [] (chain log) i ↔
          e.previousHash = previousHash ∧
            h.sha256 (entryData e.previousHash e.data e.timestamp e.id) = e.currentHash := by
        constructor
        · rintro ⟨x,hx,hprevious,hdigest⟩
          obtain rfl : e = x := Option.some.inj (he.symm.trans hx)
          exact ⟨Option.some.inj (hprevious.symm.trans hbefore),hdigest.symm⟩
        · rintro ⟨hprevious,hdigest⟩
          exact ⟨e,he,hbefore.trans (congrArg some hprevious.symm),hdigest.symm⟩
      dsimp only
      rw [hlinked]
      split_ifs with hprevious hdigest
      · simp [hprevious]
      · simp [hdigest]
      · rw [ih (i+1) (by rw [before,chain,he]; rfl)]
        exact (and_iff_right ⟨not_not.1 hprevious,not_not.1 hdigest⟩).symm

theorem verifyAuditChain_iff :
    verifyAuditChain h log = true ↔
      Intact (auditScheme h) [] (chain log) log.getAuditLogCount.toNat := by
  unfold verifyAuditChain
  split_ifs with hzero
  · simp [hzero,Intact]
  · rw [verifyEntries_iff _ 0 rfl]
    simp [Intact]

theorem entryData_inj {p p' d d' : Bytes} {ts ts' : UInt64} {i i' : UInt32}
    (hlength : p'.length = p.length) (h : entryData p' d' ts' i' = entryData p d ts i) :
    p' = p ∧ d' = d ∧ ts' = ts ∧ i' = i := by
  obtain ⟨hrest,hid⟩ := List.append_inj' h (by rw [leBytes_length,leBytes_length])
  obtain ⟨hrest,hts⟩ := List.append_inj' hrest (by rw [leBytes_length,leBytes_length])
  obtain ⟨hp,hd⟩ := List.append_inj hrest hlength
  refine ⟨hp,hd,?_,?_⟩
  · exact UInt64.toNat_inj.1 (leBytes_inj ts'.toNat_lt ts.toNat_lt hts)
  · exact UInt32.toNat_inj.1 (leBytes_inj i'.toNat_lt i.toNat_lt hid)

/-- Digests have 32 bytes; only the first entry names no predecessor. -/
theorem previousHash_length (hlen : ∀ b, (h.sha256 b).length = 32) {i : Nat} {e : AuditEntry}
    (hchecked : Intact (auditScheme h) [] (chain log) (i+1)) (he : chain log i = some e) :
    e.previousHash.length = if i = 0 then 0 else 32 := by
  obtain ⟨x,hx,hbefore,-⟩ := hchecked i i.lt_succ_self
  obtain rfl : e = x := Option.some.inj (he.symm.trans hx)
  cases i with
  | zero =>
    rw [← show [] = e.previousHash from Option.some.inj hbefore]
    rfl
  | succ i =>
    obtain ⟨y,hy,-,hdigest⟩ := hchecked i (by omega)
    rw [before,hy] at hbefore
    rw [← show y.currentHash = e.previousHash from Option.some.inj hbefore,if_neg i.succ_ne_zero,
      show y.currentHash = h.sha256 _ from hdigest,hlen]

theorem collisionFree (hlen : ∀ b, (h.sha256 b).length = 32) (hcoll : NoCollision h log t) :
    CollisionFree (auditScheme h) [] (chain log) (chain t) := by
  intro i e e' he he' hc hd hdigest
  have hlength : e'.previousHash.length = e.previousHash.length := by
    rw [previousHash_length hlen hc he,previousHash_length hlen hd he']
  obtain ⟨hprevious,hdata,hts,hid⟩ := entryData_inj hlength (hcoll _ _ e e' he he' hdigest)
  change HashedFields.mk _ _ _ _ = HashedFields.mk _ _ _ _
  rw [hprevious,hdata,hts,hid]

end Checking

section Building

variable {h : Host}

/-- The log after `n` calls. From the second round of the 32-bit identifiers on, the first entry
names a predecessor. -/
structure Appended (h : Host) (n : Nat) (log : AuditLog) : Prop where
  count : log.getAuditLogCount.toNat = n % 2 ^ 32
  head : log.getAuditLogHead.length = if n = 0 then 0 else 32
  intact : n < 2 ^ 32 → Intact (auditScheme h) [] (chain log) n ∧
    before (auditScheme h) [] (chain log) n = some log.getAuditLogHead
  stale : 2 ^ 32 < n → ∃ e, chain log 0 = some e ∧ e.previousHash.length = 32

/-- The entry that a call appends. -/
def newEntry (h : Host) (log : AuditLog) (call : AuditCall) : AuditEntry :=
  ⟨log.getAuditLogCount + 1, call.action, call.admin, call.data, call.ledger, call.timestamp,
    log.getAuditLogHead, h.sha256 (entryData log.getAuditLogHead call.data call.timestamp
      (log.getAuditLogCount + 1))⟩

/-- A call writes the entry at the place its identifier names, and no other. -/
theorem chain_append (log : AuditLog) (call : AuditCall) (i : Nat) :
    chain (appendAuditEntry h log call) i =
      if UInt32.ofNat (i+1) = log.getAuditLogCount+1 then some (newEntry h log call)
      else chain log i := by
  unfold chain appendAuditEntry
  split_ifs with hi
  · rw [hi]
    exact Function.update_self _ _ _
  · exact Function.update_of_ne hi _ _

theorem Appended.step (hlen : ∀ b, (h.sha256 b).length = 32) {n : Nat} {log : AuditLog}
    (hlog : Appended h n log) (call : AuditCall) :
    Appended h (n+1) (appendAuditEntry h log call) := by
  have hid : (log.getAuditLogCount+1).toNat = (n+1) % 2 ^ 32 := by
    rw [UInt32.toNat_add,hlog.count,UInt32.toNat_one]
    omega
  have hkey (i : Nat) : UInt32.ofNat (i+1) = log.getAuditLogCount+1 ↔
      (i+1) % 2 ^ 32 = (n+1) % 2 ^ 32 := by
    rw [← UInt32.toNat_inj,UInt32.toNat_ofNat',hid]
  refine ⟨hid,?_,fun hn => ?_,fun hn => ?_⟩
  · exact hlen _
  · obtain ⟨hintact,hbefore⟩ := hlog.intact (by omega)
    have hold (i : Nat) (hi : i < n) :
        chain (appendAuditEntry h log call) i = chain log i := by
      rw [chain_append,if_neg ((hkey i).not.2 (by omega))]
    have hnew : chain (appendAuditEntry h log call) n = some (newEntry h log call) := by
      rw [chain_append,if_pos ((hkey n).2 rfl)]
    refine ⟨hintact.extend hold hnew hbefore rfl,?_⟩
    rw [before,hnew]
    rfl
  · rw [chain_append]
    split_ifs with hfirst
    · refine ⟨_,rfl,?_⟩
      have hne : n ≠ 0 := by omega
      exact hlog.head.trans (if_neg hne)
    · refine hlog.stale ?_
      have hnot := (hkey 0).not.1 hfirst
      omega

theorem built_appended (hlen : ∀ b, (h.sha256 b).length = 32) (calls : List AuditCall) :
    Appended h calls.length (built h calls) := by
  induction calls using List.reverseRecOn with
  | nil => exact ⟨rfl,rfl,fun _ => ⟨fun i hi => absurd hi i.not_lt_zero,rfl⟩,fun hn => by simp at hn⟩
  | append_singleton calls call ih =>
    rw [List.length_append,List.length_singleton,built,run_append,run_cons,run_nil]
    exact ih.step hlen call

theorem verify_built (hlen : ∀ b, (h.sha256 b).length = 32) (calls : List AuditCall) :
    verifyAuditChain h (built h calls) = true ↔
      calls.length < 2 ^ 32 ∨ calls.length % 2 ^ 32 = 0 := by
  have hbuilt := built_appended hlen calls
  rw [verifyAuditChain_iff,hbuilt.count]
  constructor
  · intro hintact
    by_cases hlt : calls.length < 2 ^ 32
    · exact .inl hlt
    · by_cases hzero : calls.length % 2 ^ 32 = 0
      · exact .inr hzero
      · -- the first entry was appended again, behind the last of the first round
        obtain ⟨e,he,hlength⟩ := hbuilt.stale (by omega)
        have hfirst := previousHash_length hlen (hintact.mono (Nat.one_le_iff_ne_zero.2 hzero)) he
        rw [hlength] at hfirst
        cases hfirst
  · rintro (hlt | hzero)
    · rw [Nat.mod_eq_of_lt hlt]
      exact (hbuilt.intact hlt).1
    · rw [hzero]
      intro i hi
      exact absurd hi i.not_lt_zero

end Building

section Tampering

variable {h : Host}

/-- The stored log is the log after the calls up to some entry, and every later entry was linked
anew under a hash that the log does not have there. -/
def Reforged (h : Host) (log t : AuditLog) : Prop :=
  Forged (auditScheme h) [] (chain log) (chain t) log.getAuditLogCount.toNat
    t.getAuditLogCount.toNat

/-- The last entry of the log still carries the recorded head. -/
def EndsInHead (t : AuditLog) : Prop :=
  ∀ e, t.entry t.getAuditLogCount = some e → e.currentHash = t.getAuditLogHead

theorem verify_iff_reforged (hlen : ∀ b, (h.sha256 b).length = 32) {log t : AuditLog}
    (hcoll : NoCollision h log t) (hlog : verifyAuditChain h log = true) :
    verifyAuditChain h t = true ↔ Reforged h log t :=
  verifyAuditChain_iff.trans
    (intact_iff_forged (collisionFree hlen hcoll) (verifyAuditChain_iff.1 hlog))

theorem chain_last {log : AuditLog} {n : Nat} (hn : log.getAuditLogCount.toNat = n+1) :
    chain log n = log.entry log.getAuditLogCount := by
  rw [chain,← hn,UInt32.ofNat_toNat]

/-- As long as the last entry carries the recorded head, a changed hashed field is found. -/
theorem verify_iff_agree (hlen : ∀ b, (h.sha256 b).length = 32) (calls : List AuditCall)
    (hlt : calls.length < 2 ^ 32) {t : AuditLog} (hcoll : NoCollision h (built h calls) t)
    (hhead : t.head = (built h calls).head) (hcount : t.entryCount = (built h calls).entryCount)
    (hend : EndsInHead t) :
    verifyAuditChain h t = true ↔
      ∀ i < calls.length, Agree (auditScheme h) (chain (built h calls)) (chain t) i := by
  have hbuilt := built_appended hlen calls
  obtain ⟨hintact,hbefore⟩ := hbuilt.intact hlt
  have hlength : (built h calls).getAuditLogCount.toNat = calls.length :=
    hbuilt.count.trans (Nat.mod_eq_of_lt hlt)
  have hsame : t.getAuditLogCount = (built h calls).getAuditLogCount := by
    rw [AuditLog.getAuditLogCount,hcount,AuditLog.getAuditLogCount]
  constructor
  · intro hverify
    rw [verifyAuditChain_iff,hsame,hlength] at hverify
    cases hn : calls.length with
    | zero => exact fun i hi => absurd hi i.not_lt_zero
    | succ n =>
      rw [hn] at hverify hintact hbefore hlength
      obtain ⟨e,he,-⟩ := hintact n n.lt_succ_self
      obtain ⟨e',he',-⟩ := hverify n n.lt_succ_self
      refine agree_of_same_end (collisionFree hlen hcoll) hintact hverify he he' ?_
      rw [before,he] at hbefore
      have hlast : t.entry t.getAuditLogCount = some e' :=
        (chain_last (hsame ▸ hlength)).symm.trans he'
      change e'.currentHash = e.currentHash
      rw [hend e' hlast,AuditLog.getAuditLogHead,hhead]
      exact (Option.some.inj hbefore).symm
  · intro hagree
    rw [verify_iff_reforged hlen hcoll ((verify_built hlen calls).2 (.inl hlt)),Reforged,hsame,
      hlength]
    exact ⟨calls.length,Nat.le_refl _,Nat.le_refl _,hagree,fun i hi hi' => by omega⟩

end Tampering

/-- The check passes on the log as it was appended and fails on a stored one exactly if the
identifiers did not run over and the stored log was not forged by linking a tail anew. While the
last entry carries the recorded head, this means that some hashed field was changed. -/
theorem audit_chain_detects_iff (h : Host) (hlen : ∀ b, (h.sha256 b).length = 32)
    (calls : List AuditCall) (t : AuditLog) (hcoll : NoCollision h (built h calls) t)
    (hhead : t.head = (built h calls).head) :
    (verifyAuditChain h (built h calls) = true ∧ verifyAuditChain h t = false ↔
      (calls.length < 2 ^ 32 ∨ calls.length % 2 ^ 32 = 0) ∧ ¬Reforged h (built h calls) t) ∧
    (calls.length < 2 ^ 32 → t.entryCount = (built h calls).entryCount → EndsInHead t →
      (verifyAuditChain h t = false ↔
        ∃ i < calls.length, ¬Agree (auditScheme h) (chain (built h calls)) (chain t) i)) := by
  constructor
  · rw [← verify_built hlen calls,← Bool.not_eq_true]
    exact and_congr_right fun hbuilt => (verify_iff_reforged hlen hcoll hbuilt).not
  · intro hlt hcount hend
    rw [← Bool.not_eq_true,verify_iff_agree hlen calls hlt hcoll hhead hcount hend]
    push Not
    rfl

/-- The preimage of the first entry, with the data `byte`, at time `20`. -/
def preimageOf (byte : UInt8) : Bytes := [byte] ++ leBytes 8 20 ++ leBytes 4 1

def digestOf1 : Bytes :=
  [240, 38, 114, 100, 63, 229, 85, 221, 146, 56, 90, 238, 148, 16, 101, 32, 231, 56, 85, 20,
    237, 138, 132, 79, 54, 94, 192, 77, 118, 174, 219, 186]

def digestOf2 : Bytes :=
  [136, 8, 249, 36, 1, 186, 155, 223, 223, 35, 120, 200, 11, 111, 59, 153, 220, 51, 14, 80, 38,
    99, 215, 156, 238, 28, 76, 146, 67, 76, 223, 44]

def pauseCall : AuditCall := ⟨5, 20, "pause", 7, [1]⟩

def withEntry (f : AuditEntry → AuditEntry) (log : AuditLog) : AuditLog :=
  { log with entry := fun i => (log.entry i).map f }

/-- A hash without collisions that agrees with SHA-256 on `preimageOf 1`. -/
def injectiveHost : Host := { checksumHost with sha256 := Equiv.swap (preimageOf 1) digestOf1 }

/-- Neither another administrator nor an emptied log is noticed. -/
theorem other_admin_unnoticed :
    Function.Injective injectiveHost.sha256 ∧
      verifyAuditChain injectiveHost (withEntry (fun e => { e with admin := 8 })
        (built injectiveHost [pauseCall])) = true ∧
      (built injectiveHost [pauseCall]).entry 1 ≠
        (withEntry (fun e => { e with admin := 8 }) (built injectiveHost [pauseCall])).entry 1 ∧
      verifyAuditChain injectiveHost { built injectiveHost [pauseCall] with entryCount := some 0 } =
        true := by
  refine ⟨(Equiv.swap _ _).injective,by decide +kernel,by decide +kernel,by decide +kernel⟩

/-- A host whose hash is SHA-256 on both preimages. -/
def digestHost : Host := { checksumHost with
  sha256 := fun b =>
    if b = preimageOf 1 then digestOf1 else if b = preimageOf 2 then digestOf2 else checksum b }

theorem digestHost_length (b : Bytes) : (digestHost.sha256 b).length = 32 := by
  change (if b = preimageOf 1 then digestOf1 else if b = preimageOf 2 then digestOf2
    else checksum b).length = 32
  split_ifs
  · rfl
  · rfl
  · exact leBytes_length _ _

/-- The log of the pause, and the same log with other data in its entry. -/
def paused : AuditLog := built digestHost [pauseCall]

def altered : AuditLog := withEntry (fun e => { e with data := [2] }) paused

theorem paused_entry {i : UInt32} {e : AuditEntry} (h : paused.entry i = some e) :
    e = newEntry digestHost {} pauseCall := by
  rcases Lib.Footprint.stored_of_update h with ⟨-,he⟩ | hnone
  · exact he
  · cases hnone

theorem altered_entry {i : UInt32} {e : AuditEntry} (h : altered.entry i = some e) :
    e = { newEntry digestHost {} pauseCall with data := [2] } := by
  obtain ⟨x,hx,rfl⟩ := Option.map_eq_some_iff.1 h
  rw [paused_entry hx]

/-- Changed data are noticed. -/
theorem other_data_noticed : verifyAuditChain digestHost altered = false := by
  refine ((audit_chain_detects_iff digestHost digestHost_length [pauseCall] altered ?_ rfl).2
    (by decide) rfl ?_).2 ⟨0,by decide,?_⟩
  · intro i j e e' he he' hdigest
    rw [paused_entry he,altered_entry he'] at hdigest
    exact absurd hdigest (by decide +kernel)
  · intro e he
    rw [altered_entry he]
    rfl
  · rintro ⟨e,e',he,he',hhashed,-⟩
    rw [paused_entry he,altered_entry he'] at hhashed
    exact absurd hhashed (by decide +kernel)

end PriceOracle.Audit
