import PriceOracle.Aggregation.Completion
import PriceOracle.Aggregation.Idle
import PriceOracle.Sources.Heartbeats
import PriceOracle.Sources.Roster

/-! # What the contract holds of a source, and what a removal leaves of it

The bond of a source and the records kept under its address. The functions that remove sources act
on these alone, and on nothing that another source is judged by. -/

namespace PriceOracle.Sources

open Lib.Transaction Lib.MachineInt Model Aggregation

/-- The bonds of the sources and the funds they are settled from. -/
@[ext] structure Ledger where
  deposit : Address → Int
  treasury : Int
  balance : Balances
  stakeToken : Option Address

namespace Ledger

variable (l : Ledger) {forfeits : Address → Bool} {host : Host} {source : Address}

def refund (host : Host) (source : Address) : Option Balances :=
  l.stakeToken.bind fun token =>
    host.transfer token host.contractAddress source (l.deposit source) l.balance

/-- A bond is settled once: it goes to the treasury if it is forfeited, and back otherwise. -/
def pay (host : Host) (forfeits : Address → Bool) (source : Address) : Option Ledger :=
  if 0 < l.deposit source then
    if forfeits source then
      some { l with
        treasury := wrapAdd l.treasury (l.deposit source)
        deposit := Function.update l.deposit source 0 }
    else (l.refund host source).map fun balance =>
      { l with balance := balance, deposit := Function.update l.deposit source 0 }
  else some l

/-- What the contract does: the bond goes also where it cannot be sent back. -/
def settle (host : Host) (forfeits : Address → Bool) (source : Address) : Ledger :=
  (l.pay host forfeits source).getD { l with deposit := Function.update l.deposit source 0 }

theorem settle_of_pos (h : 0 < l.deposit source) : l.settle host forfeits source =
      if forfeits source then { l with
        treasury := wrapAdd l.treasury (l.deposit source)
        deposit := Function.update l.deposit source 0 }
      else { l with
        balance := (l.refund host source).getD l.balance
        deposit := Function.update l.deposit source 0 } := by
  unfold settle pay
  split_ifs
  · rfl
  · cases l.refund host source <;> rfl

theorem settle_of_le (h : ¬0 < l.deposit source) : l.settle host forfeits source = l := by
  unfold settle pay
  rw [if_neg h,Option.getD_some]

theorem settle_deposit (source a : Address) : (l.settle host forfeits source).deposit a =
      if a = source then min (l.deposit a) 0 else l.deposit a := by
  by_cases h : 0 < l.deposit source
  · have hdeposit : (l.settle host forfeits source).deposit =
        Function.update l.deposit source 0 := by
      rw [settle_of_pos l h]
      split_ifs <;> rfl
    rw [hdeposit,Function.update_apply]
    split_ifs with ha
    · rw [ha]
      omega
    · rfl
  · rw [settle_of_le l h]
    split_ifs with ha
    · rw [ha]
      omega
    · rfl

theorem settle_congr {forfeits forfeits' : Address → Bool}
    (h : forfeits' source = forfeits source) :
    l.settle host forfeits' source = l.settle host forfeits source := by
  unfold settle pay
  rw [h]

end Ledger

/-- A fold over optional results that never lacks one is the fold over the results. -/
theorem foldlM_eq_some_iff {α β : Type} (f : α → β → Option α) (d : α → β → α) (a : α)
    (xs : List β) :
    xs.foldlM f a = some (xs.foldl (fun a x => (f a x).getD (d a x)) a) ↔
      (xs.foldlM f a).isSome = true := by
  induction xs generalizing a with
  | nil => simp
  | cons x xs ih =>
    rw [List.foldlM_cons,List.foldl_cons]
    cases f a x with
    | none => simp
    | some b => simpa using ih b

/-- The bonds, the records under the addresses of sources, and what the removals ask about. -/
@[ext] structure Holdings where
  ledger : Ledger
  listed : List Address
  active : Map Address Bool
  sourceAssets : Map Address (List Address)
  submissionKey : Map Address Bytes
  verification : Map Address SourceVerification
  verificationKey : Map Address SourceVerification
  submission : Map (Address × Address) PriceEntry
  revoked : Address → Bool
  legacySource : Address → Bool
  pendingRemoval : Map Address Nat
  admin : Option Address
  minSources : Option Nat

def ledger (st : Store) : Ledger where
  deposit := st.getSourceDepositedBond
  treasury := st.treasury.getD 0
  balance := st.custody.balance
  stakeToken := st.custody.stakeToken

def holdings (st : Store) : Holdings where
  ledger := ledger st
  listed := st.registry.sources
  active := st.registry.srcActive
  sourceAssets := st.gates.sourceAssets
  submissionKey := st.stats.submissionKey
  verification := st.sources.verification
  verificationKey := st.sources.verificationKey
  submission := st.submission
  revoked := st.sources.revokedAddress
  legacySource := st.sources.legacySource
  pendingRemoval := st.sources.pendingRemoval
  admin := st.config.admin
  minSources := st.config.minSources

namespace Holdings

variable (h : Holdings)

/-- `source` leaves the registry; what it has deposited and was given stays. -/
@[simps] def prune (source : Address) : Holdings :=
  { h with
    listed := h.listed.filter fun a => a ≠ source
    active := Function.update h.active source none }

/-- `source` leaves the registry with the records that let it submit. -/
@[simps] def deregister (source : Address) : Holdings where
  ledger := h.ledger
  listed := h.listed.filter fun a => a ≠ source
  active := Function.update h.active source none
  sourceAssets := Function.update h.sourceAssets source none
  submissionKey := Function.update h.submissionKey source none
  verification := Function.update h.verification source none
  verificationKey := Function.update h.verificationKey source none
  submission := h.submission
  revoked := h.revoked
  legacySource := h.legacySource
  pendingRemoval := h.pendingRemoval
  admin := h.admin
  minSources := h.minSources

@[simps] def settle (host : Host) (forfeits : Address → Bool) (source : Address) : Holdings :=
  { h with ledger := h.ledger.settle host forfeits source }

theorem settle_congr {host : Host} {forfeits forfeits' : Address → Bool} {source : Address}
    (heq : forfeits' source = forfeits source) :
    h.settle host forfeits' source = h.settle host forfeits source := by
  unfold settle
  rw [h.ledger.settle_congr heq]

/-- A removal settles the bond and takes the records. -/
def remove (host : Host) (forfeits : Address → Bool) (source : Address) : Holdings :=
  (h.settle host forfeits source).deregister source

/-- No record that lets the address take part. -/
structure Bare (source : Address) : Prop where
  submission : ∀ asset, h.submission (asset, source) = none
  sourceAssets : h.sourceAssets source = none
  submissionKey : h.submissionKey source = none
  verification : h.verification source = none
  verificationKey : h.verificationKey source = none

/-- Neither registration, nor bond, nor a record that lets the address submit. -/
structure Struck (source : Address) : Prop where
  unlisted : source ∉ h.listed
  inactive : h.active source = none
  settled : h.ledger.deposit source ≤ 0
  sourceAssets : h.sourceAssets source = none
  submissionKey : h.submissionKey source = none
  verification : h.verification source = none
  verificationKey : h.verificationKey source = none

/-- Nothing of the source is left that counts now, or would if the address came back. -/
structure Withdrawn (source : Address) : Prop where
  unlisted : source ∉ h.listed
  inactive : h.active source = none
  settled : h.ledger.deposit source ≤ 0
  bare : h.revoked source = false → h.Bare source

theorem Struck.withdrawn_iff {h : Holdings} {source : Address} (hs : h.Struck source) :
    h.Withdrawn source ↔
      (h.revoked source = false → ∀ asset, h.submission (asset,source) = none) := by
  constructor
  · intro hw hrevoked
    exact (hw.bare hrevoked).submission
  · intro hsubmission
    exact ⟨hs.unlisted,hs.inactive,hs.settled,fun hrevoked => ⟨hsubmission hrevoked,
      hs.sourceAssets,hs.submissionKey,hs.verification,hs.verificationKey⟩⟩

section Removals

variable (host : Host) (forfeits : Address → Bool)

theorem remove_struck_self (source : Address) : (h.remove host forfeits source).Struck source where
  unlisted := by simp [remove]
  inactive := by simp [remove]
  settled := by
    change (h.ledger.settle host forfeits source).deposit source ≤ 0
    rw [Ledger.settle_deposit,if_pos rfl]
    omega
  sourceAssets := by simp [remove]
  submissionKey := by simp [remove]
  verification := by simp [remove]
  verificationKey := by simp [remove]

/-- A removal brings nothing back. -/
theorem Struck.remove {h : Holdings} {a : Address} (hs : h.Struck a) (source : Address) :
    (h.remove host forfeits source).Struck a := by
  by_cases ha : a = source
  · rw [ha]
    exact h.remove_struck_self host forfeits source
  · have hdeposit : (h.remove host forfeits source).ledger.deposit a = h.ledger.deposit a := by
      change (h.ledger.settle host forfeits source).deposit a = _
      rw [Ledger.settle_deposit,if_neg ha]
    exact {
      unlisted := by simp [Holdings.remove,hs.unlisted]
      inactive := by simp [Holdings.remove,ha,hs.inactive]
      settled := hdeposit ▸ hs.settled
      sourceAssets := by simp [Holdings.remove,ha,hs.sourceAssets]
      submissionKey := by simp [Holdings.remove,ha,hs.submissionKey]
      verification := by simp [Holdings.remove,ha,hs.verification]
      verificationKey := by simp [Holdings.remove,ha,hs.verificationKey] }

/-- The removal of several sources, one after the other. -/
def removeAll (sources : List Address) : Holdings :=
  sources.foldl (fun h source => h.remove host forfeits source) h

variable (sources : List Address)

theorem removeAll_struck {source : Address} (hs : source ∈ sources ∨ h.Struck source) :
    (h.removeAll host forfeits sources).Struck source := by
  induction sources generalizing h with
  | nil => simpa [removeAll] using hs
  | cons a rest ih =>
    refine ih (h.remove host forfeits a) ?_
    rcases hs with hmem | hs
    · rcases List.mem_cons.1 hmem with rfl | hmem
      · exact .inr (h.remove_struck_self host forfeits source)
      · exact .inl hmem
    · exact .inr (hs.remove host forfeits a)

/-- The bonds are settled in turn, and the rest is none of a removal's business. -/
theorem removeAll_kept :
    (h.removeAll host forfeits sources).ledger =
        sources.foldl (fun l source => l.settle host forfeits source) h.ledger ∧
      (h.removeAll host forfeits sources).submission = h.submission ∧
      (h.removeAll host forfeits sources).revoked = h.revoked ∧
      (h.removeAll host forfeits sources).legacySource = h.legacySource ∧
      (h.removeAll host forfeits sources).pendingRemoval = h.pendingRemoval ∧
      (h.removeAll host forfeits sources).admin = h.admin ∧
      (h.removeAll host forfeits sources).minSources = h.minSources := by
  induction sources generalizing h with
  | nil => exact ⟨rfl,rfl,rfl,rfl,rfl,rfl,rfl⟩
  | cons a rest ih => exact ih (h.remove host forfeits a)

end Removals

end Holdings

def SameHoldings (w w' : World) : Prop := holdings w'.store = holdings w.store

instance : Std.Refl SameHoldings := ⟨fun _ => rfl⟩

instance : IsTrans World SameHoldings := ⟨fun _ _ _ h h' => Eq.trans h' h⟩

def heldRegions : List Region :=
  [.config, .gates, .registry, .stats, .submissions, .treasury, .custody, .sources]

section Effects

variable {α : Type} {T : List Region} {m : Contract α} {w w' : World} (source : Address)

theorem sameHoldings_of_frame (hT : ∀ r ∈ heldRegions, r ∉ T) (h : layout.agreeOff T w w') :
    SameHoldings w w' := by
  have hregistry := h .registry (hT _ (by decide))
  have hlisted : w'.store.registry.sources = w.store.registry.sources :=
    congrArg (fun v => v.2.2.1) hregistry
  have hactive : w'.store.registry.srcActive = w.store.registry.srcActive :=
    congrArg (fun v => v.2.2.2.1) hregistry
  have hbond : w'.store.registry.sourceBond = w.store.registry.sourceBond :=
    congrArg (fun v => v.2.2.2.2) hregistry
  have hsubmission : w'.store.submission = w.store.submission :=
    congrArg Prod.fst (h .submissions (hT _ (by decide)))
  have hconfig : w'.store.config = w.store.config := h .config (hT _ (by decide))
  have hgates : w'.store.gates = w.store.gates := h .gates (hT _ (by decide))
  have hstats : w'.store.stats = w.store.stats := h .stats (hT _ (by decide))
  have htreasury : w'.store.treasury = w.store.treasury := h .treasury (hT _ (by decide))
  have hcustody : w'.store.custody = w.store.custody := h .custody (hT _ (by decide))
  have hsources : w'.store.sources = w.store.sources := h .sources (hT _ (by decide))
  have hdeposit : w'.store.getSourceDepositedBond = w.store.getSourceDepositedBond := by
    funext a
    rw [Store.getSourceDepositedBond,Store.getSourceDepositedBond,hbond]
  unfold SameHoldings holdings ledger
  rw [hlisted,hactive,hdeposit,hsubmission,hconfig,hgates,hstats,htreasury,hcustody,hsources]

theorem keepsHoldings_of_frame (hm : Frame T m) (hT : ∀ r ∈ heldRegions, r ∉ T) :
    Preserves SameHoldings m :=
  hm.weaken fun _ _ => sameHoldings_of_frame hT

theorem update_holdings {f : World → World} (h : ∀ w, holdings (f w).store = holdings w.store) :
    Preserves SameHoldings (update f : Contract Unit) :=
  preserves_update h

theorem mark_holdings (f : FeatureFlag) : Preserves SameHoldings (mark f) := by
  refine preserves_update fun w => ?_
  split_ifs
  · exact Std.Refl.refl w
  · rfl

theorem recomputeBounded_holdings (assets : List Address) :
    Preserves SameHoldings (recomputeBounded assets) := by
  have hregions : RespectsRounds (layout.agreeOff
      [.aggregates,.history,.provenance,.rounds,.corrections]) :=
    respectsRounds_of_regions (List.Subset.refl _)
  exact keepsHoldings_of_frame (recomputeBounded_preserves hregions assets) (by decide)

theorem recomputeSourceChange_holdings : Preserves SameHoldings (recomputeSourceChange source) :=
  .read fun _ => recomputeBounded_holdings _

theorem recomputeAll_holdings : Preserves SameHoldings recomputeAll :=
  .read fun _ => recomputeBounded_holdings _

/-- A bond that is forfeited is settled with the treasury, whoever asks. -/
theorem forfeitSourceBondInternal_holdings (host : Host) (source : Address) :
    Sat (forfeitSourceBondInternal source) w fun _ w' =>
      holdings w'.store = (holdings w.store).settle host (fun _ => true) source := by
  have hdeposit : (holdings w.store).ledger.deposit source =
      w.store.getSourceDepositedBond source := rfl
  refine sat_ite _ (fun hpos => ?_) fun hzero => (sat_pure _).2 ?_
  · rw [sat_bind,sat_update]
    unfold writeSourceBond
    rw [sat_update]
    rw [Holdings.settle,Ledger.settle_of_pos _ (by rwa [hdeposit]),if_pos rfl]
    unfold holdings ledger
    congr 2
    funext a
    simp [Store.getSourceDepositedBond,Function.update_apply]
    split_ifs <;> rfl
  · rw [Holdings.settle,Ledger.settle_of_le _ (by rwa [hdeposit])]

theorem tripInactive_holdings (host : Host) (source : Address) (beaten : Bool) :
    Sat (tripInactive source beaten) w fun _ w' => SameHoldings w w' ∨
      holdings w'.store = (holdings w.store).settle host (fun _ => true) source := by
  have hnote : Preserves SameHoldings (noteInactiveSince source) :=
    .read fun _ => update_holdings fun _ => by rfl
  have hmark : Preserves SameHoldings (markSourceInactive source) :=
    (mark_holdings _).bind fun _ => update_holdings fun _ => by rfl
  have hguards : Preserves SameHoldings
      (updateGuards fun g => { g with anySourceExcluded := true }) :=
    .read fun _ => (mark_holdings _).bind fun _ =>
      update_holdings fun _ => by rfl
  refine (hmark w).andThen fun _ t ht => (hguards.from ht).andThen fun _ u hu => ?_
  refine sat_ite _ (fun _ => ?_) fun _ => (hnote.from hu).mono fun _ w' hw' => .inl hw'
  refine (forfeitSourceBondInternal_holdings host source).andThen fun _ v hv => ?_
  have hrest : Preserves SameHoldings (do
      noteInactiveSince source
      recomputeSourceChange source) := hnote.bind fun _ => recomputeSourceChange_holdings source
  refine (hrest v).mono fun _ w' hw' => .inr ?_
  have hheld : holdings u.store = holdings w.store := hu
  have hheld' : holdings w'.store = holdings v.store := hw'
  rw [hheld',hv,hheld]

/-- A query by the administrator's calls would find the source inactive, or make it so. -/
def judged (env : Env) (st : Store) (source : Address) : Bool :=
  (watch st source).marked ||
    counts env st source && decide (missThreshold ≤ satAdd32 (st.getMissedHeartbeats source) 1)

/-- The answer is what the watch on the source says, and a bond is touched only if it is yes. -/
theorem isSourceInactive_holdings (host : Host) (hflagged : Flagged w.store) (source : Address) :
    Sat (isSourceInactive source) w fun inactive w' => inactive = judged w.env w.store source ∧
      (SameHoldings w w' ∨ inactive = true ∧
        holdings w'.store = (holdings w.store).settle host (fun _ => true) source) := by
  have hmarked : w.store.isSourceInactive source = (watch w.store source).marked :=
    isSourceInactive_eq hflagged source
  have hsame : SameHoldings w w := Std.Refl.refl w
  simp only [isSourceInactive,sat_bind,sat_readStore]
  refine sat_ite _ (fun hyes => (sat_pure _).2 ?_) fun hno => ?_
  · rw [hmarked] at hyes
    simp [judged,hyes,hsame]
  refine sat_ite _ (fun hoverdue => ?_) fun hquiet => (sat_pure _).2 ?_
  · refine sat_ite _ (fun hthird => ?_) fun hearly => (sat_pure _).2 ?_
    · refine (tripInactive_holdings host source _).andThen fun _ w' hw' => (sat_pure _).2 ?_
      refine ⟨?_,hw'.imp_right fun h => ⟨rfl,h⟩⟩
      simp [judged,counts,hno,hoverdue,hthird]
    · rw [hmarked] at hno
      refine ⟨?_,.inl hsame⟩
      simp [judged,hno,hearly]
  · rw [hmarked] at hno
    simp [judged,counts,hno,hquiet,hsame]

theorem deregisterSource_holdings : Sat (deregisterSource source) w fun _ w' =>
      holdings w'.store = (holdings w.store).deregister source := by
  simp only [deregisterSource,unlistSource,modifyStats,modifySources,removeOptional,sat_bind,
    sat_update]
  rfl

theorem dropBond_holdings :
    Sat (update fun w => { w with store := { w.store with registry := { w.store.registry with
      sourceBond := Function.update w.store.registry.sourceBond source none } } } :
        Contract Unit) w fun _ w' =>
      holdings w'.store = { holdings w.store with ledger := { (holdings w.store).ledger with
        deposit := Function.update (holdings w.store).ledger.deposit source 0 } } := by
  rw [sat_update]
  unfold holdings ledger
  congr 2
  funext a
  simp only [Store.getSourceDepositedBond,Function.update_apply]
  split_ifs <;> rfl

theorem tryTransferToken_holdings (token sender recipient : Address) (amount : Int) :
    Sat (tryTransferToken token sender recipient amount) w fun _ w' =>
      holdings w'.store = { holdings w.store with ledger := { (holdings w.store).ledger with
        balance := (w.env.host.transfer token sender recipient amount
          (holdings w.store).ledger.balance).getD (holdings w.store).ledger.balance } } := by
  rw [tryTransferToken,sat_bind,sat_readStore,modifyCustody,sat_update]
  rfl

/-- The removal of a source is the settlement of its bond and the end of its records. -/
theorem removeSourceInner_holdings (hflagged : Flagged w.store) (source : Address) :
    Sat (removeSourceInner source) w fun _ w' => holdings w'.store =
      (holdings w.store).remove w.env.host (judged w.env w.store) source := by
  refine (sat_asAdmin _).2 fun admin _ _ => ?_
  simp only [sat_bind,sat_readStore,sat_ensure,authorizedBy_store]
  intro _
  refine ((isSourceInactive_holdings (w := w.authorizedBy admin) w.env.host hflagged source).and
    (isSourceInactive_sat (w := w.authorizedBy admin) hflagged source)).mono ?_
  rintro inactive u ⟨⟨hinactive,hheld⟩,hpolled⟩
  change inactive = judged w.env w.store source at hinactive
  have henv : u.env = w.env := hpolled.env
  have hlast (t : World) (ht : holdings t.store =
      (holdings w.store).settle w.env.host (judged w.env w.store) source) :
      Sat (deregisterSource source) t fun _ w' => holdings w'.store =
        (holdings w.store).remove w.env.host (judged w.env w.store) source := by
    refine (deregisterSource_holdings source).mono fun _ w' hw' => ?_
    rw [hw',ht,Holdings.remove]
  have hzero (l : Ledger) (hl : ¬0 < l.deposit source) :
      l.settle w.env.host (judged w.env w.store) source = l := Ledger.settle_of_le l hl
  rcases hheld with hsame | ⟨hyes,hsettled⟩
  · have hheld : holdings u.store = holdings w.store := hsame
    have hledger : ledger u.store = (holdings w.store).ledger := congrArg Holdings.ledger hheld
    refine sat_ite _ (fun hpos => ?_) fun hdue => hlast u ?_
    · have hpos' : 0 < (holdings w.store).ledger.deposit source := by
        rw [← hledger]
        exact hpos
      have hdrop (t : World) (ht : { holdings t.store with ledger := { (holdings t.store).ledger with
          deposit := Function.update (holdings t.store).ledger.deposit source 0 } } =
            (holdings w.store).settle w.env.host (judged w.env w.store) source) :
          Sat (do
            update fun w => { w with store := { w.store with registry := { w.store.registry with
              sourceBond := Function.update w.store.registry.sourceBond source none } } }
            deregisterSource source : Contract Unit) t fun _ w' => holdings w'.store =
              (holdings w.store).remove w.env.host (judged w.env w.store) source :=
        (dropBond_holdings source).andThen fun _ v hv => hlast v (hv.trans ht)
      simp only [sat_bind,sat_readStore,getContractAddress]
      refine sat_ite _ (fun hyes => ?_) fun hno => ?_
      · refine (forfeitSourceBondInternal_holdings w.env.host source).andThen fun _ t ht =>
          hdrop t ?_
        have hforfeits : judged w.env w.store source = true := by rw [← hinactive,hyes]
        rw [ht,hheld,Holdings.settle,Holdings.settle,Ledger.settle_of_pos _ hpos',
          Ledger.settle_of_pos _ hpos',if_pos rfl,if_pos hforfeits]
        simp
      · have hforfeits : judged w.env w.store source = false := by
          rw [← hinactive,eq_false_of_ne_true hno]
        have hkept (balance : Balances) (hrefund : balance =
            ((holdings w.store).ledger.refund w.env.host source).getD
              (holdings w.store).ledger.balance) (t : World)
            (ht : holdings t.store = { holdings u.store with
              ledger := { (holdings u.store).ledger with balance := balance } }) :
            { holdings t.store with ledger := { (holdings t.store).ledger with
              deposit := Function.update (holdings t.store).ledger.deposit source 0 } } =
              (holdings w.store).settle w.env.host (judged w.env w.store) source := by
          rw [ht,hheld,Holdings.settle,Ledger.settle_of_pos _ hpos',hforfeits,
            if_neg Bool.false_ne_true,hrefund]
        have htoken : (holdings w.store).ledger.stakeToken = u.store.custody.stakeToken := by
          rw [← hheld]
          rfl
        have hdue : u.store.getSourceDepositedBond source =
            (holdings w.store).ledger.deposit source := congrFun (congrArg Ledger.deposit hledger) _
        cases hcustody : u.store.custody.stakeToken with
        | some token =>
          refine (tryTransferToken_holdings _ _ _ _).andThen fun _ t ht => hdrop t ?_
          refine hkept _ ?_ t ht
          rw [Ledger.refund,htoken,hcustody,Option.bind_some,hheld,henv,hdue]
        | none =>
          refine hdrop u (hkept (holdings u.store).ledger.balance ?_ u rfl)
          rw [Ledger.refund,htoken,hcustody,Option.bind_none,Option.getD_none,hheld]
    · rw [Holdings.settle,hzero,hheld]
      rw [← hledger]
      exact hdue
  · have hdue : ¬0 < u.store.getSourceDepositedBond source := by
      have hdeposit : u.store.getSourceDepositedBond source =
          ((holdings w.store).settle w.env.host (fun _ => true) source).ledger.deposit source :=
        congrArg (fun h => h.ledger.deposit source) hsettled
      rw [hdeposit,Holdings.settle_ledger,Ledger.settle_deposit,if_pos rfl]
      omega
    refine sat_ite _ (fun hpos => absurd hpos hdue) fun _ => hlast u ?_
    rw [hsettled]
    refine Holdings.settle_congr _ ?_
    rw [← hinactive,hyes]

end Effects

section Completion

variable {w : World} (source : Address)

theorem updateGuards_succeeds (f : PublicationGuards → PublicationGuards) :
    Succeeds Configured (updateGuards f) :=
  .read fun _ => (mark_succeeds _).bind fun _ => succeeds_update fun _ hw => hw

theorem forfeitSourceBondInternal_succeeds :
    Succeeds Configured (forfeitSourceBondInternal source) := by
  refine .read fun _ => succeeds_ite _ ?_ (succeeds_pure _)
  exact Succeeds.bind (succeeds_update fun _ hw => hw) fun _ => succeeds_update fun _ hw => hw

theorem recomputeSourceChange_succeeds : Succeeds Configured (recomputeSourceChange source) :=
  .read fun _ => recomputeBounded_succeeds _

theorem recomputeAll_succeeds : Succeeds Configured recomputeAll :=
  .read fun _ => recomputeBounded_succeeds _

theorem tripInactive_succeeds (beaten : Bool) :
    Succeeds Configured (tripInactive source beaten) := by
  have hnote : Succeeds Configured (noteInactiveSince source) :=
    .read fun _ => succeeds_update fun _ hw => hw
  have hmark : Succeeds Configured (markSourceInactive source) :=
    (mark_succeeds _).bind fun _ => succeeds_update fun _ hw => hw
  refine hmark.bind fun _ => (updateGuards_succeeds _).bind fun _ => succeeds_ite _ ?_ hnote
  exact (forfeitSourceBondInternal_succeeds source).bind fun _ => hnote.bind fun _ =>
    recomputeSourceChange_succeeds source

theorem isSourceInactive_succeeds : Succeeds Configured (isSourceInactive source) := by
  refine .read fun _ => .read fun _ =>
    succeeds_ite _ (succeeds_pure _) (succeeds_ite _ ?_ (succeeds_pure _))
  refine .read fun _ => Succeeds.bind ?_ fun _ => ?_
  · exact .read fun _ =>
      Succeeds.bind (succeeds_update fun _ hw => hw) fun _ => succeeds_pure _
  · exact succeeds_ite _ ((tripInactive_succeeds source _).bind fun _ => succeeds_pure _)
      (succeeds_pure _)

theorem deregisterSource_succeeds : Succeeds Configured (deregisterSource source) := by
  have hunlist : Succeeds Configured (unlistSource source) :=
    Succeeds.bind (succeeds_update fun _ hw => hw) fun _ => succeeds_update fun _ hw => hw
  exact Succeeds.bind (succeeds_update fun _ hw => hw) fun _ =>
    Succeeds.bind (succeeds_update fun _ hw => hw) fun _ => hunlist.bind fun _ =>
    Succeeds.bind (succeeds_update fun _ hw => hw) fun _ => succeeds_update fun _ hw => hw

/-- The administrator's calls complete if their bodies do. -/
theorem completes_asAdmin {α : Type} {body : Contract α} {E : ErrorCode → World → Prop}
    (hsigned : w.store.adminSigns w.env = true) (h : ∀ admin, Fails body (w.authorizedBy admin) E) :
    Fails (asAdmin body) w E := by
  unfold Store.adminSigns at hsigned
  rw [fails_asAdmin]
  cases hadmin : w.store.config.admin with
  | none => simp [hadmin] at hsigned
  | some admin =>
    rw [hadmin,Option.any_some] at hsigned
    simp [h,hsigned]

/-- Nothing stands in the way of the removal of a source that is known. -/
theorem removeSourceInner_completes (hconfigured : Configured w)
    (hsigned : w.store.adminSigns w.env = true)
    (hknown : (w.store.registry.srcActive source).isSome = true) :
    Fails (removeSourceInner source) w fun _ _ => False := by
  refine completes_asAdmin hsigned fun admin => ?_
  refine (fails_bind _).2 ⟨fails_inspect _,(sat_inspect _).2 ?_⟩
  refine (fails_bind _).2 ⟨(fails_ensure _ _).2 fun h => h hknown,(sat_ensure _ _ _).2 fun _ => ?_⟩
  have hstart : Configured (w.authorizedBy admin) := hconfigured
  have hlast : Succeeds Configured (deregisterSource source) := deregisterSource_succeeds source
  refine Succeeds.fails (I := Configured) ?_ hstart _
  refine (isSourceInactive_succeeds source).bind fun inactive => .read fun deposited =>
    succeeds_ite _ ?_ hlast
  refine .read fun token => .read fun this => ?_
  have hdrop : Succeeds Configured (update fun w => { w with store := { w.store with
      registry := { w.store.registry with
        sourceBond := Function.update w.store.registry.sourceBond source none } } } :
          Contract Unit) :=
    succeeds_update fun _ hw => hw
  have hend := hdrop.bind fun _ => hlast
  refine succeeds_ite _ ((forfeitSourceBondInternal_succeeds source).bind fun _ => hend) ?_
  cases token with
  | some token =>
    refine Succeeds.bind ?_ fun _ => hend
    exact .read fun _ => succeeds_update fun _ hw => hw
  | none => exact hend

end Completion

end PriceOracle.Sources
