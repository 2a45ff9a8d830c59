import PriceOracle.Archive.Retention

/-! # The provenance chain

The head pointer chains a new record to the newest one, while `head_before` looks for a
predecessor from the oldest indexed ledger. The two agree as long as at most two ledgers are
retained: then every stored record verifies, and commits to the newest retained record below it. -/

namespace PriceOracle.Archive

open Lib.Transaction Lib.Run Lib.SortedIndex Model Aggregation

/-- The records of `asset` are those of the index, intact, and chained in its order. -/
structure Chained (host : Host) (asset : Address) (index : List Nat) (p : Provenance) : Prop where
  sorted : index.Pairwise (· < ·)
  recorded : ∀ l, (p.record (asset, l)).isSome = true ↔ l ∈ index
  intact : ∀ l r, p.record (asset, l) = some r → verifyRecord host r = true
  linked : ∀ l l' r r', l < l' → p.record (asset, l) = some r → p.record (asset, l') = some r' →
    (∀ m ∈ index, m ≤ l ∨ l' ≤ m) → r'.previousHash = r.hash
  head : ∀ last ∈ index.getLast?, ∀ r, p.record (asset, last) = some r →
    p.head asset = some ⟨r.hash, last⟩

section Recording

variable {host : Host} {asset : Address} {index : List Nat} {p : Provenance} {ledger : Nat}

theorem verifyRecord_toRecord (pub : Publication) (host : Host) (asset : Address) (ledger : Nat)
    (previousHash : Bytes) :
    verifyRecord host (pub.toRecord host asset ledger previousHash) = true := by
  simp [verifyRecord,Publication.toRecord]

theorem getLast_pushLedger (index : List Nat) (ledger : Nat) :
    (pushLedger index ledger).getLast? = some ledger := by
  unfold pushLedger
  split_ifs with hlast
  · exact hlast
  · simp

/-- The record a new one commits to is the newest retained one below its ledger. -/
theorem anchorHash_eq (h : Chained host asset index p) (hlen : index.length ≤ 2)
    (hle : ∀ l ∈ index, l ≤ ledger) {l : Nat} {r : ProvenanceRecord} (hl : l < ledger)
    (hr : p.record (asset,l) = some r) (hnewest : ∀ m ∈ index, m ≤ l ∨ ledger ≤ m) :
    p.anchorHash asset ledger index = r.hash := by
  have hmem : l ∈ index := (h.recorded l).1 (by rw [hr]; rfl)
  unfold Provenance.anchorHash
  by_cases hlast : index.getLast? = some ledger
  · -- a second publication in the same ledger: the head is the record it replaces
    have hledger : ledger ∈ index := List.mem_of_getLast? hlast
    obtain ⟨r',hr'⟩ := Option.isSome_iff_exists.1 ((h.recorded ledger).2 hledger)
    rw [h.head ledger hlast r' hr']
    simp only [Option.map_some,Option.getD_some,lt_irrefl,if_false]
    match index, hlen, hlast, hmem, h.sorted with
    | [a], _, hlast, hmem, _ =>
      have ha : a = ledger := by simpa using hlast
      have hla : l = a := by simpa using hmem
      omega
    | [a,b], _, hlast, hmem, _ =>
      have hb : b = ledger := by simpa using hlast
      have hla : l = a := by
        rcases List.mem_pair.1 hmem with rfl | rfl
        · rfl
        · omega
      subst hla
      rw [Provenance.headBefore,if_neg (by omega),hr]
  · cases hlast' : index.getLast? with
    | none => rw [List.getLast?_eq_none_iff.1 hlast'] at hmem; cases hmem
    | some last =>
      have hlastmem : last ∈ index := List.mem_of_getLast? hlast'
      have hlt : last < ledger := lt_of_not_last h.sorted hle hlast hlastmem
      have hllast : l = last := by
        have hup := le_last h.sorted hlast' hmem
        rcases hnewest last hlastmem with hdown | hdown
        · omega
        · omega
      subst hllast
      rw [h.head l hlast' r hr]
      simp [hlt]

/-- Recording a publication at the newest ledger extends the chain, or replaces its last link. -/
theorem chained_put (h : Chained host asset index p) (hlen : index.length ≤ 2)
    (hle : ∀ l ∈ index, l ≤ ledger) (pub : Publication) :
    Chained host asset (pushLedger index ledger) (p.put asset ledger
      (pub.toRecord host asset ledger (p.anchorHash asset ledger index))) := by
  set new := pub.toRecord host asset ledger (p.anchorHash asset ledger index)
  have hcur : (p.put asset ledger new).record (asset,ledger) = some new :=
    Function.update_self _ _ _
  have hold (l : Nat) (hl : l ≠ ledger) :
      (p.put asset ledger new).record (asset,l) = p.record (asset,l) :=
    Function.update_of_ne (fun heq => hl (Prod.mk.inj heq).2) _ _
  constructor
  case sorted => exact sorted_push h.sorted hle
  case recorded =>
    intro l
    rw [mem_pushLedger]
    by_cases hl : l = ledger
    · rw [hl,hcur]
      simp
    · rw [hold l hl,h.recorded l]
      simp [hl]
  case intact =>
    intro l r hr
    by_cases hl : l = ledger
    · rw [hl,hcur,Option.some.injEq] at hr
      rw [← hr]
      exact verifyRecord_toRecord pub host asset ledger _
    · rw [hold l hl] at hr
      exact h.intact l r hr
  case linked =>
    intro l l' r r' hlt hr hr' hnewest
    have hindex : ∀ m ∈ index, m ≤ l ∨ l' ≤ m := fun m hm =>
      hnewest m ((mem_pushLedger index ledger m).2 (Or.inl hm))
    have hl'le : l' ≤ ledger := by
      by_cases hl' : l' = ledger
      · omega
      · rw [hold l' hl'] at hr'
        exact hle l' ((h.recorded l').1 (by rw [hr']; rfl))
    rw [hold l (by omega)] at hr
    by_cases hl' : l' = ledger
    · rw [hl',hcur,Option.some.injEq] at hr'
      rw [← hr']
      exact anchorHash_eq h hlen hle (by omega) hr (by rw [← hl']; exact hindex)
    · rw [hold l' hl'] at hr'
      exact h.linked l l' r r' hlt hr hr' hindex
  case head =>
    intro last hlast r hr
    rw [getLast_pushLedger,Option.mem_some_iff] at hlast
    rw [← hlast,hcur,Option.some.injEq] at hr
    rw [← hlast,← hr]
    exact Function.update_self _ _ _

theorem prune_head (p : Provenance) (asset : Address) (ledger : Nat) (stored : List Nat)
    (hne : (p.head asset).map ProvenanceHead.ledger ≠ some ledger) :
    (p.prune asset ledger stored).head = p.head := by
  unfold Provenance.prune
  dsimp only
  rw [if_neg hne]

/-- Pruning the oldest ledger leaves the rest of the chain. -/
theorem chained_prune {l : Nat} {ls : List Nat} (h : Chained host asset (l :: ls) p)
    (stored : List Nat) : Chained host asset ls (p.prune asset l stored) := by
  obtain ⟨holdest,hsorted⟩ := List.pairwise_cons.1 h.sorted
  have hgone : (p.prune asset l stored).record (asset,l) = none := by
    rw [prune_record]
    exact Function.update_self _ _ _
  have hold (m : Nat) (hm : m ≠ l) :
      (p.prune asset l stored).record (asset,m) = p.record (asset,m) := by
    rw [prune_record]
    exact Function.update_of_ne (fun heq => hm (Prod.mk.inj heq).2) _ _
  have hkept {m : Nat} {r : ProvenanceRecord}
      (hr : (p.prune asset l stored).record (asset,m) = some r) :
      p.record (asset,m) = some r := by
    by_cases hm : m = l
    · rw [hm,hgone] at hr
      cases hr
    · rw [← hold m hm]
      exact hr
  constructor
  case sorted => exact hsorted
  case recorded =>
    intro m
    by_cases hm : m = l
    · rw [hm,hgone]
      simp only [Option.isSome_none,Bool.false_eq_true,false_iff]
      exact fun hmem => lt_irrefl l (holdest l hmem)
    · rw [hold m hm,h.recorded m,List.mem_cons]
      simp [hm]
  case intact => exact fun m r hr => h.intact m r (hkept hr)
  case linked =>
    intro m m' r r' hlt hr hr' hnewest
    refine h.linked m m' r r' hlt (hkept hr) (hkept hr') ?_
    rw [List.forall_mem_cons]
    refine ⟨Or.inl ?_,hnewest⟩
    have hm : m ∈ l :: ls := (h.recorded m).1 (by rw [hkept hr]; rfl)
    rcases List.mem_cons.1 hm with rfl | hm
    · exact le_refl m
    · exact (holdest m hm).le
  case head =>
    intro last hlast r hr
    have hlastmem : last ∈ ls := List.mem_of_getLast? hlast
    have hlast' : last ∈ (l :: ls).getLast? := by
      obtain ⟨front,rfl⟩ := List.getLast?_eq_some_iff.1 hlast
      exact List.getLast?_eq_some_iff.2 ⟨l :: front,rfl⟩
    have hhead := h.head last hlast' r (hkept hr)
    have hlt : l < last := holdest last hlastmem
    rw [prune_head,hhead]
    rw [hhead]
    simp only [Option.map_some,ne_eq,Option.some.injEq]
    omega

theorem chained_pruneLoop {a : Model.Archive} (h : Chained host asset index a.provenance)
    (stored : List Nat) (cap maxEvents events : Nat) :
    Chained host asset (pruneLoop asset stored cap maxEvents index events a).1
      (pruneLoop asset stored cap maxEvents index events a).2.2.provenance := by
  induction index generalizing events a with
  | nil => exact h
  | cons l ls ih =>
    unfold pruneLoop
    split_ifs
    · exact h
    · exact ih (a := a.dropLedger asset stored l) (chained_prune h stored) (events+1)
    · exact h

theorem pruneLoop_subset (asset : Address) (stored index : List Nat) (cap maxEvents events : Nat)
    (a : Model.Archive) : (pruneLoop asset stored cap maxEvents index events a).1 ⊆ index := by
  induction index generalizing events a with
  | nil => exact fun _ h => h
  | cons l ls ih =>
    unfold pruneLoop
    split_ifs
    · exact fun _ h => h
    · exact fun _ h => List.mem_cons_of_mem l (ih _ _ h)
    · exact fun _ h => h

/-- A pruning loop spends one event for each ledger, and stops at its cap or its budget. -/
theorem pruneLoop_length (asset : Address) (stored index : List Nat) (cap maxEvents events : Nat)
    (a : Model.Archive) :
    (pruneLoop asset stored cap maxEvents index events a).1.length +
        (pruneLoop asset stored cap maxEvents index events a).2.1 = index.length + events ∧
      (pruneLoop asset stored cap maxEvents index events a).1.length ≤ index.length ∧
      ((pruneLoop asset stored cap maxEvents index events a).1.length ≤ cap ∨
        maxEvents ≤ (pruneLoop asset stored cap maxEvents index events a).2.1) := by
  induction index generalizing events a with
  | nil => simp [pruneLoop]
  | cons l ls ih =>
    unfold pruneLoop
    split_ifs with hcap hbudget
    · exact ⟨rfl,le_refl _,Or.inr hbudget⟩
    · obtain ⟨hsum,hshorter,hstop⟩ := ih (events+1) (a.dropLedger asset stored l)
      rw [List.length_cons]
      exact ⟨by omega,by omega,hstop⟩
    · exact ⟨rfl,le_refl _,Or.inl (by rw [List.length_cons]; omega)⟩

end Recording

section Publication

variable {host : Host} {asset : Address} {pub : Publication} {index : List Nat} {st st' : Store}
  {ledger : Nat} {env : Env}

/-- A chain of at most two ledgers. -/
structure ShortChain (host : Host) (asset : Address) (st : Store) : Prop where
  chained : Chained host asset (st.history.ledgerList asset) st.provenance
  short : (st.history.ledgerList asset).length ≤ 2

/-- The publication is indexed, and it leaves at most two ledgers: the index stays that short by
itself, or a cap asks for it and the event budget reaches that far. -/
def LeavesTwo (env : Env) (st : Store) (asset : Address) (ledger : Nat) (price : Int) : Prop :=
  let count := (pushLedger (st.history.ledgerList asset) ledger).length
  st.shouldSkipOnWrite env asset price = false ∧
    (count ≤ 2 ∨ min st.getMaxHistoryLength st.getMaxHistoryPerAsset ≤ 2 ∧
      count ≤ st.getMaxEventsPerCall + 2)

instance (env : Env) (st : Store) (asset : Address) (ledger : Nat) (price : Int) :
    Decidable (LeavesTwo env st asset ledger price) :=
  inferInstanceAs (Decidable (_ ∧ _))

theorem pruneRound_length (st : Store) (asset : Address) (index : List Nat) (a : Model.Archive)
    (h : index.length ≤ 2 ∨ min st.getMaxHistoryLength st.getMaxHistoryPerAsset ≤ 2 ∧
      index.length ≤ st.getMaxEventsPerCall+2) :
    (st.pruneRound asset index a).1.length ≤ 2 := by
  have hfirst := pruneLoop_length asset (st.history.ledgerList asset) index
    st.getMaxHistoryLength st.getMaxEventsPerCall 0 a
  generalize hloop : pruneLoop asset (st.history.ledgerList asset) st.getMaxHistoryLength
    st.getMaxEventsPerCall index 0 a = first at hfirst
  have hsecond := pruneLoop_length asset (st.history.ledgerList asset) first.1
    st.getMaxHistoryPerAsset st.getMaxEventsPerCall first.2.1 first.2.2
  have hresult : (st.pruneRound asset index a).1 =
      (pruneLoop asset (st.history.ledgerList asset) st.getMaxHistoryPerAsset
        st.getMaxEventsPerCall first.1 first.2.1 first.2.2).1 := by
    rw [← hloop]
    rfl
  rw [hresult]
  omega

theorem pruneRound_subset (st : Store) (asset : Address) (index : List Nat) (a : Model.Archive) :
    (st.pruneRound asset index a).1 ⊆ index :=
  fun _ h => pruneLoop_subset _ _ _ _ _ _ _ (pruneLoop_subset _ _ _ _ _ _ _ h)

theorem chained_pruneRound {a : Model.Archive}
    (h : Chained host asset index a.provenance) (st : Store) :
    Chained host asset (st.pruneRound asset index a).1 (st.pruneRound asset index a).2.provenance :=
  chained_pruneLoop (chained_pruneLoop h _ _ _ _) _ _ _ _

theorem chained_appendRound {st : Store}
    (h : ShortChain env.host asset st) (hle : ∀ l ∈ st.history.ledgerList asset, l ≤ ledger)
    (hskip : st.shouldSkipOnWrite env asset pub.price = false) :
    (st.appendRound env asset ledger pub).1 = pushLedger (st.history.ledgerList asset) ledger ∧
      Chained env.host asset (st.appendRound env asset ledger pub).1
        (st.appendRound env asset ledger pub).2.provenance := by
  unfold Store.appendRound
  dsimp only
  rw [if_neg (by simp [hskip])]
  exact ⟨rfl,chained_put h.chained h.short hle pub⟩

theorem shortChain_archiveRound
    (h : ShortChain env.host asset st) (hle : ∀ l ∈ st.history.ledgerList asset, l ≤ ledger)
    (htwo : LeavesTwo env st asset ledger pub.price)
    (hhistory : st'.history = (st.archiveRound env asset ledger pub).history)
    (hprovenance : st'.provenance = (st.archiveRound env asset ledger pub).provenance) :
    ShortChain env.host asset st' ∧ ∀ l ∈ st'.history.ledgerList asset, l ≤ ledger := by
  obtain ⟨hindex,hchained⟩ := chained_appendRound h hle htwo.1
  have hledgers : st'.history.ledgerList asset =
      (st.pruneRound asset (st.appendRound env asset ledger pub).1
        (st.appendRound env asset ledger pub).2).1 := by
    rw [hhistory]
    exact History.ledgerList_setLedgers _ _ _
  refine ⟨⟨?_,?_⟩,?_⟩
  · rw [hledgers,hprovenance]
    exact chained_pruneRound hchained st
  · rw [hledgers]
    apply pruneRound_length
    rw [hindex]
    exact htwo.2
  · rw [hledgers]
    intro l hl
    have hmem := pruneRound_subset st asset _ _ hl
    rw [hindex,mem_pushLedger] at hmem
    rcases hmem with hmem | rfl
    · exact hle l hmem
    · exact le_refl l

theorem shortChain_agreeOn
    (h : Archive.AgreeOn asset ⟨st.history,st.provenance⟩ ⟨st'.history,st'.provenance⟩)
    (hst : ShortChain host asset st) : ShortChain host asset st' := by
  have hledgers : st'.history.ledgerList asset = st.history.ledgerList asset := h.ledgerList
  have hrecord (l : Nat) : st'.provenance.record (asset,l) = st.provenance.record (asset,l) :=
    h.record l
  have hhead : st'.provenance.head asset = st.provenance.head asset := h.head
  obtain ⟨⟨hsorted,hrecorded,hintact,hlinked,hheads⟩,hshort⟩ := hst
  refine ⟨⟨?_,?_,?_,?_,?_⟩,?_⟩
  all_goals simp only [hledgers,hrecord,hhead]
  all_goals assumption

/-- Every stored record verifies, and commits to the newest stored record below it, if any. -/
def Verified (host : Host) (asset : Address) (st : Store) : Prop :=
  ∀ l r, st.provenance.record (asset, l) = some r →
    st.verifyLink host asset l = true ∧
      ∀ l' r', st.provenance.record (asset, l') = some r' → l' < l →
        (∀ m, (st.provenance.record (asset, m)).isSome = true → m ≤ l' ∨ l ≤ m) →
          r.previousHash = r'.hash

theorem headBefore_eq {p : Provenance} (h : Chained host asset index p)
    (hlen : index.length ≤ 2) {l : Nat} {r : ProvenanceRecord} (hr : p.record (asset,l) = some r) :
    (p.headBefore asset l index).2 = true → r.previousHash = (p.headBefore asset l index).1 := by
  have hmem : l ∈ index := (h.recorded l).1 (by rw [hr]; rfl)
  match index, hlen, hmem, h with
  | [a], _, hmem, _ =>
    have hla : l = a := by simpa using hmem
    simp [Provenance.headBefore,hla]
  | [a,b], _, hmem, h =>
    have hab : a < b := by simpa using h.sorted
    rcases List.mem_pair.1 hmem with rfl | rfl
    · simp [Provenance.headBefore]
    · obtain ⟨r',hr'⟩ := Option.isSome_iff_exists.1 ((h.recorded a).2 (by simp))
      rw [Provenance.headBefore,if_neg (by omega),hr']
      intro _
      apply h.linked a l r' r hab hr' hr
      intro m hm
      rcases List.mem_pair.1 hm with rfl | rfl
      · exact Or.inl (le_refl m)
      · exact Or.inr (le_refl m)

theorem verified_of_shortChain {st : Store} (h : ShortChain host asset st) :
    Verified host asset st := by
  intro l r hr
  constructor
  · have hlink := headBefore_eq h.chained h.short hr
    unfold Store.verifyLink
    rw [hr]
    dsimp only
    rw [if_pos (h.chained.intact l r hr)]
    split_ifs with hfound
    · simpa using hlink hfound
    · rfl
  · intro l' r' hr' hlt hnewest
    apply h.chained.linked l' l r' r hlt hr' hr
    intro m hm
    exact hnewest m ((h.chained.recorded m).2 hm)

end Publication

section Calls

variable {asset : Address}

/-- Publications that each leave two ledgers at most keep the chain short, at ledgers that do not
decrease. -/
structure KeepsChain (asset : Address) (w w' : World) : Prop where
  env : w'.env = w.env
  notes : w.log.publications ⊆ w'.log.publications
  chain : (∀ n ∈ w'.log.publications, n.asset = asset →
      LeavesTwo w.env n.before asset n.ledger n.record.price) →
    ShortChain w.env.host asset w.store →
    (∀ l ∈ w.store.history.ledgerList asset, l ≤ w.env.sequence) →
    ShortChain w.env.host asset w'.store ∧
      ∀ l ∈ w'.store.history.ledgerList asset, l ≤ w.env.sequence

instance : Std.Refl (KeepsChain asset) :=
  ⟨fun _ => ⟨rfl, fun _ h => h, fun _ hchain hle => ⟨hchain, hle⟩⟩⟩

instance : IsTrans World (KeepsChain asset) where
  trans w v u hwv hvu := by
    refine ⟨hvu.env.trans hwv.env, fun _ h => hvu.notes (hwv.notes h), ?_⟩
    intro hnotes hchain hle
    obtain ⟨hchain', hle'⟩ := hwv.chain (fun n hn => hnotes n (hvu.notes hn)) hchain hle
    have hnext := hvu.chain
    rw [hwv.env] at hnext
    exact hnext hnotes hchain' hle'

theorem keepsChain_of_frame {T : List Region} {w w' : World} (h : layout.agreeOff T w w')
    (hT : ∀ r ∈ [Region.env,.history,.provenance], r ∉ T) : KeepsChain asset w w' := by
  have hhistory : w'.store.history = w.store.history := h .history (hT _ (by simp))
  have hprovenance : (w'.store.provenance,w'.log.publications) =
      (w.store.provenance,w.log.publications) := h .provenance (hT _ (by simp))
  obtain ⟨hprovenance,hnotes⟩ := Prod.mk.inj hprovenance
  refine ⟨h .env (hT _ (by simp)),?_,?_⟩
  · rw [hnotes]
    exact fun _ h => h
  · intro _ hchain hle
    rw [hhistory]
    refine ⟨shortChain_agreeOn ?_ hchain,hle⟩
    rw [hhistory,hprovenance]
    exact Archive.AgreeOn.refl _

theorem leavesTwo_congr {st st' : Store} {env : Env} {ledger : Nat} {price : Int}
    (hhistory : st'.history = st.history) (hconfig : st'.config = st.config)
    (hflags : st'.flags = st.flags) (h : LeavesTwo env st' asset ledger price) :
    LeavesTwo env st asset ledger price := by
  unfold LeavesTwo Store.getMaxHistoryLength Store.getMaxHistoryPerAsset Store.getMaxEventsPerCall
    Store.on at h ⊢
  rw [shouldSkipOnWrite_congr env asset price hhistory hconfig hflags,hhistory,hconfig,hflags] at h
  exact h

theorem keepsChain_respects : RespectsAggregation (KeepsChain asset) where
  ignored _ _ h := keepsChain_of_frame h (by decide)
  commit a decimals recompute d w _ := by
    refine ((commitRound_sat a w.env.sequence decimals recompute d w).and
      (commitRound_frame a w.env.sequence decimals recompute d w)).mono fun _ w' hw => ?_
    obtain ⟨⟨pub,-,-,hcommit⟩,hframe⟩ := hw
    obtain ⟨before,hhistory,-,hconfig,hflags,hnotes⟩ := hcommit.noted
    refine ⟨hframe .env (by decide),?_,?_⟩
    · rw [hnotes]
      exact List.subset_append_left _ _
    · intro htwo hchain hle
      by_cases ha : asset = a
      · subst ha
        have hlast := htwo ⟨before,asset,w.env.sequence,
          w.store.nextRecord w.env asset w.env.sequence pub⟩ (by rw [hnotes]; simp) rfl
        exact shortChain_archiveRound hchain hle (leavesTwo_congr hhistory hconfig hflags hlast)
          hcommit.history hcommit.provenance
      · have hagree : Archive.AgreeOn asset ⟨w.store.history,w.store.provenance⟩
            ⟨w'.store.history,w'.store.provenance⟩ := by
          rw [hcommit.history,hcommit.provenance]
          exact Archive.agreeOn_archiveRound ha w.env w.store w.env.sequence pub
        have hledgers : w'.store.history.ledgerList asset = w.store.history.ledgerList asset :=
          hagree.ledgerList
        rw [hledgers]
        exact ⟨shortChain_agreeOn hagree hchain,hle⟩

/-- The calls that record and prune provenance, with the administrator's limits on history. -/
inductive ChainCall
  | aggregate (call : AggregationCall)
  | configure (setting : HistorySetting)

def ChainCall.body : ChainCall → Contract Unit
  | aggregate call => call.body
  | configure setting => setting.body

theorem ChainCall.body_preserves (call : ChainCall) : Preserves (KeepsChain asset) call.body := by
  cases call with
  | aggregate call => exact call.body_preserves keepsChain_respects
  | configure setting =>
    exact setting.body_frame.weaken fun _ _ h => keepsChain_of_frame h (by decide)

end Calls

structure ChainTx where
  env : Env
  call : ChainCall

def execChain (st : Store) (t : ChainTx) : Store := invoke t.call.body t.env st

/-- The transaction runs on `host` at a ledger no older than what is archived, and each of its
publications of the asset is indexed and leaves two ledgers at most. -/
def RetainsTwo (host : Host) (asset : Address) (st : Store) (t : ChainTx) : Prop :=
  t.env.host = host ∧ (∀ l ∈ st.history.ledgerList asset, l ≤ t.env.sequence) ∧
    ∀ n ∈ (effects t.call.body t.env st).publications, n.asset = asset →
      LeavesTwo t.env n.before asset n.ledger n.record.price

theorem execChain_shortChain {host : Host} {asset : Address} {st : Store} {t : ChainTx}
    (hst : ShortChain host asset st) (h : RetainsTwo host asset st t) :
    ShortChain host asset (execChain st t) := by
  have hcommit : KeepsChain asset (World.enter t.env st)
      (commit t.call.body (World.enter t.env st)) :=
    commit_of_sat (Std.Refl.refl _) (t.call.body_preserves _)
  obtain ⟨rfl,hle,hnotes⟩ := h
  exact (hcommit.chain hnotes hst hle).1

/-- In every run of aggregations at non-decreasing ledgers, over any hash function, every stored
record verifies as long as no publication leaves more than two ledgers. -/
theorem records_verify_in_runs (host : Host) (asset : Address) (st : Store) (ts : List ChainTx)
    (hst : ShortChain host asset st)
    (hts : ∀ x ∈ steps execChain st ts, RetainsTwo host asset x.1 x.2) :
    (∀ x ∈ steps execChain st ts, Verified host asset x.1) ∧
      Verified host asset (run execChain st ts) := by
  have hruns := steps_satisfy (P := fun s _ => ShortChain host asset s)
    (fun _ _ hs h => ⟨hs,execChain_shortChain hs h⟩) hst hts
  exact ⟨fun x hx => verified_of_shortChain (hruns.1 x hx),verified_of_shortChain hruns.2⟩

/-- Asset `10` with one source at price `100`, keeping up to `maxHistory` ledgers. -/
def cappedStore (maxHistory : Nat) : Store where
  config := { minSources := some 1, maxHistory := some maxHistory }
  registry := { assetIndex := fun a => if a = 10 then some true else none
                sources := [1]
                srcActive := fun a => if a = 1 then some true else none }
  submission := fun k => if k = (10, 1) then some ⟨100, 5, 1, 18, 1, 5, none⟩ else none

/-- One publication in each of the ledgers `1`, `2` and `3`. -/
def threeRounds : List ChainTx :=
  [⟨.concrete 1 5 [], .aggregate (.recomputeAssetPrice 10)⟩,
    ⟨.concrete 2 5 [], .aggregate (.recomputeAssetPrice 10)⟩,
    ⟨.concrete 3 5 [], .aggregate (.recomputeAssetPrice 10)⟩]

theorem cappedStore_shortChain (maxHistory : Nat) :
    ShortChain checksumHost 10 (cappedStore maxHistory) where
  chained :=
    { sorted := List.Pairwise.nil
      recorded := fun l => by simp [cappedStore,History.ledgerList]
      intact := fun _ _ h => by cases h
      linked := fun _ _ _ _ _ h => by cases h
      head := fun _ _ _ h => by cases h }
  short := by simp [cappedStore,History.ledgerList]

/-- With a cap of two ledgers the last of three publications verifies. -/
theorem capped_rounds_verify :
    (run execChain (cappedStore 2) threeRounds).verifyLink checksumHost 10 3 = true := by
  have hverified := (records_verify_in_runs checksumHost 10 (cappedStore 2) threeRounds
    (cappedStore_shortChain 2) (by
      simp only [threeRounds,steps_cons,steps_nil,List.forall_mem_cons]
      exact ⟨⟨rfl,by decide,by decide⟩,⟨rfl,by decide,by decide⟩,
        ⟨rfl,by decide,by decide⟩,by simp⟩)).2
  have hstored : ((run execChain (cappedStore 2) threeRounds).provenance.record (10,3)).isSome =
      true := by decide
  obtain ⟨r,hr⟩ := Option.isSome_iff_exists.1 hstored
  exact (hverified 3 r hr).1

/-- With the default cap the third publication does not verify: its predecessor is looked up from
the oldest record. -/
theorem third_round_unverified :
    ¬Verified checksumHost 10 (run execChain (cappedStore 100) threeRounds) := by
  intro hverified
  have hstored : ((run execChain (cappedStore 100) threeRounds).provenance.record (10,3)).isSome =
      true := by decide
  obtain ⟨r,hr⟩ := Option.isSome_iff_exists.1 hstored
  have hlink := (hverified 3 r hr).1
  revert hlink
  decide +kernel

end PriceOracle.Archive
