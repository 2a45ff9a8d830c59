import PriceOracle.Aggregation.Calls
import PriceOracle.Archive.Entries
import PriceOracle.Lib.Run
import Mathlib.Data.List.Chain

/-! # Provenance and the price it explains

A provenance record is explained when its ledger is indexed and still has a readable entry. The
publication that is not skipped and the pruning loops keep every record explained; on-write
compaction and `compact_history` drop entries without their records. -/

namespace PriceOracle.Archive

open Lib.Transaction Lib.Run Model Aggregation

/-- Every provenance record of `asset` has an indexed and readable history entry. -/
def Explained (asset : Address) (index : List Nat) (a : Model.Archive) : Prop :=
  ∀ ledger, (a.provenance.record (asset, ledger)).isSome = true →
    ledger ∈ index ∧ (a.history.readHistoryEntry asset ledger).isSome = true

def Explains (asset : Address) (st : Store) : Prop :=
  Explained asset (st.history.ledgerList asset) ⟨st.history, st.provenance⟩

section Publication

variable {asset : Address} {index : List Nat} {a : Model.Archive}

theorem explained_write (h : Explained asset index a) (tier : HistoryStorageTier)
    (entry : PriceHistoryEntry) (r : ProvenanceRecord) :
    Explained asset (pushLedger index entry.ledger)
      ⟨(a.history.writeHistoryEntry asset tier entry).writeHistoryShard asset entry,
        a.provenance.put asset entry.ledger r⟩ := by
  intro l hl
  rw [mem_pushLedger]
  by_cases hcur : l = entry.ledger
  · refine ⟨Or.inr hcur,?_⟩
    apply History.readHistoryEntry_writeHistoryShard
    exact Or.inr ⟨rfl,hcur.symm⟩
  · have hkey : (asset,l) ≠ (asset,entry.ledger) := fun h => hcur (Prod.mk.inj h).2
    dsimp only [Provenance.put] at hl
    rw [Function.update_of_ne hkey] at hl
    obtain ⟨hmem,hread⟩ := h l hl
    refine ⟨Or.inl hmem,?_⟩
    apply History.readHistoryEntry_writeHistoryShard
    exact Or.inl (History.readHistoryEntry_writeHistoryEntry _ _ _ _ _ _ hread)

theorem prune_record (p : Provenance) (asset : Address) (ledger : Nat) (stored : List Nat) :
    (p.prune asset ledger stored).record = Function.update p.record (asset,ledger) none := by
  unfold Provenance.prune
  dsimp only
  split_ifs <;> rfl

theorem explained_dropLedger {l : Nat} {ls : List Nat} (h : Explained asset (l :: ls) a)
    (stored : List Nat) : Explained asset ls (a.dropLedger asset stored l) := by
  intro l' hl'
  dsimp only [Archive.dropLedger] at hl' ⊢
  rw [prune_record] at hl'
  have hne : (asset,l') ≠ (asset,l) := by
    intro heq
    rw [heq,Function.update_self] at hl'
    cases hl'
  rw [Function.update_of_ne hne] at hl'
  obtain ⟨hmem,hread⟩ := h l' hl'
  rw [History.readHistoryEntry_drop _ _ hne]
  refine ⟨?_,hread⟩
  rcases List.mem_cons.1 hmem with rfl | hmem
  · exact absurd rfl hne
  · exact hmem

theorem explained_pruneLoop (h : Explained asset index a) (stored : List Nat)
    (cap maxEvents events : Nat) :
    Explained asset (pruneLoop asset stored cap maxEvents index events a).1
      (pruneLoop asset stored cap maxEvents index events a).2.2 := by
  induction index generalizing events a with
  | nil => exact h
  | cons l ls ih =>
    unfold pruneLoop
    split_ifs
    · exact h
    · exact ih (explained_dropLedger h stored) (events+1)
    · exact h

theorem explained_pruneRound (h : Explained asset index a) (st : Store) :
    Explained asset (st.pruneRound asset index a).1 (st.pruneRound asset index a).2 :=
  explained_pruneLoop (explained_pruneLoop h _ _ _ _) _ _ _ _

theorem explains_setLedgers {st : Store}
    (hhistory : st.history = a.history.setLedgers asset index)
    (hprovenance : st.provenance = a.provenance) (h : Explained asset index a) :
    Explains asset st := by
  have hindex : st.history.ledgerList asset = index := by
    rw [hhistory,History.ledgerList_setLedgers]
  unfold Explains
  rw [hindex,hhistory,hprovenance]
  exact h

theorem explains_archiveRound {env : Env} {st st' : Store} {ledger : Nat} {pub : Publication}
    (h : Explains asset st) (hskip : st.shouldSkipOnWrite env asset pub.price = false)
    (hhistory : st'.history = (st.archiveRound env asset ledger pub).history)
    (hprovenance : st'.provenance = (st.archiveRound env asset ledger pub).provenance) :
    Explains asset st' := by
  have happend : Explained asset (st.appendRound env asset ledger pub).1
      (st.appendRound env asset ledger pub).2 := by
    unfold Store.appendRound
    rw [if_neg (by simp [hskip])]
    exact explained_write h _ (pub.toEntry ledger) _
  exact explains_setLedgers hhistory hprovenance (explained_pruneRound happend st)

theorem explains_agreeOn {st st' : Store}
    (h : Archive.AgreeOn asset ⟨st.history,st.provenance⟩ ⟨st'.history,st'.provenance⟩)
    (hst : Explains asset st) : Explains asset st' := by
  intro l hl
  rw [h.record] at hl
  rw [h.readHistoryEntry]
  have hledgers : st'.history.ledgerList asset = st.history.ledgerList asset := h.ledgerList
  rw [hledgers]
  exact hst l hl

end Publication

section Compaction

variable {asset : Address} {thresholdBps : Nat}

/-- The prices that can still be read along the index. -/
def readablePrices (h : History) (asset : Address) (index : List Nat) : List Int :=
  index.filterMap fun l => (h.readHistoryEntry asset l).map PriceHistoryEntry.price

/-- No price is within the threshold of the one before it. -/
def Spaced (thresholdBps : Nat) (prices : List Int) : Prop :=
  prices.IsChain fun p q => withinThreshold p q thresholdBps = false

theorem compactMiddle_spaced (h : History) (index retained : List Nat) (lastKept : Int)
    (hspaced : Spaced thresholdBps (lastKept :: readablePrices h asset index)) :
    compactMiddle thresholdBps asset index h retained lastKept =
      (h,retained ++ index.filter fun l => (h.readHistoryEntry asset l).isSome) := by
  induction index generalizing retained lastKept with
  | nil => simp [compactMiddle]
  | cons l ls ih =>
    unfold compactMiddle
    cases hread : h.readHistoryEntry asset l with
    | none =>
      have hprices : readablePrices h asset (l :: ls) = readablePrices h asset ls := by
        simp [readablePrices,hread]
      rw [hprices] at hspaced
      rw [ih retained lastKept hspaced,List.filter_cons_of_neg (by simp [hread])]
    | some e =>
      have hprices : readablePrices h asset (l :: ls) = e.price :: readablePrices h asset ls := by
        simp [readablePrices,hread]
      rw [hprices] at hspaced
      obtain ⟨hfar,hrest⟩ := List.isChain_cons_cons.1 hspaced
      simp only
      rw [if_neg (by simp [hfar]),ih (retained ++ [l]) e.price hrest,
        List.filter_cons_of_pos (by simp [hread]),List.append_assoc]
      rfl

theorem withinThreshold_zero (price : Int) : withinThreshold 0 price thresholdBps = false := by
  simp [withinThreshold]

theorem spaced_from_first (h : History) (first : Nat) (middle : List Nat)
    (hspaced : Spaced thresholdBps (readablePrices h asset (first :: middle))) :
    Spaced thresholdBps (((h.readHistoryEntry asset first).map PriceHistoryEntry.price).getD 0 ::
      readablePrices h asset middle) := by
  cases hread : h.readHistoryEntry asset first with
  | some e => simpa [readablePrices,hread] using hspaced
  | none =>
    have hmiddle : Spaced thresholdBps (readablePrices h asset middle) := by
      simpa [readablePrices,hread] using hspaced
    refine List.IsChain.cons hmiddle ?_
    intro price _
    exact withinThreshold_zero price

/-- A compaction over spaced prices keeps the history and every readable ledger of the index. -/
theorem compacted_spaced (h : History) (first : Nat) (rest : List Nat)
    (hspaced : Spaced thresholdBps (readablePrices h asset (first :: rest).dropLast))
    (hrest : rest ≠ []) :
    (compacted thresholdBps asset h first rest).1 = h ∧
      ∀ l ∈ first :: rest, (h.readHistoryEntry asset l).isSome = true →
        l ∈ (compacted thresholdBps asset h first rest).2 := by
  rw [List.dropLast_cons_of_ne_nil hrest] at hspaced
  have hwalk := compactMiddle_spaced h rest.dropLast [first] _
    (spaced_from_first h first rest.dropLast hspaced)
  unfold compacted
  dsimp only
  rw [hwalk,List.getLast?_eq_some_getLast hrest]
  dsimp only
  refine ⟨rfl,?_⟩
  intro l hl hread
  set kept := [first] ++ rest.dropLast.filter fun l => (h.readHistoryEntry asset l).isSome
  have hkept : l ∈ kept ∨ l = rest.getLast hrest := by
    rcases List.mem_cons.1 hl with rfl | hl
    · exact Or.inl (by simp [kept])
    · rw [← List.dropLast_append_getLast hrest,List.mem_append,List.mem_singleton] at hl
      rcases hl with hl | hl
      · exact Or.inl (by simp [kept,hl,hread])
      · exact Or.inr hl
  split_ifs with hlast
  · rcases hkept with hkept | rfl
    · exact hkept
    · exact List.mem_of_getLast? hlast
  · rw [List.mem_append,List.mem_singleton]
    exact hkept

theorem agreeOn_compactMiddle {other : Address} (hne : asset ≠ other) (p : Provenance)
    (index : List Nat) (h : History) (retained : List Nat) (lastKept : Int) :
    Archive.AgreeOn asset ⟨h,p⟩
      ⟨(compactMiddle thresholdBps other index h retained lastKept).1,p⟩ := by
  induction index generalizing h retained lastKept with
  | nil => exact Archive.AgreeOn.refl _
  | cons l ls ih =>
    unfold compactMiddle
    cases h.readHistoryEntry other l with
    | none => exact ih h retained lastKept
    | some e =>
      dsimp only
      split_ifs
      · refine Archive.AgreeOn.trans ?_ (ih _ retained lastKept)
        exact (Archive.agreeOn_removeTemporary (a := ⟨h,p⟩) hne l).trans
          (Archive.agreeOn_removeHistoryShardEntry hne l)
      · exact ih h (retained ++ [l]) e.price

/-- A compaction of one asset leaves the archive of every other asset alone. -/
theorem agreeOn_compacted {other : Address} (hne : asset ≠ other) (p : Provenance) (h : History)
    (first : Nat) (rest : List Nat) :
    Archive.AgreeOn asset ⟨h,p⟩
      ⟨(compacted thresholdBps other h first rest).1.setLedgers other
        (compacted thresholdBps other h first rest).2,p⟩ := by
  have hwalk : Archive.AgreeOn asset ⟨h,p⟩ ⟨(compacted thresholdBps other h first rest).1,p⟩ := by
    unfold compacted
    cases rest.getLast? with
    | none => exact agreeOn_compactMiddle hne p _ h _ _
    | some last => exact agreeOn_compactMiddle hne p _ h _ _
  exact hwalk.trans (Archive.agreeOn_setLedgers hne _)

end Compaction

section Calls

variable {asset : Address}

/-- Unless a publication of the asset is skipped, explained records stay explained. -/
structure KeepsExplained (asset : Address) (w w' : World) : Prop where
  env : w'.env = w.env
  notes : w.log.publications ⊆ w'.log.publications
  explained : (∀ n ∈ w'.log.publications, n.asset = asset →
      n.before.shouldSkipOnWrite w.env asset n.record.price = false) →
    Explains asset w.store → Explains asset w'.store

instance : Std.Refl (KeepsExplained asset) := ⟨fun _ => ⟨rfl, fun _ h => h, fun _ h => h⟩⟩

instance : IsTrans World (KeepsExplained asset) where
  trans w v u hwv hvu := by
    refine ⟨hvu.env.trans hwv.env, fun _ h => hvu.notes (hwv.notes h), ?_⟩
    intro hnotes hw
    apply hvu.explained
    · rw [hwv.env]
      exact hnotes
    · exact hwv.explained (fun n hn => hnotes n (hvu.notes hn)) hw

/-- What leaves history and provenance alone keeps records explained. -/
theorem keepsExplained_of_frame {T : List Region} {w w' : World} (h : layout.agreeOff T w w')
    (hT : ∀ r ∈ [Region.env,.history,.provenance], r ∉ T) : KeepsExplained asset w w' := by
  have hhistory : w'.store.history = w.store.history := h .history (hT _ (by simp))
  have hprovenance : (w'.store.provenance,w'.log.publications) =
      (w.store.provenance,w.log.publications) := h .provenance (hT _ (by simp))
  obtain ⟨hprovenance,hnotes⟩ := Prod.mk.inj hprovenance
  refine ⟨h .env (hT _ (by simp)),?_,?_⟩
  · rw [hnotes]
    exact fun _ h => h
  · intro _ hw
    unfold Explains
    rw [hhistory,hprovenance]
    exact hw

theorem shouldSkipOnWrite_congr {st st' : Store} (env : Env) (asset : Address) (price : Int)
    (hhistory : st'.history = st.history) (hconfig : st'.config = st.config)
    (hflags : st'.flags = st.flags) :
    st'.shouldSkipOnWrite env asset price = st.shouldSkipOnWrite env asset price := by
  unfold Store.shouldSkipOnWrite Store.getCompactionThresholdBps Store.on
  rw [hhistory,hconfig,hflags]

theorem keepsExplained_respects : RespectsAggregation (KeepsExplained asset) where
  ignored _ _ h := keepsExplained_of_frame h (by decide)
  commit a decimals recompute d w _ := by
    refine ((commitRound_sat a w.env.sequence decimals recompute d w).and
      (commitRound_frame a w.env.sequence decimals recompute d w)).mono fun _ w' hw => ?_
    obtain ⟨⟨pub,-,-,hcommit⟩,hframe⟩ := hw
    obtain ⟨before,hhistory,-,hconfig,hflags,hnotes⟩ := hcommit.noted
    refine ⟨hframe .env (by decide),?_,?_⟩
    · rw [hnotes]
      exact List.subset_append_left _ _
    · intro hskip hw
      by_cases ha : asset = a
      · subst ha
        have hlast := hskip ⟨before,asset,w.env.sequence,
          w.store.nextRecord w.env asset w.env.sequence pub⟩ (by rw [hnotes]; simp) rfl
        rw [shouldSkipOnWrite_congr w.env asset _ hhistory hconfig hflags] at hlast
        exact explains_archiveRound hw hlast hcommit.history hcommit.provenance
      · apply explains_agreeOn _ hw
        rw [hcommit.history,hcommit.provenance]
        exact Archive.agreeOn_archiveRound ha w.env w.store w.env.sequence pub

/-- The calls that write or drop history, with the administrator's limits on it. -/
inductive ArchiveCall
  | aggregate (call : AggregationCall)
  | triggerAggregation (asset : Address)
  | compactHistory (asset : Address)
  | configure (setting : HistorySetting)

def ArchiveCall.body : ArchiveCall → Contract Unit
  | aggregate call => call.body
  | triggerAggregation asset => Model.triggerAggregation asset
  | compactHistory asset => asAdmin do
    let _ ← Model.compactHistory asset
    pure ()
  | configure setting => setting.body

/-- Before the call, the readable entries of the asset, its newest ledger apart, are spaced. -/
def Compactable (asset : Address) (st : Store) : Prop :=
  Spaced st.getCompactionThresholdBps
    (readablePrices st.history asset (st.history.ledgerList asset).dropLast)

theorem explains_compacted {a : Address} {st st' : Store} {first next : Nat} {rest : List Nat}
    (hindex : st.history.ledgerList a = first :: next :: rest)
    (hspaced : a = asset → Compactable asset st)
    (hhistory : st'.history =
      (compacted st.getCompactionThresholdBps a st.history first (next :: rest)).1.setLedgers a
        (compacted st.getCompactionThresholdBps a st.history first (next :: rest)).2)
    (hprovenance : st'.provenance = st.provenance) (hst : Explains asset st) :
    Explains asset st' := by
  by_cases ha : asset = a
  · subst ha
    have hchain : Spaced st.getCompactionThresholdBps
        (readablePrices st.history asset (first :: next :: rest).dropLast) := by
      rw [← hindex]
      exact hspaced rfl
    obtain ⟨hsame,hkept⟩ := compacted_spaced st.history first (next :: rest) hchain (by simp)
    rw [hsame] at hhistory
    refine explains_setLedgers (a := ⟨st.history,st.provenance⟩) hhistory hprovenance ?_
    intro l hl
    obtain ⟨hmem,hread⟩ := hst l hl
    rw [hindex] at hmem
    exact ⟨hkept l hmem hread,hread⟩
  · apply explains_agreeOn _ hst
    rw [hhistory,hprovenance]
    exact agreeOn_compacted ha st.provenance st.history first (next :: rest)

theorem compactHistory_sat (a : Address) (w : World)
    (hspaced : a = asset → Compactable asset w.store) :
    Sat (compactHistory a) w fun _ w' => KeepsExplained asset w w' := by
  unfold compactHistory
  rw [sat_bind]
  refine (checkRegisteredAsset_frame (T := []) a w).mono fun _ t hwt => ?_
  have hstart : KeepsExplained asset w t := keepsExplained_of_frame hwt (by simp)
  have hhistory : t.store.history = w.store.history := hwt .history (by simp)
  have hspaced' : a = asset → Compactable asset t.store := by
    have hconfig : t.store.config = w.store.config := hwt .config (by simp)
    have hflags : t.store.flags = w.store.flags := hwt .flags (by simp)
    unfold Compactable Store.getCompactionThresholdBps Store.on
    rw [hhistory,hconfig,hflags]
    exact hspaced
  simp only [sat_bind,sat_getSequence,sat_readStore]
  split
  · next first next rest hindex =>
    split_ifs
    · simp only [sat_bind,modifyRounds,sat_update,sat_pure]
      exact IsTrans.trans w t _ hstart ⟨rfl,fun _ h => h,fun _ h => h⟩
    · simp only [sat_bind,sat_readStore,modifyHistory,sat_update,modifyRounds,sat_pure]
      refine IsTrans.trans w t _ hstart ⟨rfl,fun _ h => h,fun _ ht => ?_⟩
      exact explains_compacted hindex hspaced' rfl rfl ht
  · simp only [sat_bind,modifyRounds,sat_update,sat_pure]
    exact IsTrans.trans w t _ hstart ⟨rfl,fun _ h => h,fun _ h => h⟩

theorem ArchiveCall.body_sat (call : ArchiveCall) (w : World)
    (hspaced : call = .compactHistory asset → Compactable asset w.store) :
    Sat call.body w fun _ w' => KeepsExplained asset w w' := by
  cases call with
  | aggregate call => exact call.body_preserves keepsExplained_respects w
  | triggerAggregation a =>
    exact (triggerAggregation_frame a w).mono fun _ _ h => keepsExplained_of_frame h (by decide)
  | compactHistory a =>
    apply asAdmin_sat (R := KeepsExplained asset) (fun _ _ h => keepsExplained_of_frame h (by decide))
    intro t hwt
    have hhistory : t.store.history = w.store.history := hwt .history (by decide)
    have hconfig : t.store.config = w.store.config := hwt .config (by decide)
    have hflags : t.store.flags = w.store.flags := hwt .flags (by decide)
    refine (compactHistory_sat a t fun ha => ?_).andThen fun _ u hu => (sat_pure _).2 hu
    have hcompactable := hspaced (by rw [ha])
    unfold Compactable Store.getCompactionThresholdBps Store.on at hcompactable ⊢
    rw [hhistory,hconfig,hflags]
    exact hcompactable
  | configure setting =>
    exact (setting.body_frame w).mono fun _ _ h => keepsExplained_of_frame h (by decide)

end Calls

structure ArchiveTx where
  env : Env
  call : ArchiveCall

def execArchive (st : Store) (t : ArchiveTx) : Store := invoke t.call.body t.env st

/-- The transaction drops no entry that a record explains: no publication of the asset is skipped
on write, and its history is compacted only where nothing is close enough to be merged. -/
def MergesNothing (asset : Address) (st : Store) (t : ArchiveTx) : Prop :=
  (∀ n ∈ (effects t.call.body t.env st).publications, n.asset = asset →
    n.before.shouldSkipOnWrite t.env asset n.record.price = false) ∧
  (t.call = .compactHistory asset → Compactable asset st)

theorem execArchive_explains {asset : Address} {st : Store} {t : ArchiveTx}
    (hst : Explains asset st) (h : MergesNothing asset st t) : Explains asset (execArchive st t) := by
  have hcommit : KeepsExplained asset (World.enter t.env st)
      (commit t.call.body (World.enter t.env st)) :=
    commit_of_sat (Std.Refl.refl _) (t.call.body_sat _ h.2)
  exact hcommit.explained h.1 hst

/-- In every run of aggregations and compactions, with any limits and any changes of them, every
provenance record keeps its history entry, as long as no step merges an entry away. -/
theorem provenance_explained_in_runs (asset : Address) (st : Store) (ts : List ArchiveTx)
    (hst : Explains asset st)
    (hts : ∀ x ∈ steps execArchive st ts, MergesNothing asset x.1 x.2) :
    (∀ x ∈ steps execArchive st ts, Explains asset x.1) ∧
      Explains asset (run execArchive st ts) :=
  steps_satisfy (fun _ _ hst h => ⟨hst,execArchive_explains hst h⟩) hst hts

/-- Asset `10` with one source at price `100`, under a compaction threshold; `9` administers. -/
def thresholdStore (thresholdBps : Nat) : Store where
  flags := fun f => f = .compactionThreshold
  config := { admin := some 9, minSources := some 1, compactionThresholdBps := some thresholdBps }
  registry := { assetIndex := fun a => if a = 10 then some true else none
                sources := [1]
                srcActive := fun a => if a = 1 then some true else none }
  submission := fun k => if k = (10, 1) then some ⟨100, 5, 1, 18, 1, 5, none⟩ else none

/-- The same price is published at two ledgers, then the history is compacted. -/
def steadyRun : List ArchiveTx :=
  [⟨.concrete 1 5 [], .aggregate (.recomputeAssetPrice 10)⟩,
    ⟨.concrete 2 5 [], .aggregate (.recomputeAssetPrice 10)⟩,
    ⟨.concrete 3 5 [9], .compactHistory 10⟩]

theorem thresholdStore_explains (thresholdBps : Nat) : Explains 10 (thresholdStore thresholdBps) := by
  intro l hl
  cases hl

/-- Without a threshold the two records keep their entries. -/
theorem steady_run_explained :
    Explains 10 (run execArchive (thresholdStore 0) steadyRun) ∧
      ((run execArchive (thresholdStore 0) steadyRun).provenance.record (10, 2)).isSome = true := by
  refine ⟨(provenance_explained_in_runs 10 (thresholdStore 0) steadyRun
    (thresholdStore_explains 0) ?_).2,by decide⟩
  simp only [steadyRun,steps_cons,steps_nil,List.forall_mem_cons]
  refine ⟨⟨by decide,by simp⟩,⟨by decide,by simp⟩,⟨by decide,fun _ => ?_⟩,by simp⟩
  unfold Compactable Spaced
  decide

/-- With a threshold the second publication leaves a record without an entry. -/
theorem skipped_publication_unexplained :
    ¬∀ x ∈ steps execArchive (thresholdStore 100) steadyRun, Explains 10 x.1 := by
  intro hall
  simp only [steadyRun,steps_cons,steps_nil,List.forall_mem_cons] at hall
  have hmem := (hall.2.2.1 2 (by decide)).1
  revert hmem
  decide

end PriceOracle.Archive
