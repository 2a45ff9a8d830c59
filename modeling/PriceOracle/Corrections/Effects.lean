import PriceOracle.Aggregation.Writers

/-! # Revision chains

What is on record of the corrections of an asset: a chain of numbered revisions that begins with the
original price, and a counter of the corrections in it. It is begun once and amended afterwards; both
keep what is recorded. -/

namespace PriceOracle.Corrections

open Lib.Transaction Lib.MachineInt Lib.Numbering Model Aggregation

section Records

variable {asset a : Address} {c c' : Model.Corrections} {r : PriceRevision}

def chain (c : Model.Corrections) (asset : Address) : List PriceRevision :=
  (c.revisions asset).getD []

/-- The chain is numbered, its first price is the original, and its corrections are counted. -/
structure OnRecord (asset : Address) (c : Model.Corrections) : Prop where
  begun : c.revisions asset ≠ some []
  numbered : Numbered PriceRevision.index (chain c asset)
  original : (chain c asset).head?.map PriceRevision.price = c.original asset
  counted : (chain c asset).countP PriceRevision.corrected = (c.count asset).getD 0
  capped : (c.count asset).getD 0 ≤ maxCorrectionsPerAsset

/-- What is recorded stays recorded, in its place. -/
structure Continues (asset : Address) (c c' : Model.Corrections) : Prop where
  appended : chain c asset <+: chain c' asset
  onRecord : OnRecord asset c'

theorem Continues.refl (h : OnRecord asset c) : Continues asset c c :=
  ⟨List.prefix_refl _,h⟩

theorem Continues.trans {c'' : Model.Corrections} (h : Continues asset c c')
    (h' : Continues asset c' c'') : Continues asset c c'' :=
  ⟨h.appended.trans h'.appended,h'.onRecord⟩

theorem Continues.original {price : Int} (hc : OnRecord asset c) (h : Continues asset c c')
    (hprice : c.original asset = some price) : c'.original asset = some price := by
  rw [← hc.original,Option.map_eq_some_iff] at hprice
  obtain ⟨r,hr,rfl⟩ := hprice
  rw [← h.onRecord.original,List.head?_eq_getElem?]
  rw [List.head?_eq_getElem?] at hr
  rw [getElem?_of_prefixed h.appended hr,Option.map_some]

/-- Records of the asset that agree continue each other. -/
theorem continues_congr (hc : OnRecord asset c) (hrevisions : c'.revisions asset = c.revisions asset)
    (horiginal : c'.original asset = c.original asset) (hcount : c'.count asset = c.count asset) :
    Continues asset c c' := by
  have hchain : chain c' asset = chain c asset := by rw [chain,chain,hrevisions]
  refine ⟨by rw [hchain],?_⟩
  constructor
  · rw [hrevisions]
    exact hc.begun
  · rw [hchain]
    exact hc.numbered
  · rw [hchain,horiginal]
    exact hc.original
  · rw [hchain,hcount]
    exact hc.counted
  · rw [hcount]
    exact hc.capped

/-- The record with revision 0 as its only one. -/
def begin (c : Model.Corrections) (a : Address) (r : PriceRevision) : Model.Corrections :=
  { c with
    original := Function.update c.original a (some r.price)
    revisions := Function.update c.revisions a (some [r]) }

/-- The record with one more correction. -/
def amend (c : Model.Corrections) (a : Address) (r : PriceRevision) : Model.Corrections :=
  { c with
    count := Function.update c.count a (some (satAdd32 ((c.count a).getD 0) 1))
    revisions := Function.update c.revisions a (some (chain c a ++ [r])) }

theorem continues_begin (hc : OnRecord asset c) (hnone : chain c a = []) (hindex : r.index = 0)
    (hcorrected : r.corrected = false) : Continues asset c (begin c a r) := by
  by_cases ha : asset = a
  · subst ha
    have hchain : chain (begin c asset r) asset = [r] := by simp [chain,begin]
    have hcounted := hc.counted
    rw [hnone,List.countP_nil] at hcounted
    refine ⟨by rw [hnone]; exact List.nil_prefix,?_⟩
    constructor
    · simp [begin]
    · rw [hchain]
      exact numbered_nil.concat hindex
    · rw [hchain]
      simp [begin]
    · rw [hchain,List.countP_singleton,hcorrected]
      exact hcounted
    · exact hc.capped
  · exact continues_congr hc (Function.update_of_ne ha _ _) (Function.update_of_ne ha _ _) rfl

/-- A correction is appended to a record that has begun, while the counter is below its cap. -/
theorem continues_amend (hc : OnRecord asset c)
    (hopen : a = asset → chain c a ≠ [] ∧ (c.count a).getD 0 < maxCorrectionsPerAsset)
    (hindex : r.index = (chain c a).length) (hcorrected : r.corrected = true) :
    Continues asset c (amend c a r) := by
  by_cases ha : asset = a
  · subst ha
    obtain ⟨hbegun,hcount⟩ := hopen rfl
    have hchain : chain (amend c asset r) asset = chain c asset ++ [r] := by simp [chain,amend]
    have hsum : satAdd32 ((c.count asset).getD 0) 1 = (c.count asset).getD 0 + 1 := by
      unfold maxCorrectionsPerAsset at hcount
      unfold satAdd32 u32Max
      omega
    have hstored : ((amend c asset r).count asset).getD 0 = (c.count asset).getD 0 + 1 := by
      simp [amend,hsum]
    refine ⟨by rw [hchain]; exact List.prefix_append _ _,?_⟩
    constructor
    · simp [amend]
    · rw [hchain]
      exact hc.numbered.concat hindex
    · rw [hchain,List.head?_append_of_ne_nil _ hbegun]
      exact hc.original
    · rw [hchain,List.countP_append,hc.counted,hstored,List.countP_singleton,if_pos hcorrected]
    · rw [hstored]
      exact hcount
  · exact continues_congr hc (Function.update_of_ne ha _ _) rfl (Function.update_of_ne ha _ _)

end Records

section Recording

variable {asset a : Address}

/-- The record as it is, if it has begun, else with a first revision. -/
def Begun (a : Address) (c c' : Model.Corrections) : Prop :=
  (c.revisions a).isSome = true ∧ c' = c ∨
    ∃ r, chain c a = [] ∧ r.index = 0 ∧ r.corrected = false ∧ c' = begin c a r

theorem Begun.continues {c c' : Model.Corrections} (h : Begun a c c') (hc : OnRecord asset c) :
    Continues asset c c' := by
  rcases h with ⟨-,rfl⟩ | ⟨r,hnone,hindex,hcorrected,rfl⟩
  · exact .refl hc
  · exact continues_begin hc hnone hindex hcorrected

theorem recordOriginal_sat (a : Address) (aggregate : AggregatePrice) (w : World) :
    Sat (recordOriginal a aggregate) w fun _ w' =>
      Begun a w.store.corrections w'.store.corrections := by
  unfold recordOriginal modifyCorrections
  simp only [sat_bind,sat_readStore,sat_getSequence]
  split_ifs with hrecorded
  · rw [sat_pure]
    exact Or.inl ⟨hrecorded,rfl⟩
  · rw [sat_update]
    refine Or.inr ⟨_,?_,rfl,rfl,rfl⟩
    rw [Option.not_isSome_iff_eq_none] at hrecorded
    simp [chain,hrecorded]

end Recording

end PriceOracle.Corrections

/-! ## What publications and corrections leave on record

A correction replaces an aggregate while the newest indexed ledger is within the window and the
counter below its cap. -/

namespace PriceOracle.Corrections

open Lib.Transaction Lib.MachineInt Lib.Numbering Model Aggregation

section Correcting

variable {asset : Address} {w : World} (a : Address)

theorem checkCorrection_limits (w : World) : Sat (checkCorrection a) w fun previous w' =>
      (w.store.aggregate a = some previous ∧
        w.store.correctionCount a < w.store.getCorrectionScope.maxCorrections ∧
        w.env.sequence - w.store.historyLedger a ≤ w.store.getCorrectionScope.windowLedgers) ∧
      w' = w := by
  unfold checkCorrection
  simp only [sat_bind,sat_readStore,sat_ensure]
  intro _ hcount
  refine (readAggregate_sat a w).mono fun previous t ht => ?_
  obtain ⟨hprevious,rfl⟩ := ht
  simp only [sat_getSequence,sat_pure]
  intro hrecent
  exact ⟨⟨hprevious,hcount,hrecent⟩,trivial⟩

/-- The record a correction is appended to: it has begun, from the live value if need be. -/
structure Seeded (a : Address) (c c' : Model.Corrections) : Prop where
  continues : ∀ asset, OnRecord asset c → Continues asset c c'
  begun : OnRecord a c → chain c' a ≠ []
  count : c'.count = c.count

theorem seedRevisions_sat (previous : AggregatePrice) (w : World) :
    Sat (seedRevisions a previous) w fun _ w' =>
      Seeded a w.store.corrections w'.store.corrections := by
  unfold seedRevisions
  rw [sat_bind,sat_readStore]
  split_ifs with hempty
  · refine (recordOriginal_sat a previous w).mono fun _ w' hbegun => ?_
    refine ⟨fun asset h => hbegun.continues h,?_,?_⟩
    · intro h
      rcases hbegun with ⟨hsome,-⟩ | ⟨r,-,-,-,hc⟩
      · obtain ⟨revisions,hrevisions⟩ := Option.isSome_iff_exists.1 hsome
        rw [Store.getRevisions,hrevisions,Option.getD_some] at hempty
        exact absurd (hempty ▸ hrevisions) h.begun
      · simp [hc,chain,begin]
    · rcases hbegun with ⟨-,hc⟩ | ⟨r,-,-,-,hc⟩
      · rw [hc]
      · rw [hc]
        rfl
  · rw [sat_pure]
    exact ⟨fun asset h => .refl h,fun _ => hempty,rfl⟩

/-- An applied correction: what it replaces, under which limits, and what it records. -/
structure Replaces (a : Address) (newPrice : Int) (previous : AggregatePrice) (w w' : World) :
    Prop where
  stored : w.store.aggregate a = some previous
  aggregate : w'.store.aggregate = Function.update w.store.aggregate a
    (some (previous.corrected newPrice w.env.timestamp))
  written : ∃ st, w'.log.aggregates =
    w.log.aggregates ++ [⟨st, a, previous.corrected newPrice w.env.timestamp⟩]
  uncapped : w.store.correctionCount a < w.store.getCorrectionScope.maxCorrections
  recent : w.env.sequence - w.store.historyLedger a ≤ w.store.getCorrectionScope.windowLedgers
  recorded : ∃ c r, Seeded a w.store.corrections c ∧ r.index = (chain c a).length ∧
    r.corrected = true ∧ w'.store.corrections = amend c a r

theorem correctPrice_replaces (newPrice : Int) (reason : String) (w : World) :
    Sat (correctPrice a newPrice reason) w fun _ w' =>
      ∃ previous, Replaces a newPrice previous w w' := by
  have hw : layout.agreeOff [.auths] w w := Std.Refl.refl w
  refine (getAdmin_frame.from hw).andThen fun admin t ht => ?_
  refine ((requireAuth_frame admin).from ht).andThen fun _ t ht => ?_
  refine ((checkRegisteredAsset_frame a).from ht).andThen fun _ t ht => ?_
  have henv : t.env = w.env := ht .env (by decide)
  have hconfig : t.store.config = w.store.config := ht .config (by decide)
  have hhistory : t.store.history = w.store.history := ht .history (by decide)
  have hcorrections : t.store.corrections = w.store.corrections := ht .corrections (by decide)
  obtain ⟨haggregate,hlog⟩ := Prod.mk.inj (ht .aggregates (by decide))
  simp only [sat_bind,sat_ensure,sat_readStore]
  intro _ _ _
  refine (checkCorrection_limits a t).mono fun previous v hv => ?_
  obtain ⟨⟨hprevious,huncapped,hrecent⟩,rfl⟩ := hv
  refine ((seedRevisions_sat a previous v).and (seedRevisions_frame a previous v)).mono
    fun _ u hu => ?_
  obtain ⟨hseeded,hvu⟩ := hu
  have henv' : u.env = v.env := hvu .env (by decide)
  obtain ⟨haggregate',hlog'⟩ := Prod.mk.inj (hvu .aggregates (by decide))
  rw [sat_getSequence,sat_getTimestamp,sat_writeAggregate]
  unfold modifyCorrections
  rw [sat_update,sat_pure]
  rw [hcorrections] at hseeded
  unfold Store.correctionCount Store.getCorrectionScope at huncapped
  unfold Store.historyLedger Store.getCorrectionScope at hrecent
  rw [hcorrections,hconfig] at huncapped
  rw [henv,hhistory,hconfig] at hrecent
  refine ⟨previous,?_⟩
  constructor
  · rw [← haggregate]
    exact hprevious
  · rw [haggregate',haggregate,henv',henv]
  · refine ⟨u.store,?_⟩
    rw [hlog',hlog,henv',henv]
  · exact huncapped
  · exact hrecent
  · exact ⟨u.store.corrections,_,hseeded,rfl,rfl,rfl⟩

end Correcting

section Publishing

variable {asset a : Address} {w w' : World} {ws : List AggregateWrite} {T : List Region}

/-- The value that a sequence of writes leaves in the aggregate of the asset. -/
def lastWritten (asset : Address) (ws : List AggregateWrite) : Option AggregatePrice :=
  (ws.filter fun x => x.asset = asset).getLast?.map AggregateWrite.value

theorem lastWritten_append (asset : Address) (ws ws' : List AggregateWrite) :
    lastWritten asset (ws ++ ws') = (lastWritten asset ws').or (lastWritten asset ws) := by
  unfold lastWritten
  rw [List.filter_append,List.getLast?_append]
  cases (ws'.filter fun x => x.asset = asset).getLast? <;> rfl

/-- The scope admits no more corrections than the hard maximum. -/
def BoundedScope (st : Store) : Prop :=
  st.getCorrectionScope.maxCorrections ≤ maxCorrectionsPerAsset

/-- The writes `ws` account for the aggregate of the asset and for what the call has indexed; the
record of the asset is continued. -/
structure Publishes (asset : Address) (ws : List AggregateWrite) (w w' : World) : Prop where
  env : w'.env = w.env
  scope : BoundedScope w.store → BoundedScope w'.store
  written : w'.log.aggregates = w.log.aggregates ++ ws
  aggregate : ∀ v ∈ w'.store.aggregate asset,
    (lastWritten asset ws).or (w.store.aggregate asset) = some v
  indexed : ∀ l ∈ w'.store.history.ledgerList asset, l ∈ w.store.history.ledgerList asset ∨
    (lastWritten asset ws).isSome = true ∧ l = w.env.sequence
  record : BoundedScope w.store → OnRecord asset w.store.corrections →
    Continues asset w.store.corrections w'.store.corrections

def Moves (asset : Address) (w w' : World) : Prop := ∃ ws, Publishes asset ws w w'

instance : Std.Refl (Moves asset) where
  refl _ := ⟨[], rfl, id, (List.append_nil _).symm, fun _ h => h, fun _ h => .inl h,
    fun _ h => .refl h⟩

instance : IsTrans World (Moves asset) where
  trans w v u := by
    rintro ⟨ws, hwv⟩ ⟨ws', hvu⟩
    refine ⟨ws ++ ws', hvu.env.trans hwv.env, fun h => hvu.scope (hwv.scope h), ?_, ?_, ?_, ?_⟩
    · rw [hvu.written, hwv.written, List.append_assoc]
    · intro x hx
      have hlast := hvu.aggregate x hx
      rw [lastWritten_append]
      cases hlater : lastWritten asset ws' with
      | some y => rwa [hlater] at hlast
      | none =>
        rw [hlater, Option.none_or] at hlast
        exact hwv.aggregate x hlast
    · intro l hl
      rw [lastWritten_append, Option.isSome_or, Bool.or_eq_true, ← hwv.env]
      rcases hvu.indexed l hl with hl | ⟨hlater, rfl⟩
      · rw [hwv.env]
        exact (hwv.indexed l hl).imp_right fun h => ⟨.inr h.1, h.2⟩
      · exact .inr ⟨.inl hlater, rfl⟩
    · intro hscope hrecord
      have hfirst := hwv.record hscope hrecord
      exact hfirst.trans (hvu.record (hwv.scope hscope) hfirst.onRecord)

theorem boundedScope_congr {st st' : Store} (h : st'.config = st.config) :
    BoundedScope st → BoundedScope st' := by
  unfold BoundedScope Store.getCorrectionScope
  rw [h]
  exact id

/-- A call that writes no aggregate and leaves the record alone may remove the aggregate and take
ledgers out of the index. -/
theorem moves_of_silent (henv : w'.env = w.env)
    (hscope : BoundedScope w.store → BoundedScope w'.store)
    (hlog : w'.log.aggregates = w.log.aggregates)
    (haggregate : ∀ v ∈ w'.store.aggregate asset, w.store.aggregate asset = some v)
    (hindex : w'.store.history.ledgerList asset ⊆ w.store.history.ledgerList asset)
    (hcorrections : w'.store.corrections = w.store.corrections) : Moves asset w w' := by
  refine ⟨[],henv,hscope,by rw [hlog,List.append_nil],haggregate,fun l hl => .inl (hindex hl),?_⟩
  intro _ hrecord
  rw [hcorrections]
  exact .refl hrecord

theorem moves_of_frame (h : layout.agreeOff T w w')
    (hT : ∀ r ∈ [Region.env,.config,.aggregates,.history,.corrections], r ∉ T) :
    Moves asset w w' := by
  obtain ⟨haggregate,hlog⟩ := Prod.mk.inj (h .aggregates (hT _ (by simp)))
  have hhistory : w'.store.history = w.store.history := h .history (hT _ (by simp))
  refine moves_of_silent (h .env (hT _ (by simp)))
    (boundedScope_congr (h .config (hT _ (by simp)))) hlog ?_ ?_ (h .corrections (hT _ (by simp)))
  · intro v hv
    rw [haggregate] at hv
    exact hv
  · rw [hhistory]
    exact List.Subset.refl _

theorem moves_frame {α : Type} {m : Contract α} (hm : Frame T m)
    (hT : ∀ r ∈ [Region.env,.config,.aggregates,.history,.corrections], r ∉ T) :
    Preserves (Moves asset) m :=
  hm.weaken fun _ _ h => moves_of_frame h hT

/-- One write of the aggregate of `a`, which may index the ledger of the call for `a`. -/
theorem moves_of_write {value : AggregatePrice} (h : layout.agreeOff T w w')
    (hT : ∀ r ∈ [Region.env,.config], r ∉ T)
    (haggregate : w'.store.aggregate = Function.update w.store.aggregate a (some value))
    (hwritten : ∃ st, w'.log.aggregates = w.log.aggregates ++ [⟨st,a,value⟩])
    (hindexed : ∀ l ∈ w'.store.history.ledgerList asset,
      l ∈ w.store.history.ledgerList asset ∨ a = asset ∧ l = w.env.sequence)
    (hrecord : BoundedScope w.store → OnRecord asset w.store.corrections →
      Continues asset w.store.corrections w'.store.corrections) : Moves asset w w' := by
  obtain ⟨st,hwritten⟩ := hwritten
  have hlast : lastWritten asset [⟨st,a,value⟩] = if a = asset then some value else none := by
    unfold lastWritten
    by_cases ha : a = asset <;> simp [ha]
  refine ⟨[⟨st,a,value⟩],h .env (hT _ (by simp)),
    boundedScope_congr (h .config (hT _ (by simp))),hwritten,?_,?_,hrecord⟩
  · intro v hv
    rw [hlast]
    rw [haggregate] at hv
    by_cases ha : a = asset
    · subst ha
      rw [Function.update_self] at hv
      rw [if_pos rfl]
      exact hv
    · rw [Function.update_of_ne (Ne.symm ha)] at hv
      rw [if_neg ha]
      exact hv
  · intro l hl
    refine (hindexed l hl).imp_right fun h => ⟨?_,h.2⟩
    rw [hlast,if_pos h.1]
    rfl

end Publishing

end PriceOracle.Corrections
