import Mathlib.Data.List.DropRight
import PriceOracle.Lib.Run
import PriceOracle.Model.Scorecards
import PriceOracle.Pricing.Selection

/-! # What a scorecard is made of

A source is graded against the others only. As long as no error reaches the cap, its samples are the
last errors, and the worst of them is reported. -/

namespace PriceOracle.Scorecards

open Lib.MachineInt Lib.Run Lib.OrderStatistic Model Model.Scorecards

section References

variable {prices : List Int}

/-- The prices are signed 128-bit numbers, and so are their differences. -/
def Narrow (prices : List Int) : Prop :=
  (∀ p ∈ prices, IsI128 p) ∧ ∀ p ∈ prices, ∀ q ∈ prices, q - p ≤ i128Max

theorem leaveOneOutMedian_set (prices : List Int) (i : Nat) (p : Int) :
    leaveOneOutMedian (prices.set i p) i = leaveOneOutMedian prices i := by
  unfold leaveOneOutMedian
  rw [List.eraseIdx_set_eq]

/-- In a buffer that fits, the reference is the median of the others. -/
theorem leaveOneOutMedian_eq (hnarrow : Narrow prices) (hlen : prices.length ≤ maxLongWindow)
    (i : Nat) :
    leaveOneOutMedian prices i =
      if (prices.eraseIdx i).length < minReferenceSources then none
      else some (median (prices.eraseIdx i)) := by
  have hfits : (prices.eraseIdx i).length ≤ maxLongWindow :=
    (List.eraseIdx_sublist prices i).length_le.trans hlen
  have hsub : ∀ p ∈ prices.eraseIdx i, p ∈ prices := fun p hp => List.mem_of_mem_eraseIdx hp
  unfold leaveOneOutMedian
  rw [List.take_of_length_le hfits]
  generalize prices.eraseIdx i = rest at hsub
  dsimp only
  split_ifs with hfew hodd
  · rfl
  · rw [List.getD_eq_getElem?_getD]
    unfold median kth
    rw [if_neg (by omega)]
  · unfold minReferenceSources at hfew
    obtain ⟨a,ha⟩ := exists_kth (show rest.length / 2 - 1 < rest.length by omega)
    obtain ⟨b,hb⟩ := exists_kth (show rest.length / 2 < rest.length by omega)
    have hmem := hsub a (kth_mem ha)
    have hmem' := hsub b (kth_mem hb)
    have hmid := Pricing.midpoint_of_narrow (hnarrow.1 a hmem) (hnarrow.1 b hmem')
      (kth_le_kth (by omega) ha hb) (hnarrow.2 a hmem b hmem')
    unfold median
    rw [if_pos (by omega),ha,hb,Option.getD_some,Option.getD_some,← hmid]
    unfold kth at ha hb
    rw [List.getD_eq_getElem?_getD,List.getD_eq_getElem?_getD,ha,hb]
    rfl

end References

section Samples

variable {s : Cards} {sources : List Address} {buf prices : List Int} {α : Type}

/-- An error that is recorded: of the source, as it is and as it is cut. -/
structure Grade where
  source : Address
  raw : Int
  capped : Int

/-- What an iteration of the loop of `record_round` records. -/
def gradeAt (cfg : ScorecardConfig) (sources : List Address) (buf : List Int) (i : Nat) :
    Option Grade :=
  (leaveOneOutMedian buf i).bind fun reference =>
    let raw := errorBps (buf.getD i 0) reference
    if 0 < reference then some ⟨sources.getD i 0, raw, winsorize cfg.outlierCapBps raw⟩ else none

def roundGrades (cfg : ScorecardConfig) (sources : List Address) (prices : List Int) : List Grade :=
  (List.range (roundPrices sources prices).length).filterMap
    (gradeAt cfg sources (roundPrices sources prices))

def addGrade (s : Cards) (g : Grade) : Cards :=
  let all := (s.samples g.source ++ [encodeSample g.capped]).rtake s.config.longWindow
  { s with sourceScorecard := Function.update s.sourceScorecard g.source (some all) }

theorem recordSource_eq (i : Nat) :
    recordSource sources buf s i = (gradeAt s.config sources buf i).elim s (addGrade s) := by
  unfold recordSource gradeAt
  cases leaveOneOutMedian buf i with
  | none => rfl
  | some reference =>
    dsimp only [Option.bind_some]
    split_ifs <;> rfl

theorem recordRound_eq (s : Cards) (sources : List Address) (prices : List Int) :
    recordRound sources prices s = (roundGrades s.config sources prices).foldl addGrade s := by
  unfold recordRound roundGrades
  dsimp only
  generalize roundPrices sources prices = buf
  generalize List.range buf.length = indices
  induction indices generalizing s with
  | nil => rfl
  | cons i indices ih =>
    have hconfig : (recordSource sources buf s i).config = s.config := by
      rw [recordSource_eq]
      cases gradeAt s.config sources buf i <;> rfl
    rw [List.foldl_cons,ih,hconfig,recordSource_eq]
    cases hgrade : gradeAt s.config sources buf i with
    | none => rw [List.filterMap_cons_none hgrade,Option.elim_none]
    | some g => rw [List.filterMap_cons_some hgrade,List.foldl_cons,Option.elim_some]

theorem decodeSample_encodeSample {err : Int} (h : -2 ^ 31 ≤ err ∧ err < 2 ^ 31) :
    decodeSample (encodeSample err) = err := by
  unfold decodeSample encodeSample u32Max
  dsimp only
  split_ifs
  all_goals omega

/-- What leaves a window does not come back with the next element. -/
theorem rtake_rtake_concat (n : Nat) (l : List α) (x : α) :
    (l.rtake n ++ [x]).rtake n = (l ++ [x]).rtake n := by
  cases n with
  | zero => rw [List.rtake_zero,List.rtake_zero]
  | succ n =>
    rw [List.rtake_concat_succ,List.rtake_concat_succ]
    simp only [List.rtake,List.drop_drop,List.length_drop]
    congr 2
    omega

theorem map_rtake {β : Type} (f : α → β) (n : Nat) (l : List α) :
    (l.rtake n).map f = (l.map f).rtake n := by
  rw [List.rtake,List.map_drop,List.rtake,List.length_map]

theorem rtake_congr {l : List α} {m n : Nat} (h : min l.length m = min l.length n) :
    l.rtake m = l.rtake n := by
  unfold List.rtake
  congr 1
  omega

theorem natAbs_le_longMax {cfg : ScorecardConfig} {source : Address} {samples : List Nat} {v : Nat}
    (hv : v ∈ samples) :
    (decodeSample v).natAbs % 2 ^ 32 ≤ (summarize source samples cfg).longMaxErrorBps := by
  have hfold (worst : Nat) : worst ≤ samples.foldl
      (fun longMax v => max longMax ((decodeSample v).natAbs % 2 ^ 32)) worst ∧
      (v ∈ samples → (decodeSample v).natAbs % 2 ^ 32 ≤ samples.foldl
        (fun longMax v => max longMax ((decodeSample v).natAbs % 2 ^ 32)) worst) := by
    clear hv
    induction samples generalizing worst with
    | nil => simp
    | cons u samples ih =>
      obtain ⟨hkeep,hrest⟩ := ih (max worst ((decodeSample u).natAbs % 2 ^ 32))
      refine ⟨(le_max_left _ _).trans hkeep,fun hv => ?_⟩
      rcases List.mem_cons.1 hv with rfl | hv
      · exact (le_max_right _ _).trans hkeep
      · exact hrest hv
  exact (hfold 0).2 hv

end Samples

section Runs

inductive ScorecardCall
  | setConfig (byAdmin : Bool) (cfg : ScorecardConfig)
  | recordRound (sources : List Address) (prices : List Int)

/-- The stored scorecards, with all errors that were ever recorded. -/
structure Trace where
  cards : Cards := {}
  past : List Grade := []

def Trace.history (tr : Trace) (source : Address) : List Grade :=
  tr.past.filter fun g => g.source = source

def execScorecards (tr : Trace) : ScorecardCall → Trace
  | .setConfig byAdmin cfg =>
    match setConfig byAdmin cfg tr.cards with
    | .ok cards => { tr with cards }
    | .error _ => tr
  | .recordRound sources prices =>
    ⟨recordRound sources prices tr.cards,
      tr.past ++ roundGrades tr.cards.config sources prices⟩

/-- The buffers and the samples can hold what the call brings: a round fits and has no error beyond the
cap or 32 bits, and a new window is reached by no source that the old one kept apart. -/
def Measured (tr : Trace) : ScorecardCall → Prop
  | .setConfig byAdmin cfg => ∀ cards, setConfig byAdmin cfg tr.cards = .ok cards →
    ∀ source, min (tr.history source).length cfg.longWindow =
      min (tr.history source).length tr.cards.config.longWindow
  | .recordRound sources prices => min sources.length prices.length ≤ maxLongWindow ∧
    Narrow (roundPrices sources prices) ∧
    ∀ g ∈ roundGrades tr.cards.config sources prices,
      g.raw.natAbs ≤ tr.cards.config.outlierCapBps ∧ -2 ^ 31 ≤ g.raw ∧ g.raw < 2 ^ 31

/-- The retained samples are the last errors as they were cut, and the maximum is no less than any of
them as it was. -/
structure Retained (tr : Trace) (source : Address) : Prop where
  samples : (tr.cards.samples source).map decodeSample =
    ((tr.history source).rtake tr.cards.config.longWindow).map Grade.capped
  worst : ∀ g ∈ (tr.history source).rtake tr.cards.config.longWindow,
    g.raw.natAbs ≤ (getScorecard tr.cards source).longMaxErrorBps

/-- Every source of the round is graded against the median of the others, if there are enough, whatever
its own price is. -/
def Independent : ScorecardCall → Prop
  | .setConfig _ _ => True
  | .recordRound sources prices => ∀ i < min sources.length prices.length,
    leaveOneOutMedian (roundPrices sources prices) i =
      (let others := (prices.take (min sources.length prices.length)).eraseIdx i
        if others.length < minReferenceSources then none else some (median others)) ∧
    ∀ p, leaveOneOutMedian (roundPrices sources (prices.set i p)) i =
      leaveOneOutMedian (roundPrices sources prices) i

/-- What the recorded errors of the past leave behind. -/
structure Sampled (tr : Trace) : Prop where
  fits : tr.cards.config.longWindow ≤ maxLongWindow
  samples : ∀ source, (tr.cards.samples source).map decodeSample =
    ((tr.history source).rtake tr.cards.config.longWindow).map Grade.capped
  exact : ∀ g ∈ tr.past, g.capped = g.raw ∧ -2 ^ 31 ≤ g.raw ∧ g.raw < 2 ^ 31

variable {tr : Trace} {call : ScorecardCall} {g : Grade}

theorem sampled_fresh : Sampled {} := ⟨by decide,fun _ => rfl,by simp⟩

/-- A source whose errors were all exact has its samples and its maximum. -/
theorem Sampled.retained (h : Sampled tr) (source : Address) : Retained tr source := by
  have hsamples := h.samples source
  refine ⟨hsamples,fun g hg => ?_⟩
  have hpast : g ∈ tr.past := List.mem_of_mem_filter (List.mem_of_mem_drop hg)
  obtain ⟨hcapped,hlow,hhigh⟩ := h.exact g hpast
  have hcoded : g.capped ∈ (tr.cards.samples source).map decodeSample := by
    rw [hsamples]
    exact List.mem_map_of_mem hg
  obtain ⟨v,hv,hdecoded⟩ := List.mem_map.1 hcoded
  have hlength : (tr.cards.samples source).length ≤ maxLongWindow := by
    have heq := congrArg List.length hsamples
    simp only [List.length_map,List.rtake,List.length_drop] at heq
    have hfits := h.fits
    omega
  rw [getScorecard,toSlice,List.take_of_length_le hlength]
  refine le_trans ?_ (natAbs_le_longMax hv)
  rw [hdecoded,hcapped,Nat.mod_eq_of_lt (by omega)]

/-- One more exact error. -/
theorem Sampled.add (h : Sampled tr) (hg : g.capped = g.raw ∧ -2 ^ 31 ≤ g.raw ∧ g.raw < 2 ^ 31) :
    Sampled ⟨addGrade tr.cards g,tr.past ++ [g]⟩ := by
  refine ⟨h.fits,fun source => ?_,List.forall_mem_append.2 ⟨h.exact,by simpa using hg⟩⟩
  have hsource := h.samples source
  change _ = ((Trace.history ⟨_,tr.past ++ [g]⟩ source).rtake tr.cards.config.longWindow).map _
  by_cases hsame : g.source = source
  · have hhistory : Trace.history ⟨addGrade tr.cards g,tr.past ++ [g]⟩ source =
        tr.history source ++ [g] := by
      simp [Trace.history,hsame]
    have hall : (addGrade tr.cards g).samples source =
        (tr.cards.samples source ++ [encodeSample g.capped]).rtake tr.cards.config.longWindow := by
      simp [addGrade,Cards.samples,hsame]
    rw [hhistory,hall,map_rtake,map_rtake,List.map_append,List.map_append,hsource,map_rtake,
      List.map_singleton,decodeSample_encodeSample (hg.1 ▸ hg.2),rtake_rtake_concat]
    rfl
  · have hhistory : Trace.history ⟨addGrade tr.cards g,tr.past ++ [g]⟩ source =
        tr.history source := by
      simp [Trace.history,hsame]
    have hall : (addGrade tr.cards g).samples source = tr.cards.samples source := by
      simp [addGrade,Cards.samples,Function.update_of_ne (Ne.symm hsame)]
    rw [hhistory,hall,hsource]

theorem Sampled.addAll {gs : List Grade} (h : Sampled tr)
    (hgs : ∀ g ∈ gs, g.capped = g.raw ∧ -2 ^ 31 ≤ g.raw ∧ g.raw < 2 ^ 31) :
    Sampled ⟨gs.foldl addGrade tr.cards,tr.past ++ gs⟩ := by
  induction gs generalizing tr with
  | nil => rwa [List.append_nil]
  | cons g gs ih =>
    rw [List.forall_mem_cons] at hgs
    rw [← List.singleton_append,← List.append_assoc]
    exact ih (h.add hgs.1) hgs.2

theorem capped_of_mem {cfg : ScorecardConfig} {sources : List Address} {prices : List Int}
    (hg : g ∈ roundGrades cfg sources prices)
    (hcap : g.raw.natAbs ≤ cfg.outlierCapBps) : g.capped = g.raw := by
  obtain ⟨i,-,hi⟩ := List.mem_filterMap.1 hg
  obtain ⟨reference,-,hreference⟩ := Option.bind_eq_some_iff.1 hi
  split_ifs at hreference
  cases hreference
  unfold winsorize
  dsimp only at hcap ⊢
  omega

theorem Sampled.step (h : Sampled tr) (hcall : Measured tr call) :
    Sampled (execScorecards tr call) := by
  cases call with
  | setConfig byAdmin cfg =>
    unfold execScorecards
    dsimp only
    cases hset : setConfig byAdmin cfg tr.cards with
    | error e => exact h
    | ok cards =>
      have hwindows := hcall cards hset
      unfold setConfig at hset
      split_ifs at hset with hadmin hinvalid
      cases hset
      refine ⟨by change cfg.longWindow ≤ _; omega,fun source => ?_,h.exact⟩
      exact (h.samples source).trans (congrArg _ (rtake_congr (hwindows source).symm))
  | recordRound sources prices =>
    obtain ⟨-,-,hmeasured⟩ := hcall
    unfold execScorecards
    dsimp only
    rw [recordRound_eq]
    exact h.addAll fun g hg => ⟨capped_of_mem hg (hmeasured g hg).1,(hmeasured g hg).2⟩

theorem independent_of_measured (hcall : Measured tr call) : Independent call := by
  cases call with
  | setConfig byAdmin cfg => trivial
  | recordRound sources prices =>
    obtain ⟨hfits,hnarrow,-⟩ := hcall
    intro i hi
    have hround : roundPrices sources prices = prices.take (min sources.length prices.length) := by
      rw [roundPrices,min_eq_left hfits]
    refine ⟨?_,fun p => ?_⟩
    · rw [leaveOneOutMedian_eq hnarrow,hround]
      exact (List.length_take_le _ _).trans (min_le_right _ _)
    · rw [← leaveOneOutMedian_set (roundPrices sources prices) i p]
      unfold roundPrices
      rw [List.length_set,List.take_set]

/-- In every run of configurations and rounds that the samples can hold, all sources are graded
independently, and all their samples and maxima are right at the end. -/
theorem scorecards_run (calls : List ScorecardCall)
    (hcalls : ∀ x ∈ steps execScorecards {} calls, Measured x.1 x.2) :
    (∀ x ∈ steps execScorecards {} calls, Independent x.2) ∧
      ∀ source, Retained (run execScorecards {} calls) source := by
  obtain ⟨hindependent,hend⟩ := steps_satisfy (P := fun _ call => Independent call)
    (fun tr call h hcall => ⟨independent_of_measured hcall,h.step hcall⟩) sampled_fresh hcalls
  exact ⟨hindependent,fun source => hend.retained source⟩

/-- A cap of a tenth, and a round of three sources that are close to each other. -/
def closeRound : List ScorecardCall :=
  [.setConfig true ⟨3, 4, 2, 100, 1000⟩, .recordRound [1, 2, 3] [10000, 10030, 10020]]

theorem closeRound_run :
    (∀ x ∈ steps execScorecards {} closeRound, Independent x.2) ∧
      ∀ source, Retained (run execScorecards {} closeRound) source := by
  refine scorecards_run closeRound ?_
  rw [closeRound,steps_cons,steps_cons,steps_nil,List.forall_mem_cons,List.forall_mem_singleton]
  refine ⟨fun cards _ source => by simp [Trace.history],by decide,?_,by decide +kernel⟩
  unfold Narrow IsI128
  decide +kernel

/-- One source is at three times the price of the others. -/
def outlierRound : ScorecardCall := .recordRound [1, 2, 3] [100, 100, 300]

/-- The widest cap, and a source that is off by a factor of 300000. -/
def wideRound : List ScorecardCall :=
  [.setConfig true ⟨10, 50, 5, 100, u32Max⟩, .recordRound [1, 2, 3] [1000, 1000, 300001000]]

/-- An error beyond the cap is not reported as the maximum, and one beyond 32 bits is stored as another
one, which no cap has cut. -/
theorem outlier_hidden :
    ((execScorecards {} outlierRound).history 3).map Grade.raw = [20000] ∧
    (getScorecard (execScorecards {} outlierRound).cards 3).longMaxErrorBps = 5000 ∧
    ((run execScorecards {} wideRound).history 3).map Grade.capped = [3000000000] ∧
    ((run execScorecards {} wideRound).cards.samples 3).map decodeSample = [2147483647] ∧
    ¬Retained (execScorecards {} outlierRound) 3 ∧
    ¬Retained (run execScorecards {} wideRound) 3 := by
  refine ⟨by decide +kernel,by decide +kernel,by decide +kernel,by decide +kernel,fun h => ?_,
    fun h => ?_⟩
  · have hworst := h.worst
    revert hworst
    decide +kernel
  · have hsamples := h.samples
    revert hsamples
    decide +kernel

end Runs

end PriceOracle.Scorecards
