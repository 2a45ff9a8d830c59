import PriceOracle.Lib.Run
import PriceOracle.Model.Invocation
import PriceOracle.Model.SanityLattice

/-! # Declared relations

Whatever the administrator declares and removes, the relations of an asset are valid ones, and no two
of them are of one kind with one peer. The verdict of a check is what its events say. -/

namespace PriceOracle.Lattice

open Lib.Transaction Lib.Run Model

inductive LatticeCall
  | addRelation (asset : Address) (relation : SanityRelation)
  | removeRelation (asset peer : Address) (kind : SanityRelationKind)
  | declareDepeg (asset : Address) (untilLedger : Nat)
  | clearDepeg (asset : Address)
  | clearQuarantine (asset : Address)
deriving DecidableEq

def LatticeCall.body : LatticeCall → Contract Unit
  | addRelation asset relation => Model.addRelation asset relation
  | removeRelation asset peer kind => Model.removeRelation asset peer kind
  | declareDepeg asset untilLedger => Model.declareDepeg asset untilLedger
  | clearDepeg asset => Model.clearDepeg asset
  | clearQuarantine asset => Model.clearQuarantine asset

/-- A call, or a change elsewhere that leaves the declared relations as they are. -/
inductive LatticeAct
  | call (c : LatticeCall)
  | elsewhere (rest : Store)

structure LatticeTx where
  env : Env
  act : LatticeAct

def execLattice (st : Store) (t : LatticeTx) : Store :=
  match t.act with
  | .call c => invoke c.body t.env st
  | .elsewhere rest => { rest with
      config := { rest.config with sanityRelations := st.config.sanityRelations } }

/-- A relation that can be evaluated as it is written. -/
structure Valid (asset : Address) (r : SanityRelation) : Prop where
  positive : 0 < r.toleranceBps
  tight : r.toleranceBps ≤ maxToleranceBps
  apart : r.wellFormed asset = true
  rated : r.kind = .peg → 0 < r.ratioNum

/-- The relations of one asset, as they are declared. -/
structure Declared (asset : Address) (relations : List SanityRelation) : Prop where
  valid : ∀ r ∈ relations, Valid asset r
  distinct : (relations.map fun r => (r.peer, r.kind)).Nodup

/-- The relations of every asset are declared ones. -/
def AllDeclared (st : Store) : Prop := ∀ asset, Declared asset (st.getRelations asset)

section Declarations

variable {w : World} {st : Store} {relations : List SanityRelation} {asset : Address}

theorem sat_updateGuards (f : PublicationGuards → PublicationGuards) :
    Sat (updateGuards f) w fun _ w' => w'.store.config = w.store.config := by
  simp only [updateGuards,modifyBounds,sat_bind,sat_readStore,sat_mark,sat_update]

theorem indexed_sat (asset : Address) :
    Sat (checkRegisteredAsset asset) w fun _ w' => w'.store.config = w.store.config :=
  (checkRegisteredAsset_frame (T := []) asset w).mono fun _ _ h => h .config (by simp)

theorem validateRelation_sat (asset : Address) (r : SanityRelation) :
    Sat (validateRelation asset r) w fun _ w' =>
      Valid asset r ∧ w'.store.config = w.store.config := by
  simp only [validateRelation,sat_bind,sat_ensure]
  intro htolerance happart hratio
  have hvalid : Valid asset r := by
    refine ⟨by omega,by omega,happart,fun hpeg => ?_⟩
    rw [not_and,not_or] at hratio
    exact Int.not_le.1 (hratio hpeg).2
  refine (indexed_sat r.peer).mono fun _ u hu => ?_
  cases r.peer2 with
  | none => exact (sat_pure _).2 ⟨hvalid,hu⟩
  | some p2 => exact (indexed_sat p2).mono fun _ v hv => ⟨hvalid,hv.trans hu⟩

theorem addRelation_sat (asset : Address) (relation : SanityRelation) :
    Sat (Model.addRelation asset relation) w fun _ w' => Valid asset relation ∧
      (w.store.getRelations asset).any (·.sameAs relation) = false ∧
      w'.store.config.sanityRelations = Function.update w.store.config.sanityRelations asset
        (some (w.store.getRelations asset ++ [relation])) := by
  refine (sat_asAdmin _).2 fun _ _ _ => ?_
  refine (indexed_sat asset).andThen ?_
  intro _ u hu
  refine (validateRelation_sat asset relation).andThen ?_
  rintro _ v ⟨hvalid,hv⟩
  simp only [modifyConfig,sat_bind,sat_readStore,sat_ensure,sat_update]
  intro _ hnew
  refine (sat_updateGuards _).mono fun _ w' hw => ?_
  have hrelations : v.store.getRelations asset = w.store.getRelations asset := by
    unfold Store.getRelations
    rw [hv,hu]
    rfl
  rw [hrelations] at hnew hw
  rw [hw,hv,hu]
  exact ⟨hvalid,hnew,rfl⟩

theorem removeRelation_sat (asset peer : Address) (kind : SanityRelationKind) :
    Sat (Model.removeRelation asset peer kind) w fun _ w' =>
      w'.store.config.sanityRelations = Function.update w.store.config.sanityRelations asset
        (some ((w.store.getRelations asset).filter fun r => ¬(r.peer = peer ∧ r.kind = kind))) := by
  refine (sat_asAdmin _).2 fun _ _ _ => ?_
  simp only [modifyConfig,sat_bind,sat_readStore,sat_update]
  rfl

theorem getRelations_update {st st' : Store} (h : st'.config.sanityRelations =
      Function.update st.config.sanityRelations asset (some relations)) (a : Address) :
    st'.getRelations a = if a = asset then relations else st.getRelations a := by
  unfold Store.getRelations
  rw [h,Function.update_apply]
  split_ifs
  · rfl
  · rfl

theorem AllDeclared.update {st st' : Store} (h : AllDeclared st) (hnew : Declared asset relations)
    (hst' : st'.config.sanityRelations =
      Function.update st.config.sanityRelations asset (some relations)) : AllDeclared st' := by
  intro a
  rw [getRelations_update hst']
  split_ifs with ha
  · exact ha ▸ hnew
  · exact h a

theorem Declared.concat {r : SanityRelation} (h : Declared asset relations) (hvalid : Valid asset r)
    (hnew : relations.any (·.sameAs r) = false) : Declared asset (relations ++ [r]) := by
  refine ⟨fun s hs => ?_,?_⟩
  · rcases List.mem_append.1 hs with hs | hs
    · exact h.valid s hs
    · exact List.mem_singleton.1 hs ▸ hvalid
  · rw [List.map_append,List.map_singleton,← List.concat_eq_append,List.nodup_concat]
    refine ⟨fun hmem => ?_,h.distinct⟩
    obtain ⟨s,hs,hsame⟩ := List.mem_map.1 hmem
    refine List.any_eq_false.1 hnew s hs ?_
    rw [Prod.mk.injEq] at hsame
    exact decide_eq_true hsame

theorem Declared.filter (h : Declared asset relations) (p : SanityRelation → Bool) :
    Declared asset (relations.filter p) :=
  ⟨fun r hr => h.valid r (List.mem_of_mem_filter hr),h.distinct.sublist (List.filter_sublist.map _)⟩

theorem allDeclared_of_config {st st' : Store} (h : AllDeclared st)
    (hst' : st'.config.sanityRelations = st.config.sanityRelations) : AllDeclared st' := by
  intro asset
  rw [Store.getRelations,hst']
  exact h asset

theorem allDeclared_step (h : AllDeclared st) (t : LatticeTx) : AllDeclared (execLattice st t) := by
  obtain ⟨env,act⟩ := t
  cases act with
  | elsewhere rest => exact allDeclared_of_config h rfl
  | call c =>
    have hquiet (hc : Sat c.body (World.enter env st) fun _ w' =>
        w'.store.config.sanityRelations = st.config.sanityRelations) :
        AllDeclared (invoke c.body env st) :=
      invoke_of_sat (P := AllDeclared) h (hc.mono fun _ _ hw => allDeclared_of_config h hw)
    cases c with
    | addRelation asset relation =>
      refine invoke_of_sat (P := AllDeclared) h
        ((addRelation_sat asset relation).mono fun _ w ⟨hvalid,hnew,hw⟩ => ?_)
      exact h.update ((h asset).concat hvalid hnew) hw
    | removeRelation asset peer kind =>
      refine invoke_of_sat (P := AllDeclared) h
        ((removeRelation_sat asset peer kind).mono fun _ w hw => ?_)
      exact h.update ((h asset).filter _) hw
    | declareDepeg asset untilLedger =>
      refine hquiet ((sat_asAdmin _).2 fun _ _ _ => (indexed_sat asset).andThen fun _ u hu => ?_)
      have hkept : u.store.config.sanityRelations = st.config.sanityRelations := by
        rw [hu]
        rfl
      exact (sat_update _ _).2 hkept
    | clearDepeg asset =>
      exact hquiet ((sat_asAdmin _).2 fun _ _ _ => (sat_update _ _).2 rfl)
    | clearQuarantine asset =>
      refine hquiet ((sat_asAdmin _).2 fun _ _ _ => (indexed_sat asset).andThen fun _ u hu => ?_)
      exact (sat_update _ _).2 (congrArg Config.sanityRelations hu)

end Declarations

/-- In every state that a run reaches from one without relations, all relations are declared
ones. -/
theorem allDeclared_run {st : Store} (hst : st.config.sanityRelations = fun _ => none)
    (ts : List LatticeTx) : AllDeclared (run execLattice st ts) := by
  have hnone : AllDeclared st := by
    intro asset
    rw [Store.getRelations,hst]
    exact ⟨by simp,List.nodup_nil⟩
  induction ts using List.reverseRecOn with
  | nil => exact hnone
  | append_singleton ts t ih =>
    rw [run_concat]
    exact allDeclared_step ih t

section Verdicts

variable {env : Env} {st : Store} {asset : Address} {price : Int}

theorem checkRelation_eq (env : Env) (asset : Address) (acc : SanityStatus × Bool) (r : SanityRelation) :
    let next := st.checkRelation price acc r
    let violation := st.relationViolation env asset price r
    next.1.violated = (acc.1.violated || violation.isSome) ∧
      next.1.quarantined = (acc.1.quarantined || violation.any (·.action = .quarantine)) ∧
      next.2 = (acc.2 || violation.any (·.action ≠ .flag)) := by
  unfold Store.checkRelation Store.relationViolation
  cases st.expectedPrice r with
  | none => simp
  | some x =>
    obtain ⟨reference,expected⟩ := x
    by_cases hpositive : expected ≤ 0
    · simp [hpositive]
    · by_cases hwithin : Store.relationMagnitude r price reference expected ≤ r.toleranceBps
      · simp [hpositive,hwithin]
      · cases haction : r.action with
        | flag => simp [hpositive,hwithin]
        | reject => simp [hpositive,hwithin]
        | quarantine => simp [hpositive,hwithin]

theorem checkRelation_foldl (env : Env) (st : Store) (asset : Address) (price : Int)
    (relations : List SanityRelation) (acc : SanityStatus × Bool) :
    let verdict := relations.foldl (st.checkRelation price) acc
    let violations := relations.filterMap (st.relationViolation env asset price)
    verdict.1.violated = (acc.1.violated || !violations.isEmpty) ∧
      verdict.1.quarantined = (acc.1.quarantined || violations.any (·.action = .quarantine)) ∧
      verdict.2 = (acc.2 || violations.any (·.action ≠ .flag)) := by
  induction relations generalizing acc with
  | nil => simp
  | cons r relations ih =>
    obtain ⟨hviolated,hquarantined,hblocked⟩ := ih (st.checkRelation price acc r)
    obtain ⟨hone,htwo,hthree⟩ := checkRelation_eq env asset acc r
    refine ⟨hviolated.trans ?_,hquarantined.trans ?_,hblocked.trans ?_⟩
    · rw [hone]
      cases hr : st.relationViolation env asset price r <;> simp [hr]
    · rw [htwo]
      cases hr : st.relationViolation env asset price r <;> simp [hr,Bool.or_assoc]
    · rw [hthree]
      cases hr : st.relationViolation env asset price r <;> simp [hr,Bool.or_assoc]

/-- The stored status of the asset is a quarantine. -/
def Quarantined (st : Store) (asset : Address) : Prop :=
  ∃ status, st.rounds.sanityStatus asset = some status ∧ status.quarantined = true

/-- A candidate is blocked by a stored quarantine or by an event that does more than flag it. -/
theorem verdict_blocked_iff : (st.sanityVerdict env asset price).2 = true ↔
    Quarantined st asset ∨
      ∃ e ∈ st.sanityViolations env asset price, e.action ≠ .flag := by
  have hstored : ((st.rounds.sanityStatus asset).map SanityStatus.quarantined).getD false = true ↔
      Quarantined st asset := by
    unfold Quarantined
    cases st.rounds.sanityStatus asset <;> simp
  unfold Store.sanityVerdict Store.sanityViolations
  rw [← hstored]
  generalize ((st.rounds.sanityStatus asset).map SanityStatus.quarantined).getD false = quarantined
  cases hsuspended : st.sanitySuspendedAt env asset with
  | true => simp
  | false =>
    by_cases hnone : ((st.config.sanityRelations asset).getD []).isEmpty = true
    · simp [Store.getRelations,List.isEmpty_iff.1 hnone]
    · obtain ⟨-,hmarked,hblocked⟩ := checkRelation_foldl env st asset price
        ((st.config.sanityRelations asset).getD [])
        ({ asset, violated := false, suspended := false, checked := 0, conflictingAsset := none,
            magnitudeBps := 0, toleranceBps := 0, action := .flag, quarantined,
            ledger := env.sequence }, false)
      have hneither : ¬(false = true ∨ ((st.config.sanityRelations asset).getD []).isEmpty = true) :=
        fun h => h.elim Bool.false_ne_true hnone
      dsimp only
      rw [if_neg hneither,if_neg Bool.false_ne_true]
      rw [hmarked,hblocked,Store.getRelations]
      simp only [Bool.false_or,Bool.or_eq_true,List.any_eq_true,decide_eq_true_eq]
      constructor
      · rintro (⟨e,he,hact⟩ | hquarantine | ⟨e,he,hact⟩)
        · exact .inr ⟨e,he,hact⟩
        · exact .inl hquarantine
        · exact .inr ⟨e,he,by simp [hact]⟩
      · rintro (hquarantine | ⟨e,he,hact⟩)
        · exact .inr (.inl hquarantine)
        · exact .inl ⟨e,he,hact⟩

end Verdicts

end PriceOracle.Lattice
