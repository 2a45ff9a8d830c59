import PriceOracle.Lib.Run
import PriceOracle.Submissions.Paths

/-! # What is accepted

Every price a call stores has passed all nine gates at the moment of the write, provided the gates
its path leaves out hold for the prices of the call. No path writes what a gate reads, so the
storage before the call decides. -/

namespace PriceOracle.Submissions

open Lib.Transaction Lib.Run Model Aggregation

def storedLeg (x : SubmissionWrite) : Leg := ⟨x.asset, x.source, x.entry.price⟩

/-- Every new write is of a price that all gates let through in the storage it was made in. -/
structure AcceptedWrites (w w' : World) : Prop where
  env : w'.env = w.env
  writes : ∀ x ∈ w'.log.submissions,
    x ∈ w.log.submissions ∨ Accepts w.env x.before (storedLeg x)

instance : Std.Refl AcceptedWrites := ⟨fun _ => ⟨rfl, fun _ h => Or.inl h⟩⟩

instance : IsTrans World AcceptedWrites where
  trans w v u hwv hvu := by
    refine ⟨hvu.env.trans hwv.env, ?_⟩
    intro x hx
    rcases hvu.writes x hx with hold | hnew
    · exact hwv.writes x hold
    · right
      rw [← hwv.env]
      exact hnew

theorem acceptedWrites_of_frame {w w' : World} {T : List Region} (h : layout.agreeOff T w w')
    (henv : Region.env ∉ T) (hsubmissions : Region.submissions ∉ T) : AcceptedWrites w w' := by
  have hlog : w'.log.submissions = w.log.submissions :=
    congrArg Prod.snd (h .submissions hsubmissions)
  refine ⟨h .env henv,?_⟩
  rw [hlog]
  exact fun _ hx => Or.inl hx

theorem acceptedWrites_respects : RespectsSubmissions AcceptedWrites where
  books _ _ h := acceptedWrites_of_frame h (by decide) (by decide)
  auth a w := (requireAuth_frame a w).mono fun _ _ h =>
    acceptedWrites_of_frame h (by decide) (by decide)
  commit asset decimals recompute d w _ :=
    (commitRound_frame asset w.env.sequence decimals recompute d w).mono fun _ _ h =>
      acceptedWrites_of_frame h (by decide) (by decide)

theorem acceptedWrites_admits {w : World} {gates : List Gate} {x : Leg}
    (hx : ∀ g, g ∉ gates → g.passes w.env w.store x = true) :
    Admits AcceptedWrites w [] gates x := by
  intro t entry hframe _ hprice hgates
  unfold writeSubmission
  rw [sat_update]
  refine ⟨rfl,?_⟩
  intro y hy
  rcases List.mem_append.1 hy with hold | hnew
  · exact Or.inl hold
  · right
    rw [List.mem_singleton] at hnew
    subst hnew
    intro g
    have hleg : (⟨x.asset,x.source,entry.price⟩ : Leg) = x := by rw [hprice]
    change g.passes t.env t.store ⟨x.asset,x.source,entry.price⟩ = true
    rw [hleg,passes_congr hframe]
    by_cases hg : g ∈ gates
    · exact hgates g hg
    · exact hx g hg

/-- One transaction that stores submissions. -/
structure SubmissionTx where
  env : Env
  call : SubmissionCall

def execSubmission (st : Store) (t : SubmissionTx) : Store := invoke t.call.body t.env st

/-- Every price the transaction stores is one that all gates let through at that moment. -/
def StoresAcceptedOnly (st : Store) (t : SubmissionTx) : Prop :=
  ∀ x ∈ (effects t.call.body t.env st).submissions,
    Accepts t.env x.before (storedLeg x)

/-- The gates that the path of the call does not ask let its prices through. -/
def MissingGatesHold (st : Store) (t : SubmissionTx) : Prop :=
  ∀ x ∈ t.call.legs st, ∀ g, g ∉ t.call.gates → g.passes t.env st x = true

theorem storesAcceptedOnly_of_missingGatesHold (st : Store) (t : SubmissionTx)
    (h : MissingGatesHold st t) : StoresAcceptedOnly st t := by
  have hrun := t.call.body_run acceptedWrites_respects (w := World.enter t.env st)
    fun x hx => acceptedWrites_admits (h x hx)
  have hcommit : AcceptedWrites (World.enter t.env st)
      (commit t.call.body (World.enter t.env st)) :=
    commit_of_sat (Std.Refl.refl _) (hrun.mono fun _ _ hu => hu.rel)
  intro x hx
  rcases hcommit.writes x hx with hold | hnew
  · cases hold
  · exact hnew

/-- In every run of submissions from any storage whose steps meet the gates their paths leave out,
every stored price was accepted by all gates. -/
theorem stored_prices_accepted (st : Store) (ts : List SubmissionTx)
    (hts : ∀ x ∈ steps execSubmission st ts, MissingGatesHold x.1 x.2) :
    ∀ x ∈ steps execSubmission st ts, StoresAcceptedOnly x.1 x.2 :=
  (steps_satisfy (I := fun _ => True)
    (fun st t _ h => ⟨storesAcceptedOnly_of_missingGatesHold st t h,trivial⟩) trivial hts).1

/-- Asset `10` with two active sources, disabled or not; two sources make a quorum. -/
def batchStore (disabled : Bool) : Store where
  flags := fun f => f = .assetDisabled
  config := { minSources := some 2 }
  gates := { assetDisabled := fun a => if a = 10 then some disabled else none }
  registry := { assetIndex := fun a => if a = 10 then some true else none
                sources := [1, 2]
                srcActive := fun a => if a = 1 ∨ a = 2 then some true else none }

/-- Source `1` submits the batch with the single price `100` for asset `10`. -/
def batchTx : SubmissionTx := ⟨.concrete 1 5 [1], .bySource 1 (.submitPrices [(10, 100, 5)])⟩

/-- A batch for an enabled asset stores a price that all gates accept. -/
theorem enabled_batch_accepted :
    ∃ x ∈ (effects batchTx.call.body batchTx.env (batchStore false)).submissions,
      Accepts batchTx.env x.before (storedLeg x) := by
  have hstored : 0 < (effects batchTx.call.body batchTx.env (batchStore false)).submissions.length :=
    by decide
  obtain ⟨x,hx⟩ := List.exists_mem_of_length_pos hstored
  refine ⟨x,hx,stored_prices_accepted (batchStore false) [batchTx] ?_
    (batchStore false,batchTx) (by simp) x hx⟩
  rw [steps_cons,steps_nil,List.forall_mem_singleton]
  intro y hy g hg
  rw [List.mem_singleton.1 hy]
  cases g with
  | disabled => decide
  | _ => exact absurd (by decide) hg

/-- A batch stores a price for a disabled asset. -/
theorem disabled_batch_stored :
    ¬∀ x ∈ steps execSubmission (batchStore true) [batchTx], StoresAcceptedOnly x.1 x.2 := by
  intro hall
  have hstored : ∃ x ∈ (effects batchTx.call.body batchTx.env (batchStore true)).submissions,
      Gate.disabled.passes batchTx.env x.before (storedLeg x) = false := by decide
  obtain ⟨x,hx,hdisabled⟩ := hstored
  have haccepted := hall (batchStore true,batchTx) (by simp) x hx .disabled
  rw [hdisabled] at haccepted
  cases haccepted

end PriceOracle.Submissions

/-! ## Who changes a submission

A stored submission changes only in a call its source has signed. -/

namespace PriceOracle.Submissions

open Lib.Transaction Lib.Run Model Aggregation

/-- Authorizations are kept, and an entry that differs belongs to a source that authorized. -/
structure SignedChange (w w' : World) : Prop where
  kept : w.log.auths ⊆ w'.log.auths
  signed : ∀ asset source, w'.store.submission (asset, source) ≠ w.store.submission (asset, source) →
    source ∈ w'.log.auths

instance : Std.Refl SignedChange := ⟨fun _ => ⟨fun _ h => h, fun _ _ h => absurd rfl h⟩⟩

instance : IsTrans World SignedChange where
  trans w v u hwv hvu := by
    refine ⟨fun _ h => hvu.kept (hwv.kept h), ?_⟩
    intro asset source hne
    by_cases hlast : u.store.submission (asset, source) = v.store.submission (asset, source)
    · rw [hlast] at hne
      exact hvu.kept (hwv.signed asset source hne)
    · exact hvu.signed asset source hlast

theorem signedChange_of_frame {w w' : World} {T : List Region} (h : layout.agreeOff T w w')
    (hsubmissions : Region.submissions ∉ T) (hkept : w.log.auths ⊆ w'.log.auths) :
    SignedChange w w' := by
  have hsame : w'.store.submission = w.store.submission :=
    congrArg Prod.fst (h .submissions hsubmissions)
  refine ⟨hkept,?_⟩
  intro asset source hne
  exact absurd (congrFun hsame _) hne

theorem signedChange_respects : RespectsSubmissions SignedChange where
  books w w' h := by
    apply signedChange_of_frame h (by decide)
    rw [show w'.log.auths = w.log.auths from h .auths (by decide)]
    exact fun _ h => h
  auth a w := by
    have hgrow : Sat (requireAuth a) w fun _ w' => w'.log.auths = w.log.auths ++ [a] := by simp
    refine ((requireAuth_frame a w).and hgrow).mono fun _ w' hw => ?_
    apply signedChange_of_frame hw.1 (by decide)
    rw [hw.2]
    exact List.subset_append_left _ _
  commit asset decimals recompute d w _ := by
    refine (commitRound_frame asset w.env.sequence decimals recompute d w).mono fun _ w' hw => ?_
    apply signedChange_of_frame hw (by decide)
    rw [show w'.log.auths = w.log.auths from hw .auths (by decide)]
    exact fun _ h => h

theorem signedChange_admits {w : World} {source : Address} (gates : List Gate) {x : Leg}
    (hx : x.source = source) : Admits SignedChange w [source] gates x := by
  intro t entry _ hsigned _ _
  unfold writeSubmission
  rw [sat_update]
  refine ⟨fun _ h => h,?_⟩
  intro asset s hne
  by_cases hkey : (asset,s) = (x.asset,x.source)
  · obtain ⟨-,rfl⟩ := Prod.mk.inj hkey
    rw [hx]
    exact hsigned (by simp)
  · exact absurd (Function.update_of_ne hkey _ _) hne

/-- Every leaf of a Merkle submission names the caller. -/
def SourceCall.NamesCaller (source : Address) : SourceCall → Prop
  | .submitPriceMerkle _ proofs => ∀ p ∈ proofs, p.leaf.source = source
  | _ => True

theorem SourceCall.legs_source {source : Address} {call : SourceCall}
    (h : call.NamesCaller source) : ∀ x ∈ call.legs source, x.source = source := by
  cases call with
  | submitPriceMerkle root proofs => exact List.forall_mem_map.2 h
  | submitPrices assetPrices => exact List.forall_mem_map.2 fun _ _ => rfl
  | revealPricesBatch reveals => exact List.forall_mem_map.2 fun _ _ => rfl
  | _ => exact List.forall_mem_singleton.2 rfl

/-- One transaction: the environment it meets, the source it is signed for, and the call. -/
structure SourceTx where
  env : Env
  source : Address
  call : SourceCall

def execSource (st : Store) (t : SourceTx) : Store := invoke (t.call.body t.source) t.env st

/-- Whoever's entry the transaction creates or changes has authorized it. -/
def ChangesOwnOnly (st : Store) (t : SourceTx) : Prop :=
  ∀ asset source,
    (execSource st t).submission (asset, source) ≠ st.submission (asset, source) →
      source ∈ (effects (t.call.body t.source) t.env st).auths

theorem changesOwnOnly_of_namesCaller (st : Store) (t : SourceTx)
    (h : t.call.NamesCaller t.source) : ChangesOwnOnly st t := by
  have hrun := t.call.body_run signedChange_respects (w := World.enter t.env st) t.source
    fun x hx => signedChange_admits t.call.gates (SourceCall.legs_source h x hx)
  have hcommit : SignedChange (World.enter t.env st)
      (commit (t.call.body t.source) (World.enter t.env st)) :=
    commit_of_sat (Std.Refl.refl _) (hrun.mono fun _ _ hu => hu.within.rel)
  exact hcommit.signed

/-- In every run of signed submissions from any storage, as long as Merkle leaves name their
caller, an entry is created or changed only in a call its source has authorized. -/
theorem submissions_change_by_own_source (st : Store) (ts : List SourceTx)
    (hts : ∀ t ∈ ts, t.call.NamesCaller t.source) :
    ∀ x ∈ steps execSource st ts, ChangesOwnOnly x.1 x.2 := by
  induction ts generalizing st with
  | nil => simp
  | cons t ts ih =>
    rw [List.forall_mem_cons] at hts
    rw [steps_cons,List.forall_mem_cons]
    exact ⟨changesOwnOnly_of_namesCaller st t hts.1,ih (execSource st t) hts.2⟩

/-- Asset `10` is registered and sources `1` and `2` are active; two of them make a quorum. -/
def twoSourceStore : Store where
  config := { minSources := some 2 }
  registry := { assetIndex := fun a => if a = 10 then some true else none
                sources := [1, 2]
                srcActive := fun a => if a = 1 ∨ a = 2 then some true else none }

/-- Source `1` submits a single leaf in the name of `owner`, as the root of its own tree. -/
def leafTx (owner : Address) : SourceTx where
  env := .concrete 1 5 [1]
  source := 1
  call := .submitPriceMerkle (hashLeaf (.concrete 1 5 [1]) ⟨owner, 10, 100, 5⟩)
    [⟨⟨owner, 10, 100, 5⟩, [], 0⟩]

/-- A leaf of the caller itself is stored, in a call the caller authorized. -/
theorem own_leaf_stored_signed :
    (execSource twoSourceStore (leafTx 1)).submission (10, 1) ≠ none ∧
      1 ∈ (effects ((leafTx 1).call.body 1) (leafTx 1).env twoSourceStore).auths := by
  have hchanged : (execSource twoSourceStore (leafTx 1)).submission (10,1) ≠ none := by decide
  have hown : ChangesOwnOnly twoSourceStore (leafTx 1) :=
    submissions_change_by_own_source twoSourceStore [leafTx 1]
      (List.forall_mem_singleton.2 (List.forall_mem_singleton.2 rfl)) (twoSourceStore,leafTx 1)
      (by simp)
  exact ⟨hchanged,hown 10 1 hchanged⟩

/-- Source `1` alone authorizes a call that creates the entry of source `2`. -/
theorem foreign_leaf_stored_unsigned :
    ¬∀ x ∈ steps execSource twoSourceStore [leafTx 2], ChangesOwnOnly x.1 x.2 := by
  intro hall
  have hown := hall (twoSourceStore,leafTx 2) (by simp)
  have hsigned : 2 ∈ (effects ((leafTx 2).call.body 1) (leafTx 2).env twoSourceStore).auths :=
    hown 10 2 (by decide)
  revert hsigned
  decide

end PriceOracle.Submissions
