import PriceOracle.Configuration.Calls
import PriceOracle.Model.Sources
import PriceOracle.Submissions.Paths

/-! # Heartbeats and the queries that count against them

Anybody may ask whether a source is inactive, and asking counts a missed heartbeat while the source
is overdue. The count says how many intervals have passed only if nobody asks too often. -/

namespace PriceOracle.Sources

open Lib.Transaction Lib.MachineInt Lib.Run Model Aggregation Submissions

/-- What is kept of the heartbeats of a source. -/
structure Watch where
  lastHeartbeat : Option Nat
  missed : Nat
  marked : Bool
deriving DecidableEq

def watch (st : Store) (source : Address) : Watch :=
  ⟨st.heartbeats.heartbeat source, st.getMissedHeartbeats source,
    (st.config.sourceInactive source).getD false⟩

/-- One more heartbeat is missed; the third marks the source. -/
def Watch.counted (x : Watch) : Watch :=
  ⟨x.lastHeartbeat, satAdd32 x.missed 1,
    x.marked || decide (missThreshold ≤ satAdd32 x.missed 1)⟩

def Flagged (st : Store) : Prop := ∀ source, (watch st source).marked = true →
  st.on .sourceInactive = true

theorem isSourceInactive_eq {st : Store} (h : Flagged st) (source : Address) :
    st.isSourceInactive source = (watch st source).marked := by
  unfold Store.isSourceInactive
  cases hmarked : (watch st source).marked with
  | false =>
    change (st.config.sourceInactive source).getD false = false at hmarked
    rw [hmarked,Bool.and_false]
  | true =>
    have hon := h source hmarked
    change (st.config.sourceInactive source).getD false = true at hmarked
    rw [hon,hmarked,Bool.and_true]

/-- A query would count a missed heartbeat of the source. -/
def counts (env : Env) (st : Store) (source : Address) : Bool :=
  !st.isSourceInactive source && st.overdue env source

/-- At least `n` intervals have passed since the last heartbeat of the source. -/
def Elapsed (now : Nat) (st : Store) (source : Address) (n : Nat) : Prop :=
  n * st.getHeartbeatInterval ≤ now - (st.heartbeats.heartbeat source).getD 0

/-- The queries of `asked` are done, and the bonds of `settled` may be settled too. -/
structure Polled (asked settled : List Address) (w w' : World) : Prop where
  env : w'.env = w.env
  interval : w'.store.getHeartbeatInterval = w.store.getHeartbeatInterval
  window : w'.store.getHeartbeatWindow = w.store.getHeartbeatWindow
  flagged : Flagged w'.store
  watch : ∀ source, watch w'.store source =
    if source ∈ asked ∧ counts w.env w.store source = true then (watch w.store source).counted
    else watch w.store source
  bond : ∀ source, source ∉ settled →
    w'.store.getSourceDepositedBond source ≠ w.store.getSourceDepositedBond source →
      source ∈ asked ∧ counts w.env w.store source = true ∧
        missThreshold ≤ satAdd32 (w.store.getMissedHeartbeats source) 1

/-- Nothing that the queries read changes, and no bond but those of `settled`. -/
structure Settled (settled : List Address) (w w' : World) : Prop where
  env : w'.env = w.env
  config : w'.store.config = w.store.config
  flags : w'.store.flags = w.store.flags
  heartbeats : w'.store.heartbeats = w.store.heartbeats
  bond : ∀ source, source ∉ settled →
    w'.store.getSourceDepositedBond source = w.store.getSourceDepositedBond source

section Queries

variable {w u w' : World} {source : Address} {asked settled : List Address}

theorem overdue_congr (henv : w'.env = w.env)
    (hinterval : w'.store.getHeartbeatInterval = w.store.getHeartbeatInterval)
    (hwindow : w'.store.getHeartbeatWindow = w.store.getHeartbeatWindow)
    (hwatch : watch w'.store source = watch w.store source) :
    w'.store.overdue w'.env source = w.store.overdue w.env source := by
  have hbeat : w'.store.heartbeats.heartbeat source = w.store.heartbeats.heartbeat source :=
    congrArg Watch.lastHeartbeat hwatch
  have hmissed : w'.store.getMissedHeartbeats source = w.store.getMissedHeartbeats source :=
    congrArg Watch.missed hwatch
  unfold Store.overdue
  rw [hbeat,hmissed,hinterval,hwindow,henv]

instance : Std.Refl (Settled settled) := ⟨fun _ => ⟨rfl, rfl, rfl, rfl, fun _ _ => rfl⟩⟩

instance : IsTrans World (Settled settled) :=
  ⟨fun _ _ _ h h' => ⟨h'.env.trans h.env, h'.config.trans h.config, h'.flags.trans h.flags,
    h'.heartbeats.trans h.heartbeats, fun a ha => (h'.bond a ha).trans (h.bond a ha)⟩⟩

/-- A call that keeps to other regions settles nothing. -/
theorem settled_of_frame {T : List Region} (henv : .env ∉ T) (hconfig : .config ∉ T)
    (hflags : .flags ∉ T) (hbeats : .heartbeats ∉ T) (hregistry : .registry ∉ T)
    (h : layout.agreeOff T w w') : Settled settled w w' where
  env := h .env henv
  config := h .config hconfig
  flags := h .flags hflags
  heartbeats := h .heartbeats hbeats
  bond a _ := by
    have hbonds : w'.store.registry.sourceBond = w.store.registry.sourceBond :=
      congrArg (fun v => v.2.2.2.2) (h .registry hregistry)
    rw [Store.getSourceDepositedBond,Store.getSourceDepositedBond,hbonds]

theorem Settled.interval (h : Settled settled w w') :
    w'.store.getHeartbeatInterval = w.store.getHeartbeatInterval := by
  rw [Store.getHeartbeatInterval,Store.getHeartbeatInterval,h.config]

theorem Settled.window (h : Settled settled w w') :
    w'.store.getHeartbeatWindow = w.store.getHeartbeatWindow := by
  rw [Store.getHeartbeatWindow,Store.getHeartbeatWindow,h.config]

theorem Settled.on (h : Settled settled w w') (f : FeatureFlag) :
    w'.store.on f = w.store.on f := by
  rw [Store.on,Store.on,h.flags]

/-- Without a query, nothing is counted. -/
theorem Settled.polled (hflagged : Flagged w.store) (h : Settled settled w w') :
    Polled [] settled w w' := by
  have hwatch (a : Address) : Sources.watch w'.store a = Sources.watch w.store a := by
    simp only [Sources.watch,Store.getMissedHeartbeats,h.config,h.heartbeats]
  refine ⟨h.env,h.interval,h.window,fun a ha => ?_,fun a => ?_,fun a ha hne => ?_⟩
  · rw [hwatch] at ha
    rw [h.on]
    exact hflagged a ha
  · rw [hwatch,if_neg (by simp)]
  · exact absurd (h.bond a ha) hne

theorem recomputeBounded_settled (assets : List Address) :
    Preserves (Settled settled) (recomputeBounded assets) := by
  have hregions : RespectsRounds (layout.agreeOff
      [.aggregates,.history,.provenance,.rounds,.corrections]) :=
    respectsRounds_of_regions (List.Subset.refl _)
  exact (recomputeBounded_preserves hregions _).weaken
    fun _ _ h => settled_of_frame (by simp) (by simp) (by simp) (by simp) (by simp) h

theorem recomputeSourceChange_settled (source : Address) :
    Preserves (Settled settled) (recomputeSourceChange source) :=
  .read fun _ => recomputeBounded_settled _

theorem recomputeAll_settled : Preserves (Settled settled) recomputeAll :=
  .read fun _ => recomputeBounded_settled _

theorem counts_congr (hflagged : Flagged w.store) (hflagged' : Flagged w'.store)
    (henv : w'.env = w.env)
    (hinterval : w'.store.getHeartbeatInterval = w.store.getHeartbeatInterval)
    (hwindow : w'.store.getHeartbeatWindow = w.store.getHeartbeatWindow)
    (hwatch : watch w'.store source = watch w.store source) :
    counts w'.env w'.store source = counts w.env w.store source := by
  unfold counts
  rw [isSourceInactive_eq hflagged,isSourceInactive_eq hflagged',hwatch,
    overdue_congr henv hinterval hwindow hwatch]

theorem Polled.of_not_mem (h : Polled asked settled w w') (hsource : source ∉ asked) :
    Sources.watch w'.store source = Sources.watch w.store source := by
  rw [h.watch,if_neg fun hasked => hsource hasked.1]

/-- Queries of different sources do not disturb each other. -/
theorem Polled.trans {asked' settled' : List Address} (hflagged : Flagged w.store)
    (h : Polled asked settled w u) (h' : Polled asked' settled' u w')
    (hdisjoint : ∀ a ∈ asked, a ∉ asked') :
    Polled (asked ++ asked') (settled ++ settled') w w' := by
  have hcounts (a : Address) (ha : a ∉ asked) :
      counts u.env u.store a = counts w.env w.store a :=
    counts_congr hflagged h.flagged h.env h.interval h.window (h.of_not_mem ha)
  refine
    { env := h'.env.trans h.env
      interval := h'.interval.trans h.interval
      window := h'.window.trans h.window
      flagged := h'.flagged
      watch := fun a => ?_
      bond := fun a ha hne => ?_ }
  · by_cases hfirst : a ∈ asked
    · rw [h'.of_not_mem (hdisjoint a hfirst),h.watch]
      simp [hfirst]
    · rw [h'.watch,hcounts a hfirst,h.of_not_mem hfirst]
      simp [hfirst]
  · rw [List.mem_append,not_or] at ha
    by_cases hfirst : u.store.getSourceDepositedBond a = w.store.getSourceDepositedBond a
    · rw [← hfirst] at hne
      obtain ⟨hasked,hcount,hmissed⟩ := h'.bond a ha.2 hne
      have hnot : a ∉ asked := fun hin => hdisjoint a hin hasked
      have hsame : u.store.getMissedHeartbeats a = w.store.getMissedHeartbeats a :=
        congrArg Watch.missed (h.of_not_mem hnot)
      rw [hcounts a hnot] at hcount
      rw [hsame] at hmissed
      exact ⟨List.mem_append_right _ hasked,hcount,hmissed⟩
    · obtain ⟨hasked,hcount,hmissed⟩ := h.bond a ha.1 hfirst
      exact ⟨List.mem_append_left _ hasked,hcount,hmissed⟩

/-- The source is marked; what its bond was is not owed to it any more. -/
structure Tripped (source : Address) (w w' : World) : Prop where
  env : w'.env = w.env
  interval : w'.store.getHeartbeatInterval = w.store.getHeartbeatInterval
  window : w'.store.getHeartbeatWindow = w.store.getHeartbeatWindow
  flag : w'.store.on .sourceInactive = true
  marks : w'.store.config.sourceInactive =
    Function.update w.store.config.sourceInactive source (some true)
  heartbeat : w'.store.heartbeats.heartbeat = w.store.heartbeats.heartbeat
  missed : w'.store.heartbeats.missedHeartbeats = w.store.heartbeats.missedHeartbeats
  bond : ∀ a, a ≠ source → w'.store.getSourceDepositedBond a = w.store.getSourceDepositedBond a

theorem Tripped.settle (h : Tripped source w u) (h' : Settled [source] u w') :
    Tripped source w w' where
  env := h'.env.trans h.env
  interval := h'.interval.trans h.interval
  window := h'.window.trans h.window
  flag := (h'.on _).trans h.flag
  marks := by rw [h'.config,h.marks]
  heartbeat := by rw [h'.heartbeats,h.heartbeat]
  missed := by rw [h'.heartbeats,h.missed]
  bond a ha := (h'.bond a (by simpa using ha)).trans (h.bond a ha)

theorem forfeitSourceBondInternal_settled (source : Address) :
    Preserves (Settled [source]) (forfeitSourceBondInternal source) := by
  refine .read fun deposited => ?_
  refine preserves_ite _ ?_ (preserves_pure _)
  refine preserves_update fun w => ⟨rfl,rfl,rfl,rfl,fun a ha => ?_⟩
  rw [List.mem_singleton] at ha
  simp [Store.getSourceDepositedBond,ha]

theorem tripInactive_sat (source : Address) (beaten : Bool) :
    Sat (tripInactive source beaten) w fun _ w' => Tripped source w w' := by
  have hnote (t : World) (ht : Tripped source w t) :
      Sat (noteInactiveSince source) t fun _ w' => Tripped source w w' := by
    simp only [noteInactiveSince,sat_bind,sat_getSequence,modifyHeartbeats,sat_update]
    exact ⟨ht.env,ht.interval,ht.window,ht.flag,ht.marks,ht.heartbeat,ht.missed,ht.bond⟩
  have hguards (f : PublicationGuards → PublicationGuards) (t : World) (ht : Tripped source w t) :
      Sat (updateGuards f) t fun _ w' => Tripped source w w' := by
    simp only [updateGuards,sat_bind,sat_readStore,sat_mark,modifyBounds,sat_update]
    exact ⟨ht.env,ht.interval,ht.window,ht.flag,ht.marks,ht.heartbeat,ht.missed,ht.bond⟩
  have hmark : Sat (markSourceInactive source) w fun _ w' => Tripped source w w' := by
    simp only [markSourceInactive,setOptional,sat_bind,sat_mark,sat_update]
    refine ⟨rfl,rfl,rfl,?_,rfl,rfl,rfl,fun _ _ => rfl⟩
    exact Function.update_self FeatureFlag.sourceInactive true w.store.flags
  refine hmark.andThen fun _ t ht => (hguards _ t ht).andThen fun _ u hu => ?_
  refine sat_ite _ (fun _ => ?_) fun _ => hnote u hu
  refine (forfeitSourceBondInternal_settled source u).andThen fun _ v hv => ?_
  refine (hnote v (hu.settle hv)).andThen fun _ x hx => ?_
  exact (recomputeSourceChange_settled source x).mono fun _ _ h => hx.settle h

/-- A missed heartbeat that does not mark the source changes the count only. -/
theorem watch_missed (source a : Address) (n : Nat) :
    watch { w.store with heartbeats := { w.store.heartbeats with
      missedHeartbeats := Function.update w.store.heartbeats.missedHeartbeats source (some n) } } a =
      if a = source then { watch w.store a with missed := n } else watch w.store a := by
  by_cases ha : a = source
  · rw [if_pos ha,ha]
    simp [watch,Store.getMissedHeartbeats]
  · simp [watch,Store.getMissedHeartbeats,ha]

theorem Tripped.watch (h : Tripped source w w') (a : Address) :
    Sources.watch w'.store a =
      if a = source then { Sources.watch w.store a with marked := true }
      else Sources.watch w.store a := by
  by_cases ha : a = source
  · rw [if_pos ha,ha]
    simp [Sources.watch,Store.getMissedHeartbeats,h.heartbeat,h.missed,h.marks]
  · simp [Sources.watch,Store.getMissedHeartbeats,h.heartbeat,h.missed,h.marks,ha]

/-- Whoever asks about an overdue source counts a missed heartbeat. -/
theorem isSourceInactive_sat (hflagged : Flagged w.store) (source : Address) :
    Sat (isSourceInactive source) w fun _ w' => Polled [source] [] w w' := by
  have hidle (h : counts w.env w.store source = false) : Polled [source] [] w w := by
    refine ⟨rfl,rfl,rfl,hflagged,fun a => ?_,fun a _ hne => absurd rfl hne⟩
    refine (if_neg ?_).symm
    rintro ⟨ha,hcounts⟩
    rw [List.mem_singleton.1 ha,h] at hcounts
    cases hcounts
  refine sat_ite _ (fun hmarked => (sat_pure _).2 (hidle ?_)) fun hunmarked => ?_
  · simp [counts,hmarked]
  refine sat_ite _ (fun hoverdue => ?_) fun hquiet => (sat_pure _).2 (hidle ?_)
  · have hcounts : counts w.env w.store source = true := by simp [counts,hunmarked,hoverdue]
    refine sat_ite _ (fun hthird => ?_) fun hearly => (sat_pure _).2 ?_
    · refine (tripInactive_sat source _).andThen fun _ u hu => (sat_pure _).2 ?_
      refine ⟨hu.env,hu.interval,hu.window,fun _ _ => hu.flag,fun a => ?_,fun a _ hne => ?_⟩
      · rw [hu.watch,watch_missed]
        by_cases ha : a = source
        · simp [ha,hcounts,Watch.counted,watch,hthird]
        · simp [ha]
      · by_cases ha : a = source
        · rw [ha]
          exact ⟨List.mem_singleton_self source,hcounts,hthird⟩
        · exact absurd (hu.bond a ha) hne
    · refine ⟨rfl,rfl,rfl,fun a ha => ?_,fun a => ?_,fun a _ hne => absurd rfl hne⟩
      · exact hflagged a ha
      · rw [watch_missed]
        by_cases ha : a = source
        · simp [ha,hcounts,Watch.counted,watch,hearly]
        · simp [ha]
  · simp [counts,hquiet]

theorem polled_loop {sources : List Address} (hnodup : sources.Nodup) (hflagged : Flagged w.store)
    (count : Nat) :
    Sat (sources.foldlM (fun count source => do
      let inactive ← isSourceInactive source
      pure (if inactive then count + 1 else count)) count) w
      fun _ w' => Polled sources [] w w' := by
  induction sources generalizing w count with
  | nil =>
    have hrefl : Settled [] w w := Std.Refl.refl w
    exact (sat_pure _).2 (hrefl.polled hflagged)
  | cons source sources ih =>
    rw [List.nodup_cons] at hnodup
    rw [List.foldlM_cons,sat_bind,sat_bind]
    refine (isSourceInactive_sat hflagged source).mono fun _ u hu => (sat_pure _).2 ?_
    refine (ih hnodup.2 hu.flagged _).mono fun _ w' hw' => hu.trans hflagged hw' fun a ha => ?_
    rw [List.mem_singleton.1 ha]
    exact hnodup.1

theorem getInactiveSources_sat (hflagged : Flagged w.store) :
    Sat getInactiveSources w fun _ w' => Polled w.store.registry.sources [] w w' := by
  exact polled_loop w.store.registry.sources_nodup hflagged 0

theorem deregisterSource_settled (source : Address) :
    Preserves (Settled settled) (deregisterSource source) := by
  refine Preserves.bind ?_ fun _ => ?_
  · exact (preserves_update fun _ => ⟨rfl,rfl,rfl,rfl,fun _ _ => rfl⟩).bind fun _ =>
      preserves_update fun _ => ⟨rfl,rfl,rfl,rfl,fun _ _ => rfl⟩
  · exact (preserves_update fun _ => ⟨rfl,rfl,rfl,rfl,fun _ _ => rfl⟩).bind fun _ =>
      preserves_update fun _ => ⟨rfl,rfl,rfl,rfl,fun _ _ => rfl⟩

theorem tryTransferToken_settled (token sender recipient : Address) (amount : Int) :
    Preserves (Settled settled) (tryTransferToken token sender recipient amount) :=
  .read fun _ =>
    preserves_update fun _ => ⟨rfl,rfl,rfl,rfl,fun _ _ => rfl⟩

theorem Polled.signed {admin : Address} (h : Polled asked settled (w.authorizedBy admin) w') :
    Polled asked settled w w' :=
  ⟨h.env,h.interval,h.window,h.flagged,h.watch,h.bond⟩

/-- A removal asks about the source, and settles its bond. -/
theorem removeSourceInner_sat (hflagged : Flagged w.store) (source : Address) :
    Sat (removeSourceInner source) w fun _ w' =>
      (w.store.registry.srcActive source).isSome = true ∧ Polled [source] [source] w w' := by
  refine (sat_asAdmin _).2 fun admin _ _ => ?_
  simp only [sat_bind,sat_readStore,sat_ensure,authorizedBy_store]
  intro hknown
  refine (isSourceInactive_sat (w := w.authorizedBy admin) hflagged source).mono
    fun inactive u hu => ?_
  have hsettle (t : World) (ht : Settled [source] u t) :
      (w.store.registry.srcActive source).isSome = true ∧ Polled [source] [source] w t :=
    ⟨hknown,(Polled.trans (w := w.authorizedBy admin) hflagged hu (ht.polled hu.flagged)
      (by simp)).signed⟩
  refine Sat.mono (Q := fun _ t => Settled [source] u t) ?_ fun _ t ht => hsettle t ht
  refine sat_ite _ (fun _ => ?_) fun _ => deregisterSource_settled source u
  simp only [sat_bind,sat_readStore,getContractAddress]
  have hdrop (t : World) : Settled [source] t { t with store := { t.store with
      registry := { t.store.registry with
        sourceBond := Function.update t.store.registry.sourceBond source none } } } := by
    refine ⟨rfl,rfl,rfl,rfl,fun a ha => ?_⟩
    rw [List.mem_singleton] at ha
    simp [Store.getSourceDepositedBond,ha]
  have hrest := (preserves_update hdrop).bind fun _ => deregisterSource_settled source
  refine sat_ite _ (fun _ => ?_) fun _ => ?_
  · exact ((forfeitSourceBondInternal_settled source).bind fun _ => hrest) u
  · cases u.store.custody.stakeToken with
    | some token => exact ((tryTransferToken_settled token _ source _).bind fun _ => hrest) u
    | none => exact hrest u

/-- A pending enrollment of an address that is no source is dropped, and nothing else happens. -/
theorem removeSource_sat (hflagged : Flagged w.store) (source : Address) :
    Sat (removeSource source) w fun _ w' =>
      Polled (if (w.store.registry.srcActive source).isSome = true then [source] else []) [source]
        w w' := by
  refine (sat_asAdmin _).2 fun admin _ _ => ?_
  simp only [sat_bind,sat_readStore,authorizedBy_store]
  refine (modifySources_frame _ (w.authorizedBy admin)).mono fun _ t ht => ?_
  have hkept (settled : List Address) : Settled settled (w.authorizedBy admin) t :=
    settled_of_frame (by simp) (by simp) (by simp) (by simp) (by simp) ht
  have hactive : t.store.registry.srcActive = w.store.registry.srcActive :=
    congrArg (fun v => v.2.2.2.1) (ht .registry (by simp))
  have hunasked (settled : List Address) : Polled [] settled (w.authorizedBy admin) t :=
    (hkept settled).polled hflagged
  refine sat_ite _ (fun hunknown => (sat_pure _).2 ?_) fun _ => ?_
  · rw [hunknown.2,if_neg Bool.false_ne_true]
    exact (hunasked [source]).signed
  · rw [sat_bind]
    refine (removeSourceInner_sat (hunasked []).flagged source).mono ?_
    rintro _ u ⟨hknown,hu⟩
    rw [hactive] at hknown
    have hkeep : Preserves (Settled []) (recomputeSourceChange source) :=
      recomputeSourceChange_settled source
    refine (hkeep u).mono fun _ w' hrest => ?_
    rw [if_pos hknown]
    have hremoved := Polled.trans (w := w.authorizedBy admin) hflagged (hunasked []) hu (by simp)
    exact (Polled.trans (w := w.authorizedBy admin) hflagged hremoved (hrest.polled hu.flagged)
      (by simp)).signed

/-- A heartbeat clears the count of a source, but of a marked one only with a price. -/
def Watch.beat (now : Nat) (priced : Bool) (x : Watch) : Watch :=
  if x.marked = true ∧ priced = false then ⟨some now, x.missed, true⟩
  else ⟨some now, 0, false⟩

/-- The source has sent a heartbeat. -/
structure Beaten (source : Address) (w w' : World) : Prop where
  env : w'.env = w.env
  interval : w'.store.getHeartbeatInterval = w.store.getHeartbeatInterval
  flagged : Flagged w'.store
  watch : ∀ a, watch w'.store a = if a = source then
    (watch w.store a).beat w.env.timestamp (w.store.stats.priceSubmitAfterReactivation source)
    else watch w.store a
  bond : ∀ a, w'.store.getSourceDepositedBond a = w.store.getSourceDepositedBond a

theorem submitHeartbeat_sat (hflagged : Flagged w.store) (source : Address) :
    Sat (submitHeartbeat source) w fun _ w' => Beaten source w w' := by
  simp only [submitHeartbeat,checkIsSource,sat_bind,sat_requireAuth,sat_readStore,sat_ensure,
    sat_getTimestamp,sat_getSequence,modifyHeartbeats,sat_update]
  intro _ _
  have hmarked : Store.isSourceInactive { w.store with heartbeats := { w.store.heartbeats with
      heartbeat := Function.update w.store.heartbeats.heartbeat source (some w.env.timestamp) } }
      source = (Sources.watch w.store source).marked := isSourceInactive_eq hflagged source
  rw [hmarked]
  refine sat_ite _ (fun hinactive => ?_) fun hactive => ?_
  · simp only [reactivate,sat_bind,sat_readStore]
    refine sat_ite _ (fun hpriced => ?_) fun hunpriced => ?_
    · have hon : w.store.on .sourceInactive = true := hflagged source hinactive
      simp only [markSourceActive,sat_bind,sat_readStore]
      refine sat_ite _ (fun _ => ?_) fun hoff => absurd hon hoff
      simp only [removeOptional,resetMissedHeartbeats,modifyStats,sat_update,modifyHeartbeats]
      refine ⟨rfl,rfl,fun _ _ => hon,fun a => ?_,fun _ => rfl⟩
      by_cases ha : a = source
      · subst ha
        simp [Sources.watch,Store.getMissedHeartbeats,Watch.beat,hpriced,RemovedKey.write]
      · simp [Sources.watch,Store.getMissedHeartbeats,ha,RemovedKey.write]
    · simp only [sat_pure,modifyStats,sat_update]
      refine ⟨rfl,rfl,hflagged,fun a => ?_,fun _ => rfl⟩
      by_cases ha : a = source
      · subst ha
        have hset : (w.store.config.sourceInactive a).getD false = true := hinactive
        simp [Sources.watch,Store.getMissedHeartbeats,Watch.beat,hunpriced,hset]
      · simp [Sources.watch,Store.getMissedHeartbeats,ha]
  · simp only [resetMissedHeartbeats,sat_bind,modifyHeartbeats,sat_update,modifyStats]
    refine ⟨rfl,rfl,hflagged,fun a => ?_,fun _ => rfl⟩
    by_cases ha : a = source
    · subst ha
      have hset : (w.store.config.sourceInactive a).getD false = false :=
        eq_false_of_ne_true hactive
      simp [Sources.watch,Store.getMissedHeartbeats,Watch.beat,hset]
    · simp [Sources.watch,Store.getMissedHeartbeats,ha]

end Queries

inductive LivenessCall
  | submitHeartbeat (source : Address)
  | isSourceInactive (source : Address)
  | getInactiveSources
  | removeSource (source : Address)
  | submit (call : SubmissionCall)

def LivenessCall.body : LivenessCall → Contract Unit
  | submitHeartbeat source => Model.submitHeartbeat source
  | isSourceInactive source => do
    let _ ← Model.isSourceInactive source
    pure ()
  | getInactiveSources => do
    let _ ← Model.getInactiveSources
    pure ()
  | removeSource source => Model.removeSource source
  | submit call => call.body

structure LivenessTx where
  env : Env
  call : LivenessCall

def execLiveness (st : Store) (t : LivenessTx) : Store := invoke t.call.body t.env st

/-- As many intervals have passed since the last heartbeat of each source as are counted missed. -/
def Punctual (now : Nat) (st : Store) : Prop :=
  ∀ source, Elapsed now st source (st.getMissedHeartbeats source)

/-- Nothing is counted too early, and a source that is marked, or loses its bond to the check, has
missed three intervals. -/
structure Fair (st : Store) (t : LivenessTx) : Prop where
  punctual : Punctual t.env.timestamp (execLiveness st t)
  marked : ∀ source, (watch st source).marked = false →
    (watch (execLiveness st t) source).marked = true →
      Elapsed t.env.timestamp st source missThreshold
  bond : ∀ source, t.call ≠ .removeSource source →
    (execLiveness st t).getSourceDepositedBond source ≠ st.getSourceDepositedBond source →
      Elapsed t.env.timestamp st source missThreshold

/-- A query that counts is made no earlier than the count says. -/
def Due (env : Env) (st : Store) (source : Address) : Prop :=
  counts env st source = true →
    Elapsed env.timestamp st source (satAdd32 (st.getMissedHeartbeats source) 1)

/-- No query of the call is early, and no heartbeat is recorded beside a count that it leaves. -/
def Timely (st : Store) (t : LivenessTx) : Prop :=
  failure t.call.body t.env st = none → match t.call with
    | .submitHeartbeat source => st.isSourceInactive source = true →
        st.stats.priceSubmitAfterReactivation source = false →
          st.getMissedHeartbeats source * st.getHeartbeatInterval = 0
    | .isSourceInactive source => Due t.env st source
    | .getInactiveSources => ∀ source ∈ st.registry.sources, Due t.env st source
    | .removeSource source =>
      (st.registry.srcActive source).isSome = true → Due t.env st source
    | .submit _ => True

section Steps

variable {st : Store} {env : Env} {source : Address} {t : LivenessTx} {w : World}

theorem Punctual.later {m n : Nat} (h : Punctual m st) (hle : m ≤ n) : Punctual n st := by
  intro source
  have hsource := h source
  unfold Elapsed at hsource ⊢
  omega

theorem Elapsed.fewer {now m n : Nat} (h : Elapsed now st source n)
    (hle : m ≤ n) : Elapsed now st source m :=
  le_trans (Nat.mul_le_mul_right _ hle) h

theorem elapsed_congr {now n : Nat} {st' : Store}
    (hinterval : st'.getHeartbeatInterval = st.getHeartbeatInterval)
    (hbeat : (watch st' source).lastHeartbeat = (watch st source).lastHeartbeat) :
    Elapsed now st' source n ↔ Elapsed now st source n := by
  change st'.heartbeats.heartbeat source = st.heartbeats.heartbeat source at hbeat
  unfold Elapsed
  rw [hinterval,hbeat]

/-- What the queries of `asked` do is fair exactly if none of them is early. -/
theorem polled_iff {asked settled : List Address}
    (hpunctual : Punctual env.timestamp st) (h : Polled asked settled (World.enter env st) w) :
    (Punctual env.timestamp w.store ∧
      (∀ source, (watch st source).marked = false → (watch w.store source).marked = true →
        Elapsed env.timestamp st source missThreshold) ∧ ∀ source, source ∉ settled →
        w.store.getSourceDepositedBond source ≠ st.getSourceDepositedBond source →
          Elapsed env.timestamp st source missThreshold) ↔ ∀ source ∈ asked, Due env st source := by
  have hwatch (source : Address) : watch w.store source =
      if source ∈ asked ∧ counts env st source = true then (watch st source).counted
      else watch st source := h.watch source
  have hbeat (source : Address) :
      (watch w.store source).lastHeartbeat = (watch st source).lastHeartbeat := by
    rw [hwatch]
    split_ifs <;> rfl
  have helapsed (source : Address) (n : Nat) :
      Elapsed env.timestamp w.store source n ↔ Elapsed env.timestamp st source n :=
    elapsed_congr h.interval (hbeat source)
  constructor
  · rintro ⟨hnow,-,-⟩ source hasked hcounts
    have hmissed : w.store.getMissedHeartbeats source =
        satAdd32 (st.getMissedHeartbeats source) 1 := by
      have hcounted := hwatch source
      rw [if_pos ⟨hasked,hcounts⟩] at hcounted
      exact congrArg Watch.missed hcounted
    rw [← helapsed,← hmissed]
    exact hnow source
  · intro hdue
    refine ⟨fun source => ?_,fun source hunmarked hmarked => ?_,fun source hkept hbond => ?_⟩
    · rw [helapsed]
      change Elapsed env.timestamp st source (watch w.store source).missed
      rw [hwatch]
      split_ifs with hcounted
      · exact hdue source hcounted.1 hcounted.2
      · exact hpunctual source
    · rw [hwatch] at hmarked
      split_ifs at hmarked with hcounted
      · rw [Watch.counted,hunmarked,Bool.false_or,decide_eq_true_eq] at hmarked
        exact (hdue source hcounted.1 hcounted.2).fewer hmarked
      · rw [hunmarked] at hmarked
        cases hmarked
    · obtain ⟨hasked,hcounts,hthird⟩ := h.bond source hkept hbond
      exact (hdue source hasked hcounts).fewer hthird

/-- A heartbeat is fair exactly if it leaves no count that its time denies. -/
theorem beaten_iff (hflagged : Flagged st)
    (hpunctual : Punctual env.timestamp st) (h : Beaten source (World.enter env st) w) :
    (Punctual env.timestamp w.store ∧
      (∀ a, (watch st a).marked = false → (watch w.store a).marked = true →
        Elapsed env.timestamp st a missThreshold) ∧
      ∀ a, w.store.getSourceDepositedBond a ≠ st.getSourceDepositedBond a →
        Elapsed env.timestamp st a missThreshold) ↔ (st.isSourceInactive source = true →
        st.stats.priceSubmitAfterReactivation source = false →
          st.getMissedHeartbeats source * st.getHeartbeatInterval = 0) := by
  have hself : watch w.store source =
      (watch st source).beat env.timestamp (st.stats.priceSubmitAfterReactivation source) := by
    have hwatch := h.watch source
    rwa [if_pos rfl] at hwatch
  have hother (a : Address) (ha : a ≠ source) : watch w.store a = watch st a := by
    have hwatch := h.watch a
    rwa [if_neg ha] at hwatch
  have hmissed (a : Address) : w.store.getMissedHeartbeats a = (watch w.store a).missed := rfl
  have hinterval : w.store.getHeartbeatInterval = st.getHeartbeatInterval := h.interval
  have hnow (n : Nat) :
      Elapsed env.timestamp w.store source n ↔ n * st.getHeartbeatInterval = 0 := by
    have hbeat : w.store.heartbeats.heartbeat source = some env.timestamp := by
      change (watch w.store source).lastHeartbeat = some env.timestamp
      rw [hself,Watch.beat]
      split_ifs <;> rfl
    rw [Elapsed,hbeat,hinterval,Option.getD_some,Nat.sub_self,Nat.le_zero]
  rw [isSourceInactive_eq hflagged]
  constructor
  · rintro ⟨hpunctual',-,-⟩ hmarked hunpriced
    have hsource := hpunctual' source
    rwa [hnow,hmissed,hself,Watch.beat,if_pos ⟨hmarked,hunpriced⟩] at hsource
  · intro hclear
    refine ⟨fun a => ?_,fun a hunmarked hmarked => ?_,fun a hbond => absurd (h.bond a) hbond⟩
    · by_cases ha : a = source
      · rw [ha,hnow,hmissed,hself,Watch.beat]
        split_ifs with hkept
        · exact hclear hkept.1 hkept.2
        · exact Nat.zero_mul _
      · rw [hmissed,elapsed_congr hinterval (congrArg Watch.lastHeartbeat (hother a ha)),
          hother a ha]
        exact hpunctual a
    · by_cases ha : a = source
      · rw [ha] at hunmarked hmarked
        rw [hself,Watch.beat,hunmarked] at hmarked
        simp at hmarked
      · rw [hother a ha,hunmarked] at hmarked
        cases hmarked

theorem fair_of_failure (hpunctual : Punctual t.env.timestamp st)
    (hfail : execLiveness st t = st) : Fair st t where
  punctual := by rwa [hfail]
  marked source hunmarked hmarked := by
    rw [hfail,hunmarked] at hmarked
    cases hmarked
  bond source _ hbond := by
    rw [hfail] at hbond
    exact absurd rfl hbond

/-- A call that succeeds is as fair as its queries are. -/
theorem fair_iff (asked settled : List Address) (hpunctual : Punctual t.env.timestamp st)
    (hsettled : ∀ source, source ∈ settled ↔ t.call = .removeSource source)
    (hpolled : Sat t.call.body (World.enter t.env st) fun _ w =>
      Polled asked settled (World.enter t.env st) w)
    (hsuccess : failure t.call.body t.env st = none) :
    Flagged (execLiveness st t) ∧ (Fair st t ↔ ∀ source ∈ asked, Due t.env st source) := by
  obtain ⟨hflagged,hiff⟩ := invoke_of_success (Q := fun st' => Flagged st' ∧
    ((Punctual t.env.timestamp st' ∧
      (∀ source, (watch st source).marked = false → (watch st' source).marked = true →
        Elapsed t.env.timestamp st source missThreshold) ∧
      ∀ source, source ∉ settled →
        st'.getSourceDepositedBond source ≠ st.getSourceDepositedBond source →
          Elapsed t.env.timestamp st source missThreshold) ↔
      ∀ source ∈ asked, Due t.env st source)) hsuccess
    (hpolled.mono fun _ w hw => ⟨hw.flagged,polled_iff hpunctual hw⟩)
  refine ⟨hflagged,Iff.trans ?_ hiff⟩
  constructor
  · intro h
    exact ⟨h.punctual,h.marked,fun source hkept =>
      h.bond source fun hcall => hkept ((hsettled source).2 hcall)⟩
  · rintro ⟨hnow,hmarked,hbond⟩
    exact ⟨hnow,hmarked,fun source hcall =>
      hbond source fun hkept => hcall ((hsettled source).1 hkept)⟩

theorem heartbeat_iff (hflagged : Flagged st) (hpunctual : Punctual env.timestamp st)
    (hsuccess : failure (submitHeartbeat source) env st = none) :
    Flagged (execLiveness st ⟨env,.submitHeartbeat source⟩) ∧
      (Fair st ⟨env,.submitHeartbeat source⟩ ↔ (st.isSourceInactive source = true →
          st.stats.priceSubmitAfterReactivation source = false →
            st.getMissedHeartbeats source * st.getHeartbeatInterval = 0)) := by
  obtain ⟨hflagged',hiff⟩ := invoke_of_success (Q := fun st' => Flagged st' ∧
    ((Punctual env.timestamp st' ∧
      (∀ a, (watch st a).marked = false → (watch st' a).marked = true →
        Elapsed env.timestamp st a missThreshold) ∧
      ∀ a, st'.getSourceDepositedBond a ≠ st.getSourceDepositedBond a →
        Elapsed env.timestamp st a missThreshold) ↔
      (st.isSourceInactive source = true →
        st.stats.priceSubmitAfterReactivation source = false →
          st.getMissedHeartbeats source * st.getHeartbeatInterval = 0))) hsuccess
    ((submitHeartbeat_sat (w := World.enter env st) hflagged source).mono fun _ w hw =>
      ⟨hw.flagged,beaten_iff hflagged hpunctual hw⟩)
  refine ⟨hflagged',Iff.trans ?_ hiff⟩
  constructor
  · intro h
    exact ⟨h.punctual,h.marked,fun a => h.bond a (by simp)⟩
  · rintro ⟨hnow,hmarked,hbond⟩
    exact ⟨hnow,hmarked,fun a _ => hbond a⟩

/-- A step keeps the marks in use, and it is fair exactly if it is timely. -/
theorem execLiveness_iff (hflagged : Flagged st) (hpunctual : Punctual t.env.timestamp st) :
    Flagged (execLiveness st t) ∧ (Fair st t ↔ Timely st t) := by
  cases hrun : failure t.call.body t.env st with
  | some e =>
    have hsame : execLiveness st t = st := invoke_of_failure hrun
    refine ⟨by rwa [hsame],iff_of_true (fair_of_failure hpunctual hsame) fun hnone => ?_⟩
    rw [hrun] at hnone
    cases hnone
  | none =>
    obtain ⟨env,call⟩ := t
    have htimely {P : Prop} : (failure call.body env st = none → P) ↔ P :=
      ⟨fun h => h hrun,fun h _ => h⟩
    unfold Timely
    rw [htimely]
    cases call with
    | submitHeartbeat source => exact heartbeat_iff hflagged hpunctual hrun
    | isSourceInactive source =>
      have hquery := fair_iff (t := ⟨env,.isSourceInactive source⟩) [source] [] hpunctual (by simp)
        ?_ hrun
      · simpa only [List.mem_singleton,forall_eq] using hquery
      · exact (isSourceInactive_sat hflagged source).andThen fun _ w hw => (sat_pure _).2 hw
    | getInactiveSources =>
      refine fair_iff _ [] hpunctual (by simp) ?_ hrun
      exact (getInactiveSources_sat hflagged).andThen fun _ w hw => (sat_pure _).2 hw
    | removeSource source =>
      have hremoval := fair_iff (t := ⟨env,.removeSource source⟩) _ _ hpunctual (by simp [eq_comm])
        (removeSource_sat (w := World.enter env st) hflagged source) hrun
      refine ⟨hremoval.1,hremoval.2.trans ?_⟩
      by_cases hknown : (st.registry.srcActive source).isSome = true
      · simp [World.enter,hknown]
      · simp [World.enter,hknown]
    | submit call =>
      have hquiet := fair_iff (t := ⟨env,.submit call⟩) [] [] hpunctual (by simp) ?_ hrun
      · simpa using hquiet
      · refine (call.body_frame _).mono fun _ w hw => ?_
        have hsettled : Settled [] (World.enter env st) w :=
          settled_of_frame (by decide) (by decide) (by decide) (by decide) (by decide) hw
        exact hsettled.polled hflagged

end Steps

/-- In a run that begins with nothing counted, no source is counted, marked or slashed too early
exactly if every query that counts comes as many intervals after the heartbeat as it then counts,
and no heartbeat of a marked source leaves its count behind. -/
theorem liveness_fair_iff {st : Store} (ts : List LivenessTx) (hflagged : Flagged st)
    (hfresh : ∀ source, st.getMissedHeartbeats source = 0)
    (hclock : ts.Pairwise fun t u => t.env.timestamp ≤ u.env.timestamp) :
    (∀ x ∈ steps execLiveness st ts, Fair x.1 x.2) ↔
      ∀ x ∈ steps execLiveness st ts, Timely x.1 x.2 := by
  refine steps_iff_clocked (fun t => t.env.timestamp)
    (I := fun now s => Flagged s ∧ Punctual now s) ?_ ?_ ?_ hclock ?_
  · intro m n s hle hs
    exact ⟨hs.1,hs.2.later hle⟩
  · intro s t hs hfair
    exact ⟨(execLiveness_iff hs.1 hs.2).1,hfair.punctual⟩
  · intro s t hs
    exact (execLiveness_iff hs.1 hs.2).2
  · intro t _
    refine ⟨hflagged,fun source => ?_⟩
    rw [Elapsed,hfresh,Nat.zero_mul]
    exact Nat.zero_le _

/-- One source, with a bond of 500. -/
def bondedStore : Store where
  config := { admin := some 9 }
  registry := {
    sources := [1]
    srcActive := fun a => if a = 1 then some true else none
    sourceBond := fun a => if a = 1 then some 500 else none }

/-- The source is asked about three times, an hour and a second after its heartbeat. -/
def earlyRun : List LivenessTx :=
  [⟨.concrete 100 1000 [1], .submitHeartbeat 1⟩,
    ⟨.concrete 101 4601 [], .isSourceInactive 1⟩,
    ⟨.concrete 101 4601 [], .isSourceInactive 1⟩,
    ⟨.concrete 101 4601 [], .getInactiveSources⟩]

theorem bondedStore_flagged : Flagged bondedStore := by
  intro source hmarked
  cases hmarked

/-- One interval has passed, the third is counted, and the bond is gone. -/
theorem liveness_unfair :
    (Flagged bondedStore ∧ (∀ source, bondedStore.getMissedHeartbeats source = 0) ∧
      earlyRun.Pairwise fun t u => t.env.timestamp ≤ u.env.timestamp) ∧
      (¬∀ x ∈ steps execLiveness bondedStore earlyRun, Fair x.1 x.2) ∧
      (run execLiveness bondedStore earlyRun).getMissedHeartbeats 1 = 3 ∧
      (watch (run execLiveness bondedStore earlyRun) 1).marked = true ∧
      (run execLiveness bondedStore earlyRun).getSourceDepositedBond 1 = 0 ∧
      (run execLiveness bondedStore earlyRun).treasury = some 500 := by
  refine ⟨⟨bondedStore_flagged,fun _ => rfl,?_⟩,fun h => ?_,by decide +kernel,
    by decide +kernel,by decide +kernel,by decide +kernel⟩
  · simp [earlyRun,Env.concrete]
  · have hlast := (h (run execLiveness bondedStore (earlyRun.take 3),
      ⟨.concrete 101 4601 [],.getInactiveSources⟩) (by simp [earlyRun])).punctual 1
    exact absurd hlast (by unfold Elapsed; decide +kernel)

/-- The source is asked about once an interval, and is marked after the third. -/
def lateRun : List LivenessTx :=
  [⟨.concrete 100 1000 [1], .submitHeartbeat 1⟩,
    ⟨.concrete 101 4601 [], .isSourceInactive 1⟩,
    ⟨.concrete 102 8201 [], .getInactiveSources⟩,
    ⟨.concrete 103 11801 [], .isSourceInactive 1⟩,
    ⟨.concrete 104 11802 [9], .removeSource 1⟩]

theorem late_run :
    ((∀ x ∈ steps execLiveness bondedStore lateRun, Fair x.1 x.2) ↔
      ∀ x ∈ steps execLiveness bondedStore lateRun, Timely x.1 x.2) ∧
      (run execLiveness bondedStore (lateRun.take 3)).getSourceDepositedBond 1 = 500 ∧
      (run execLiveness bondedStore lateRun).treasury = some 500 :=
  ⟨liveness_fair_iff lateRun bondedStore_flagged (fun _ => rfl) (by simp [lateRun,Env.concrete]),
    by decide +kernel,by decide +kernel⟩

end PriceOracle.Sources
