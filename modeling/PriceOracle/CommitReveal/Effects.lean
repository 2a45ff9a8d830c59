import PriceOracle.Aggregation.Calls
import PriceOracle.Lib.Counting

/-! # What the calls of commit and reveal do

An unrevealed commit is a pledge of its hash under asset, source and round. Every successful call is
described by the pledges it places, takes and drops, by the prices it stores and by the money it
moves; a reveal takes the hash of what it discloses. -/

namespace PriceOracle.CommitReveal

open Lib.Transaction Lib.MachineInt Lib.Run Lib.Pledge Model Aggregation Submissions

/-- The calls of the protocol with its settings; `expire` is the host dropping a commit whose time
to live has run out. -/
inductive CommitRevealCall
  | commitPrice (source asset : Address) (hash : Bytes)
  | revealPrice (source : Address) (reveal : Reveal)
  | revealPricesBatch (source : Address) (reveals : List Reveal)
  | slashExpiredCommits (asset source : Address) (roundLedger : Nat)
  | setCommitWindow (ledgers : Nat)
  | setRevealWindow (ledgers : Nat)
  | setCommitRevealSlashAmount (amount : Int)
  | expire (asset source : Address) (roundLedger : Nat)

abbrev CommitKey := Address × Address × Nat

namespace CommitRevealCall

def body : CommitRevealCall → Contract Unit
  | commitPrice source asset hash => Model.commitPrice source asset hash
  | revealPrice source x => Model.revealPrice source x.asset x.price x.salt x.roundLedger
  | revealPricesBatch source reveals => Model.revealPricesBatch source reveals
  | slashExpiredCommits asset source roundLedger =>
    Model.slashExpiredCommits asset source roundLedger
  | setCommitWindow ledgers => Model.setCommitWindow ledgers
  | setRevealWindow ledgers => Model.setRevealWindow ledgers
  | setCommitRevealSlashAmount amount => Model.setCommitRevealSlashAmount amount
  | expire asset source roundLedger => removeCommit asset source roundLedger

/-- What the call reveals, with the source that reveals it. -/
def reveals : CommitRevealCall → List (Address × Reveal)
  | revealPrice source x => [(source, x)]
  | revealPricesBatch source reveals => reveals.map fun x => (source, x)
  | _ => []

end CommitRevealCall

def commitKey (source : Address) (x : Reveal) : CommitKey := (x.asset, source, x.roundLedger)

def disclosed (env : Env) (source : Address) (x : Reveal) : Bytes :=
  computeCommitHash env source x.price x.salt x.roundLedger

def opening (env : Env) (source : Address) (x : Reveal) : Event CommitKey Bytes :=
  .take (commitKey source x) (disclosed env source x)

def pledged (st : Store) : Book CommitKey Bytes := fun k => (st.stats.commits k).bind fun c =>
  if c.revealed then none else some c.hash

/-- What a successful call does to the pledges. -/
def CommitRevealCall.events (env : Env) (st : Store) :
    CommitRevealCall → List (Event CommitKey Bytes)
  | commitPrice source asset hash => [.place (asset, source, st.currentRoundLedger env) hash]
  | revealPrice source x => [opening env source x]
  | revealPricesBatch source reveals => reveals.map (opening env source)
  | slashExpiredCommits asset source roundLedger =>
    [.take (asset, source, roundLedger) ((pledged st (asset, source, roundLedger)).getD [])]
  | expire asset source roundLedger => [.drop (asset, source, roundLedger)]
  | _ => []

def CommitRevealCall.window (st : Store) : CommitRevealCall → Nat
  | setCommitWindow ledgers => ledgers
  | _ => st.getCommitWindow

/-- A penalty is due, takes from the bond and credits the treasury; no other call moves money. -/
def CommitRevealCall.Moves (env : Env) (st st' : Store) : CommitRevealCall → Prop
  | slashExpiredCommits _ source roundLedger =>
    st.revealEnd roundLedger ≤ env.sequence ∧ 0 < st.actualSlash source ∧
      st'.registry.sourceBond = Function.update st.registry.sourceBond source
        (some (satSub (st.getSourceDepositedBond source) (st.actualSlash source))) ∧
      st'.treasury = some (satAdd (st.treasury.getD 0) (st.actualSlash source))
  | _ => st'.registry.sourceBond = st.registry.sourceBond ∧ st'.treasury = st.treasury

/-- The asset, source and price of every submission a call has stored. -/
def storedPrices (log : Log) : List (Address × Address × Int) :=
  log.submissions.map fun s => (s.asset, s.source, s.entry.price)

/-- What a successful call leaves. -/
structure CommitEffect (env : Env) (st : Store) (call : CommitRevealCall) (w' : World) : Prop where
  lawful : Lawful (pledged st) (call.events env st)
  pledges : pledged w'.store = run next (pledged st) (call.events env st)
  stored : storedPrices w'.log = call.reveals.map fun y => (y.2.asset, y.1, y.2.price)
  opened : ∀ y ∈ call.reveals, wrap32 (y.2.roundLedger + st.getCommitWindow) ≤ env.sequence
  committed : ∀ source asset hash, call = .commitPrice source asset hash →
    env.sequence < wrap32 (st.currentRoundLedger env + st.getCommitWindow)
  window : w'.store.getCommitWindow = call.window st
  money : call.Moves env st w'.store

section Pledges

variable {st st' : Store} {k : CommitKey}

theorem pledged_of_commits (h : st'.stats.commits = st.stats.commits) :
    pledged st' = pledged st := by
  unfold pledged
  rw [h]

theorem pledged_update {c : Option PriceCommit}
    (h : st'.stats.commits = Function.update st.stats.commits k c) :
    pledged st' = Function.update (pledged st) k
      (c.bind fun c => if c.revealed then none else some c.hash) := by
  funext j
  unfold pledged
  rw [h]
  by_cases hj : j = k
  · subst hj
    simp
  · simp [hj]

theorem pledged_of_commit {c : PriceCommit} (h : st.stats.commits k = some c)
    (hopen : c.revealed = false) : pledged st k = some c.hash := by
  simp [pledged,h,hopen]

end Pledges

section Same

variable {T : List Region} {w w' : World}

theorem storedPrices_of_log (h : w'.log.submissions = w.log.submissions) :
    storedPrices w'.log = storedPrices w.log := by
  unfold storedPrices
  rw [h]

theorem money_same (h : layout.agreeOff T w w') (hregistry : Region.registry ∉ T)
    (htreasury : Region.treasury ∉ T) : w'.store.registry.sourceBond = w.store.registry.sourceBond ∧
      w'.store.treasury = w.store.treasury := by
  have hviews : Region.view .registry w' = Region.view .registry w := h .registry hregistry
  exact ⟨congrArg (fun v => v.2.2.2.2) hviews,h .treasury htreasury⟩

theorem window_same (h : layout.agreeOff T w w') (hconfig : Region.config ∉ T) :
    w'.store.getCommitWindow = w.store.getCommitWindow := by
  unfold Store.getCommitWindow
  rw [show w'.store.config = w.store.config from h .config hconfig]

theorem pledged_same (h : layout.agreeOff T w w') (hstats : Region.stats ∉ T) :
    pledged w'.store = pledged w.store :=
  pledged_of_commits (by rw [show w'.store.stats = w.store.stats from h .stats hstats])

theorem stored_same (h : layout.agreeOff T w w')
    (hsubmissions : Region.submissions ∉ T) : storedPrices w'.log = storedPrices w.log := by
  have hlog : (w'.store.submission,w'.log.submissions) = (w.store.submission,w.log.submissions) :=
    h .submissions hsubmissions
  exact storedPrices_of_log (Prod.mk.inj hlog).2

end Same

/-- Commits and the log of submissions stay as they were. -/
def Unopened (w w' : World) : Prop :=
  w'.store.stats.commits = w.store.stats.commits ∧ w'.log.submissions = w.log.submissions

instance : Std.Refl Unopened := ⟨fun _ => ⟨rfl, rfl⟩⟩

instance : IsTrans World Unopened :=
  ⟨fun _ _ _ h h' => ⟨h'.1.trans h.1, h'.2.trans h.2⟩⟩

section Reveals

variable {w t : World} {α : Type} {source : Address} {u : World}

theorem unopened_of_frame {T : List Region} {m : Contract α} (hm : Frame T m)
    (hstats : Region.stats ∉ T) (hsubmissions : Region.submissions ∉ T) : Preserves Unopened m := by
  apply hm.weaken
  intro s s' h
  have hkept : s'.store.stats = s.store.stats := h .stats hstats
  have hlog : (s'.store.submission,s'.log.submissions) = (s.store.submission,s.log.submissions) :=
    h .submissions hsubmissions
  exact ⟨by rw [hkept],(Prod.mk.inj hlog).2⟩

theorem modifyStats_unopened {f : SourceStats → SourceStats} (hf : ∀ s, (f s).commits = s.commits) :
    Preserves Unopened (modifyStats f) :=
  preserves_update fun w => ⟨hf w.store.stats,rfl⟩

theorem recordPriceSubmitted_unopened (source : Address) :
    Preserves Unopened (recordPriceSubmitted source) :=
  .read fun _ => .read fun _ =>
    modifyStats_unopened fun _ => rfl

theorem recordCompliance_unopened (asset source : Address) :
    Preserves Unopened (recordCompliance asset source) := by
  apply Preserves.bind (preserves_inspect _)
  intro sequence
  apply Preserves.bind
  · exact modifyStats_unopened fun _ => rfl
  · exact fun _ => unopened_of_frame (modifyRounds_frame _) (by decide) (by decide)

theorem aggregateAfterSubmission_unopened (asset : Address) :
    Preserves Unopened (aggregateAfterSubmission asset) := by
  have hR : RespectsRounds Unopened := {
    quiet := fun w w' h => ⟨by rw [show w'.store.stats = w.store.stats from h .stats (by decide)],
      (Prod.mk.inj (show (w'.store.submission,w'.log.submissions) =
        (w.store.submission,w.log.submissions) from h .submissions (by decide))).2⟩
    commit := fun asset decimals recompute d w _ => unopened_of_frame
      (commitRound_frame asset w.env.sequence decimals recompute d) (by decide) (by decide) w }
  apply (maybeAggregateAfterSubmission_preserves hR asset).bind
  intro enough
  split_ifs
  · exact doAggregate_preserves hR asset
  · exact preserves_pure _

/-- The reveals are made in their windows, disclose open hashes one after the other, and store the
prices they disclose. -/
structure Opened (source : Address) (xs : List Reveal) (w w' : World) : Prop where
  opened : ∀ x ∈ xs, wrap32 (x.roundLedger + w.store.getCommitWindow) ≤ w.env.sequence
  lawful : Lawful (pledged w.store) (xs.map (opening w.env source))
  pledges : pledged w'.store = run next (pledged w.store) (xs.map (opening w.env source))
  stored : storedPrices w'.log = storedPrices w.log ++ xs.map fun x => (x.asset, source, x.price)
  frame : layout.agreeOff touched w w'

theorem getCommit_sat (asset source : Address) (roundLedger : Nat) (w : World) :
    Sat (getCommit asset source roundLedger) w fun c w' =>
      w.store.stats.commits (asset,source,roundLedger) = some c ∧ w' = w := by
  exact sat_lookup (by cases w.store.stats.commits (asset,source,roundLedger) <;> rfl)

/-- Writing one commit changes the pledge of its key and nothing else. -/
theorem modifyCommit_sat (k : CommitKey) (c : Option PriceCommit) (w : World) :
    Sat (modifyStats fun s => { s with commits := Function.update s.commits k c }) w fun _ w' =>
      pledged w'.store = Function.update (pledged w.store) k
        (c.bind fun c => if c.revealed then none else some c.hash) ∧
      layout.agreeOff [.stats] w w' ∧ w'.log = w.log := by
  have hframe := modifyStats_frame (fun s => { s with commits := Function.update s.commits k c }) w
  unfold modifyStats at hframe ⊢
  rw [sat_update] at hframe ⊢
  exact ⟨pledged_update rfl,hframe,rfl⟩

theorem openCommit_sat (source : Address) (x : Reveal) (w : World) :
    Sat (openCommit source x.asset x.price x.salt x.roundLedger) w fun _ w' =>
      wrap32 (x.roundLedger + w.store.getCommitWindow) ≤ w.env.sequence ∧
      pledged w.store (commitKey source x) = some (disclosed w.env source x) ∧
      pledged w'.store = Function.update (pledged w.store) (commitKey source x) none ∧
      w'.log = w.log := by
  unfold openCommit
  simp only [sat_bind,sat_getSequence,sat_readStore,sat_ensure]
  intro hstart _
  refine (getCommit_sat x.asset source x.roundLedger w).mono fun c t ht => ?_
  obtain ⟨hcommit,rfl⟩ := ht
  intro hopen hhash
  refine (modifyCommit_sat (commitKey source x) (some { c with revealed := true }) t).mono ?_
  rintro _ u ⟨hpledges,-,hlog⟩
  refine ⟨hstart,?_,hpledges,hlog⟩
  rw [pledged_of_commit (k := commitKey source x) hcommit hopen,disclosed,hhash]

theorem doReveal_frame (source asset : Address) (price : Int) (salt : Bytes) (roundLedger : Nat) :
    Frame touched (doReveal source asset price salt roundLedger) := by
  intro w
  let R (_ _ : World) : Prop := True
  have : Std.Refl R := ⟨fun _ => trivial⟩
  have : IsTrans World R := ⟨fun _ _ _ _ _ => trivial⟩
  have hR : RespectsSubmissions R :=
    ⟨fun _ _ _ => trivial,fun _ _ _ _ _ => trivial,fun _ _ _ _ _ _ _ _ _ => trivial⟩
  have hadmits : Admits R w [] [] ⟨asset,source,price⟩ :=
    fun _ _ _ _ _ _ _ _ _ => trivial
  exact (doReveal_run hR hadmits (fun _ _ hg => by cases hg) salt roundLedger (.refl w)).mono
    fun _ _ hu => hu.within.frame

theorem storeSubmission_stored (asset source : Address) (price : Int) (timestamp : Nat)
    (volume : Option Int) (w : World) :
    Sat (storeSubmission asset source price timestamp volume) w fun _ w' =>
      w'.store.stats.commits = w.store.stats.commits ∧
      storedPrices w'.log = storedPrices w.log ++ [(asset,source,price)] := by
  unfold storeSubmission writeSubmission
  simp [storedPrices]

theorem doReveal_sat (source : Address) (x : Reveal) (w : World) :
    Sat (doReveal source x.asset x.price x.salt x.roundLedger) w fun _ w' =>
      Opened source [x] w w' := by
  have hframe := doReveal_frame source x.asset x.price x.salt x.roundLedger w
  have hbody : Sat (doReveal source x.asset x.price x.salt x.roundLedger) w fun _ w' =>
      wrap32 (x.roundLedger + w.store.getCommitWindow) ≤ w.env.sequence ∧
      pledged w.store (commitKey source x) = some (disclosed w.env source x) ∧
      pledged w'.store = Function.update (pledged w.store) (commitKey source x) none ∧
      storedPrices w'.log = storedPrices w.log ++ [(x.asset,source,x.price)] := by
    refine (openCommit_sat source x w).andThen ?_
    rintro _ t ⟨hopened,hpledge,hpledges,hlog⟩
    rw [sat_bind,sat_ensure]
    intro _
    have hcheck : Preserves Unopened (checkMinPrice x.asset x.price) :=
      unopened_of_frame (T := []) ((getMinPrice_frame x.asset).bind fun _ => preserves_ensure _ _)
        (by decide) (by decide)
    refine (hcheck t).andThen ?_
    intro _ u hu
    rw [sat_bind,sat_getTimestamp]
    refine (storeSubmission_stored x.asset source x.price u.env.timestamp none u).andThen ?_
    rintro _ v ⟨hkept,hstored⟩
    have hafter : Preserves Unopened (do
        recordCompliance x.asset source
        recordPriceSubmitted source
        aggregateAfterSubmission x.asset) :=
      (recordCompliance_unopened x.asset source).bind fun _ =>
        (recordPriceSubmitted_unopened source).bind fun _ =>
        aggregateAfterSubmission_unopened x.asset
    refine (hafter v).mono ?_
    intro _ w' hw
    refine ⟨hopened,hpledge,?_,?_⟩
    · rw [pledged_of_commits (hw.1.trans (hkept.trans hu.1)),hpledges]
    · rw [storedPrices_of_log hw.2,hstored,storedPrices_of_log hu.2,storedPrices,hlog]
      rfl
  refine (hframe.and hbody).mono ?_
  rintro _ w' ⟨hoff,hopened,hpledge,hpledges,hstored⟩
  exact ⟨by simpa using hopened,by simpa [opening,Allowed] using hpledge,
    by simpa [opening,next] using hpledges,hstored,hoff⟩

theorem Opened.checked {xs : List Reveal}
    (ho : Opened source xs t u) (h : layout.agreeOff [.auths] w t) : Opened source xs w u := by
  obtain ⟨hopened,hlawful,hpledges,hstored,hframe⟩ := ho
  have henv : t.env = w.env := h .env (by decide)
  rw [window_same h (by decide),henv] at hopened
  rw [pledged_same h (by decide),henv] at hlawful hpledges
  rw [stored_same h (by decide)] at hstored
  refine ⟨hopened,hlawful,hpledges,hstored,?_⟩
  intro r hr
  exact (hframe r hr).trans (h r fun ha => hr (by rw [List.mem_singleton.1 ha]; decide))

theorem Opened.append {xs ys : List Reveal}
    (h : Opened source xs w t) (h' : Opened source ys t u) : Opened source (xs ++ ys) w u := by
  obtain ⟨hopened,hlawful,hpledges,hstored,hframe⟩ := h'
  have henv : t.env = w.env := h.frame .env (by decide)
  rw [henv,window_same h.frame (by decide)] at hopened
  rw [henv,h.pledges] at hlawful hpledges
  constructor
  · exact List.forall_mem_append.2 ⟨h.opened,hopened⟩
  · rw [List.map_append,lawful_append]
    exact ⟨h.lawful,hlawful⟩
  · rw [List.map_append,run_append]
    exact hpledges
  · rw [hstored,h.stored,List.map_append,List.append_assoc]
  · exact IsTrans.trans w t u h.frame hframe

theorem revealOne_sat (source : Address) (x : Reveal) (w : World) :
    Sat (revealOne source x) w fun _ w' => Opened source [x] w w' := by
  have hw : layout.agreeOff [.auths] w w := Std.Refl.refl w
  refine ((checkRegisteredAsset_frame x.asset).from hw).andThen fun _ t ht => ?_
  refine ((checkSourceAsset_frame source x.asset).from ht).andThen fun _ t ht => ?_
  rw [sat_bind,sat_ensure]
  intro _
  exact (doReveal_sat source x t).mono fun _ _ hu => hu.checked ht

theorem revealAll_sat (source : Address) (xs : List Reveal) (w : World) :
    Sat (forM xs (revealOne source)) w fun _ w' => Opened source xs w w' := by
  induction xs generalizing w with
  | nil =>
    rw [List.forM_nil,sat_pure]
    exact ⟨by simp,by simp,rfl,by simp,Std.Refl.refl w⟩
  | cons x xs ih =>
    rw [List.forM_cons,sat_bind]
    refine (revealOne_sat source x w).mono ?_
    intro _ t ht
    exact (ih t).mono fun _ _ hu => ht.append hu

end Reveals

section Calls

variable {env : Env} {st : Store} {w w' : World} (call : CommitRevealCall) (asset source : Address)

theorem Opened.effect {source : Address} {xs : List Reveal}
    (h : Opened source xs (World.enter env st) w') :
    CommitEffect env st (.revealPricesBatch source xs) w' where
  lawful := h.lawful
  pledges := h.pledges
  stored := by
    rw [h.stored]
    simp [CommitRevealCall.reveals,storedPrices,World.enter]
  opened := by
    intro y hy
    obtain ⟨x,hx,rfl⟩ := List.mem_map.1 hy
    exact h.opened x hx
  committed := by
    intro source asset hash hcall
    cases hcall
  window := window_same h.frame (by decide)
  money := money_same h.frame (by decide) (by decide)

/-- A single reveal is a batch of one. -/
theorem CommitEffect.single {source : Address} {x : Reveal}
    (h : CommitEffect env st (.revealPricesBatch source [x]) w') :
    CommitEffect env st (.revealPrice source x) w' where
  lawful := h.lawful
  pledges := h.pledges
  stored := h.stored
  opened := h.opened
  committed := by
    intro source asset hash hcall
    cases hcall
  window := h.window
  money := h.money

theorem revealPricesBatch_effect (source : Address) (reveals : List Reveal) :
    Sat (revealPricesBatch source reveals) (World.enter env st) fun _ w' =>
      CommitEffect env st (.revealPricesBatch source reveals) w' := by
  apply asSource_sat
  intro t ht
  rw [sat_bind,sat_ensure]
  intro _
  exact (revealAll_sat source reveals t).mono fun _ u hu => (hu.checked ht).effect

theorem revealPrice_effect (source : Address) (x : Reveal) :
    Sat (revealPrice source x.asset x.price x.salt x.roundLedger) (World.enter env st) fun _ w' =>
      CommitEffect env st (.revealPrice source x) w' := by
  apply asSource_sat
  intro t ht
  refine ((checkRegisteredAsset_frame x.asset).from ht).andThen fun _ u hu => ?_
  exact (doReveal_sat source x u).mono fun _ v hv => (hv.checked hu).effect.single

/-- A commit is accepted in its commit window and only where none is stored. -/
theorem commitPrice_effect (source asset : Address) (hash : Bytes) :
    Sat (commitPrice source asset hash) (World.enter env st) fun _ w' =>
      CommitEffect env st (.commitPrice source asset hash) w' := by
  apply asSource_sat
  intro t ht
  refine ((checkRegisteredAsset_frame asset).from ht).andThen fun _ u hu => ?_
  have henv : u.env = env := hu .env (by decide)
  have hwindow : u.store.getCommitWindow = st.getCommitWindow := window_same hu (by decide)
  have hround : u.store.currentRoundLedger u.env = st.currentRoundLedger env := by
    unfold Store.currentRoundLedger
    rw [hwindow,henv]
  simp only [sat_bind,sat_getSequence,sat_readStore,sat_ensure]
  intro hphase hfree
  rw [hround] at hfree
  rw [hround,hwindow,henv] at hphase
  rw [hround]
  refine (modifyCommit_sat (asset,source,st.currentRoundLedger env) _ u).mono ?_
  rintro _ v ⟨hpledges,hframe,hlog⟩
  rw [pledged_same hu (by decide)] at hpledges
  obtain ⟨hbond,htreasury⟩ := money_same hframe (by decide) (by decide)
  obtain ⟨hbond',htreasury'⟩ := money_same hu (by decide) (by decide)
  constructor
  · simp only [CommitRevealCall.events,lawful_cons,lawful_nil,and_true,Allowed]
    have hstats : u.store.stats = st.stats := hu .stats (by decide)
    rw [Option.isSome_eq_false_iff,Option.isNone_iff_eq_none,hstats] at hfree
    simp [pledged,hfree]
  · exact hpledges
  · rw [storedPrices,hlog]
    exact stored_same hu (by decide)
  · intro y hy
    cases hy
  · intro source' asset' hash' _
    exact hphase
  · exact (window_same hframe (by decide)).trans hwindow
  · exact ⟨hbond.trans hbond',htreasury.trans htreasury'⟩

theorem slashExpiredCommits_effect (roundLedger : Nat) :
    Sat (slashExpiredCommits asset source roundLedger) (World.enter env st) fun _ w' =>
      CommitEffect env st (.slashExpiredCommits asset source roundLedger) w' := by
  unfold slashExpiredCommits
  simp only [sat_bind,sat_getSequence,sat_readStore,sat_ensure]
  intro hstop
  refine (getCommit_sat asset source roundLedger (World.enter env st)).mono ?_
  rintro c t ⟨hcommit,rfl⟩
  intro hopen _ hactual
  have hpledge : pledged st (asset,source,roundLedger) = some c.hash :=
    pledged_of_commit hcommit hopen
  unfold writeSourceBond creditTreasury removeCommit
  rw [sat_update,sat_update]
  refine (modifyCommit_sat (asset,source,roundLedger) none _).mono ?_
  rintro _ v ⟨hpledges,hframe,hlog⟩
  obtain ⟨hbond,htreasury⟩ := money_same hframe (by decide) (by decide)
  constructor
  · simp [CommitRevealCall.events,Allowed,hpledge]
  · exact hpledges
  · rw [storedPrices,hlog]
    rfl
  · intro y hy
    cases hy
  · intro source' asset' hash' hcall
    cases hcall
  · exact window_same hframe (by decide)
  · exact ⟨hstop,hactual,hbond,htreasury⟩

theorem expire_effect (roundLedger : Nat) :
    Sat (removeCommit asset source roundLedger) (World.enter env st) fun _ w' =>
      CommitEffect env st (.expire asset source roundLedger) w' := by
  refine (modifyCommit_sat (asset,source,roundLedger) none _).mono ?_
  rintro _ v ⟨hpledges,hframe,hlog⟩
  constructor
  · simp [CommitRevealCall.events,Allowed]
  · exact hpledges
  · rw [storedPrices,hlog]
    rfl
  · intro y hy
    cases hy
  · intro source' asset' hash' hcall
    cases hcall
  · exact window_same hframe (by decide)
  · exact money_same hframe (by decide) (by decide)

/-- A change of a setting leaves commits, submissions and money alone. -/
theorem setting_effect {m : Contract Unit} {f : Config → Config}
    (hm : Frame [.config,.suspension] m)
    (hconfig : ∀ w, Sat m w fun _ w' => w'.store.config = f w.store.config)
    (hevents : call.events env st = []) (hreveals : call.reveals = [])
    (hcommit : ∀ source asset hash, call ≠ .commitPrice source asset hash)
    (hwindow : (f st.config).commitWindow.getD 20 = call.window st)
    (hmoves : ∀ st' : Store, st'.registry.sourceBond = st.registry.sourceBond ∧
      st'.treasury = st.treasury → call.Moves env st st') :
    Sat (asAdmin m) (World.enter env st) fun _ w' => CommitEffect env st call w' := by
  have hset : Sat (asAdmin m) (World.enter env st) fun _ w' => w'.store.config = f st.config := by
    have hw : layout.agreeOff [.auths] (World.enter env st) (World.enter env st) := Std.Refl.refl _
    refine (getAdmin_frame.from hw).andThen fun admin t ht => ?_
    refine ((requireAuth_frame admin).from ht).andThen fun _ t ht => ?_
    rw [← show t.store.config = st.config from ht .config (by decide)]
    exact hconfig t
  refine ((asAdmin_frame hm (World.enter env st)).and hset).mono ?_
  rintro _ w' ⟨hframe,hset⟩
  constructor
  · simp [hevents]
  · rw [hevents]
    exact pledged_same hframe (by decide)
  · rw [hreveals]
    exact stored_same hframe (by decide)
  · simp [hreveals]
  · exact fun source asset hash h => absurd h (hcommit source asset hash)
  · unfold Store.getCommitWindow
    rw [hset,hwindow]
  · exact hmoves w'.store (money_same hframe (by decide) (by decide))

theorem sat_modifyConfig (f : Config → Config) (w : World) :
    Sat (modifyConfig f) w fun _ w' => w'.store.config = f w.store.config :=
  (sat_update _ _).2 rfl

theorem CommitRevealCall.body_effect :
    Sat call.body (World.enter env st) fun _ w' => CommitEffect env st call w' := by
  have hchecked (p : Prop) [Decidable p] (e : ErrorCode) (f : Config → Config) (w : World) :
      Sat (do ensure p e; modifyConfig f) w fun _ w' => w'.store.config = f w.store.config := by
    rw [sat_bind,sat_ensure]
    exact fun _ => sat_modifyConfig f w
  cases call with
  | commitPrice source asset hash => exact commitPrice_effect source asset hash
  | revealPrice source x => exact revealPrice_effect source x
  | revealPricesBatch source reveals => exact revealPricesBatch_effect source reveals
  | slashExpiredCommits asset source roundLedger =>
    exact slashExpiredCommits_effect asset source roundLedger
  | expire asset source roundLedger => exact expire_effect asset source roundLedger
  | setCommitWindow ledgers =>
    exact setting_effect (.setCommitWindow ledgers)
      (f := fun c => { c with commitWindow := some ledgers })
      (.check fun _ => modifyConfig_frame _) (hchecked _ _ _)
      rfl rfl (by simp) rfl fun _ h => h
  | setRevealWindow ledgers =>
    exact setting_effect (.setRevealWindow ledgers)
      (f := fun c => { c with revealWindow := some ledgers })
      (.check fun _ => modifyConfig_frame _) (hchecked _ _ _)
      rfl rfl (by simp) rfl fun _ h => h
  | setCommitRevealSlashAmount amount =>
    exact setting_effect (.setCommitRevealSlashAmount amount)
      (f := fun c => { c with commitRevealSlashAmount := some amount }) (modifyConfig_frame _)
      (sat_modifyConfig _) rfl rfl (by simp) rfl fun _ h => h

end Calls

/-- One call of the protocol with the environment it is made in. -/
structure CommitTx where
  env : Env
  call : CommitRevealCall

def execCommit (st : Store) (t : CommitTx) : Store := invoke t.call.body t.env st

def CommitTx.Succeeds (t : CommitTx) (st : Store) : Prop :=
  Model.failure t.call.body t.env st = none

deriving instance Decidable for CommitTx.Succeeds

/-- The asset, source and price of every submission the call stores. -/
def CommitTx.stores (t : CommitTx) (st : Store) : List (Address × Address × Int) :=
  storedPrices (effects t.call.body t.env st)

/-- What the call does to the pledges; a panicking call does nothing. -/
def CommitTx.events (t : CommitTx) (st : Store) : List (Event CommitKey Bytes) :=
  if t.Succeeds st then t.call.events t.env st else []

section Runs

variable {st : Store} {t : CommitTx} {txs : List CommitTx}

theorem CommitTx.effect (h : t.Succeeds st) : ∃ w', CommitEffect t.env st t.call w' ∧
    w'.store = execCommit st t ∧ w'.log = effects t.call.body t.env st := by
  rcases invoke_cases t.call.body_effect with ⟨hpanic,-,-⟩ | ⟨-,heff⟩
  · exact absurd h hpanic
  · exact heff

theorem execCommit_of_panic (h : ¬t.Succeeds st) : execCommit st t = st := by
  rcases invoke_cases t.call.body_effect with ⟨-,hsame,-⟩ | ⟨hok,-⟩
  · exact hsame
  · exact absurd hok h

/-- The call acts on the pledges by its events. -/
theorem execCommit_pledged (st : Store) (t : CommitTx) : Lawful (pledged st) (t.events st) ∧
    pledged (execCommit st t) = run next (pledged st) (t.events st) := by
  by_cases h : t.Succeeds st
  · obtain ⟨w',heff,hstore,-⟩ := t.effect h
    unfold CommitTx.events
    rw [if_pos h,← hstore]
    exact ⟨heff.lawful,heff.pledges⟩
  · unfold CommitTx.events
    rw [if_neg h,execCommit_of_panic h]
    exact ⟨lawful_nil,rfl⟩

def runEvents (st : Store) (txs : List CommitTx) : List (Event CommitKey Bytes) :=
  (steps execCommit st txs).flatMap fun x => x.2.events x.1

theorem runEvents_cons : runEvents st (t :: txs) =
    t.events st ++ runEvents (execCommit st t) txs := by
  unfold runEvents
  rw [steps_cons,List.flatMap_cons]

/-- A run of the contract is a lawful history of its book of pledges. -/
theorem run_pledged (st : Store) (txs : List CommitTx) :
    Lawful (pledged st) (runEvents st txs) ∧
      pledged (run execCommit st txs) = run next (pledged st) (runEvents st txs) := by
  induction txs generalizing st with
  | nil => exact ⟨lawful_nil,rfl⟩
  | cons t txs ih =>
    obtain ⟨hlawful,hpledged⟩ := execCommit_pledged st t
    rw [runEvents_cons,lawful_append,run_append,← hpledged,run_cons]
    exact ⟨⟨hlawful,(ih _).1⟩,(ih _).2⟩

end Runs

end PriceOracle.CommitReveal
