import Mathlib.Data.List.Nodup
import PriceOracle.Configuration.Calls

/-! # Snapshots of the configuration

Every change stores a snapshot of what it replaces, a rollback restores every captured value, and
the index of versions is a ring of the newest hundred. -/

namespace PriceOracle.Configuration

open Model Lib.Transaction Lib.Footprint Lib.MachineInt Lib.Run

def historyOf (c : Config) : Option Nat × List Nat × Map Nat ConfigSnapshot :=
  (c.versionCount, c.versionIndex, c.snapshot)

/-- The numbers of the newest versions after `n` changes, as the counter wraps them. -/
def newestVersions (n : Nat) : List Nat :=
  (List.range' (n + 1 - min n maxConfigHistory) (min n maxConfigHistory)).map wrap32

/-- The history holds exactly the newest of `n` versions. -/
structure Ring (c : Config) (n : Nat) : Prop where
  count : c.versionCount.getD 0 = wrap32 n
  index : c.versionIndex = newestVersions n
  stored : ∀ v, (c.snapshot v).isSome = true ↔ v ∈ c.versionIndex
  version : ∀ v s, c.snapshot v = some s → s.version = v

theorem wrapped_nodup (a : Nat) {k : Nat} (hk : k ≤ 2 ^ 32) :
    ((List.range' a k).map wrap32).Nodup := by
  refine List.Nodup.map_on ?_ List.nodup_range'
  intro x hx y hy hxy
  rw [List.mem_range'_1] at hx hy
  unfold wrap32 at hxy
  omega

theorem newestVersions_of_lt {n : Nat} (hn : n < maxConfigHistory) :
    newestVersions (n+1) = newestVersions n ++ [wrap32 (n+1)] := by
  have h1 : min (n+1) maxConfigHistory = n+1 := by omega
  have h2 : min n maxConfigHistory = n := by omega
  have h3 : n+1 + 1 - (n+1) = 1 := by omega
  have h4 : n+1 - n = 1 := by omega
  rw [newestVersions,newestVersions,h1,h2,h3,h4,List.range'_concat,List.map_append]
  simp [Nat.add_comm]

theorem newestVersions_of_le {n : Nat} (hn : maxConfigHistory ≤ n) :
    newestVersions n ++ [wrap32 (n+1)] =
      wrap32 (n+1 - maxConfigHistory) :: newestVersions (n+1) := by
  have h1 : min (n+1) maxConfigHistory = maxConfigHistory := by omega
  have h2 : min n maxConfigHistory = maxConfigHistory := by omega
  have hlast : n+1 = n+1 - maxConfigHistory + 1 * maxConfigHistory := by omega
  have hnext : n+1 + 1 - maxConfigHistory = n+1 - maxConfigHistory + 1 := by omega
  rw [newestVersions,newestVersions,h1,h2,hnext,← List.map_cons,← List.range'_succ,
    List.range'_concat,← hlast,List.map_append,List.map_singleton]

theorem newest_nodup (n : Nat) : (newestVersions n ++ [wrap32 (n+1)]).Nodup := by
  have hlast : n+1 = n+1 - min n maxConfigHistory + 1 * min n maxConfigHistory := by omega
  have hconcat : newestVersions n ++ [wrap32 (n+1)] =
      (List.range' (n+1 - min n maxConfigHistory) (min n maxConfigHistory + 1)).map wrap32 := by
    rw [newestVersions,List.range'_concat,← hlast,List.map_append,List.map_singleton]
  rw [hconcat]
  refine wrapped_nodup _ ?_
  unfold maxConfigHistory
  omega

section Records

variable {c : Config} {n : Nat}

theorem evict_short {index : List Nat} (h : index.length ≤ maxConfigHistory) :
    c.evict index = { c with versionIndex := index } := by
  cases index with
  | nil => rfl
  | cons old rest => rw [Config.evict,if_neg (Nat.not_lt.2 h)]

theorem evict_full {old : Nat} {rest : List Nat} (h : rest.length = maxConfigHistory) :
    c.evict (old :: rest) =
      { c with snapshot := Function.update c.snapshot old none, versionIndex := rest } := by
  rw [Config.evict,if_pos (by simp [h]),evict_short (Nat.le_of_eq h)]

theorem length_newestVersions : (newestVersions n).length = min n maxConfigHistory := by
  simp [newestVersions]

/-- Storing the next snapshot turns the ring by one version. -/
theorem Ring.store {s : ConfigSnapshot} (h : Ring c n) (hs : s.version = c.nextVersion) :
    Ring (c.storeSnapshot s) (n+1) := by
  have hversion : s.version = wrap32 (n+1) := by
    rw [hs,Config.nextVersion,h.count]
    simp [wrap32]
  have hnodup := newest_nodup n
  have hstored (v : Nat) : (Function.update c.snapshot (wrap32 (n+1)) (some s) v).isSome = true ↔
      v ∈ newestVersions n ++ [wrap32 (n+1)] := by
    rw [List.mem_append,List.mem_singleton,← h.index,← h.stored]
    by_cases hv : v = wrap32 (n+1)
    · simp [hv]
    · simp [hv]
  have hlabel (v : Nat) (x : ConfigSnapshot)
      (hx : Function.update c.snapshot (wrap32 (n+1)) (some s) v = some x) : x.version = v := by
    rcases stored_of_update hx with ⟨hv,rfl⟩ | hx
    · rw [hv,hversion]
    · exact h.version v x hx
  unfold Config.storeSnapshot
  rw [h.index,hversion]
  by_cases hfull : n < maxConfigHistory
  · have hlength : (newestVersions n ++ [wrap32 (n+1)]).length ≤ maxConfigHistory := by
      simp only [List.length_append,length_newestVersions,List.length_singleton]
      omega
    rw [evict_short hlength,← newestVersions_of_lt hfull]
    refine ⟨rfl,rfl,fun v => ?_,hlabel⟩
    rw [newestVersions_of_lt hfull]
    exact hstored v
  · have hturn := newestVersions_of_le (Nat.not_lt.1 hfull)
    have hlength : (newestVersions (n+1)).length = maxConfigHistory := by
      rw [length_newestVersions]
      omega
    rw [hturn,evict_full hlength]
    rw [hturn,List.nodup_cons] at hnodup
    refine ⟨rfl,rfl,fun v => ?_,fun v x hx => ?_⟩
    · by_cases hold : v = wrap32 (n+1 - maxConfigHistory)
      · simp [hold,hnodup.1]
      · have hkept := hstored v
        rw [hturn,List.mem_cons,or_iff_right hold] at hkept
        simpa [hold] using hkept
    · by_cases hold : v = wrap32 (n+1 - maxConfigHistory)
      · simp [hold] at hx
      · refine hlabel v x ?_
        simpa [hold] using hx

/-- The ring depends on the records of the history only. -/
theorem Ring.congr {c' : Config} (h : Ring c n) (hsame : historyOf c' = historyOf c) :
    Ring c' n := by
  simp only [historyOf,Prod.mk.injEq] at hsame
  obtain ⟨hcount,hindex,hsnapshot⟩ := hsame
  refine ⟨?_,?_,fun v => ?_,fun v s hv => ?_⟩
  · rw [hcount,h.count]
  · rw [hindex,h.index]
  · rw [hsnapshot,hindex,h.stored]
  · exact h.version v s (hsnapshot ▸ hv)

end Records

/-- The oracle has an administrator and a required number of sources. -/
structure Initialized (c : Config) : Prop where
  admin : c.admin.isSome = true
  required : c.minSources.isSome = true

/-- A change of the captured settings: of one setting, of the pause flag, or of all of them to the
values of a retained snapshot. -/
inductive Change (env : Env) (st : Store) : Store → Prop
  | set (setting : ConfigSetting) : Change env st (configured env st setting)
  | flag (flags : List FeatureFlag) (paused : Bool) : Change env st (flagged env st flags paused)
  | rollback {version : Nat} {snapshot : ConfigSnapshot}
    (h : st.config.snapshot version = some snapshot) : Change env st (restored env st snapshot)

/-- The two storages have the same captured values and bits. -/
structure SameSettings (st st' : Store) : Prop where
  config : st'.config = st.config
  flags : st'.flags = st.flags
  pauseFlag : st'.gates.pauseFlag = st.gates.pauseFlag

/-- So many changes one after the other, each of which stores a snapshot of the configuration it
replaces. -/
inductive Amends (env : Env) : Nat → Store → Store → Prop
  | none {st st' : Store} (h : SameSettings st st') : Amends env 0 st st'
  | more {n : Nat} {st st' st'' : Store} (h : Change env st st')
    (hrecord : historyOf st'.config = historyOf (st.config.storeSnapshot (snapshotOf env st)))
    (rest : Amends env n st' st'') : Amends env (n + 1) st st''

def settingsIn (operations : List BatchOperation) : Nat :=
  operations.countP fun op => (elementSetting op).isSome

/-- The number of changes a successful call makes. -/
def ConfigCall.changes (st : Store) : ConfigCall → Nat
  | set _ => 1
  | pause => 1
  | unpause => 1
  | rollbackConfig _ => 1
  | executeBatch id => ((st.timelock.pendingBatch id).map fun b => settingsIn b.operations).getD 0
  | _ => 0

def changesOf (st : Store) (t : ConfigTx) : Nat :=
  match t.act with
  | .call call => if failure call.body t.env st = none then call.changes st else 0
  | .elsewhere _ => 0

def changesIn (st : Store) (ts : List ConfigTx) : Nat :=
  ((steps execConfig st ts).map fun x => changesOf x.1 x.2).sum

section Changes

variable {env : Env} {st st' st'' : Store} {c : Config} {n : Nat}

theorem historyOf_write (setting : ConfigSetting) :
    historyOf (setting.write c) = historyOf c := by
  cases setting <;> rfl

theorem Change.recorded (h : Change env st st') :
    historyOf st'.config = historyOf (st.config.storeSnapshot (snapshotOf env st)) := by
  cases h with
  | set setting => exact historyOf_write setting
  | flag flags paused => rfl
  | rollback h => rfl

theorem initialized_recorded (h : Initialized st.config) : Initialized (recordedConfig env st) := by
  unfold recordedConfig
  obtain ⟨index,snapshot,heq,_⟩ := storeSnapshot_eq st.config (snapshotOf env st)
  rw [heq]
  exact ⟨h.admin,h.required⟩

theorem Initialized.write (h : Initialized c) (setting : ConfigSetting) :
    Initialized (setting.write c) := by
  cases setting
  case minSourcesRequired newMin => exact ⟨h.admin,rfl⟩
  all_goals exact ⟨h.admin,h.required⟩

theorem Change.initialized (h : Change env st st') (hinit : Initialized st.config) :
    Initialized st'.config := by
  have hrecorded : Initialized (recordedConfig env st) := initialized_recorded hinit
  cases h with
  | set setting => exact hrecorded.write setting
  | flag flags paused => exact hrecorded
  | rollback h => exact ⟨hrecorded.admin,rfl⟩

theorem Amends.initialized (h : Amends env n st st') (hinit : Initialized st.config) :
    Initialized st'.config := by
  induction h with
  | none h =>
    rw [h.config]
    exact hinit
  | more h _ _ ih => exact ih (h.initialized hinit)

/-- Changes turn the ring, each by one version. -/
theorem Amends.ring (h : Amends env n st st') {m : Nat} (hring : Ring st.config m) :
    Ring st'.config (m + n) := by
  induction h generalizing m with
  | none h =>
    rw [h.config]
    exact hring
  | more h hrecord _ ih =>
    have hnext := (hring.store (s := snapshotOf env _) rfl).congr hrecord
    have hrest := ih hnext
    rwa [Nat.add_assoc,Nat.add_comm 1] at hrest

theorem sameSettings_of_sameConfig (h : SameConfig st st') : SameSettings st st' :=
  ⟨h.config,h.flags,by rw [h.gates]⟩

theorem amends_change (h : Change env st st') (hsame : SameConfig st' st'') :
    Amends env 1 st st'' :=
  .more h h.recorded (.none (sameSettings_of_sameConfig hsame))

theorem Amends.same (h : Amends env n st st') (hsame : SameConfig st' st'') :
    Amends env n st st'' := by
  induction h with
  | none h =>
    refine .none ⟨hsame.config.trans h.config,hsame.flags.trans h.flags,?_⟩
    rw [hsame.gates,h.pauseFlag]
  | more h hrecord _ ih => exact .more h hrecord (ih hsame)

theorem amends_elements (operations : List BatchOperation) :
    Amends env (settingsIn operations) st (operations.foldl (applyElement env) st) := by
  induction operations generalizing st with
  | nil => exact .none ⟨rfl,rfl,rfl⟩
  | cons op operations ih =>
    rw [List.foldl_cons]
    cases hset : elementSetting op with
    | none =>
      have hcount : settingsIn (op :: operations) = settingsIn operations := by
        simp [settingsIn,hset]
      have hsame : applyElement env st op = st := by simp [applyElement,hset]
      rw [hcount,hsame]
      exact ih
    | some setting =>
      have hcount : settingsIn (op :: operations) = settingsIn operations + 1 := by
        simp [settingsIn,hset]
      have hnext : applyElement env st op = configured env st setting := by
        simp [applyElement,hset]
      have hchange : Change env st (configured env st setting) := .set setting
      rw [hcount,hnext]
      exact .more hchange hchange.recorded ih

theorem execConfig_amends (hinit : Initialized st.config) (t : ConfigTx) :
    Amends t.env (changesOf st t) st (execConfig st t) := by
  obtain ⟨env,act⟩ := t
  cases act with
  | elsewhere rest => exact .none ⟨rfl,rfl,rfl⟩
  | call call =>
    have hcount : changesOf st ⟨env,.call call⟩ =
      if failure call.body env st = none then call.changes st else 0 := rfl
    rw [hcount]
    rcases execConfig_call st env call with ⟨hfail,hsame⟩ | ⟨hok,heff⟩
    · rw [if_neg hfail,hsame]
      exact .none ⟨rfl,rfl,rfl⟩
    · rw [if_pos hok]
      cases call with
      | initializeContract admin min hist dec desc =>
        have hadmin := hinit.admin
        rw [heff.1] at hadmin
        cases hadmin
      | set setting => exact amends_change (.set setting) heff.2.2
      | pause => exact amends_change (.flag [.pause] true) heff.2
      | unpause => exact amends_change (.flag [] false) heff.2
      | proposeBatch operations => exact .none (sameSettings_of_sameConfig heff)
      | executeBatch id =>
        obtain ⟨batch,hbatch,_,hsame⟩ := heff
        have hchanges : (ConfigCall.executeBatch id).changes st = settingsIn batch.operations := by
          simp [ConfigCall.changes,hbatch]
        rw [hchanges]
        exact (amends_elements batch.operations).same hsame
      | cancelBatch id => exact .none (sameSettings_of_sameConfig heff)
      | rollbackConfig version =>
        obtain ⟨snapshot,hs,_,hsame⟩ := heff
        exact amends_change (.rollback hs) hsame

end Changes

/-- Every captured getter returns what the snapshot records. -/
structure Restores (st : Store) (snapshot : ConfigSnapshot) : Prop where
  minSources : st.config.minSources = some snapshot.minSourcesRequired
  capture : ∀ env version, st.capture env version snapshot.minSourcesRequired =
    { snapshot with version := version, ledger := env.sequence, timestamp := env.timestamp }

section Rollback

variable {env : Env} {st : Store} {version : Nat} {snapshot : ConfigSnapshot}

theorem restores_restored : Restores (restored env st snapshot) snapshot := by
  refine ⟨rfl,fun env' version => ?_⟩
  rfl

theorem Restores.same {st' : Store} (h : Restores st snapshot) (hsame : SameConfig st st') :
    Restores st' snapshot := by
  obtain ⟨hconfig,hflags,hgates⟩ := hsame
  cases st
  subst hconfig hflags hgates
  exact ⟨h.minSources,h.capture⟩

theorem fails_marks {w : World} (flags : List FeatureFlag) (E : ErrorCode → World → Prop) :
    Fails (forM flags mark) w E := by
  induction flags generalizing w with
  | nil => exact fails_pure ()
  | cons f flags ih =>
    rw [List.forM_cons,fails_bind]
    exact ⟨fails_update _,(sat_mark f _).2 ih⟩

theorem rollbackConfig_fails {admin : Address} (hadmin : st.config.admin = some admin)
    (hauth : env.authorized admin = true) (hs : st.config.snapshot version = some snapshot)
    (hm : st.config.minSources.isSome = true) :
    Fails (rollbackConfig version) (World.enter env st) fun _ _ => False := by
  obtain ⟨m,hm⟩ := Option.isSome_iff_exists.1 hm
  refine (fails_asAdmin _).2 ⟨fun hnone => ?_,fun a ha => ⟨fun hrefused => ?_,fun _ => ?_⟩⟩
  · have hnone' : st.config.admin = none := hnone
    simp [hnone'] at hadmin
  · have ha' : st.config.admin = some a := ha
    have hrefused' : env.authorized a = false := hrefused
    simp_all
  · have hs' : ((World.enter env st).authorizedBy a).store.config.snapshot version = some snapshot :=
      hs
    have hm' : ((World.enter env st).authorizedBy a).store.config.minSources = some m := hm
    simp only [fails_bind,fails_consult,sat_consult,hs',snapshotBeforeChange,captureCurrent,
      getMinSourcesRequired,modifyConfig,modifyGates,applySnapshot,fails_readStore,
      sat_readStore,fails_update,sat_update,hm',sat_bind,fails_marks,sat_marks]
    simp

theorem rollback_restores {admin : Address} (hadmin : st.config.admin = some admin)
    (hauth : env.authorized admin = true) (hs : st.config.snapshot version = some snapshot)
    (hm : st.config.minSources.isSome = true) :
    failure (rollbackConfig version) env st = none ∧
      Restores (invoke (rollbackConfig version) env st) snapshot := by
  have hfails := rollbackConfig_fails hadmin hauth hs hm
  have hok : failure (rollbackConfig version) env st = none := by
    by_contra hne
    obtain ⟨e,he⟩ := Option.ne_none_iff_exists'.1 hne
    exact failure_of_fails he hfails
  refine ⟨hok,?_⟩
  rcases execConfig_call st env (.rollbackConfig version) with ⟨hfail,_⟩ | ⟨_,x,hx,_,hsame⟩
  · exact (hfail hok).elim
  · rw [hs,Option.some.injEq] at hx
    subst hx
    exact restores_restored.same hsame

end Rollback

/-- An initialized oracle whose configuration has not been changed yet. -/
structure Fresh (c : Config) : Prop extends Initialized c where
  noCount : c.versionCount = none
  noIndex : c.versionIndex = []
  noSnapshot : ∀ v, c.snapshot v = none

theorem Fresh.ring {c : Config} (h : Fresh c) : Ring c 0 := by
  refine ⟨?_,?_,fun v => ?_,fun v s hs => ?_⟩
  · simp [h.noCount,wrap32]
  · simp [h.noIndex,newestVersions]
  · simp [h.noSnapshot,h.noIndex]
  · simp [h.noSnapshot] at hs

theorem run_history {st : Store} {m : Nat} (ts : List ConfigTx) (hinit : Initialized st.config)
    (hring : Ring st.config m) :
    (∀ x ∈ steps execConfig st ts, Amends x.2.env (changesOf x.1 x.2) x.1 (execConfig x.1 x.2)) ∧
      Ring (run execConfig st ts).config (m + changesIn st ts) ∧
      Initialized (run execConfig st ts).config := by
  induction ts generalizing st m with
  | nil => exact ⟨by simp,hring,hinit⟩
  | cons t ts ih =>
    have hstep := execConfig_amends hinit t
    obtain ⟨hall,hend,hinit'⟩ := ih (hstep.initialized hinit) (hstep.ring hring)
    rw [run_cons,steps_cons,List.forall_mem_cons]
    refine ⟨⟨hstep,hall⟩,?_,hinit'⟩
    rw [Nat.add_assoc] at hend
    simpa [changesIn] using hend

/-- In every run from an oracle just initialized: each change stores a snapshot of what it replaces,
the history is the ring of the newest versions, and the administrator can restore any of them. -/
theorem configuration_history (st : Store) (ts : List ConfigTx) (hfresh : Fresh st.config) :
    (∀ x ∈ steps execConfig st ts, Amends x.2.env (changesOf x.1 x.2) x.1 (execConfig x.1 x.2)) ∧
      Ring (run execConfig st ts).config (changesIn st ts) ∧
      ∀ env admin version snapshot, (run execConfig st ts).config.admin = some admin →
        env.authorized admin = true →
        (run execConfig st ts).config.snapshot version = some snapshot →
        failure (rollbackConfig version) env (run execConfig st ts) = none ∧
          Restores (invoke (rollbackConfig version) env (run execConfig st ts)) snapshot := by
  obtain ⟨hall,hring,hinit⟩ := run_history ts hfresh.toInitialized hfresh.ring
  rw [Nat.zero_add] at hring
  refine ⟨hall,hring,fun env admin version snapshot hadmin hauth hs => ?_⟩
  exact rollback_restores hadmin hauth hs hinit.required

/-- The administrator is 9 and one source is required. -/
def freshStore : Store :=
  { config := { admin := some 9, minSources := some 1 } }

/-- A setting, a pause, a batch of two settings and a rollback: five versions. -/
def amendingRun : List ConfigTx :=
  [⟨.concrete 101 5 [9], .call (.set (.resolution 5))⟩,
    ⟨.concrete 102 5 [9], .call .pause⟩,
    ⟨.concrete 102 5 [9], .call (.proposeBatch [⟨4, [0, 0, 0, 2]⟩, ⟨6, []⟩, ⟨5, [0, 0, 0, 3]⟩])⟩,
    ⟨.concrete 112 5 [9], .call (.executeBatch 1)⟩,
    ⟨.concrete 113 5 [9], .call (.rollbackConfig 2)⟩]

theorem amendingRun_history :
    Ring (run execConfig freshStore amendingRun).config 5 ∧
      ∀ snapshot, (run execConfig freshStore amendingRun).config.snapshot 4 = some snapshot →
        Restores (invoke (rollbackConfig 4) (.concrete 120 5 [9])
          (run execConfig freshStore amendingRun)) snapshot := by
  obtain ⟨_,hring,hrollback⟩ := configuration_history freshStore amendingRun
    ⟨⟨rfl,rfl⟩,rfl,rfl,fun _ => rfl⟩
  have hchanges : changesIn freshStore amendingRun = 5 := by decide
  rw [hchanges] at hring
  have hadmin : (run execConfig freshStore amendingRun).config.admin = some 9 := by decide
  exact ⟨hring,fun snapshot hs => (hrollback _ 9 4 snapshot hadmin (by decide) hs).2⟩

end PriceOracle.Configuration
