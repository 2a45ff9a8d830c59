import PriceOracle.Configuration.Snapshots

/-! # Simulated batches

The simulator and the executor agree on every batch without trailing bytes. A change of administrator
or description is accepted by both and has no effect. -/

namespace PriceOracle.Timelock

open Model Lib.Transaction PriceOracle.Configuration

section Simulating

variable {op : BatchOperation} {operations : List BatchOperation}

/-- The executor knows the type of the element, and its payload has the length of the type. -/
def Executable (op : BatchOperation) : Prop :=
  op.opType ≤ 7 ∧ ∀ len ∈ expectedLen op.opType, op.data.length = len

/-- No payload is longer than the executor expects. -/
def NoTrailing (operations : List BatchOperation) : Prop :=
  ∀ op ∈ operations, ∀ len ∈ expectedLen op.opType, op.data.length ≤ len

theorem simulateU32_wouldSucceed (index opType : Nat) (data : Bytes) (tooShort update : String)
    (warn : Nat → SimulationWarning) :
    (simulateU32 index opType data tooShort update warn).wouldSucceed = true ↔
      4 ≤ data.length := by
  unfold simulateU32 decodeU32
  split_ifs with h
  · simpa using h
  · simpa using h

theorem simulateLength_wouldSucceed (index opType : Nat) (data : Bytes) (len : Nat)
    (tooShort update : String) :
    (simulateLength index opType data len tooShort update).wouldSucceed = true ↔
      len ≤ data.length := by
  unfold simulateLength
  split_ifs with h
  · simpa using h
  · simpa using h

/-- The simulator accepts the known types, from the length on that they need. -/
theorem simulateSingle_wouldSucceed (index : Nat) (op : BatchOperation) :
    (simulateSingle index op).wouldSucceed = true ↔
      op.opType ≤ 7 ∧ ∀ len ∈ expectedLen op.opType, len ≤ op.data.length := by
  unfold simulateSingle
  split
  case h_9 =>
    have hunknown : ¬op.opType ≤ 7 := by grind
    simp [hunknown]
  all_goals
    rename_i htype
    rw [htype]
    simp [expectedLen,simulateU32_wouldSucceed,simulateLength_wouldSucceed]

theorem simulateBatch_allSucceed (operations : List BatchOperation) :
    (simulateBatch operations).allSucceed = true ↔
      ∀ op ∈ operations, op.opType ≤ 7 ∧ ∀ len ∈ expectedLen op.opType, len ≤ op.data.length := by
  unfold simulateBatch
  have hlength : (operations.mapIdx simulateSingle).length = operations.length := by simp
  rw [decide_eq_true_eq,← hlength,List.countP_eq_length]
  constructor
  · intro h op hop
    obtain ⟨i,hi,rfl⟩ := List.getElem_of_mem hop
    exact (simulateSingle_wouldSucceed i _).1 (h _ (List.mem_mapIdx.2 ⟨i,hi,rfl⟩))
  · intro h result hresult
    obtain ⟨i,hi,rfl⟩ := List.mem_mapIdx.1 hresult
    exact (simulateSingle_wouldSucceed i _).2 (h _ (List.getElem_mem hi))

theorem allSucceed_iff_executable (h : NoTrailing operations) :
    (simulateBatch operations).allSucceed = true ↔ ∀ op ∈ operations, Executable op := by
  rw [simulateBatch_allSucceed]
  refine forall₂_congr fun op hop => and_congr_right fun _ => forall₂_congr fun len hlen => ?_
  exact ⟨fun hle => Nat.le_antisymm (h op hop len hlen) hle,fun heq => heq.ge⟩

end Simulating

section Executing

variable {w : World} {op : BatchOperation} {operations : List BatchOperation}

theorem executeSingleOp_executable (op : BatchOperation) :
    Sat (executeSingleOp op) w fun _ _ => Executable op := by
  unfold executeSingleOp Executable
  simp only [sat_bind,getAdmin,sat_consult,sat_ensure]
  intro _ _ hlen
  have hexact : ∀ len ∈ expectedLen op.opType, op.data.length = len := by
    intro len hmem
    rw [hmem] at hlen
    simpa using hlen
  split
  case h_9 => exact sat_abort _
  all_goals
    exact fun _ _ _ => ⟨by omega,hexact⟩

theorem fails_configure (hm : w.store.config.minSources.isSome = true) (flags : List FeatureFlag)
    (write : Config → Config) (E : ErrorCode → World → Prop) :
    Fails (configure flags write) w E := by
  obtain ⟨m,hm⟩ := Option.isSome_iff_exists.1 hm
  simp [configure,snapshotBeforeChange,captureCurrent,getMinSourcesRequired,modifyConfig,hm,
    fails_marks,sat_marks]

theorem executeSingleOp_fails (hinit : Initialized w.store.config)
    (hcode : ∀ hash, w.env.host.hasCode hash = true) (op : BatchOperation) :
    Fails (executeSingleOp op) w fun _ _ => ¬Executable op := by
  obtain ⟨admin,hadmin⟩ := Option.isSome_iff_exists.1 hinit.admin
  unfold executeSingleOp Executable
  simp only [fails_bind,getAdmin,fails_consult,sat_consult,fails_ensure,sat_ensure,hadmin]
  refine ⟨by simp,fun _ _ => ⟨fun hlen hexec => hlen ?_,fun _ => ?_⟩⟩
  · cases hmem : expectedLen op.opType with
    | none => rfl
    | some len => simpa using hexec.2 len hmem
  · split
    case h_1 => simp [hcode]
    case h_2 => exact fails_pure _
    case h_7 => exact fails_pure _
    case h_9 =>
      rw [fails_abort]
      have hunknown : ¬op.opType ≤ 7 := by grind
      exact fun hexec => hunknown hexec.1
    all_goals exact fails_configure hinit.required _ _ _

theorem applyElement_initialized {st : Store} (h : Initialized st.config) (env : Env)
    (op : BatchOperation) : Initialized (applyElement env st op).config := by
  unfold applyElement
  cases elementSetting op with
  | none => exact h
  | some setting => exact (Change.set setting).initialized h

theorem executeElements_fails (hinit : Initialized w.store.config)
    (hcode : ∀ hash, w.env.host.hasCode hash = true) (operations : List BatchOperation) :
    Fails (forM operations executeSingleOp) w fun _ _ => ¬∀ op ∈ operations, Executable op := by
  induction operations generalizing w with
  | nil => exact fails_pure _
  | cons op operations ih =>
    rw [List.forM_cons,fails_bind]
    refine ⟨(executeSingleOp_fails hinit hcode op).mono fun _ _ hop hall => hop (hall op (by simp)),
      ?_⟩
    refine (executeSingleOp_sat op).mono ?_
    rintro _ u ⟨henv,-,hstore⟩
    have hinit' : Initialized u.store.config := by
      rw [hstore]
      exact applyElement_initialized hinit w.env op
    refine (ih hinit' (henv ▸ hcode)).mono fun _ _ hrest hall => hrest fun x hx => ?_
    exact hall x (List.mem_cons_of_mem _ hx)

theorem executes_iff {env : Env} {st : Store} (hinit : Initialized st.config)
    (hcode : ∀ hash, env.host.hasCode hash = true) (operations : List BatchOperation) :
    failure (forM operations executeSingleOp) env st = none ↔ ∀ op ∈ operations, Executable op := by
  constructor
  · intro h
    have hall := sat_forM_all (I := fun _ => True) (s := World.enter env st)
      (fun op (_ : op ∈ operations) t _ => (executeSingleOp_executable op).mono
        fun _ _ hop => ⟨trivial,hop⟩) trivial
    exact invoke_of_success (Q := fun _ => ∀ op ∈ operations, Executable op) h
      (hall.mono fun _ _ ht => ht.2)
  · intro hall
    refine succeeds_of_no_failure ?_
    exact (executeElements_fails (w := World.enter env st) hinit hcode operations).mono
      fun _ _ hnot => hnot hall

end Executing

section Settings

variable {env : Env} {st : Store} {operations : List BatchOperation}

/-- The setting that elements of a type write. -/
def numberSetting (c : Config) : Nat → Option Nat
  | 2 => c.minSources
  | 3 => c.maxHistory
  | 4 => c.resolution
  | 5 => c.decimals
  | 7 => c.timestampThreshold
  | _ => none

def lastValue (opType : Nat) (operations : List BatchOperation) : Option Nat :=
  (operations.filter fun op => op.opType = opType).getLast?.map fun op => ofBeBytes op.data

/-- Every setting of a number has the value of the last element for it, and the administrator and the
description stay. -/
structure Reflects (operations : List BatchOperation) (c c' : Config) : Prop where
  numbers : ∀ opType ∈ [2, 3, 4, 5, 7],
    numberSetting c' opType = (lastValue opType operations).or (numberSetting c opType)
  admin : c'.admin = c.admin
  description : c'.description = c.description

theorem lastValue_append (opType : Nat) (xs ys : List BatchOperation) :
    lastValue opType (xs ++ ys) = (lastValue opType ys).or (lastValue opType xs) := by
  unfold lastValue
  rw [List.filter_append,List.getLast?_append,Option.map_or]

theorem Reflects.append {xs ys : List BatchOperation} {c c' c'' : Config} (h : Reflects xs c c')
    (h' : Reflects ys c' c'') : Reflects (xs ++ ys) c c'' := by
  refine ⟨fun t ht => ?_,h'.admin.trans h.admin,h'.description.trans h.description⟩
  rw [h'.numbers t ht,h.numbers t ht,lastValue_append,Option.or_assoc]

theorem recorded_reflects (env : Env) (st : Store) :
    Reflects [] st.config (recordedConfig env st) := by
  obtain ⟨index,snapshot,heq,-⟩ := storeSnapshot_eq st.config (snapshotOf env st)
  rw [recordedConfig,heq]
  refine ⟨fun t ht => ?_,rfl,rfl⟩
  simp only [List.mem_cons,List.not_mem_nil,or_false] at ht
  rcases ht with rfl | rfl | rfl | rfl | rfl <;> rfl

/-- An element writes the setting of its type only. -/
theorem write_reflects (c : Config) (op : BatchOperation) :
    Reflects [op] c (((elementSetting op).map fun setting => setting.write c).getD c) := by
  obtain ⟨opType,data⟩ := op
  match opType with
  | 0 | 1 | 2 | 3 | 4 | 5 | 6 | 7 =>
    refine ⟨fun t ht => ?_,rfl,rfl⟩
    simp only [List.mem_cons,List.not_mem_nil,or_false] at ht
    rcases ht with rfl | rfl | rfl | rfl | rfl <;> rfl
  | n+8 =>
    refine ⟨fun t ht => ?_,rfl,rfl⟩
    have hother : n+8 ≠ t := by
      rintro rfl
      simp at ht
    simp [lastValue,hother,elementSetting]

theorem applyElement_reflects (env : Env) (st : Store) (op : BatchOperation) :
    Reflects [op] st.config (applyElement env st op).config := by
  unfold applyElement
  cases hset : elementSetting op with
  | none => simpa [hset] using write_reflects st.config op
  | some setting =>
    have hwrite := write_reflects (recordedConfig env st) op
    rw [hset] at hwrite
    exact (recorded_reflects env st).append hwrite

theorem applyElements_reflects (env : Env) (st : Store) (operations : List BatchOperation) :
    Reflects operations st.config (operations.foldl (applyElement env) st).config := by
  induction operations generalizing st with
  | nil => exact ⟨fun _ _ => rfl,rfl,rfl⟩
  | cons op operations ih => exact (applyElement_reflects env st op).append (ih _)

/-- On an initialized oracle, a batch without trailing bytes is reported to succeed exactly if its
execution does not panic, and then every number that it sets is stored. -/
theorem simulateBatch_executes (hinit : Initialized st.config)
    (hcode : ∀ hash, env.host.hasCode hash = true) (hexact : NoTrailing operations) :
    ((simulateBatch operations).allSucceed = true ↔
      failure (forM operations executeSingleOp) env st = none) ∧
    ((simulateBatch operations).allSucceed = true → Reflects operations st.config
      (invoke (forM operations executeSingleOp) env st).config) := by
  have hagree : (simulateBatch operations).allSucceed = true ↔
      failure (forM operations executeSingleOp) env st = none :=
    (allSucceed_iff_executable hexact).trans (executes_iff hinit hcode operations).symm
  refine ⟨hagree,fun hall => ?_⟩
  refine invoke_of_success (Q := fun st' => Reflects operations st.config st'.config)
    (hagree.1 hall) ((executeElements_sat operations).mono ?_)
  rintro _ w ⟨-,-,hstore⟩
  rw [hstore]
  exact applyElements_reflects env st operations

def describedStore : Store where
  config := { admin := some 9, minSources := some 2, description := some "USD prices" }

/-- Four sources are required, at 12 decimals, and then five. -/
def numberBatch : List BatchOperation := [⟨2, [0, 0, 0, 4]⟩, ⟨5, [0, 0, 0, 12]⟩, ⟨2, [0, 0, 0, 5]⟩]

theorem numberBatch_executes :
    failure (forM numberBatch executeSingleOp) (.concrete 5 1000 [9]) describedStore = none ∧
    Reflects numberBatch describedStore.config
      (invoke (forM numberBatch executeSingleOp) (.concrete 5 1000 [9]) describedStore).config := by
  have hexact : NoTrailing numberBatch := by
    unfold NoTrailing
    decide
  have hinit : Initialized describedStore.config := ⟨rfl,rfl⟩
  have hcode : ∀ hash, (Env.concrete 5 1000 [9]).host.hasCode hash = true := fun _ => rfl
  have hexecutes := simulateBatch_executes hinit hcode hexact
  exact ⟨hexecutes.1.1 (by decide),hexecutes.2 (by decide)⟩

/-- The description "EUR", and a new administrator. -/
def renamingBatch : List BatchOperation := [⟨6, [69, 85, 82]⟩, ⟨1, Lib.MachineInt.leBytes 32 8⟩]

/-- Both elements are reported to succeed and are executed, and the configuration shows neither. -/
theorem renamingBatch_ignored :
    (simulateBatch renamingBatch).allSucceed = true ∧
    failure (forM renamingBatch executeSingleOp) (.concrete 5 1000 [9]) describedStore = none ∧
    (invoke (forM renamingBatch executeSingleOp) (.concrete 5 1000 [9])
      describedStore).config.description = some "USD prices" ∧
    (invoke (forM renamingBatch executeSingleOp) (.concrete 5 1000 [9])
      describedStore).config.admin = some 9 :=
  ⟨by decide,rfl,rfl,rfl⟩

end Settings

end PriceOracle.Timelock
