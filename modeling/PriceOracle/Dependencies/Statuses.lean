import PriceOracle.Lib.Graphs
import PriceOracle.Lib.Run
import PriceOracle.Model.Invocation
import PriceOracle.Model.Operations

/-! # The cascade of a cancellation

A cancellation marks an operation and passes on to its dependents. Whatever the dependencies are, it
comes to an end, and it leaves every dependent of what it marks cancelled. -/

namespace PriceOracle.Dependencies

open Model Model.Operations Lib.Transaction Lib.Footprint Lib.Marking

section Statuses

variable (o : Operations)

def statusOf (opId : Text) : Option OperationStatus := (o.operation opId).map Operation.status

def cancelled : Finset Text := o.keys.filter fun opId => statusOf o opId = some .cancelled

variable {o} {x d : Text} {op : Operation}

theorem statusOf_of_some (h : o.operation x = some op) : statusOf o x = some op.status := by
  rw [statusOf,h,Option.map_some]

theorem mem_keys_of_some (h : o.operation x = some op) : x ∈ o.keys :=
  o.mem_keys x (by simp [h])

theorem mem_cancelled : x ∈ cancelled o ↔ statusOf o x = some .cancelled := by
  rw [cancelled,Finset.mem_filter,and_iff_right_iff_imp]
  intro h
  cases hop : o.operation x with
  | none => simp [statusOf,hop] at h
  | some op => exact mem_keys_of_some hop

end Statuses

/-- The operations of `o`, with those in `m` cancelled. -/
structure Marked (o : Operations) (m : Finset Text) (w : World) : Prop where
  operation : ∀ opId, w.store.operations.operation opId = (o.operation opId).map fun op =>
    if opId ∈ m then { op with status := .cancelled } else op
  keys : w.store.operations.keys = o.keys
  dependents : w.store.operations.dependents = o.dependents

section Cascade

variable {o : Operations} {m : Finset Text} {w : World} {opId : Text} {n : ℕ} {op : Operation}

theorem marked_start : Marked w.store.operations (cancelled w.store.operations) w where
  operation := by
    intro opId
    cases hop : w.store.operations.operation opId with
    | none => rfl
    | some op =>
      rw [Option.map_some,Option.some.injEq]
      by_cases hmem : opId ∈ cancelled w.store.operations
      · rw [mem_cancelled,statusOf_of_some hop,Option.some.injEq] at hmem
        rw [if_pos (mem_cancelled.2 (by rw [statusOf_of_some hop,hmem])),← hmem]
      · rw [if_neg hmem]
  keys := rfl
  dependents := rfl

theorem validateOpId_same : Sat (validateOpId opId) w fun _ w' => w' = w := by
  simp only [validateOpId,validateString,sat_bind,sat_ensure]
  exact fun _ _ _ => trivial

theorem readOperation_sat :
    Sat (readOperation opId) w fun op w' =>
      w.store.operations.operation opId = some op ∧ w' = w :=
  sat_lookup (by cases w.store.operations.operation opId <;> rfl)

/-- What is found of an operation tells whether it is marked. -/
theorem Marked.found (h : Marked o m w) (hop : w.store.operations.operation opId = some op) :
    ∃ op₀, o.operation opId = some op₀ ∧
      op = if opId ∈ m then { op₀ with status := .cancelled } else op₀ := by
  rw [h.operation] at hop
  cases hop₀ : o.operation opId with
  | none => simp [hop₀] at hop
  | some op₀ =>
    rw [hop₀,Option.map_some,Option.some.injEq] at hop
    exact ⟨op₀,rfl,hop.symm⟩

theorem Marked.mem_of_cancelled (h : Marked o m w) (hm : cancelled o ⊆ m)
    (hop : w.store.operations.operation opId = some op) : op.status = .cancelled ↔ opId ∈ m := by
  obtain ⟨op₀,hop₀,rfl⟩ := h.found hop
  by_cases hmem : opId ∈ m
  · simp [hmem]
  · rw [if_neg hmem]
    refine iff_of_false (fun hstatus => hmem (hm ?_)) hmem
    rw [mem_cancelled,statusOf_of_some hop₀,hstatus]

theorem Marked.write (h : Marked o m w)
    (hop : w.store.operations.operation opId = some op) (hmem : opId ∉ m) :
    Sat (writeOperation opId { op with status := .cancelled }) w fun _ w' =>
      Marked o (insert opId m) w' := by
  obtain ⟨op₀,hop₀,heq⟩ := h.found hop
  rw [if_neg hmem] at heq
  subst heq
  refine (sat_update _ _).2 ⟨fun other => ?_,?_,h.dependents⟩
  · change Function.update w.store.operations.operation opId _ other = _
    by_cases hother : other = opId
    · rw [hother,Function.update_self,hop₀,Option.map_some,if_pos (Finset.mem_insert_self ..)]
    · rw [Function.update_of_ne hother,h.operation]
      simp only [Finset.mem_insert,hother,false_or]
  · change insert opId w.store.operations.keys = o.keys
    rw [h.keys]
    exact Finset.insert_eq_self.2 (mem_keys_of_some hop₀)

/-- A cancellation that comes to an end has marked what a pass over the dependents marks. -/
theorem cancelWithin_marks (h : Marked o m w) (hm : cancelled o ⊆ m) :
    Sat (cancelWithin n opId) w fun _ w' =>
      opId ∈ o.keys ∧ Marked o (mark o.dependentsOf n m opId) w' := by
  induction n generalizing m w opId with
  | zero => exact sat_abort _
  | succ n ih =>
    have hloop (xs : List Text) (m : Finset Text) (w : World) (h : Marked o m w)
        (hm : cancelled o ⊆ m) :
        Sat (forM xs (cancelWithin n)) w fun _ w' =>
          Marked o (xs.foldl (mark o.dependentsOf n) m) w' := by
      induction xs generalizing m w with
      | nil => exact (sat_pure _).2 h
      | cons x xs ihxs =>
        refine (ih h hm).andThen fun _ u hu => ?_
        exact ihxs _ u hu.2 (hm.trans subset_mark)
    refine validateOpId_same.andThen fun _ u hu => ?_
    subst hu
    refine readOperation_sat.andThen ?_
    rintro op u ⟨hop,hu⟩
    subst hu
    obtain ⟨op₀,hop₀,-⟩ := h.found hop
    refine sat_ite _ (fun hstatus => ?_) fun hstatus => ?_
    · have hmem := (h.mem_of_cancelled hm hop).1 hstatus
      rw [mark_of_mem hmem]
      exact (sat_pure _).2 ⟨mem_keys_of_some hop₀,h⟩
    · have hmem : opId ∉ m := fun hmem => hstatus ((h.mem_of_cancelled hm hop).2 hmem)
      rw [mark_succ hmem]
      refine (h.write hop hmem).andThen fun _ u hu => ?_
      refine (sat_bind _ _).2 ((sat_readStore _ _).2 ?_)
      have hdependents : u.store.operations.dependentsOf opId = o.dependentsOf opId := by
        rw [dependentsOf,hu.dependents,dependentsOf]
      rw [hdependents]
      refine (hloop _ _ u hu (hm.trans (Finset.subset_insert opId m))).mono fun _ v hv => ?_
      exact ⟨mem_keys_of_some hop₀,hv⟩

/-- The depth of a cancellation stays below the number of operations that are not cancelled. -/
theorem cancelWithin_ends (h : Marked o m w) (hm : cancelled o ⊆ m)
    (hn : (o.keys \ m).card < n) :
    Fails (cancelWithin n opId) w fun e _ => e ≠ .hostTrap := by
  induction n generalizing m w opId with
  | zero => exact absurd hn (Nat.not_lt_zero _)
  | succ n ih =>
    have hloop (xs : List Text) (m : Finset Text) (w : World) (h : Marked o m w)
        (hm : cancelled o ⊆ m) (hn : (o.keys \ m).card < n) :
        Fails (forM xs (cancelWithin n)) w fun e _ => e ≠ .hostTrap := by
      induction xs generalizing m w with
      | nil => exact fails_pure _
      | cons x xs ihxs =>
        rw [List.forM_cons,fails_bind]
        refine ⟨ih h hm hn,(cancelWithin_marks h hm).mono fun _ u hu => ?_⟩
        have hsub : m ⊆ mark o.dependentsOf n m x := subset_mark
        have hcard := card_le_of_subset (u := o.keys) hsub
        exact ihxs _ u hu.2 (hm.trans hsub) (by omega)
    have hvalid : Fails (validateOpId opId) w fun e _ => e ≠ .hostTrap := by
      simp [validateOpId,validateString]
    have hread : Fails (readOperation opId) w fun e _ => e ≠ .hostTrap := by
      refine (fails_consult _).2 fun e he => ?_
      cases hop : w.store.operations.operation opId with
      | none =>
        simp only [hop,Except.error.injEq] at he
        simp [← he]
      | some op => simp [hop] at he
    rw [cancelWithin,fails_bind]
    refine ⟨hvalid,validateOpId_same.mono fun _ u hu => ?_⟩
    subst hu
    rw [fails_bind]
    refine ⟨hread,readOperation_sat.mono ?_⟩
    rintro op u ⟨hop,hu⟩
    subst hu
    obtain ⟨op₀,hop₀,-⟩ := h.found hop
    split_ifs with hstatus
    · exact fails_pure _
    · have hmem : opId ∉ m := fun hmem => hstatus ((h.mem_of_cancelled hm hop).2 hmem)
      have hless := card_insert_lt (mem_keys_of_some hop₀) hmem
      rw [fails_bind]
      refine ⟨fails_update _,(h.write hop hmem).mono fun _ u hu => ?_⟩
      rw [fails_bind]
      refine ⟨fails_readStore _,(sat_readStore _ _).2 ?_⟩
      exact hloop _ _ u hu (hm.trans (Finset.subset_insert opId m)) (by omega)

end Cascade

end PriceOracle.Dependencies

/-! ## Statuses and dependencies

An executed operation keeps its status and has executed dependencies, and what depends on a
cancelled operation is cancelled, unless an operation is created over a cancelled dependency or an
executed one is cancelled. -/

namespace PriceOracle.Dependencies

open Model Model.Operations Lib.Transaction Lib.Footprint Lib.Marking Lib.Run

/-- The entry points of the administrator. -/
inductive OperationCall
  | create (opId : Text) (dependsOn : List Text)
  | execute (opId : Text)
  | cancel (opId : Text)

def OperationCall.body : OperationCall → Contract Unit
  | create opId dependsOn => asAdmin (createOperation opId dependsOn)
  | execute opId => asAdmin (executeOperation opId)
  | cancel opId => asAdmin (cancelOperation opId)

/-- A call, or a change elsewhere that leaves the operations as they are. -/
inductive OperationAct
  | call (call : OperationCall)
  | elsewhere (rest : Store)

structure OperationTx where
  env : Env
  act : OperationAct

def execOperation (st : Store) (t : OperationTx) : Store :=
  match t.act with
  | .call call => invoke call.body t.env st
  | .elsewhere rest => { rest with operations := st.operations }

/-- The dependents that are registered are the operations with the dependency. -/
def Linked (o : Operations) : Prop :=
  ∀ d x, x ∈ o.dependentsOf d ↔ ∃ op, o.operation x = some op ∧ d ∈ op.dependsOn

structure Consistent (o : Operations) : Prop where
  executed : ∀ x op, o.operation x = some op → op.status = .executed →
    ∀ d ∈ op.dependsOn, statusOf o d = some .executed
  cancelled : ∀ x op, o.operation x = some op →
    ∀ d ∈ op.dependsOn, statusOf o d = some .cancelled → op.status = .cancelled

/-- A cancellation never meets a bound on its depth beyond the number of operations. -/
def Terminates (st : Store) (t : OperationTx) : Prop :=
  match t.act with
  | .call (.cancel opId) => ∀ n, st.operations.keys.card < n →
      failure (cancelWithin n opId) t.env st ≠ some .hostTrap
  | _ => True

/-- No operation is created over a cancelled dependency, and none is cancelled once executed. -/
def Ordered (st : Store) (t : OperationTx) : Prop :=
  match t.act with
  | .call (.create opId dependsOn) =>
    failure (OperationCall.body (.create opId dependsOn)) t.env st = none →
      ∀ d ∈ dependsOn, statusOf st.operations d ≠ some .cancelled
  | .call (.cancel opId) =>
    failure (OperationCall.body (.cancel opId)) t.env st = none →
      statusOf st.operations opId ≠ some .executed
  | _ => True

def KeepsExecuted (o o' : Operations) : Prop :=
  ∀ x, statusOf o x = some .executed → statusOf o' x = some .executed

section Writes

variable {o : Operations} {opId x d : Text} {op : Operation}

theorem statusOf_write_self : statusOf (o.write opId op) opId = some op.status := by
  simp [statusOf,write]

theorem statusOf_write_of_ne (h : x ≠ opId) : statusOf (o.write opId op) x = statusOf o x := by
  simp [statusOf,write,h]

def created (o : Operations) (opId : Text) (dependsOn : List Text) : Operations :=
  dependsOn.foldl (fun o d => o.addDependent d opId) (o.write opId ⟨opId, .pending, dependsOn⟩)

theorem addDependents_operation (ds : List Text) (o : Operations) :
    (ds.foldl (fun o d => o.addDependent d opId) o).operation = o.operation := by
  induction ds generalizing o with
  | nil => rfl
  | cons e ds ih => rw [List.foldl_cons,ih,addDependent]

theorem mem_addDependents (ds : List Text) (o : Operations) :
    x ∈ (ds.foldl (fun o d => o.addDependent d opId) o).dependentsOf d ↔
      x ∈ o.dependentsOf d ∨ x = opId ∧ d ∈ ds := by
  induction ds generalizing o with
  | nil => simp
  | cons e ds ih =>
    rw [List.foldl_cons,ih]
    have hone : x ∈ (o.addDependent e opId).dependentsOf d ↔
        x ∈ o.dependentsOf d ∨ x = opId ∧ d = e := by
      by_cases hd : d = e
      · subst hd
        simp [addDependent,dependentsOf]
      · simp [addDependent,dependentsOf,hd]
    rw [hone,List.mem_cons]
    tauto

end Writes

section Effects

variable {w : World} {opId : Text}

theorem createOperation_sat (dependsOn : List Text) :
    Sat (createOperation opId dependsOn) w fun _ w' =>
      w.store.operations.operation opId = none ∧
        w'.store.operations = created w.store.operations opId dependsOn := by
  have hvec : Sat (validateStringVec dependsOn) w fun _ w' => w' = w := by
    simp only [validateStringVec,sat_bind,sat_ensure]
    intro _
    refine sat_forM (I := fun u => u = w) (fun x _ u hu => ?_) rfl
    exact validateOpId_same.mono fun _ v hv => hv.trans hu
  have hloop (ds : List Text) (u : World) :
      Sat (forM ds fun d => modifyOperations fun o => o.addDependent d opId) u fun _ v =>
        v.store.operations = ds.foldl (fun o d => o.addDependent d opId) u.store.operations := by
    induction ds generalizing u with
    | nil => exact (sat_pure _).2 rfl
    | cons d ds ih =>
      exact ih _
  refine validateOpId_same.andThen fun _ u hu => ?_
  subst hu
  refine hvec.andThen fun _ u hu => ?_
  subst hu
  simp only [sat_bind,sat_readStore,sat_ensure,writeOperation,modifyOperations,sat_update]
  intro hnone
  exact (hloop dependsOn _).mono fun _ v hv => ⟨by simpa using hnone,hv⟩

theorem executeOperation_sat :
    Sat (executeOperation opId) w fun _ w' =>
      ∃ op, w.store.operations.operation opId = some op ∧ op.status = .pending ∧
        (∀ d ∈ op.dependsOn, statusOf w.store.operations d = some .executed) ∧
        w'.store.operations = w.store.operations.write opId { op with status := .executed } := by
  have hdep (d : Text) : Sat (requireExecuted d) w fun _ w' =>
      w' = w ∧ statusOf w.store.operations d = some .executed := by
    refine readOperation_sat.andThen ?_
    rintro dep u ⟨hdep,hu⟩
    subst hu
    refine (sat_ensure _ _ _).2 fun hstatus => ⟨rfl,?_⟩
    rw [statusOf_of_some hdep,hstatus]
  have hloop (ds : List Text) : Sat (forM ds requireExecuted) w fun _ w' =>
      w' = w ∧ ∀ d ∈ ds, statusOf w.store.operations d = some .executed := by
    induction ds with
    | nil => exact (sat_pure _).2 ⟨rfl,by simp⟩
    | cons d ds ih =>
      refine (hdep d).andThen ?_
      rintro _ u ⟨hu,hd⟩
      subst hu
      exact ih.mono fun _ v ⟨hv,hds⟩ => ⟨hv,List.forall_mem_cons.2 ⟨hd,hds⟩⟩
  refine validateOpId_same.andThen fun _ u hu => ?_
  subst hu
  refine readOperation_sat.andThen ?_
  rintro op u ⟨hop,hu⟩
  subst hu
  simp only [sat_bind,sat_ensure]
  intro hpending
  refine (hloop op.dependsOn).mono ?_
  rintro _ u ⟨hu,hall⟩
  subst hu
  exact (sat_update _ _).2 ⟨op,hop,hpending,hall,rfl⟩

theorem cancelOperation_sat :
    Sat (cancelOperation opId) w fun _ w' =>
      opId ∈ w.store.operations.keys ∧ Marked w.store.operations
        (mark w.store.operations.dependentsOf (w.store.operations.keys.card+1)
          (cancelled w.store.operations) opId) w' :=
  (sat_bind _ _).2 ((sat_readStore _ _).2 (cancelWithin_marks marked_start le_rfl))

end Effects

section Steps

variable {o o' : Operations} {opId : Text} {m : Finset Text} {w : World} (dependsOn : List Text)

/-- A write that keeps the dependencies keeps the links. -/
theorem linked_congr (h : Linked o) (hdependents : o'.dependents = o.dependents)
    (hdepends : ∀ x, (o'.operation x).map Operation.dependsOn =
      (o.operation x).map Operation.dependsOn) : Linked o' := by
  intro d x
  have hsame : o'.dependentsOf d = o.dependentsOf d := by
    rw [dependentsOf,hdependents,dependentsOf]
  rw [hsame,h d x]
  have hx := hdepends x
  cases hop : o.operation x with
  | none =>
    rw [hop,Option.map_none,Option.map_eq_none_iff] at hx
    simp [hx]
  | some op =>
    rw [hop,Option.map_some,Option.map_eq_some_iff] at hx
    obtain ⟨op',hop',hdeps⟩ := hx
    simp [hop',hdeps]

theorem created_operation : (created o opId dependsOn).operation =
      Function.update o.operation opId (some ⟨opId,.pending,dependsOn⟩) :=
  addDependents_operation dependsOn _

theorem created_status_of_ne {x : Text} (h : x ≠ opId) :
    statusOf (created o opId dependsOn) x = statusOf o x := by
  rw [statusOf,created_operation,Function.update_of_ne h,statusOf]

theorem created_status_self : statusOf (created o opId dependsOn) opId = some .pending := by
  rw [statusOf,created_operation,Function.update_self,Option.map_some]

theorem created_linked (h : Linked o) (hnone : o.operation opId = none) (dependsOn : List Text) :
    Linked (created o opId dependsOn) := by
  intro d x
  have hmem : x ∈ (created o opId dependsOn).dependentsOf d ↔
      x ∈ o.dependentsOf d ∨ x = opId ∧ d ∈ dependsOn :=
    mem_addDependents dependsOn (o.write opId ⟨opId,.pending,dependsOn⟩)
  rw [hmem,created_operation,h d x]
  by_cases hx : x = opId
  · rw [hx,hnone,Function.update_self]
    simp
  · simp [hx]

theorem created_consistent_iff (h : Consistent o) (hnone : o.operation opId = none)
    (dependsOn : List Text) :
    Consistent (created o opId dependsOn) ↔
      ∀ d ∈ dependsOn, statusOf o d ≠ some .cancelled := by
  have hself : (created o opId dependsOn).operation opId = some ⟨opId,.pending,dependsOn⟩ := by
    rw [created_operation,Function.update_self]
  have hstatus (d : Text) (s : OperationStatus) (hs : s ≠ .pending) :
      statusOf (created o opId dependsOn) d = some s ↔ statusOf o d = some s := by
    by_cases hd : d = opId
    · rw [hd,created_status_self,statusOf,hnone]
      simp [hs.symm]
    · rw [created_status_of_ne dependsOn hd]
  constructor
  · intro hnext d hd hcancelled
    have hpending := hnext.cancelled opId _ hself d hd ((hstatus d _ (by decide)).2 hcancelled)
    cases hpending
  · intro hdeps
    have hcases (x : Text) (op : Operation)
        (hop : (created o opId dependsOn).operation x = some op) :
        op = ⟨opId,.pending,dependsOn⟩ ∨ o.operation x = some op := by
      rw [created_operation] at hop
      rcases stored_of_update hop with ⟨-,hop⟩ | hop
      · exact .inl hop
      · exact .inr hop
    constructor
    · intro x op hop hexecuted d hd
      rcases hcases x op hop with rfl | hop
      · cases hexecuted
      · exact (hstatus d _ (by decide)).2 (h.executed x op hop hexecuted d hd)
    · intro x op hop d hd hcancelled
      rw [hstatus d _ (by decide)] at hcancelled
      rcases hcases x op hop with rfl | hop
      · exact absurd hcancelled (hdeps d hd)
      · exact h.cancelled x op hop d hd hcancelled

theorem created_keepsExecuted (hnone : o.operation opId = none) (dependsOn : List Text) :
    KeepsExecuted o (created o opId dependsOn) := by
  intro x hx
  have hne : x ≠ opId := by
    rintro rfl
    simp [statusOf,hnone] at hx
  rwa [created_status_of_ne dependsOn hne]

theorem executed_consistent (h : Consistent o) {op : Operation}
    (hdeps : ∀ d ∈ op.dependsOn, statusOf o d = some .executed) :
    Consistent (o.write opId { op with status := .executed }) ∧
      KeepsExecuted o (o.write opId { op with status := .executed }) := by
  have hkeeps : KeepsExecuted o (o.write opId { op with status := .executed }) := by
    intro x hx
    by_cases hxop : x = opId
    · rw [hxop,statusOf_write_self]
    · rwa [statusOf_write_of_ne hxop]
  refine ⟨⟨fun x q hq hexecuted d hd => ?_,fun x q hq d hd hcancelled => ?_⟩,hkeeps⟩
  · rcases stored_of_update hq with ⟨-,rfl⟩ | hq
    · exact hkeeps d (hdeps d hd)
    · exact hkeeps d (h.executed x q hq hexecuted d hd)
  · have hne : d ≠ opId := by
      rintro rfl
      rw [statusOf_write_self] at hcancelled
      cases hcancelled
    rw [statusOf_write_of_ne hne] at hcancelled
    rcases stored_of_update hq with ⟨-,rfl⟩ | hq
    · rw [hdeps d hd] at hcancelled
      cases hcancelled
    · exact h.cancelled x q hq d hd hcancelled

theorem Marked.statusOf_eq (h : Marked o m w) (x : Text) :
    statusOf w.store.operations x =
      (statusOf o x).map fun s => if x ∈ m then .cancelled else s := by
  rw [statusOf,h.operation,statusOf,Option.map_map,Option.map_map]
  congr 1
  funext op
  by_cases hx : x ∈ m <;> simp [hx]

def cascade (o : Operations) (opId : Text) : Finset Text :=
  mark o.dependentsOf (o.keys.card + 1) (cancelled o) opId

theorem cascade_closed (hlinked : Linked o) (hroot : opId ∈ o.keys) {d x : Text} {op : Operation}
    (hd : d ∈ cascade o opId) (hnew : d ∉ cancelled o) (hop : o.operation x = some op)
    (hdep : d ∈ op.dependsOn) : x ∈ cascade o opId := by
  have hkeys : ∀ x ∈ o.keys, ∀ y ∈ o.dependentsOf x, y ∈ o.keys := by
    intro x _ y hy
    obtain ⟨op,hop,-⟩ := (hlinked x y).1 hy
    exact mem_keys_of_some hop
  have hcard : (o.keys \ cancelled o).card ≤ o.keys.card :=
    Finset.card_le_card Finset.sdiff_subset
  exact mark_closed hkeys hroot (by omega) d hd hnew x ((hlinked d x).2 ⟨op,hop,hdep⟩)

theorem cascade_unexecuted (hlinked : Linked o) (h : Consistent o)
    (hroot : statusOf o opId ≠ some .executed) :
    ∀ x ∈ cascade o opId, statusOf o x ≠ some .executed := by
  refine mark_induct (fun x hx y hy hexecuted => ?_) hroot fun x hx => ?_
  · obtain ⟨op,hop,hdep⟩ := (hlinked x y).1 hy
    rw [statusOf_of_some hop,Option.some.injEq] at hexecuted
    exact hx (h.executed y op hop hexecuted x hdep)
  · rw [mem_cancelled] at hx
    simp [hx]

theorem cancelled_linked (h : Linked o) (hw : Marked o m w) : Linked w.store.operations := by
  refine linked_congr h hw.dependents fun x => ?_
  rw [hw.operation,Option.map_map]
  congr 1
  funext op
  by_cases hx : x ∈ m <;> simp [hx]

theorem cancelled_keepsExecuted_iff (hlinked : Linked o) (h : Consistent o)
    (hw : Marked o (cascade o opId) w) :
    KeepsExecuted o w.store.operations ↔ statusOf o opId ≠ some .executed := by
  constructor
  · intro hkeeps hroot
    have hafter := hkeeps opId hroot
    have hself : opId ∈ cascade o opId := mem_mark_self
    rw [Marked.statusOf_eq hw,hroot,Option.map_some,if_pos hself] at hafter
    cases hafter
  · intro hroot x hx
    have hout : x ∉ cascade o opId := fun hmem => cascade_unexecuted hlinked h hroot x hmem hx
    rw [Marked.statusOf_eq hw,hx,Option.map_some,if_neg hout]

theorem cancelled_consistent (hlinked : Linked o) (h : Consistent o) (hkey : opId ∈ o.keys)
    (hroot : statusOf o opId ≠ some .executed) (hw : Marked o (cascade o opId) w) :
    Consistent w.store.operations := by
  have hkeeps := (cancelled_keepsExecuted_iff hlinked h hw).2 hroot
  have hsub : cancelled o ⊆ cascade o opId := subset_mark
  constructor
  · intro x op hop hexecuted d hd
    obtain ⟨op₀,hop₀,rfl⟩ := hw.found hop
    by_cases hx : x ∈ cascade o opId
    · simp [hx] at hexecuted
    · rw [if_neg hx] at hexecuted hd
      exact hkeeps d (h.executed x op₀ hop₀ hexecuted d hd)
  · intro x op hop d hd hcancelled
    rw [hw.mem_of_cancelled hsub hop]
    obtain ⟨op₀,hop₀,rfl⟩ := hw.found hop
    have hdep : d ∈ op₀.dependsOn := by
      by_cases hx : x ∈ cascade o opId
      · simpa [hx] using hd
      · rwa [if_neg hx] at hd
    by_cases hbefore : d ∈ cancelled o
    · have hstatus := h.cancelled x op₀ hop₀ d hdep (mem_cancelled.1 hbefore)
      apply hsub
      rw [mem_cancelled,statusOf_of_some hop₀,hstatus]
    · refine cascade_closed hlinked hkey ?_ hbefore hop₀ hdep
      by_contra hout
      rw [Marked.statusOf_eq hw] at hcancelled
      simp only [hout,if_false,Option.map_id'] at hcancelled
      exact hbefore (mem_cancelled.2 hcancelled)

/-- What one step keeps, and when it keeps what is claimed of the statuses. -/
theorem execOperation_iff {st : Store} (t : OperationTx) (hlinked : Linked st.operations)
    (h : Consistent st.operations) :
    Linked (execOperation st t).operations ∧
      ((Consistent (execOperation st t).operations ∧
        KeepsExecuted st.operations (execOperation st t).operations) ↔ Ordered st t) := by
  obtain ⟨env,act⟩ := t
  cases act with
  | elsewhere rest => exact ⟨hlinked,iff_of_true ⟨h,fun _ hx => hx⟩ trivial⟩
  | call call =>
    cases hrun : failure call.body env st with
    | some e =>
      have hsame : execOperation st ⟨env,.call call⟩ = st := invoke_of_failure hrun
      rw [hsame]
      refine ⟨hlinked,iff_of_true ⟨h,fun _ hx => hx⟩ ?_⟩
      cases call with
      | execute opId => trivial
      | _ =>
        intro hnone
        rw [hrun] at hnone
        cases hnone
    | none =>
      cases call with
      | create opId dependsOn =>
        obtain ⟨hnone,hnext⟩ := invoke_of_success (Q := fun u =>
          st.operations.operation opId = none ∧ u.operations = created st.operations opId dependsOn)
          hrun ((sat_asAdmin _).2 fun admin _ _ => createOperation_sat dependsOn)
        change (execOperation st ⟨env,.call (.create opId dependsOn)⟩).operations = _ at hnext
        rw [hnext,created_consistent_iff h hnone]
        refine ⟨created_linked hlinked hnone dependsOn,?_⟩
        rw [and_iff_left (created_keepsExecuted hnone dependsOn)]
        exact ⟨fun hdeps _ => hdeps,fun hordered => hordered hrun⟩
      | execute opId =>
        obtain ⟨op,hop,-,hdeps,hnext⟩ := invoke_of_success (Q := fun u => ∃ op,
          st.operations.operation opId = some op ∧ op.status = .pending ∧
            (∀ d ∈ op.dependsOn, statusOf st.operations d = some .executed) ∧
            u.operations = st.operations.write opId { op with status := .executed })
          hrun ((sat_asAdmin _).2 fun admin _ _ => executeOperation_sat)
        change (execOperation st ⟨env,.call (.execute opId)⟩).operations = _ at hnext
        rw [hnext]
        refine ⟨linked_congr hlinked rfl fun x => ?_,iff_of_true (executed_consistent h hdeps) trivial⟩
        by_cases hx : x = opId
        · rw [hx,hop]
          simp [write]
        · simp [write,hx]
      | cancel opId =>
        obtain ⟨hkey,w,hw,hnext⟩ := invoke_of_success (Q := fun u =>
          opId ∈ st.operations.keys ∧ ∃ w : World,
            Marked st.operations (cascade st.operations opId) w ∧ u.operations = w.store.operations)
          hrun ((sat_asAdmin _).2 fun admin _ _ =>
            (cancelOperation_sat).mono fun _ w hw => ⟨hw.1,w,hw.2,rfl⟩)
        change (execOperation st ⟨env,.call (.cancel opId)⟩).operations = _ at hnext
        rw [hnext,cancelled_keepsExecuted_iff hlinked h hw]
        refine ⟨cancelled_linked hlinked hw,?_⟩
        constructor
        · rintro ⟨-,hroot⟩ -
          exact hroot
        · intro hordered
          have hroot := hordered hrun
          exact ⟨cancelled_consistent hlinked h hkey hroot hw,hroot⟩

theorem cancel_terminates (st : Store) (t : OperationTx) : Terminates st t := by
  obtain ⟨env,act⟩ := t
  cases act with
  | elsewhere rest => trivial
  | call call =>
    cases call with
    | cancel opId =>
      intro n hn htrap
      have hcard : (st.operations.keys \ cancelled st.operations).card ≤ st.operations.keys.card :=
        Finset.card_le_card Finset.sdiff_subset
      refine failure_of_fails (E := fun e => e ≠ .hostTrap) htrap
        (cancelWithin_ends (w := World.enter env st) marked_start le_rfl ?_) rfl
      exact hcard.trans_lt hn
    | _ => trivial

end Steps

/-- Whatever the operations depend on and in whatever order they are created, executed and
cancelled, every cancellation ends; the statuses follow the dependencies, and what is executed stays
so, exactly if nothing is created over a cancelled dependency and nothing executed is cancelled. -/
theorem statuses_consistent_iff {st : Store} (ts : List OperationTx) (hstart : st.operations = {}) :
    (∀ x ∈ steps execOperation st ts, Terminates x.1 x.2 ∧
      Consistent (execOperation x.1 x.2).operations ∧
      KeepsExecuted x.1.operations (execOperation x.1 x.2).operations) ↔
      ∀ x ∈ steps execOperation st ts, Ordered x.1 x.2 := by
  refine steps_iff_while (I := fun s => Linked s.operations ∧ Consistent s.operations)
    (P := fun s t => Terminates s t ∧ Consistent (execOperation s t).operations ∧
      KeepsExecuted s.operations (execOperation s t).operations)
    (C := Ordered) ?_ ?_ ?_
  · intro t _ s hs hP
    exact ⟨(execOperation_iff t hs.1 hs.2).1,hP.2.1⟩
  · intro t _ s hs
    rw [and_iff_right (cancel_terminates s t)]
    exact (execOperation_iff t hs.1 hs.2).2
  · rw [hstart]
    refine ⟨fun d x => ?_,fun x op hop => ?_,fun x op hop => ?_⟩
    · simp [dependentsOf]
    · cases hop
    · cases hop

/-- An operation over a cancelled one, and an executed one that is cancelled. -/
def lateRun : List OperationTx :=
  [⟨.concrete 100 5 [9], .call (.create [97] [])⟩, ⟨.concrete 101 6 [9], .call (.cancel [97])⟩,
    ⟨.concrete 102 7 [9], .call (.create [98] [[97]])⟩]

def revokedRun : List OperationTx :=
  [⟨.concrete 100 5 [9], .call (.create [97] [])⟩, ⟨.concrete 101 6 [9], .call (.execute [97])⟩,
    ⟨.concrete 102 7 [9], .call (.cancel [97])⟩]

def operationStore : Store where
  config := { admin := some 9 }

theorem statuses_inconsistent :
    (statusOf (run execOperation operationStore lateRun).operations [97] = some .cancelled ∧
      statusOf (run execOperation operationStore lateRun).operations [98] = some .pending ∧
      statusOf (run execOperation operationStore (revokedRun.take 2)).operations [97] =
        some .executed ∧
      statusOf (run execOperation operationStore revokedRun).operations [97] = some .cancelled) ∧
      ¬∀ x ∈ steps execOperation operationStore lateRun, Terminates x.1 x.2 ∧
        Consistent (execOperation x.1 x.2).operations ∧
        KeepsExecuted x.1.operations (execOperation x.1 x.2).operations := by
  refine ⟨by decide +kernel,fun h => ?_⟩
  have hlast := (h (run execOperation operationStore (lateRun.take 2),
    ⟨.concrete 102 7 [9],.call (.create [98] [[97]])⟩) (by simp [lateRun])).2.1
  have hstatus := hlast.cancelled [98] ⟨[98],.pending,[[97]]⟩ (by decide +kernel) [97] (by simp)
    (by decide +kernel)
  cases hstatus

/-- A cycle, a repeated dependency and one that is created later. -/
def tangledRun : List OperationTx :=
  [⟨.concrete 100 5 [9], .call (.create [97] [[98], [97], [98]])⟩,
    ⟨.concrete 101 6 [9], .call (.create [98] [[97]])⟩,
    ⟨.concrete 102 7 [9], .call (.create [99] [])⟩,
    ⟨.concrete 103 8 [9], .call (.execute [99])⟩, ⟨.concrete 104 9 [9], .call (.cancel [98])⟩]

theorem tangled_consistent :
    ((∀ x ∈ steps execOperation operationStore tangledRun, Terminates x.1 x.2 ∧
      Consistent (execOperation x.1 x.2).operations ∧
      KeepsExecuted x.1.operations (execOperation x.1 x.2).operations) ↔
      ∀ x ∈ steps execOperation operationStore tangledRun, Ordered x.1 x.2) ∧
      statusOf (run execOperation operationStore tangledRun).operations [97] = some .cancelled :=
  ⟨statuses_consistent_iff tangledRun rfl,by decide +kernel⟩

end PriceOracle.Dependencies
