import Mathlib.Order.Defs.Unbundled
import Mathlib.Tactic.SplitIfs

/-! # Transactions

A transaction reads and writes a state and either returns a value or panics; the state reached is
kept in both outcomes, so that a host can be seen to discard the writes of a panicking call.
`Sat` is the partial-correctness predicate for successful runs, with one rule for each way of
building a transaction, and `Preserves` is its relational form for preorders on states. -/

namespace PriceOracle.Lib.Transaction

abbrev Tx (ε σ : Type) := EStateM ε σ

variable {ε σ α β : Type}

def inspect (f : σ → α) : Tx ε σ α := fun s => .ok (f s) s

def update (f : σ → σ) : Tx ε σ Unit := fun s => .ok () (f s)

def abort (e : ε) : Tx ε σ α := fun s => .error e s

def ensure (p : Prop) [Decidable p] (e : ε) : Tx ε σ Unit := if p then pure () else abort e

/-- A read that may panic and writes nothing. -/
def consult (f : σ → Except ε α) : Tx ε σ α := fun s =>
  match f s with
  | .ok a => .ok a s
  | .error e => .error e s

/-- The state the host keeps: the writes of a panicking transaction are discarded. -/
def commit (m : Tx ε σ α) (s : σ) : σ :=
  match m s with
  | .ok _ s' => s'
  | .error _ _ => s

/-- Every successful run of `m` from `s` ends in a result satisfying `Q`. -/
def Sat (m : Tx ε σ α) (s : σ) (Q : α → σ → Prop) : Prop :=
  ∀ a s', m s = .ok a s' → Q a s'

section Rules

variable {m : Tx ε σ α} {s : σ} {Q R : α → σ → Prop} {f : β → Tx ε σ PUnit} {xs : List β} {a : α}
  {o : Option α} {I : σ → Prop} {s' : σ}

theorem Sat.mono (h : Sat m s Q) (hQR : ∀ a s', Q a s' → R a s') : Sat m s R :=
  fun a s' hrun => hQR a s' (h a s' hrun)

theorem Sat.and (hQ : Sat m s Q) (hR : Sat m s R) : Sat m s fun a s' => Q a s' ∧ R a s' :=
  fun a s' hrun => ⟨hQ a s' hrun,hR a s' hrun⟩

@[simp] theorem sat_pure (a : α) : Sat (pure a : Tx ε σ α) s Q ↔ Q a s := by
  constructor
  · intro h
    exact h a s rfl
  · rintro h _ _ ⟨⟩
    exact h

@[simp] theorem sat_bind (f : α → Tx ε σ β) (Q : β → σ → Prop) :
    Sat (m >>= f) s Q ↔ Sat m s fun a s' => Sat (f a) s' Q := by
  change Sat (EStateM.bind m f) s Q ↔ _
  unfold Sat EStateM.bind
  cases hm : m s with
  | ok a s' =>
    constructor
    · rintro h _ _ ⟨⟩ b t ht
      exact h b t ht
    · intro h b t ht
      exact h a s' rfl b t ht
  | error e s' => simp

theorem Sat.andThen {f : α → Tx ε σ β} {Q' : β → σ → Prop} (hm : Sat m s Q)
    (hf : ∀ a s', Q a s' → Sat (f a) s' Q') : Sat (m >>= f) s Q' :=
  (sat_bind f Q').2 (hm.mono hf)

@[simp] theorem sat_map (f : α → β) (Q : β → σ → Prop) :
    Sat (f <$> m) s Q ↔ Sat m s fun a s' => Q (f a) s' := by
  change Sat (EStateM.map f m) s Q ↔ _
  unfold Sat EStateM.map
  cases hm : m s with
  | ok a s' =>
    constructor
    · rintro h _ _ ⟨⟩
      exact h (f a) s' rfl
    · rintro h _ _ ⟨⟩
      exact h a s' rfl
  | error e s' => simp

@[simp] theorem sat_inspect (f : σ → α) : Sat (inspect f : Tx ε σ α) s Q ↔ Q (f s) s := by
  constructor
  · intro h
    exact h (f s) s rfl
  · rintro h _ _ ⟨⟩
    exact h

@[simp] theorem sat_update (f : σ → σ) (Q : Unit → σ → Prop) :
    Sat (update f : Tx ε σ Unit) s Q ↔ Q () (f s) := by
  constructor
  · intro h
    exact h () (f s) rfl
  · rintro h _ _ ⟨⟩
    exact h

@[simp] theorem sat_abort (e : ε) : Sat (abort e : Tx ε σ α) s Q := by
  rintro _ _ ⟨⟩

@[simp] theorem sat_ensure (p : Prop) [Decidable p] (e : ε) (Q : Unit → σ → Prop) :
    Sat (ensure p e : Tx ε σ Unit) s Q ↔ (p → Q () s) := by
  unfold ensure
  by_cases hp : p <;> simp [hp]

@[simp] theorem sat_consult (f : σ → Except ε α) :
    Sat (consult f : Tx ε σ α) s Q ↔ ∀ a, f s = .ok a → Q a s := by
  unfold Sat consult
  cases f s with
  | ok a =>
    constructor
    · rintro h _ ⟨⟩
      exact h a s rfl
    · rintro h _ _ ⟨⟩
      exact h a rfl
  | error e => simp

theorem found_of_ok {x : Except ε α} (ho : x.toOption = o) (hx : x = .ok a) : o = some a := by
  rw [← ho,hx]
  rfl

theorem sat_lookup {f : σ → Except ε α} (ho : (f s).toOption = o) :
    Sat (consult f) s fun a s' => o = some a ∧ s' = s := by
  rw [sat_consult]
  intro a ha
  exact ⟨found_of_ok ho ha,rfl⟩

theorem sat_ite (p : Prop) [Decidable p] {m' : Tx ε σ α}
    (ht : p → Sat m s Q) (hf : ¬p → Sat m' s Q) : Sat (if p then m else m') s Q := by
  split_ifs with hp
  · exact ht hp
  · exact hf hp

theorem sat_forM (hf : ∀ x ∈ xs, ∀ t, I t → Sat (f x) t fun _ t' => I t') (hs : I s) :
    Sat (forM xs f) s fun _ t => I t := by
  induction xs generalizing s with
  | nil => simpa using hs
  | cons x xs ih =>
    rw [List.forM_cons,sat_bind]
    refine (hf x (by simp) s hs).mono fun _ t ht => ?_
    exact ih (fun y hy => hf y (by simp [hy])) ht

/-- A loop that establishes `P` of each element, under an invariant, establishes it of all. -/
theorem sat_forM_all {P : β → Prop}
    (hf : ∀ x ∈ xs, ∀ t, I t → Sat (f x) t fun _ t' => I t' ∧ P x) (hs : I s) :
    Sat (forM xs f) s fun _ t => I t ∧ ∀ x ∈ xs, P x := by
  induction xs generalizing s with
  | nil => simpa using hs
  | cons x xs ih =>
    rw [List.forM_cons,sat_bind]
    refine (hf x (by simp) s hs).mono fun _ t ht => ?_
    refine (ih (fun y hy => hf y (by simp [hy])) ht.1).mono fun _ u hu => ?_
    exact ⟨hu.1,List.forall_mem_cons.2 ⟨ht.2,hu.2⟩⟩

/-- A view of the state that each iteration of a loop moves by `step` moves along the whole list. -/
theorem sat_forM_view {γ : Type} (g : σ → γ) (step : γ → β → γ)
    (hf : ∀ x ∈ xs, ∀ t, Sat (f x) t fun _ t' => g t' = step (g t) x)
    (s : σ) : Sat (forM xs f) s fun _ s' => g s' = xs.foldl step (g s) := by
  induction xs generalizing s with
  | nil => exact (sat_pure _).2 rfl
  | cons x xs ih =>
    rw [List.forM_cons,sat_bind,List.foldl_cons]
    refine (hf x List.mem_cons_self s).mono fun _ t ht => ?_
    rw [← ht]
    exact ih (fun y hy => hf y (List.mem_cons_of_mem x hy)) t

theorem sat_foldlM {I : α → σ → Prop} {f : α → β → Tx ε σ α}
    (hf : ∀ x ∈ xs, ∀ b t, I b t → Sat (f b x) t I) (hs : I a s) : Sat (xs.foldlM f a) s I := by
  induction xs generalizing a s with
  | nil => simpa using hs
  | cons x xs ih =>
    rw [List.foldlM_cons,sat_bind]
    refine (hf x (by simp) a s hs).mono fun b t ht => ?_
    exact ih (fun y hy => hf y (by simp [hy])) ht

theorem sat_of_ok (h : m s = .ok a s') : Sat m s Q ↔ Q a s' := by
  constructor
  · intro hm
    exact hm a s' h
  · intro hQ b t ht
    rw [h] at ht
    cases ht
    exact hQ

theorem bind_of_ok (h : m s = .ok a s') (f : α → Tx ε σ β) : (m >>= f) s = f a s' := by
  change EStateM.bind m f s = f a s'
  unfold EStateM.bind
  rw [h]

end Rules

/-- Every panic of `m` from `s` raises an error, in a state, satisfying `E`. -/
def Fails (m : Tx ε σ α) (s : σ) (E : ε → σ → Prop) : Prop :=
  ∀ e s', m s = .error e s' → E e s'

section Failures

variable {m : Tx ε σ α} {s : σ} {E F : ε → σ → Prop}

theorem Fails.mono (h : Fails m s E) (hEF : ∀ e s', E e s' → F e s') : Fails m s F :=
  fun e s' hrun => hEF e s' (h e s' hrun)

@[simp] theorem fails_pure (a : α) : Fails (pure a : Tx ε σ α) s E := by
  rintro _ _ ⟨⟩

@[simp] theorem fails_bind (f : α → Tx ε σ β) :
    Fails (m >>= f) s E ↔ Fails m s E ∧ Sat m s fun a s' => Fails (f a) s' E := by
  change Fails (EStateM.bind m f) s E ↔ _
  unfold Fails Sat EStateM.bind
  cases hm : m s with
  | ok a s' =>
    constructor
    · intro h
      refine ⟨by simp,?_⟩
      rintro _ _ ⟨⟩ e t ht
      exact h e t ht
    · rintro ⟨-,h⟩ e t ht
      exact h a s' rfl e t ht
  | error e s' => simp

@[simp] theorem fails_inspect (f : σ → α) : Fails (inspect f : Tx ε σ α) s E := by
  rintro _ _ ⟨⟩

@[simp] theorem fails_update (f : σ → σ) : Fails (update f : Tx ε σ Unit) s E := by
  rintro _ _ ⟨⟩

@[simp] theorem fails_abort (e : ε) : Fails (abort e : Tx ε σ α) s E ↔ E e s := by
  constructor
  · intro h
    exact h e s rfl
  · rintro h _ _ ⟨⟩
    exact h

@[simp] theorem fails_ensure (p : Prop) [Decidable p] (e : ε) :
    Fails (ensure p e : Tx ε σ Unit) s E ↔ (¬p → E e s) := by
  unfold ensure
  by_cases hp : p <;> simp [hp]

@[simp] theorem fails_consult (f : σ → Except ε α) :
    Fails (consult f : Tx ε σ α) s E ↔ ∀ e, f s = .error e → E e s := by
  unfold Fails consult
  cases f s with
  | ok a => simp
  | error e =>
    constructor
    · rintro h _ ⟨⟩
      exact h e s rfl
    · rintro h _ _ ⟨⟩
      exact h e rfl

theorem fails_lookup {f : σ → Except ε α} {o : Option α} (ho : (f s).toOption = o) :
    Fails (consult f) s fun _ _ => o = none := by
  rw [fails_consult]
  intro e he
  rw [← ho,he]
  rfl

theorem fails_ite (p : Prop) [Decidable p] {m' : Tx ε σ α}
    (ht : p → Fails m s E) (hf : ¬p → Fails m' s E) : Fails (if p then m else m') s E := by
  split_ifs with hp
  · exact ht hp
  · exact hf hp

theorem fails_of_ok {a : α} {s' : σ} (h : m s = .ok a s') : Fails m s E := by
  intro e t ht
  rw [h] at ht
  cases ht

end Failures

section Commit

variable {m : Tx ε σ α} {s : σ}

theorem commit_of_sat {P : σ → Prop} (hs : P s) (hm : Sat m s fun _ s' => P s') :
    P (commit m s) := by
  unfold commit
  cases h : m s with
  | ok a s' => exact hm a s' h
  | error e s' => exact hs

theorem commit_of_ok {a : α} {s' : σ} (h : m s = .ok a s') : commit m s = s' := by
  simp [commit,h]

end Commit

section Success

variable {I : σ → Prop} {m : Tx ε σ α} {xs : List β}

/-- From every state in `I`, `m` does not panic and stays in `I`. -/
def Succeeds (I : σ → Prop) (m : Tx ε σ α) : Prop := ∀ s, I s → ∃ a s', m s = .ok a s' ∧ I s'

theorem succeeds_pure (a : α) : Succeeds I (pure a : Tx ε σ α) :=
  fun s hs => ⟨a,s,rfl,hs⟩

theorem succeeds_inspect (f : σ → α) : Succeeds I (inspect f : Tx ε σ α) :=
  fun s hs => ⟨f s,s,rfl,hs⟩

theorem succeeds_update {f : σ → σ} (h : ∀ s, I s → I (f s)) :
    Succeeds I (update f : Tx ε σ Unit) :=
  fun s hs => ⟨(),f s,rfl,h s hs⟩

theorem succeeds_ensure {p : Prop} [Decidable p] (e : ε) (h : p) :
    Succeeds I (ensure p e : Tx ε σ Unit) := by
  unfold ensure
  rw [if_pos h]
  exact succeeds_pure ()

theorem succeeds_consult {f : σ → Except ε α} (h : ∀ s, I s → ∃ a, f s = .ok a) :
    Succeeds I (consult f : Tx ε σ α) := by
  intro s hs
  obtain ⟨a,ha⟩ := h s hs
  refine ⟨a,s,?_,hs⟩
  unfold consult
  rw [ha]

theorem Succeeds.bind {f : α → Tx ε σ β} (hm : Succeeds I m)
    (hf : ∀ a, Succeeds I (f a)) : Succeeds I (m >>= f) := by
  intro s hs
  obtain ⟨a,t,ht,hIt⟩ := hm s hs
  rw [bind_of_ok ht]
  exact hf a t hIt

theorem Succeeds.read {f : σ → α} {k : α → Tx ε σ β} (h : ∀ a, Succeeds I (k a)) :
    Succeeds I (inspect f >>= k) :=
  (succeeds_inspect f).bind h

theorem Succeeds.within {J : σ → Prop} (h : Succeeds J m) (hIJ : ∀ s, I s → J s)
    (hkeep : ∀ s, I s → Sat m s fun _ s' => I s') : Succeeds I m := by
  intro s hs
  obtain ⟨a,t,ht,-⟩ := h s (hIJ s hs)
  exact ⟨a,t,ht,hkeep s hs a t ht⟩

theorem succeeds_of_fails (hfails : ∀ s, I s → Fails m s fun _ _ => False)
    (hkeep : ∀ s, I s → Sat m s fun _ s' => I s') : Succeeds I m := by
  intro s hs
  cases hrun : m s with
  | ok a t => exact ⟨a,t,rfl,hkeep s hs a t hrun⟩
  | error e t => exact (hfails s hs e t hrun).elim

theorem Succeeds.fails (h : Succeeds I m) {s : σ} (hs : I s) (E : ε → σ → Prop) : Fails m s E := by
  obtain ⟨a,t,ht,-⟩ := h s hs
  exact fails_of_ok ht

theorem succeeds_ite (p : Prop) [Decidable p] {m m' : Tx ε σ α} (ht : Succeeds I m)
    (hf : Succeeds I m') : Succeeds I (if p then m else m') := by
  split_ifs
  · exact ht
  · exact hf

theorem succeeds_read {f : σ → α} {k : α → Tx ε σ β} (v : α) (hf : ∀ s, I s → f s = v)
    (hk : Succeeds I (k v)) : Succeeds I (inspect f >>= k) := by
  intro s hs
  rw [bind_of_ok (show (inspect f : Tx ε σ α) s = .ok (f s) s from rfl),hf s hs]
  exact hk s hs

theorem succeeds_forM {f : β → Tx ε σ PUnit} (hf : ∀ x ∈ xs, Succeeds I (f x)) :
    Succeeds I (forM xs f) := by
  induction xs with
  | nil => exact succeeds_pure _
  | cons x xs ih =>
    exact (hf x List.mem_cons_self).bind fun _ => ih fun y hy => hf y (List.mem_cons_of_mem x hy)

theorem succeeds_foldlM {f : α → β → Tx ε σ α} (hf : ∀ a x, Succeeds I (f a x))
    (a : α) : Succeeds I (xs.foldlM f a) := by
  induction xs generalizing a with
  | nil => exact succeeds_pure a
  | cons x xs ih =>
    exact (hf a x).bind ih

end Success

section Relational

variable {R : σ → σ → Prop}

/-- Every successful run moves the state along `R`. -/
def Preserves (R : σ → σ → Prop) (m : Tx ε σ α) : Prop :=
  ∀ s, Sat m s fun _ s' => R s s'

theorem Preserves.weaken {R' : σ → σ → Prop} {m : Tx ε σ α} (h : Preserves R m)
    (hR : ∀ s s', R s s' → R' s s') : Preserves R' m :=
  fun s => (h s).mono fun _ s' hs => hR s s' hs

theorem preserves_abort (e : ε) : Preserves R (abort e : Tx ε σ α) :=
  fun _ => sat_abort e

theorem preserves_ite (p : Prop) [Decidable p] {m m' : Tx ε σ α} (ht : Preserves R m)
    (hf : Preserves R m') : Preserves R (if p then m else m') := by
  split_ifs
  · exact ht
  · exact hf

theorem preserves_update {f : σ → σ} (h : ∀ s, R s (f s)) :
    Preserves R (update f : Tx ε σ Unit) :=
  fun s => (sat_update f _).2 (h s)

variable [Std.Refl R]

theorem preserves_pure (a : α) : Preserves R (pure a : Tx ε σ α) :=
  fun s => (sat_pure a).2 (Std.Refl.refl s)

theorem preserves_inspect (f : σ → α) : Preserves R (inspect f : Tx ε σ α) :=
  fun s => (sat_inspect f).2 (Std.Refl.refl s)

theorem preserves_consult (f : σ → Except ε α) : Preserves R (consult f : Tx ε σ α) :=
  fun s => (sat_consult f).2 fun _ _ => Std.Refl.refl s

theorem preserves_ensure (p : Prop) [Decidable p] (e : ε) :
    Preserves R (ensure p e : Tx ε σ Unit) :=
  fun s => (sat_ensure p e _).2 fun _ => Std.Refl.refl s

variable [IsTrans σ R]

omit [Std.Refl R] in
theorem Preserves.bind {m : Tx ε σ α} {f : α → Tx ε σ β} (hm : Preserves R m)
    (hf : ∀ a, Preserves R (f a)) : Preserves R (m >>= f) := by
  intro s
  rw [sat_bind]
  refine (hm s).mono fun a t hst => (hf a t).mono fun _ u htu => ?_
  exact IsTrans.trans s t u hst htu

theorem Preserves.read {f : σ → α} {k : α → Tx ε σ β} (h : ∀ a, Preserves R (k a)) :
    Preserves R (inspect f >>= k) :=
  (preserves_inspect f).bind h

theorem Preserves.lookup {f : σ → Except ε α} {k : α → Tx ε σ β} (h : ∀ a, Preserves R (k a)) :
    Preserves R (consult f >>= k) :=
  (preserves_consult f).bind h

theorem Preserves.check {p : Prop} [Decidable p] {e : ε} {k : Unit → Tx ε σ β}
    (h : ∀ u, Preserves R (k u)) : Preserves R (ensure p e >>= k) :=
  (preserves_ensure p e).bind h

omit [Std.Refl R] in
theorem Preserves.from {m : Tx ε σ α} {s t : σ} (hm : Preserves R m) (hst : R s t) :
    Sat m t fun _ u => R s u :=
  (hm t).mono fun _ u htu => IsTrans.trans s t u hst htu

theorem preserves_forM {xs : List β} {f : β → Tx ε σ PUnit} (hf : ∀ x ∈ xs, Preserves R (f x)) :
    Preserves R (forM xs f) := by
  intro s
  refine sat_forM (I := fun t => R s t) (fun x hx t hst => ?_) (Std.Refl.refl s)
  exact (hf x hx t).mono fun _ u htu => IsTrans.trans s t u hst htu

theorem preserves_foldlM {xs : List β} {f : α → β → Tx ε σ α}
    (hf : ∀ x ∈ xs, ∀ a, Preserves R (f a x)) (a : α) : Preserves R (xs.foldlM f a) := by
  intro s
  refine sat_foldlM (I := fun _ t => R s t) (fun x hx b t hst => ?_) (Std.Refl.refl s)
  exact (hf x hx b t).mono fun _ u htu => IsTrans.trans s t u hst htu

/-- A loop whose iterations compute `g`, as long as the state has only moved along `R`, computes
the fold of `g`. -/
theorem sat_foldlM_eq {xs : List β} {f : α → β → Tx ε σ α} {g : α → β → α} {s : σ} (a : α)
    (hf : ∀ a x t, R s t → Sat (f a x) t fun b u => b = g a x ∧ R t u) :
    Sat (xs.foldlM f a) s fun b t => b = xs.foldl g a ∧ R s t := by
  have hloop (ys : List β) (b : α) (t : σ) (hst : R s t) :
      Sat (ys.foldlM f b) t fun c u => c = ys.foldl g b ∧ R s u := by
    induction ys generalizing b t with
    | nil => exact (sat_pure b).2 ⟨rfl,hst⟩
    | cons y ys ih =>
      rw [List.foldlM_cons,sat_bind]
      refine (hf b y t hst).mono fun c u hcu => ?_
      rw [hcu.1,List.foldl_cons]
      exact ih (g b y) u (IsTrans.trans s t u hst hcu.2)
  exact hloop xs a s (Std.Refl.refl s)

end Relational

end PriceOracle.Lib.Transaction
