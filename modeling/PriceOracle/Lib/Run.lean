import Mathlib.Algebra.BigOperators.Group.List.Basic
import Mathlib.Algebra.Order.Ring.Int
import Mathlib.Data.List.Basic
import Mathlib.Data.List.Induction

/-! # Runs of a deterministic machine

A run feeds a list of inputs to `exec`. Its steps are the inputs paired with the states they meet;
a property of runs is a property of every step, derived from an invariant that one step keeps. -/

namespace PriceOracle.Lib.Run

variable {σ τ : Type} {exec : σ → τ → σ} {s : σ} {ts : List τ}

def run (exec : σ → τ → σ) (s : σ) (ts : List τ) : σ := ts.foldl exec s

/-- Each input of a run with the state it is executed in. -/
def steps (exec : σ → τ → σ) : σ → List τ → List (σ × τ)
  | _, [] => []
  | s, t :: ts => (s, t) :: steps exec (exec s t) ts

@[simp] theorem steps_nil : steps exec s [] = [] := rfl

@[simp] theorem steps_cons (t : τ) :
    steps exec s (t :: ts) = (s,t) :: steps exec (exec s t) ts := rfl

@[simp] theorem run_nil : run exec s [] = s := rfl

@[simp] theorem run_cons (t : τ) : run exec s (t :: ts) = run exec (exec s t) ts := rfl

theorem run_append (us : List τ) : run exec s (ts ++ us) = run exec (run exec s ts) us :=
  List.foldl_append

theorem steps_append (us : List τ) :
    steps exec s (ts ++ us) = steps exec s ts ++ steps exec (run exec s ts) us := by
  induction ts generalizing s with
  | nil => rfl
  | cons t ts ih => rw [List.cons_append,steps_cons,steps_cons,run_cons,ih,List.cons_append]

theorem snd_mem_of_mem_steps {x : σ × τ} (h : x ∈ steps exec s ts) : x.2 ∈ ts := by
  induction ts generalizing s with
  | nil => simp at h
  | cons t ts ih =>
    rw [steps_cons,List.mem_cons] at h
    rcases h with rfl | h
    · exact List.mem_cons_self
    · exact List.mem_cons_of_mem t (ih h)

/-- The steps of a run are its inputs, each with the state that the inputs before it reach. -/
theorem mem_steps_iff {x : σ × τ} :
    x ∈ steps exec s ts ↔ ∃ pre post, ts = pre ++ x.2 :: post ∧ x.1 = run exec s pre := by
  constructor
  · intro h
    induction ts generalizing s with
    | nil => simp at h
    | cons t ts ih =>
      rw [steps_cons,List.mem_cons] at h
      rcases h with rfl | h
      · exact ⟨[],ts,rfl,rfl⟩
      · obtain ⟨pre,post,rfl,hx⟩ := ih h
        exact ⟨t :: pre,post,rfl,hx⟩
  · rintro ⟨pre,post,rfl,hx⟩
    rw [steps_append,steps_cons,← hx]
    exact List.mem_append_right _ List.mem_cons_self

/-- If admissible steps keep `I` and meet `P`, then every step of a run of admissible steps
meets `P`, and the run ends in `I`. -/
theorem steps_satisfy {I : σ → Prop} {C P : σ → τ → Prop}
    (hstep : ∀ s t, I s → C s t → P s t ∧ I (exec s t)) (hs : I s)
    (hC : ∀ x ∈ steps exec s ts, C x.1 x.2) :
    (∀ x ∈ steps exec s ts, P x.1 x.2) ∧ I (run exec s ts) := by
  induction ts generalizing s with
  | nil => simpa using hs
  | cons t ts ih =>
    simp only [steps_cons,List.forall_mem_cons] at hC ⊢
    obtain ⟨hP,hnext⟩ := hstep s t hs hC.1
    obtain ⟨hrest,hend⟩ := ih hnext hC.2
    exact ⟨⟨hP,hrest⟩,hend⟩

theorem run_related {R : σ → σ → Prop} {C : σ → τ → Prop} (hrefl : ∀ s, R s s)
    (htrans : ∀ s t u, R s t → R t u → R s u) (hstep : ∀ s t, C s t → R s (exec s t))
    (hC : ∀ x ∈ steps exec s ts, C x.1 x.2) : R s (run exec s ts) := by
  induction ts generalizing s with
  | nil => exact hrefl s
  | cons t ts ih =>
    rw [steps_cons,List.forall_mem_cons] at hC
    exact htrans s (exec s t) _ (hstep s t hC.1) (ih hC.2)

theorem steps_related {R : σ → σ → Prop} {C : σ → τ → Prop} (hrefl : ∀ s, R s s)
    (htrans : ∀ s t u, R s t → R t u → R s u) (hstep : ∀ s t, C s t → R s (exec s t))
    (hC : ∀ x ∈ steps exec s ts, C x.1 x.2) : ∀ x ∈ steps exec s ts, R s x.1 := by
  induction ts generalizing s with
  | nil => simp
  | cons t ts ih =>
    rw [steps_cons,List.forall_mem_cons] at hC ⊢
    refine ⟨hrefl s,fun x hx => ?_⟩
    exact htrans s (exec s t) x.1 (hstep s t hC.1) (ih hC.2 x hx)

/-- What an admissible step excludes of every admissible step along the preorder after it, it
excludes of every later step of the run. -/
theorem steps_pairwise {R : σ → σ → Prop} {C : σ → τ → Prop} {Q : σ × τ → σ × τ → Prop}
    (hrefl : ∀ s, R s s) (htrans : ∀ s t u, R s t → R t u → R s u)
    (hstep : ∀ s t, C s t → R s (exec s t))
    (hQ : ∀ s t y, C s t → R (exec s t) y.1 → C y.1 y.2 → Q (s,t) y)
    (hC : ∀ x ∈ steps exec s ts, C x.1 x.2) : (steps exec s ts).Pairwise Q := by
  induction ts generalizing s with
  | nil => exact .nil
  | cons t ts ih =>
    rw [steps_cons,List.forall_mem_cons] at hC
    rw [steps_cons,List.pairwise_cons]
    refine ⟨fun y hy => hQ s t y hC.1 ?_ (hC.2 y hy),ih hC.2⟩
    exact steps_related hrefl htrans hstep hC.2 y hy

/-- Two step properties that agree under an invariant agree over whole runs. -/
theorem steps_iff {I : σ → Prop} {C P : σ → τ → Prop}
    (hkeep : ∀ s t, I s → I (exec s t)) (hiff : ∀ s t, I s → (P s t ↔ C s t))
    (hs : I s) :
    (∀ x ∈ steps exec s ts, P x.1 x.2) ↔ ∀ x ∈ steps exec s ts, C x.1 x.2 := by
  induction ts generalizing s with
  | nil => simp
  | cons t ts ih =>
    simp only [steps_cons,List.forall_mem_cons]
    exact and_congr (hiff s t hs) (ih (hkeep s t hs))

/-- When a step keeps `I` exactly if it meets `C`, a run stays in `I` exactly if all its steps
do. -/
theorem steps_keep_iff {I : σ → Prop} {C : σ → τ → Prop}
    (hiff : ∀ s t, I s → (I (exec s t) ↔ C s t)) (hs : I s) :
    (∀ x ∈ steps exec s ts, I (exec x.1 x.2)) ↔ ∀ x ∈ steps exec s ts, C x.1 x.2 := by
  induction ts generalizing s with
  | nil => simp
  | cons t ts ih =>
    simp only [steps_cons,List.forall_mem_cons]
    rw [← hiff s t hs]
    exact and_congr_right fun hnext => ih hnext

/-- Two step properties that agree under an invariant agree over whole runs, when the steps with the
property keep the invariant. -/
theorem steps_iff_while {I : σ → Prop} {C P : σ → τ → Prop}
    (hkeep : ∀ t ∈ ts, ∀ s, I s → P s t → I (exec s t))
    (hiff : ∀ t ∈ ts, ∀ s, I s → (P s t ↔ C s t)) (hs : I s) :
    (∀ x ∈ steps exec s ts, P x.1 x.2) ↔ ∀ x ∈ steps exec s ts, C x.1 x.2 := by
  induction ts generalizing s with
  | nil => simp
  | cons t ts ih =>
    rw [List.forall_mem_cons] at hkeep hiff
    simp only [steps_cons,List.forall_mem_cons]
    rw [← hiff.1 s hs]
    exact and_congr_right fun hP => ih hkeep.2 hiff.2 (hkeep.1 s hs hP)

/-- The same under a clock: the invariant depends on the time of a step, and keeps as time passes. -/
theorem steps_iff_clocked {κ : Type} [LE κ] (time : τ → κ) {I : κ → σ → Prop}
    {C P : σ → τ → Prop} (hlater : ∀ m n s, m ≤ n → I m s → I n s)
    (hkeep : ∀ s t, I (time t) s → P s t → I (time t) (exec s t))
    (hiff : ∀ s t, I (time t) s → (P s t ↔ C s t))
    (hclock : ts.Pairwise fun t u => time t ≤ time u) (hs : ∀ t ∈ ts, I (time t) s) :
    (∀ x ∈ steps exec s ts, P x.1 x.2) ↔ ∀ x ∈ steps exec s ts, C x.1 x.2 := by
  induction ts generalizing s with
  | nil => simp
  | cons t ts ih =>
    rw [List.pairwise_cons] at hclock
    have hnow : I (time t) s := hs t List.mem_cons_self
    simp only [steps_cons,List.forall_mem_cons]
    rw [← hiff s t hnow]
    refine and_congr_right fun hP => ih hclock.2 fun u hu => ?_
    exact hlater (time t) (time u) _ (hclock.1 u hu) (hkeep s t hnow hP)

/-- Whatever two points of a run are compared, the earlier state is related to the later one exactly
if every step relates its states. -/
theorem related_iff_steps {R : σ → σ → Prop} (hrefl : ∀ s, R s s)
    (htrans : ∀ s t u, R s t → R t u → R s u) :
    (∀ pre mid post, ts = pre ++ mid ++ post → R (run exec s pre) (run exec s (pre ++ mid))) ↔
      ∀ x ∈ steps exec s ts, R x.1 (exec x.1 x.2) := by
  constructor
  · intro h x hx
    obtain ⟨pre,post,hts,hx⟩ := mem_steps_iff.1 hx
    have hstep := h pre [x.2] post (by simp [hts])
    rwa [run_append,run_cons,run_nil,← hx] at hstep
  · rintro h pre mid post rfl
    rw [run_append]
    refine run_related (C := fun s t => R s (exec s t)) hrefl htrans (fun _ _ hR => hR) fun x hx => ?_
    refine h x ?_
    rw [steps_append,steps_append]
    exact List.mem_append_left _ (List.mem_append_right _ hx)

/-- A step that `B` describes lies in the run, and every state after it meets `P`. -/
def Since (exec : σ → τ → σ) (s : σ) (B : σ → τ → Prop) (P : σ → Prop) (ts : List τ) : Prop :=
  ∃ pre t mid, ts = pre ++ t :: mid ∧ B (run exec s pre) t ∧
    ∀ part, part <+: mid → P (run exec s (pre ++ t :: part))

section Since

variable {B : σ → τ → Prop} {P : σ → Prop} {t : τ}

theorem run_concat : run exec s (ts ++ [t]) = exec (run exec s ts) t := by
  rw [run_append,run_cons,run_nil]

theorem since_begin (hB : B (run exec s ts) t) (hP : P (exec (run exec s ts) t)) :
    Since exec s B P (ts ++ [t]) := by
  refine ⟨ts,t,[],rfl,hB,fun part hpart => ?_⟩
  rw [List.prefix_nil.1 hpart,run_concat]
  exact hP

theorem Since.extend (h : Since exec s B P ts) (hP : P (exec (run exec s ts) t)) :
    Since exec s B P (ts ++ [t]) := by
  obtain ⟨pre,u,mid,rfl,hB,hall⟩ := h
  refine ⟨pre,u,mid ++ [t],by simp,hB,fun part hpart => ?_⟩
  rcases List.prefix_concat_iff.1 hpart with rfl | hpart
  · rw [← List.cons_append,← List.append_assoc,run_concat]
    exact hP
  · exact hall part hpart

end Since

/-- A step that `B` describes lies in the run, and no step after it is one that `E` describes. -/
def Unended (exec : σ → τ → σ) (s : σ) (B E : σ → τ → Prop) (ts : List τ) : Prop :=
  ∃ pre t mid, ts = pre ++ t :: mid ∧ B (run exec s pre) t ∧
    ∀ x ∈ steps exec (run exec s (pre ++ [t])) mid, ¬E x.1 x.2

section Latch

variable {B E : σ → τ → Prop} {t : τ}

theorem unended_nil : ¬Unended exec s B E [] := by
  rintro ⟨pre,t,mid,h,-,-⟩
  simp at h

/-- The last step begins such a time, or it does not end the one before it. -/
theorem unended_concat : Unended exec s B E (ts ++ [t]) ↔
    B (run exec s ts) t ∨ Unended exec s B E ts ∧ ¬E (run exec s ts) t := by
  constructor
  · rintro ⟨pre,u,mid,heq,hB,hno⟩
    rcases List.eq_nil_or_concat' mid with rfl | ⟨mid,v,rfl⟩
    · obtain ⟨rfl,hv⟩ := List.append_inj' heq rfl
      rw [List.singleton_inj] at hv
      rw [hv]
      exact .inl hB
    · rw [← List.cons_append,← List.append_assoc] at heq
      obtain ⟨rfl,hv⟩ := List.append_inj' heq rfl
      rw [List.singleton_inj] at hv
      rw [steps_append,List.forall_mem_append,← run_append,List.append_assoc,
        List.singleton_append] at hno
      refine .inr ⟨⟨pre,u,mid,rfl,hB,hno.1⟩,?_⟩
      rw [hv]
      exact hno.2 _ (List.mem_singleton_self _)
  · rintro (hB | ⟨⟨pre,u,mid,rfl,hB,hno⟩,hE⟩)
    · exact ⟨ts,t,[],rfl,hB,by simp⟩
    · refine ⟨pre,u,mid ++ [t],by simp,hB,?_⟩
      rw [steps_append,List.forall_mem_append,← run_append,List.append_assoc,List.singleton_append]
      refine ⟨hno,fun x hx => ?_⟩
      rw [steps_cons,steps_nil,List.mem_singleton] at hx
      rwa [hx]

/-- A latch that `B` sets and `E` resets is set exactly while the last set has not been reset. -/
theorem latch_iff {P : σ → Prop} (hs : ¬P s) (hset : ∀ s t, B s t → P (exec s t))
    (hreset : ∀ s t, E s t → ¬P (exec s t))
    (hkeep : ∀ s t, ¬B s t → ¬E s t → (P (exec s t) ↔ P s)) :
    P (run exec s ts) ↔ Unended exec s B E ts := by
  induction ts using List.reverseRecOn with
  | nil => exact iff_of_false hs unended_nil
  | append_singleton ts t ih =>
    rw [unended_concat,run_concat,← ih]
    by_cases hB : B (run exec s ts) t
    · exact iff_of_true (hset _ _ hB) (.inl hB)
    · by_cases hE : E (run exec s ts) t
      · exact iff_of_false (hreset _ _ hE) (by simp [hB,hE])
      · rw [hkeep _ _ hB hE]
        simp [hB,hE]

end Latch

/-- A state together with the steps that led to it. -/
structure Traced (σ τ : Type) where
  now : σ
  past : List (σ × τ)

def track (exec : σ → τ → σ) (x : Traced σ τ) (t : τ) : Traced σ τ :=
  ⟨exec x.now t, x.past ++ [(x.now, t)]⟩

@[simp] theorem run_track_now (x : Traced σ τ) :
    (run (track exec) x ts).now = run exec x.now ts := by
  induction ts generalizing x with
  | nil => rfl
  | cons t ts ih => rw [run_cons,run_cons,ih,track]

/-- `P` has held in every state since a step of the past that `Q` describes. -/
def HeldSince (P : σ → Prop) (Q : τ → Prop) (x : Traced σ τ) : Prop :=
  ∃ pre y post, x.past = pre ++ y :: post ∧ Q y.2 ∧ ∀ z ∈ post.map Prod.fst ++ [x.now], P z

variable {P : σ → Prop} {Q : τ → Prop} {x : Traced σ τ} {t : τ}

theorem heldSince_begin (hQ : Q t) (hP : P (exec x.now t)) : HeldSince P Q (track exec x t) :=
  ⟨x.past,(x.now,t),[],rfl,hQ,by simpa [track] using hP⟩

theorem HeldSince.extend (h : HeldSince P Q x) (hP : P (exec x.now t)) :
    HeldSince P Q (track exec x t) := by
  obtain ⟨pre,y,post,hpast,hQ,hall⟩ := h
  refine ⟨pre,y,post ++ [(x.now,t)],?_,hQ,?_⟩
  · simp [track,hpast]
  · rw [List.map_append,List.map_singleton,List.forall_mem_append]
    exact ⟨hall,by simpa [track] using hP⟩

end PriceOracle.Lib.Run

/-! ## What a run has behind it

A property of a step may speak of the steps before it, and so may the condition under which the step
is admissible. -/

namespace PriceOracle.Lib.Run

variable {σ τ : Type} {exec : σ → τ → σ} {s : σ} {ts : List τ}
  {I : List (σ × τ) → σ → Prop} {C P : List (σ × τ) → σ → τ → Prop}

theorem steps_concat (t : τ) :
    steps exec s (ts ++ [t]) = steps exec s ts ++ [(run exec s ts,t)] := by
  rw [steps_append,steps_cons,steps_nil]

theorem filterMap_concat {α β : Type} (f : α → Option β) (xs : List α) (x : α) :
    (xs ++ [x]).filterMap f = xs.filterMap f ++ (f x).toList := by
  cases h : f x <;> simp [h]

/-- An invariant of the state and its past that admissible steps keep holds after every run of
them. -/
theorem past_keeps
    (hstep : ∀ past s t, I past s → C past s t → I (past ++ [(s,t)]) (exec s t)) (hs : I [] s)
    (hC : ∀ pre t post, ts = pre ++ t :: post → C (steps exec s pre) (run exec s pre) t) :
    I (steps exec s ts) (run exec s ts) := by
  induction ts using List.reverseRecOn with
  | nil => exact hs
  | append_singleton ts t ih =>
    rw [steps_concat,run_concat]
    refine hstep _ _ t (ih fun pre u post hsplit => ?_) (hC ts t [] rfl)
    exact hC pre u (post ++ [t]) (by rw [hsplit,List.append_assoc,List.cons_append])

/-- Under such an invariant every step of a run may be judged by its past. -/
theorem past_satisfies
    (hstep : ∀ past s t, I past s → C past s t → P past s t ∧ I (past ++ [(s,t)]) (exec s t))
    (hs : I [] s)
    (hC : ∀ pre t post, ts = pre ++ t :: post → C (steps exec s pre) (run exec s pre) t) :
    ∀ pre t post, ts = pre ++ t :: post → P (steps exec s pre) (run exec s pre) t := by
  rintro pre t post rfl
  have hpast : I (steps exec s pre) (run exec s pre) := by
    refine past_keeps (fun past s t hI ht => (hstep past s t hI ht).2) hs fun first u rest hsplit => ?_
    exact hC first u (rest ++ t :: post) (by rw [hsplit,List.append_assoc,List.cons_append])
  exact (hstep _ _ t hpast (hC pre t post rfl)).1

theorem forall_split {D : σ → τ → Prop} (hD : ∀ x ∈ steps exec s ts, D x.1 x.2) :
    ∀ pre t post, ts = pre ++ t :: post → D (run exec s pre) t := by
  rintro pre t post rfl
  rw [steps_append,List.forall_mem_append,steps_cons,List.forall_mem_cons] at hD
  exact hD.2.1

theorem past_ordered {R : τ → τ → Prop} (hts : ts.Pairwise R) :
    ∀ pre t post, ts = pre ++ t :: post → ∀ y ∈ steps exec s pre, R y.2 t := by
  rintro pre t post rfl y hy
  exact (List.pairwise_append.1 hts).2.2 y.2 (snd_mem_of_mem_steps hy) t List.mem_cons_self

section Splits

variable {D : List τ → τ → Prop}

theorem forall_splits_nil : ∀ pre t post, ([] : List τ) = pre ++ t :: post → D pre t :=
  fun _ _ _ h => absurd h (by simp)

theorem forall_splits_cons {u : τ} (hu : D [] u)
    (h : ∀ pre t post, ts = pre ++ t :: post → D (u :: pre) t) :
    ∀ pre t post, u :: ts = pre ++ t :: post → D pre t := by
  intro pre t post hsplit
  cases pre with
  | nil =>
    rw [List.nil_append,List.cons.injEq] at hsplit
    exact hsplit.1 ▸ hu
  | cons v pre =>
    rw [List.cons_append,List.cons.injEq] at hsplit
    exact hsplit.1 ▸ h pre t post hsplit.2

/-- When each step keeps a property of the inputs so far exactly if it meets `D`, every prefix has
the property exactly if every step meets it. -/
theorem forall_prefixes_iff {J : List τ → Prop} (hnil : J [])
    (hiff : ∀ pre t post, ts = pre ++ t :: post → J pre → (J (pre ++ [t]) ↔ D pre t)) :
    (∀ pre, pre <+: ts → J pre) ↔ ∀ pre t post, ts = pre ++ t :: post → D pre t := by
  constructor
  · rintro hall pre t post rfl
    rw [← hiff pre t post rfl (hall pre (List.prefix_append pre _))]
    exact hall (pre ++ [t]) ⟨post,by simp⟩
  · intro hsteps pre
    induction pre using List.reverseRecOn with
    | nil => exact fun _ => hnil
    | append_singleton pre t ih =>
      rintro ⟨post,hsplit⟩
      rw [List.append_assoc,List.singleton_append] at hsplit
      rw [hiff pre t post hsplit.symm (ih ⟨t :: post,hsplit⟩)]
      exact hsteps pre t post hsplit.symm

end Splits

end PriceOracle.Lib.Run

/-! ## Totals over a run

What the steps of a run gain and spend together, bounded through a potential of the states: a step
spends what it gains and what the potential loses. -/

namespace PriceOracle.Lib.Run

variable {σ τ : Type} {exec : σ → τ → σ} {s : σ} {ts : List τ} {f g : σ → τ → Int}

def total (exec : σ → τ → σ) (f : σ → τ → Int) (s : σ) (ts : List τ) : Int :=
  ((steps exec s ts).map fun x => f x.1 x.2).sum

@[simp] theorem total_nil : total exec f s [] = 0 := rfl

@[simp] theorem total_cons (t : τ) :
    total exec f s (t :: ts) = f s t + total exec f (exec s t) ts := rfl

theorem total_add :
    total exec (fun s t => f s t + g s t) s ts = total exec f s ts + total exec g s ts :=
  List.sum_map_add

/-- If no admissible step spends more than it gains and the potential loses, neither does a run. -/
theorem total_le_of_potential {I : σ → Prop} {C : σ → τ → Prop} {V : σ → Int}
    (hstep : ∀ s t, I s → C s t → I (exec s t) ∧ f s t + V (exec s t) ≤ V s + g s t) (hs : I s)
    (hC : ∀ x ∈ steps exec s ts, C x.1 x.2) :
    total exec f s ts + V (run exec s ts) ≤ V s + total exec g s ts := by
  induction ts generalizing s with
  | nil => simp
  | cons t ts ih =>
    rw [steps_cons,List.forall_mem_cons] at hC
    obtain ⟨hnext,hpotential⟩ := hstep s t hs hC.1
    have hrest := ih hnext hC.2
    rw [total_cons,total_cons,run_cons]
    omega

section Clocked

variable {κ : Type} {time : τ → κ} {n : κ}

/-- The machine that remembers the time of its last step. -/
def clocked (time : τ → κ) (exec : σ → τ → σ) (x : κ × σ) (t : τ) : κ × σ :=
  (time t, exec x.2 t)

/-- Along inputs in the order of their times, the remembered time is never ahead. -/
theorem clocked_le [LE κ] (hstart : ∀ t ∈ ts, n ≤ time t)
    (hclock : ts.Pairwise fun t u => time t ≤ time u) :
    ∀ x ∈ steps (clocked time exec) (n,s) ts, x.1.1 ≤ time x.2 := by
  induction ts generalizing n s with
  | nil => simp
  | cons t ts ih =>
    rw [List.pairwise_cons] at hclock
    rw [steps_cons,List.forall_mem_cons]
    exact ⟨hstart t List.mem_cons_self,ih hclock.1 hclock.2⟩

end Clocked

end PriceOracle.Lib.Run
