import Mathlib.Data.List.Basic
import Mathlib.Data.List.Destutter
import Mathlib.Order.Basic
import Mathlib.Data.List.Nodup
import Mathlib.Data.List.Perm.Basic

/-! # Lists read in parts

Ways of reading a list piece by piece: codes of one width, entries that carry their position, scans
that stop between batches, thinned lists, the first place of something, and draws from a pool. -/

/-! ## Codes of fixed width

A list is coded by the codes of its elements one after the other. -/

namespace PriceOracle.Lib.Blocks

variable {α β : Type} {f : α → List β} {n : Nat}

theorem flatMap_eq_nil_iff (hn : 0 < n) (hlen : ∀ a, (f a).length = n) (l : List α) :
    l.flatMap f = [] ↔ l = [] := by
  rw [List.flatMap_eq_nil_iff]
  constructor
  · intro h
    cases l with
    | nil => rfl
    | cons a l =>
      have hempty := congrArg List.length (h a List.mem_cons_self)
      rw [hlen a,List.length_nil] at hempty
      omega
  · rintro rfl _ ⟨⟩

/-- A code of fixed positive width that tells elements apart tells lists apart. -/
theorem flatMap_injective (hn : 0 < n) (hlen : ∀ a, (f a).length = n)
    (hf : Function.Injective f) : Function.Injective fun l : List α => l.flatMap f := by
  intro l
  induction l with
  | nil =>
    intro l' h
    exact ((flatMap_eq_nil_iff hn hlen l').1 h.symm).symm
  | cons a l ih =>
    intro l' h
    cases l' with
    | nil => exact absurd ((flatMap_eq_nil_iff hn hlen (a :: l)).1 h) (List.cons_ne_nil a l)
    | cons a' l' =>
      obtain ⟨hhead,htail⟩ := List.append_inj h ((hlen a).trans (hlen a').symm)
      rw [hf hhead,ih htail]

end PriceOracle.Lib.Blocks

/-! ## Numbered logs

A log that is only appended to numbers each entry by its position. Whatever has been read of it
stays at its place. -/

namespace PriceOracle.Lib.Numbering

variable {α : Type} {index : α → Nat} {xs ys : List α}

def Numbered (index : α → Nat) (xs : List α) : Prop :=
  ∀ i x, xs[i]? = some x → index x = i

theorem numbered_nil : Numbered index [] := by
  intro i x h
  simp at h

/-- The next entry carries the length of the log. -/
theorem Numbered.concat {x : α} (h : Numbered index xs) (hx : index x = xs.length) :
    Numbered index (xs ++ [x]) := by
  intro i y hy
  rcases Nat.lt_or_ge i xs.length with hlt | hge
  · rw [List.getElem?_append_left hlt] at hy
    exact h i y hy
  · rw [List.getElem?_append_right hge] at hy
    have hzero : i - xs.length = 0 := by
      have hsome := List.getElem?_eq_some_iff.1 hy
      have hlen := hsome.choose
      rw [List.length_singleton] at hlen
      omega
    rw [hzero,List.getElem?_cons_zero,Option.some.injEq] at hy
    rw [← hy,hx]
    omega

theorem getElem?_of_prefixed (h : xs <+: ys) {i : Nat} {x : α} (hx : xs[i]? = some x) :
    ys[i]? = some x := by
  obtain ⟨rest,rfl⟩ := h
  rw [List.getElem?_append_left (List.getElem?_eq_some_iff.1 hx).1]
  exact hx

end PriceOracle.Lib.Numbering

/-! ## Scanning a list in batches

A scan visits a list from the front and remembers its position. -/

namespace PriceOracle.Lib.Scan

variable {α : Type} {P Q : α → Prop} {xs ys : List α} {c e : Nat}

/-- Every entry before the position has the property. -/
def Covered (P : α → Prop) (xs : List α) (c : Nat) : Prop := ∀ x ∈ xs.take c, P x

theorem covered_zero : Covered P xs 0 := by
  intro x hx
  simp at hx

theorem Covered.imp (h : Covered P xs c) (hPQ : ∀ x, P x → Q x) : Covered Q xs c :=
  fun x hx => hPQ x (h x hx)

theorem Covered.all (h : Covered P xs c) (hc : xs.length ≤ c) : ∀ x ∈ xs, P x := by
  unfold Covered at h
  rwa [List.take_of_length_le hc] at h

theorem Covered.advance (h : Covered P xs c) (hbatch : ∀ x ∈ (xs.take e).drop c, P x) :
    Covered P xs e := by
  intro x hx
  rw [← List.take_append_drop c (xs.take e),List.mem_append] at hx
  rcases hx with hold | hnew
  · rw [List.take_take] at hold
    exact h x (List.take_subset_take_left xs (Nat.min_le_left c e) hold)
  · exact hbatch x hnew

theorem Covered.change (h : Covered P xs c) (hcross : ∀ x ∈ ys.take c, x ∈ xs.take c ∨ P x) :
    Covered P ys c := by
  intro x hx
  rcases hcross x hx with hold | hx
  · exact h x hold
  · exact hx

end PriceOracle.Lib.Scan

/-! ## Thinned lists

A list is thinned from a first element by passing over what is not related to the last element kept.
-/

namespace PriceOracle.Lib.Thinning

variable {α : Type} {R : α → α → Prop} [DecidableRel R] {key : α → Nat}

theorem destutter'_eq_cons (a : α) (xs : List α) : ∃ ys, xs.destutter' R a = a :: ys := by
  induction xs generalizing a with
  | nil => exact ⟨[],rfl⟩
  | cons b xs ih =>
    by_cases hab : R a b
    · exact ⟨_,List.destutter'_cons_pos xs hab⟩
    · obtain ⟨ys,hys⟩ := ih a
      exact ⟨ys,(List.destutter'_cons_neg xs hab).trans hys⟩

/-- An element passed over is not related to the nearest element kept before it. -/
theorem destutter'_dropped {a y : α} {xs : List α}
    (hsorted : (a :: xs).Pairwise fun x z => key x < key z) (hy : y ∈ xs)
    (hdropped : y ∉ xs.destutter' R a) :
    ∃ x ∈ xs.destutter' R a, key x < key y ∧ ¬R x y ∧
      ∀ z ∈ xs.destutter' R a, key z < key y → key z ≤ key x := by
  induction xs generalizing a with
  | nil => exact absurd hy List.not_mem_nil
  | cons b xs ih =>
    obtain ⟨hfirst,hrest⟩ := List.pairwise_cons.1 hsorted
    by_cases hab : R a b
    · rw [List.destutter'_cons_pos xs hab] at hdropped ⊢
      have hdropped' : y ∉ xs.destutter' R b := fun h => hdropped (List.mem_cons_of_mem _ h)
      have hy' : y ∈ xs := by
        rcases List.mem_cons.1 hy with rfl | hy
        · exact absurd (List.mem_destutter' xs R y) hdropped'
        · exact hy
      obtain ⟨x,hx,hlt,hfar,hnearest⟩ := ih hrest hy' hdropped'
      refine ⟨x,List.mem_cons_of_mem _ hx,hlt,hfar,?_⟩
      intro z hz hzy
      rcases List.mem_cons.1 hz with rfl | hz
      · exact (hfirst x ((List.destutter'_sublist xs R b).subset hx)).le
      · exact hnearest z hz hzy
    · rw [List.destutter'_cons_neg xs hab] at hdropped ⊢
      have hskip : (a :: xs).Pairwise fun x z => key x < key z :=
        hsorted.sublist ((List.sublist_cons_self b xs).cons_cons a)
      rcases List.mem_cons.1 hy with rfl | hy
      · refine ⟨a,List.mem_destutter' xs R a,hfirst y List.mem_cons_self,hab,?_⟩
        intro z hz hzy
        rcases List.mem_cons.1 ((List.destutter'_sublist xs R a).subset hz) with rfl | hz
        · exact le_rfl
        · exact absurd ((List.pairwise_cons.1 hrest).1 z hz) (Nat.lt_asymm hzy)
      · exact ih hskip hy hdropped

end PriceOracle.Lib.Thinning

/-! ## First places

The first step of a list that breaks a relation, and the first element with the greatest value. -/

namespace PriceOracle.Lib.First

variable {α : Type} {xs : List α} {f : α → Nat} {x y : α}

/-- A list is a chain, or it breaks somewhere for the first time. -/
theorem isChain_or_break (R : α → α → Prop) (xs : List α) :
    xs.IsChain R ∨ ∃ before a b after, xs = before ++ a :: b :: after ∧
      (before ++ [a]).IsChain R ∧ ¬R a b := by
  induction xs with
  | nil => exact Or.inl .nil
  | cons x xs ih =>
    cases xs with
    | nil => exact Or.inl (.singleton x)
    | cons y ys =>
      by_cases hxy : R x y
      · rcases ih with hchain | ⟨before,a,b,after,heq,hchain,hbreak⟩
        · exact Or.inl (List.isChain_cons_cons.2 ⟨hxy,hchain⟩)
        · refine Or.inr ⟨x :: before,a,b,after,by rw [heq,List.cons_append],?_,hbreak⟩
          have hhead : (before ++ [a]).head? = (y :: ys).head? := by
            rw [heq]
            cases before <;> rfl
          refine hchain.cons fun z hz => ?_
          rw [hhead,List.head?_cons,Option.mem_def,Option.some.injEq] at hz
          exact hz ▸ hxy
      · exact Or.inr ⟨[],x,y,ys,rfl,.singleton x,hxy⟩

def IsFirst (f : α → Nat) (xs : List α) (x : α) : Prop :=
  ∃ before after, xs = before ++ x :: after ∧ (∀ y ∈ before, f y < f x) ∧ ∀ y ∈ after, f y ≤ f x

theorem IsFirst.le (h : IsFirst f xs x) (hy : y ∈ xs) : f y ≤ f x := by
  obtain ⟨before,after,rfl,hbefore,hafter⟩ := h
  rcases List.mem_append.1 hy with hy | hy
  · exact (hbefore y hy).le
  · rcases List.mem_cons.1 hy with rfl | hy
    · exact le_rfl
    · exact hafter y hy

theorem IsFirst.unique (hx : IsFirst f xs x) (hy : IsFirst f xs y) : x = y := by
  have hyx := hx.le (y := y) (by obtain ⟨_,_,rfl,-⟩ := hy; simp)
  have hxy := hy.le (y := x) (by obtain ⟨_,_,rfl,-⟩ := hx; simp)
  obtain ⟨before,after,rfl,hbefore,-⟩ := hx
  obtain ⟨before',after',heq,hbefore',-⟩ := hy
  rcases List.append_eq_append_iff.1 heq with ⟨skipped,hlonger,hrest⟩ | ⟨skipped,hlonger,hrest⟩
  · cases skipped with
    | nil => exact (List.cons.inj hrest).1
    | cons z skipped =>
      have hz : x = z := (List.cons.inj hrest).1
      have hlt := hbefore' x (by rw [hlonger,hz]; simp)
      exact absurd hlt (not_lt.2 hyx)
  · cases skipped with
    | nil => exact (List.cons.inj hrest).1.symm
    | cons z skipped =>
      have hz : y = z := (List.cons.inj hrest).1
      have hlt := hbefore y (by rw [hlonger,hz]; simp)
      exact absurd hlt (not_lt.2 hxy)

/-- The scan that keeps the best element so far ends with the first best one. -/
theorem foldl_isFirst (f : α → Nat) (xs : List α) (a : α) (n : Nat) :
    (xs.foldl (fun best x => if best.2 < f x then (x,f x) else best) (a,n) = (a,n) ∧
        ∀ x ∈ xs, f x ≤ n) ∨
      ∃ x, xs.foldl (fun best x => if best.2 < f x then (x,f x) else best) (a,n) = (x,f x) ∧
        n < f x ∧ IsFirst f xs x := by
  induction xs generalizing a n with
  | nil => exact Or.inl ⟨rfl,fun _ h => absurd h List.not_mem_nil⟩
  | cons y ys ih =>
    rw [List.foldl_cons]
    by_cases hbetter : n < f y
    · rw [if_pos hbetter]
      rcases ih y (f y) with ⟨heq,hall⟩ | ⟨x,heq,hlt,before,after,hsplit,hbefore,hafter⟩
      · exact Or.inr ⟨y,heq,hbetter,[],ys,rfl,fun _ h => absurd h List.not_mem_nil,hall⟩
      · refine Or.inr ⟨x,heq,hbetter.trans hlt,y :: before,after,?_,?_,hafter⟩
        · rw [hsplit,List.cons_append]
        · exact List.forall_mem_cons.2 ⟨hlt,hbefore⟩
    · rw [if_neg hbetter]
      rcases ih a n with ⟨heq,hall⟩ | ⟨x,heq,hlt,before,after,hsplit,hbefore,hafter⟩
      · exact Or.inl ⟨heq,List.forall_mem_cons.2 ⟨not_lt.1 hbetter,hall⟩⟩
      · refine Or.inr ⟨x,heq,hlt,y :: before,after,?_,?_,hafter⟩
        · rw [hsplit,List.cons_append]
        · exact List.forall_mem_cons.2 ⟨(not_lt.1 hbetter).trans_lt hlt,hbefore⟩

end PriceOracle.Lib.First

/-! ## Drawing without replacement

A partial Fisher-Yates shuffle exchanges the next position of a list with one that is not before it.
-/

namespace PriceOracle.Lib.Shuffle

variable {α : Type} {pool l drawn : List α} {i j : Nat}

/-- The first `i` positions of a rearranged pool hold what was drawn. -/
structure Drawn (pool : List α) (i : Nat) (l drawn : List α) : Prop where
  perm : l.Perm pool
  drawn_eq : drawn = l.take i

theorem drawn_zero (pool : List α) : Drawn pool 0 pool [] :=
  ⟨List.Perm.refl pool,rfl⟩

theorem Drawn.length (h : Drawn pool i l drawn) (hi : i ≤ pool.length) : drawn.length = i := by
  simp [h.drawn_eq,h.perm.length_eq,hi]

theorem Drawn.nodup (h : Drawn pool i l drawn) (hpool : pool.Nodup) : drawn.Nodup := by
  rw [h.drawn_eq]
  exact (h.perm.nodup_iff.2 hpool).sublist (List.take_sublist i l)

theorem Drawn.subset (h : Drawn pool i l drawn) : drawn ⊆ pool := by
  rw [h.drawn_eq]
  exact fun a ha => h.perm.mem_iff.1 (List.mem_of_mem_take ha)

section Exchange

variable [Inhabited α]

/-- The list with the elements at two positions exchanged. -/
def exchange (l : List α) (i j : Nat) : List α :=
  (l.set i (l.getD j default)).set j (l.getD i default)

theorem exchange_perm (hi : i < l.length) (hj : j < l.length) : (exchange l i j).Perm l := by
  simpa [exchange,hi,hj] using List.set_set_perm hi hj

theorem take_exchange (hij : i ≤ j) : (exchange l i j).take i = l.take i := by
  rw [exchange,List.take_set_of_le hij,List.take_set_of_le (Nat.le_refl i)]

/-- The next draw exchanges the next position with one that is not before it. -/
theorem Drawn.next (h : Drawn pool i l drawn) (hij : i ≤ j) (hj : j < pool.length) :
    Drawn pool (i+1) (exchange l i j) (drawn ++ [(exchange l i j).getD i default]) := by
  have hlen := h.perm.length_eq
  have hperm := exchange_perm (l := l) (show i < l.length by omega) (show j < l.length by omega)
  have hi : i < (exchange l i j).length := by
    rw [hperm.length_eq]
    omega
  refine ⟨hperm.trans h.perm,?_⟩
  rw [h.drawn_eq,← take_exchange hij,List.take_add_one]
  simp [hi]

end Exchange

end PriceOracle.Lib.Shuffle
