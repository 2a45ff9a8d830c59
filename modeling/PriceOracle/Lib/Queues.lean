import Mathlib.Algebra.Order.Ring.Int
import Mathlib.Data.List.Basic
import Mathlib.Data.List.Count
import Mathlib.Data.List.Nodup
import Mathlib.Data.List.Perm.Subperm
import Mathlib.Data.Prod.Lex
import Mathlib.Logic.Function.Basic
import Mathlib.Order.Basic
import Mathlib.Order.Defs.LinearOrder

/-! # Queues

An index kept in order, a queue that keeps the order of arrival among equals, and a queue that is
linked through the records themselves. -/

/-! ## Sorted indexes of a partial map

An index lists the keys at which a partial map is defined, in increasing order. -/

namespace PriceOracle.Lib.SortedIndex

variable {κ ν : Type} [LinearOrder κ]

/-- The index lists exactly the keys of the map, in increasing order. -/
structure Indexes (index : List κ) (f : κ → Option ν) : Prop where
  sorted : index.Pairwise (· < ·)
  listed : ∀ k, (f k).isSome = true ↔ k ∈ index

/-- The index with a key appended, unless it is already the last one. -/
def push (index : List κ) (k : κ) : List κ :=
  if index.getLast? = some k then index else index ++ [k]

variable {index : List κ} {f g : κ → Option ν} {k : κ}

theorem mem_push (index : List κ) (k j : κ) : j ∈ push index k ↔ j ∈ index ∨ j = k := by
  by_cases hlast : index.getLast? = some k
  · have hmem : k ∈ index := List.mem_of_getLast? hlast
    simp only [push,hlast,if_true]
    constructor
    · exact Or.inl
    · rintro (h | rfl)
      · exact h
      · exact hmem
  · simp [push,hlast]

theorem le_last {last : κ} (hsorted : index.Pairwise (· < ·)) (hlast : last ∈ index.getLast?)
    {j : κ} (hj : j ∈ index) : j ≤ last := by
  obtain ⟨front,rfl⟩ := List.getLast?_eq_some_iff.1 hlast
  rcases List.mem_append.1 hj with hfront | hend
  · exact ((List.pairwise_append.1 hsorted).2.2 j hfront last (by simp)).le
  · simp at hend
    exact hend.le

/-- A bound of the index that is not its last key is above all of it. -/
theorem lt_of_not_last (hsorted : index.Pairwise (· < ·)) (hle : ∀ j ∈ index, j ≤ k)
    (hnew : index.getLast? ≠ some k) {j : κ} (hj : j ∈ index) : j < k := by
  cases hlast : index.getLast? with
  | none =>
    simp at hlast
    simp [hlast] at hj
  | some last =>
    have hlastle : last ≤ k := hle last (List.mem_of_getLast? hlast)
    have hne : last ≠ k := fun h => hnew (by rw [hlast,h])
    exact lt_of_le_of_lt (le_last hsorted hlast hj) (lt_of_le_of_ne hlastle hne)

theorem sorted_push (hsorted : index.Pairwise (· < ·)) (hle : ∀ j ∈ index, j ≤ k) :
    (push index k).Pairwise (· < ·) := by
  by_cases hlast : index.getLast? = some k
  · simpa [push,hlast] using hsorted
  · simp only [push,hlast,if_false,List.pairwise_append]
    refine ⟨hsorted,by simp,?_⟩
    intro j hj i hi
    simp at hi
    subst hi
    exact lt_of_not_last hsorted hle hlast hj

/-- A key that arrives at the top is listed. -/
theorem Indexes.push (h : Indexes index f) (hle : ∀ j ∈ index, j ≤ k)
    (hself : (g k).isSome = true) (hother : ∀ j, j ≠ k → g j = f j) :
    Indexes (push index k) g where
  sorted := sorted_push h.sorted hle
  listed j := by
    rw [mem_push]
    by_cases hj : j = k
    · subst hj
      simp [hself]
    · simp [hj,hother j hj,h.listed]

theorem Indexes.overwrite (h : Indexes index f) (hk : k ∈ index)
    (hself : (g k).isSome = true) (hother : ∀ j, j ≠ k → g j = f j) : Indexes index g where
  sorted := h.sorted
  listed j := by
    by_cases hj : j = k
    · subst hj
      simp [hself,hk]
    · simp [hother j hj,h.listed]

/-- A key that leaves the map leaves the index. -/
theorem Indexes.remove {pre post : List κ} (h : Indexes (pre ++ k :: post) f)
    (hself : g k = none) (hother : ∀ j, j ≠ k → g j = f j) : Indexes (pre ++ post) g where
  sorted := h.sorted.sublist (by simp)
  listed j := by
    have hnodup : (pre ++ k :: post).Nodup := h.sorted.imp fun hlt => hlt.ne
    by_cases hj : j = k
    · subst hj
      rw [List.nodup_middle,List.nodup_cons] at hnodup
      simpa [hself] using hnodup.1
    · simp [hother j hj,h.listed,hj]

theorem Indexes.last_ne {pre : List κ} (h : Indexes (pre ++ [k]) f) : pre.getLast? ≠ some k := by
  intro hlast
  have hmem : k ∈ pre := List.mem_of_getLast? hlast
  exact lt_irrefl k ((List.pairwise_append.1 h.sorted).2.2 k hmem k (by simp))

end PriceOracle.Lib.SortedIndex

/-! ## Stable priority queues

Items wait in the order of a key, those of one key in the order they arrived. They are served from
the head. -/

namespace PriceOracle.Lib.StableQueue

variable {α κ : Type} [LinearOrder κ] {key : α → κ} {x : α} {k : κ}
  {arrived served pending : List α} {xs : List α}

/-- A new item goes before the first item with a larger key. -/
def place (key : α → κ) (x : α) : List α → List α
  | [] => [x]
  | y :: ys => if key x < key y then x :: y :: ys else y :: place key x ys

def Ordered (key : α → κ) (xs : List α) : Prop := xs.Pairwise fun x y => key x ≤ key y

theorem place_perm (key : α → κ) (x : α) (xs : List α) : (place key x xs).Perm (x :: xs) := by
  induction xs with
  | nil => exact List.Perm.refl _
  | cons y ys ih =>
    unfold place
    by_cases hlt : key x < key y
    · rw [if_pos hlt]
    · rw [if_neg hlt]
      exact (ih.cons y).trans (List.Perm.swap x y ys)

theorem mem_place {y : α} : y ∈ place key x xs ↔ y = x ∨ y ∈ xs := by
  rw [(place_perm key x xs).mem_iff,List.mem_cons]

theorem Ordered.place (h : Ordered key xs) (x : α) : Ordered key (place key x xs) := by
  induction xs with
  | nil => exact List.pairwise_singleton _ _
  | cons y ys ih =>
    obtain ⟨hy,hys⟩ := List.pairwise_cons.1 h
    unfold StableQueue.place
    by_cases hlt : key x < key y
    · rw [if_pos hlt]
      refine List.pairwise_cons.2 ⟨fun z hz => ?_,h⟩
      rcases List.mem_cons.1 hz with rfl | hz
      · exact hlt.le
      · exact hlt.le.trans (hy z hz)
    · rw [if_neg hlt]
      refine List.pairwise_cons.2 ⟨fun z hz => ?_,ih hys⟩
      rcases mem_place.1 hz with rfl | hz
      · exact not_lt.1 hlt
      · exact hy z hz

theorem Ordered.filter_place (h : Ordered key xs) (x : α) (k : κ) :
    (StableQueue.place key x xs).filter (key · = k) =
      xs.filter (key · = k) ++ [x].filter (key · = k) := by
  induction xs with
  | nil => rfl
  | cons y ys ih =>
    obtain ⟨hy,hys⟩ := List.pairwise_cons.1 h
    unfold StableQueue.place
    by_cases hlt : key x < key y
    · rw [if_pos hlt]
      by_cases hx : key x = k
      · -- nothing of its key waits behind a larger key
        have hnone : (y :: ys).filter (key · = k) = [] := by
          rw [List.filter_eq_nil_iff]
          intro z hz
          have hle : key y ≤ key z := by
            rcases List.mem_cons.1 hz with rfl | hz
            · exact le_rfl
            · exact hy z hz
          simpa using (hx ▸ hlt.trans_le hle).ne'
        rw [List.filter_cons_of_pos (by simpa using hx),hnone]
        simp [hx]
      · simp [hx]
    · rw [if_neg hlt,List.filter_cons,List.filter_cons,ih hys]
      split_ifs <;> rfl

/-- What waits is in order, and the items of each key are served in the order they arrived. -/
structure Fair (key : α → κ) (arrived served pending : List α) : Prop where
  ordered : Ordered key pending
  inTurn : ∀ k, arrived.filter (key · = k) =
    served.filter (key · = k) ++ pending.filter (key · = k)

theorem fair_nil : Fair key [] [] [] :=
  ⟨List.Pairwise.nil,fun _ => rfl⟩

theorem Fair.arrive (h : Fair key arrived served pending) (x : α) :
    Fair key (arrived ++ [x]) served (place key x pending) where
  ordered := h.ordered.place x
  inTurn k := by
    rw [List.filter_append,h.inTurn k,h.ordered.filter_place,List.append_assoc]

theorem Fair.serve (h : Fair key arrived served pending) (n : Nat) :
    Fair key arrived (served ++ pending.take n) (pending.drop n) where
  ordered := h.ordered.sublist (List.drop_sublist n pending)
  inTurn k := by
    rw [List.filter_append,List.append_assoc,← List.filter_append,List.take_append_drop]
    exact h.inTurn k

/-- Nothing that arrived is lost, and nothing is served twice. -/
theorem Fair.perm (h : Fair key arrived served pending) : arrived.Perm (served ++ pending) := by
  classical
  rw [List.perm_iff_count]
  intro a
  have hself (xs : List α) : (xs.filter (key · = key a)).count a = xs.count a :=
    List.count_filter (by simp)
  have hcount := congrArg (List.count a) (h.inTurn (key a))
  rw [List.count_append,hself,hself,hself] at hcount
  rw [List.count_append,hcount]

end PriceOracle.Lib.StableQueue

/-! ## Linked queues

A queue is kept as a partial successor map with a head and a tail pointer, zero being the null
pointer. -/

namespace PriceOracle.Lib.LinkedQueue

variable {ι : Type} [Zero ι]

/-- Following `next` from the first pointer visits the listed nodes and arrives at the last one. -/
inductive Segment (next : ι → Option ι) : ι → List ι → ι → Prop
  | nil (c : ι) : Segment next c [] c
  | cons {i j d : ι} {ids : List ι} (hi : i ≠ 0) (hnext : next i = some j)
      (hrest : Segment next j ids d) : Segment next i (i :: ids) d

variable {next next' : ι → Option ι} {c d e : ι} {xs ys : List ι}

theorem segment_nil_iff : Segment next c [] d ↔ c = d := by
  constructor
  · rintro ⟨⟩
    rfl
  · rintro rfl
    exact .nil c

theorem segment_cons_iff {i : ι} :
    Segment next c (i :: xs) d ↔ c = i ∧ i ≠ 0 ∧ ∃ j, next i = some j ∧ Segment next j xs d := by
  constructor
  · rintro ⟨⟩
    exact ⟨rfl,‹_›,_,‹_›,‹_›⟩
  · rintro ⟨rfl,hi,j,hnext,hrest⟩
    exact .cons hi hnext hrest

theorem segment_append_iff :
    Segment next c (xs ++ ys) e ↔ ∃ d, Segment next c xs d ∧ Segment next d ys e := by
  induction xs generalizing c with
  | nil => simp [segment_nil_iff]
  | cons x xs ih =>
    constructor
    · intro h
      rw [List.cons_append,segment_cons_iff] at h
      obtain ⟨rfl,hx,j,hj,hrest⟩ := h
      obtain ⟨d,hxs,hys⟩ := ih.1 hrest
      exact ⟨d,.cons hx hj hxs,hys⟩
    · rintro ⟨d,hxs,hys⟩
      obtain ⟨rfl,hx,j,hj,hrest⟩ := segment_cons_iff.1 hxs
      exact .cons hx hj (ih.2 ⟨d,hrest,hys⟩)

theorem Segment.congr (h : Segment next c xs d) (hn : ∀ i ∈ xs, next' i = next i) :
    Segment next' c xs d := by
  induction h with
  | nil c => exact .nil c
  | cons hi hnext _ ih =>
    rw [List.forall_mem_cons] at hn
    exact .cons hi (hn.1.trans hnext) (ih hn.2)

theorem Segment.ne_zero (h : Segment next c xs d) : ∀ i ∈ xs, i ≠ 0 := by
  induction h with
  | nil c => simp
  | cons hi _ _ ih => exact List.forall_mem_cons.2 ⟨hi,ih⟩

theorem Segment.start_eq_zero_iff (h : Segment next c xs 0) : c = 0 ↔ xs = [] := by
  cases h with
  | nil => simp
  | cons hi _ _ => simp [hi]

variable [LinearOrder ι]

/-- The queue of the listed nodes: the pointers visit them in increasing order from the head to
the tail, and no other node is stored. -/
structure Threads (next : ι → Option ι) (head tail : ι) (ids : List ι) : Prop where
  segment : Segment next head ids 0
  stored : ∀ i, (next i).isSome = true ↔ i ∈ ids
  sorted : ids.Pairwise (· < ·)
  last : tail = ids.getLastD 0

variable {head tail : ι} {ids : List ι}

theorem threads_empty : Threads (fun _ : ι => none) 0 0 [] where
  segment := .nil 0
  stored := by simp
  sorted := .nil
  last := rfl

namespace Threads

theorem nodup (h : Threads next head tail ids) : ids.Nodup :=
  h.sorted.imp fun hlt => hlt.ne

theorem head_eq_zero_iff (h : Threads next head tail ids) : head = 0 ↔ ids = [] :=
  h.segment.start_eq_zero_iff

theorem tail_eq_zero_iff (h : Threads next head tail ids) : tail = 0 ↔ ids = [] := by
  rw [h.last]
  rcases List.eq_nil_or_concat' ids with rfl | ⟨pre,t,rfl⟩
  · simp
  · have ht : t ≠ 0 := h.segment.ne_zero t (by simp)
    simp [ht]

theorem eq_nil_iff (h : Threads next head tail ids) : ids = [] ↔ ∀ i, next i = none := by
  rw [List.eq_nil_iff_forall_not_mem]
  refine forall_congr' fun i => ?_
  rw [← h.stored i]
  cases next i <;> simp

theorem eq_concat (h : Threads next head tail ids) (ht : tail ≠ 0) :
    ∃ pre, ids = pre ++ [tail] := by
  rcases List.eq_nil_or_concat' ids with rfl | ⟨pre,t,rfl⟩
  · exact absurd h.last ht
  · exact ⟨pre,by simp [h.last]⟩

/-- A node stored into the empty queue is its head and its tail. -/
theorem push_empty {n : ι} (h : Threads next head 0 ids) (hn : n ≠ 0) :
    Threads (Function.update next n (some 0)) n n [n] where
  segment := .cons hn (Function.update_self _ _ _) (.nil 0)
  stored i := by
    have hnil : ids = [] := h.tail_eq_zero_iff.1 rfl
    by_cases hi : i = n
    · simp [hi]
    · rw [Function.update_of_ne hi,h.eq_nil_iff.1 hnil i]
      simp [hi]
  sorted := List.pairwise_singleton _ _
  last := rfl

/-- A greater node is appended by storing it and pointing the tail at it. -/
theorem push {n : ι} (h : Threads next head tail ids) (ht : tail ≠ 0) (hn : n ≠ 0)
    (hlt : ∀ i ∈ ids, i < n) :
    Threads (Function.update (Function.update next n (some 0)) tail (some n)) head n
      (ids ++ [n]) := by
  obtain ⟨pre,rfl⟩ := h.eq_concat ht
  have htn : tail ≠ n := (hlt tail (by simp)).ne
  have hpre : ∀ i ∈ pre, i ≠ tail ∧ i ≠ n := by
    intro i hi
    exact ⟨(List.nodup_append.1 h.nodup).2.2 i hi tail (by simp),(hlt i (by simp [hi])).ne⟩
  constructor
  · obtain ⟨d,hfront,hback⟩ := segment_append_iff.1 h.segment
    obtain ⟨rfl,-,-⟩ := segment_cons_iff.1 hback
    have hfront' : Segment (Function.update (Function.update next n (some 0)) d (some n)) head
        pre d := by
      apply hfront.congr
      intro i hi
      rw [Function.update_of_ne (hpre i hi).1,Function.update_of_ne (hpre i hi).2]
    rw [List.append_assoc]
    refine segment_append_iff.2 ⟨d,hfront',.cons ht (Function.update_self _ _ _) ?_⟩
    refine .cons hn ?_ (.nil 0)
    rw [Function.update_of_ne htn.symm,Function.update_self]
  · intro i
    by_cases hit : i = tail
    · simp [hit]
    · rw [Function.update_of_ne hit]
      by_cases hin : i = n
      · simp [hin]
      · rw [Function.update_of_ne hin,h.stored i]
        simp [hin]
  · rw [List.pairwise_append]
    exact ⟨h.sorted,List.pairwise_singleton _ _,by simpa using hlt⟩
  · simp

/-- Removing the head advances the head pointer, and clears the tail of an emptied queue. -/
theorem pop {i j : ι} (h : Threads next i tail ids) (hi : i ≠ 0) (hj : next i = some j) :
    ∃ rest, ids = i :: rest ∧
      Threads (Function.update next i none) j (if j = 0 then 0 else tail) rest := by
  cases ids with
  | nil => exact absurd (h.head_eq_zero_iff.2 rfl) hi
  | cons k rest =>
    obtain ⟨rfl,-,j',hj',hrest⟩ := segment_cons_iff.1 h.segment
    rw [hj,Option.some.injEq] at hj'
    subst hj'
    have hnot : i ∉ rest := (List.nodup_cons.1 h.nodup).1
    refine ⟨rest,rfl,?_,?_,(List.pairwise_cons.1 h.sorted).2,?_⟩
    · refine hrest.congr fun k hk => Function.update_of_ne ?_ _ _
      rintro rfl
      exact hnot hk
    · intro k
      by_cases hki : k = i
      · subst hki
        simpa using hnot
      · rw [Function.update_of_ne hki,h.stored k]
        simp [hki]
    · by_cases hj0 : j = 0
      · rw [if_pos hj0,hrest.start_eq_zero_iff.1 hj0]
        rfl
      · rw [if_neg hj0,h.last]
        cases rest with
        | nil => exact absurd (hrest.start_eq_zero_iff.2 rfl) hj0
        | cons r rest => simp

/-- Removing an inner node points its predecessor past it, and moves the tail back if it was the
last node. -/
theorem unlink {p i j : ι} {pre post : List ι}
    (h : Threads next head tail (pre ++ p :: i :: post)) (hj : next i = some j) :
    Threads (Function.update (Function.update next p (some j)) i none) head
      (if j = 0 then p else tail) (pre ++ p :: post) := by
  obtain ⟨d,hfront,hback⟩ := segment_append_iff.1 h.segment
  obtain ⟨rfl,hd,i',hi',htail⟩ := segment_cons_iff.1 hback
  obtain ⟨rfl,hi,j',hj',hpost⟩ := segment_cons_iff.1 htail
  rw [hj,Option.some.injEq] at hj'
  subst hj'
  have hnodup := List.nodup_append.1 h.nodup
  have hdi : d ≠ i' := by
    have := (List.nodup_cons.1 hnodup.2.1).1
    exact fun heq => this (by simp [heq])
  have hpre : ∀ k ∈ pre, k ≠ d ∧ k ≠ i' := fun k hk =>
    ⟨hnodup.2.2 k hk d (by simp),hnodup.2.2 k hk i' (by simp)⟩
  have hpost' : ∀ k ∈ post, k ≠ d ∧ k ≠ i' := by
    intro k hk
    have hdpost := (List.nodup_cons.1 hnodup.2.1).1
    have hipost := (List.nodup_cons.1 (List.nodup_cons.1 hnodup.2.1).2).1
    exact ⟨fun heq => hdpost (by simp [← heq,hk]),fun heq => hipost (heq ▸ hk)⟩
  have hkeep : ∀ k, k ≠ d → k ≠ i' →
      Function.update (Function.update next d (some j)) i' none k = next k := by
    intro k hkd hki
    rw [Function.update_of_ne hki,Function.update_of_ne hkd]
  constructor
  · refine segment_append_iff.2 ⟨d,hfront.congr fun k hk => hkeep k (hpre k hk).1 (hpre k hk).2,
      .cons hd ?_ (hpost.congr fun k hk => hkeep k (hpost' k hk).1 (hpost' k hk).2)⟩
    rw [Function.update_of_ne hdi,Function.update_self]
  · intro k
    by_cases hki : k = i'
    · subst hki
      have hnotpre : k ∉ pre := fun hk => (hpre k hk).2 rfl
      have hnotpost : k ∉ post := fun hk => (hpost' k hk).2 rfl
      simp [hnotpre,hnotpost,hdi.symm]
    · rw [Function.update_of_ne hki]
      by_cases hkd : k = d
      · simp [hkd]
      · rw [Function.update_of_ne hkd,h.stored k]
        simp [hki,hkd]
  · exact h.sorted.sublist (((List.sublist_cons_self i' post).cons_cons d).append_left pre)
  · by_cases hj0 : j = 0
    · rw [if_pos hj0,hpost.start_eq_zero_iff.1 hj0]
      simp
    · rw [if_neg hj0,h.last]
      cases post with
      | nil => exact absurd (hpost.start_eq_zero_iff.2 rfl) hj0
      | cons r post => simp

theorem eq_head_or_follows (h : Threads next head tail ids) {i : ι} (hi : i ∈ ids) :
    i = head ∨ ∃ pre p post, ids = pre ++ p :: i :: post := by
  obtain ⟨pre,post,rfl⟩ := List.append_of_mem hi
  rcases List.eq_nil_or_concat' pre with rfl | ⟨pre,p,rfl⟩
  · exact .inl (segment_cons_iff.1 h.segment).1.symm
  · exact .inr ⟨pre,p,post,by simp⟩

end Threads

/-- Increasing nodes between the null pointer and `n` number at most `n`. -/
theorem length_le_of_bounded {ids : List ℕ} {n : ℕ} (hnodup : ids.Nodup)
    (hpos : ∀ i ∈ ids, i ≠ 0) (hle : ∀ i ∈ ids, i ≤ n) : ids.length ≤ n := by
  have hsub : ids ⊆ List.range' 1 n := by
    intro i hi
    have h₀ := hpos i hi
    have h₁ := hle i hi
    rw [List.mem_range'_1]
    omega
  simpa using (hnodup.subperm hsub).length_le

end PriceOracle.Lib.LinkedQueue
