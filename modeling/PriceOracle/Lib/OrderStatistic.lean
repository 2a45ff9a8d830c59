import Mathlib.Data.Finset.Card
import Mathlib.Data.List.Sort
import Mathlib.Order.Nat
import Mathlib.Data.List.Perm.Basic
import Mathlib.Data.List.TakeWhile

/-! # Order statistics

The `k`-th element of a list in increasing order, and the median of a list of integers: the middle
element, or the floor of the mean of the middle two. -/

namespace PriceOracle.Lib.OrderStatistic

section Kth

variable {α : Type} [LinearOrder α] {xs lo hi : List α} {v w : α} {i j k : Nat}

/-- The `k`-th element of the list in increasing order, counted from zero. -/
def kth (xs : List α) (k : Nat) : Option α := (xs.insertionSort (· ≤ ·))[k]?

theorem kth_mem (h : kth xs k = some v) : v ∈ xs :=
  (List.perm_insertionSort (· ≤ ·) xs).mem_iff.1 (List.mem_of_getElem? h)

theorem kth_isSome (h : k < xs.length) : (kth xs k).isSome = true := by
  simp [kth,h]

theorem exists_kth (h : k < xs.length) : ∃ v, kth xs k = some v :=
  Option.isSome_iff_exists.1 (kth_isSome h)

theorem kth_perm {ys : List α} (h : xs.Perm ys) : kth xs k = kth ys k := by
  have hperm : (xs.insertionSort (· ≤ ·)).Perm (ys.insertionSort (· ≤ ·)) :=
    ((List.perm_insertionSort _ xs).trans h).trans (List.perm_insertionSort _ ys).symm
  have heq := hperm.eq_of_pairwise' (List.pairwise_insertionSort (· ≤ ·) xs)
    (List.pairwise_insertionSort (· ≤ ·) ys)
  rw [kth,kth,heq]

theorem kth_le_kth (hij : i ≤ j) (hv : kth xs i = some v) (hw : kth xs j = some w) : v ≤ w := by
  obtain ⟨hi,rfl⟩ := List.getElem?_eq_some_iff.1 hv
  obtain ⟨hj,rfl⟩ := List.getElem?_eq_some_iff.1 hw
  rcases Nat.lt_or_eq_of_le hij with hlt | rfl
  · exact List.pairwise_iff_getElem.1 (List.pairwise_insertionSort (· ≤ ·) xs) i j hi hj hlt
  · exact le_refl _

/-- A list rearranged around an element that bounds both sides has it at its rank. -/
theorem kth_of_split (hperm : (lo ++ v :: hi).Perm xs) (hlo : ∀ a ∈ lo, a ≤ v)
    (hhi : ∀ a ∈ hi, v ≤ a) : kth xs lo.length = some v := by
  set left := lo.insertionSort (· ≤ ·)
  set right := hi.insertionSort (· ≤ ·)
  have hleft : left.Perm lo := List.perm_insertionSort _ lo
  have hright : right.Perm hi := List.perm_insertionSort _ hi
  have hsorted : (left ++ v :: right).Pairwise (· ≤ ·) := by
    rw [List.pairwise_append,List.pairwise_cons]
    refine ⟨List.pairwise_insertionSort _ lo,⟨?_,List.pairwise_insertionSort _ hi⟩,?_⟩
    · intro a ha
      exact hhi a (hright.mem_iff.1 ha)
    · intro a ha b hb
      have hav : a ≤ v := hlo a (hleft.mem_iff.1 ha)
      rcases List.mem_cons.1 hb with rfl | hb
      · exact hav
      · exact hav.trans (hhi b (hright.mem_iff.1 hb))
  have hsame : (left ++ v :: right).Perm (xs.insertionSort (· ≤ ·)) :=
    ((hleft.append (hright.cons v)).trans hperm).trans (List.perm_insertionSort _ xs).symm
  have heq := hsame.eq_of_pairwise' hsorted (List.pairwise_insertionSort (· ≤ ·) xs)
  have hlen : left.length = lo.length := hleft.length_eq
  simp [kth,← heq,← hlen]

theorem succ_le_countP (hv : kth xs k = some v) : k+1 ≤ xs.countP (· ≤ v) := by
  have hperm : (xs.insertionSort (· ≤ ·)).Perm xs := List.perm_insertionSort _ xs
  rw [← hperm.countP_eq]
  have hfirst : ((xs.insertionSort (· ≤ ·)).take (k+1)).countP (· ≤ v) = k+1 := by
    obtain ⟨hk,-⟩ := List.getElem?_eq_some_iff.1 hv
    rw [List.countP_eq_length.2,List.length_take,Nat.min_eq_left hk]
    intro x hx
    obtain ⟨i,hi,rfl⟩ := List.mem_take_iff_getElem.1 hx
    have hik : kth xs i = some (xs.insertionSort (· ≤ ·))[i] := List.getElem?_eq_getElem (by omega)
    simpa using kth_le_kth (show i ≤ k by omega) hik hv
  rw [← hfirst]
  exact (List.take_sublist _ _).countP_le

theorem length_le_countP (hv : kth xs k = some v) : xs.length ≤ k + xs.countP (v ≤ ·) := by
  have hperm : (xs.insertionSort (· ≤ ·)).Perm xs := List.perm_insertionSort _ xs
  rw [← hperm.countP_eq,← hperm.length_eq]
  have hlast : ((xs.insertionSort (· ≤ ·)).drop k).countP (v ≤ ·) =
      (xs.insertionSort (· ≤ ·)).length - k := by
    rw [List.countP_eq_length.2,List.length_drop]
    intro x hx
    obtain ⟨i,hi,rfl⟩ := List.mem_drop_iff_getElem.1 hx
    have hik : kth xs (k + i) = some (xs.insertionSort (· ≤ ·))[k + i] :=
      List.getElem?_eq_getElem (by omega)
    simpa using kth_le_kth (show k ≤ k + i by omega) hv hik
  have hle : ((xs.insertionSort (· ≤ ·)).drop k).countP (v ≤ ·) ≤ _ :=
    (List.drop_sublist _ _).countP_le
  omega

theorem kth_of_sorted (hs : xs.Pairwise (· ≤ ·)) (k : Nat) : kth xs k = xs[k]? := by
  have heq := (List.perm_insertionSort (· ≤ ·) xs).eq_of_pairwise'
    (List.pairwise_insertionSort (· ≤ ·) xs) hs
  rw [kth,heq]

/-- In a sorted list the elements between two bounds stand next to each other. -/
theorem filter_between (hs : xs.Pairwise (· ≤ ·)) (a b : α) :
    ∃ mid, xs.filter (fun x => a ≤ x ∧ x ≤ b) = mid ∧
      ∃ lo hi, xs = lo ++ mid ++ hi ∧ (∀ x ∈ lo, x < a) ∧ ∀ x ∈ hi, b < x := by
  induction xs with
  | nil => exact ⟨[],rfl,[],[],rfl,by simp,by simp⟩
  | cons x xs ih =>
    rw [List.pairwise_cons] at hs
    obtain ⟨hfirst,hrest⟩ := hs
    obtain ⟨mid,hmid,lo,hi,heq,hlo,hhi⟩ := ih hrest
    by_cases hax : a ≤ x
    · -- nothing of the rest is below the first bound
      have hlow : lo = [] := by
        rw [List.eq_nil_iff_forall_not_mem]
        intro y hy
        exact absurd (hlo y hy) (not_lt.2 (hax.trans (hfirst y (by simp [heq,hy]))))
      by_cases hxb : x ≤ b
      · refine ⟨x :: mid,by simp [hax,hxb,← hmid],[],hi,?_,by simp,hhi⟩
        rw [heq,hlow]
        rfl
      · have hall : ∀ y ∈ x :: xs, b < y := by
          intro y hy
          rcases List.mem_cons.1 hy with rfl | hy
          · exact not_le.1 hxb
          · exact (not_le.1 hxb).trans_le (hfirst y hy)
        refine ⟨[],?_,[],x :: xs,rfl,by simp,hall⟩
        rw [List.filter_eq_nil_iff]
        intro y hy
        simp [hall y hy]
    · refine ⟨mid,by simp [hax,← hmid],x :: lo,hi,by simp [heq],?_,hhi⟩
      intro y hy
      rcases List.mem_cons.1 hy with rfl | hy
      · exact not_le.1 hax
      · exact hlo y hy

end Kth

section Rest

variable {α : Type} [LinearOrder α] {xs : List α} {S : Finset Nat} {v w r : α} {k : Nat}

/-- The value lies between two of the elements at positions outside `S`. -/
def WithinRest (xs : List α) (S : Finset Nat) (r : α) : Prop :=
  (∃ i x, i ∉ S ∧ xs[i]? = some x ∧ x ≤ r) ∧ ∃ i x, i ∉ S ∧ xs[i]? = some x ∧ r ≤ x

theorem WithinRest.between (hv : WithinRest xs S v) (hw : WithinRest xs S w) (hvr : v ≤ r)
    (hrw : r ≤ w) : WithinRest xs S r := by
  obtain ⟨⟨i,x,hi,hx,hxv⟩,-⟩ := hv
  obtain ⟨-,j,y,hj,hy,hwy⟩ := hw
  exact ⟨⟨i,x,hi,hx,hxv.trans hvr⟩,j,y,hj,hy,hrw.trans hwy⟩

omit [LinearOrder α] in
/-- Elements that are found only at positions in `S` are not more than those. -/
theorem countP_le_card {c : α → Bool} (hc : ∀ i x, xs[i]? = some x → c x = true → i ∈ S) :
    xs.countP c ≤ S.card := by
  set places := (xs.zipIdx.filter fun xi => c xi.1).map Prod.snd
  have hlen : places.length = xs.countP c := by
    have hfst : xs.zipIdx.map Prod.fst = xs := List.zipIdx_map_fst 0 xs
    conv_rhs => rw [← hfst,List.countP_map,List.countP_eq_length_filter]
    rw [List.length_map]
    rfl
  have hnodup : places.Nodup := by
    have hall : (xs.zipIdx.map Prod.snd).Nodup := by
      rw [List.zipIdx_map_snd]
      exact List.nodup_range'
    exact hall.sublist (List.filter_sublist.map Prod.snd)
  have hsub : places ⊆ S.toList := by
    intro i hi
    obtain ⟨⟨x,j⟩,hx,rfl⟩ := List.mem_map.1 hi
    obtain ⟨hmem,hcx⟩ := List.mem_filter.1 hx
    exact Finset.mem_toList.2 (hc j x (List.mem_zipIdx_iff_getElem?.1 hmem) hcx)
  rw [← hlen,← Finset.length_toList]
  exact (hnodup.subperm hsub).length_le

theorem rest_le_kth (hv : kth xs k = some v) (hcard : S.card ≤ k) :
    ∃ i x, i ∉ S ∧ xs[i]? = some x ∧ x ≤ v := by
  by_contra hnone
  have hcount : xs.countP (· ≤ v) ≤ S.card := by
    apply countP_le_card
    intro i x hx hle
    by_contra hi
    exact hnone ⟨i,x,hi,hx,by simpa using hle⟩
  have hmany := succ_le_countP hv
  omega

theorem kth_le_rest (hv : kth xs k = some v) (hcard : k + S.card < xs.length) :
    ∃ i x, i ∉ S ∧ xs[i]? = some x ∧ v ≤ x := by
  by_contra hnone
  have hcount : xs.countP (v ≤ ·) ≤ S.card := by
    apply countP_le_card
    intro i x hx hle
    by_contra hi
    exact hnone ⟨i,x,hi,hx,by simpa using hle⟩
  have hmany := length_le_countP hv
  omega

theorem withinRest_of_kth (hv : kth xs k = some v) (hlow : S.card ≤ k)
    (hhigh : k + S.card < xs.length) : WithinRest xs S v :=
  ⟨rest_le_kth hv hlow,kth_le_rest hv hhigh⟩

end Rest

section Median

variable {xs : List Int} {a b : Int}

def median (xs : List Int) : Int :=
  if xs.length % 2 = 0 then
    ((kth xs (xs.length / 2 - 1)).getD 0 + (kth xs (xs.length / 2)).getD 0) / 2
  else (kth xs (xs.length / 2)).getD 0

theorem kth_between {k : Nat} (hk : k < xs.length) (hxs : ∀ x ∈ xs, a ≤ x ∧ x ≤ b) :
    a ≤ (kth xs k).getD 0 ∧ (kth xs k).getD 0 ≤ b := by
  obtain ⟨v,hv⟩ := Option.isSome_iff_exists.1 (kth_isSome hk)
  rw [hv,Option.getD_some]
  exact hxs v (kth_mem hv)

/-- The median lies between any bounds of the list. -/
theorem median_between (hne : xs ≠ []) (hxs : ∀ x ∈ xs, a ≤ x ∧ x ≤ b) :
    a ≤ median xs ∧ median xs ≤ b := by
  have hlen : 0 < xs.length := List.length_pos_iff.2 hne
  have hupper := kth_between (k := xs.length / 2) (by omega) hxs
  by_cases heven : xs.length % 2 = 0
  · have hlower := kth_between (k := xs.length / 2 - 1) (by omega) hxs
    simp only [median,heven,if_true]
    omega
  · simpa [median,heven] using hupper

end Median

end PriceOracle.Lib.OrderStatistic

/-! ## Binary search in a sorted list

Half-open bisection for the first index at which a test fails. -/

namespace PriceOracle.Lib.BinarySearch

/-- Bisection of `lo .. hi` for the first index at which `below` fails, with the width as fuel. -/
def lowerBound (below : Nat → Bool) : Nat → Nat → Nat → Nat
  | 0, lo, _ => lo
  | fuel + 1, lo, hi =>
    if lo < hi then
      let mid := lo + (hi - lo) / 2
      if below mid then lowerBound below fuel (mid + 1) hi else lowerBound below fuel lo mid
    else lo

section Bisection

variable {below : Nat → Bool} {fuel lo hi n : Nat}

theorem lowerBound_eq (hfuel : hi - lo ≤ fuel) (hlo : lo ≤ n) (hhi : n ≤ hi)
    (hbelow : ∀ i < hi, below i = true ↔ i < n) : lowerBound below fuel lo hi = n := by
  induction fuel generalizing lo hi with
  | zero =>
    rw [lowerBound]
    omega
  | succ fuel ih =>
    rw [lowerBound]
    by_cases hwidth : lo < hi
    · have hmid := hbelow (lo + (hi - lo) / 2) (by omega)
      simp only [hwidth,ite_true]
      by_cases hlt : below (lo + (hi - lo) / 2) = true
      · have hn := hmid.1 hlt
        simp only [hlt,ite_true]
        exact ih (by omega) (by omega) hhi hbelow
      · have hn : ¬ lo + (hi - lo) / 2 < n := fun h => hlt (hmid.2 h)
        simp only [hlt]
        exact ih (by omega) hlo (by omega) fun i hi' => hbelow i (by omega)
    · simp only [hwidth,ite_false]
      omega

end Bisection

section Sorted

variable {α : Type} [LinearOrder α] {l : List α} {a : α}

/-- The place of a key: how many elements are below it. -/
def place (a : α) (l : List α) : Nat := (l.takeWhile (· < a)).length

theorem place_le (a : α) (l : List α) : place a l ≤ l.length :=
  (l.takeWhile_prefix _).length_le

theorem take_place (a : α) (l : List α) : l.take (place a l) = l.takeWhile (· < a) :=
  (List.prefix_iff_eq_take.1 (l.takeWhile_prefix _)).symm

theorem drop_place (a : α) (l : List α) : l.drop (place a l) = l.dropWhile (· < a) := by
  have hsplit : l.takeWhile (· < a) ++ l.drop (place a l) =
      l.takeWhile (· < a) ++ l.dropWhile (· < a) := by
    rw [List.takeWhile_append_dropWhile,← take_place,List.take_append_drop]
  exact List.append_cancel_left hsplit

theorem le_of_mem_dropWhile (hl : l.Pairwise (· ≤ ·)) :
    ∀ b ∈ l.dropWhile (· < a), a ≤ b := by
  induction l with
  | nil => simp
  | cons b l ih =>
    rw [List.pairwise_cons] at hl
    by_cases hb : b < a
    · simpa [List.dropWhile_cons,hb] using ih hl.2
    · simp only [List.dropWhile_cons,hb,decide_false]
      intro c hc
      rcases List.mem_cons.1 hc with rfl | hc
      · exact not_lt.1 hb
      · exact (not_lt.1 hb).trans (hl.1 c hc)

theorem getElem_lt_iff (hl : l.Pairwise (· ≤ ·)) {i : Nat} (hi : i < l.length) :
    l[i] < a ↔ i < place a l := by
  constructor
  · intro hlt
    by_contra hge
    have hmem : l[i] ∈ l.drop (place a l) := by
      rw [List.mem_drop_iff_getElem]
      exact ⟨i - place a l,by omega,by congr 1; omega⟩
    rw [drop_place] at hmem
    exact absurd hlt (not_lt.2 (le_of_mem_dropWhile hl _ hmem))
  · intro hlt
    have hmem : l[i] ∈ l.take (place a l) := List.mem_take_iff_getElem.2 ⟨i,by omega,rfl⟩
    rw [take_place] at hmem
    simpa using List.mem_takeWhile_imp hmem

theorem lowerBound_eq_place (hl : l.Pairwise (· ≤ ·)) {below : Nat → Bool}
    (hbelow : ∀ (i : Nat) (hi : i < l.length), below i = true ↔ l[i] < a) :
    lowerBound below l.length 0 l.length = place a l := by
  apply lowerBound_eq (by omega) (Nat.zero_le _) (place_le a l)
  intro i hi
  rw [hbelow i hi,getElem_lt_iff hl hi]

theorem insertIdx_perm : (l.insertIdx (place a l) a).Perm (a :: l) :=
  List.perm_insertIdx a l (place_le a l)

/-- A key inserted at its place keeps the list sorted. -/
theorem insertIdx_sorted (hl : l.Pairwise (· ≤ ·)) :
    (l.insertIdx (place a l) a).Pairwise (· ≤ ·) := by
  induction l with
  | nil => simp [place]
  | cons b l ih =>
    rw [List.pairwise_cons] at hl
    by_cases hb : b < a
    · have hplace : place a (b :: l) = place a l + 1 := by simp [place,hb]
      rw [hplace,List.insertIdx_succ_cons,List.pairwise_cons]
      refine ⟨fun c hc => ?_,ih hl.2⟩
      rcases List.mem_cons.1 (insertIdx_perm.mem_iff.1 hc) with rfl | hc
      · exact hb.le
      · exact hl.1 c hc
    · have hplace : place a (b :: l) = 0 := by simp [place,hb]
      rw [hplace,List.insertIdx_zero,List.pairwise_cons,List.pairwise_cons]
      refine ⟨fun c hc => ?_,hl⟩
      rcases List.mem_cons.1 hc with rfl | hc
      · exact not_lt.1 hb
      · exact (not_lt.1 hb).trans (hl.1 c hc)

/-- A sorted list contains a key exactly if the key is found at its place. -/
theorem getElem_place_iff (hl : l.Pairwise (· ≤ ·)) : l[place a l]? = some a ↔ a ∈ l := by
  constructor
  · exact List.mem_of_getElem?
  · intro ha
    obtain ⟨i,hi,hia⟩ := List.getElem_of_mem ha
    have hle : place a l ≤ i := by
      have hiff := getElem_lt_iff (a := a) hl hi
      rw [hia] at hiff
      simpa using hiff
    have hlt : place a l < l.length := by omega
    have hlow : a ≤ l[place a l] := by
      have hiff := getElem_lt_iff (a := a) hl hlt
      simpa using hiff
    have hhigh : l[place a l] ≤ a := by
      rcases Nat.lt_or_eq_of_le hle with h | h
      · exact (List.pairwise_iff_getElem.1 hl _ _ hlt hi h).trans hia.le
      · simp only [h]
        exact hia.le
    rw [List.getElem?_eq_getElem hlt,le_antisymm hhigh hlow]

end Sorted

end PriceOracle.Lib.BinarySearch
