import PriceOracle.Pricing.Statistics

/-! # The sorts

The heap sort of the trimmed statistics and the insertion sort of the reference median both leave
the one increasing arrangement of their prices, so reading a sorted list is reading an order
statistic. -/

namespace PriceOracle.Pricing

open Lib.MachineInt Lib.OrderStatistic Model.Pricing

/-- Position `c` lies directly below `i` in a heap. -/
def IsChild (i c : Nat) : Prop := c = 2 * i + 1 ∨ c = 2 * i + 2

/-- Below the positions from `root` on, no price of the heap of size `n` is greater. -/
def Heap (p : List Int) (n root : Nat) : Prop :=
  ∀ i c, root ≤ i → IsChild i c → c < n → get p c ≤ get p i

/-- What a sift needs of the order: the pairs below other positions than the current one are in
order, and so are the children of the current position with the one above it. -/
structure HeapExcept (p : List Int) (n root current : Nat) : Prop where
  except : ∀ i c, root ≤ i → i ≠ current → IsChild i c → c < n → get p c ≤ get p i
  grand : ∀ i c, root ≤ i → IsChild i current → IsChild current c → c < n → get p c ≤ get p i

section Sift

variable {p : List Int} {n root current largest : Nat}

theorem Heap.except (h : Heap p n (root+1)) : HeapExcept p n root root where
  except i c hi hne hc hcn := h i c (by omega) hc hcn
  grand i c hi hroot _ _ := by
    unfold IsChild at hroot
    omega

theorem HeapExcept.finish (h : HeapExcept p n root current)
    (hstop : ∀ c, IsChild current c → c < n → get p c ≤ get p current) : Heap p n root := by
  intro i c hi hc hcn
  by_cases hcurrent : i = current
  · subst hcurrent
    exact hstop c hc hcn
  · exact h.except i c hi hcurrent hc hcn

/-- Exchanging the current price with the greatest below it moves the exception down. -/
theorem HeapExcept.move (h : HeapExcept p n root current) (hn : n ≤ p.length)
    (hroot : root ≤ current) (hchild : IsChild current largest) (hlargest : largest < n)
    (hless : get p current < get p largest)
    (hmax : ∀ c, IsChild current c → c < n → get p c ≤ get p largest) :
    HeapExcept (swap p current largest) n root largest := by
  have hbelow : current < largest := by
    unfold IsChild at hchild
    omega
  have hget := get_swap (p := p) (i := current) (j := largest) (by omega) (by omega)
  constructor
  · intro i c hi hne hc hcn
    rw [hget c,hget i,if_neg hne]
    by_cases hcurrent : i = current
    · subst hcurrent
      rw [if_pos rfl]
      by_cases hsame : c = largest
      · rw [if_pos hsame]
        exact hless.le
      · have hci : c ≠ i := by
          unfold IsChild at hc
          omega
        rw [if_neg hsame,if_neg hci]
        exact hmax c hc hcn
    · rw [if_neg hcurrent]
      have hother : c ≠ largest := by
        unfold IsChild at hc hchild
        omega
      rw [if_neg hother]
      by_cases hup : c = current
      · rw [if_pos hup]
        subst hup
        exact h.grand i largest hi hc hchild hlargest
      · rw [if_neg hup]
        exact h.except i c hi hcurrent hc hcn
  · intro i c hi hparent hc hcn
    have hi' : i = current := by
      unfold IsChild at hparent hchild
      omega
    have hcl : c ≠ largest ∧ c ≠ current := by
      unfold IsChild at hc
      omega
    rw [hget c,hget i,if_neg hcl.1,if_neg hcl.2,if_neg (by omega),if_pos hi']
    exact h.except largest c (by omega) (by omega) hc hcn

/-- The position of the greater of two prices, if the second is in the heap. -/
def pick (p : List Int) (n best c : Nat) : Nat :=
  if c < n ∧ get p best < get p c then c else best

theorem pick_cases (p : List Int) (n best c : Nat) :
    pick p n best c = best ∧ (c < n → get p c ≤ get p best) ∨
      pick p n best c = c ∧ c < n ∧ get p best < get p c := by
  unfold pick
  by_cases h : c < n ∧ get p best < get p c
  · rw [if_pos h]
    exact .inr ⟨rfl,h⟩
  · rw [if_neg h]
    exact .inl ⟨rfl,fun hc => not_lt.1 fun hlt => h ⟨hc,hlt⟩⟩

/-- The position a sift compares the current one with: itself, or a child with a greater price. -/
theorem largest_spec (p : List Int) (n current largest : Nat)
    (hlargest : largest = pick p n (pick p n current (2 * current + 1)) (2 * current + 2)) :
    (∀ c, IsChild current c → c < n → get p c ≤ get p largest) ∧
      (largest = current ∨
        IsChild current largest ∧ largest < n ∧ get p current < get p largest) := by
  rcases pick_cases p n current (2 * current + 1) with ⟨hfirst,hle⟩ | ⟨hfirst,hlt,hless⟩
  all_goals
    rw [hfirst] at hlargest
    obtain hsecond := pick_cases p n _ (2 * current + 2)
    rw [← hlargest] at hsecond
    rcases hsecond with ⟨rfl,hle'⟩ | ⟨rfl,hlt',hless'⟩
  · refine ⟨?_,.inl rfl⟩
    rintro c (rfl | rfl) hc
    · exact hle hc
    · exact hle' hc
  · refine ⟨?_,.inr ⟨.inr rfl,hlt',hless'⟩⟩
    rintro c (rfl | rfl) hc
    · exact (hle hc).trans hless'.le
    · exact le_refl _
  · refine ⟨?_,.inr ⟨.inl rfl,hlt,hless⟩⟩
    rintro c (rfl | rfl) hc
    · exact le_refl _
    · exact hle' hc
  · refine ⟨?_,.inr ⟨.inr rfl,hlt',hless.trans hless'⟩⟩
    rintro c (rfl | rfl) hc
    · exact hless'.le
    · exact le_refl _

/-- A sift ends with the heap in order and moves prices inside it only. -/
theorem heapify_spec (fuel : Nat) (hn : n ≤ p.length) (hroot : root ≤ current)
    (hfuel : n ≤ fuel + current) (h : HeapExcept p n root current) :
    Heap (heapify fuel p n current) n root ∧
      Shuffles root (n - 1) p (heapify fuel p n current) := by
  induction fuel generalizing p current with
  | zero =>
    refine ⟨h.finish fun c hc hcn => ?_,Shuffles.refl p⟩
    unfold IsChild at hc
    omega
  | succ fuel ih =>
    unfold heapify
    extract_lets left right first largest
    obtain ⟨hmax,hlargest⟩ := largest_spec p n current largest rfl
    by_cases hstay : largest = current
    · rw [if_pos hstay]
      rw [hstay] at hmax
      exact ⟨h.finish hmax,Shuffles.refl p⟩
    · rw [if_neg hstay]
      obtain ⟨hchild,hln,hless⟩ := hlargest.resolve_left hstay
      have hbelow : current < largest := by
        unfold IsChild at hchild
        omega
      have hswap : Shuffles root (n - 1) p (swap p current largest) :=
        shuffles_swap (by omega) ⟨hroot,by omega⟩ ⟨by omega,by omega⟩
      obtain ⟨hheap,hrest⟩ := ih (by rw [hswap.length]; exact hn) (by omega) (by omega)
        (h.move hn hroot hchild hln hless hmax)
      exact ⟨hheap,hswap.trans hrest⟩

theorem buildHeap_heap {i : Nat} (hn : n ≤ p.length) (h : Heap p n (i+1)) :
    Heap (buildHeap n i p) n 0 ∧ (buildHeap n i p).length = p.length := by
  induction i generalizing p with
  | zero =>
    have hsift := heapify_spec n hn (le_refl 0) (by omega) h.except
    exact ⟨hsift.1,hsift.2.length⟩
  | succ i ih =>
    have hsift := heapify_spec n hn (le_refl (i+1)) (by omega) h.except
    have hlen := hsift.2.length
    obtain ⟨hbuilt,hbuiltlen⟩ := ih (by omega) hsift.1
    exact ⟨hbuilt,hbuiltlen.trans hlen⟩

theorem Heap.le_root (h : Heap p n 0) (i : Nat) (hi : i < n) : get p i ≤ get p 0 := by
  induction i using Nat.strong_induction_on with
  | _ i ih =>
    by_cases hzero : i = 0
    · rw [hzero]
    · have hchild : IsChild ((i - 1) / 2) i := by
        unfold IsChild
        omega
      exact (h _ i (Nat.zero_le _) hchild hi).trans (ih _ (by omega) (by omega))

end Sift

section Extraction

variable {p : List Int} {n stop : Nat}

/-- The prices from position `m` on are in order and not smaller than those before. -/
def TailSorted (p : List Int) (m : Nat) : Prop :=
  ∀ i j, i < j → m ≤ j → j < p.length → get p i ≤ get p j

/-- One extraction moves the greatest price of the heap to the front of the sorted tail. -/
theorem extract_spec (hstop : stop < p.length) (hn : stop ≤ n) (hheap : Heap p (stop+1) 0)
    (htail : TailSorted p (stop+1)) :
    Heap (heapify n (swap p 0 stop) stop 0) stop 0 ∧
      TailSorted (heapify n (swap p 0 stop) stop 0) stop ∧
      (heapify n (swap p 0 stop) stop 0).length = p.length := by
  have hget := get_swap (p := p) (i := 0) (j := stop) (by omega) hstop
  have hlen : (swap p 0 stop).length = p.length := (swap_perm (by omega) hstop).length_eq
  have hexcept : HeapExcept (swap p 0 stop) stop 0 0 := by
    constructor
    · intro i c _ hi hc hcn
      unfold IsChild at hc
      rw [hget c,hget i,if_neg (by omega),if_neg (by omega),if_neg (by omega),if_neg hi]
      exact hheap i c (Nat.zero_le i) hc (by omega)
    · intro i c _ hi _ _
      unfold IsChild at hi
      omega
  obtain ⟨hheap',hshuffles⟩ := heapify_spec n (by omega) (le_refl 0) (by omega) hexcept
  have hrlen := hshuffles.length
  refine ⟨hheap',?_,hrlen.trans hlen⟩
  have hroot (i : Nat) (hi : i ≤ stop) : get p i ≤ get p 0 := hheap.le_root i (by omega)
  intro i j hij hsj hj
  -- what the sift moved stands before `stop` and was in the heap
  have hfront : i < stop → ∃ k, k ≤ stop ∧ get (heapify n (swap p 0 stop) stop 0) i = get p k := by
    intro hi
    obtain ⟨k,-,hk,heq⟩ := hshuffles.inside i (Nat.zero_le i) (by omega)
    rw [heq,hget k,if_neg (by omega)]
    by_cases hzero : k = 0
    · rw [if_pos hzero]
      exact ⟨stop,le_refl stop,rfl⟩
    · rw [if_neg hzero]
      exact ⟨k,by omega,rfl⟩
  have hback (k : Nat) (hk : stop ≤ k) : get (heapify n (swap p 0 stop) stop 0) k =
      if k = stop then get p 0 else get p k := by
    have hsame : get (heapify n (swap p 0 stop) stop 0) k = get (swap p 0 stop) k := by
      by_cases hzero : k = 0
      · obtain ⟨l,-,hl,heq⟩ := hshuffles.inside 0 (le_refl 0) (by omega)
        rw [hzero,heq,show l = 0 by omega]
      · exact hshuffles.outside k (by omega)
    rw [hsame,hget k]
    split_ifs with hks hzero
    · rfl
    · omega
    · rfl
  rw [hback j hsj]
  by_cases hi : i < stop
  · obtain ⟨k,hk,heq⟩ := hfront hi
    rw [heq]
    split_ifs with hjs
    · exact hroot k hk
    · exact htail k j (by omega) (by omega) (by omega)
  · rw [hback i (by omega),if_neg (show j ≠ stop by omega)]
    split_ifs with his
    · exact htail 0 j (by omega) (by omega) (by omega)
    · exact htail i j hij (by omega) (by omega)

theorem extractHeap_sorted (hstop : stop < p.length) (hn : stop ≤ n) (hheap : Heap p (stop+1) 0)
    (htail : TailSorted p (stop+1)) : TailSorted (extractHeap n stop p) 0 := by
  induction stop generalizing p with
  | zero => exact (extract_spec hstop hn hheap htail).2.1
  | succ stop ih =>
    obtain ⟨hheap',htail',hlen⟩ := extract_spec hstop hn hheap htail
    exact ih (by omega) (by omega) hheap' htail'

/-- The heap sort leaves its prices in increasing order. -/
theorem sortPrices_pairwise (p : List Int) : (sortPrices p).Pairwise (· ≤ ·) := by
  unfold sortPrices
  extract_lets n
  by_cases hshort : n ≤ 1
  · rcases p with _ | ⟨a,_ | ⟨b,p⟩⟩
    · exact .nil
    · exact List.pairwise_singleton _ a
    · simp [n] at hshort
  · rw [if_neg hshort]
    have hbottom : Heap p n (n / 2 + 1) := by
      intro i c hi hc hcn
      unfold IsChild at hc
      omega
    obtain ⟨hheap,hlen⟩ := buildHeap_heap (le_refl n) hbottom
    have hsorted : TailSorted (extractHeap n (n - 1) (buildHeap n (n / 2) p)) 0 := by
      apply extractHeap_sorted
      · omega
      · omega
      · rw [show n - 1 + 1 = n by omega]
        exact hheap
      · intro i j _ hj hjl
        omega
    rw [List.pairwise_iff_getElem]
    intro i j hi hj hij
    have hle := hsorted i j hij (Nat.zero_le j) hj
    simpa [Model.Pricing.get,hi,hj] using hle

end Extraction

theorem sorted_unique {p q : List Int} (hperm : q.Perm p) (hsorted : q.Pairwise (· ≤ ·)) :
    q = p.insertionSort (· ≤ ·) :=
  (hperm.trans (List.perm_insertionSort _ p).symm).eq_of_pairwise' hsorted
    (List.pairwise_insertionSort (· ≤ ·) p)

theorem sortPrices_eq (p : List Int) : sortPrices p = p.insertionSort (· ≤ ·) :=
  sorted_unique (sortPrices_perm p) (sortPrices_pairwise p)

theorem get_insertionSort (p : List Int) (i : Nat) :
    get (p.insertionSort (· ≤ ·)) i = (kth p i).getD 0 := by
  unfold Model.Pricing.get kth
  rw [List.getD_eq_getElem?_getD]

section Insertion

variable {p : List Int} {left i j : Nat}

def SortedUpTo (p : List Int) (left i : Nat) : Prop :=
  ∀ a b, left ≤ a → a < b → b ≤ i → get p a ≤ get p b

/-- The prices from `left` to `i` are in order but for the one at `j`, which goes before those
right of it. -/
structure Inserting (p : List Int) (left i j : Nat) : Prop where
  others : ∀ a b, left ≤ a → a < b → b ≤ i → a ≠ j → b ≠ j → get p a ≤ get p b
  after : ∀ b, j < b → b ≤ i → get p j ≤ get p b

theorem Inserting.finish (h : Inserting p left i j)
    (hstop : left < j → get p (j - 1) ≤ get p j) : SortedUpTo p left i := by
  intro a b ha hab hb
  by_cases haj : a = j
  · rw [haj]
    exact h.after b (by omega) hb
  · by_cases hbj : b = j
    · subst hbj
      by_cases hlast : a = b - 1
      · rw [hlast]
        exact hstop (by omega)
      · exact (h.others a (b - 1) ha (by omega) (by omega) haj (by omega)).trans (hstop (by omega))
    · exact h.others a b ha hab hb haj hbj

/-- Moving the smaller price one place left. -/
theorem Inserting.move (h : Inserting p left i (j+1)) (hi : i < p.length) (hj : j+1 ≤ i)
    (hleft : left < j+1) (hless : get p (j+1) < get p j) :
    Inserting (swap p (j+1) j) left i j := by
  have hget := get_swap (p := p) (i := j+1) (j := j) (by omega) (by omega)
  constructor
  · intro a b ha hab hb haj hbj
    rw [hget a,hget b,if_neg haj,if_neg hbj]
    split_ifs with haj1 hbj1
    · omega
    · exact h.others j b (by omega) (by omega) hb (by omega) (by omega)
    · exact h.others a j ha (by omega) (by omega) (by omega) (by omega)
    · exact h.others a b ha hab hb (by omega) (by omega)
  · intro b hbj hb
    rw [hget b,hget j,if_pos rfl,if_neg (show b ≠ j by omega)]
    split_ifs with hbj1
    · exact hless.le
    · exact h.after b (by omega) hb

theorem insertLeft_sorted (hi : i < p.length) (hj : j ≤ i) (h : Inserting p left i j) :
    SortedUpTo (insertLeft left j p) left i := by
  induction j generalizing p with
  | zero => exact h.finish (by omega)
  | succ j ih =>
    unfold insertLeft
    by_cases hmove : left < j+1 ∧ get p (j+1) < get p j
    · rw [if_pos hmove]
      apply ih
      · rw [(swap_perm (by omega) (by omega)).length_eq]
        exact hi
      · omega
      · exact h.move hi hj hmove.1 hmove.2
    · rw [if_neg hmove]
      apply h.finish
      intro hleft
      exact not_lt.1 fun hless => hmove ⟨hleft,hless⟩

/-- Inserting one price after the other sorts the range. -/
theorem insertLoop_sorted (left n : Nat) (hn : left + n < p.length) :
    SortedUpTo ((List.range' (left+1) n).foldl (fun p i => insertLeft left i p) p) left
      (left + n) ∧
    Shuffles left (left + n) p
      ((List.range' (left+1) n).foldl (fun p i => insertLeft left i p) p) := by
  induction n with
  | zero =>
    refine ⟨fun a b ha hab hb => ?_,Shuffles.refl p⟩
    omega
  | succ n ih =>
    obtain ⟨hsorted,hshuffles⟩ := ih (by omega)
    have hlen := hshuffles.length
    rw [List.range'_1_concat,List.foldl_append,show left + 1 + n = left + (n+1) by omega]
    set q := (List.range' (left+1) n).foldl (fun p i => insertLeft left i p) p
    have hinserting : Inserting q left (left + (n+1)) (left + (n+1)) := by
      constructor
      · intro a b ha hab hb _ hbn
        exact hsorted a b ha hab (by omega)
      · omega
    refine ⟨insertLeft_sorted (by omega) (le_refl _) hinserting,?_⟩
    exact (hshuffles.widen (le_refl left) (by omega)).trans
      (insertLeft_shuffles (le_refl _) (by omega))

theorem shiftRight_set {key : Int} (hj : j < p.length) :
    (shiftRight key j p).1.set (shiftRight key j p).2 key = insertLeft 0 j (p.set j key) := by
  induction j generalizing p with
  | zero => rfl
  | succ j ih =>
    have hkey : get (p.set (j+1) key) (j+1) = key := by simp [Model.Pricing.get,hj]
    have hprev : get (p.set (j+1) key) j = get p j := by simp [Model.Pricing.get]
    unfold shiftRight insertLeft
    rw [hkey,hprev]
    by_cases hless : key < get p j
    · rw [if_pos hless,if_pos ⟨by omega,hless⟩,ih (by simp; omega)]
      unfold swap
      rw [hkey,hprev,List.set_set]
    · rw [if_neg hless,if_neg (fun h => hless h.2)]

theorem insertAt_eq (hi : i < p.length) : insertAt p i = insertLeft 0 i p := by
  have hself : p.set i (get p i) = p := by simp [Model.Pricing.get,hi]
  change (shiftRight (get p i) i p).1.set (shiftRight (get p i) i p).2 (get p i) = _
  rw [shiftRight_set hi,hself]

/-- The insertion sort leaves the increasing arrangement of its prices. -/
theorem sortAscending_eq (p : List Int) : sortAscending p = p.insertionSort (· ≤ ·) := by
  unfold sortAscending
  extract_lets n
  by_cases hshort : n ≤ 1
  · rcases p with _ | ⟨a,_ | ⟨b,p⟩⟩
    · rfl
    · rfl
    · simp [n] at hshort
  · rw [if_neg hshort]
    obtain ⟨hsorted,hshuffles⟩ :=
      insertLoop_sorted 0 (n - 1) (show 0 + (n - 1) < p.length by omega)
    have hloop (m : Nat) (hm : m < p.length) : (List.range' 1 m).foldl insertAt p =
        (List.range' 1 m).foldl (fun p i => insertLeft 0 i p) p := by
      induction m with
      | zero => rfl
      | succ m ih =>
        have hlen : ((List.range' 1 m).foldl (fun p i => insertLeft 0 i p) p).length = p.length :=
          (insertLoop_sorted 0 m (by omega)).2.length
        rw [List.range'_1_concat,List.foldl_append,List.foldl_append,ih (by omega)]
        exact insertAt_eq (by omega)
    rw [hloop (n - 1) (by omega)]
    apply sorted_unique hshuffles.perm
    have hlen := hshuffles.length
    rw [List.pairwise_iff_getElem]
    intro i j hi hj hij
    have hle := hsorted i j (Nat.zero_le i) hij (by omega)
    simpa [Model.Pricing.get,hi,hj] using hle

end Insertion

end PriceOracle.Pricing

/-! ## The canonical median

The selection in place and the sorting reference compute one median: the middle price, or the middle
two joined at `lo + (hi - lo) / 2`. -/

namespace PriceOracle.Pricing

open Lib.MachineInt Lib.OrderStatistic Model.Pricing

/-- The middle of the sorted prices; for an even number, `lo + (hi - lo) / 2` of the middle two. -/
def sortedMedian (xs : List Int) : Int :=
  let sorted := xs.insertionSort (· ≤ ·)
  if xs.length % 2 = 1 then sorted.getD (xs.length / 2) 0
  else
    let lo := sorted.getD (xs.length / 2 - 1) 0
    let hi := sorted.getD (xs.length / 2) 0
    lo + (hi - lo) / 2

section Canonical

variable {xs ys : List Int} {S : Finset Nat} {a b : Int}

/-- The midpoint of prices whose difference fits is computed exactly. -/
theorem midpoint_exact (ha : IsI128 a) (hb : IsI128 b) (hab : a ≤ b) (hdiff : IsI128 (b - a)) :
    midpoint a b = a + (b - a) / 2 := by
  have hhalf : (b - a).tdiv 2 = (b - a) / 2 := Int.tdiv_eq_ediv_of_nonneg (by omega)
  have hfits : IsI128 (a + (b - a) / 2) := by
    obtain ⟨hlow,-⟩ := ha
    obtain ⟨-,hhigh⟩ := hb
    constructor <;> omega
  unfold Model.Pricing.midpoint wrapSub wrapAdd
  rw [wrap_of_isI128 hdiff,hhalf,wrap_of_isI128 hfits]

theorem computeMedian_eq_canonicalMedian (xs : List Int) :
    computeMedian xs = canonicalMedian xs := by
  by_cases hempty : xs = []
  · subst hempty
    rfl
  · have hpos : 0 < xs.length := List.length_pos_iff.2 hempty
    rw [computeMedian_kth hempty]
    unfold canonicalMedian
    rw [if_neg hpos.ne']
    dsimp only
    rw [sortAscending_eq,get_insertionSort,get_insertionSort]
    by_cases heven : xs.length % 2 = 0
    · rw [if_pos heven,if_neg (by omega)]
    · rw [if_neg heven,if_pos (by omega)]

/-- The median depends on the multiset of the prices only. -/
theorem computeMedian_perm (h : ys.Perm xs) : computeMedian ys = computeMedian xs := by
  by_cases hempty : xs = []
  · rw [hempty] at h ⊢
    rw [List.perm_nil.1 h]
  · have hne : ys ≠ [] := by
      intro hnil
      rw [hnil,List.nil_perm] at h
      exact hempty h
    rw [computeMedian_kth hne,computeMedian_kth hempty,h.length_eq,kth_perm h,kth_perm h]

theorem computeMedian_eq_sortedMedian (hne : xs ≠ []) (hxs : ∀ x ∈ xs, IsI128 x)
    (hdiff : ∀ x ∈ xs, ∀ y ∈ xs, IsI128 (x - y)) : computeMedian xs = sortedMedian xs := by
  have hpos : 0 < xs.length := List.length_pos_iff.2 hne
  rw [computeMedian_kth hne]
  change _ = if xs.length % 2 = 1 then get _ _ else get _ _ + (get _ _ - get _ _) / 2
  rw [get_insertionSort,get_insertionSort]
  by_cases heven : xs.length % 2 = 0
  · rw [if_pos heven,if_neg (by omega)]
    obtain ⟨a,ha⟩ := exists_kth (show xs.length / 2 - 1 < xs.length by omega)
    obtain ⟨b,hb⟩ := exists_kth (show xs.length / 2 < xs.length by omega)
    rw [ha,hb,Option.getD_some,Option.getD_some]
    have hab := kth_le_kth (by omega) ha hb
    exact midpoint_exact (hxs a (kth_mem ha)) (hxs b (kth_mem hb)) hab
      (hdiff b (kth_mem hb) a (kth_mem ha))
  · rw [if_neg heven,if_pos (by omega)]

theorem computeMedian_withinRest (hys : ∀ y ∈ ys, IsI128 y) (hminority : 2 * S.card < ys.length)
    (hdiff : ∀ i j x y, i ∉ S → j ∉ S → ys[i]? = some x → ys[j]? = some y → IsI128 (x - y)) :
    WithinRest ys S (computeMedian ys) := by
  have hne : ys ≠ [] := by
    rintro rfl
    simp at hminority
  rw [computeMedian_kth hne]
  obtain ⟨b,hb⟩ := exists_kth (show ys.length / 2 < ys.length by omega)
  have hupper : WithinRest ys S b := withinRest_of_kth hb (by omega) (by omega)
  by_cases heven : ys.length % 2 = 0
  · obtain ⟨a,ha⟩ := exists_kth (show ys.length / 2 - 1 < ys.length by omega)
    have hlower : WithinRest ys S a := withinRest_of_kth ha (by omega) (by omega)
    rw [ha,hb,Option.getD_some,Option.getD_some]
    have hab := kth_le_kth (by omega) ha hb
    -- the middle two are as close as the untouched prices around them
    have hfits : IsI128 (b - a) := by
      obtain ⟨⟨i,x,hi,hx,hxa⟩,-⟩ := hlower
      obtain ⟨-,j,y,hj,hy,hby⟩ := hupper
      have hxy := hdiff j i y x hj hi hy hx
      unfold IsI128 i128Min at hxy ⊢
      omega
    rw [midpoint_exact (hys a (kth_mem ha)) (hys b (kth_mem hb)) hab hfits]
    exact hlower.between hupper (by omega) (by omega)
  · rw [if_neg heven,hb,Option.getD_some]
    exact hupper

theorem diff_fits_of_positive (hxs : ∀ x ∈ xs, IsPrice x) :
    ∀ x ∈ xs, ∀ y ∈ xs, IsI128 (x - y) := by
  intro x hx y hy
  obtain ⟨hxpos,-,hxmax⟩ := hxs x hx
  obtain ⟨hypos,-,hymax⟩ := hxs y hy
  unfold IsI128 i128Min
  unfold i128Max at hxmax hymax ⊢
  omega

end Canonical

/-- `compute_median` is the canonical median of every list of prices whose differences fit: exact,
independent of the order, and among the untouched prices when fewer than half are replaced by
anything. -/
theorem computeMedian_canonical (xs : List Int) (hne : xs ≠ []) (hxs : ∀ x ∈ xs, IsI128 x)
    (hdiff : ∀ x ∈ xs, ∀ y ∈ xs, IsI128 (x - y)) :
    computeMedian xs = canonicalMedian xs ∧ computeMedian xs = sortedMedian xs ∧
      (∀ ys, ys.Perm xs → computeMedian ys = computeMedian xs) ∧
      ∀ (ys : List Int) (replaced : Finset Nat), ys.length = xs.length → (∀ y ∈ ys, IsI128 y) →
        2 * replaced.card < xs.length → (∀ i, i ∉ replaced → ys[i]? = xs[i]?) →
        WithinRest xs replaced (computeMedian ys) := by
  refine ⟨computeMedian_eq_canonicalMedian xs,computeMedian_eq_sortedMedian hne hxs hdiff,
    fun ys h => computeMedian_perm h,?_⟩
  intro ys replaced hlen hys hminority hkept
  have hfits (i j : Nat) (x y : Int) (hi : i ∉ replaced) (hj : j ∉ replaced)
      (hx : ys[i]? = some x) (hy : ys[j]? = some y) : IsI128 (x - y) := by
    rw [hkept i hi] at hx
    rw [hkept j hj] at hy
    exact hdiff x (List.mem_of_getElem? hx) y (List.mem_of_getElem? hy)
  have hwithin : WithinRest ys replaced (computeMedian ys) :=
    computeMedian_withinRest hys (by omega) hfits
  obtain ⟨⟨i,x,hi,hx,hlow⟩,j,y,hj,hy,hhigh⟩ := hwithin
  rw [hkept i hi] at hx
  rw [hkept j hj] at hy
  exact ⟨⟨i,x,hi,hx,hlow⟩,j,y,hj,hy,hhigh⟩

/-- Three prices, the first of which may be replaced by anything. -/
theorem computeMedian_canonical_three :
    computeMedian [7, 3, 5] = canonicalMedian [7, 3, 5] ∧
      computeMedian [7, 3, 5] = sortedMedian [7, 3, 5] ∧
      (∀ ys, ys.Perm [7, 3, 5] → computeMedian ys = computeMedian [7, 3, 5]) ∧
      ∀ (ys : List Int) (replaced : Finset Nat), ys.length = 3 → (∀ y ∈ ys, IsI128 y) →
        2 * replaced.card < 3 → (∀ i, i ∉ replaced → ys[i]? = [7, 3, 5][i]?) →
        WithinRest [7, 3, 5] replaced (computeMedian ys) := by
  have hprices : ∀ x ∈ ([7,3,5] : List Int), IsPrice x := by decide
  exact computeMedian_canonical [7,3,5] (by simp) (fun x hx => (hprices x hx).2)
    (diff_fits_of_positive hprices)

end PriceOracle.Pricing
