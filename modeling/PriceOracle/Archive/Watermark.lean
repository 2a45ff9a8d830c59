import PriceOracle.Archive.Index
import PriceOracle.Model.HistoryReaders

/-! # The completeness watermark

The watermark stands for the ledgers up to the first one without an entry. The scan passes over any
distance up to twice the most common stride, and puts the start of a gap one stride after the entry
before it. -/

namespace PriceOracle.Archive

open Lib.First Lib.MachineInt Lib.Run Lib.SortedIndex Model

/-- Each ledger is the successor of the one before it. -/
def Consecutive (a b : Nat) : Prop := b = a + 1

deriving instance Decidable for Consecutive

def GapFree (index : List Nat) : Prop :=
  ∀ l ∈ index, ∀ m ∈ index, ∀ k, l ≤ k → k ≤ m → k ∈ index

section Gaps

variable {index before after : List Nat} {first prev curr : Nat} {rest : List Nat}

theorem mem_of_consecutive (hchain : (first :: rest).IsChain Consecutive) {m k : Nat}
    (hm : m ∈ first :: rest) (hlow : first ≤ k) (hhigh : k ≤ m) : k ∈ first :: rest := by
  induction rest generalizing first with
  | nil =>
    rw [List.mem_singleton] at hm ⊢
    omega
  | cons next rest ih =>
    obtain ⟨hnext,hchain⟩ := List.isChain_cons_cons.1 hchain
    rcases hlow.eq_or_lt with rfl | hlow
    · exact List.mem_cons_self
    · unfold Consecutive at hnext
      have hm' : m ∈ next :: rest := by
        rcases List.mem_cons.1 hm with rfl | hm
        · omega
        · exact hm
      exact List.mem_cons_of_mem first (ih hchain hm' (by omega))

section Break

variable (hsorted : (before ++ prev :: curr :: after).Pairwise (· < ·))

include hsorted

theorem prev_lt_curr : prev < curr := by
  obtain ⟨-,hrest,-⟩ := List.pairwise_append.1 hsorted
  exact (List.pairwise_cons.1 hrest).1 curr List.mem_cons_self

/-- The successor of the last ledger before a gap is missing. -/
theorem succ_not_mem (hgap : ¬Consecutive prev curr) :
    prev+1 ∉ before ++ prev :: curr :: after := by
  obtain ⟨-,hrest,hcross⟩ := List.pairwise_append.1 hsorted
  obtain ⟨hprev,hrest⟩ := List.pairwise_cons.1 hrest
  obtain ⟨hcurr,-⟩ := List.pairwise_cons.1 hrest
  have hlt := prev_lt_curr hsorted
  unfold Consecutive at hgap
  intro hmem
  rcases List.mem_append.1 hmem with hmem | hmem
  · have := hcross _ hmem prev List.mem_cons_self
    omega
  · rcases List.mem_cons.1 hmem with heq | hmem
    · omega
    · rcases List.mem_cons.1 hmem with heq | hmem
      · omega
      · have := hcurr _ hmem
        omega

theorem not_gapFree (hgap : ¬Consecutive prev curr) :
    ¬GapFree (before ++ prev :: curr :: after) := by
  intro hfree
  have hlt := prev_lt_curr hsorted
  exact succ_not_mem hsorted hgap (hfree prev (by simp) curr (by simp) _ (Nat.le_succ _) hlt)

theorem curr_le {k : Nat} (hk : k ∈ before ++ prev :: curr :: after) (hlt : prev < k) :
    curr ≤ k := by
  obtain ⟨-,hrest,hcross⟩ := List.pairwise_append.1 hsorted
  obtain ⟨-,hrest⟩ := List.pairwise_cons.1 hrest
  rcases List.mem_append.1 hk with hk | hk
  · have := hcross k hk prev List.mem_cons_self
    omega
  · rcases List.mem_cons.1 hk with heq | hk
    · omega
    · rcases List.mem_cons.1 hk with rfl | hk
      · exact le_rfl
      · exact ((List.pairwise_cons.1 hrest).1 k hk).le

theorem first_le_prev (hfirst : (before ++ prev :: curr :: after).head? = some first) :
    first ≤ prev := by
  obtain ⟨-,-,hcross⟩ := List.pairwise_append.1 hsorted
  cases before with
  | nil => cases hfirst; exact le_rfl
  | cons c before =>
    cases hfirst
    exact (hcross _ List.mem_cons_self prev List.mem_cons_self).le

theorem mem_before_gap (hchain : (before ++ [prev]).IsChain Consecutive)
    (hfirst : (before ++ prev :: curr :: after).head? = some first) {k : Nat} (hlow : first ≤ k)
    (hhigh : k ≤ prev) : k ∈ before ++ prev :: curr :: after := by
  obtain ⟨rest,hrest⟩ : ∃ rest, before ++ [prev] = first :: rest := by
    cases before with
    | nil => exact ⟨[],by rw [List.nil_append,List.head?_cons] at hfirst; cases hfirst; rfl⟩
    | cons c before => exact ⟨before ++ [prev],by cases hfirst; rfl⟩
  rw [hrest] at hchain
  have hmem := mem_of_consecutive hchain (by rw [← hrest]; simp) hlow hhigh
  rw [← hrest] at hmem
  rw [List.mem_append,List.mem_singleton] at hmem
  rw [List.mem_append,List.mem_cons]
  exact hmem.imp_right Or.inl

/-- Nothing is missing up to the last ledger before a gap, and no further. -/
theorem covered_iff (hchain : (before ++ [prev]).IsChain Consecutive) (hgap : ¬Consecutive prev curr)
    (hfirst : (before ++ prev :: curr :: after).head? = some first) {m : Nat} :
    (∀ l, first ≤ l → l ≤ m → l ∈ before ++ prev :: curr :: after) ↔ m ≤ prev := by
  constructor
  · intro hm
    by_contra hbeyond
    have hle := first_le_prev hsorted hfirst
    exact succ_not_mem hsorted hgap (hm _ (hle.trans (Nat.le_succ _)) (not_le.1 hbeyond))
  · intro hm l hlow hhigh
    exact mem_before_gap hsorted hchain hfirst hlow (hhigh.trans hm)

end Break

theorem gapFree_iff (hsorted : index.Pairwise (· < ·)) :
    GapFree index ↔ index.IsChain Consecutive := by
  constructor
  · intro hfree
    rcases isChain_or_break Consecutive index with hchain | ⟨before,prev,curr,after,rfl,-,hgap⟩
    · exact hchain
    · exact absurd hfree (not_gapFree hsorted hgap)
  · intro hchain l hl m hm k hlow hhigh
    cases index with
    | nil => exact absurd hl List.not_mem_nil
    | cons first rest =>
      have hfirst : first ≤ l := by
        rcases List.mem_cons.1 hl with rfl | hl
        · exact le_rfl
        · exact ((List.pairwise_cons.1 hsorted).1 l hl).le
      exact mem_of_consecutive hchain hm (hfirst.trans hlow) hhigh

end Gaps

section Scan

variable {stride x prev curr : Nat} {ls before after : List Nat}

def tolerance (stride : Nat) : Nat := max (satMul32 stride 2) (wrap32 (stride + 1))

theorem watermarkScan_cons (stride x y : Nat) (ls : List Nat) :
    watermarkScan stride x (y :: ls) = if tolerance stride < y - x then
      (x,some (satAdd32 x stride)) else watermarkScan stride y ls := rfl

theorem watermarkScan_through (hchain : (x :: ls).IsChain fun a b => b - a ≤ tolerance stride) :
    watermarkScan stride x ls = ((x :: ls).getLast (List.cons_ne_nil _ _),none) := by
  induction ls generalizing x with
  | nil => rfl
  | cons y ls ih =>
    obtain ⟨hstep,hchain⟩ := List.isChain_cons_cons.1 hchain
    rw [watermarkScan_cons,if_neg (not_lt.2 hstep),ih hchain,List.getLast_cons_cons]

theorem watermarkScan_gap (hsplit : x :: ls = before ++ prev :: curr :: after)
    (hchain : (before ++ [prev]).IsChain fun a b => b - a ≤ tolerance stride)
    (hgap : tolerance stride < curr - prev) :
    watermarkScan stride x ls = (prev,some (satAdd32 prev stride)) := by
  induction before generalizing x ls with
  | nil =>
    obtain ⟨rfl,rfl⟩ := List.cons.inj hsplit
    rw [watermarkScan_cons,if_pos hgap]
  | cons b before ih =>
    obtain ⟨rfl,hls⟩ := List.cons.inj hsplit
    rw [List.cons_append,List.isChain_cons] at hchain
    obtain ⟨hstep,hchain⟩ := hchain
    cases ls with
    | nil => simp at hls
    | cons y ls =>
      have hhead : (before ++ [prev]).head? = (y :: ls).head? := by
        rw [hls]
        cases before <;> rfl
      rw [watermarkScan_cons,if_neg (not_lt.2 (hstep y (by rw [hhead]; rfl))),ih hls hchain]

end Scan

section Stride

variable {index : List Nat} {first next : Nat} {rest : List Nat}

def strideCount (index : List Nat) (s : Nat) : Nat := (sampleStrides index).count s

theorem one_le_dominantStride (index : List Nat) : 1 ≤ computeDominantStride index := by
  unfold computeDominantStride
  split_ifs
  · exact le_rfl
  · dsimp only
    split_ifs <;> omega

theorem sampleStrides_pos (hsorted : index.Pairwise (· < ·)) {s : Nat}
    (hs : s ∈ sampleStrides index) : 0 < s := by
  have hsample : (index.take 16).Pairwise (· < ·) := hsorted.sublist (List.take_sublist 16 index)
  obtain ⟨i,hi,rfl⟩ := List.mem_iff_getElem.1 hs
  unfold sampleStrides at hi ⊢
  rw [List.length_zipWith,List.length_tail] at hi
  rw [List.getElem_zipWith,List.getElem_tail]
  have := List.pairwise_iff_getElem.1 hsample i (i+1) (by omega) (by omega) (Nat.lt_succ_self i)
  omega

/-- The dominant stride is the first of the most common ones. -/
theorem dominantStride_isFirst (hsorted : (first :: next :: rest).Pairwise (· < ·)) :
    IsFirst (strideCount (first :: next :: rest)) (sampleStrides (first :: next :: rest))
      (computeDominantStride (first :: next :: rest)) := by
  set index := first :: next :: rest
  have hsome : next - first ∈ sampleStrides index := by
    simp [sampleStrides,index]
  unfold computeDominantStride
  dsimp only
  rcases foldl_isFirst (strideCount index) (sampleStrides index) ((sampleStrides index).headD 0) 0
    with ⟨-,hnone⟩ | ⟨s,heq,hpos,hfirst⟩
  · have hcount : 0 < strideCount index (next - first) := List.count_pos_iff.2 hsome
    exact absurd (hnone _ hsome) (not_le.2 hcount)
  · have hmem : s ∈ sampleStrides index := List.count_pos_iff.1 hpos
    have hs := sampleStrides_pos hsorted hmem
    have hbest : (List.foldl (fun (best : Nat × Nat) s =>
        if best.2 < (sampleStrides index).count s then (s,(sampleStrides index).count s) else best)
          ((sampleStrides index).headD 0,0) (sampleStrides index)) = (s,strideCount index s) := heq
    rw [hbest,if_neg hs.ne']
    exact hfirst

theorem dominantStride_eq_iff (hsorted : (first :: next :: rest).Pairwise (· < ·)) {s : Nat} :
    computeDominantStride (first :: next :: rest) = s ↔
      IsFirst (strideCount (first :: next :: rest)) (sampleStrides (first :: next :: rest)) s := by
  constructor
  · rintro rfl
    exact dominantStride_isFirst hsorted
  · exact (dominantStride_isFirst hsorted).unique

end Stride

section Record

variable {h : History} {asset : Address} {index : List Nat} {first : Nat} {rest : List Nat}

/-- The watermark is the last ledger up to which nothing is missing, and the record says whether
something is missing after it. -/
structure Complete (index : List Nat) (wm : CompletenessWatermark) : Prop where
  first : index.head? = some wm.firstLedger
  covered : ∀ l, wm.firstLedger ≤ l → l ≤ wm.watermarkLedger → l ∈ index
  largest : ∀ m, (∀ l, wm.firstLedger ≤ l → l ≤ m → l ∈ index) → m ≤ wm.watermarkLedger
  contiguous : wm.isContiguous = true ↔ GapFree index
  gap : wm.isContiguous = false → wm.gapStartLedger = wm.watermarkLedger + 1

/-- One is the most common stride, and the first gap leaves out more than one ledger. -/
structure Noticed (index : List Nat) : Prop where
  stride : IsFirst (strideCount index) (sampleStrides index) 1
  gap : ∃ before prev curr after, index = before ++ prev :: curr :: after ∧
    (before ++ [prev]).IsChain Consecutive ∧ prev + 2 < curr

theorem watermark_eq (hledgers : h.ledgerList asset = first :: rest) :
    let scan := watermarkScan (computeDominantStride (first :: rest)) first rest
    (h.watermark asset).firstLedger = first ∧ (h.watermark asset).watermarkLedger = scan.1 ∧
      (h.watermark asset).isContiguous = scan.2.isNone ∧
      (h.watermark asset).gapStartLedger = scan.2.getD 0 := by
  unfold History.watermark
  rw [hledgers]
  cases rest with
  | nil => exact ⟨rfl,rfl,rfl,rfl⟩
  | cons next rest => exact ⟨rfl,rfl,rfl,rfl⟩

theorem complete_of_gapFree (hledgers : h.ledgerList asset = first :: rest)
    (hsorted : (first :: rest).Pairwise (· < ·)) (hfree : GapFree (first :: rest)) :
    Complete (first :: rest) (h.watermark asset) := by
  obtain ⟨hfirst,hlast,hcontiguous,-⟩ := watermark_eq hledgers
  have hstride := one_le_dominantStride (first :: rest)
  have htolerance : 1 ≤ tolerance (computeDominantStride (first :: rest)) := by
    refine le_max_of_le_left ?_
    unfold satMul32 u32Max
    omega
  have hchain : (first :: rest).IsChain fun a b =>
      b - a ≤ tolerance (computeDominantStride (first :: rest)) := by
    apply ((gapFree_iff hsorted).1 hfree).imp
    intro a b hab
    unfold Consecutive at hab
    omega
  rw [watermarkScan_through hchain] at hlast hcontiguous
  constructor
  · rw [hfirst]
    rfl
  · intro l hlow hhigh
    rw [hfirst] at hlow
    rw [hlast] at hhigh
    exact hfree first List.mem_cons_self _ (List.getLast_mem _) l hlow hhigh
  · intro m hm
    rw [hlast]
    have hend : (first :: rest).getLast (List.cons_ne_nil _ _) ∈ (first :: rest).getLast? :=
      List.getLast?_eq_some_getLast _
    rcases Nat.lt_or_ge m first with hlt | hge
    · exact hlt.le.trans (le_last hsorted hend List.mem_cons_self)
    · exact le_last hsorted hend (hm m (hfirst.trans_le hge) le_rfl)
  · rw [hcontiguous]
    exact ⟨fun _ => hfree,fun _ => rfl⟩
  · intro hno
    rw [hcontiguous] at hno
    exact absurd hno (by simp)

theorem complete_of_noticed (hledgers : h.ledgerList asset = first :: rest)
    (hsorted : (first :: rest).Pairwise (· < ·)) (hbound : ∀ l ∈ first :: rest, l ≤ u32Max)
    (hnoticed : Noticed (first :: rest)) : Complete (first :: rest) (h.watermark asset) := by
  obtain ⟨hstride,before,prev,curr,after,hsplit,hchain,hfar⟩ := hnoticed
  obtain ⟨hfirst,hlast,hcontiguous,hgapStart⟩ := watermark_eq hledgers
  have hone : computeDominantStride (first :: rest) = 1 := by
    cases rest with
    | nil => rfl
    | cons next rest => exact (dominantStride_eq_iff hsorted).2 hstride
  have hclose : (before ++ [prev]).IsChain fun a b => b - a ≤ tolerance 1 := by
    apply hchain.imp
    intro a b hab
    unfold Consecutive at hab
    have : tolerance 1 = 2 := by decide
    omega
  have hgap : ¬Consecutive prev curr := by
    unfold Consecutive
    omega
  have hcurr : curr ≤ u32Max := hbound curr (by rw [hsplit]; simp)
  have hscan := watermarkScan_gap hsplit hclose (show 2 < curr - prev by omega)
  have hhead : (before ++ prev :: curr :: after).head? = some first := by
    rw [← hsplit]
    rfl
  rw [hone,hscan] at hlast hcontiguous hgapStart
  rw [hsplit] at hsorted ⊢
  have hcovered := fun m => covered_iff hsorted hchain hgap hhead (m := m)
  constructor
  · rw [hfirst,hhead]
  · rw [hfirst,hlast]
    exact (hcovered prev).2 le_rfl
  · intro m hm
    rw [hfirst] at hm
    rw [hlast]
    exact (hcovered m).1 hm
  · rw [hcontiguous]
    exact ⟨fun hyes => absurd hyes (by simp),fun hfree => absurd hfree (not_gapFree hsorted hgap)⟩
  · intro _
    rw [hgapStart,hlast]
    exact Nat.min_eq_left (by omega)

/-- A watermark that is right stops before the first gap. -/
theorem noticed_of_complete (hledgers : h.ledgerList asset = first :: rest)
    (hsorted : (first :: rest).Pairwise (· < ·)) (hbound : ∀ l ∈ first :: rest, l ≤ u32Max)
    (hgapped : ¬GapFree (first :: rest))
    (hcomplete : Complete (first :: rest) (h.watermark asset)) : Noticed (first :: rest) := by
  obtain ⟨hfirst,hlast,hcontiguous,hgapStart⟩ := watermark_eq hledgers
  set stride := computeDominantStride (first :: rest) with hstride
  have hflag : (h.watermark asset).isContiguous = false := by
    rw [← Bool.not_eq_true,hcomplete.contiguous]
    exact hgapped
  rcases isChain_or_break Consecutive (first :: rest) with
    hchain | ⟨before,prev,curr,after,hsplit,hchain,hgap⟩
  · exact absurd ((gapFree_iff hsorted).2 hchain) hgapped
  rcases isChain_or_break (fun a b => b - a ≤ tolerance stride) (first :: rest) with
    hclose | ⟨before',prev',curr',after',hsplit',hclose,hfar⟩
  · rw [watermarkScan_through hclose] at hcontiguous
    exact absurd (hcontiguous.symm.trans hflag) (by simp)
  have hscan := watermarkScan_gap hsplit' hclose (not_le.1 hfar)
  rw [hscan] at hlast hgapStart
  have hhead : (before ++ prev :: curr :: after).head? = some first := by
    rw [← hsplit]
    rfl
  have hsorted' := hsorted
  rw [hsplit] at hsorted
  rw [hsplit'] at hsorted'
  have hcovered := fun m => covered_iff hsorted hchain hgap hhead (m := m)
  -- both scans stop at the same ledger
  have hprev : prev' = prev := by
    apply le_antisymm
    · apply (hcovered prev').1
      have hcov := hcomplete.covered
      rw [hfirst,hlast,hsplit] at hcov
      exact hcov
    · have hlargest := hcomplete.largest prev
      rw [hfirst,hlast,hsplit] at hlargest
      exact hlargest ((hcovered prev).2 le_rfl)
  subst hprev
  have hlt := prev_lt_curr hsorted
  have hcurr : curr ≤ u32Max := hbound curr (by rw [hsplit]; simp)
  have hle : curr' ≤ curr := curr_le hsorted' (by rw [← hsplit',hsplit]; simp) hlt
  have hone : stride = 1 := by
    have hstart := hcomplete.gap hflag
    rw [hgapStart,hlast] at hstart
    unfold Consecutive at hgap
    unfold satAdd32 at hstart
    dsimp only [Option.getD_some] at hstart
    omega
  have htwo : tolerance stride = 2 := by
    rw [hone]
    decide
  refine ⟨?_,before,prev',curr,after,hsplit,hchain,by omega⟩
  cases rest with
  | nil =>
    have hlength := congrArg List.length hsplit
    simp at hlength
    omega
  | cons next rest => exact (dominantStride_eq_iff (by rw [hsplit]; exact hsorted)).1 hone

theorem complete_iff (hledgers : h.ledgerList asset = first :: rest)
    (hsorted : (first :: rest).Pairwise (· < ·)) (hbound : ∀ l ∈ first :: rest, l ≤ u32Max) :
    Complete (first :: rest) (h.watermark asset) ↔
      GapFree (first :: rest) ∨ Noticed (first :: rest) := by
  constructor
  · intro hcomplete
    by_cases hfree : GapFree (first :: rest)
    · exact Or.inl hfree
    · exact Or.inr (noticed_of_complete hledgers hsorted hbound hfree hcomplete)
  · rintro (hfree | hnoticed)
    · exact complete_of_gapFree hledgers hsorted hfree
    · exact complete_of_noticed hledgers hsorted hbound hnoticed

/-- At every index a run leads to, the stored watermark is right exactly when nothing is missing, or
most of the first strides are one and the first gap leaves out more than one ledger. -/
theorem advanceWatermark_complete_iff (st₀ : Store) (ts : List HistoryTx)
    (hnone : NoHistory asset st₀.history)
    (hledgers : ts.Pairwise fun t u => t.env.sequence ≤ u.env.sequence)
    (hindex : h.ledgerList asset = (run execHistory st₀ ts).history.ledgerList asset)
    (hne : h.ledgerList asset ≠ []) (hbound : ∀ l ∈ h.ledgerList asset, l ≤ u32Max)
    (watermarks : Map Address CompletenessWatermark) :
    (∃ wm, advanceWatermark h watermarks asset =
        (wm, Function.update watermarks asset (some wm)) ∧ Complete (h.ledgerList asset) wm) ↔
      GapFree (h.ledgerList asset) ∨ Noticed (h.ledgerList asset) := by
  have hsorted : (h.ledgerList asset).Pairwise (· < ·) := by
    rw [hindex]
    exact ledgerList_sorted asset st₀ ts hnone hledgers
  obtain ⟨first,rest,heq⟩ := List.exists_cons_of_ne_nil hne
  rw [heq] at hsorted hbound ⊢
  rw [← complete_iff heq hsorted hbound]
  constructor
  · rintro ⟨wm,hadvance,hcomplete⟩
    obtain ⟨rfl,-⟩ := Prod.mk.inj hadvance
    exact hcomplete
  · intro hcomplete
    exact ⟨_,rfl,hcomplete⟩

/-- Publications of asset `10` at the given ledgers. -/
def publishedAt (ledgers : List Nat) : List HistoryTx :=
  ledgers.map fun l =>
    ⟨.concrete l 5 [], .call (.priced (.aggregate (.recomputeAssetPrice 10)))⟩

def historyOf (ledgers : List Nat) : History :=
  (run execHistory (thresholdStore 0) (publishedAt ledgers)).history

theorem noticed_two_missing : Noticed [1,2,3,6] := by
  refine ⟨(dominantStride_eq_iff (by decide)).1 (by decide),[1,2],3,6,[],rfl,?_,by decide⟩
  decide

/-- With two ledgers missing the watermark stops before the first of them. -/
theorem advanceWatermark_complete_two_missing : ∃ wm,
    (advanceWatermark (historyOf [1, 2, 3, 6]) (fun _ => none) 10 =
        (wm, Function.update (fun _ => none) 10 (some wm)) ∧
      Complete ((historyOf [1, 2, 3, 6]).ledgerList 10) wm) ∧
    ¬GapFree ((historyOf [1, 2, 3, 6]).ledgerList 10) := by
  have hindex : (historyOf [1,2,3,6]).ledgerList 10 = [1,2,3,6] := by decide
  obtain ⟨wm,hcomplete⟩ := (advanceWatermark_complete_iff (h := historyOf [1,2,3,6])
    (thresholdStore 0) (publishedAt [1,2,3,6]) ⟨rfl,fun _ => rfl⟩ (by decide) rfl (by decide)
    (by decide) fun _ => none).2 (Or.inr (hindex ▸ noticed_two_missing))
  refine ⟨wm,hcomplete,?_⟩
  rw [hindex,gapFree_iff (by decide)]
  decide

/-- With one ledger missing the watermark passes over it. -/
theorem not_complete_one_missing :
    ¬Complete ((historyOf [1, 2, 4]).ledgerList 10)
      (advanceWatermark (historyOf [1, 2, 4]) (fun _ => none) 10).1 := by
  intro hcomplete
  exact absurd (hcomplete.covered 3 (by decide) (by decide)) (by decide)

end Record

end PriceOracle.Archive
