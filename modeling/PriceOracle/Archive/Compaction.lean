import PriceOracle.Archive.Index
import PriceOracle.Lib.Pagination

/-! # Compaction of the history

The walk keeps an entry whose price is far enough from the last one kept, so that the kept entries
are the middle of the index thinned from its first ledger. The comparison saturates: above a
certain price every other one counts as close. -/

namespace PriceOracle.Archive

open Lib.MachineInt Lib.Pagination Lib.Run Lib.Thinning Lib.Transaction Model

section Walk

variable {asset : Address} {thresholdBps : Nat} {h : History} {ls : List Nat} {x : Nat × Int}
  {l : Nat} {e : PriceHistoryEntry}

def readPrice (h : History) (asset : Address) (l : Nat) : Option Int :=
  (h.readHistoryEntry asset l).map PriceHistoryEntry.price

/-- The price of the second ledger is not within the threshold of that of the first. -/
def Far (thresholdBps : Nat) (x y : Nat × Int) : Prop := withinThreshold x.2 y.2 thresholdBps = false

instance : DecidableRel (Far thresholdBps) := fun x y =>
  inferInstanceAs (Decidable (withinThreshold x.2 y.2 thresholdBps = false))

/-- The ledgers the walk keeps, with their prices, from the last one kept before it. -/
def walkKept (thresholdBps : Nat) (h : History) (asset : Address) (ls : List Nat)
    (x : Nat × Int) : List (Nat × Int) :=
  (keyed (readPrice h asset) ls).destutter' (Far thresholdBps) x

theorem mem_walkKept
    (hl : l ∈ (walkKept thresholdBps h asset ls x).map Prod.fst) : l = x.1 ∨ l ∈ ls := by
  obtain ⟨y,hy,rfl⟩ := List.mem_map.1 hl
  rcases List.mem_cons.1 ((List.destutter'_sublist _ _ x).subset hy) with rfl | hy
  · exact Or.inl rfl
  · exact Or.inr (mem_keyed.1 hy).1

theorem readPrice_drop {l dropped : Nat} (hne : l ≠ dropped) :
    readPrice ((h.removeTemporary asset dropped).removeHistoryShardEntry asset dropped) asset l =
      readPrice h asset l := by
  unfold readPrice
  rw [History.readHistoryEntry_drop]
  exact fun hkey => hne (Prod.mk.inj hkey).2

theorem walkKept_unread (hread : h.readHistoryEntry asset l = none) :
    walkKept thresholdBps h asset (l :: ls) x = walkKept thresholdBps h asset ls x := by
  unfold walkKept
  rw [keyed_cons_none (by rw [readPrice,hread]; rfl)]

theorem walkKept_far
    (hread : h.readHistoryEntry asset l = some e) (hfar : Far thresholdBps x (l,e.price)) :
    walkKept thresholdBps h asset (l :: ls) x =
      x :: walkKept thresholdBps h asset ls (l,e.price) := by
  unfold walkKept
  rw [keyed_cons_some (show readPrice h asset l = some e.price by rw [readPrice,hread]; rfl),
    List.destutter'_cons_pos _ hfar]

theorem keyed_congr {read read' : Nat → Option Int} (hread : ∀ l ∈ ls, read l = read' l) :
    keyed read ls = keyed read' ls := by
  apply List.filterMap_congr
  intro l hl
  rw [hread l hl]

theorem walkKept_merged
    (hread : h.readHistoryEntry asset l = some e) (hclose : ¬Far thresholdBps x (l,e.price))
    (hl : l ∉ ls) : walkKept thresholdBps h asset (l :: ls) x = walkKept thresholdBps
      ((h.removeTemporary asset l).removeHistoryShardEntry asset l) asset ls x := by
  unfold walkKept
  rw [keyed_cons_some (show readPrice h asset l = some e.price by rw [readPrice,hread]; rfl),
    List.destutter'_cons_neg _ hclose]
  congr 1
  apply keyed_congr
  intro m hm
  exact (readPrice_drop (ne_of_mem_of_not_mem hm hl)).symm

/-- The walk retains the thinned list, and changes the reading of dropped ledgers only. -/
theorem compactMiddle_walk (thresholdBps : Nat) {k : Nat} (price : Int)
    (hls : (k :: ls).Nodup) (kept : List Nat) :
    (compactMiddle thresholdBps asset ls h (kept ++ [k]) price).2 =
        kept ++ (walkKept thresholdBps h asset ls (k,price)).map Prod.fst ∧
      ∀ l, l ∉ ls ∨ l ∈ (walkKept thresholdBps h asset ls (k,price)).map Prod.fst →
        (compactMiddle thresholdBps asset ls h (kept ++ [k]) price).1.readHistoryEntry asset l =
          h.readHistoryEntry asset l := by
  induction ls generalizing h kept k price with
  | nil => exact ⟨rfl,fun _ _ => rfl⟩
  | cons l ls ih =>
    obtain ⟨hk,hrest⟩ := List.nodup_cons.1 hls
    obtain ⟨hl,hnodup⟩ := List.nodup_cons.1 hrest
    have hskip : (k :: ls).Nodup :=
      List.nodup_cons.2 ⟨fun hmem => hk (List.mem_cons_of_mem l hmem),hnodup⟩
    unfold compactMiddle
    cases hread : h.readHistoryEntry asset l with
    | none =>
      rw [walkKept_unread hread]
      obtain ⟨hkept,hreads⟩ := ih (h := h) price hskip kept
      refine ⟨hkept,fun m hm => hreads m (hm.imp_left fun hm hmem => hm ?_)⟩
      exact List.mem_cons_of_mem l hmem
    | some e =>
      dsimp only
      by_cases hwithin : withinThreshold price e.price thresholdBps = true
      · -- merged into the last kept entry
        rw [if_pos hwithin,walkKept_merged hread (by simp [Far,hwithin]) hl]
        obtain ⟨hkept,hreads⟩ := ih
          (h := (h.removeTemporary asset l).removeHistoryShardEntry asset l) price hskip kept
        refine ⟨hkept,fun m hm => ?_⟩
        have hml : m ≠ l := by
          rintro rfl
          rcases hm with hm | hm
          · exact hm List.mem_cons_self
          · rcases mem_walkKept hm with heq | hm
            · exact hk (heq ▸ List.mem_cons_self)
            · exact hl hm
        rw [hreads m (hm.imp_left fun hm hmem => hm (List.mem_cons_of_mem l hmem))]
        exact History.readHistoryEntry_drop _ _ fun hkey => hml (Prod.mk.inj hkey).2
      · rw [if_neg hwithin,walkKept_far hread (by simpa [Far] using hwithin)]
        obtain ⟨hkept,hreads⟩ := ih (h := h) e.price hrest (kept ++ [k])
        refine ⟨by rw [hkept,List.append_assoc]; rfl,fun m hm => hreads m ?_⟩
        rcases hm with hm | hm
        · exact Or.inl fun hmem => hm (List.mem_cons_of_mem l hmem)
        · rcases List.mem_cons.1 hm with rfl | hm
          · exact Or.inl fun hmem => hk (List.mem_cons_of_mem l hmem)
          · exact Or.inr hm

end Walk

section Result

variable {asset : Address} {thresholdBps : Nat} {h : History} {first : Nat} {rest : List Nat}

/-- What the walk keeps of an index before its last ledger. -/
def keptBefore (thresholdBps : Nat) (h : History) (asset : Address) (first : Nat)
    (rest : List Nat) : List (Nat × Int) :=
  walkKept thresholdBps h asset rest.dropLast (first, (readPrice h asset first).getD 0)

/-- A compaction keeps what the walk keeps and the last ledger, as they were. -/
theorem compacted_walk (thresholdBps : Nat) (h : History) (asset : Address)
    (hindex : (first :: rest).Pairwise (· < ·)) (hrest : rest ≠ []) :
    (compacted thresholdBps asset h first rest).2 =
        (keptBefore thresholdBps h asset first rest).map Prod.fst ++ [rest.getLast hrest] ∧
      ∀ l ∈ (compacted thresholdBps asset h first rest).2,
        (compacted thresholdBps asset h first rest).1.readHistoryEntry asset l =
          h.readHistoryEntry asset l := by
  have hsplit : first :: rest = (first :: rest.dropLast) ++ [rest.getLast hrest] := by
    rw [List.cons_append,List.dropLast_append_getLast hrest]
  rw [hsplit] at hindex
  obtain ⟨hbefore,-,hlast⟩ := List.pairwise_append.1 hindex
  have hnodup : (first :: rest.dropLast).Nodup := hbefore.imp Nat.ne_of_lt
  obtain ⟨hkept,hreads⟩ := compactMiddle_walk (h := h) thresholdBps
    ((readPrice h asset first).getD 0) hnodup []
  rw [List.nil_append,List.nil_append] at hkept
  have hnew : rest.getLast hrest ∉ first :: rest.dropLast := by
    intro hmem
    exact absurd (hlast _ hmem _ (List.mem_singleton_self _)) (Nat.lt_irrefl _)
  have hresult : compacted thresholdBps asset h first rest =
      ((compactMiddle thresholdBps asset rest.dropLast h [first]
          ((readPrice h asset first).getD 0)).1,
        (keptBefore thresholdBps h asset first rest).map Prod.fst ++ [rest.getLast hrest]) := by
    unfold compacted
    rw [List.getLast?_eq_some_getLast hrest]
    dsimp only
    rw [show (h.readHistoryEntry asset first).map PriceHistoryEntry.price =
      readPrice h asset first from rfl,if_neg]
    · exact congrArg _ (congrArg (· ++ [rest.getLast hrest]) hkept)
    · intro heq
      apply hnew
      have hmem := List.mem_of_getLast? heq
      rw [hkept] at hmem
      rcases mem_walkKept hmem with heq | hmem
      · exact heq ▸ List.mem_cons_self
      · exact List.mem_cons_of_mem _ hmem
  rw [hresult]
  refine ⟨rfl,fun l hl => hreads l ?_⟩
  rcases List.mem_append.1 hl with hl | hl
  · exact Or.inr hl
  · rw [List.mem_singleton.1 hl]
    exact Or.inl fun hmem => hnew (List.mem_cons_of_mem _ hmem)

/-- The history after a compaction. -/
def compactedHistory (thresholdBps : Nat) (asset : Address) (h : History) : History :=
  match h.ledgerList asset with
  | first :: next :: rest =>
    if thresholdBps = 0 then h
    else (compacted thresholdBps asset h first (next :: rest)).1.setLedgers asset
      (compacted thresholdBps asset h first (next :: rest)).2
  | _ => h

/-- What a compaction keeps, where entries that `merges` relates to the nearest kept entry before
them may be dropped, and kept entries before the last one are not related by `spaces`. -/
structure Compacts (asset : Address) (merges spaces : Int → Int → Prop) (h h' : History) :
    Prop where
  first : (h'.ledgerList asset).head? = (h.ledgerList asset).head?
  last : (h'.ledgerList asset).getLast? = (h.ledgerList asset).getLast?
  sublist : (h'.ledgerList asset).Sublist (h.ledgerList asset)
  unchanged : ∀ l ∈ h'.ledgerList asset, h'.readHistoryEntry asset l = h.readHistoryEntry asset l
  merged : ∀ l ∈ h.ledgerList asset, l ∉ h'.ledgerList asset →
    ∀ e, h.readHistoryEntry asset l = some e →
      ∃ k p, k ∈ h'.ledgerList asset ∧ k < l ∧ (∀ j ∈ h'.ledgerList asset, j < l → j ≤ k) ∧
        h.readHistoryEntry asset k = some p ∧ merges p.price e.price
  spaced : (readablePrices h' asset (h'.ledgerList asset).dropLast).IsChain fun p q => ¬spaces p q

theorem compacts_self {merges spaces : Int → Int → Prop}
    (hspaced : (readablePrices h asset (h.ledgerList asset).dropLast).IsChain
      fun p q => ¬spaces p q) : Compacts asset merges spaces h h where
  first := rfl
  last := rfl
  sublist := List.Sublist.refl _
  unchanged _ _ := rfl
  merged _ hl hdropped := absurd hl hdropped
  spaced := hspaced

def Close (thresholdBps : Nat) (p q : Int) : Prop := withinThreshold p q thresholdBps = true

theorem not_close_iff {p q : Int} :
    ¬Close thresholdBps p q ↔ withinThreshold p q thresholdBps = false := by
  unfold Close
  rw [Bool.not_eq_true]

/-- The kept ledgers are the first one and readable ones of the middle. -/
theorem keptBefore_eq (thresholdBps : Nat) (h : History) (asset : Address) (first : Nat)
    (rest : List Nat) :
    ∃ kept, keptBefore thresholdBps h asset first rest =
        (first,(readPrice h asset first).getD 0) :: kept ∧
      kept.Sublist (keyed (readPrice h asset) rest.dropLast) := by
  obtain ⟨kept,hkept⟩ := destutter'_eq_cons (R := Far thresholdBps)
    (first,(readPrice h asset first).getD 0) (keyed (readPrice h asset) rest.dropLast)
  refine ⟨kept,hkept,?_⟩
  have hsub := List.destutter'_sublist (keyed (readPrice h asset) rest.dropLast)
    (Far thresholdBps) (first,(readPrice h asset first).getD 0)
  rw [hkept] at hsub
  exact List.cons_sublist_cons.1 hsub

/-- The kept prices are spaced: a first ledger without a price does not count. -/
theorem keptBefore_spaced (thresholdBps : Nat) (h : History) (asset : Address) (first : Nat)
    (rest : List Nat) :
    Spaced thresholdBps (readablePrices h asset
      ((keptBefore thresholdBps h asset first rest).map Prod.fst)) := by
  obtain ⟨kept,hkept,hsub⟩ := keptBefore_eq thresholdBps h asset first rest
  have hchain : (keptBefore thresholdBps h asset first rest).IsChain (Far thresholdBps) :=
    List.isChain_destutter' _ _ _
  have hprices : ∀ xs : List (Nat × Int), (∀ x ∈ xs, readPrice h asset x.1 = some x.2) →
      readablePrices h asset (xs.map Prod.fst) = xs.map Prod.snd := by
    intro xs hxs
    have hmap := keyed_map_snd id (readPrice h asset) (xs.map Prod.fst)
    rw [keyed_keys hxs,List.map_id] at hmap
    exact hmap.symm
  have hread : ∀ x ∈ kept, readPrice h asset x.1 = some x.2 :=
    fun x hx => (mem_keyed.1 (hsub.subset hx)).2
  rw [hkept] at hchain ⊢
  unfold Spaced
  cases hfirst : readPrice h asset first with
  | none =>
    have hskip : readablePrices h asset (first :: kept.map Prod.fst) =
        readablePrices h asset (kept.map Prod.fst) := List.filterMap_cons_none hfirst
    rw [List.map_cons,hskip,hprices kept hread,List.isChain_map]
    exact hchain.tail
  | some price =>
    have hall : ∀ x ∈ (first,price) :: kept, readPrice h asset x.1 = some x.2 := by
      intro x hx
      rcases List.mem_cons.1 hx with rfl | hx
      · exact hfirst
      · exact hread x hx
    rw [hfirst] at hchain
    have hcons := hprices ((first,price) :: kept) hall
    rw [List.map_cons] at hcons ⊢
    rw [hcons,List.isChain_map]
    exact hchain

/-- What a compaction drops is close to the nearest entry kept before it. -/
theorem keptBefore_merged (hindex : (first :: rest.dropLast).Pairwise (· < ·)) {l : Nat}
    (hl : l ∈ rest.dropLast)
    (hdropped : l ∉ (keptBefore thresholdBps h asset first rest).map Prod.fst)
    {e : PriceHistoryEntry} (he : h.readHistoryEntry asset l = some e) :
    ∃ k p, k ∈ (keptBefore thresholdBps h asset first rest).map Prod.fst ∧ k < l ∧
      (∀ j ∈ (keptBefore thresholdBps h asset first rest).map Prod.fst, j < l → j ≤ k) ∧
      h.readHistoryEntry asset k = some p ∧ Close thresholdBps p.price e.price := by
  obtain ⟨hfirst,hmiddle⟩ := List.pairwise_cons.1 hindex
  have hmem : (l,e.price) ∈ keyed (readPrice h asset) rest.dropLast :=
    mem_keyed.2 ⟨hl,by rw [readPrice,he]; rfl⟩
  have hsorted : ((first,(readPrice h asset first).getD 0) ::
      keyed (readPrice h asset) rest.dropLast).Pairwise fun x z => x.1 < z.1 :=
    List.pairwise_cons.2 ⟨fun x hx => hfirst x.1 (mem_keyed.1 hx).1,keyed_sorted hmiddle⟩
  obtain ⟨x,hx,hlt,hclose,hnearest⟩ := destutter'_dropped hsorted hmem
    (R := Far thresholdBps) (fun hkept => hdropped (List.mem_map_of_mem hkept))
  have hwithin : withinThreshold x.2 e.price thresholdBps = true := by
    simpa [Far] using hclose
  have hread : readPrice h asset x.1 = some x.2 := by
    obtain ⟨kept,hkept,hsub⟩ := keptBefore_eq thresholdBps h asset first rest
    have hx' : x ∈ (first,(readPrice h asset first).getD 0) :: kept := hkept ▸ hx
    rcases List.mem_cons.1 hx' with rfl | hx'
    · -- a first ledger without a price is close to nothing
      cases hprice : readPrice h asset first with
      | some price => rfl
      | none =>
        rw [hprice] at hwithin
        exact absurd (withinThreshold_zero e.price) (by simpa using hwithin)
    · exact (mem_keyed.1 (hsub.subset hx')).2
  obtain ⟨p,hp,hprice⟩ := Option.map_eq_some_iff.1 hread
  refine ⟨x.1,p,List.mem_map_of_mem hx,hlt,?_,hp,?_⟩
  · intro j hj hjl
    obtain ⟨z,hz,rfl⟩ := List.mem_map.1 hj
    exact hnearest z hz hjl
  · rw [Close,hprice]
    exact hwithin

theorem readablePrices_congr {h' : History} {ls : List Nat}
    (hsame : ∀ l ∈ ls, h'.readHistoryEntry asset l = h.readHistoryEntry asset l) :
    readablePrices h' asset ls = readablePrices h asset ls := by
  apply List.filterMap_congr
  intro l hl
  rw [hsame l hl]

/-- The walk over an index of at least two ledgers. -/
theorem compacted_compacts (thresholdBps : Nat) (hledgers : h.ledgerList asset = first :: rest)
    (hindex : (first :: rest).Pairwise (· < ·)) (hrest : rest ≠ []) :
    Compacts asset (Close thresholdBps) (Close thresholdBps) h
      ((compacted thresholdBps asset h first rest).1.setLedgers asset
        (compacted thresholdBps asset h first rest).2) := by
  obtain ⟨hkept,hreads⟩ := compacted_walk thresholdBps h asset hindex hrest
  obtain ⟨kept,heq,hsub⟩ := keptBefore_eq thresholdBps h asset first rest
  set r := compacted thresholdBps asset h first rest
  have hlist : (r.1.setLedgers asset r.2).ledgerList asset = r.2 :=
    History.ledgerList_setLedgers _ _ _
  have hsplit : first :: rest = (first :: rest.dropLast) ++ [rest.getLast hrest] := by
    rw [List.cons_append,List.dropLast_append_getLast hrest]
  rw [hsplit] at hindex
  obtain ⟨hbefore,-,hlast⟩ := List.pairwise_append.1 hindex
  have hdropLast : r.2.dropLast = (keptBefore thresholdBps h asset first rest).map Prod.fst := by
    rw [hkept,List.dropLast_concat]
  constructor
  · rw [hlist,hledgers,hkept,heq]
    rfl
  · rw [hlist,hledgers,hkept,hsplit,List.getLast?_concat,List.getLast?_concat]
  · rw [hlist,hledgers,hkept,heq,hsplit,List.map_cons]
    have hkeys : (kept.map Prod.fst).Sublist rest.dropLast :=
      (hsub.map Prod.fst).trans (keyed_keys_sublist _ _)
    exact (hkeys.cons_cons first).append (List.Sublist.refl _)
  · intro l hl
    rw [hlist] at hl
    exact hreads l hl
  · intro l hl hdropped e he
    rw [hledgers,hsplit] at hl
    rw [hlist] at hdropped ⊢
    rw [hkept] at hdropped ⊢
    have hmiddle : l ∈ rest.dropLast := by
      rcases List.mem_append.1 hl with hl | hl
      · rcases List.mem_cons.1 hl with rfl | hl
        · exact absurd (by rw [heq]; simp) hdropped
        · exact hl
      · exact absurd (List.mem_append_right _ hl) hdropped
    obtain ⟨k,p,hk,hlt,hnearest,hp,hclose⟩ := keptBefore_merged hbefore hmiddle
      (fun hmem => hdropped (List.mem_append_left _ hmem)) he
    refine ⟨k,p,List.mem_append_left _ hk,hlt,?_,hp,hclose⟩
    intro j hj hjl
    rcases List.mem_append.1 hj with hj | hj
    · exact hnearest j hj hjl
    · exact absurd (hlast l (List.mem_cons_of_mem _ hmiddle) j hj) (Nat.lt_asymm hjl)
  · rw [hlist,hdropLast]
    have hsame : ∀ l ∈ (keptBefore thresholdBps h asset first rest).map Prod.fst,
        (r.1.setLedgers asset r.2).readHistoryEntry asset l = h.readHistoryEntry asset l := by
      intro l hl
      apply hreads
      rw [hkept]
      exact List.mem_append_left _ hl
    rw [readablePrices_congr hsame]
    exact (keptBefore_spaced thresholdBps h asset first rest).imp fun _ _ => not_close_iff.2

theorem compactedHistory_compacts (thresholdBps : Nat)
    (hindex : (h.ledgerList asset).Pairwise (· < ·)) :
    Compacts asset (Close thresholdBps) (Close thresholdBps) h
      (compactedHistory thresholdBps asset h) := by
  unfold compactedHistory
  split
  · next first next rest hledgers =>
    split_ifs with hzero
    · apply compacts_self
      rw [List.isChain_iff_getElem]
      intro i _
      rw [not_close_iff,withinThreshold,if_pos (Or.inl hzero)]
    · rw [hledgers] at hindex
      exact compacted_compacts thresholdBps hledgers hindex (List.cons_ne_nil _ _)
  · next hshort =>
    apply compacts_self
    rcases hledgers : h.ledgerList asset with _ | ⟨first,_ | ⟨next,rest⟩⟩
    · exact List.isChain_nil
    · exact List.isChain_nil
    · exact absurd hledgers (hshort first next rest)

theorem compactedHistory_eq (hledgers : h.ledgerList asset = first :: rest) (hrest : rest ≠ [])
    (hthreshold : thresholdBps ≠ 0) :
    compactedHistory thresholdBps asset h =
      (compacted thresholdBps asset h first rest).1.setLedgers asset
        (compacted thresholdBps asset h first rest).2 := by
  obtain ⟨next,rest,rfl⟩ := List.exists_cons_of_ne_nil hrest
  unfold compactedHistory
  rw [hledgers]
  exact if_neg hthreshold

theorem keptBefore_idem {h' : History} {last : Nat}
    (hsame : ∀ l ∈ (keptBefore thresholdBps h asset first rest).map Prod.fst,
      h'.readHistoryEntry asset l = h.readHistoryEntry asset l) {kept : List (Nat × Int)}
    (heq : keptBefore thresholdBps h asset first rest =
      (first,(readPrice h asset first).getD 0) :: kept)
    (hsub : kept.Sublist (keyed (readPrice h asset) rest.dropLast)) :
    keptBefore thresholdBps h' asset first (kept.map Prod.fst ++ [last]) =
      keptBefore thresholdBps h asset first rest := by
  have hread : ∀ x ∈ kept, readPrice h' asset x.1 = some x.2 := by
    intro x hx
    rw [readPrice,hsame x.1 (by rw [heq]; exact List.mem_map_of_mem (List.mem_cons_of_mem _ hx))]
    exact (mem_keyed.1 (hsub.subset hx)).2
  have hfirst : readPrice h' asset first = readPrice h asset first := by
    rw [readPrice,hsame first (by rw [heq]; exact List.mem_cons_self)]
    rfl
  have hchain : (keptBefore thresholdBps h asset first rest).IsChain (Far thresholdBps) :=
    List.isChain_destutter' _ _ _
  rw [heq] at hchain ⊢
  rw [keptBefore,walkKept,List.dropLast_concat,keyed_keys hread,hfirst]
  exact List.destutter'_of_isChain_cons _ _ hchain

theorem compactedHistory_zero (hthreshold : thresholdBps = 0) (asset : Address) (h : History) :
    compactedHistory thresholdBps asset h = h := by
  unfold compactedHistory
  split
  · exact if_pos hthreshold
  · rfl

/-- A second compaction changes nothing. -/
theorem compactedHistory_idem (thresholdBps : Nat)
    (hindex : (h.ledgerList asset).Pairwise (· < ·)) :
    compactedHistory thresholdBps asset (compactedHistory thresholdBps asset h) =
      compactedHistory thresholdBps asset h := by
  by_cases hthreshold : thresholdBps = 0
  · rw [compactedHistory_zero hthreshold,compactedHistory_zero hthreshold]
  match hledgers : h.ledgerList asset with
  | [] =>
    have hself : compactedHistory thresholdBps asset h = h := by simp [compactedHistory,hledgers]
    rw [hself,hself]
  | [_] =>
    have hself : compactedHistory thresholdBps asset h = h := by simp [compactedHistory,hledgers]
    rw [hself,hself]
  | first :: next :: rest =>
    rw [hledgers] at hindex
    have hcompacts := compacted_compacts thresholdBps hledgers hindex
      (List.cons_ne_nil _ _)
    obtain ⟨hkept,hreads⟩ := compacted_walk thresholdBps h asset hindex (List.cons_ne_nil _ _)
    obtain ⟨kept,heq,hsub⟩ := keptBefore_eq thresholdBps h asset first (next :: rest)
    rw [compactedHistory_eq hledgers (List.cons_ne_nil _ _) hthreshold]
    set r := compacted thresholdBps asset h first (next :: rest)
    set h' := r.1.setLedgers asset r.2 with hh'
    set last := (next :: rest).getLast (List.cons_ne_nil _ _)
    have hlist : h'.ledgerList asset = first :: (kept.map Prod.fst ++ [last]) := by
      rw [hh',History.ledgerList_setLedgers,hkept,heq]
      rfl
    have hne : kept.map Prod.fst ++ [last] ≠ [] := by simp
    have hindex' : (first :: (kept.map Prod.fst ++ [last])).Pairwise (· < ·) := by
      rw [← hlist]
      exact (hledgers ▸ hindex : (h.ledgerList asset).Pairwise (· < ·)).sublist hcompacts.sublist
    have hspaced : Spaced thresholdBps (readablePrices h' asset
        (first :: (kept.map Prod.fst ++ [last])).dropLast) := by
      rw [← hlist]
      exact hcompacts.spaced.imp fun _ _ => not_close_iff.1
    have hsame : ∀ l ∈ (keptBefore thresholdBps h asset first (next :: rest)).map Prod.fst,
        h'.readHistoryEntry asset l = h.readHistoryEntry asset l := by
      intro l hl
      apply hreads
      rw [hkept]
      exact List.mem_append_left _ hl
    rw [compactedHistory_eq hlist hne hthreshold,
      (compacted_spaced h' first _ hspaced hne).1,(compacted_walk thresholdBps h' asset hindex' hne).1,
      keptBefore_idem hsame heq hsub,List.getLast_concat,← hkept]
    simp [hh',History.setLedgers]

end Result

section Distance

variable {thresholdBps : Nat} {p q : Int}

/-- The price is within the threshold of the reference. -/
def WithinBps (thresholdBps : Nat) (reference candidate : Int) : Prop :=
  |candidate - reference| * 10000 ≤ thresholdBps * reference

deriving instance Decidable for WithinBps

/-- Prices compare as close when they are, and whenever the product of the threshold and the
reference saturates. -/
theorem close_iff (hp : 0 < p ∧ p ≤ i128Max) (hq : 0 < q ∧ q ≤ i128Max) :
    Close thresholdBps p q ↔
      thresholdBps ≠ 0 ∧ (WithinBps thresholdBps p q ∨ i128Max ≤ thresholdBps * p) := by
  have hdiff : (if p < q then wrapSub q p else wrapSub p q) = |q - p| := by
    unfold i128Max at hp hq
    unfold wrapSub wrap
    split_ifs with hlt
    · rw [abs_of_pos (by omega)]
      omega
    · rw [abs_of_nonpos (by omega)]
      omega
  have habs : wrapAbs p = p := by
    unfold i128Max at hp
    unfold wrapAbs wrap
    omega
  unfold Close withinThreshold
  by_cases hzero : thresholdBps = 0
  · simp [hzero]
  rw [if_neg (by omega)]
  dsimp only
  rw [hdiff,habs,satMul_of_nonneg (abs_nonneg _) (by norm_num),
    satMul_of_nonneg (Int.natCast_nonneg _) hp.1.le,decide_eq_true_eq]
  unfold WithinBps
  omega

end Distance

section Calls

variable {asset : Address} {h h' : History} {w : World}

def PositivePrices (asset : Address) (h : History) : Prop :=
  ∀ l e, h.readHistoryEntry asset l = some e → 0 < e.price ∧ e.price ≤ i128Max

theorem Compacts.mono {merges merges' spaces spaces' : Int → Int → Prop}
    (hc : Compacts asset merges spaces h h') (hpositive : PositivePrices asset h)
    (hmerges : ∀ p q, 0 < p ∧ p ≤ i128Max → 0 < q ∧ q ≤ i128Max → merges p q → merges' p q)
    (hspaces : ∀ p q, 0 < p ∧ p ≤ i128Max → 0 < q ∧ q ≤ i128Max → spaces' p q → spaces p q) :
    Compacts asset merges' spaces' h h' where
  first := hc.first
  last := hc.last
  sublist := hc.sublist
  unchanged := hc.unchanged
  merged l hl hdropped e he := by
    obtain ⟨k,p,hk,hlt,hnearest,hp,hmerge⟩ := hc.merged l hl hdropped e he
    exact ⟨k,p,hk,hlt,hnearest,hp,hmerges _ _ (hpositive k p hp) (hpositive l e he) hmerge⟩
  spaced := by
    have hprices : ∀ p ∈ readablePrices h' asset (h'.ledgerList asset).dropLast,
        0 < p ∧ p ≤ i128Max := by
      intro p hp
      obtain ⟨l,hl,hread⟩ := List.mem_filterMap.1 hp
      obtain ⟨e,he,rfl⟩ := Option.map_eq_some_iff.1 hread
      rw [hc.unchanged l (List.mem_of_mem_dropLast hl)] at he
      exact hpositive l e he
    apply hc.spaced.imp_of_mem_imp
    intro p q hp hq hfar hclose
    exact hfar (hspaces p q (hprices p hp) (hprices q hq) hclose)

/-- A call compacts the history, and nothing else that a compaction reads changes. -/
theorem compactHistory_eq (hregistered : w.store.isRegisteredAsset asset = true) :
    ∃ info w', compactHistory asset w = .ok info w' ∧
      w'.store.history =
        compactedHistory w.store.getCompactionThresholdBps asset w.store.history ∧
      w'.store.isRegisteredAsset = w.store.isRegisteredAsset ∧
      w'.store.getCompactionThresholdBps = w.store.getCompactionThresholdBps := by
  obtain ⟨v,hcheck,hframe⟩ := checkRegisteredAsset_ok hregistered
  have hhistory : v.store.history = w.store.history := hframe .history (by simp)
  have hregistry : v.store.isRegisteredAsset = w.store.isRegisteredAsset :=
    congrArg Prod.fst (hframe .registry (by simp))
  have hconfig : v.store.config = w.store.config := hframe .config (by simp)
  have hflags : v.store.flags = w.store.flags := hframe .flags (by simp)
  have hthreshold : v.store.getCompactionThresholdBps = w.store.getCompactionThresholdBps := by
    unfold Store.getCompactionThresholdBps Store.on
    rw [hconfig,hflags]
  rw [← hhistory,← hregistry,← hthreshold,compactHistory,bind_of_ok hcheck,
    bind_of_ok (show getSequence v = .ok v.env.sequence v from rfl),
    bind_of_ok (show (readStore fun _ st => st.getCompactionThresholdBps : Contract Nat) v =
      .ok v.store.getCompactionThresholdBps v from rfl),
    bind_of_ok (show (readStore fun _ st => st.history.ledgerList asset : Contract _) v =
      .ok (v.store.history.ledgerList asset) v from rfl)]
  unfold compactedHistory
  generalize hledgers : v.store.history.ledgerList asset = index
  match index with
  | [] => exact ⟨_,_,rfl,rfl,rfl,rfl⟩
  | [_] => exact ⟨_,_,rfl,rfl,rfl,rfl⟩
  | first :: next :: rest =>
    split_ifs
    · exact ⟨_,_,rfl,rfl,rfl,rfl⟩
    · exact ⟨_,_,rfl,rfl,rfl,rfl⟩

/-- At every index a run leads to, a compaction keeps the first and the last entry and whatever else
it keeps as it was, drops only entries within the threshold of the entry kept before them where the
comparison does not saturate, leaves nothing within a threshold above zero, and is idempotent. -/
theorem compactHistory_compacts (st₀ : Store) (ts : List HistoryTx)
    (hnone : NoHistory asset st₀.history)
    (hledgers : ts.Pairwise fun t u => t.env.sequence ≤ u.env.sequence)
    (hregistered : w.store.isRegisteredAsset asset = true)
    (hindex : w.store.history.ledgerList asset =
      (run execHistory st₀ ts).history.ledgerList asset)
    (hpositive : PositivePrices asset w.store.history) :
    let thresholdBps := w.store.getCompactionThresholdBps
    ∃ info w', compactHistory asset w = .ok info w' ∧
      Compacts asset (fun p q => thresholdBps * p < i128Max → WithinBps thresholdBps p q)
        (fun p q => thresholdBps ≠ 0 ∧ WithinBps thresholdBps p q)
        w.store.history w'.store.history ∧
      (thresholdBps = 0 → w'.store.history = w.store.history) ∧
      ∀ v, v.store = w'.store →
        ∃ info' v', compactHistory asset v = .ok info' v' ∧ v'.store.history = v.store.history := by
  intro thresholdBps
  have hsorted : (w.store.history.ledgerList asset).Pairwise (· < ·) := by
    rw [hindex]
    exact ledgerList_sorted asset st₀ ts hnone hledgers
  obtain ⟨info,w',hrun,hhistory,hregistry,hthreshold⟩ := compactHistory_eq hregistered
  refine ⟨info,w',hrun,?_,?_,?_⟩
  · rw [hhistory]
    apply (compactedHistory_compacts thresholdBps hsorted).mono hpositive
    · intro p q hp hq hclose hsmall
      rcases ((close_iff hp hq).1 hclose).2 with hwithin | hlarge
      · exact hwithin
      · exact absurd hsmall (not_lt.2 hlarge)
    · intro p q hp hq hwithin
      exact (close_iff hp hq).2 ⟨hwithin.1,Or.inl hwithin.2⟩
  · intro hzero
    rw [hhistory]
    exact compactedHistory_zero hzero asset _
  · intro v hv
    have hregistered' : v.store.isRegisteredAsset asset = true := by
      rw [hv,hregistry]
      exact hregistered
    obtain ⟨info',v',hrun',hhistory',-,-⟩ := compactHistory_eq hregistered'
    refine ⟨info',v',hrun',?_⟩
    rw [hhistory',hv,hthreshold,hhistory]
    exact compactedHistory_idem thresholdBps hsorted

/-- Asset `10` has three prices on record. -/
def threePrices (thresholdBps : Nat) (price : Nat → Int) : World :=
  ⟨.concrete 4 5 [], { thresholdStore thresholdBps with history := {
    ledgers := fun _ => some [1, 2, 3]
    entry := fun k => if k.2 ∈ [1, 2, 3] then some ⟨price k.2, 5, k.2, 1, false⟩ else none } }, {}⟩

theorem threePrices_read {thresholdBps l : Nat} {price : Nat → Int} {e : PriceHistoryEntry}
    (he : (threePrices thresholdBps price).store.history.readHistoryEntry 10 l = some e) :
    e.price = price l := by
  by_cases hl : l ∈ [1,2,3]
  · have hread : (threePrices thresholdBps price).store.history.readHistoryEntry 10 l =
        some ⟨price l,5,l,1,false⟩ := by
      simp only [threePrices,History.readHistoryEntry,if_pos hl]
    rw [hread] at he
    cases he
    rfl
  · have hread : (threePrices thresholdBps price).store.history.readHistoryEntry 10 l = none := by
      simp only [threePrices,History.readHistoryEntry,if_neg hl]
      rfl
    rw [hread] at he
    cases he

theorem compactHistory_compacts_steady : ∃ info w',
    compactHistory 10 (threePrices 100 fun _ => 7) = .ok info w' ∧
      (w'.store.history.ledgerList 10).head? = some 1 ∧
      (w'.store.history.ledgerList 10).getLast? = some 3 := by
  have hpositive : PositivePrices 10 (threePrices 100 fun _ => 7).store.history := by
    intro l e he
    rw [threePrices_read he]
    decide
  obtain ⟨info,w',hrun,hcompacts,-⟩ := compactHistory_compacts (thresholdStore 0)
    (rearrangedRun.take 5) ⟨rfl,fun _ => rfl⟩ (by decide) (by decide) (by decide) hpositive
  exact ⟨info,w',hrun,hcompacts.first.trans rfl,hcompacts.last.trans rfl⟩

/-- The compaction drops exactly what is within the threshold of the entry kept before it. -/
def CompactsWithin (asset : Address) (w : World) : Prop :=
  ∃ info w', compactHistory asset w = .ok info w' ∧
    Compacts asset (WithinBps w.store.getCompactionThresholdBps)
      (WithinBps w.store.getCompactionThresholdBps) w.store.history w'.store.history

theorem CompactsWithin.compacts (hw : CompactsWithin asset w)
    (hregistered : w.store.isRegisteredAsset asset = true) :
    Compacts asset (WithinBps w.store.getCompactionThresholdBps)
      (WithinBps w.store.getCompactionThresholdBps) w.store.history
      (compactedHistory w.store.getCompactionThresholdBps asset w.store.history) := by
  obtain ⟨info,w',hrun,hcompacts⟩ := hw
  obtain ⟨info',w'',hrun',hhistory,-⟩ := compactHistory_eq hregistered
  rw [hrun] at hrun'
  cases hrun'
  rw [← hhistory]
  exact hcompacts

/-- With a threshold of zero equal prices are all kept; with a large one the comparison saturates,
and a price far from the one before it is dropped. -/
theorem compactHistory_not_within :
    ¬CompactsWithin 10 (threePrices 0 fun _ => 7) ∧
      ¬CompactsWithin 10 (threePrices 10000 fun l => if l = 2 then 2 ^ 126 else 2 ^ 120) := by
  constructor
  · intro hw
    exact absurd (hw.compacts (by decide)).spaced (by decide)
  · intro hw
    have hcompacts := hw.compacts (by decide)
    obtain ⟨k,p,hk,hlt,-,hp,hwithin⟩ := hcompacts.merged 2 (by decide) (by decide) _ rfl
    rw [threePrices_read hp,if_neg (by omega)] at hwithin
    exact absurd hwithin (by decide)

end Calls

end PriceOracle.Archive
