import PriceOracle.Lib.Pagination
import PriceOracle.Archive.Averages
import PriceOracle.Archive.Index
import PriceOracle.Model.HistoryReaders

/-! # Pages of the history

The paginated reader passes over indexed ledgers without a record, within a page and for the cursor
of the next one. The export walks the same index and reads the temporary entries only, so that it
agrees with the reader unless an entry is left in its shard alone. -/

namespace PriceOracle.Archive

open Lib.Transaction Lib.Pagination Lib.Run Model

section Reader

variable {h : History} {asset : Address} {cursor limit : Nat}

/-- The scan for a page returns the next readable entries and the ledger of the one after them. -/
theorem pageLoop_eq (ls : List Nat) {entries : List PriceHistoryEntry}
    (hroom : entries.length ≤ limit) :
    h.pageLoop asset cursor limit ls entries =
      (entries ++ ((remaining (keyed (h.readHistoryEntry asset) ls) cursor).take
          (limit - entries.length)).map Prod.snd,
        ((remaining (keyed (h.readHistoryEntry asset) ls) cursor).drop
          (limit - entries.length)).head?.map Prod.fst) := by
  induction ls generalizing entries with
  | nil => simp [History.pageLoop,keyed,remaining]
  | cons l ls ih =>
    unfold History.pageLoop
    by_cases hl : l < cursor
    · rw [if_pos hl,ih hroom,remaining_keyed_lt hl]
    · rw [if_neg hl]
      cases hread : h.readHistoryEntry asset l with
      | none =>
        rw [ih hroom,keyed_cons_none hread]
      | some e =>
        dsimp only
        rw [remaining_keyed_ge (not_lt.1 hl) hread]
        by_cases hfull : limit ≤ entries.length
        · rw [if_pos hfull,Nat.sub_eq_zero_of_le hfull]
          simp
        · obtain ⟨k,hk⟩ : ∃ k, limit - entries.length = k+1 :=
            ⟨limit - entries.length - 1,by omega⟩
          have hk' : limit - (entries ++ [e]).length = k := by
            rw [List.length_append,List.length_singleton]
            omega
          rw [if_neg hfull,ih (by rw [List.length_append,List.length_singleton]; omega),hk',hk]
          simp

def historyPage (h : History) (asset : Address) (cursor limit : Nat) :
    List PriceHistoryEntry × Option Nat :=
  h.pageLoop asset cursor limit (h.ledgerList asset) []

theorem historyPage_pages (hindex : (h.ledgerList asset).Pairwise (· < ·)) (allowed : Nat → Prop) :
    Pages id allowed (keyed (h.readHistoryEntry asset) (h.ledgerList asset))
      (historyPage h asset) := by
  apply pages_of_scan (keyed_sorted hindex)
  intro c n _
  exact pageLoop_eq _ (Nat.zero_le n)

end Reader

section Calls

variable {h : History} {asset : Address} {limit : Nat} {w : World}

/-- The asset is registered and its history is `h`. -/
def Holds (asset : Address) (h : History) (w : World) : Prop :=
  w.store.isRegisteredAsset asset = true ∧ w.store.history = h

theorem checkRegisteredAsset_holds (hw : Holds asset h w) :
    ∃ w', checkRegisteredAsset asset w = .ok () w' ∧ Holds asset h w' := by
  obtain ⟨w',hcheck,hframe⟩ := checkRegisteredAsset_ok hw.1
  have hregistered : w'.store.isRegisteredAsset = w.store.isRegisteredAsset :=
    congrArg Prod.fst (hframe .registry (by simp))
  have hhistory : w'.store.history = w.store.history := hframe .history (by simp)
  exact ⟨w',hcheck,by rw [hregistered]; exact hw.1,hhistory.trans hw.2⟩

/-- A reader that only checks its limit. -/
theorem reader_eq {α : Type} {limit most : Nat} {e : ErrorCode} {f : Env → Store → α}
    {value : α} (hf : ∀ env st, st.history = h → f env st = value) (hw : Holds asset h w)
    (hlimit : 0 < limit ∧ limit ≤ most) :
    ∃ w', (do
      checkRegisteredAsset asset
      ensure (0 < limit ∧ limit ≤ most) e
      readStore f : Contract α) w = .ok value w' ∧ Holds asset h w' := by
  obtain ⟨w',hcheck,hw'⟩ := checkRegisteredAsset_holds hw
  refine ⟨w',?_,hw'⟩
  rw [bind_of_ok hcheck,ensure,if_pos hlimit,pure_bind]
  exact congrArg (fun v => EStateM.Result.ok v w') (hf _ _ hw'.2)

theorem getHistoricalPricesPaginated_eq (cursor : Nat) (hw : Holds asset h w)
    (hlimit : 0 < limit ∧ limit ≤ maxPageSize) :
    ∃ w', getHistoricalPricesPaginated asset cursor limit w =
      .ok (historyPage h asset cursor limit) w' ∧ Holds asset h w' := by
  apply reader_eq _ hw hlimit
  rintro env st rfl
  rfl

end Calls

section Visits

variable {asset : Address} {w : World} {limits : Nat → Nat}

theorem entries_ascending {h : History} (hdated : Dated h asset) {index : List Nat}
    (hindex : index.Pairwise (· < ·)) :
    (index.filterMap (h.readHistoryEntry asset)).Pairwise fun a b => a.ledger < b.ledger := by
  apply List.Pairwise.filterMap _ _ hindex
  intro l m hlm a ha b hb
  rw [hdated l a ha,hdated m b hb]
  exact hlm

/-- What following the cursors reads. -/
theorem reads_flatten {h : History} (hw : Holds asset h w)
    (hindex : (h.ledgerList asset).Pairwise (· < ·))
    (hlimits : ∀ i, 1 ≤ limits i ∧ limits i ≤ 50) :
    ∃ pages w', followCalls (getHistoricalPricesPaginated asset) limits
        ((h.ledgerList asset).length + 1) 0 0 w = .ok (some pages) w' ∧ Holds asset h w' ∧
      pages.flatten = (h.ledgerList asset).filterMap (h.readHistoryEntry asset) := by
  obtain ⟨pages,w',hrun,hw',hflatten⟩ := followCalls_flatten
    (historyPage_pages hindex fun n => 0 < n ∧ n ≤ maxPageSize)
    (fun i => ⟨hlimits i,(hlimits i).1⟩)
    (fun v c n hv hn => getHistoricalPricesPaginated_eq c hv hn) hw
  exact ⟨pages,w',hrun,hw',by rw [hflatten,List.map_id]⟩

/-- Following the cursors of the paginated reader ends, and visits every readable indexed entry once
and in order, whatever the limits are; a page with a cursor is not empty. -/
theorem pages_visit_once (hregistered : w.store.isRegisteredAsset asset = true)
    (hindex : (w.store.history.ledgerList asset).Pairwise (· < ·))
    (hlimits : ∀ i, 1 ≤ limits i ∧ limits i ≤ 50) :
    (∃ pages w', followCalls (getHistoricalPricesPaginated asset) limits
        ((w.store.history.ledgerList asset).length + 1) 0 0 w = .ok (some pages) w' ∧
      w'.store.history = w.store.history ∧
      pages.flatten = (w.store.history.ledgerList asset).filterMap
        (w.store.history.readHistoryEntry asset) ∧
      (Dated w.store.history asset → pages.flatten.Pairwise fun a b => a.ledger < b.ledger)) ∧
    ∀ c n entries c' w', 1 ≤ n ∧ n ≤ 50 →
      getHistoricalPricesPaginated asset c n w = .ok (entries, some c') w' → entries ≠ [] := by
  set h := w.store.history
  have hw : Holds asset h w := ⟨hregistered,rfl⟩
  constructor
  · obtain ⟨pages,w',hrun,hw',hflatten⟩ := reads_flatten hw hindex hlimits
    refine ⟨pages,w',hrun,hw'.2,hflatten,fun hdated => ?_⟩
    rw [hflatten]
    exact entries_ascending hdated hindex
  · intro c n entries c' w' hn hpage
    obtain ⟨w'',hrun,-⟩ := getHistoricalPricesPaginated_eq c hw hn
    rw [hrun] at hpage
    exact (historyPage_pages hindex fun n => 0 < n ∧ n ≤ maxPageSize).nonempty hn hn.1
      (EStateM.Result.ok.inj hpage).1

/-- The index of asset `10` lists three ledgers, and the record of the second one has expired. -/
def expiredRecord : World :=
  ⟨.concrete 9 5 [], { thresholdStore 0 with history := {
    ledgers := fun _ => some [3, 5, 8]
    entry := fun k => if k.2 = 5 then none else some ⟨7, 5, k.2, 1, false⟩ } }, {}⟩

theorem pages_visit_once_expired : ∃ pages w',
    followCalls (getHistoricalPricesPaginated 10) (fun i => i % 2 + 1) 4 0 0 expiredRecord =
        .ok (some pages) w' ∧
      pages.flatten = [⟨7, 5, 3, 1, false⟩, ⟨7, 5, 8, 1, false⟩] := by
  have hregistered : expiredRecord.store.isRegisteredAsset 10 = true := by decide
  have hlimits : ∀ i, 1 ≤ i % 2 + 1 ∧ i % 2 + 1 ≤ 50 := fun i => by omega
  obtain ⟨⟨pages,w',hrun,-,hflatten,-⟩,-⟩ :=
    pages_visit_once hregistered (by decide) hlimits
  exact ⟨pages,w',hrun,hflatten.trans (by decide)⟩

end Visits

section Export

variable {h : History} {asset : Address} {cursor limit : Nat} {s : ExportedHistorySnapshot}

/-- The temporary entry of a ledger, which is all the export reads. -/
def temporaryEntry (h : History) (asset : Address) (l : Nat) : Option PriceHistoryEntry :=
  h.entry (asset, l)

/-- The snapshot with one more entry. -/
def extended (asset : Address) (s : ExportedHistorySnapshot) (l : Nat) (e : PriceHistoryEntry) :
    ExportedHistorySnapshot :=
  { s with
    entries := s.entries ++ [e.toExported asset]
    dataHash := Model.mixHash s.dataHash e.price
    fromLedger := if s.entries.isEmpty then l else s.fromLedger
    toLedger := l }

section Loop

variable {l : Nat} {ls : List Nat}

theorem exportLoop_below (hl : l < cursor) :
    h.exportLoop asset cursor limit (l :: ls) s = h.exportLoop asset cursor limit ls s := by
  rw [History.exportLoop,if_pos hl]

theorem exportLoop_full (hl : ¬l < cursor) (hfull : limit ≤ s.entries.length) :
    h.exportLoop asset cursor limit (l :: ls) s = { s with nextCursor := l } := by
  rw [History.exportLoop,if_neg hl,if_pos hfull]

theorem exportLoop_none (hl : ¬l < cursor) (hroom : ¬limit ≤ s.entries.length)
    (hread : temporaryEntry h asset l = none) :
    h.exportLoop asset cursor limit (l :: ls) s = h.exportLoop asset cursor limit ls s := by
  have hentry : h.entry (asset,l) = none := hread
  rw [History.exportLoop,if_neg hl,if_neg hroom,hentry]

theorem exportLoop_some {e : PriceHistoryEntry} (hl : ¬l < cursor)
    (hroom : ¬limit ≤ s.entries.length) (hread : temporaryEntry h asset l = some e) :
    h.exportLoop asset cursor limit (l :: ls) s =
      h.exportLoop asset cursor limit ls (extended asset s l e) := by
  have hentry : h.entry (asset,l) = some e := hread
  rw [History.exportLoop,if_neg hl,if_neg hroom,hentry]
  rfl

theorem extended_room (asset : Address) (l : Nat) (e : PriceHistoryEntry)
    (hroom : ¬limit ≤ s.entries.length) :
    (extended asset s l e).entries.length ≤ limit ∧ limit - s.entries.length =
      limit - (extended asset s l e).entries.length + 1 := by
  have hlen : (extended asset s l e).entries.length = s.entries.length+1 :=
    List.length_append
  omega

end Loop

/-- What one page of an export adds to a snapshot. -/
structure Exported (asset : Address) (page : List (Nat × PriceHistoryEntry))
    (s t : ExportedHistorySnapshot) : Prop where
  entries : t.entries = s.entries ++ page.map fun x => x.2.toExported asset
  dataHash : t.dataHash = (page.map Prod.snd).foldl (fun acc e => Model.mixHash acc e.price)
    s.dataHash
  fromLedger : t.fromLedger =
    if s.entries = [] then (page.head?.map Prod.fst).getD s.fromLedger else s.fromLedger
  toLedger : t.toLedger = (page.getLast?.map Prod.fst).getD s.toLedger

theorem exported_nil (t : ExportedHistorySnapshot) (hentries : t.entries = s.entries)
    (hhash : t.dataHash = s.dataHash) (hfrom : t.fromLedger = s.fromLedger)
    (hto : t.toLedger = s.toLedger) : Exported asset [] s t where
  entries := by simpa using hentries
  dataHash := hhash
  fromLedger := by simpa using hfrom
  toLedger := hto

theorem exportLoop_exported (ls : List Nat) (hroom : s.entries.length ≤ limit) :
    Exported asset ((remaining (keyed (temporaryEntry h asset) ls) cursor).take
      (limit - s.entries.length)) s (h.exportLoop asset cursor limit ls s) := by
  induction ls generalizing s with
  | nil =>
    rw [show remaining (keyed (temporaryEntry h asset) []) cursor = [] from rfl,List.take_nil]
    exact exported_nil s rfl rfl rfl rfl
  | cons l ls ih =>
    by_cases hl : l < cursor
    · rw [exportLoop_below hl,remaining_keyed_lt hl]
      exact ih hroom
    · by_cases hfull : limit ≤ s.entries.length
      · rw [exportLoop_full hl hfull,Nat.sub_eq_zero_of_le hfull,List.take_zero]
        exact exported_nil _ rfl rfl rfl rfl
      · cases hread : temporaryEntry h asset l with
        | none =>
          rw [exportLoop_none hl hfull hread,keyed_cons_none hread]
          exact ih hroom
        | some e =>
          obtain ⟨hroom',hplace⟩ := extended_room asset l e hfull
          have hrest := ih hroom'
          rw [exportLoop_some hl hfull hread,remaining_keyed_ge (not_lt.1 hl) hread,hplace,
            List.take_succ_cons]
          constructor
          · rw [hrest.entries]
            simp [extended]
          · rw [hrest.dataHash]
            rfl
          · rw [hrest.fromLedger]
            simp [extended]
          · rw [hrest.toLedger,List.getLast?_cons]
            cases List.getLast? _ <;> rfl

/-- The cursor of an export page is an indexed ledger, with or without an entry. -/
theorem exportLoop_cursor (ls : List Nat) (hls : ls.Pairwise (· < ·))
    (hroom : s.entries.length ≤ limit) :
    let xs := remaining (keyed (temporaryEntry h asset) ls) cursor
    let next := (h.exportLoop asset cursor limit ls s).nextCursor
    (next = s.nextCursor ∧ xs.length ≤ limit - s.entries.length) ∨
      (next ∈ ls ∧ cursor ≤ next ∧ limit - s.entries.length ≤ xs.length ∧
        remaining (keyed (temporaryEntry h asset) ls) next =
          xs.drop (limit - s.entries.length)) := by
  induction ls generalizing s with
  | nil => exact Or.inl ⟨rfl,Nat.zero_le _⟩
  | cons l ls ih =>
    intro xs next
    obtain ⟨hfirst,hls⟩ := List.pairwise_cons.1 hls
    by_cases hl : l < cursor
    · have hnext : next = (h.exportLoop asset cursor limit ls s).nextCursor := by
        rw [← exportLoop_below hl]
      have hxs : xs = remaining (keyed (temporaryEntry h asset) ls) cursor := remaining_keyed_lt hl
      rw [hnext,hxs]
      refine (ih hls hroom).imp id fun ⟨hmem,hcursor,hlen,hrest⟩ =>
        ⟨List.mem_cons_of_mem _ hmem,hcursor,hlen,?_⟩
      rw [remaining_keyed_lt (hl.trans_le hcursor),hrest]
    · by_cases hfull : limit ≤ s.entries.length
      · have hnext : next = l := by
          simp only [next,exportLoop_full hl hfull]
        have hall : ∀ c ≤ l, remaining (keyed (temporaryEntry h asset) (l :: ls)) c =
            keyed (temporaryEntry h asset) (l :: ls) := by
          intro c hc
          apply remaining_of_le
          intro x hx
          rcases List.mem_cons.1 (mem_keyed.1 hx).1 with hx | hx
          · omega
          · have := hfirst _ hx
            omega
        right
        rw [hnext,Nat.sub_eq_zero_of_le hfull]
        refine ⟨List.mem_cons_self,not_lt.1 hl,Nat.zero_le _,?_⟩
        rw [List.drop_zero,hall l le_rfl]
        exact (hall cursor (not_lt.1 hl)).symm
      · cases hread : temporaryEntry h asset l with
        | none =>
          have hnext : next = (h.exportLoop asset cursor limit ls s).nextCursor := by
            rw [← exportLoop_none hl hfull hread]
          rw [hnext]
          simp only [xs,keyed_cons_none hread]
          exact (ih hls hroom).imp id fun ⟨hmem,hrest⟩ => ⟨List.mem_cons_of_mem _ hmem,hrest⟩
        | some e =>
          obtain ⟨hroom',hplace⟩ := extended_room asset l e hfull
          have hnext : next =
              (h.exportLoop asset cursor limit ls (extended asset s l e)).nextCursor := by
            rw [← exportLoop_some hl hfull hread]
          have hxs : xs = (l,e) :: remaining (keyed (temporaryEntry h asset) ls) cursor :=
            remaining_keyed_ge (not_lt.1 hl) hread
          rw [hnext,hxs,hplace,List.length_cons,List.drop_succ_cons]
          refine (ih hls hroom').imp (fun ⟨hend,hlen⟩ => ⟨hend,by omega⟩)
            fun ⟨hmem,hcursor,hlen,hrest⟩ =>
              ⟨List.mem_cons_of_mem _ hmem,hcursor,by omega,?_⟩
          rw [remaining_keyed_lt (hfirst _ hmem),hrest]

def emptySnapshot (h : History) (asset : Address) : ExportedHistorySnapshot :=
  { totalAvailable := (h.ledgerList asset).length }

def exportSnapshot (h : History) (asset : Address) (cursor limit : Nat) :
    ExportedHistorySnapshot :=
  h.exportLoop asset cursor limit (h.ledgerList asset) (emptySnapshot h asset)

theorem exportSnapshot_exported (h : History) (asset : Address) (cursor limit : Nat) :
    Exported asset ((remaining (keyed (temporaryEntry h asset) (h.ledgerList asset)) cursor).take
      limit) (emptySnapshot h asset) (exportSnapshot h asset cursor limit) :=
  exportLoop_exported (s := emptySnapshot h asset) _ (Nat.zero_le limit)

theorem exportSnapshot_cursor (hindex : (h.ledgerList asset).Pairwise (· < ·))
    (cursor limit : Nat) :
    let xs := remaining (keyed (temporaryEntry h asset) (h.ledgerList asset)) cursor
    let next := (exportSnapshot h asset cursor limit).nextCursor
    (next = 0 ∧ xs.length ≤ limit) ∨ (next ∈ h.ledgerList asset ∧ cursor ≤ next ∧
      limit ≤ xs.length ∧
      remaining (keyed (temporaryEntry h asset) (h.ledgerList asset)) next = xs.drop limit) :=
  exportLoop_cursor (s := emptySnapshot h asset) _ hindex (Nat.zero_le limit)

/-- The entries of a snapshot and its cursor; a cursor of zero ends the export. -/
def exportedPage (s : ExportedHistorySnapshot) : List ExportedEntry × Option Nat :=
  (s.entries, if s.nextCursor = 0 then none else some s.nextCursor)

theorem exportedPage_next {c : Nat} (hnext : (exportedPage s).2 = some c) :
    s.nextCursor = c ∧ c ≠ 0 := by
  unfold exportedPage at hnext
  split_ifs at hnext with hzero
  cases hnext
  exact ⟨rfl,hzero⟩

theorem exportedPage_last (hlast : (exportedPage s).2 = none) : s.nextCursor = 0 := by
  unfold exportedPage at hlast
  by_contra hne
  simp [hne] at hlast

theorem exportSnapshot_pages (hindex : (h.ledgerList asset).Pairwise (· < ·)) :
    Pages (fun e : PriceHistoryEntry => e.toExported asset) (fun n => 0 < n ∧ n ≤ maxExportLimit)
      (keyed (temporaryEntry h asset) (h.ledgerList asset))
      (fun c n => exportedPage (exportSnapshot h asset c n)) where
  taken c n _ := by
    unfold exportedPage
    rw [(exportSnapshot_exported h asset c n).entries]
    rfl
  last c n hn hlast := by
    rcases exportSnapshot_cursor hindex c n with hend | ⟨-,hcursor,hlen,hrest⟩
    · exact hend.2
    · -- a cursor of zero would lead back to every entry
      rw [exportedPage_last hlast] at hcursor hrest
      rw [Nat.le_zero.1 hcursor] at hlen hrest ⊢
      have hlength := congrArg List.length hrest
      rw [List.length_drop] at hlength
      omega
  next c n c' hn hnext := by
    obtain ⟨rfl,hne⟩ := exportedPage_next hnext
    rcases exportSnapshot_cursor hindex c n with hend | hnext
    · exact absurd hend.1 hne
    · exact hnext.2.2

theorem exportedRange_eq (h : History) (asset : Address) (a b : Nat) :
    h.exportedRange asset a b =
      ((keyed (temporaryEntry h asset) (h.ledgerList asset)).filter fun x =>
        a ≤ x.1 ∧ x.1 ≤ b).map Prod.snd := by
  rw [← keyed_filter (fun l => decide (a ≤ l ∧ l ≤ b))]
  exact ((keyed_map_snd id _ _).trans (List.map_id _)).symm

/-- Over the range of a page the verifier reads the entries of the page again. -/
theorem exportedRange_page (hindex : (h.ledgerList asset).Pairwise (· < ·))
    (hne : (exportSnapshot h asset cursor limit).entries ≠ []) :
    let t := exportSnapshot h asset cursor limit
    h.exportedRange asset t.fromLedger t.toLedger ≠ [] ∧
      (h.exportedRange asset t.fromLedger t.toLedger).foldl
        (fun acc e => Model.mixHash acc e.price) 0 = t.dataHash := by
  intro t
  have ht := exportSnapshot_exported h asset cursor limit
  set page := (remaining (keyed (temporaryEntry h asset) (h.ledgerList asset)) cursor).take limit
    with hpage
  have hentries : page ≠ [] := by
    intro hempty
    rw [hempty] at ht
    exact hne ht.entries
  obtain ⟨x,hfirst⟩ : ∃ x, page.head? = some x := ⟨_,List.head?_eq_some_head hentries⟩
  obtain ⟨y,hlast⟩ : ∃ y, page.getLast? = some y := ⟨_,List.getLast?_eq_some_getLast hentries⟩
  have hfrom : t.fromLedger = x.1 := by
    rw [ht.fromLedger,hfirst]
    rfl
  have hto : t.toLedger = y.1 := by
    rw [ht.toLedger,hlast]
    rfl
  have hrange : h.exportedRange asset t.fromLedger t.toLedger = page.map Prod.snd := by
    rw [hfrom,hto,exportedRange_eq,filter_range_page (keyed_sorted hindex) hpage.symm hfirst hlast]
  rw [hrange]
  exact ⟨by simpa using hentries,ht.dataHash.symm⟩

end Export

section Agreement

variable {h : History} {asset : Address} {w : World}

theorem exportHistory_eq (cursor : Nat) {limit : Nat} (hw : Holds asset h w)
    (hlimit : 0 < limit ∧ limit ≤ maxExportLimit) :
    ∃ w', exportHistory asset cursor limit w = .ok (exportSnapshot h asset cursor limit) w' ∧
      Holds asset h w' := by
  apply reader_eq _ hw hlimit
  rintro env st rfl
  rfl

/-- An export page as the entries and the cursor it returns. -/
def exportPage (asset : Address) (cursor limit : Nat) :
    Contract (List ExportedEntry × Option Nat) := do
  let s ← exportHistory asset cursor limit
  pure (exportedPage s)

theorem exportPage_eq (cursor : Nat) {limit : Nat} (hw : Holds asset h w)
    (hlimit : 0 < limit ∧ limit ≤ maxExportLimit) :
    ∃ w', exportPage asset cursor limit w =
      .ok (exportedPage (exportSnapshot h asset cursor limit)) w' ∧ Holds asset h w' := by
  obtain ⟨w',hrun,hw'⟩ := exportHistory_eq cursor hw hlimit
  exact ⟨w',by rw [exportPage,bind_of_ok hrun]; rfl,hw'⟩

theorem verifyExport_eq (hash : Nat) {a b : Nat} (hw : Holds asset h w)
    (hne : h.exportedRange asset a b ≠ []) :
    ∃ w', verifyExport asset a b hash w = .ok (decide ((h.exportedRange asset a b).foldl
      (fun acc e => Model.mixHash acc e.price) 0 = hash)) w' := by
  obtain ⟨w',hcheck,hw'⟩ := checkRegisteredAsset_holds hw
  have hread : (readStore fun _ st => st.history.exportedRange asset a b : Contract _) w' =
      .ok (h.exportedRange asset a b) w' :=
    congrArg (fun g : History => EStateM.Result.ok (g.exportedRange asset a b) w') hw'.2
  refine ⟨w',?_⟩
  rw [verifyExport,bind_of_ok hcheck,bind_of_ok hread,ensure,if_pos hne]
  rfl

/-- Following the exports page by page lists what the paginated reader lists, whatever the sizes of
the pages, and every page that is not empty verifies. -/
structure ExportsAgree (asset : Address) (w : World) : Prop where
  enumerates : ∀ limits sizes : Nat → Nat, (∀ i, 1 ≤ limits i ∧ limits i ≤ 200) →
    (∀ i, 1 ≤ sizes i ∧ sizes i ≤ 50) →
    let fuel := (w.store.history.ledgerList asset).length + 1
    ∃ exports pages v v', followCalls (exportPage asset) limits fuel 0 0 w = .ok (some exports) v ∧
      followCalls (getHistoricalPricesPaginated asset) sizes fuel 0 0 w = .ok (some pages) v' ∧
      exports.flatten = pages.flatten.map fun e => e.toExported asset
  verifies : ∀ c n s v, 1 ≤ n ∧ n ≤ 200 → exportHistory asset c n w = .ok s v → s.entries ≠ [] →
    ∃ v', verifyExport asset s.fromLedger s.toLedger s.dataHash v = .ok true v'

/-- No indexed ledger has an entry in its shard but none in the temporary store. -/
def NoneInShardAlone (asset : Address) (h : History) : Prop :=
  ∀ l ∈ h.ledgerList asset, h.entry (asset, l) = none → h.shardEntry asset l = none

deriving instance Decidable for NoneInShardAlone

theorem noneInShardAlone_iff : NoneInShardAlone asset h ↔
    ∀ l ∈ h.ledgerList asset, temporaryEntry h asset l = none →
      h.readHistoryEntry asset l = none := by
  refine forall₂_congr fun l _ => forall_congr' fun hnone => ?_
  unfold History.readHistoryEntry
  rw [hnone]

theorem exportsAgree_iff (hregistered : w.store.isRegisteredAsset asset = true)
    (hindex : (w.store.history.ledgerList asset).Pairwise (· < ·)) :
    ExportsAgree asset w ↔ NoneInShardAlone asset w.store.history := by
  set h := w.store.history
  have hw : Holds asset h w := ⟨hregistered,rfl⟩
  have hextends : ∀ l e, temporaryEntry h asset l = some e →
      h.readHistoryEntry asset l = some e := by
    intro l e he
    have hentry : h.entry (asset,l) = some e := he
    unfold History.readHistoryEntry
    rw [hentry]
  have hexports : ∀ limits : Nat → Nat, (∀ i, 1 ≤ limits i ∧ limits i ≤ 200) → _ :=
    fun limits hlimits => followCalls_flatten (exportSnapshot_pages hindex)
      (fun i => ⟨hlimits i,(hlimits i).1⟩)
      (fun v c n hv hn => exportPage_eq c hv hn) hw
  rw [noneInShardAlone_iff,← filterMap_eq_iff hextends fun e => e.toExported asset]
  constructor
  · intro hagree
    obtain ⟨exports,pages,v,v',hexport,hread,heq⟩ := hagree.enumerates (fun _ => 1)
      (fun _ => 1) (fun _ => by decide) (fun _ => by decide)
    have hone : ∀ i : Nat, 1 ≤ (fun _ => 1 : Nat → Nat) i ∧ (fun _ => 1 : Nat → Nat) i ≤ 50 :=
      fun _ => ⟨le_rfl,Nat.le_of_ble_eq_true rfl⟩
    obtain ⟨exports',_,hexport',-,hflatten⟩ := hexports (fun _ => 1) fun _ => by decide
    obtain ⟨pages',_,hread',-,hflatten'⟩ := reads_flatten hw hindex hone
    rw [hexport] at hexport'
    rw [hread] at hread'
    cases hexport'
    cases hread'
    rw [← hflatten,heq,hflatten']
  · intro hall
    constructor
    · intro limits sizes hlimits hsizes
      obtain ⟨exports,v,hexport,-,hflatten⟩ := hexports limits hlimits
      obtain ⟨pages,v',hread,-,hflatten'⟩ := reads_flatten hw hindex hsizes
      exact ⟨exports,pages,v,v',hexport,hread,by rw [hflatten,hall,hflatten']⟩
    · intro c n s v hn hexport hne
      obtain ⟨v',hrun,hv'⟩ := exportHistory_eq c hw hn
      rw [hrun] at hexport
      cases hexport
      obtain ⟨hsome,hhash⟩ := exportedRange_page hindex hne
      obtain ⟨v'',hverify⟩ := verifyExport_eq (exportSnapshot h asset c n).dataHash hv' hsome
      rw [hverify,hhash]
      simp

/-- At every index a run leads to, whatever records have expired or were rearranged since, the export
lists what the paginated reader lists exactly when no entry is left in its shard alone. -/
theorem exports_agree_iff (st₀ : Store) (ts : List HistoryTx)
    (hnone : NoHistory asset st₀.history)
    (hledgers : ts.Pairwise fun t u => t.env.sequence ≤ u.env.sequence)
    (hregistered : w.store.isRegisteredAsset asset = true)
    (hindex : w.store.history.ledgerList asset =
      (run execHistory st₀ ts).history.ledgerList asset) :
    ExportsAgree asset w ↔ NoneInShardAlone asset w.store.history := by
  apply exportsAgree_iff hregistered
  rw [hindex]
  exact ledgerList_sorted asset st₀ ts hnone hledgers

/-- The world `n` steps into the rearrangements of asset `10`. -/
def rearranged (n : Nat) : World :=
  ⟨.concrete 3 5 [], run execHistory (thresholdStore 0) (rearrangedRun.take n), {}⟩

theorem exports_agree_temporary : ExportsAgree 10 (rearranged 1) :=
  (exports_agree_iff (w := rearranged 1) (thresholdStore 0) (rearrangedRun.take 1)
    ⟨rfl,fun _ => rfl⟩ (by decide) (by decide) rfl).2 (by decide)

/-- The second publication is in its shard only, and the export misses it. -/
theorem exports_disagree_persistent : ¬ExportsAgree 10 (rearranged 3) := by
  rw [exportsAgree_iff (by decide) (by decide)]
  decide

end Agreement

end PriceOracle.Archive
