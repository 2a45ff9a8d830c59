import PriceOracle.Indexer.Runs

/-! # Gaps, cursor and trusted ledger

A ledger that is missing between two indexed ones lies in one gap. This holds along a run as long as
no event comes below the lowest ledger with a ledger left out, no jump starts from a gap that an
earlier refused jump has left shorter, and every event that is stored is stored as a whole. -/

namespace PriceOracle.Indexer

open Model.Indexing Lib.KeyedRows Lib.JsonText

def Indexed (s : Indexer) (ledger : Int) : Prop := ∃ x ∈ s.events, x.ledger = ledger

/-- Nothing is missing up to the trusted ledger, and what is missing up to the cursor is in exactly
one gap. -/
structure Accounted (s : Indexer) : Prop where
  trusted : ∀ trusted, s.trustedLedger = some trusted → ∀ x ∈ s.events, ∀ ledger,
    x.ledger ≤ ledger → ledger ≤ trusted → Indexed s ledger
  once : ∀ cursor, s.cursor = some cursor → ∀ x ∈ s.events, ∀ ledger,
    x.ledger < ledger → ledger ≤ cursor →
      Xor (Indexed s ledger) (∃! gap, gap ∈ s.gaps ∧ covers gap ledger = true)

/-- A new event is in order for the store that it finds, unless it is refused for a gap. -/
def Orderly (R : Readers) (allowGaps : Bool) (s : Indexer) (event : VerifiedEvent) : Prop :=
  (s.jump event = none ∨ allowGaps = true) →
    if recordable event = true then
      -- no ledger is left out below the lowest one
      (s.events = [] ∨ ∃ x ∈ s.events, x.ledger ≤ event.ledger + 1) ∧
      -- no earlier jump from the same ledger has left a shorter gap
      (∀ jump ∈ s.jump event, ∀ gap ∈ s.gaps, gap.1 = jump.1 → jump.2 ≤ gap.2) ∧
      -- an event above the cursor can be read
      (effectOf R event = none → ∃ cursor ∈ s.cursor, event.ledger ≤ cursor)
    else ∀ gap ∈ s.gaps, ¬ covers gap event.ledger = true

instance (R : Readers) (allowGaps : Bool) (s : Indexer) (event : VerifiedEvent) :
    Decidable (Orderly R allowGaps s event) := by
  unfold Orderly
  infer_instance

section Invariant

/-- What the proof carries along a run. -/
structure Tidy (s : Indexer) : Prop where
  top : s.cursor = lastLedger s.events
  unindexed : ∀ gap ∈ s.gaps, ∀ ledger, covers gap ledger = true → ¬ Indexed s ledger
  start : ∀ gap ∈ s.gaps, Indexed s (gap.1 - 1)
  once : ∀ ledger, ¬ Indexed s ledger → (∃ x ∈ s.events, x.ledger < ledger) →
    (∃ x ∈ s.events, ledger < x.ledger) → ∃! gap, gap ∈ s.gaps ∧ covers gap ledger = true

variable {s : Indexer} {event : VerifiedEvent} {ledger : Int} {jump : Int × Int} {cursor : Int}

theorem tidy_fresh (policy : TrustPolicy) : Tidy (.fresh policy) where
  top := rfl
  unindexed := fun _ h => absurd h List.not_mem_nil
  start := fun _ h => absurd h List.not_mem_nil
  once := by
    rintro _ _ ⟨x,hx,-⟩
    exact absurd hx List.not_mem_nil

theorem Tidy.accounted (h : Tidy s) : Accounted s where
  trusted := by
    intro trusted htrusted x hx ledger hlow hhigh
    by_contra hmiss
    have hbelow : x.ledger < ledger :=
      lt_of_le_of_ne hlow fun heq => hmiss ⟨x,hx,heq⟩
    unfold Indexer.trustedLedger at htrusted
    rcases hmin : (s.gaps.map Prod.fst).min? with _ | first
    · rw [hmin] at htrusted
      obtain ⟨⟨y,hy,htop⟩,-⟩ := lastLedger_eq_some.mp htrusted
      have hgaps : s.gaps = [] := List.map_eq_nil_iff.mp (List.min?_eq_none_iff.mp hmin)
      have habove : ledger < y.ledger :=
        lt_of_le_of_ne (hhigh.trans_eq htop.symm) fun heq => hmiss ⟨y,hy,heq.symm⟩
      obtain ⟨gap,⟨hgap,-⟩,-⟩ := h.once ledger hmiss ⟨x,hx,hbelow⟩ ⟨y,hy,habove⟩
      exact absurd (hgaps ▸ hgap) List.not_mem_nil
    · rw [hmin] at htrusted
      cases htrusted
      obtain ⟨hmem,hleast⟩ := List.min?_eq_some_iff.mp hmin
      obtain ⟨gap,hgap,rfl⟩ := List.mem_map.mp hmem
      obtain ⟨y,hy,hstart⟩ := h.start gap hgap
      have habove : ledger < y.ledger :=
        lt_of_le_of_ne (hhigh.trans_eq hstart.symm) fun heq => hmiss ⟨y,hy,heq.symm⟩
      obtain ⟨gap',⟨hgap',hcovers⟩,-⟩ := h.once ledger hmiss ⟨x,hx,hbelow⟩ ⟨y,hy,habove⟩
      have hfirst := hleast gap'.1 (List.mem_map_of_mem hgap')
      rw [covers_iff] at hcovers
      omega
  once := by
    intro cursor hcursor x hx ledger hlow hhigh
    obtain ⟨⟨y,hy,htop⟩,-⟩ := lastLedger_eq_some.mp (h.top ▸ hcursor)
    by_cases hindexed : Indexed s ledger
    · refine .inl ⟨hindexed,?_⟩
      rintro ⟨gap,⟨hgap,hcovers⟩,-⟩
      exact h.unindexed gap hgap ledger hcovers hindexed
    · have habove : ledger < y.ledger :=
        lt_of_le_of_ne (hhigh.trans_eq htop.symm) fun heq => hindexed ⟨y,hy,heq.symm⟩
      exact .inr ⟨h.once ledger hindexed ⟨x,hx,hlow⟩ ⟨y,hy,habove⟩,hindexed⟩

theorem Tidy.rollbackTo (h : Tidy s) (ledger : Int) : Tidy (s.rollbackTo ledger) := by
  have hkept : ∀ l, Indexed (s.rollbackTo ledger) l ↔ Indexed s l ∧ l ≤ ledger := by
    intro l
    constructor
    · rintro ⟨x,hx,rfl⟩
      obtain ⟨hmem,hle⟩ := List.mem_filter.mp hx
      exact ⟨⟨x,hmem,rfl⟩,by simpa using hle⟩
    · rintro ⟨⟨x,hx,rfl⟩,hle⟩
      exact ⟨x,List.mem_filter.mpr ⟨hx,by simpa using hle⟩,rfl⟩
  have hgaps : ∀ gap, gap ∈ (s.rollbackTo ledger).gaps ↔ gap ∈ s.gaps ∧ gap.1 ≤ ledger := by
    simp [Indexer.rollbackTo]
  refine ⟨rfl,?_,?_,?_⟩
  · intro gap hgap l hcovers hindexed
    exact h.unindexed gap ((hgaps gap).mp hgap).1 l hcovers ((hkept l).mp hindexed).1
  · intro gap hgap
    have hle := ((hgaps gap).mp hgap).2
    exact (hkept _).mpr ⟨h.start gap ((hgaps gap).mp hgap).1,by omega⟩
  · rintro l hmiss ⟨x,hx,hlow⟩ ⟨y,hy,hhigh⟩
    have hle : y.ledger ≤ ledger := ((hkept _).mp ⟨y,hy,rfl⟩).2
    obtain ⟨gap,⟨hgap,hcovers⟩,honly⟩ := h.once l
      (fun hindexed => hmiss ((hkept l).mpr ⟨hindexed,by omega⟩))
      ⟨x,(List.mem_filter.mp hx).1,hlow⟩ ⟨y,(List.mem_filter.mp hy).1,hhigh⟩
    have hfirst := (covers_iff.mp hcovers).1
    refine ⟨gap,⟨(hgaps gap).mpr ⟨hgap,by omega⟩,hcovers⟩,?_⟩
    rintro gap' ⟨hgap',hcovers'⟩
    exact honly gap' ⟨((hgaps gap').mp hgap').1,hcovers'⟩

theorem Tidy.le_top (h : Tidy s) (hcursor : s.cursor = some cursor) :
    Indexed s cursor ∧ ∀ ledger, Indexed s ledger → ledger ≤ cursor := by
  obtain ⟨hmem,hle⟩ := lastLedger_eq_some.mp (h.top ▸ hcursor)
  refine ⟨hmem,?_⟩
  rintro ledger ⟨x,hx,rfl⟩
  exact hle x hx

/-- A gap that reaches past the cursor begins right after it. -/
theorem Tidy.trailing (h : Tidy s) (hcursor : s.cursor = some cursor)
    {gap : Int × Int} (hgap : gap ∈ s.gaps) (hcovers : covers gap ledger = true)
    (habove : cursor < ledger) : gap.1 = cursor+1 := by
  obtain ⟨htop,hle⟩ := h.le_top hcursor
  have hstart := hle _ (h.start gap hgap)
  rw [covers_iff] at hcovers
  have hnot : ¬ covers gap cursor = true := fun hc => h.unindexed gap hgap cursor hc htop
  rw [covers_iff] at hnot
  omega

theorem jump_eq_some (h : s.jump event = some jump) :
    ∃ cursor, s.cursor = some cursor ∧ cursor+1 < event.ledger ∧
      jump = (cursor+1,event.ledger - 1) := by
  obtain ⟨cursor,hcursor,hjump⟩ := Option.bind_eq_some_iff.mp h
  split_ifs at hjump with hlt
  exact ⟨cursor,hcursor,hlt,(Option.some.inj hjump).symm⟩

/-- The gap of a jump begins after the cursor and covers nothing that is stored. -/
theorem Tidy.insertJump (h : Tidy s) (hjump : s.jump event = some jump) :
    Tidy { s with gaps := insertGap s.gaps jump } := by
  obtain ⟨cursor,hcursor,hlt,rfl⟩ := jump_eq_some hjump
  obtain ⟨htop,hle⟩ := h.le_top hcursor
  refine ⟨h.top,?_,?_,?_⟩
  · intro gap hgap ledger hcovers hindexed
    rcases mem_insertGap.mp hgap with hgap | rfl
    · exact h.unindexed gap hgap ledger hcovers hindexed
    · have hbelow := hle ledger hindexed
      rw [covers_iff] at hcovers
      omega
  · intro gap hgap
    rcases mem_insertGap.mp hgap with hgap | rfl
    · exact h.start gap hgap
    · exact (Int.add_sub_cancel cursor 1).symm ▸ htop
  · rintro ledger hmiss hlow ⟨y,hy,hhigh⟩
    obtain ⟨gap,⟨hgap,hcovers⟩,honly⟩ := h.once ledger hmiss hlow ⟨y,hy,hhigh⟩
    refine ⟨gap,⟨mem_insertGap.mpr (.inl hgap),hcovers⟩,?_⟩
    rintro gap' ⟨hgap',hcovers'⟩
    rcases mem_insertGap.mp hgap' with hgap' | rfl
    · exact honly gap' ⟨hgap',hcovers'⟩
    · have hbelow := hle y.ledger ⟨y,hy,rfl⟩
      rw [covers_iff] at hcovers'
      omega

theorem Tidy.closeOpen (h : Tidy s) (hopen : ∀ gap ∈ s.gaps, ¬ covers gap ledger = true) :
    Tidy { s with gaps := closeGapAt s.gaps ledger } := by
  have hmem : ∀ gap, gap ∈ closeGapAt s.gaps ledger ↔ gap ∈ s.gaps :=
    fun gap => mem_closeGapAt_of_open hopen
  refine ⟨h.top,fun gap hgap => h.unindexed gap ((hmem gap).mp hgap),
    fun gap hgap => h.start gap ((hmem gap).mp hgap),?_⟩
  intro l hmiss hlow hhigh
  obtain ⟨gap,⟨hgap,hcovers⟩,honly⟩ := h.once l hmiss hlow hhigh
  refine ⟨gap,⟨(hmem gap).mpr hgap,hcovers⟩,?_⟩
  rintro gap' ⟨hgap',hcovers'⟩
  exact honly gap' ⟨(hmem gap').mp hgap',hcovers'⟩

/-- The gaps between the cursor and a later event: that of the jump, and longer ones. -/
def Bridged (s : Indexer) (ledger : Int) : Prop :=
  ∀ cursor, s.cursor = some cursor → cursor + 1 < ledger →
    (cursor + 1, ledger - 1) ∈ s.gaps ∧ ∀ gap ∈ s.gaps, gap.1 = cursor + 1 → ledger - 1 ≤ gap.2

/-- After its ledger is closed, one gap is left between the cursor and a later event. -/
theorem Tidy.bridge (h : Tidy s) (hbridged : Bridged s ledger) {cursor l : Int}
    (hcursor : s.cursor = some cursor) (hlow : cursor < l) (hhigh : l < ledger) :
    ∃! gap, gap ∈ closeGapAt s.gaps ledger ∧ covers gap l = true := by
  obtain ⟨hjump,hlonger⟩ := hbridged cursor hcursor (by omega)
  refine ⟨(cursor+1,ledger - 1),⟨mem_closeGapAt.mpr (.inl ⟨hjump,?_⟩),?_⟩,?_⟩
  · rw [covers_iff]
    omega
  · rw [covers_iff]
    omega
  · rintro row ⟨hrow,hcovers⟩
    rcases mem_closeGapAt.mp hrow with ⟨hmem,hopen⟩ | ⟨gap,hgap,hledger,hside⟩
    · have hfirst := h.trailing hcursor hmem hcovers hlow
      have hlast := hlonger row hmem hfirst
      rw [covers_iff] at hopen
      exact Prod.ext hfirst (by dsimp only; omega)
    · have hfirst := h.trailing hcursor hgap (hside.covers hledger hcovers) hlow
      rcases hside with ⟨rfl,-⟩ | ⟨rfl,-⟩
      · rw [hfirst]
      · rw [covers_iff] at hcovers
        omega

theorem lastLedger_insertRow (h : Tidy s) (event : VerifiedEvent) :
    (if s.cursor.all (· < event.ledger) = true then some event.ledger else s.cursor) =
      lastLedger (insertRow VerifiedEvent.key event s.events) := by
  refine Eq.symm ?_
  rcases hcursor : s.cursor with _ | cursor
  · have hempty : s.events = [] := lastLedger_eq_none.mp (h.top ▸ hcursor)
    rw [hempty]
    rfl
  · obtain ⟨⟨x,hx,htop⟩,hle⟩ := h.le_top hcursor
    by_cases hlt : cursor < event.ledger
    · rw [Option.all_some,if_pos (decide_eq_true hlt)]
      refine lastLedger_eq_some.mpr ⟨⟨event,mem_insertRow.mpr (.inl rfl),rfl⟩,?_⟩
      intro y hy
      rcases mem_insertRow.mp hy with rfl | hy
      · exact le_rfl
      · exact (hle y.ledger ⟨y,hy,rfl⟩).trans hlt.le
    · rw [Option.all_some,if_neg (by simpa using hlt)]
      refine lastLedger_eq_some.mpr ⟨⟨x,mem_insertRow.mpr (.inr hx),htop⟩,?_⟩
      intro y hy
      rcases mem_insertRow.mp hy with rfl | hy
      · exact not_lt.mp hlt
      · exact hle y.ledger ⟨y,hy,rfl⟩

/-- A new event and the closing of its ledger. -/
theorem Tidy.insert (h : Tidy s) (hbridged : Bridged s event.ledger)
    (hnear : s.events = [] ∨ ∃ x ∈ s.events, x.ledger ≤ event.ledger+1) {s' : Indexer}
    (hevents : s'.events = insertRow VerifiedEvent.key event s.events)
    (hgaps : s'.gaps = closeGapAt s.gaps event.ledger)
    (hcursor : s'.cursor = lastLedger s'.events) : Tidy s' := by
  have hindexed : ∀ l, Indexed s' l ↔ l = event.ledger ∨ Indexed s l := by
    intro l
    unfold Indexed
    rw [hevents]
    simp only [mem_insertRow,or_and_right,exists_or,exists_eq_left]
    exact or_congr_left eq_comm
  refine ⟨hcursor,?_,?_,?_⟩
  · intro gap hgap l hcovers hl
    rw [hgaps] at hgap
    rcases mem_closeGapAt.mp hgap with ⟨hmem,hopen⟩ | ⟨gap',hmem,hledger,hside⟩
    · rcases (hindexed l).mp hl with rfl | hl
      · exact hopen hcovers
      · exact h.unindexed gap hmem l hcovers hl
    · rcases (hindexed l).mp hl with rfl | hl
      · exact hside.not_covers hcovers
      · exact h.unindexed gap' hmem l (hside.covers hledger hcovers) hl
  · intro gap hgap
    rw [hgaps] at hgap
    rcases mem_closeGapAt.mp hgap with ⟨hmem,-⟩ | ⟨gap',hmem,-,⟨rfl,-⟩ | ⟨rfl,-⟩⟩
    · exact (hindexed _).mpr (.inr (h.start gap hmem))
    · exact (hindexed _).mpr (.inr (h.start gap' hmem))
    · exact (hindexed _).mpr (.inl (Int.add_sub_cancel _ _))
  · intro l hmiss hlow hhigh
    rw [hindexed,not_or] at hmiss
    rw [hevents] at hlow hhigh
    rw [hgaps]
    -- whether ledgers of the old rows lie on both sides
    by_cases hbelow : ∃ x ∈ s.events, x.ledger < l
    · by_cases habove : ∃ y ∈ s.events, l < y.ledger
      · exact closeGapAt_once hmiss.1 (h.once l hmiss.2 hbelow habove)
      · obtain ⟨x,hx,hlt⟩ := hbelow
        obtain ⟨y,hy,hgt⟩ := hhigh
        rcases mem_insertRow.mp hy with rfl | hy
        · rcases hcase : s.cursor with _ | cursor
          · have hempty : s.events = [] := lastLedger_eq_none.mp (h.top ▸ hcase)
            exact absurd (hempty ▸ hx) List.not_mem_nil
          · obtain ⟨⟨z,hz,rfl⟩,-⟩ := h.le_top hcase
            have hle : z.ledger ≤ l := not_lt.mp fun hlt' => habove ⟨z,hz,hlt'⟩
            have hne : z.ledger ≠ l := fun heq => hmiss.2 ⟨z,hz,heq⟩
            exact h.bridge hbridged hcase (lt_of_le_of_ne hle hne) hgt
        · exact absurd ⟨y,hy,hgt⟩ habove
    · obtain ⟨x,hx,hlt⟩ := hlow
      rcases mem_insertRow.mp hx with rfl | hx
      · rcases hnear with hempty | ⟨z,hz,hle⟩
        · obtain ⟨y,hy,hgt⟩ := hhigh
          rw [hempty] at hy
          rcases mem_insertRow.mp hy with rfl | hy
          · omega
          · exact absurd hy List.not_mem_nil
        · have hge : l ≤ z.ledger := not_lt.mp fun hlt' => hbelow ⟨z,hz,hlt'⟩
          exact absurd ⟨z,hz,by omega⟩ hmiss.2
      · exact absurd ⟨x,hx,hlt⟩ hbelow

end Invariant

section Run

variable {R : Readers} {policy : TrustPolicy} {s : Indexer} {event : VerifiedEvent}

theorem Tidy.record (h : Tidy s)
    (horder : if recordable event = true then
      Bridged s event.ledger ∧
        (s.events = [] ∨ ∃ x ∈ s.events, x.ledger ≤ event.ledger+1) ∧
        (effectOf R event = none → ∃ cursor ∈ s.cursor, event.ledger ≤ cursor)
      else ∀ gap ∈ s.gaps, ¬ covers gap event.ledger = true) :
    Tidy (record R s event).1 := by
  unfold Model.Indexing.record
  split_ifs at horder ⊢ with hrecordable
  · obtain ⟨hbridged,hnear,hreadable⟩ := horder
    rcases heffect : effectOf R event with _ | effect
    · obtain ⟨cursor,hcursor,hle⟩ := hreadable heffect
      refine h.insert hbridged hnear rfl rfl ?_
      have hlast := lastLedger_insertRow h event
      rw [hcursor,Option.all_some,if_neg (by simpa using hle)] at hlast
      exact hcursor.trans hlast
    · exact h.insert hbridged hnear rfl rfl (lastLedger_insertRow h event)
  · exact h.closeOpen horder

theorem Tidy.store (h : Tidy s) {allowGaps : Bool} (horder : Orderly R allowGaps s event) :
    Tidy (store R allowGaps s event).1 := by
  unfold Model.Indexing.store
  by_cases hfits : (!fits event.eventIndex) = true
  · rwa [if_pos hfits]
  by_cases hhas : s.has event = true
  · rwa [if_neg hfits,if_pos hhas]
  rw [if_neg hfits,if_neg hhas]
  rcases hjump : s.jump event with _ | jump
  · have hbridged : Bridged s event.ledger := by
      intro cursor hcursor hlt
      rw [Indexer.jump,hcursor,Option.bind_some,if_pos hlt] at hjump
      cases hjump
    have hcase := horder (.inl hjump)
    refine h.record ?_
    split_ifs at hcase ⊢ with hrecordable
    · exact ⟨hbridged,hcase.1,hcase.2.2⟩
    · exact hcase
  · split_ifs with hallow
    · have hcase := horder (.inr hallow)
      refine (h.insertJump hjump).record ?_
      split_ifs at hcase ⊢ with hrecordable
      · obtain ⟨hnear,hwhole,hreadable⟩ := hcase
        refine ⟨?_,hnear,hreadable⟩
        obtain ⟨cursor,hcursor,-,rfl⟩ := jump_eq_some hjump
        intro cursor' hcursor' _
        obtain rfl : cursor = cursor' := Option.some.inj (hcursor.symm.trans hcursor')
        refine ⟨mem_insertGap.mpr (.inr rfl),?_⟩
        intro gap hgap hfirst
        rcases mem_insertGap.mp hgap with hgap | rfl
        · exact hwhole _ hjump gap hgap hfirst
        · exact le_rfl
      · obtain ⟨cursor,-,-,rfl⟩ := jump_eq_some hjump
        intro gap hgap
        rcases mem_insertGap.mp hgap with hgap | rfl
        · exact hcase gap hgap
        · rw [covers_iff]
          omega
    · exact h.insertJump hjump

theorem tidy_of_linked {s s' : Indexer} {cs : List Call} (h : Linked R policy s cs s')
    (horder : ∀ c ∈ cs, ∀ arrival ∈ c.brings policy, Orderly R c.allowGaps arrival.1 arrival.2)
    (hs : Tidy s) : Tidy s' := by
  refine h.preserves ?_ ?_ hs
  · exact fun s hs => ⟨hs.top,hs.unindexed,hs.start,hs.once⟩
  · intro c hc hstate
    have hpin : ∀ event, Tidy c.state → Tidy (c.state.pin event) :=
      fun event hs => ⟨hs.top,hs.unindexed,hs.start,hs.once⟩
    refine c.after_of hpin ?_ ?_ hstate
    · rintro s event - - rfl hs
      exact (hpin event hs).rollbackTo _
    · exact fun s event hbrings hs => hs.store (horder c hc (s,event) hbrings)

/-- A refused event leaves events, cursor and gaps. If every new event is in order, the ledgers are
accounted for after the run. -/
theorem ingest_accounts (R : Readers) (policy : TrustPolicy) (batches : List Batch) :
    (∀ c ∈ calls R policy (.fresh policy) batches, c.Refuses policy →
      (c.after R policy).events = c.state.events ∧ (c.after R policy).cursor = c.state.cursor ∧
        (c.after R policy).gaps = c.state.gaps) ∧
    ((∀ c ∈ calls R policy (.fresh policy) batches, ∀ arrival ∈ c.brings policy,
        Orderly R c.allowGaps arrival.1 arrival.2) →
      Accounted (ingestAll R policy (.fresh policy) batches)) := by
  refine ⟨fun c _ hrefuses => hrefuses.kept,fun horder => Tidy.accounted ?_⟩
  exact tidy_of_linked (ingestAll_linked _ _) horder (tidy_fresh policy)

def envelope (ledger : Int) (hash topic : String) (data : Data) : Json :=
  .obj [("ledger", .int ledger), ("event_index", .int 0), ("ledger_hash", .str hash),
    ("timestamp", .int 1000), ("contract_id", .str "C"), ("topic", .str topic), ("data", .obj data)]

def paused (ledger : Int) (hash : String) : Json := envelope ledger hash "paused" []

/-- Readers for events without floats and containers. -/
def plainReaders : Readers := ⟨fun _ => "", fun _ => none, some⟩

/-- A jump, a late ledger and a reorganisation at the top are in order. -/
theorem reorganised_run_accounted :
    Accounted (ingestAll plainReaders {} (.fresh {})
      [⟨[paused 1 "a", paused 5 "b"], true⟩, ⟨[paused 3 "c"], false⟩,
        ⟨[paused 5 "d"], false⟩, ⟨[paused 4 "e", paused 5 "d"], false⟩]) :=
  (ingest_accounts plainReaders {} _).2 (by decide +kernel)

/-- Ledger 3 is taken for a late one: ledger 4 is in no gap. -/
theorem left_out_ledger_trusted :
    ¬ Accounted (ingestAll plainReaders {} (.fresh {})
      [⟨[paused 5 "a"], false⟩, ⟨[paused 3 "b"], false⟩]) := by
  set s := ingestAll plainReaders {} (.fresh {})
    [⟨[paused 5 "a"],false⟩,⟨[paused 3 "b"],false⟩] with hs
  have htrusted : s.trustedLedger = some 5 := by
    rw [hs]
    decide +kernel
  have hledgers : s.events.map (·.ledger) = [3,5] := by
    rw [hs]
    decide +kernel
  intro h
  have hmem : ∀ l, Indexed s l ↔ l = 3 ∨ l = 5 := by
    intro l
    have hiff : Indexed s l ↔ l ∈ s.events.map (·.ledger) := List.mem_map.symm
    rw [hiff,hledgers]
    simp
  obtain ⟨x,hx,hledger⟩ := (hmem 3).mpr (.inl rfl)
  have hindexed := h.trusted 5 htrusted x hx 4 (by omega) (by omega)
  rw [hmem] at hindexed
  omega

end Run

end PriceOracle.Indexer
