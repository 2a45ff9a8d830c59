import PriceOracle.Model.IngestFailover
import Mathlib.Data.Fintype.Card
import Mathlib.Data.List.Nodup

/-! # The attempts of one submission

The loop of `submit` tries a region only once and ends after the last one. Its attempts but the last
have been refused, and they leave the ledger, the quarantine and the other regions as they were. -/

namespace PriceOracle.Ingest

open Model.Ingest

variable {n : ℕ}

section Router

variable (router : RegionRouter n) (kind reason : String) (src dst : Option (Fin n))
  {skip : Finset String}

@[simp] theorem record_regions : (router.record kind src dst reason).regions = router.regions := rfl

@[simp] theorem record_ledger : (router.record kind src dst reason).ledger = router.ledger := rfl

@[simp] theorem record_quarantined :
    (router.record kind src dst reason).quarantined = router.quarantined := rfl

@[simp] theorem failover_regions (skip : Finset String) :
    (router.failover reason skip).2.regions = router.regions := by
  unfold RegionRouter.failover
  split <;> rfl

@[simp] theorem failover_ledger (skip : Finset String) :
    (router.failover reason skip).2.ledger = router.ledger := by
  unfold RegionRouter.failover
  split <;> rfl

@[simp] theorem failover_quarantined (skip : Finset String) :
    (router.failover reason skip).2.quarantined = router.quarantined := by
  unfold RegionRouter.failover
  split <;> rfl

/-- The choice of a region leaves everything but the active region and the events. -/
theorem ensureActive_frame (skip : Finset String) :
    (router.ensureActive skip).2.regions = router.regions ∧
      (router.ensureActive skip).2.ledger = router.ledger ∧
      (router.ensureActive skip).2.quarantined = router.quarantined := by
  unfold RegionRouter.ensureActive
  cases router.usable skip with
  | some i => exact ⟨rfl,rfl,rfl⟩
  | none =>
    dsimp only
    split
    all_goals
      rename_i moved hmoved
      have hsnd := congrArg Prod.snd hmoved
      dsimp only at hsnd
      subst hsnd
      simp

theorem mem_candidates {i : Fin n} : i ∈ router.candidates skip ↔
      (router.regions i).available = true ∧ router.active ≠ some i ∧
        (router.regions i).name ∉ skip := by
  simp [RegionRouter.candidates,and_assoc]

theorem failover_fst (skip : Finset String) :
    (router.failover reason skip).1 = (router.candidates skip).head? := by
  unfold RegionRouter.failover
  split <;> simp_all

theorem ensureActive_fst (skip : Finset String) :
    (router.ensureActive skip).1 =
      (router.usable skip).or
        (({ router with active := none } : RegionRouter n).candidates skip).head? := by
  unfold RegionRouter.ensureActive
  cases router.usable skip with
  | some i => rfl
  | none =>
    rw [Option.none_or,
      ← failover_fst _ ("active region " ++ router.activeName ++ " unusable") skip]
    dsimp only
    split <;> simp_all

theorem ensureActive_some {i : Fin n} (h : (router.ensureActive skip).1 = some i) :
    (router.regions i).available = true ∧ (router.regions i).name ∉ skip := by
  rw [ensureActive_fst,Option.or_eq_some_iff] at h
  rcases h with h | ⟨-,h⟩
  · obtain ⟨-,hi⟩ := Option.filter_eq_some_iff.mp h
    simpa using hi
  · obtain ⟨ha,-,hskip⟩ := (mem_candidates _).mp (List.mem_of_mem_head? h)
    exact ⟨ha,hskip⟩

theorem ensureActive_none (h : (router.ensureActive skip).1 = none)
    {i : Fin n} (hi : (router.regions i).available = true) : (router.regions i).name ∈ skip := by
  rw [ensureActive_fst,Option.or_eq_none_iff,List.head?_eq_none_iff] at h
  by_contra hskip
  have hmem := (mem_candidates { router with active := none }).mpr
    ⟨hi,Option.some_ne_none i |>.symm,hskip⟩
  rw [h.2] at hmem
  exact List.not_mem_nil hmem

variable (i : Fin n) (clock : ℚ)

/-- A failure that is noted changes the health of that region only. -/
theorem noteFailure_frame :
    (router.noteFailure i reason clock).ledger = router.ledger ∧
      (router.noteFailure i reason clock).quarantined = router.quarantined ∧
      (∀ j, ((router.noteFailure i reason clock).regions j).name = (router.regions j).name) ∧
      ∀ j, j ≠ i → (router.noteFailure i reason clock).regions j = router.regions j := by
  unfold RegionRouter.noteFailure
  dsimp only
  split_ifs
  all_goals
    refine ⟨rfl,rfl,?_,?_⟩
    · intro j
      rcases eq_or_ne j i with rfl | hj
      · simp [RegionRouter.setRegion]
      · simp [RegionRouter.setRegion,hj]
    · intro j hj
      simp [RegionRouter.setRegion,hj]

variable (verb message : String)

theorem leave_frame :
    (router.leave i verb message clock).ledger = router.ledger ∧
      (router.leave i verb message clock).quarantined = router.quarantined ∧
      (∀ j, ((router.leave i verb message clock).regions j).name = (router.regions j).name) ∧
      ∀ j, j ≠ i → (router.leave i verb message clock).regions j = router.regions j := by
  simpa [RegionRouter.leave] using noteFailure_frame router _ i clock

theorem accept_name (key : String) (j : Fin n) :
    ((router.accept key i).regions j).name = (router.regions j).name := by
  rcases eq_or_ne j i with rfl | hj
  · simp [RegionRouter.accept,RegionRouter.setRegion,RegionRouter.setLedger]
  · simp [RegionRouter.accept,RegionRouter.setRegion,RegionRouter.setLedger,hj]

end Router

section Loop

variable {hexdigest : String → String} {sub : Submission} {env : ℕ → Moment}
  {router : RegionRouter n} {i : Fin n}
variable {start w w' : Fleet n} {tried : Finset String} {refusals last : List (Call n)}

/-- `w` is what the refused attempts in the regions `tried` have made of `start`. -/
structure Refused (sub : Submission) (start w : Fleet n) (tried : Finset String)
    (refusals : List (Call n)) : Prop where
  calls : w.calls = start.calls ++ refusals
  refused : ∀ c ∈ refusals, c.sub = sub ∧ c.reply.refuses = true
  distinct : (refusals.map Call.region).Nodup
  tried_iff : ∀ i, (start.router.regions i).name ∈ tried ↔ i ∈ refusals.map Call.region
  ledger : w.router.ledger = start.router.ledger
  quarantined : w.router.quarantined = start.router.quarantined
  names : ∀ i, (w.router.regions i).name = (start.router.regions i).name
  untouched : ∀ i, i ∉ refusals.map Call.region → w.router.regions i = start.router.regions i

theorem Refused.initial (sub : Submission) (start : Fleet n) : Refused sub start start ∅ [] where
  calls := (List.append_nil _).symm
  refused := by simp
  distinct := List.nodup_nil
  tried_iff := by simp
  ledger := rfl
  quarantined := rfl
  names _ := rfl
  untouched _ _ := rfl

theorem Refused.length_le (h : Refused sub start w tried refusals) : refusals.length ≤ n := by
  simpa using h.distinct.length_le_card

theorem Refused.choose (h : Refused sub start w tried refusals) :
    Refused sub start { w with router := (w.router.ensureActive tried).2 } tried refusals := by
  obtain ⟨hregions,hledger,hquarantined⟩ := ensureActive_frame w.router tried
  exact { h with
    ledger := hledger.trans h.ledger
    quarantined := hquarantined.trans h.quarantined
    names := fun i => by rw [hregions]; exact h.names i
    untouched := fun i hi => by rw [hregions]; exact h.untouched i hi }

theorem Refused.fresh (h : Refused sub start w tried refusals)
    (hi : (w.router.regions i).name ∉ tried) : i ∉ refusals.map Call.region := by
  rw [h.names] at hi
  exact fun hmem => hi ((h.tried_iff i).mpr hmem)

/-- One more refusal. -/
theorem Refused.refuse (hnames : Function.Injective fun i => (start.router.regions i).name)
    (h : Refused sub start w tried refusals)
    (hi : (w.router.regions i).name ∉ tried) (message : String) (clock : ℚ) : Refused sub start
      { w.call i sub (.unreachable message) with
        router := w.router.leave i "refused" message clock }
      (insert (w.router.regions i).name tried)
      (refusals ++ [⟨i,sub,.unreachable message⟩]) := by
  obtain ⟨hledger,hquarantined,hname,hother⟩ := leave_frame w.router i clock "refused" message
  have hfresh := h.fresh hi
  refine
    { calls := ?_, refused := ?_, distinct := ?_, tried_iff := ?_, ledger := hledger.trans h.ledger
      quarantined := hquarantined.trans h.quarantined, names := ?_, untouched := ?_ }
  · simp [Fleet.call,h.calls]
  · intro c hc
    rcases List.mem_append.mp hc with hc | hc
    · exact h.refused c hc
    · rw [List.mem_singleton.mp hc]
      exact ⟨rfl,rfl⟩
  · rw [List.map_append,List.map_singleton]
    exact (List.nodup_append.mpr ⟨h.distinct,List.nodup_singleton _,by
      intro a ha b hb hab
      rw [hab,List.mem_singleton.mp hb] at ha
      exact hfresh ha⟩)
  · intro j
    rw [Finset.mem_insert,h.tried_iff,h.names,hnames.eq_iff]
    simp [or_comm]
  · intro j
    rw [hname,h.names]
  · intro j hj
    rw [List.map_append,List.mem_append,not_or] at hj
    rw [hother j (by simpa using hj.2),h.untouched j hj.1]

/-- How `submit` ends, by its last attempt. -/
inductive Ending (hexdigest : String → String) (sub : Submission) (start w : Fleet n)
    (refusals : List (Call n)) : List (Call n) → Ended → Prop
  | exhausted (reason : String)
      (ledger : w.router.ledger =
        Function.update start.router.ledger (sub.key hexdigest) none)
      (quarantined : w.router.quarantined = start.router.quarantined)
      (before : ∀ i, (start.router.regions i).available = true → i ∈ refusals.map Call.region)
      (after : ∀ i, (w.router.regions i).available = true → i ∈ refusals.map Call.region) :
      Ending hexdigest sub start w refusals []
        (.returned ⟨sub.key hexdigest, none, false, false, reason⟩)
  | ambiguous (i : Fin n) (message : String) (landed : Bool) (reason : String)
      (ledger : w.router.ledger = start.router.ledger)
      (quarantined : w.router.quarantined =
        insert (sub.key hexdigest) start.router.quarantined) :
      Ending hexdigest sub start w refusals [⟨i, sub, .failed message landed⟩]
        (.returned ⟨sub.key hexdigest, none, false, true, reason⟩)
  | interrupted (i : Fin n) (landed : Bool)
      (ledger : w.router.ledger = start.router.ledger)
      (quarantined : w.router.quarantined = start.router.quarantined) :
      Ending hexdigest sub start w refusals [⟨i, sub, .interrupted landed⟩] .raised
  | accepted (i : Fin n)
      (ledger : w.router.ledger = Function.update start.router.ledger (sub.key hexdigest)
        (some (start.router.regions i).name))
      (quarantined : w.router.quarantined = start.router.quarantined) :
      Ending hexdigest sub start w refusals [⟨i, sub, .returned⟩]
        (.returned ⟨sub.key hexdigest, some (start.router.regions i).name, true, false, ""⟩)

/-- What the whole loop has made of `start`: refused attempts, then perhaps a last one. -/
structure Attempted (hexdigest : String → String) (sub : Submission) (start w : Fleet n)
    (refusals last : List (Call n)) (ended : Ended) : Prop where
  calls : w.calls = start.calls ++ (refusals ++ last)
  refused : ∀ c ∈ refusals, c.sub = sub ∧ c.reply.refuses = true
  distinct : ((refusals ++ last).map Call.region).Nodup
  names : ∀ i, (w.router.regions i).name = (start.router.regions i).name
  ending : Ending hexdigest sub start w refusals last ended

theorem Refused.exhausted (h : Refused sub start w tried refusals)
    (hnone : (w.router.ensureActive tried).1 = none)
    (hi : (w.router.regions i).available = true) : i ∈ refusals.map Call.region :=
  (h.tried_iff i).mp (h.names i ▸ ensureActive_none w.router hnone hi)

theorem Refused.exhausted_start (h : Refused sub start w tried refusals)
    (hnone : (w.router.ensureActive tried).1 = none)
    (hi : (start.router.regions i).available = true) : i ∈ refusals.map Call.region := by
  by_contra hfresh
  exact hfresh (h.exhausted hnone (by rwa [h.untouched i hfresh]))

theorem Refused.attempted_none (h : Refused sub start w tried refusals)
    (hchoice : w.router.ensureActive tried = (none,router)) (reason : String) :
    Attempted hexdigest sub start { w with router := router.setLedger (sub.key hexdigest) none }
      refusals [] (.returned ⟨sub.key hexdigest,none,false,false,reason⟩) := by
  have hchosen := h.choose
  obtain ⟨hregions,-,-⟩ := ensureActive_frame w.router tried
  have hnone : (w.router.ensureActive tried).1 = none := by rw [hchoice]
  rw [hchoice] at hchosen hregions
  refine
    { calls := by rw [List.append_nil]; exact h.calls, refused := h.refused
      distinct := by rw [List.append_nil]; exact h.distinct, names := hchosen.names
      ending := .exhausted reason ?_ hchosen.quarantined ?_ ?_ }
  · exact congrArg (fun ledger => Function.update ledger (sub.key hexdigest) none) hchosen.ledger
  · exact fun i hi => h.exhausted_start hnone hi
  · exact fun i hi => h.exhausted hnone (by rwa [← hregions])

/-- The loop ends with one more attempt, in an untried region. -/
theorem Refused.attempted {ended : Ended} {reply : Reply}
    (h : Refused sub start w tried refusals) (hi : (w.router.regions i).name ∉ tried)
    (hnames : ∀ j, (router.regions j).name = (w.router.regions j).name)
    (hending : Ending hexdigest sub start { w.call i sub reply with router := router } refusals
      [⟨i,sub,reply⟩] ended) :
    Attempted hexdigest sub start { w.call i sub reply with router := router } refusals
      [⟨i,sub,reply⟩] ended where
  calls := by simp [Fleet.call,h.calls]
  refused := h.refused
  distinct := by
    rw [List.map_append,List.map_singleton]
    refine List.nodup_append.mpr ⟨h.distinct,List.nodup_singleton _,?_⟩
    intro a ha b hb hab
    rw [hab,List.mem_singleton.mp hb] at ha
    exact h.fresh hi ha
  names j := (hnames j).trans (h.names j)
  ending := hending

theorem Refused.round_none (h : Refused sub start w tried refusals)
    (hchoice : w.router.ensureActive tried = (none,router)) (k : ℕ) :
    ∃ ended w' last, Attempted hexdigest sub start w' refusals last ended ∧
      ∀ fuel, route hexdigest sub env (fuel+1) k tried w = some (ended,w') := by
  refine ⟨_,_,_,h.attempted_none hchoice "no healthy region available",fun fuel => ?_⟩
  simp only [route,hchoice]

/-- A round with a region either ends the loop or adds a refusal. -/
theorem Refused.round_some (hnames : Function.Injective fun i => (start.router.regions i).name)
    (h : Refused sub start w tried refusals)
    (hchoice : w.router.ensureActive tried = (some i,router)) (k : ℕ) :
    (∃ ended w' last, Attempted hexdigest sub start w' refusals last ended ∧
      ∀ fuel, route hexdigest sub env (fuel+1) k tried w = some (ended,w')) ∨
    ∃ w' tried' c, Refused sub start w' tried' (refusals ++ [c]) ∧
      ∀ fuel, route hexdigest sub env (fuel+1) k tried w =
        route hexdigest sub env fuel (k+1) tried' w' := by
  have hchosen := h.choose
  rw [hchoice] at hchosen
  obtain ⟨hregions,-,-⟩ := ensureActive_frame w.router tried
  obtain ⟨-,hi⟩ := ensureActive_some w.router (congrArg Prod.fst hchoice)
  rw [hchoice] at hregions
  rw [← hregions] at hi
  rcases hreply : (env k).reply with _ | message | ⟨message,landed⟩ | landed
  · have hending : Ending hexdigest sub start
        { ({ w with router := router } : Fleet n).call i sub .returned with
          router := router.accept (sub.key hexdigest) i } refusals [⟨i,sub,.returned⟩]
        (.returned ⟨sub.key hexdigest,some (router.regions i).name,true,false,""⟩) := by
      have hname : (router.regions i).name = (start.router.regions i).name := hchosen.names i
      rw [hname]
      refine .accepted i ?_ hchosen.quarantined
      rw [← hname,← hchosen.ledger]
      rfl
    refine .inl ⟨_,_,_,hchosen.attempted hi (accept_name router i _) hending,fun fuel => ?_⟩
    simp only [route,hchoice,hreply]
  · refine .inr ⟨_,_,_,hchosen.refuse hnames hi message (env k).clock,fun fuel => ?_⟩
    simp only [route,hchoice,hreply]
  · obtain ⟨hledger,hquarantined,hleft,-⟩ := leave_frame router i (env k).clock "failed" message
    have hending : Ending hexdigest sub start
        { ({ w with router := router } : Fleet n).call i sub (.failed message landed) with
          router := (router.leave i "failed" message (env k).clock).quarantine (sub.key hexdigest) }
        refusals [⟨i,sub,.failed message landed⟩]
        (.returned ⟨sub.key hexdigest,none,false,true,"ambiguous outcome in " ++
          (router.regions i).name ++ " (" ++ message ++ "); not retried"⟩) := by
      refine .ambiguous i message landed _ (hledger.trans hchosen.ledger) ?_
      exact congrArg (insert (sub.key hexdigest)) (hquarantined.trans hchosen.quarantined)
    have hquarantine : ∀ j, (((router.leave i "failed" message (env k).clock).quarantine
        (sub.key hexdigest)).regions j).name = (router.regions j).name := hleft
    refine .inl ⟨_,_,_,hchosen.attempted hi hquarantine hending,fun fuel => ?_⟩
    simp only [route,hchoice,hreply]
  · have hending : Ending hexdigest sub start
        { ({ w with router := router } : Fleet n).call i sub (.interrupted landed) with
          router := router } refusals [⟨i,sub,.interrupted landed⟩] .raised :=
      .interrupted i landed hchosen.ledger hchosen.quarantined
    refine .inl ⟨_,_,_,hchosen.attempted hi (fun _ => rfl) hending,fun fuel => ?_⟩
    simp only [route,hchoice,hreply]
    rfl

/-- The loop ends: each round that does not end it has tried one more of the `n` regions. -/
theorem route_ends (hnames : Function.Injective fun i => (start.router.regions i).name)
    (m k : ℕ) (h : Refused sub start w tried refusals) (hm : n < m + refusals.length) :
    ∃ ended w' refusals last, Attempted hexdigest sub start w' refusals last ended ∧
      ∀ fuel, m ≤ fuel → route hexdigest sub env fuel k tried w = some (ended,w') := by
  induction m generalizing k tried w refusals with
  | zero => exact absurd h.length_le (by omega)
  | succ m ih =>
    have hfinal : (∃ ended w' last, Attempted hexdigest sub start w' refusals last ended ∧
        ∀ fuel, route hexdigest sub env (fuel+1) k tried w = some (ended,w')) →
        ∃ ended w' refusals last, Attempted hexdigest sub start w' refusals last ended ∧
          ∀ fuel, m+1 ≤ fuel → route hexdigest sub env fuel k tried w = some (ended,w') := by
      rintro ⟨ended,w',last,hdone,hround⟩
      refine ⟨ended,w',refusals,last,hdone,fun fuel hfuel => ?_⟩
      obtain ⟨fuel,rfl⟩ := Nat.exists_eq_add_of_le' hfuel
      exact hround _
    rcases hchoice : w.router.ensureActive tried with ⟨_ | i,router⟩
    · exact hfinal (h.round_none hchoice k)
    · rcases h.round_some hnames hchoice k with hdone | ⟨w',tried',c,hrefused,hround⟩
      · exact hfinal hdone
      · obtain ⟨ended,w'',refusals',last,hdone,hrest⟩ := ih (k+1) hrefused (by
          rw [List.length_append,List.length_singleton]
          omega)
        refine ⟨ended,w'',refusals',last,hdone,fun fuel hfuel => ?_⟩
        obtain ⟨fuel,rfl⟩ := Nat.exists_eq_succ_of_ne_zero (by omega : fuel ≠ 0)
        exact (hround fuel).trans (hrest fuel (by omega))

end Loop

end PriceOracle.Ingest
