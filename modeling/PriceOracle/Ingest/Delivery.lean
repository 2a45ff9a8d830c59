import PriceOracle.Ingest.Attempts
import PriceOracle.Lib.Run
import Mathlib.Data.Fin.VecNotation

/-! # At most one delivery

The ledger accounts for every write: a key that is not in it has not been written, and a key that is
has been written at most once, in the region that its entry names unless the outcome is unknown. -/

namespace PriceOracle.Ingest

open Model.Ingest Lib.Run

variable {n : ℕ} {hexdigest : String → String}

section Accounts

def writes (hexdigest : String → String) (w : Fleet n) (key : String) : List (Call n) :=
  w.calls.filter fun c => c.reply.lands && c.sub.key hexdigest == key

/-- A call for the key has ended in an exception that the router does not catch. -/
def Interrupted (hexdigest : String → String) (w : Fleet n) (key : String) : Prop :=
  ∃ c ∈ w.calls, c.sub.key hexdigest = key ∧ c.reply.interrupts = true

/-- What the ledger and the quarantine say of a key is true. -/
structure Accounted (hexdigest : String → String) (names : Fin n → String) (w : Fleet n)
    (key : String) : Prop where
  once : (writes hexdigest w key).length ≤ 1
  absent : w.router.ledger key = none →
    key ∉ w.router.quarantined ∧ writes hexdigest w key = []
  entered : ∀ entry, w.router.ledger key = some entry →
    key ∈ w.router.quarantined ∨ Interrupted hexdigest w key ∨
      ∃ c, writes hexdigest w key = [c] ∧ entry = names c.region

/-- The account of every key but that of the health checks, which write without an entry. -/
structure Sound (hexdigest : String → String) (names : Fin n → String) (w : Fleet n) : Prop where
  named : ∀ i, (w.router.regions i).name = names i
  accounted : ∀ key, key ≠ probeSubmission.key hexdigest → Accounted hexdigest names w key

variable {names : Fin n → String} {w w' start : Fleet n} {key : String}

/-- A key keeps its account when its entry and its calls stay. -/
theorem Accounted.congr (h : Accounted hexdigest names w key)
    (hledger : w'.router.ledger key = w.router.ledger key)
    (hquarantined : key ∈ w'.router.quarantined ↔ key ∈ w.router.quarantined)
    (hwrites : writes hexdigest w' key = writes hexdigest w key)
    (hcalls : ∀ c ∈ w.calls, c ∈ w'.calls) : Accounted hexdigest names w' key where
  once := hwrites ▸ h.once
  absent hnone := by
    rw [hquarantined,hwrites]
    exact h.absent (hledger ▸ hnone)
  entered entry hentry := by
    rw [hquarantined,hwrites]
    rcases h.entered entry (hledger ▸ hentry) with hq | ⟨c,hc,hi⟩ | hw
    · exact .inl hq
    · exact .inr (.inl ⟨c,hcalls c hc,hi⟩)
    · exact .inr (.inr hw)

theorem Sound.init (hexdigest : String → String) (regions : Fin (n+1) → Region) :
    Sound hexdigest (fun i => (regions i).name) (Fleet.init regions) where
  named _ := rfl
  accounted key _ :=
    { once := Nat.zero_le 1
      absent := fun _ => ⟨Finset.notMem_empty key,rfl⟩
      entered := fun entry h => by simp [Fleet.init,RegionRouter.init] at h }

end Accounts

section Probes

variable {names : Fin n → String} {w : Fleet n} {key : String}

/-- A health check is a call under its own key, and it leaves the ledger alone. -/
theorem probe_frame (w : Fleet n) (i : Fin n) (now : ℚ) (moment : Moment) :
    (w.probe i now moment).router.ledger = w.router.ledger ∧
      (w.probe i now moment).router.quarantined = w.router.quarantined ∧
      (∀ j, ((w.probe i now moment).router.regions j).name = (w.router.regions j).name) ∧
      ∃ calls, (w.probe i now moment).calls = w.calls ++ calls ∧
        ∀ c ∈ calls, c.sub = probeSubmission := by
  obtain ⟨hledger,hquarantined,hnames,-⟩ :=
    noteFailure_frame w.router "probe failed" i moment.clock
  unfold Fleet.probe
  dsimp only
  split_ifs with hcool
  · exact ⟨rfl,rfl,fun _ => rfl,[],(List.append_nil _).symm,by simp⟩
  · have hcalls : ∀ reply, ∃ calls, (w.call i probeSubmission reply).calls = w.calls ++ calls ∧
        ∀ c ∈ calls, c.sub = probeSubmission := fun _ => ⟨_,rfl,by simp⟩
    cases moment.reply with
    | returned =>
      refine ⟨rfl,rfl,fun j => ?_,hcalls _⟩
      rcases eq_or_ne j i with rfl | hj
      · simp [RegionRouter.setRegion]
      · simp [RegionRouter.setRegion,hj]
    | unreachable _ => exact ⟨hledger,hquarantined,hnames,hcalls _⟩
    | failed _ _ => exact ⟨hledger,hquarantined,hnames,hcalls _⟩
    | interrupted _ => exact ⟨rfl,rfl,fun _ => rfl,hcalls _⟩

theorem Sound.probe (h : Sound hexdigest names w) (i : Fin n) (now : ℚ) (moment : Moment) :
    Sound hexdigest names (w.probe i now moment) := by
  obtain ⟨hledger,hquarantined,hnames,calls,hcalls,hprobe⟩ := probe_frame w i now moment
  refine ⟨fun j => (hnames j).trans (h.named j),fun key hkey => ?_⟩
  refine (h.accounted key hkey).congr (congrFun hledger key) (by rw [hquarantined]) ?_ ?_
  · rw [writes,hcalls,List.filter_append]
    have hnone : calls.filter (fun c => c.reply.lands && c.sub.key hexdigest == key) = [] := by
      refine List.filter_eq_nil_iff.mpr fun c hc => ?_
      simp [hprobe c hc,hkey.symm]
    rw [hnone,List.append_nil,writes]
  · intro c hc
    rw [hcalls]
    exact List.mem_append_left _ hc

end Probes

section Submissions

variable {names : Fin n → String} {w start w' : Fleet n} {key : String} {sub : Submission}
variable {refusals last : List (Call n)} {ended : Ended}

theorem Ending.sub_eq (h : Ending hexdigest sub start w' refusals last ended) :
    ∀ c ∈ last, c.sub = sub := by
  cases h <;> simp

theorem Ending.ledger_other (h : Ending hexdigest sub start w' refusals last ended)
    (hkey : key ≠ sub.key hexdigest) : w'.router.ledger key = start.router.ledger key := by
  cases h with
  | exhausted _ hledger => rw [hledger,Function.update_of_ne hkey]
  | ambiguous _ _ _ _ hledger => rw [hledger]
  | interrupted _ _ hledger => rw [hledger]
  | accepted _ hledger => rw [hledger,Function.update_of_ne hkey]

theorem Ending.quarantined_other (h : Ending hexdigest sub start w' refusals last ended)
    (hkey : key ≠ sub.key hexdigest) :
    key ∈ w'.router.quarantined ↔ key ∈ start.router.quarantined := by
  cases h with
  | exhausted _ _ hquarantined => rw [hquarantined]
  | ambiguous _ _ _ _ _ hquarantined => rw [hquarantined,Finset.mem_insert,or_iff_right hkey]
  | interrupted _ _ _ hquarantined => rw [hquarantined]
  | accepted _ _ hquarantined => rw [hquarantined]

theorem Attempted.writes_eq (h : Attempted hexdigest sub start w' refusals last ended) :
    writes hexdigest w' key = writes hexdigest start key ++
      last.filter fun c => c.reply.lands && c.sub.key hexdigest == key := by
  have hnone : refusals.filter (fun c => c.reply.lands && c.sub.key hexdigest == key) = [] := by
    refine List.filter_eq_nil_iff.mpr fun c hc => ?_
    have hrefuses := (h.refused c hc).2
    cases hreply : c.reply <;> simp_all [Reply.refuses,Reply.lands]
  rw [writes,h.calls,List.filter_append,List.filter_append,hnone,List.nil_append,writes]

/-- An entry of another key keeps its account. -/
theorem Attempted.other (h : Attempted hexdigest sub start w' refusals last ended)
    (hkey : key ≠ sub.key hexdigest) (haccount : Accounted hexdigest names start key) :
    Accounted hexdigest names w' key := by
  refine haccount.congr (h.ending.ledger_other hkey) (h.ending.quarantined_other hkey) ?_ ?_
  · have hnone : last.filter (fun c => c.reply.lands && c.sub.key hexdigest == key) = [] := by
      refine List.filter_eq_nil_iff.mpr fun c hc => ?_
      simp [h.ending.sub_eq c hc,hkey.symm]
    rw [h.writes_eq,hnone,List.append_nil]
  · intro c hc
    rw [h.calls]
    exact List.mem_append_left _ hc

/-- The key that has been sent is accounted for by the last attempt. -/
theorem Attempted.own (h : Attempted hexdigest sub start w' refusals last ended)
    (hnames : ∀ i, (start.router.regions i).name = names i)
    (hintent : start.router.ledger (sub.key hexdigest) = some pending)
    (hfree : sub.key hexdigest ∉ start.router.quarantined)
    (hwrites : writes hexdigest start (sub.key hexdigest) = []) :
    Accounted hexdigest names w' (sub.key hexdigest) := by
  have hw : writes hexdigest w' (sub.key hexdigest) = _ := h.writes_eq
  rw [hwrites,List.nil_append] at hw
  cases h.ending with
  | exhausted _ hledger hquarantined =>
    refine ⟨by simp [hw],fun _ => ⟨by rwa [hquarantined],hw⟩,fun entry hentry => ?_⟩
    rw [hledger,Function.update_self] at hentry
    exact absurd hentry (Option.some_ne_none entry).symm
  | ambiguous i message landed _ hledger hquarantined =>
    refine ⟨?_,fun hnone => ?_,fun _ _ => .inl ?_⟩
    · rw [hw]
      exact List.length_filter_le _ _
    · rw [hledger,hintent] at hnone
      exact absurd hnone (Option.some_ne_none pending)
    · rw [hquarantined]
      exact Finset.mem_insert_self _ _
  | interrupted i landed hledger hquarantined =>
    refine ⟨?_,fun hnone => ?_,fun _ _ => .inr (.inl ?_)⟩
    · rw [hw]
      exact List.length_filter_le _ _
    · rw [hledger,hintent] at hnone
      exact absurd hnone (Option.some_ne_none pending)
    · refine ⟨⟨i,sub,.interrupted landed⟩,?_,rfl,rfl⟩
      simp [h.calls]
  | accepted i hledger hquarantined =>
    have hone : writes hexdigest w' (sub.key hexdigest) = [⟨i,sub,.returned⟩] := by
      simp [hw,Reply.lands]
    refine ⟨by simp [hone],fun hnone => ?_,fun entry hentry => .inr (.inr ⟨_,hone,?_⟩)⟩
    · rw [hledger,Function.update_self] at hnone
      exact absurd hnone (Option.some_ne_none _)
    · rw [hledger,Function.update_self,Option.some_inj] at hentry
      rw [← hentry,hnames]

/-- The loop of a submission that is neither recorded nor in quarantine keeps every account. -/
theorem Sound.attempted (h : Sound hexdigest names w)
    (hfree : sub.key hexdigest ∉ w.router.quarantined)
    (hnew : w.router.ledger (sub.key hexdigest) = none)
    (hdone : Attempted hexdigest sub
      { w with router := w.router.setLedger (sub.key hexdigest) (some pending) } w' refusals last
      ended) : Sound hexdigest names w' := by
  refine ⟨fun i => (hdone.names i).trans (h.named i),fun key hkey => ?_⟩
  have haccount := h.accounted key hkey
  rcases eq_or_ne key (sub.key hexdigest) with rfl | hother
  · exact hdone.own h.named (Function.update_self ..) hfree (haccount.absent hnew).2
  · exact hdone.other hother (haccount.congr (Function.update_of_ne hother ..) .rfl rfl fun _ => id)

end Submissions

section Calls

variable {names : Fin n → String} {w w' : Fleet n} {key : String} {sub : Submission}
variable {env : ℕ → Moment} {ended : Ended}

/-- What a call of `submit` has done: the answer is in the books, or its loop has ended. -/
inductive Submitted (hexdigest : String → String) (sub : Submission) (w w' : Fleet n) : Ended → Prop
  | quarantined (reason : String) (hq : sub.key hexdigest ∈ w.router.quarantined)
      (same : w' = w.suppress) :
      Submitted hexdigest sub w w' (.returned ⟨sub.key hexdigest, none, false, true, reason⟩)
  | recorded (reason entry : String) (hq : sub.key hexdigest ∉ w.router.quarantined)
      (hentry : w.router.ledger (sub.key hexdigest) = some entry) (same : w' = w.suppress) :
      Submitted hexdigest sub w w' (.returned ⟨sub.key hexdigest, some entry, true, true, reason⟩)
  | attempted (refusals last : List (Call n)) (ended : Ended)
      (hq : sub.key hexdigest ∉ w.router.quarantined)
      (hnew : w.router.ledger (sub.key hexdigest) = none)
      (hdone : Attempted hexdigest sub
        { w with router := w.router.setLedger (sub.key hexdigest) (some pending) } w' refusals last
        ended) :
      Submitted hexdigest sub w w' ended

theorem submit_ends (hnames : Function.Injective fun i => (w.router.regions i).name) :
    ∃ ended w', Submitted hexdigest sub w w' ended ∧
      ∀ fuel, n+1 ≤ fuel → w.submit hexdigest sub env fuel = some (ended,w') := by
  by_cases hq : sub.key hexdigest ∈ w.router.quarantined
  · refine ⟨_,_,.quarantined "ambiguous outcome; awaiting reconciliation" hq rfl,fun _ _ => ?_⟩
    simp only [Fleet.submit,hq,if_true]
  · cases hentry : w.router.ledger (sub.key hexdigest) with
    | some entry =>
      refine ⟨_,_,.recorded "already recorded by an earlier attempt" entry hq hentry rfl,
        fun _ _ => ?_⟩
      simp only [Fleet.submit,hq,if_false,hentry]
    | none =>
      let start : Fleet n :=
        { w with router := w.router.setLedger (sub.key hexdigest) (some pending) }
      have hstart : Function.Injective fun i => (start.router.regions i).name := hnames
      have hloop : ∃ ended w' refusals last, Attempted hexdigest sub start w' refusals last ended ∧
          ∀ fuel, n+1 ≤ fuel → route hexdigest sub env fuel 0 ∅ start = some (ended,w') :=
        route_ends hstart (n+1) 0 (Refused.initial sub start) (Nat.lt_succ_self n)
      obtain ⟨ended,w',refusals,last,hdone,hrounds⟩ := hloop
      refine ⟨ended,w',.attempted refusals last ended hq hentry hdone,fun fuel hfuel => ?_⟩
      simp only [Fleet.submit,hq,if_false,hentry]
      exact hrounds fuel hfuel

theorem Sound.suppress (h : Sound hexdigest names w) : Sound hexdigest names w.suppress where
  named := h.named
  accounted key hkey := (h.accounted key hkey).congr rfl .rfl rfl fun _ => id

theorem Sound.submitted (h : Sound hexdigest names w)
    (hdone : Submitted hexdigest sub w w' ended) : Sound hexdigest names w' := by
  cases hdone with
  | quarantined _ _ hsame => exact hsame ▸ h.suppress
  | recorded _ _ _ _ hsame => exact hsame ▸ h.suppress
  | attempted refusals last ended hq hnew hdone => exact h.attempted hq hnew hdone

theorem Sound.injective (h : Sound hexdigest names w) (hnames : Function.Injective names) :
    Function.Injective fun i => (w.router.regions i).name := by
  intro i j hij
  exact hnames (by simpa only [h.named] using hij)

theorem Sound.step (hnames : Function.Injective names) (h : Sound hexdigest names w) (op : Op n) :
    Sound hexdigest names (w.step hexdigest op) := by
  cases op with
  | probe i now moment => exact h.probe i now moment
  | submit sub env =>
    obtain ⟨ended,w',hdone,hfuel⟩ := submit_ends (h.injective hnames)
    rw [Fleet.step,hfuel (n+1) le_rfl]
    exact h.submitted hdone

theorem Sound.run (hnames : Function.Injective names) (h : Sound hexdigest names w)
    (ops : List (Op n)) : Sound hexdigest names (run (Fleet.step hexdigest) w ops) := by
  induction ops generalizing w with
  | nil => exact h
  | cons op ops ih => exact ih (h.step hnames op)

end Calls

section Guarantees

variable {names : Fin n → String} {w w' : Fleet n} {key : String} {sub : Submission}
variable {env : ℕ → Moment} {ended : Ended} {r : SubmitResult}

/-- The key has one write, in the region of that name. -/
def WrittenOnce (hexdigest : String → String) (w : Fleet n) (key : String)
    (region : Option String) : Prop :=
  ∃ c, writes hexdigest w key = [c] ∧ region = some (w.router.regions c.region).name

/-- After some more calls a `submit` of the same submission is accepted. -/
def MayDeliver (hexdigest : String → String) (sub : Submission) (w : Fleet n) : Prop :=
  ∃ later env r w', (run (Fleet.step hexdigest) w later).submit hexdigest sub env (n + 1) =
    some (.returned r, w') ∧ r.accepted = true ∧
      WrittenOnce hexdigest w' (sub.key hexdigest) r.region

/-- One of the attempts was in the region, which refused it. -/
def RefusedIn (attempts : List (Call n)) (i : Fin n) : Prop :=
  ∃ c ∈ attempts, c.region = i ∧ c.reply.refuses = true

/-- An accepted submission is written once, unless the entry it was found under was left by an
interrupted call. -/
theorem Submitted.accepted (h : Sound hexdigest names w)
    (hdone : Submitted hexdigest sub w w' (.returned r)) (haccepted : r.accepted = true)
    (hkey : sub.key hexdigest ≠ probeSubmission.key hexdigest)
    (hcalls : w.router.ledger (sub.key hexdigest) ≠ none →
      ¬ Interrupted hexdigest w (sub.key hexdigest)) :
    WrittenOnce hexdigest w' (sub.key hexdigest) r.region := by
  have hafter := h.submitted hdone
  cases hdone with
  | quarantined => cases haccepted
  | recorded reason entry hq hentry hsame =>
    subst hsame
    rcases (h.accounted _ hkey).entered entry hentry with hin | hinterrupted | ⟨c,hc,hname⟩
    · exact absurd hin hq
    · exact absurd hinterrupted (hcalls (hentry ▸ Option.some_ne_none entry))
    · exact ⟨c,hc,by rw [hafter.named,hname]⟩
  | attempted refusals last _ hq hnew hdone =>
    have hw : writes hexdigest w' (sub.key hexdigest) = _ := hdone.writes_eq
    have hnone : writes hexdigest w (sub.key hexdigest) = [] :=
      ((h.accounted _ hkey).absent hnew).2
    cases hdone.ending with
    | exhausted => cases haccepted
    | ambiguous => cases haccepted
    | accepted i =>
      refine ⟨⟨i,sub,.returned⟩,?_,by rw [hdone.names]⟩
      rw [hw]
      simp only [List.filter_cons,Reply.lands,BEq.rfl,Bool.and_true,if_true,List.filter_nil]
      exact congrArg (· ++ _) hnone

/-- A submission that is neither accepted nor in quarantine was refused everywhere, and left no
trace in the books. -/
theorem Submitted.rejected (hdone : Submitted hexdigest sub w w' (.returned r))
    (hrejected : r.accepted = false) (hfree : sub.key hexdigest ∉ w'.router.quarantined) :
    w'.router.ledger (sub.key hexdigest) = none ∧
      ∃ refusals, w'.calls = w.calls ++ refusals ∧
        ∀ i, (w.router.regions i).available = true ∨ (w'.router.regions i).available = true →
          RefusedIn refusals i := by
  cases hdone with
  | quarantined _ hq hsame => exact absurd hq (by rwa [hsame] at hfree)
  | recorded => cases hrejected
  | attempted refusals last _ hq hnew hdone =>
    cases hdone.ending with
    | ambiguous _ _ _ _ _ hquarantined =>
      exact absurd (hquarantined ▸ Finset.mem_insert_self _ _) hfree
    | accepted => cases hrejected
    | exhausted _ hledger _ hbefore hafter =>
      refine ⟨by rw [hledger,Function.update_self],refusals,?_,fun i hi => ?_⟩
      · simpa using hdone.calls
      · have hmem : i ∈ refusals.map Call.region := hi.elim (hbefore i) (hafter i)
        obtain ⟨c,hc,hregion⟩ := List.mem_map.mp hmem
        exact ⟨c,hc,hregion,(hdone.refused c hc).2⟩

theorem submit_accepts (hq : sub.key hexdigest ∉ w.router.quarantined)
    (hnew : w.router.ledger (sub.key hexdigest) = none) {i : Fin n}
    (hi : (w.router.regions i).available = true) (hreply : (env 0).reply = .returned) (fuel : ℕ) :
    ∃ r w', w.submit hexdigest sub env (fuel+1) = some (.returned r,w') ∧ r.accepted = true := by
  rcases hchoice : (w.router.setLedger (sub.key hexdigest) (some pending)).ensureActive ∅ with
    ⟨_ | j,router⟩
  · exact absurd (ensureActive_none _ (congrArg Prod.fst hchoice) hi) (Finset.notMem_empty _)
  · have hsubmit : w.submit hexdigest sub env (fuel+1) = some
        (.returned ⟨sub.key hexdigest,some (router.regions j).name,true,false,""⟩,
          { (({ w with router := router } : Fleet n).call j sub .returned) with
            router := router.accept (sub.key hexdigest) j }) := by
      simp only [Fleet.submit,hq,if_false,hnew,route,hchoice,hreply]
    exact ⟨_,_,hsubmit,rfl⟩

theorem probe_available (w : Fleet n) (i : Fin n) :
    ((w.probe i (w.router.regions i).inCooldownUntil ⟨.returned,0⟩).router.regions i).available =
      true := by
  simp [Fleet.probe,RegionRouter.setRegion,Region.available]

theorem mayDeliver (hnames : Function.Injective names) (h : Sound hexdigest names w) (i : Fin n)
    (hq : sub.key hexdigest ∉ w.router.quarantined)
    (hnew : w.router.ledger (sub.key hexdigest) = none)
    (hkey : sub.key hexdigest ≠ probeSubmission.key hexdigest) : MayDeliver hexdigest sub w := by
  let now := (w.router.regions i).inCooldownUntil
  have hprobed : Sound hexdigest names (w.probe i now ⟨.returned,0⟩) := h.probe i now _
  obtain ⟨hledger,hquarantined,-,calls,hcalls,-⟩ := probe_frame w i now ⟨.returned,0⟩
  rw [← hquarantined] at hq
  rw [← hledger] at hnew
  let env : ℕ → Moment := fun _ => ⟨.returned,0⟩
  have hreply : (env 0).reply = .returned := rfl
  obtain ⟨r,w',hsubmit,haccepted⟩ := submit_accepts hq hnew (probe_available w i) hreply n
  obtain ⟨ended,w'',hdone,hfuel⟩ := submit_ends (hprobed.injective hnames)
  have hsame := (hfuel (n+1) le_rfl).symm.trans hsubmit
  rw [Option.some_inj,Prod.mk.injEq] at hsame
  obtain ⟨rfl,rfl⟩ := hsame
  exact ⟨[.probe i now ⟨.returned,0⟩],env,r,w'',hsubmit,haccepted,
    hdone.accepted hprobed haccepted hkey fun hentry => absurd hnew hentry⟩

theorem Submitted.attempts (hdone : Submitted hexdigest sub w w' ended) :
    ∃ attempts, w'.calls = w.calls ++ attempts ∧ (attempts.map Call.region).Nodup := by
  cases hdone with
  | quarantined _ _ hsame => exact ⟨[],by simp [hsame,Fleet.suppress],List.nodup_nil⟩
  | recorded _ _ _ _ hsame => exact ⟨[],by simp [hsame,Fleet.suppress],List.nodup_nil⟩
  | attempted refusals last _ _ _ hdone => exact ⟨_,hdone.calls,hdone.distinct⟩

/-- In every run a key is written at most once, and `submit` ends after at most one attempt in each
region. Its answer is true of the key: where it accepts, unless a call for the key was interrupted
before; where it rejects, every healthy region has refused and the submission can still be made.
The key of the health checks has no part in this, since they write it without an entry. -/
theorem submit_at_most_once (regions : Fin (n + 1) → Region)
    (hnames : Function.Injective fun i => (regions i).name) (ops : List (Op (n + 1))) :
    let w := run (Fleet.step hexdigest) (Fleet.init regions) ops
    (∀ key, key ≠ probeSubmission.key hexdigest → (writes hexdigest w key).length ≤ 1) ∧
    ∀ sub env, ∃ ended w' attempts,
      (∀ fuel, n + 2 ≤ fuel → w.submit hexdigest sub env fuel = some (ended, w')) ∧
      w'.calls = w.calls ++ attempts ∧ (attempts.map Call.region).Nodup ∧
      (sub.key hexdigest ≠ probeSubmission.key hexdigest → ∀ r, ended = .returned r →
        (r.accepted = true → ¬ Interrupted hexdigest w (sub.key hexdigest) →
          WrittenOnce hexdigest w' (sub.key hexdigest) r.region) ∧
        (r.accepted = false → sub.key hexdigest ∉ w'.router.quarantined →
          (∀ i, (w.router.regions i).available = true ∨ (w'.router.regions i).available = true →
            RefusedIn attempts i) ∧ MayDeliver hexdigest sub w')) := by
  intro w
  have hsound : Sound hexdigest (fun i => (regions i).name) w :=
    (Sound.init hexdigest regions).run hnames ops
  refine ⟨fun key hkey => (hsound.accounted key hkey).once,fun sub env => ?_⟩
  obtain ⟨ended,w',hdone,hfuel⟩ := submit_ends (hsound.injective hnames)
  obtain ⟨attempts,hattempts,hdistinct⟩ := hdone.attempts
  refine ⟨ended,w',attempts,hfuel,hattempts,hdistinct,?_⟩
  rintro hkey r rfl
  refine ⟨fun haccepted hcalls => hdone.accepted hsound haccepted hkey fun _ => hcalls,?_⟩
  intro hrejected hfree
  obtain ⟨hnew,refusals,hrefusals,hrefused⟩ := hdone.rejected hrejected hfree
  obtain rfl : attempts = refusals := List.append_cancel_left (hattempts.symm.trans hrefusals)
  exact ⟨hrefused,mayDeliver hnames (hsound.submitted hdone) 0 hfree hnew hkey⟩

end Guarantees

def usEastEuWest : Fin 2 → Region := ![.named "us-east", .named "eu-west"]

def reading : Submission := ⟨"SRC-A", "XLM/USD", 7, 1000000⟩

/-- The digests of the reading and of the health check. -/
def readingDigest (raw : String) : String :=
  if raw = "SRC-A|XLM/USD|7" then "3d33a5876e771f5849e36e8e771d1f563659aab8c4d4f4a3be7f1585de0503ea"
  else "98b3a4d772fa11d7bea7cfe2af2b19e386b6ddb3849d588a691833b547ff1dea"

theorem reading_written_once :
    (writes readingDigest (run (Fleet.step readingDigest) (Fleet.init usEastEuWest)
      [.submit reading fun k => ⟨if k = 0 then .unreachable "503" else .failed "timeout" true, 0⟩,
        .submit reading fun _ => ⟨.returned, 0⟩]) (reading.key readingDigest)).length ≤ 1 :=
  (submit_at_most_once usEastEuWest (by decide) _).1 _ (by decide)

/-- An interrupted call leaves the marker of an open intent in the ledger, and the next `submit`
takes it for the name of a region. -/
theorem interrupted_reading_accepted :
    let w := run (Fleet.step readingDigest) (Fleet.init usEastEuWest)
      [.submit reading fun _ => ⟨.interrupted false, 0⟩]
    ∃ r w', w.submit readingDigest reading (fun _ => ⟨.returned, 0⟩) 3 = some (.returned r, w') ∧
      r.accepted = true ∧ writes readingDigest w' (reading.key readingDigest) = [] ∧
      ¬ WrittenOnce readingDigest w' (reading.key readingDigest) r.region := by
  intro w
  have hnone : writes readingDigest w.suppress (reading.key readingDigest) = [] := rfl
  refine ⟨_,_,rfl,rfl,hnone,?_⟩
  rintro ⟨c,hc,-⟩
  exact List.cons_ne_nil c [] (hc.symm.trans hnone)

/-- Every health check that succeeds writes the key of the checks once more. -/
example : (writes readingDigest (run (Fleet.step readingDigest) (Fleet.init usEastEuWest)
    [.probe 0 0 ⟨.returned, 0⟩, .probe 1 0 ⟨.returned, 0⟩])
      (probeSubmission.key readingDigest)).length = 2 := by decide

end PriceOracle.Ingest
